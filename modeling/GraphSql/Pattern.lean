import GraphSql.Json
import GraphSql.Named

namespace GraphSql

namespace Pattern

/-- Puts a backslash before every wildcard and every backslash, so that LIKE takes the text
literally. -/
def escapeLike (text : List Char) : List Char :=
  text.flatMap fun c => if c = '\\' || c = '%' || c = '_' then ['\\', c] else [c]

/-- A character that GLOB takes literally; its special characters stand in a class of their own. -/
def globLiteral (c : Char) : List Char := if c = '*' || c = '?' || c = '[' || c = ']' then ['[', c, ']'] else [c]

/-- The GLOB pattern that matches what the LIKE pattern matches with backslash as its escape. -/
def likeToGlob : List Char → List Char
  | [] => []
  | '%' :: rest => '*' :: likeToGlob rest
  | '_' :: rest => '?' :: likeToGlob rest
  | ['\\'] => globLiteral '\\'
  | '\\' :: c :: rest => globLiteral c ++ likeToGlob rest
  | c :: rest => globLiteral c ++ likeToGlob rest

end Pattern

/-- What is done to a value before it is bound. -/
inductive Transform where
  | identity
  | contains
  | startsWith
  | endsWith
  | escaped
  | likeToGlob
  deriving DecidableEq, Repr

instance : Named Transform where
  members := [.identity, .contains, .startsWith, .endsWith, .escaped, .likeToGlob]
  name
    | .identity => "identity"
    | .contains => "contains"
    | .startsWith => "starts_with"
    | .endsWith => "ends_with"
    | .escaped => "escaped"
    | .likeToGlob => "like_to_glob"

namespace Transform

/-- The pattern made of a text. -/
def onText : Transform → List Char → List Char
  | .identity, text => text
  | .contains, text => '%' :: (Pattern.escapeLike text ++ ['%'])
  | .startsWith, text => Pattern.escapeLike text ++ ['%']
  | .endsWith, text => '%' :: Pattern.escapeLike text
  | .escaped, text => Pattern.escapeLike text
  | .likeToGlob, text => Pattern.likeToGlob text

/-- Every transform but the identity needs a string. -/
def apply : Transform → Json → Option Json
  | .identity, value => some value
  | transform, .string text => some (.string (String.ofList (transform.onText text.toList)))
  | _, _ => none

end Transform

end GraphSql
