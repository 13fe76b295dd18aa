import GraphSql.Instant.Reader
import GraphSql.Json.Decode
import GraphSql.Options
import GraphSql.Query.Encode

namespace GraphSql

open Json (asString asName)

def Identifier.ofJson (json : Json) : Option Identifier := do
  let text ← asString json
  (Identifier.ofString text).toOption

def Instant.ofJson (json : Json) : Option Instant := do
  let text ← asString json
  Instant.read text

def Schema.ofJson : Json → Option Schema
  | .object members => do
      let json := Json.object members
      let default : Schema := {}
      return {
        nodes := ← json.getOr "nodes_table" default.nodes Identifier.ofJson
        edges := ← json.getOr "edges_table" default.edges Identifier.ofJson
        embeddings := ← json.getOr "embeddings_table" default.embeddings Identifier.ofJson }
  | _ => none

def Schema.toJson (schema : Schema) : Json :=
  .ofMembers [("nodes_table", .string schema.nodes.text), ("edges_table", .string schema.edges.text),
      ("embeddings_table", .string schema.embeddings.text)]

def Options.ofJson : Json → Option Options
  | .object members => do
      let json := Json.object members
      return {
        dialect := ← json.getOr "dialect" .sqlite (asName .strict)
        schema := ← json.getOr "schema" {} Schema.ofJson
        now := ← json.maybe "now" Instant.ofJson }
  | _ => none

def Options.toJson (opts : Options) : Json :=
  .ofMembers [("dialect", .ofName opts.dialect), ("schema", opts.schema.toJson),
      ("now", .ofOption (fun now => .string now.write) opts.now)]

end GraphSql
