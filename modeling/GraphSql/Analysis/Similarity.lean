import GraphSql.Analysis.Validation

namespace GraphSql

/-- The search with the address of the embedding inside of the node. -/
structure VectorSearch where
  pointer : Pointer
  search : Similarity

/-- The alias whose nodes are searched. -/
def VectorSearch.aliasName (vector : VectorSearch) : String := vector.search.field.aliasName

namespace Block

variable {σ : Type}

/-- The searches of all filters, from left to right. -/
def similarities (block : Block σ) : List Similarity := block.filters.flatMap (·.predicate.topSimilarities)

/-- A search is for at least one neighbour of an embedding of a node. -/
def checkSimilarity (block : Block σ) (dialect : Dialect) (search : Similarity) : Attempt VectorSearch := do
  let aliasName := search.field.aliasName
  match (block.binding? aliasName).map Binding.element with
  | some .node => .ok ()
  | _ => .error (.unsupported (.similarityTarget aliasName))
  let pointer ← match ← search.field.resolve with
    | .property pointer =>
        if pointer.isRoot then .error (.unsupported (.similarityField search.field.describe))
        else .ok pointer
    | _ => .error (.unsupported (.similarityField search.field.describe))
  if search.count = 0 then .error (.unsupported .similarityCount)
  dialect.checkMetric search.metric
  return ⟨pointer, search⟩

def findSimilarity (block : Block σ) (dialect : Dialect) : Attempt (Option VectorSearch) :=
  if block.filters.any (·.predicate.hasNestedSimilarity) then
    .error (.unsupported .nestedSimilarity)
  else if block.having.any Predicate.containsSimilarity then
    .error (.unsupported .similarityInHaving)
  else
    match block.similarities with
    | [] => .ok none
    | [search] => some <$> block.checkSimilarity dialect search
    | searches => .error (.unsupported (.manySimilarities searches.length))

end Block

end GraphSql
