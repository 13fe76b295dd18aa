import GraphSql.Query.SetOperation
import GraphSql.Statement.Select
import Mathlib.Data.List.Basic

namespace GraphSql

open List

variable {σ τ : Type}

theorem mapM_map_eq_some_iff {read : τ → Option σ} {write : σ → τ} {items : List σ} :
    (items.map write).mapM read = some items ↔ ∀ item ∈ items, read (write item) = some item := by
  induction items with
  | nil => simp
  | cons item rest ih =>
    rw [forall_mem_cons, ← ih, map_cons, mapM_cons]
    simp [Option.bind_eq_some_iff]

theorem any_congr_of_mem {test other : σ → Bool} {entries : List σ}
    (same : ∀ entry ∈ entries, test entry = other entry) : entries.any test = entries.any other := by
  induction entries with
  | nil => rfl
  | cons entry rest ih =>
    rw [forall_mem_cons] at same
    rw [any_cons, any_cons, same.1, ih same.2]

namespace Predicate

mutual

/-- The nested queries of a predicate, in order. -/
def nested : Predicate σ → List σ
  | .comparison .. | .text .. | .nullCheck .. | .between .. | .array .. | .object .. |
    .aggregate .. | .similarity _ => []
  | .and operands => nestedOf operands
  | .or operands => nestedOf operands
  | .not operand => nested operand
  | .subquery query _ => [query]
  | .inSubquery _ query _ => [query]

def nestedOf : List (Predicate σ) → List σ
  | [] => []
  | operand :: rest => nested operand ++ nestedOf rest

end

mutual

/-- Every similarity search of the predicate, from left to right; nested queries are not entered. -/
def searches : Predicate σ → List Similarity
  | .similarity search => [search]
  | .and operands | .or operands => searchesOf operands
  | .not operand => searches operand
  | _ => []

def searchesOf : List (Predicate σ) → List Similarity
  | [] => []
  | operand :: rest => searches operand ++ searchesOf rest

end

@[induction_eliminator] theorem induction {motive : Predicate σ → Prop}
    (comparison : ∀ field op value, motive (.comparison field op value))
    (text : ∀ field op pattern, motive (.text field op pattern))
    (nullCheck : ∀ field op, motive (.nullCheck field op))
    (between : ∀ field lower upper, motive (.between field lower upper))
    (array : ∀ field op values, motive (.array field op values))
    (object : ∀ field op pointer value, motive (.object field op pointer value))
    (aggregate : ∀ expression op value, motive (.aggregate expression op value))
    (and : ∀ operands, (∀ operand ∈ operands, motive operand) → motive (.and operands))
    (or : ∀ operands, (∀ operand ∈ operands, motive operand) → motive (.or operands))
    (not : ∀ operand, motive operand → motive (.not operand))
    (subquery : ∀ query negated, motive (.subquery query negated))
    (inSubquery : ∀ field query negated, motive (.inSubquery field query negated))
    (similarity : ∀ search, motive (.similarity search)) : ∀ predicate, motive predicate :=
  @Predicate.rec σ motive (fun operands => ∀ operand ∈ operands, motive operand) comparison text
    nullCheck between array object aggregate and or not subquery inSubquery similarity
    (forall_mem_nil _) fun _ _ first rest => forall_mem_cons.mpr ⟨first, rest⟩

theorem mapAll_eq_map (f : σ → τ) (operands : List (Predicate σ)) : mapAll f operands = operands.map (map f) := by
  induction operands with
  | nil => rfl
  | cons operand rest ih => simp [mapAll, ih]

section

variable (operands : List (Predicate σ))

theorem nestedOf_eq_flatMap : nestedOf operands = operands.flatMap nested := by
  induction operands with
  | nil => rfl
  | cons operand rest ih => simp [nestedOf, ih]

theorem searchesOf_eq_flatMap : searchesOf operands = operands.flatMap searches := by
  induction operands with
  | nil => rfl
  | cons operand rest ih => simp [searchesOf, ih]

theorem fieldsOf_eq_flatMap : fieldsOf operands = operands.flatMap fields := by
  induction operands with
  | nil => rfl
  | cons operand rest ih => simp [fieldsOf, ih]

theorem hasNestedSimilarityIn_eq_any : hasNestedSimilarityIn operands = operands.any hasNestedSimilarity := by
  induction operands with
  | nil => rfl
  | cons operand rest ih => simp [hasNestedSimilarityIn, ih]

theorem topSimilaritiesOf_eq_flatMap : topSimilaritiesOf operands = operands.flatMap topSimilarities := by
  induction operands with
  | nil => rfl
  | cons operand rest ih => simp [topSimilaritiesOf, ih]

end

theorem anyPartOf_eq_any (test : Predicate σ → Bool) (operands : List (Predicate σ)) :
    anyPartOf test operands = operands.any (anyPart test) := by
  induction operands with
  | nil => rfl
  | cons operand rest ih => simp [anyPartOf, ih]

theorem sizeOf_lt_of_mem_nested {query : Query} {predicate : Predicate Query}
    (member : query ∈ predicate.nested) : sizeOf query < sizeOf predicate := by
  induction predicate with
  | and operands ih | or operands ih =>
    rw [nested, nestedOf_eq_flatMap] at member
    obtain ⟨operand, mem, inner⟩ := mem_flatMap.mp member
    have within := Nat.lt_trans (ih operand mem inner) (sizeOf_lt_of_mem mem)
    simp only [and.sizeOf_spec, or.sizeOf_spec]
    omega
  | not operand ih =>
    have within := ih member
    rw [not.sizeOf_spec]
    omega
  | subquery | inSubquery =>
    rw [mem_singleton.mp member]
    simp only [subquery.sizeOf_spec, inSubquery.sizeOf_spec]
    omega
  | _ => cases member

theorem nested_map (f : σ → τ) (predicate : Predicate σ) : (predicate.map f).nested = predicate.nested.map f := by
  induction predicate with
  | and operands ih | or operands ih =>
    simp only [map, nested, mapAll_eq_map, nestedOf_eq_flatMap, flatMap_map, map_flatMap]
    exact flatMap_congr ih
  | not operand ih => simpa [map, nested] using ih
  | _ => simp [map, nested]

end Predicate

namespace Block

/-- The nested queries of a block. -/
def nested (block : Block σ) : List σ :=
  block.filters.flatMap (·.predicate.nested) ++ block.having.toList.flatMap Predicate.nested

/-- Every similarity search of the query outside of its nested queries. -/
def searches (block : Block σ) : List Similarity :=
  block.filters.flatMap (·.predicate.searches) ++ block.having.toList.flatMap Predicate.searches

theorem nested_map (f : σ → τ) (block : Block σ) : (block.map f).nested = block.nested.map f := by
  cases found : block.having <;>
    simp [nested, map, found, Filter.map, Predicate.nested_map, flatMap_map, map_flatMap]

end Block

namespace Query

/-- A block has the property whenever its nested queries have it. -/
def Hereditary (motive : Query → Prop) : Prop :=
  ∀ block : Block Query, (∀ query ∈ block.nested, motive query) → motive (.mk block)

theorem sizeOf_lt_of_mem_nested {query : Query} {block : Block Query}
    (member : query ∈ block.nested) : sizeOf query < sizeOf (mk block) := by
  obtain ⟨_, _, _, filters, _, _, having, _, _, _, _, _⟩ := block
  rcases mem_append.mp member with inFilters | inHaving
  · obtain ⟨filter, mem, inner⟩ := mem_flatMap.mp inFilters
    have within := sizeOf_lt_of_mem mem
    have small := Predicate.sizeOf_lt_of_mem_nested inner
    cases filter
    simp only [mk.sizeOf_spec, Block.mk.sizeOf_spec, Filter.mk.sizeOf_spec] at *
    omega
  · obtain ⟨predicate, mem, inner⟩ := mem_flatMap.mp inHaving
    have small := Predicate.sizeOf_lt_of_mem_nested inner
    rw [Option.mem_toList] at mem
    obtain rfl := mem
    simp only [mk.sizeOf_spec, Block.mk.sizeOf_spec, Option.some.sizeOf_spec]
    omega

theorem induction_nested {motive : Query → Prop} (step : Hereditary motive) : (query : Query) → motive query
  | .mk block => by
    apply step
    intro query mem
    have smaller := sizeOf_lt_of_mem_nested mem
    exact induction_nested step query
decreasing_by exact smaller

end Query

@[induction_eliminator] theorem SetOperand.induction {motive : SetOperand → Prop}
    (query : ∀ query, motive (.query query))
    (operation : ∀ op left right orderBy limit offset, motive left → motive right →
      motive (.operation ⟨op, left, right, orderBy, limit, offset⟩)) :
    ∀ operand, motive operand :=
  @SetOperand.rec motive (fun operation => motive (.operation operation)) query (fun _ => id) operation

end GraphSql
