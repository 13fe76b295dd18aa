import GraphSql.Proofs.Equivalence.WalkRows
import GraphSql.Proofs.Independence.Compile

namespace GraphSql

open List Traced

variable {σ τ ι : Type}

theorem Dialect.checkMetric_of_ne {metric : Metric} (common : metric ≠ .innerProduct)
    (dialect : Dialect) : dialect.checkMetric metric = .ok () := by
  cases metric with
  | cosine | euclidean => cases dialect <;> rfl
  | innerProduct => exact absurd rfl common

namespace Predicate

/-- Not every dialect has the metric of the search, or takes the literal for a pattern. -/
def isDialectBound : Predicate σ → Bool
  | .similarity search => search.metric == .innerProduct
  | .text _ .like (.literal (.string _) _) => false
  | .text _ .like (.literal _ _) => true
  | _ => false

/-- No part of the predicate is bound to a dialect; nested queries are not entered. -/
def isPortable (predicate : Predicate σ) : Bool := !predicate.anyPart isDialectBound

section

variable (operands : List (Predicate σ))

theorem not_anyPartOf_isDialectBound : (!anyPartOf isDialectBound operands) = operands.all isPortable := by
  rw [anyPartOf_eq_any, not_any_eq_all_not]
  rfl

theorem isPortable_and : (and operands).isPortable = operands.all isPortable := not_anyPartOf_isDialectBound operands

theorem isPortable_or : (or operands).isPortable = operands.all isPortable := not_anyPartOf_isDialectBound operands

end

theorem isPortable_not (operand : Predicate σ) : (not operand).isPortable = operand.isPortable := rfl

/-- Nested queries do not decide about the predicate itself. -/
theorem isPortable_map (f : σ → τ) (predicate : Predicate σ) : (predicate.map f).isPortable = predicate.isPortable := by
  induction predicate with
  | and operands ih | or operands ih =>
    simp only [map, isPortable_and, isPortable_or, mapAll_eq_map, all_map]
    rw [Bool.eq_iff_iff, all_eq_true, all_eq_true]
    exact forall₂_congr fun operand mem => Bool.eq_iff_iff.mp (ih operand mem)
  | not operand ih => rw [map, isPortable_not, isPortable_not, ih]
  | text _ op pattern =>
    simp only [map, isPortable, anyPart]
    rcases pattern with ⟨_ | _ | _ | _ | _ | _, _⟩ | _ | _ <;> cases op <;> rfl
  | _ => rfl

/-- A portable predicate searches by metrics that every dialect has. -/
theorem metric_of_isPortable (predicate : Predicate σ) (portable : predicate.isPortable = true) :
    ∀ search ∈ predicate.topSimilarities, search.metric ≠ .innerProduct := by
  induction predicate with
  | and operands ih =>
    rw [isPortable_and, all_eq_true] at portable
    rw [topSimilarities, topSimilaritiesOf_eq_flatMap, forall_mem_flatMap]
    exact fun operand mem => ih operand mem (portable operand mem)
  | similarity search => simpa [topSimilarities, isPortable, anyPart, isDialectBound] using portable
  | _ => simp [topSimilarities]

variable {field : Field} {op : TextOperator} {pattern : Operand}
variable (portable : (text field op pattern : Predicate σ).isPortable = true)
variable (dialect other : Dialect)

include portable

theorem term_sameVerdict : SameVerdict (pattern.term (patternTransform dialect op))
      (pattern.term (patternTransform other op)) := by
  cases op with
  | contains | startsWith | endsWith | ilike => exact sameVerdict_refl _
  | like =>
    cases pattern with
    | parameter => trivial
    | list => exact sameVerdict_refl _
    | literal value valueType =>
      cases value with
      | string text => cases dialect <;> cases other <;> trivial
      | null | bool | number | array | object => cases portable

theorem lowerText_sameVerdict {scope : Scope} : SameVerdict (lowerText dialect scope field op pattern)
      (lowerText other scope field op pattern) := by
  rw [lowerText_eq, lowerText_eq]
  apply coincide_bind_same
  intro _
  apply coincide_bind_same
  intro text
  exact (term_sameVerdict portable dialect other).bind fun _ _ _ => trivial

end Predicate

/-- Two nested queries with the same columns become statements, or neither does. -/
structure Nested.SameVerdict (first second : Nested) : Prop where
  projection : first.projection = second.projection
  outcome : GraphSql.SameVerdict first.outcome.result second.outcome.result

namespace Predicate

variable {first second : ι → Nested}

theorem lowerAll_sameVerdict {dialect other : Dialect} {scope : Scope} {operands : List (Predicate ι)}
    (each : ∀ operand ∈ operands, SameVerdict ((operand.map first).lower dialect scope).result
      ((operand.map second).lower other scope).result) :
    SameVerdict (lowerAll dialect scope (mapAll first operands)).result
      (lowerAll other scope (mapAll second operands)).result := by
  induction operands with
  | nil => trivial
  | cons operand rest ih =>
    rw [forall_mem_cons] at each
    simp only [mapAll, lowerAll, result_bind, result_pure]
    apply each.1.bind
    intro _ _ _
    exact (ih each.2).bind fun _ _ _ => trivial

theorem lower_sameVerdict (dialect other : Dialect) (scope : Scope) (predicate : Predicate ι)
    (portable : predicate.isPortable = true)
    (nested : ∀ inner ∈ predicate.nested, (first inner).SameVerdict (second inner)) :
    SameVerdict ((predicate.map first).lower dialect scope).result
      ((predicate.map second).lower other scope).result := by
  induction predicate with
  | text => exact lowerText_sameVerdict portable dialect other
  | similarity => trivial
  | and operands ih | or operands ih =>
    simp only [isPortable_and, isPortable_or, all_eq_true] at portable
    rw [Predicate.nested, nestedOf_eq_flatMap, forall_mem_flatMap] at nested
    have conditions := lowerAll_sameVerdict fun operand mem =>
      ih operand mem (portable operand mem) (nested operand mem)
    cases operands with
    | nil => trivial
    | cons =>
      simp only [map, mapAll, lower, result_bind, result_pure]
      exact conditions.bind fun _ _ _ => trivial
  | not operand ih =>
    rw [isPortable_not] at portable
    simp only [map, lower, result_bind, result_pure]
    exact (ih portable nested).bind fun _ _ _ => trivial
  | subquery inner negated =>
    simp only [map, lower, result_bind, result_pure]
    exact (nested inner mem_cons_self).outcome.bind fun _ _ _ => trivial
  | inSubquery field inner negated =>
    obtain ⟨projection, outcome⟩ := nested inner mem_cons_self
    simp only [map, lower, result_bind, result_pure, projection]
    apply coincide_bind_same
    intro term
    exact outcome.bind fun _ _ _ => trivial
  | _ => exact sameVerdict_refl _

end Predicate

open Predicate

theorem TemporalMode.now_eq_of_clock {opts changed : Options} (clock : opts.now = changed.now)
    (mode : TemporalMode) : mode.now opts = mode.now changed := by
  cases mode <;> simp [now, clock]

/-- Decisions hold no nested queries. -/
theorem Decisions.revise_plain (picks : Decisions) (nested : σ → τ) (now : Option Term) :
    picks.revise (.plain nested) now = { picks with now } := by
  cases found : picks.vector <;>
    simp [revise, found, VectorSearch.revise, Similarity.revise, Revision.plain]

/-- Both SELECTs have the clauses that the same plans ask for. -/
def Select.SameClauses (first second : Select σ) : Prop := ∀ plan, first.check plan = second.check plan

namespace Block

/-- No predicate of the block is bound to a dialect; nested queries are not entered. -/
def isPortable (block : Block σ) : Bool :=
  block.filters.all (·.predicate.isPortable) && block.having.all Predicate.isPortable

theorem isPortable_map (f : σ → τ) (block : Block σ) : (block.map f).isPortable = block.isPortable := by
  cases found : block.having <;>
    simp [isPortable, map, found, Filter.map, Predicate.isPortable_map, all_map, Function.comp_def]

section Analysis

variable {block : Block σ} (portable : block.isPortable = true)
include portable

theorem isPortable_of_mem_filters {filter : Filter σ} (mem : filter ∈ block.filters) :
    filter.predicate.isPortable = true := by
  rw [isPortable, Bool.and_eq_true, all_eq_true] at portable
  exact portable.1 filter mem

theorem metric_of_mem_similarities {search : Similarity} (mem : search ∈ block.similarities) :
    search.metric ≠ .innerProduct := by
  obtain ⟨filter, member, found⟩ := mem_flatMap.mp mem
  exact metric_of_isPortable _ (isPortable_of_mem_filters portable member) search found

theorem findSimilarity_of_isPortable (dialect other : Dialect) :
    block.findSimilarity dialect = block.findSimilarity other := by
  have checked : ∀ search ∈ block.similarities,
      block.checkSimilarity dialect search = block.checkSimilarity other search := by
    intro search mem
    have common := metric_of_mem_similarities portable mem
    simp [checkSimilarity, Dialect.checkMetric_of_ne common]
  unfold findSimilarity
  cases found : block.similarities with
  | nil => rfl
  | cons search rest =>
    cases rest with
    | nil =>
      rw [found] at checked
      simp [checked search mem_cons_self]
    | cons => rfl

theorem analyzeReferences_of_isPortable (dialect other : Dialect) :
    (block.analyzeReferences dialect).result = (block.analyzeReferences other).result := by
  rw [result_analyzeReferences, result_analyzeReferences, findSimilarity_of_isPortable portable dialect other]

variable {opts changed : Options} (clock : opts.now = changed.now)
include clock

theorem analyzeChain_of_isPortable : (block.analyzeChain opts).result = (block.analyzeChain changed).result := by
  have decided : block.chainDecisions opts = block.chainDecisions changed := by
    funext vector
    simp [chainDecisions, block.temporal.now_eq_of_clock clock]
  rw [result_analyzeChain, result_analyzeChain, decided,
    analyzeReferences_of_isPortable portable opts.dialect changed.dialect]

theorem analyzeWalk_of_isPortable : (block.analyzeWalk opts).result = (block.analyzeWalk changed).result := by
  have decided : block.walkDecisions opts = block.walkDecisions changed := by
    funext vector
    simp [walkDecisions, block.temporal.now_eq_of_clock clock]
  rw [result_analyzeWalk, result_analyzeWalk, decided,
    analyzeReferences_of_isPortable portable opts.dialect changed.dialect]

variable (first second : σ → τ)

omit portable in
theorem now_map_of_clock : (block.revise (.plain first)).temporal.now opts =
      (block.revise (.plain second)).temporal.now changed := by
  rw [revise_plain, revise_plain]
  exact block.temporal.now_eq_of_clock clock

/-- A chain is analyzed alike in every dialect, whatever becomes of its nested queries. -/
theorem analyzeChain_map : ((block.map first).analyzeChain opts).result =
      ((block.map second).analyzeChain changed).result := by
  rw [← revise_plain, ← revise_plain, analyzeChain_revise (Revision.keepsFixed_plain first) rfl,
    analyzeChain_revise (Revision.keepsFixed_plain second) rfl,
    analyzeChain_of_isPortable portable clock]
  simp [Decisions.revise_plain, now_map_of_clock clock first second]

theorem analyzeWalk_map : ((block.map first).analyzeWalk opts).result =
      ((block.map second).analyzeWalk changed).result := by
  rw [← revise_plain, ← revise_plain, analyzeWalk_revise rfl, analyzeWalk_revise rfl,
    analyzeWalk_of_isPortable portable clock]
  simp [Decisions.revise_plain, now_map_of_clock clock first second]

end Analysis

section Lowering

variable {first second : ι → Nested} {block : Block ι} {picks : Decisions}
variable (portable : block.isPortable = true)
variable (nested : ∀ inner ∈ block.nested, (first inner).SameVerdict (second inner))
include portable nested

theorem lowerPlaced_sameVerdict (dialect other : Dialect) (scope : Scope) (place : Option String) :
    SameVerdict ((block.map first).lowerPlaced dialect picks scope place).result
      ((block.map second).lowerPlaced other picks scope place).result := by
  have placed : ∀ f : ι → Nested, (block.map f).placedAt picks.placements place =
      mapAll f (block.placedAt picks.placements place) := by
    intro f
    rw [← revise_plain, placedAt_revise, mapAll_eq_map]
    exact map_congr_left fun filter _ => Predicate.revise_plain f filter
  simp only [lowerPlaced, placed]
  refine lowerAll_sameVerdict fun predicate placed => ?_
  obtain ⟨filter, mem, rfl⟩ := exists_filter_of_mem_placedAt placed
  exact lower_sameVerdict dialect other scope _ (isPortable_of_mem_filters portable mem)
    fun inner member => nested inner (mem_append_left _ (mem_flatMap.mpr ⟨filter, mem, member⟩))

theorem hopConditions_sameVerdict (dialect other : Dialect) (hop : Traversal) :
    SameVerdict ((block.map first).hopConditions dialect picks hop).result
      ((block.map second).hopConditions other picks hop).result := by
  simp only [hopConditions, result_bind, result_pure]
  exact (lowerPlaced_sameVerdict portable nested dialect other hop.scope _).bind fun _ _ _ => trivial

theorem having_sameVerdict (output : Output) (dialect other : Dialect) :
    Coincide (fun condition returned => condition.isSome = returned.isSome)
      (output.having dialect (block.map first).having).result
      (output.having other (block.map second).having).result := by
  cases found : block.having with
  | none =>
    simp only [map, found]
    rfl
  | some predicate =>
    have restricted : predicate.isPortable = true := by
      rw [isPortable, Bool.and_eq_true, found] at portable
      exact portable.2
    have inside : ∀ inner ∈ predicate.nested, (first inner).SameVerdict (second inner) :=
      fun inner mem => nested inner (nested_having (Option.mem_def.mpr found) mem)
    simp only [map, found, Option.map_some, Output.having, result_bind, result_pure]
    apply (predicate.lower_sameVerdict dialect other output.aggregateScope restricted inside).bind
    intro _ _ _
    rfl

variable (env : Setting) (changed : Options)

theorem startRowSet_sameVerdict : SameVerdict ((block.map first).startRowSet env picks).result
      ((block.map second).startRowSet { env with opts := changed } picks).result := by
  simp only [startRowSet, result_bind, result_pure]
  exact (lowerPlaced_sameVerdict portable nested env.opts.dialect changed.dialect
    block.startScope (some block.start.aliasName)).bind fun _ _ _ => trivial

theorem rowSetOf_sameVerdict (hop : Traversal) (later : List Traversal) :
    SameVerdict ((block.map first).rowSetOf env picks hop later).result
      ((block.map second).rowSetOf { env with opts := changed } picks hop later).result := by
  unfold rowSetOf
  -- A row set of counts and one of hops fail for the same reason, the predicates placed there.
  repeat' split
  all_goals
    simp only [countRowSet, hopRowSet, result_bind, result_pure]
    exact (hopConditions_sameVerdict portable nested env.opts.dialect changed.dialect hop).bind fun _ _ _ => trivial

theorem hopRowSets_sameVerdict (hops : List Traversal) :
    SameVerdict ((block.map first).hopRowSets env picks hops).result
      ((block.map second).hopRowSets { env with opts := changed } picks hops).result := by
  induction hops with
  | nil => trivial
  | cons hop later ih =>
    rw [result_hopRowSets_cons, result_hopRowSets_cons]
    apply (rowSetOf_sameVerdict portable nested env changed hop later).bind
    exact fun _ _ _ => ih.bind fun _ _ _ => trivial

theorem chainSelect_sameClauses : Coincide Select.SameClauses ((block.map first).chainSelect env picks).result
      ((block.map second).chainSelect { env with opts := changed } picks).result := by
  have having : Coincide (fun condition returned => condition.isSome = returned.isSome) (if picks.counts.isNone then
        ((block.chainOutput env picks).having env.opts.dialect (block.map first).having).result else pure none)
      (if picks.counts.isNone then
        ((block.chainOutput env picks).having changed.dialect (block.map second).having).result else pure none) := by
    split
    · exact having_sameVerdict portable nested _ env.opts.dialect changed.dialect
    · rfl
  rw [result_chainSelect, result_chainSelect]
  apply coincide_bind_same
  intro columns
  apply (lowerPlaced_sameVerdict portable nested env.opts.dialect changed.dialect _ none).bind
  intro _ _ _
  apply coincide_bind_same
  intro groupBy
  apply having.bind
  intro condition returned sameHaving
  apply coincide_bind_same
  intro orderBy plan
  simp only [Select.check, sameHaving]
  rfl

theorem chainLevel_sameClauses : Coincide (fun level other => level.select.SameClauses other.select)
      ((block.map first).chainLevel env picks).result
      ((block.map second).chainLevel { env with opts := changed } picks).result := by
  simp only [chainLevel, result_bind, result_pure]
  apply (startRowSet_sameVerdict portable nested env changed).bind
  intro _ _ _
  apply (hopRowSets_sameVerdict portable nested env changed block.traversals).bind
  intro _ _ _
  apply (chainSelect_sameClauses portable nested env changed).bind
  intro _ _ same
  exact same

theorem walkSelect_sameClauses (walk : Walk) :
    Coincide Select.SameClauses (walk.select (block.map first) env picks).result
      (walk.select (block.map second) { env with opts := changed } picks).result := by
  simp only [Walk.select, result_bind, result_pure]
  apply coincide_bind_same
  intro columns
  apply (lowerPlaced_sameVerdict portable nested env.opts.dialect changed.dialect _ none).bind
  intro _ _ _
  apply coincide_bind_same
  intro groupBy
  apply (having_sameVerdict portable nested _ env.opts.dialect changed.dialect).bind
  intro condition returned sameHaving
  apply coincide_bind_same
  intro orderBy plan
  simp only [Select.check, sameHaving]
  rfl

/-- A walk has a statement in every dialect or in none. Some dialects extend walks by one member and
others by two, but the predicates in them are the same. -/
theorem walkLevel_sameClauses (kinds : ∀ hop ∈ block.traversals, hop.allKinds ≠ []) :
    Coincide (fun level other => level.select.SameClauses other.select) ((block.map first).walkLevel env picks).result
      ((block.map second).walkLevel { env with opts := changed } picks).result := by
  have same : ∀ f : ι → Nested, (block.map f).walk = block.walk := fun _ => rfl
  cases found : block.walk with
  | error error =>
    simp only [walkLevel, result_bind, same, found]
    rfl
  | ok walk =>
    obtain ⟨traversals, -⟩ := walk_spec found
    have kinded : walk.hop.edgeKinds ≠ [] ∨ walk.hop.inverseEdgeKinds ≠ [] := by
      have mem := kinds walk.hop (by rw [traversals]; exact mem_singleton_self _)
      rw [Traversal.allKinds, Ne, append_eq_nil_iff] at mem
      exact not_and_or.mp mem
    rw [Walk.result_walkLevel ((same first).trans found) kinded,
      Walk.result_walkLevel ((same second).trans found) kinded]
    apply (lowerPlaced_sameVerdict portable nested env.opts.dialect changed.dialect
      block.startScope (some block.start.aliasName)).bind
    intro _ _ _
    apply (lowerPlaced_sameVerdict portable nested env.opts.dialect changed.dialect walk.hop.scope _).bind
    intro _ _ _
    apply (walkSelect_sameClauses portable nested env changed walk).bind
    intro _ _ same
    exact same

end Lowering

end Block

end GraphSql
