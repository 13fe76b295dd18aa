import GraphSql.Proofs.Independence.Level

namespace GraphSql

open Block CompiledQuery Fragment Revision Traced

variable {σ τ ι : Type}

theorem Revision.keepsFixed_masking (rename : String → String) (nested : σ → τ) :
    (masking rename nested).KeepsFixed := by
  intro operand
  rcases operand with ⟨_ | _ | _ | _ | _ | _, _⟩ | _ | _ <;> rfl

theorem Decisions.revise_revise_plain (picks : Decisions) (nested : σ → τ)
    (revision : Revision σ τ) (now other : Option Term) :
    (picks.revise (.plain nested) now).revise revision other = picks.revise revision other := by
  cases found : picks.vector <;>
    simp [revise, found, VectorSearch.revise, Similarity.revise, plain]

theorem Select.check_outline (text : σ → τ) (select : Select σ) (plan : Plan) :
    (select.outline text).check plan = select.check plan := by
  simp [Select.check, Select.outline]

/-- What is compared of a level and its plan. -/
def outlined (text : Statement → τ) (compiled : Level Statement × Plan) : Level τ × Plan :=
  (compiled.1.outline text, compiled.2)

namespace Block

variable {text : Statement → τ} {rename : String → String} {first second : ι → Nested}
variable {block : Block ι} {env changed : Setting}

theorem moments_alike (envs : env.Alike changed) (picks : Decisions) :
    ((block.revise (.masking rename second)).temporal.now changed.opts).map Term.blank = (picks.revise (.plain first)
        ((block.revise (.plain first)).temporal.now env.opts)).now.map Term.blank :=
  (block.temporal.blank_now_revise envs.opts.pinned).trans (block.temporal.blank_now_revise rfl).symm

variable (envs : env.Alike changed)
variable (alike : ∀ inner ∈ block.nested, (first inner).Alike text (second inner))
include envs alike

theorem compileChain_masked : AgreeOn (outlined text) ((block.revise (.plain first)).compileChain env).result
      ((block.revise (.masking rename second)).compileChain changed).result := by
  simp only [compileChain, result_bind, result_pure]
  rw [analyzeChain_revise (keepsFixed_plain first) (rfl : env.opts.dialect = _),
    analyzeChain_revise (keepsFixed_masking rename second) envs.dialect]
  apply agree_bind_map
  rintro ⟨picks, plan⟩
  dsimp only
  rw [← picks.revise_revise_plain first (.masking rename second)
    ((block.revise (.plain first)).temporal.now env.opts)]
  refine (chainLevel_masked envs alike rfl (moments_alike envs picks)).bind fun level other same => ?_
  exact congrArg (·, plan) same

variable (injective : Function.Injective rename)
include injective

theorem compileWalk_masked : AgreeOn (outlined text) ((block.revise (.plain first)).compileWalk env).result
      ((block.revise (.masking rename second)).compileWalk changed).result := by
  simp only [compileWalk, result_bind, result_pure]
  rw [analyzeWalk_revise (rfl : env.opts.dialect = _), analyzeWalk_revise envs.dialect]
  apply agree_bind_map
  rintro ⟨picks, plan⟩
  dsimp only
  rw [← picks.revise_revise_plain first (.masking rename second)
    ((block.revise (.plain first)).temporal.now env.opts)]
  refine (walkLevel_masked envs alike rfl (moments_alike envs picks) injective).bind
    fun level other same => ?_
  exact congrArg (·, plan) same

theorem compileLevel_masked : AgreeOn (outlined text) ((block.revise (.plain first)).compileLevel env).result
      ((block.revise (.masking rename second)).compileLevel changed).result := by
  simp only [compileLevel, isSingleHop_revise, isWalk_revise]
  by_cases single : block.isSingleHop = true
  · simp only [single, if_true, result_bind, result_logged, withoutWalks_revise]
    exact compileChain_masked envs alike
  · by_cases walk : block.isWalk = true
    · simp only [single, walk, if_true]
      exact compileWalk_masked envs alike injective
    · simp only [single, walk]
      exact compileChain_masked envs alike

theorem compile_masked : AgreeOn (outlined text) ((block.revise (.plain first)).compile env).result
      ((block.revise (.masking rename second)).compile changed).result := by
  simp only [compile, result_bind, result_pure]
  apply (compileLevel_masked envs alike injective).bind
  rintro ⟨level, plan⟩ ⟨other, otherPlan⟩ same
  obtain ⟨outlines, plans⟩ := Prod.mk.inj same
  have selects : level.select.outline text = other.select.outline text := congrArg Level.select outlines
  have checks : level.select.check plan = other.select.check otherPlan := by
    rw [← Select.check_outline text level.select, selects, Select.check_outline]
    exact congrArg other.select.check plans
  simp only [checks]
  exact agree_bind_same fun _ => same

end Block

namespace Query

variable {rename : String → String} {opts changed : Options}

/-- The query with masked values and renamed kinds, in nested queries too. -/
def masked (rename : String → String) : Query → Query := fold fun block => .mk (block.revise (.masking rename id))

theorem masked_mk (rename : String → String) (block : Block Query) :
    (mk block).masked rename = .mk (block.revise (.masking rename (masked rename))) := by
  rw [masked, fold_mk, ← revise_plain, revise_revise]
  rfl

theorem map_revise_masking (nested : Query → Nested) (block : Block Query) :
    (block.revise (.masking rename (masked rename))).map nested =
      block.revise (.masking rename fun inner => nested (inner.masked rename)) := by
  rw [← revise_plain, revise_revise]
  rfl

theorem nest_masked (injective : Function.Injective rename) (alike : opts.Alike changed) : ∀ query : Query,
      (query.fold (nest opts)).Alike (Statement.outline opts.dialect opts.schema)
        ((query.masked rename).fold (nest changed)) := by
  refine induction_nested fun block ih => ?_
  rw [masked_mk, fold_mk, fold_mk, map_revise_masking, ← revise_plain]
  refine ⟨rfl, ?_⟩
  have graphs : ∀ revision : Revision Query Nested,
      (block.revise revision).graphId = block.graphId.map revision.graph := fun _ => rfl
  simp only [nest, graphs]
  cases block.graphId with
  | none => trivial
  | some graphId =>
    simp only [Option.map_some, result_bind, result_pure]
    have envs : Setting.Alike { opts, graphId } { opts := changed, graphId := "" } := ⟨alike, rfl⟩
    refine (Block.compile_masked envs ih injective).bind fun compiled other same => ?_
    exact Statement.outline_mk_eq _ _ (Prod.mk.inj same).1

theorem statement_masked (injective : Function.Injective rename) (alike : opts.Alike changed)
    (graphId other : String) (query : Query) :
    AgreeOn (fun compiled => (compiled.1.outline opts.dialect opts.schema, compiled.2))
      (query.statement opts graphId).result
      ((query.masked rename).statement changed other).result := by
  obtain ⟨block⟩ := query
  have plain : (mk block).nested opts = block.revise (.plain (fold (nest opts))) := (revise_plain _ block).symm
  have nested : ((mk block).masked rename).nested changed = block.revise (.masking rename fun inner =>
      (inner.masked rename).fold (nest changed)) := by
    rw [masked_mk]
    exact map_revise_masking _ block
  have envs : Setting.Alike { opts, graphId } { opts := changed, graphId := other } := ⟨alike, rfl⟩
  simp only [statement, result_bind, result_logged, result_pure, nested, plain]
  refine agree_bind_same fun _ => ?_
  refine (Block.compile_masked envs (fun inner _ => nest_masked injective alike inner)
    injective).bind fun compiled other same => ?_
  obtain ⟨outlines, plans⟩ := Prod.mk.inj same
  exact Prod.ext (Statement.outline_mk_eq _ _ outlines) plans

end Query

/-- The compiled query without the values of its slots. -/
def CompiledQuery.blank (compiled : CompiledQuery) : CompiledQuery :=
  { compiled with fragment := compiled.fragment.blank }

theorem Query.compile_masked {rename : String → String} (injective : Function.Injective rename)
    {opts changed : Options} (alike : opts.Alike changed) (graphId other : String)
    (query : Query) :
    AgreeOn CompiledQuery.blank (query.compile opts graphId).result
      ((query.masked rename).compile changed other).result := by
  simp only [compile, result_bind]
  refine (statement_masked injective alike graphId other query).bind fun first second same => ?_
  obtain ⟨outlines, plans⟩ := Prod.mk.inj same
  have fragments : (first.1.print opts.dialect opts.schema).blank =
      (second.1.print opts.dialect opts.schema).blank := outlines
  simp only [finish, result_bind, result_logged, result_pure, alike.dialect, alike.schema]
  refine agree_bind_same fun _ => ?_
  simp [CompiledQuery.blank, fragments, plans]

/-- Both compiled queries have the same text and plan, equally many slots, and the same names at the
same slots. -/
structure CompiledQuery.Alike (first second : CompiledQuery) : Prop where
  text : second.text = first.text
  plan : second.plan = first.plan
  length : second.slots.length = first.slots.length
  named : ∀ (index : Nat) (name : String) (transform : Transform),
    second.slots[index]? = some (.named name transform) ↔ first.slots[index]? = some (.named name transform)

theorem Slot.blank_eq_named {slot : Slot} {name : String} {transform : Transform} :
    slot.blank = .named name transform ↔ slot = .named name transform := by
  cases slot <;> simp [blank]

theorem CompiledQuery.alike_of_blank_eq {first second : CompiledQuery}
    (same : first.blank = second.blank) : first.Alike second := by
  simp only [blank, mk.injEq] at same
  obtain ⟨dialects, fragments, plans⟩ := same
  have slots : second.slots.map Slot.blank = first.slots.map Slot.blank := by
    rw [CompiledQuery.slots, CompiledQuery.slots, ← slots_blank, ← slots_blank, fragments]
  have named : ∀ (compiled : CompiledQuery) (index : Nat) (name : String) (transform : Transform),
      compiled.slots[index]? = some (.named name transform) ↔
        (compiled.slots.map Slot.blank)[index]? = some (.named name transform) := by
    intro compiled index name transform
    simp [Slot.blank_eq_named]
  refine ⟨?_, plans.symm, ?_, ?_⟩
  · rw [text, text, Fragment.text, Fragment.text, dialects,
      ← textFrom_blank _ _ second.fragment, ← textFrom_blank _ _ first.fragment,
      fragments]
  · simpa using congrArg List.length slots
  · intro index name transform
    rw [named, slots, ← named]

/-- Values never influence the text: a query that differs in values only, and in kinds by an injective
renaming, compiles for any graph to the same text and plan. -/
theorem compile_ignores_values {rename : String → String} (injective : Function.Injective rename)
    {query other : Query} (masks : other.masked id = query.masked rename)
    {opts changed : Options} (alike : opts.Alike changed) (graphId otherGraph : String)
    {compiled : CompiledQuery} (returned : (query.compile opts graphId).result = .ok compiled) :
    ∃ result, (other.compile changed otherGraph).result = .ok result ∧ compiled.Alike result := by
  have masked := query.compile_masked injective alike graphId otherGraph
  have unchanged : changed.Alike changed := ⟨rfl, rfl, rfl⟩
  have others := other.compile_masked Function.injective_id unchanged otherGraph otherGraph
  obtain ⟨middle, middleReturned, same⟩ := masked.exists_ok returned
  rw [← masks] at middleReturned
  obtain ⟨result, resultReturned, sameOther⟩ := others.symm.exists_ok middleReturned
  exact ⟨result, resultReturned, CompiledQuery.alike_of_blank_eq (same.trans sameOther)⟩

/-- Whom people of some names know in up to three steps, if a post has enough likes. -/
def acquaintances (person knows post : String) (names : List String) (likes : Nat)
    (graphId timestamp : String) : Query :=
  let popular : Query := .mk ((Block.ofKind "p" post).withGraph graphId |>.filterBy .node "p"
    (.comparison (.ofProperty "p" "likes") .greater (.literal (.ofNat likes) none)))
  let steps : Traversal :=
    { Traversal.outwardFrom "a" "e" knows "b" person with
      inverseEdgeKinds := [post, knows]
      walk := some { minDepth := 1, maxDepth := 3 } }
  let named := (Block.ofKind "a" person).traverse steps |>.filterBy .node "a"
    (.comparison (.ofProperty "a" "name") .isIn (.list (names.map Json.string) none))
  .mk { named.filterBy .node "b" (.subquery popular false) with temporal := .asOf timestamp }

theorem acquaintances_ignore_values :
    ∃ compiled result,
      ((acquaintances "person" "knows" "post" ["Ann", "Bob"] 3 "posts" "2024-01-01").compile
        { now := some ⟨⟨2024, 5, 17⟩, 0, 0⟩ } "people").result = .ok compiled ∧
      ((acquaintances "my person" "my knows" "my post" ["O'Neil", "?"] 70 "news" "yesterday").compile
        { now := some ⟨⟨1999, 12, 31⟩, 86399, 1⟩ } "users").result = .ok result ∧
      compiled.Alike result := by
  have injective : Function.Injective ("my " ++ ·) := fun _ _ same => (String.append_right_inj _).mp same
  have masks :
      (acquaintances "my person" "my knows" "my post" ["O'Neil", "?"] 70 "news" "yesterday").masked id =
        (acquaintances "person" "knows" "post" ["Ann", "Bob"] 3 "posts" "2024-01-01").masked
          ("my " ++ ·) := rfl
  have pinned : Options.Alike { now := some ⟨⟨2024, 5, 17⟩, 0, 0⟩ }
      { now := some ⟨⟨1999, 12, 31⟩, 86399, 1⟩ } := ⟨rfl, rfl, rfl⟩
  obtain ⟨result, returned, alike⟩ := compile_ignores_values injective masks pinned "people" "users" rfl
  exact ⟨_, result, rfl, returned, alike⟩

end GraphSql
