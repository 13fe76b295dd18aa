import GraphSql.Analysis.Validation
import GraphSql.Proofs.Outcome
import Mathlib.Data.List.Flatten
import Mathlib.Data.List.Nodup
import Mathlib.Data.List.Pairwise

namespace GraphSql

variable {σ : Type}

/-- The names pass the identifier check, and no two of them differ in letter case only. -/
structure Fresh (names : List String) : Prop where
  valid : ∀ name ∈ names, Identifier.check name = .ok ()
  distinct : (names.map Text.lowerAscii).Nodup

/-- Every name that a hop binds. -/
def Traversal.names (hop : Traversal) : List String := [hop.edgeAlias, hop.nodeAlias] ++ Block.walkAliases hop

/-- Each hop joins from a node that is bound before it. -/
def JoinsFrom (joinable : List String) : List Traversal → Prop
  | [] => True
  | hop :: rest => hop.joinFrom ∈ joinable ∧ JoinsFrom (hop.nodeAlias :: joinable) rest

theorem checkName_ensures (name : String) : Ensures (checkName name) fun _ => Identifier.check name = .ok () := by
  unfold checkName
  cases Identifier.check name <;> simp [Except.mapError]

theorem Field.resolve_ensures (field : Field) : Ensures field.resolve fun target => field.target = .ok target := by
  unfold Field.resolve
  cases field.target <;> simp [Except.mapError]

theorem Field.target_of_denotes {field : Field} {target : Target}
    (denotes : field.denotes target = true) : field.target = .ok target := by
  unfold Field.denotes at denotes
  split at denotes
  · next found same => rw [same, beq_iff_eq.mp denotes]
  · simp at denotes

namespace Block

/-- The aliases of a query that has passed the checks of its names. -/
structure Bound (block : Block σ) : Prop where
  fresh : Fresh (block.start.aliasName :: block.traversals.flatMap Traversal.names)
  joins : JoinsFrom [block.start.aliasName] block.traversals

section

variable {seen : List String} (fresh : Fresh seen)

include fresh

theorem bindAlias_ensures (aliasName : String) : Ensures (bindAlias seen aliasName) fun names =>
      names = aliasName :: seen ∧ Fresh (aliasName :: seen) := by
  unfold bindAlias
  rw [ensures_bind]
  apply (checkName_ensures aliasName).imp
  intro _ valid
  split
  · simp
  · next unseen =>
    refine ⟨rfl, ?_, ?_⟩
    · simpa [valid] using fresh.valid
    · simp only [List.map_cons, List.nodup_cons, fresh.distinct, and_true]
      intro member
      obtain ⟨other, known, same⟩ := List.mem_map.mp member
      exact unseen (List.any_eq_true.mpr ⟨other, known, by simp [Text.sameUnquoted, same]⟩)

theorem bindAliases_ensures (names : List String) : Ensures (bindAliases seen names) fun bound =>
      bound = names.reverse ++ seen ∧ Fresh (names.reverse ++ seen) := by
  induction names generalizing seen with
  | nil => simpa [bindAliases] using fresh
  | cons name rest ih =>
    rw [bindAliases, ensures_bind]
    apply (bindAlias_ensures fresh name).imp
    rintro _ ⟨rfl, extended⟩
    simpa using ih extended

theorem checkTraversal_ensures (joinable : List String) (hop : Traversal) :
    Ensures (checkTraversal seen joinable hop) fun bound =>
      bound = hop.names.reverse ++ seen ∧ Fresh (hop.names.reverse ++ seen) ∧ hop.joinFrom ∈ joinable := by
  unfold checkTraversal
  rw [ensures_bind]
  apply (bindAliases_ensures fresh _).imp
  rintro _ ⟨rfl, extended⟩
  split
  · simp
  · split
    · simp
    · next joined =>
      apply (bindAliases_ensures extended _).imp
      rintro _ ⟨rfl, bound⟩
      have member : hop.joinFrom ∈ joinable := by simpa using joined
      have same : (walkAliases hop).reverse ++ ([hop.edgeAlias, hop.nodeAlias].reverse ++ seen) =
          hop.names.reverse ++ seen := by simp [Traversal.names]
      rw [same] at bound ⊢
      exact ⟨rfl, bound, member⟩

theorem checkTraversals_ensures (joinable : List String) (traversals : List Traversal) :
    Ensures (checkTraversals seen joinable traversals) fun _ =>
      Fresh ((traversals.flatMap Traversal.names).reverse ++ seen) ∧ JoinsFrom joinable traversals := by
  induction traversals generalizing seen joinable with
  | nil => simpa [checkTraversals, JoinsFrom] using fresh
  | cons hop rest ih =>
    rw [checkTraversals, ensures_bind]
    apply (checkTraversal_ensures fresh joinable hop).imp
    rintro _ ⟨rfl, extended, joined⟩
    apply (ih extended (hop.nodeAlias :: joinable)).imp
    rintro _ ⟨bound, others⟩
    exact ⟨by simpa using bound, joined, others⟩

end

section

variable (block : Block σ)

theorem checkBindings_ensures : Ensures block.checkBindings fun _ => block.Bound := by
  have empty : Fresh [] := ⟨by simp, by simp⟩
  unfold checkBindings
  rw [ensures_bind]
  apply (checkName_ensures _).imp
  intro _ _
  split
  · simp
  · simp only [ensures_bind]
    apply (bindAlias_ensures empty _).imp
    rintro _ ⟨rfl, fresh⟩
    apply (checkTraversals_ensures fresh _ _).imp
    rintro _ ⟨bound, joins⟩
    refine ⟨⟨fun name member => bound.valid name ?_, ?_⟩, joins⟩
    · simpa [or_comm] using member
    · have reversed := List.nodup_reverse.mpr bound.distinct
      simpa using reversed

theorem checkField_ensures (clause : Clause) (field : Field) :
    Ensures (block.checkField clause field) fun _ => True := by
  unfold checkField
  split
  · simp
  · exact (ensures_discard _ _).mpr (field.resolve_ensures.imp fun _ _ => trivial)

theorem checkFilter_ensures (filter : Filter σ) : Ensures (block.checkFilter filter) fun _ => True := by
  have fields : Ensures (filter.predicate.fields.forM (block.checkField .predicate)) fun _ => True :=
    ensures_forM fun field _ => block.checkField_ensures .predicate field
  unfold checkFilter
  split
  · simp
  · split
    · simp
    · simp
    · simpa using fields

theorem checkReferences_ensures : Ensures block.checkReferences fun _ => True := by
  unfold checkReferences
  simp only [ensures_bind]
  apply (ensures_forM fun filter _ => block.checkFilter_ensures filter).imp
  intro _ _
  apply (ensures_forM fun projection _ => block.checkField_ensures _ _).imp
  intro _ _
  apply (ensures_forM fun field _ => block.checkField_ensures _ _).imp
  intro _ _
  apply (ensures_forM fun field _ => block.checkField_ensures _ _).imp
  intro _ _
  apply (ensures_forM fun order _ => block.checkField_ensures _ _).imp
  intro _ _
  exact ensures_forM fun selected _ => block.checkField_ensures _ _

end

theorem checkNames_ensures (duplicate : String → Unsupported) (seen names : List String) :
    Ensures (checkNames duplicate seen names) fun _ => True := by
  induction names generalizing seen with
  | nil => simp [checkNames]
  | cons name rest ih =>
    rw [checkNames, ensures_bind]
    apply (checkName_ensures name).imp
    intro _ _
    split
    · simp
    · exact ih _

theorem checkCarriedNames_ensures (block : Block σ) (taken : List (String × String))
    (aliases : List String) : Ensures (block.checkCarriedNames taken aliases) fun _ => True := by
  induction aliases generalizing taken with
  | nil => simp [checkCarriedNames]
  | cons aliasName rest ih =>
    rw [checkCarriedNames]
    split
    · simp
    · exact ih _

theorem validate_ensures (block : Block σ) : Ensures block.validate fun _ => block.Bound := by
  unfold validate
  simp only [ensures_bind]
  apply block.checkBindings_ensures.imp
  intro _ bound
  apply block.checkReferences_ensures.imp
  intro _ _
  unfold checkOutputNames
  simp only [ensures_bind]
  apply (checkNames_ensures _ _ _).imp
  intro _ _
  apply (checkNames_ensures _ _ _).imp
  intro _ _
  exact (block.checkCarriedNames_ensures _ _).imp fun _ _ => bound

open List

variable {aliasName : String}

/-- The place where an alias is bound, with its owner and the kind of its rows. -/
inductive Place (block : Block σ) (aliasName : String) : Prop where
  | start (name : aliasName = block.start.aliasName) (owner : block.ownerOf aliasName = some block.start.aliasName)
      (element : block.elementOf aliasName = .node)
  | node (hop : Traversal) (member : hop ∈ block.traversals) (name : aliasName = hop.nodeAlias)
      (owner : block.ownerOf aliasName = some hop.nodeAlias)
      (element : block.elementOf aliasName = .node)
  | edge (hop : Traversal) (member : hop ∈ block.traversals) (name : aliasName = hop.edgeAlias)
      (owner : block.ownerOf aliasName = some hop.nodeAlias)
      (element : block.elementOf aliasName = .edge)
  | unbound (absent : aliasName ∉ block.aliases) (binding : block.binding? aliasName = none)
      (owner : block.ownerOf aliasName = none) (element : block.elementOf aliasName = .node)

/-- The binding that is found among traversals is that of one of them, counted from the offset. -/
theorem bindingIn_spec (aliasName : String) (offset : Nat) (hops : List Traversal) :
    match bindingIn aliasName offset hops with
    | some .start => False
    | some (.node index) =>
      ∃ hop ∈ hops, aliasName = hop.nodeAlias ∧ offset ≤ index ∧ hops[index - offset]? = some hop
    | some (.edge index) =>
      ∃ hop ∈ hops, aliasName = hop.edgeAlias ∧ offset ≤ index ∧ hops[index - offset]? = some hop
    | none => ∀ hop ∈ hops, aliasName ≠ hop.edgeAlias ∧ aliasName ≠ hop.nodeAlias := by
  induction hops generalizing offset with
  | nil => simp [bindingIn]
  | cons hop rest ih =>
    by_cases isNode : hop.nodeAlias = aliasName
    · rw [bindingIn, if_pos isNode]
      exact ⟨hop, by simp, isNode.symm, Nat.le_refl _, by simp⟩
    by_cases isEdge : hop.edgeAlias = aliasName
    · rw [bindingIn, if_neg isNode, if_pos isEdge]
      exact ⟨hop, by simp, isEdge.symm, Nat.le_refl _, by simp⟩
    rw [bindingIn, if_neg isNode, if_neg isEdge]
    have tail := ih (offset + 1)
    have shifted (index : Nat) (above : offset + 1 ≤ index) :
        (hop :: rest)[index - offset]? = rest[index - (offset + 1)]? := by
      rw [show index - offset = index - (offset + 1) + 1 by omega]
      rfl
    cases found : bindingIn aliasName (offset + 1) rest with
    | none =>
      rw [found] at tail
      intro other member
      rcases mem_cons.mp member with rfl | later
      · exact ⟨fun same => isEdge same.symm, fun same => isNode same.symm⟩
      · exact tail other later
    | some binding =>
      rw [found] at tail
      cases binding with
      | start => exact tail
      | node index | edge index =>
        obtain ⟨other, member, name, above, entry⟩ := tail
        exact ⟨other, by simp [member], name, by omega, (shifted index above).trans entry⟩

/-- Every alias has exactly the place that its binding says. -/
theorem place (block : Block σ) (aliasName : String) : block.Place aliasName := by
  by_cases isStart : block.start.aliasName = aliasName
  · have binding : block.binding? aliasName = some .start := by simp [binding?, isStart]
    exact .start isStart.symm (by simp [ownerOf, binding]) (by simp [elementOf, binding, Binding.element])
  · have binding : block.binding? aliasName = bindingIn aliasName 0 block.traversals := by
      simp [binding?, isStart]
    have spec := bindingIn_spec aliasName 0 block.traversals
    rw [← binding] at spec
    cases found : block.binding? aliasName with
    | none =>
      rw [found] at spec
      refine .unbound ?_ found (by simp [ownerOf, found]) (by simp [elementOf, found])
      simp only [aliases, mem_cons, mem_flatMap, not_mem_nil, or_false, not_or, not_exists, not_and]
      exact ⟨fun same => isStart same.symm, spec⟩
    | some found' =>
      rw [found] at spec
      cases found' with
      | start => exact spec.elim
      | node index =>
        obtain ⟨hop, member, name, -, entry⟩ := spec
        rw [Nat.sub_zero] at entry
        exact .node hop member name (by simp [ownerOf, found, entry]) (by simp [elementOf, found, Binding.element])
      | edge index =>
        obtain ⟨hop, member, name, -, entry⟩ := spec
        rw [Nat.sub_zero] at entry
        exact .edge hop member name (by simp [ownerOf, found, entry]) (by simp [elementOf, found, Binding.element])

variable {block : Block σ}

theorem node_mem_aliases {hop : Traversal} (member : hop ∈ block.traversals) : hop.nodeAlias ∈ block.aliases :=
  mem_cons_of_mem _ (mem_flatMap.mpr ⟨hop, member, by simp⟩)

theorem edge_mem_aliases {hop : Traversal} (member : hop ∈ block.traversals) : hop.edgeAlias ∈ block.aliases :=
  mem_cons_of_mem _ (mem_flatMap.mpr ⟨hop, member, by simp⟩)

namespace Bound

variable {block : Block σ}

/-- No two aliases differ in letter case only. -/
theorem nodup_lowerAscii (bound : block.Bound) : (block.aliases.map Text.lowerAscii).Nodup := by
  refine bound.fresh.distinct.sublist ((List.Sublist.cons_cons _ ?_).map _)
  exact List.Sublist.flatMap_right _ fun hop _ => sublist_append_left _ _

theorem nodup_aliases (bound : block.Bound) : block.aliases.Nodup := List.Nodup.of_map _ bound.nodup_lowerAscii

variable {hop : Traversal}

theorem lowerAscii_ne (bound : block.Bound) {first second : String} (inFirst : first ∈ block.aliases)
    (inSecond : second ∈ block.aliases) (different : first ≠ second) :
    Text.lowerAscii first ≠ Text.lowerAscii second :=
  fun same => different (List.inj_on_of_nodup_map bound.nodup_lowerAscii inFirst inSecond same)

theorem start_ne_node (bound : block.Bound) (member : hop ∈ block.traversals) :
    block.start.aliasName ≠ hop.nodeAlias := by
  intro same
  have distinct := (nodup_cons.mp bound.nodup_aliases).1
  exact distinct (mem_flatMap.mpr ⟨hop, member, by simp [same]⟩)

theorem start_ne_edge (bound : block.Bound) (member : hop ∈ block.traversals) :
    block.start.aliasName ≠ hop.edgeAlias := by
  intro same
  have distinct := (nodup_cons.mp bound.nodup_aliases).1
  exact distinct (mem_flatMap.mpr ⟨hop, member, by simp [same]⟩)

section

variable (bound : block.Bound) {first second : Traversal} (firstMember : first ∈ block.traversals)
variable (secondMember : second ∈ block.traversals)

include bound firstMember secondMember

/-- Two hops that share a name are one hop. -/
theorem hop_eq (name : String) (inFirst : name ∈ [first.edgeAlias, first.nodeAlias])
    (inSecond : name ∈ [second.edgeAlias, second.nodeAlias]) : first = second := by
  by_contra different
  have apart := (nodup_flatMap.mp (nodup_cons.mp bound.nodup_aliases).2).2
  have symmetric : Std.Symm (Function.onFun List.Disjoint fun hop : Traversal =>
      [hop.edgeAlias, hop.nodeAlias]) := ⟨fun _ _ disjoint _ second first => disjoint first second⟩
  have disjoint := apart.forall firstMember secondMember different
  exact disjoint inFirst inSecond

theorem edge_ne_node : first.edgeAlias ≠ second.nodeAlias := by
  intro same
  obtain rfl := bound.hop_eq firstMember secondMember first.edgeAlias (by simp) (by simp [same])
  have apart := (nodup_flatMap.mp (nodup_cons.mp bound.nodup_aliases).2).1 first firstMember
  simp [same] at apart

end

theorem eq_start (bound : block.Bound) (owned : block.ownerOf aliasName = some block.start.aliasName) :
    aliasName = block.start.aliasName := by
  cases block.place aliasName with
  | start name => exact name
  | node hop member _ owner | edge hop member _ owner =>
    rw [owner, Option.some_inj] at owned
    exact absurd owned.symm (bound.start_ne_node member)
  | unbound _ _ owner => simp [owner] at owned

variable (bound : block.Bound) (member : hop ∈ block.traversals)

include bound member

theorem eq_edge_or_node (owned : block.ownerOf aliasName = some hop.nodeAlias) :
    aliasName = hop.edgeAlias ∨ aliasName = hop.nodeAlias := by
  cases block.place aliasName with
  | start _ owner =>
    rw [owner, Option.some_inj] at owned
    exact absurd owned (bound.start_ne_node member)
  | node other otherMember name owner =>
    rw [owner, Option.some_inj] at owned
    exact .inr (name.trans owned)
  | edge other otherMember name owner =>
    rw [owner, Option.some_inj] at owned
    obtain rfl := bound.hop_eq otherMember member hop.nodeAlias (by simp [owned]) (by simp)
    exact .inl name
  | unbound _ _ owner => simp [owner] at owned

theorem elementOf_node : block.elementOf hop.nodeAlias = .node := by
  cases block.place hop.nodeAlias with
  | start _ _ element | node _ _ _ _ element | unbound _ _ _ element => exact element
  | edge other otherMember name => exact absurd name.symm (bound.edge_ne_node otherMember member)

theorem elementOf_edge : block.elementOf hop.edgeAlias = .edge := by
  cases block.place hop.edgeAlias with
  | start name => exact absurd name.symm (bound.start_ne_edge member)
  | node other otherMember name => exact absurd name (bound.edge_ne_node member otherMember)
  | edge _ _ _ _ element => exact element
  | unbound absent => exact absurd (edge_mem_aliases member) absent

end Bound

theorem mem_aliases_of_binding? {binding : Binding}
    (found : block.binding? aliasName = some binding) : aliasName ∈ block.aliases := by
  cases block.place aliasName with
  | start name => exact name ▸ mem_cons_self
  | node hop member name => exact name ▸ node_mem_aliases member
  | edge hop member name => exact name ▸ edge_mem_aliases member
  | unbound _ absent => simp [absent] at found

theorem elementOf_start (block : Block σ) : block.elementOf block.start.aliasName = .node := by
  simp [elementOf, binding?, Binding.element]

end Block

end GraphSql
