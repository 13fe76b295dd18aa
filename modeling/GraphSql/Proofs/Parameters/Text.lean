import GraphSql.Proofs.Independence.Predicate
import GraphSql.Proofs.Parameters.Values

namespace GraphSql

open List Prod Slot

/-- The slot itself, or a named slot whose transform makes the known value of what the name is given. -/
inductive Slot.Abstracts (given : String → Json → Prop) : Slot → Slot → Prop
  | same (slot : Slot) : Slot.Abstracts given slot slot
  | named {name : String} {transform : Transform} {value result : Json} (meant : given name value)
      (applied : transform.apply value = some result) :
      Slot.Abstracts given (.value result) (.named name transform)

inductive Piece.Abstracts (given : String → Json → Prop) : Piece → Piece → Prop
  | text (text : String) : Piece.Abstracts given (.text text) (.text text)
  | slot {slot other : Slot} (abstracts : slot.Abstracts given other) : Piece.Abstracts given (.slot slot) (.slot other)

theorem Piece.Abstracts.refl (given : String → Json → Prop) (piece : Piece) : piece.Abstracts given piece := by
  cases piece with
  | text text => exact .text text
  | slot slot => exact .slot (.same slot)

namespace Fragment

/-- The second text has names in the place of some known values of the first one. -/
def Abstracts (given : String → Json → Prop) (first second : Fragment) : Prop :=
  List.Forall₂ (Piece.Abstracts given) first.pieces second.pieces

def names (fragment : Fragment) : List String := fragment.slots.filterMap Slot.name?

def bind (dialect : Dialect) (values : List (String × Json)) (fragment : Fragment) : Except BindError (List Json) :=
  fragment.slots.mapM (Slot.bind dialect values)

example (query : CompiledQuery) (values : List (String × Json)) :
    query.bind values = query.fragment.bind query.dialect values := rfl

namespace Abstracts

variable {given : String → Json → Prop} {first second other another : Fragment}

theorem refl (given : String → Json → Prop) (fragment : Fragment) : fragment.Abstracts given fragment :=
  forall₂_same.mpr fun piece _ => Piece.Abstracts.refl given piece

theorem append (left : first.Abstracts given second) (right : other.Abstracts given another) :
    (first ++ other).Abstracts given (second ++ another) := rel_append left right

theorem prepend (text : Fragment) (abstracts : first.Abstracts given second) :
    (text ++ first).Abstracts given (text ++ second) := (refl given text).append abstracts

theorem extend (abstracts : first.Abstracts given second) (text : Fragment) :
    (first ++ text).Abstracts given (second ++ text) := abstracts.append (refl given text)

theorem parenthesized (abstracts : first.Abstracts given second) :
    first.parenthesized.Abstracts given second.parenthesized := (abstracts.prepend _).extend _

theorem join (separator : String) {fragments others : List Fragment}
    (each : List.Forall₂ (Fragment.Abstracts given) fragments others) :
    (Fragment.join separator fragments).Abstracts given (Fragment.join separator others) := by
  induction each with
  | nil => exact refl given _
  | cons head tail ih =>
    cases tail with
    | nil => exact head
    | cons next rest => exact (head.extend _).append ih

/-- Placeholders stand at the same places, so the texts read alike wherever they are written. -/
theorem textFrom_eq (abstracts : first.Abstracts given second) (dialect : Dialect) (index : Nat) :
    textFrom dialect index second.pieces = textFrom dialect index first.pieces := by
  have pieces : ∀ {before after : List Piece}, List.Forall₂ (Piece.Abstracts given) before after →
      ∀ index, textFrom dialect index after = textFrom dialect index before := by
    intro before after each
    induction each with
    | nil => exact fun _ => rfl
    | cons head tail ih =>
      intro index
      cases head with
      | text text => simp [textFrom, ih]
      | slot abstracts => simp [textFrom, ih]
  exact pieces abstracts index

theorem slots (abstracts : first.Abstracts given second) :
    List.Forall₂ (Slot.Abstracts given) first.slots second.slots := by
  have pieces : ∀ {before after : List Piece}, List.Forall₂ (Piece.Abstracts given) before after →
      List.Forall₂ (Slot.Abstracts given) (Fragment.mk before).slots (Fragment.mk after).slots := by
    intro before after each
    induction each with
    | nil => exact .nil
    | cons head tail ih =>
      cases head with
      | text text => exact ih
      | slot abstracts => exact .cons abstracts ih
  exact pieces abstracts

end Abstracts

/-- A name of the text is given a value that the transform of its slot does not take. -/
def Refuses (given : String → Json → Prop) (fragment : Fragment) : Prop :=
  ∃ name transform value, Slot.named name transform ∈ fragment.slots ∧ given name value ∧ transform.apply value = none

theorem Refuses.of_subset {given : String → Json → Prop} {part whole : Fragment}
    (refuses : part.Refuses given) (subset : part.slots ⊆ whole.slots) : whole.Refuses given := by
  obtain ⟨name, transform, value, mem, meant, refused⟩ := refuses
  exact ⟨name, transform, value, subset mem, meant, refused⟩

theorem slots_join_subset (separator : String) {fragment : Fragment} {fragments : List Fragment}
    (mem : fragment ∈ fragments) : fragment.slots ⊆ (join separator fragments).slots := by
  rw [slots_join]
  exact fun slot found => mem_flatMap.mpr ⟨fragment, mem, found⟩

end Fragment

section Dialect

variable {given : String → Json → Prop} {first second : Fragment} (dialect : Dialect)

theorem Dialect.like_abstracts (text : Fragment) (abstracts : first.Abstracts given second) :
    (dialect.like text first).Abstracts given (dialect.like text second) := by
  cases dialect <;> exact abstracts.prepend _

theorem Dialect.ilike_abstracts (text : Fragment) (abstracts : first.Abstracts given second) :
    (dialect.ilike text first).Abstracts given (dialect.ilike text second) := by
  cases dialect <;> exact (abstracts.prepend _).extend _

theorem Dialect.slots_like_subset (text pattern : Fragment) : pattern.slots ⊆ (dialect.like text pattern).slots := by
  cases dialect <;> simp [Dialect.like]

theorem Dialect.slots_ilike_subset (text pattern : Fragment) : pattern.slots ⊆ (dialect.ilike text pattern).slots := by
  cases dialect <;> exact fun slot found => by simp [Dialect.ilike, found]

theorem Dialect.postgresTyped_abstracts (valueType : ValueType) (abstracts : first.Abstracts given second) :
    (postgresTyped valueType first).Abstracts given (postgresTyped valueType second) := by
  cases valueType <;> exact abstracts.extend _

theorem Dialect.arrayContains_abstracts (document : Fragment) (pointer : Pointer)
    (valueType : ValueType) (abstracts : first.Abstracts given second) :
    (dialect.arrayContains document pointer valueType first).Abstracts given
      (dialect.arrayContains document pointer valueType second) := by
  cases dialect with
  | sqlite => exact (abstracts.prepend _).extend _
  | postgres => exact ((postgresTyped_abstracts valueType abstracts).prepend _).extend _

variable {fragments others : List Fragment} (document : Fragment) (pointer : Pointer)
variable (valueType : ValueType) (each : List.Forall₂ (Fragment.Abstracts given) fragments others)

include each

theorem Dialect.arrayContainsAll_abstracts :
    (dialect.arrayContainsAll document pointer valueType fragments).Abstracts given
      (dialect.arrayContainsAll document pointer valueType others) := by
  cases dialect with
  | sqlite =>
    refine (Fragment.Abstracts.join _ ?_).parenthesized
    exact forall₂_map_left_iff.mpr (forall₂_map_right_iff.mpr
      (each.imp fun _ _ => arrayContains_abstracts .sqlite document pointer valueType))
  | postgres =>
    refine ((Fragment.Abstracts.join _ ?_).prepend _).extend _
    exact forall₂_map_left_iff.mpr (forall₂_map_right_iff.mpr (each.imp fun _ _ => postgresTyped_abstracts valueType))

theorem Dialect.arrayContainsAny_abstracts :
    (dialect.arrayContainsAny document pointer valueType fragments).Abstracts given
      (dialect.arrayContainsAny document pointer valueType others) := by
  cases dialect with
  | sqlite => exact ((Fragment.Abstracts.join _ each).prepend _).extend _
  | postgres =>
    refine (Fragment.Abstracts.join _ ?_).parenthesized
    exact forall₂_map_left_iff.mpr (forall₂_map_right_iff.mpr
      (each.imp fun _ _ => arrayContains_abstracts .postgres document pointer valueType))

end Dialect

section Binding

variable {values : List (String × Json)}

namespace Slot

variable (dialect : Dialect)

theorem Abstracts.bind_eq {slot other : Slot} (abstracts : slot.Abstracts (Gives values) other)
    (apart : ∀ name, slot.name? = some name → name ∉ values.map fst) :
    other.bind dialect values = slot.bind dialect [] := by
  cases abstracts with
  | same slot =>
    cases slot with
    | value known => rfl
    | named name transform =>
      rw [bind_named_of_notMem dialect (apart name rfl), bind_named_of_notMem dialect (by simp)]
  | named meant applied => exact bind_named_of_some dialect meant applied

end Slot

namespace Fragment

variable (dialect : Dialect)

theorem Abstracts.bind_eq {first second : Fragment} (abstracts : first.Abstracts (Gives values) second)
    (apart : ∀ name ∈ first.names, name ∉ values.map fst) :
    second.bind dialect values = first.bind dialect [] := by
  have slots : ∀ {before after : List Slot}, List.Forall₂ (Slot.Abstracts (Gives values)) before after →
      (∀ name ∈ before.filterMap name?, name ∉ values.map fst) →
      after.mapM (Slot.bind dialect values) = before.mapM (Slot.bind dialect []) := by
    intro before after each
    induction each with
    | nil => exact fun _ => rfl
    | cons head tail ih =>
      intro apart
      have first := head.bind_eq dialect fun name named => apart name (by simp [named])
      have others := ih fun name mem => apart name (by
        rw [filterMap_cons]
        split
        · exact mem
        · exact mem_cons_of_mem _ mem)
      rw [mapM_cons, mapM_cons, first, others]
  exact slots abstracts.slots apart

theorem Refuses.bind_eq_error {fragment : Fragment} (refuses : fragment.Refuses (Gives values)) :
    ∃ fault, fragment.bind dialect values = .error fault := by
  obtain ⟨name, transform, value, mem, meant, refused⟩ := refuses
  have failed := bind_named_of_none dialect meant refused
  cases bound : fragment.bind dialect values with
  | error fault => exact ⟨fault, rfl⟩
  | ok results =>
    obtain ⟨result, returned⟩ := exists_mapM_eq_ok_iff.mp ⟨results, bound⟩ _ mem
    rw [failed] at returned
    cases returned

end Fragment

end Binding

end GraphSql
