import GraphSql.CompiledQuery
import GraphSql.Proofs.Outcome

namespace GraphSql

open List Prod

section List

variable {α β ε : Type} {f : α → Except ε β} {entries : List α} {error : ε}

theorem bind_eq_ok_iff {computation : Except ε α} {result : β} :
    computation >>= f = .ok result ↔ ∃ value, computation = .ok value ∧ f value = .ok result := by
  cases computation <;> simp [Bind.bind, Except.bind]

theorem bind_eq_error_iff {computation : Except ε α} : computation >>= f = .error error ↔
      computation = .error error ∨ ∃ value, computation = .ok value ∧ f value = .error error := by
  cases computation <;> simp [Bind.bind, Except.bind]

theorem mapM_congr_left {g : α → Except ε β} (same : ∀ entry ∈ entries, f entry = g entry) :
    entries.mapM f = entries.mapM g := by
  induction entries with
  | nil => rfl
  | cons head rest ih =>
    rw [forall_mem_cons] at same
    rw [mapM_cons, mapM_cons, same.1, ih same.2]

theorem mapM_eq_ok_iff {results : List β} : entries.mapM f = .ok results ↔
      List.Forall₂ (fun entry result => f entry = .ok result) entries results := by
  induction entries generalizing results with
  | nil => simp [pure, Except.pure, eq_comm]
  | cons head rest ih =>
    simp only [mapM_cons, bind_eq_ok_iff, ih, forall₂_cons_left_iff, pure, Except.pure,
      Except.ok.injEq, @eq_comm _ results]
    grind

theorem exists_mapM_eq_ok_iff :
    (∃ results, entries.mapM f = .ok results) ↔ ∀ entry ∈ entries, ∃ result, f entry = .ok result := by
  induction entries with
  | nil => simp [pure, Except.pure]
  | cons head rest ih =>
    simp only [forall_mem_cons, ← ih, mapM_cons, bind_eq_ok_iff, pure, Except.pure, Except.ok.injEq]
    grind

theorem mapM_eq_error_iff : entries.mapM f = .error error ↔ ∃ before entry after, entries = before ++ entry :: after ∧
        (∀ earlier ∈ before, ∃ result, f earlier = .ok result) ∧ f entry = .error error := by
  induction entries with
  | nil => simp [pure, Except.pure]
  | cons head rest ih =>
    simp only [mapM_cons, bind_eq_error_iff, ih, pure, Except.pure, reduceCtorEq, and_false, exists_false, or_false]
    constructor
    · rintro (failed | ⟨result, first, before, entry, after, rfl, earlier, failed⟩)
      · exact ⟨[], head, rest, rfl, by simp, failed⟩
      · exact ⟨head :: before, entry, after, rfl, forall_mem_cons.mpr ⟨⟨result, first⟩, earlier⟩, failed⟩
    · rintro ⟨before, entry, after, same, earlier, failed⟩
      cases before with
      | nil =>
        obtain ⟨rfl, rfl⟩ := cons.inj same
        exact .inl failed
      | cons other between =>
        obtain ⟨rfl, rfl⟩ := cons.inj same
        obtain ⟨⟨result, first⟩, others⟩ := forall_mem_cons.mp earlier
        exact .inr ⟨result, first, between, entry, after, rfl, others, failed⟩

theorem exists_mem_of_mapM_error (failed : entries.mapM f = .error error) :
    ∃ entry ∈ entries, f entry = .error error := by
  obtain ⟨before, entry, after, rfl, -, same⟩ := mapM_eq_error_iff.mp failed
  exact ⟨entry, by simp, same⟩

end List

/-- The name is bound to the value. -/
def Gives (values : List (String × Json)) (name : String) (value : Json) : Prop :=
  values.find? (·.1 == name) = some (name, value)

variable {values : List (String × Json)} {name : String}

theorem find?_eq_none_of_notMem (absent : name ∉ values.map fst) : values.find? (·.1 == name) = none := by
  rw [find?_eq_none]
  intro entry mem same
  exact absent (mem_map.mpr ⟨entry, mem, by simpa using same⟩)

theorem Gives.mem {value : Json} (meant : Gives values name value) : name ∈ values.map fst :=
  mem_map.mpr ⟨_, mem_of_find?_eq_some meant, rfl⟩

theorem gives_or_notMem (values : List (String × Json)) (name : String) :
    (∃ value, Gives values name value) ∨ name ∉ values.map fst := by
  cases found : values.find? (·.1 == name) with
  | none =>
    right
    intro mem
    obtain ⟨entry, entered, same⟩ := mem_map.mp mem
    exact find?_eq_none.mp found entry entered (by simpa using same)
  | some entry =>
    obtain ⟨key, value⟩ := entry
    have same : key = name := by simpa using find?_some found
    subst same
    exact .inl ⟨value, found⟩

def Json.IsString (value : Json) : Prop := ∃ text, value = .string text

theorem Json.isString_iff {value : Json} : value.IsString ↔ ValueType.ofJson value = .string := by
  cases value <;> simp [IsString, ValueType.ofJson]

/-- A transform takes strings only, unless it leaves values as they are. -/
theorem Transform.apply_eq_none_iff {transform : Transform} {value : Json} :
    transform.apply value = none ↔ ¬ (transform = .identity ∨ value.IsString) := by
  cases transform <;> cases value <;> simp [apply, Json.IsString]

namespace Slot

variable {transform : Transform} {value : Json} (dialect : Dialect)

theorem bind_named_of_some {result : Json} (meant : Gives values name value)
    (applied : transform.apply value = some result) :
    (named name transform).bind dialect values = .ok (dialect.bindValue result) := by
  have found : values.find? (·.1 == name) = some (name, value) := meant
  simp [bind, found, applied]

theorem bind_named_of_none (meant : Gives values name value) (refused : transform.apply value = none) :
    (named name transform).bind dialect values = .error (.expectedString name (.ofJson value)) := by
  have found : values.find? (·.1 == name) = some (name, value) := meant
  simp [bind, found, refused]

theorem bind_named_of_notMem (absent : name ∉ values.map fst) :
    (named name transform).bind dialect values = .error (.missingParameter name) := by
  simp [bind, find?_eq_none_of_notMem absent]

/-- The name has a value, which is a string wherever a pattern is made of it. -/
def Fits (values : List (String × Json)) : Slot → Prop
  | .value _ => True
  | .named name transform => ∃ value, Gives values name value ∧ (transform = .identity ∨ value.IsString)

/-- What a slot is bound to: its known value, or what its transform makes of the value of its name. -/
inductive Takes (dialect : Dialect) (values : List (String × Json)) : Slot → Json → Prop
  | known (value : Json) : Takes dialect values (.value value) (dialect.bindValue value)
  | given {name : String} {transform : Transform} {value result : Json}
      (meant : Gives values name value) (applied : transform.apply value = some result) :
      Takes dialect values (.named name transform) (dialect.bindValue result)

/-- Why a slot is not bound: its name has no value, or one of which no pattern is made. -/
inductive Lacks (values : List (String × Json)) : Slot → BindError → Prop
  | value {name : String} (transform : Transform) (absent : name ∉ values.map fst) :
      Lacks values (.named name transform) (.missingParameter name)
  | text {name : String} {transform : Transform} {value : Json} (meant : Gives values name value)
      (pattern : transform ≠ .identity) (other : ¬ value.IsString) :
      Lacks values (.named name transform) (.expectedString name (.ofJson value))

section

variable {slot : Slot} {result : Json} {fault : BindError}

theorem Takes.bind_eq (takes : slot.Takes dialect values result) : slot.bind dialect values = .ok result := by
  cases takes with
  | known value => rfl
  | given meant applied => exact bind_named_of_some dialect meant applied

theorem Lacks.bind_eq (lacks : slot.Lacks values fault) : slot.bind dialect values = .error fault := by
  cases lacks with
  | value transform absent => exact bind_named_of_notMem dialect absent
  | text meant pattern other =>
    exact bind_named_of_none dialect meant (Transform.apply_eq_none_iff.mpr (by simp [pattern, other]))

theorem takes_or_lacks (slot : Slot) : (slot.Fits values ∧ ∃ result, slot.Takes dialect values result) ∨
      (¬ slot.Fits values ∧ ∃ fault, slot.Lacks values fault) := by
  cases slot with
  | value known => exact .inl ⟨trivial, _, .known known⟩
  | named name transform =>
    rcases gives_or_notMem values name with ⟨value, meant⟩ | absent
    · cases applied : transform.apply value with
      | some result =>
        refine .inl ⟨⟨value, meant, ?_⟩, _, .given meant applied⟩
        by_contra refused
        simp [Transform.apply_eq_none_iff.mpr refused] at applied
      | none =>
        have refused := Transform.apply_eq_none_iff.mp applied
        refine .inr ⟨?_, _, .text meant (fun same => refused (.inl same)) fun text => refused (.inr text)⟩
        rintro ⟨other, given, fits⟩
        cases meant.symm.trans given
        exact refused fits
    · refine .inr ⟨?_, _, .value transform absent⟩
      rintro ⟨value, meant, -⟩
      exact absent meant.mem

theorem bind_eq_ok_iff : slot.bind dialect values = .ok result ↔ slot.Takes dialect values result := by
  refine ⟨fun bound => ?_, Takes.bind_eq dialect⟩
  rcases takes_or_lacks dialect slot with ⟨-, other, takes⟩ | ⟨-, fault, lacks⟩
  · cases (takes.bind_eq dialect).symm.trans bound
    exact takes
  · cases (lacks.bind_eq dialect).symm.trans bound

theorem exists_bind_eq_ok_iff : (∃ result, slot.bind dialect values = .ok result) ↔ slot.Fits values := by
  rcases takes_or_lacks dialect slot with ⟨fits, other, takes⟩ | ⟨unfit, fault, lacks⟩
  · exact iff_of_true ⟨other, takes.bind_eq dialect⟩ fits
  · refine iff_of_false ?_ unfit
    rintro ⟨result, bound⟩
    cases (lacks.bind_eq dialect).symm.trans bound

theorem bind_eq_error_iff : slot.bind dialect values = .error fault ↔ slot.Lacks values fault := by
  refine ⟨fun bound => ?_, Lacks.bind_eq dialect⟩
  rcases takes_or_lacks dialect slot with ⟨-, other, takes⟩ | ⟨-, fault, lacks⟩
  · cases (takes.bind_eq dialect).symm.trans bound
  · cases (lacks.bind_eq dialect).symm.trans bound
    exact lacks

theorem bind_filter {names : List String} (named : ∀ name ∈ slot.name?, name ∈ names) :
    slot.bind dialect (values.filter (·.1 ∈ names)) = slot.bind dialect values := by
  cases slot with
  | value known => rfl
  | named name transform =>
    have mem : name ∈ names := named name rfl
    have found : (values.filter (·.1 ∈ names)).find? (·.1 == name) = values.find? (·.1 == name) := by
      rw [find?_filter]
      congr 1
      funext entry
      grind
    simp only [bind, found]

end

/-- A slot cannot be bound only if its name has no value, or a value that is not a string. -/
theorem bind_eq_error {slot : Slot} {fault : BindError} (failed : slot.bind dialect values = .error fault) :
    (∃ name value, Gives values name value ∧ ValueType.ofJson value ≠ .string ∧
      fault = .expectedString name (.ofJson value)) ∨
    (∃ name, slot.name? = some name ∧ name ∉ values.map fst ∧ fault = .missingParameter name) := by
  cases (bind_eq_error_iff dialect).mp failed with
  | value transform absent => exact .inr ⟨_, rfl, absent, rfl⟩
  | text meant pattern other => exact .inl ⟨_, _, meant, mt Json.isString_iff.mpr other, rfl⟩

end Slot

/-- Values are bound to a compiled query exactly if every name has one and patterns are strings. Then
there is one value for each placeholder, in order, and otherwise the first placeholder without a value
is reported. Values of other names do not matter. -/
theorem CompiledQuery.bind_exact (query : CompiledQuery) (values : List (String × Json)) :
    ((∃ results, query.bind values = .ok results) ↔ ∀ slot ∈ query.slots, slot.Fits values) ∧
    (∀ results, query.bind values = .ok results ↔
      Forall₂ (Slot.Takes query.dialect values) query.slots results) ∧
    (∀ fault, query.bind values = .error fault ↔
      ∃ before slot after, query.slots = before ++ slot :: after ∧
        (∀ earlier ∈ before, earlier.Fits values) ∧ slot.Lacks values fault) ∧
    query.bind (values.filter (·.1 ∈ query.names)) = query.bind values := by
  refine ⟨?_, fun results => ?_, fun fault => ?_, ?_⟩
  · simp only [bind, exists_mapM_eq_ok_iff, Slot.exists_bind_eq_ok_iff]
  · simp only [bind, mapM_eq_ok_iff, Slot.bind_eq_ok_iff]
  · simp only [bind, mapM_eq_error_iff, Slot.exists_bind_eq_ok_iff, Slot.bind_eq_error_iff]
  · refine mapM_congr_left fun slot mem => Slot.bind_filter _ fun name named => ?_
    exact mem_filterMap.mpr ⟨slot, mem, named⟩

end GraphSql
