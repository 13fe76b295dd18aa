import GraphSql.Traced
import Mathlib.Data.List.Forall2

namespace GraphSql

open List

variable {α β : Type}

/-- The result has the property, or the caller can mend the reason for which there is none. -/
def Ensures (result : Attempt α) (property : α → Prop) : Prop :=
  match result with
  | .ok value => property value
  | .error error => error.isCallerFixable = true

@[simp] theorem ensures_ok (value : α) (property : α → Prop) : Ensures (.ok value) property ↔ property value := Iff.rfl

@[simp] theorem ensures_pure (value : α) (property : α → Prop) :
    Ensures (pure value) property ↔ property value := Iff.rfl

@[simp] theorem ensures_unsupported (cause : Unsupported) (property : α → Prop) :
    Ensures (.error (.unsupported cause)) property := rfl

@[simp] theorem ensures_configuration (error : ConfigError) (property : α → Prop) :
    Ensures (.error (.configuration error)) property := rfl

/-- Two computations in a row ensure what the second one ensures of the first value. -/
@[simp] theorem ensures_bind (first : Attempt α) (next : α → Attempt β) (property : β → Prop) :
    Ensures (first >>= next) property ↔ Ensures first fun value => Ensures (next value) property := by
  cases first <;> exact Iff.rfl

section

variable (f : α → β) (result : Attempt α) (property : β → Prop)

@[simp] theorem ensures_map : Ensures (f <$> result) property ↔ Ensures result fun value => property (f value) := by
  cases result <;> exact Iff.rfl

@[simp] theorem ensures_mapOk : Ensures (result.map f) property ↔ Ensures result fun value => property (f value) := by
  cases result <;> exact Iff.rfl

end

@[simp] theorem ensures_discard (result : Attempt α) (property : Unit → Prop) :
    Ensures (discard result) property ↔ Ensures result fun _ => property () := by
  cases result <;> exact Iff.rfl

variable {first computation : Attempt α} {value : α} {second : Attempt β}

/-- Where computations in sequence return, so does each of them. -/
theorem exists_of_bind_eq_ok {next : α → Attempt β} {value : β} (returned : first >>= next = .ok value) :
    ∃ middle, first = .ok middle ∧ next middle = .ok value := by
  cases first with
  | ok middle => exact ⟨middle, rfl, returned⟩
  | error error => cases returned

variable {result : Attempt α} {property : α → Prop}

theorem Ensures.imp {weaker : α → Prop} (ensured : Ensures result property)
    (implies : ∀ value, property value → weaker value) : Ensures result weaker := by
  cases result with
  | ok value => exact implies value ensured
  | error error => exact ensured

section

variable (ensured : Ensures result property)

include ensured

/-- A property of the value may use that it was returned. -/
theorem Ensures.attach : Ensures result fun value => result = .ok value ∧ property value := by
  cases result with
  | ok value => exact ⟨rfl, ensured⟩
  | error error => exact ensured

theorem Ensures.of_ok (returned : result = .ok value) : property value := by
  subst returned
  exact ensured

theorem Ensures.of_error {error : CompileError} (failed : result = .error error) : error.isCallerFixable = true := by
  subst failed
  exact ensured

end

variable {entries : List α} {check : α → Attempt Unit}
variable {compute : α → Attempt β} {weaker : α → β → Prop}

theorem ensures_forM (each : ∀ entry ∈ entries, Ensures (check entry) fun _ => True) :
    Ensures (entries.forM check) fun _ => True := by
  induction entries with
  | nil => simp
  | cons entry rest ih =>
    rw [forM_eq_forM, forM_cons, ensures_bind]
    apply (each entry (by simp)).imp
    intro _ _
    exact ih fun other mem => each other (by simp [mem])

theorem ensures_mapM (each : ∀ entry ∈ entries, Ensures (compute entry) (weaker entry)) :
    Ensures (entries.mapM compute) (Forall₂ weaker entries) := by
  induction entries with
  | nil => simp
  | cons entry rest ih =>
    rw [forall_mem_cons] at each
    simp only [mapM_cons, ensures_bind, ensures_pure]
    exact each.1.imp fun _ first => (ih each.2).imp fun _ others => .cons first others

/-- The result has the property, if there is one. -/
def Returns (result : Attempt α) (property : α → Prop) : Prop :=
  match result with
  | .ok value => property value
  | .error _ => True

@[simp] theorem returns_ok (value : α) (property : α → Prop) : Returns (.ok value) property ↔ property value := Iff.rfl

@[simp] theorem returns_pure (value : α) (property : α → Prop) :
    Returns (pure value) property ↔ property value := Iff.rfl

@[simp] theorem returns_bind (first : Attempt α) (next : α → Attempt β) (property : β → Prop) :
    Returns (first >>= next) property ↔ Returns first fun value => Returns (next value) property := by
  cases first <;> exact Iff.rfl

@[simp] theorem returns_mapOk (f : α → β) (result : Attempt α) (property : β → Prop) :
    Returns (result.map f) property ↔ Returns result fun value => property (f value) := by
  cases result <;> exact Iff.rfl

theorem Returns.imp {weaker : α → Prop} (returned : Returns result property)
    (implies : ∀ value, property value → weaker value) : Returns result weaker := by
  cases result with
  | ok value => exact implies value returned
  | error error => trivial

theorem returns_all (always : ∀ value, property value) : Returns result property := by
  cases result with
  | ok value => exact always value
  | error error => trivial

theorem returns_mapM (each : ∀ entry ∈ entries, Returns (compute entry) (weaker entry)) :
    Returns (entries.mapM compute) (Forall₂ weaker entries) := by
  induction entries with
  | nil => simp
  | cons entry rest ih =>
    rw [forall_mem_cons] at each
    simp only [mapM_cons, returns_bind, returns_pure]
    exact each.1.imp fun _ first => (ih each.2).imp fun _ others => .cons first others

theorem forall_mem_of_forall₂ {values : List β} (each : Forall₂ (fun entry _ => property entry) entries values) :
    ∀ entry ∈ entries, property entry := by
  induction each with
  | nil => simp
  | cons first _ ih => exact forall_mem_cons.mpr ⟨first, ih⟩

theorem forall_mem_pair {first second : α} :
    (∀ entry ∈ [first, second], property entry) ↔ property first ∧ property second := by simp

theorem forall_mem_flatten_of_forall₂ {holds : β → Prop} {lists : List (List β)}
    (each : Forall₂ (fun _ values => ∀ value ∈ values, holds value) entries lists) :
    ∀ value ∈ lists.flatten, holds value := fun value mem => by
  obtain ⟨values, member, inValues⟩ := mem_flatten.mp mem
  exact forall_mem_of_forall₂ each.flip values member value inValues

/-- A recursion that puts together what is computed for each entry. -/
theorem eq_flatten_mapM {all : List α → Attempt (List β)} {one : α → Attempt (List β)} (nil : all [] = .ok [])
    (cons : ∀ entry rest, all (entry :: rest) = do return (← one entry) ++ (← all rest)) :
    all entries = entries.mapM one >>= fun lists => pure lists.flatten := by
  induction entries with
  | nil => rw [nil, mapM_nil, pure_bind]; rfl
  | cons entry rest ih => simp [cons, ih, mapM_cons]

theorem returns_forM (each : ∀ entry ∈ entries, Returns (check entry) fun _ => property entry) :
    Returns (entries.forM check) fun _ => ∀ entry ∈ entries, property entry := by
  induction entries with
  | nil => simp
  | cons entry rest ih =>
    rw [forall_mem_cons] at each
    rw [forM_eq_forM, forM_cons, returns_bind]
    apply each.1.imp
    intro _ first
    exact (ih each.2).imp fun _ others => forall_mem_cons.mpr ⟨first, others⟩

theorem Returns.of_ok (returned : Returns result property) (same : result = .ok value) : property value := by
  subst same
  exact returned

theorem Ensures.returns (ensured : Ensures result property) : Returns result property := by
  cases result with
  | ok value => exact ensured
  | error error => trivial

/-- What is returned has every property that is known of it. -/
theorem Ensures.and_returns {other : α → Prop} (ensured : Ensures result property) (returned : Returns result other) :
    Ensures result fun value => property value ∧ other value := by
  cases result with
  | ok value => exact ⟨ensured, returned⟩
  | error error => exact ensured

/-- Both computations fail, or both return and what they return is related. -/
def Agree (related : α → β → Prop) (first : Attempt α) (second : Attempt β) : Prop :=
  match first, second with
  | .ok value, .ok other => related value other
  | .error _, .error _ => True
  | _, _ => False

section Agree

variable {γ δ : Type} {related : α → β → Prop} {after : γ → δ → Prop}

@[simp] theorem agree_ok (value : α) (other : β) :
    Agree related (.ok value) (.ok other) ↔ related value other := Iff.rfl

@[simp] theorem agree_pure (value : α) (other : β) :
    Agree related (pure value) (pure other) ↔ related value other := Iff.rfl

@[simp] theorem agree_error (error other : CompileError) : Agree related (.error error) (.error other) := trivial

variable {first : Attempt α} {second : Attempt β}
variable {next : α → Attempt γ} {computation : Attempt α}
variable {other : β → Attempt δ}

/-- Computations that agree may be followed by computations that agree on what they return. -/
theorem Agree.bind (agree : Agree related first second)
    (follow : ∀ value returned, related value returned → Agree after (next value) (other returned)) :
    Agree after (first >>= next) (second >>= other) := by
  cases first with
  | ok value =>
    cases second with
    | ok returned => exact follow value returned agree
    | error error => exact agree.elim
  | error error =>
    cases second with
    | ok returned => exact agree.elim
    | error other => trivial

theorem Agree.mono (agree : Agree related first second)
    (implies : ∀ value other, related value other → weaker value other) :
    Agree weaker first second := by
  cases first <;> cases second
  · trivial
  · exact agree.elim
  · exact agree.elim
  · exact implies _ _ agree

theorem agree_bind_same {other : α → Attempt δ} (follow : ∀ value, Agree after (next value) (other value)) :
    Agree after (computation >>= next) (computation >>= other) := by
  cases computation with
  | ok value => exact follow value
  | error error => trivial

theorem agree_bind_ensured (ensured : Ensures computation property) {other : α → Attempt δ}
    (follow : ∀ value, property value → Agree after (next value) (other value)) :
    Agree after (computation >>= next) (computation >>= other) := by
  cases computation with
  | ok value => exact follow value ensured
  | error error => trivial

theorem bind_of_map (f : α → β) (result : Attempt α) (next : β → Attempt γ) :
    (result.map f >>= next) = result >>= fun value => next (f value) := by
  cases result <;> rfl

theorem agree_bind_map {σ : Type} {first : σ → α} {second : σ → β} {computation : Attempt σ}
    (follow : ∀ value, Agree after (next (first value)) (other (second value))) :
    Agree after (computation.map first >>= next) (computation.map second >>= other) := by
  cases computation with
  | ok value => exact follow value
  | error error => trivial

theorem agree_self {related : α → α → Prop} (returned : Returns computation fun value => related value value) :
    Agree related computation computation := by
  cases computation with
  | ok value => exact returned
  | error error => trivial

/-- Both computations fail, or both return values with one view. -/
abbrev AgreeOn (view : α → γ) (first second : Attempt α) : Prop :=
  Agree (fun value other => view value = view other) first second

theorem agreeOn_refl (view : α → γ) (computation : Attempt α) : AgreeOn view computation computation := by
  cases computation with
  | ok value => exact rfl
  | error error => trivial

theorem AgreeOn.symm {view : α → γ} {second : Attempt α}
    (agree : AgreeOn view first second) : AgreeOn view second first := by
  cases first with
  | ok value =>
    cases second with
    | ok other => exact Eq.symm agree
    | error error => exact agree.elim
  | error error =>
    cases second with
    | ok other => exact agree.elim
    | error other => trivial

theorem Agree.exists_ok (agree : Agree related first second) (returned : first = .ok value) :
    ∃ other, second = .ok other ∧ related value other := by
  subst returned
  cases second with
  | ok other => exact ⟨other, rfl, agree⟩
  | error error => exact agree.elim

theorem Agree.exists_ok_first (agree : Agree related first second) {other : β} (returned : second = .ok other) :
    ∃ value, first = .ok value ∧ related value other := by
  subst returned
  cases first with
  | ok value => exact ⟨value, rfl, agree⟩
  | error error => exact agree.elim

end Agree

/-- Both computations fail for the same reason, or both return and what they return is related. -/
def Coincide (related : α → β → Prop) (first : Attempt α) (second : Attempt β) : Prop :=
  match first, second with
  | .ok value, .ok other => related value other
  | .error error, .error other => error = other
  | _, _ => False

section Coincide

variable {γ δ : Type} {related : α → β → Prop} {after : γ → δ → Prop}
variable {next : α → Attempt γ}

theorem Coincide.bind (coincide : Coincide related first second) {other : β → Attempt δ}
    (follow : ∀ value returned, related value returned → Coincide after (next value) (other returned)) :
    Coincide after (first >>= next) (second >>= other) := by
  cases first with
  | ok value =>
    cases second with
    | ok returned => exact follow value returned coincide
    | error error => exact coincide.elim
  | error error =>
    cases second with
    | ok returned => exact coincide.elim
    | error other => exact coincide

theorem coincide_bind_same {other : α → Attempt δ} (follow : ∀ value, Coincide after (next value) (other value)) :
    Coincide after (computation >>= next) (computation >>= other) := by
  cases computation with
  | ok value => exact follow value
  | error error => exact rfl

theorem coincide_self {related : α → α → Prop} (reflexive : ∀ value, related value value)
    (computation : Attempt α) : Coincide related computation computation := by
  cases computation with
  | ok value => exact reflexive value
  | error error => exact rfl

/-- What coincides on views is equal as far as it is viewed. -/
theorem Coincide.map_eq {view : α → γ} {other : β → γ}
    (coincide : Coincide (fun value returned => view value = other returned) first second) :
    first.map view = second.map other := by
  cases first with
  | ok value =>
    cases second with
    | ok returned => exact congrArg Except.ok coincide
    | error error => exact coincide.elim
  | error error =>
    cases second with
    | ok returned => exact coincide.elim
    | error other => exact congrArg Except.error coincide

/-- Both computations return, or both fail for the same reason. -/
abbrev SameVerdict (first : Attempt α) (second : Attempt β) : Prop := Coincide (fun _ _ => True) first second

theorem sameVerdict_refl (computation : Attempt α) :
    SameVerdict computation computation := coincide_self (fun _ => trivial) computation

end Coincide

/-- Where the first computation returns, so does the second one, and what they return is related. -/
def Follows (related : α → β → Prop) (first : Attempt α) (second : Attempt β) : Prop :=
  Returns first fun value => ∃ other, second = .ok other ∧ related value other

section Follows

variable {γ δ : Type} {related : α → β → Prop} {after : γ → δ → Prop}

@[simp] theorem follows_ok (value : α) (other : β) :
    Follows related (.ok value) (.ok other) ↔ related value other := by simp [Follows]

@[simp] theorem follows_pure (value : α) (other : β) :
    Follows related (pure value) (pure other) ↔ related value other := follows_ok value other

variable {next : α → Attempt γ}

theorem Follows.bind (follows : Follows related first second) {other : β → Attempt δ}
    (continued : ∀ value returned, related value returned → Follows after (next value) (other returned)) :
    Follows after (first >>= next) (second >>= other) := by
  cases first with
  | error error => trivial
  | ok value =>
    obtain ⟨returned, rfl, holds⟩ := follows
    exact continued value returned holds

variable {other : α → Attempt δ}

theorem follows_bind_same (continued : ∀ value, Follows after (next value) (other value)) :
    Follows after (computation >>= next) (computation >>= other) := by
  cases computation with
  | ok value => exact continued value
  | error error => trivial

/-- A shared computation may be continued with what it ensures. -/
theorem Ensures.follows_bind (ensured : Ensures computation property)
    (continued : ∀ value, property value → Follows after (next value) (other value)) :
    Follows after (computation >>= next) (computation >>= other) := by
  cases computation with
  | ok value => exact continued value ensured
  | error error => trivial

theorem Returns.follows (returned : Returns computation property) :
    Follows (fun value _ => property value) computation computation := by
  cases computation with
  | ok value => exact ⟨value, rfl, returned⟩
  | error error => trivial

theorem follows_self (computation : Attempt α) : Follows Eq computation computation := by
  cases computation with
  | ok value => exact (follows_ok _ _).mpr rfl
  | error error => trivial

variable {first : Attempt α} {second : Attempt β}
variable (follows : Follows related first second)

include follows

theorem Follows.mono (implies : ∀ value other, related value other → weaker value other) :
    Follows weaker first second :=
  Returns.imp follows fun value found => found.imp fun other both => ⟨both.1, implies value other both.2⟩

theorem Follows.exists_ok (returned : first = .ok value) :
    ∃ other, second = .ok other ∧ related value other := follows.of_ok returned

end Follows

/-- The second computation follows the first one, which fails only for reasons that the caller can
mend. -/
def Secures (related : α → β → Prop) (first : Attempt α) (second : Attempt β) : Prop :=
  Ensures first fun value => ∃ other, second = .ok other ∧ related value other

theorem Ensures.secures (ensured : Ensures result property) :
    Secures (fun value _ => property value) result result := by
  cases result with
  | ok value => exact ⟨value, rfl, ensured⟩
  | error error => exact ensured

theorem Secures.ensures (secures : Secures (fun value _ => property value) result second) : Ensures result property :=
  Ensures.imp secures fun _ found => found.elim fun _ both => both.2

/-- A way to compare two computations by what they return. -/
abbrev Comparer : Type 1 := {α β : Type} → (α → β → Prop) → Attempt α → Attempt β → Prop

/-- A comparison that goes on as the computations do. Where both start in the same way, they may fail
for reasons that the caller can mend. -/
structure Sequential (compare : Comparer) : Prop where
  ok {α β : Type} {related : α → β → Prop} {value : α} {other : β} :
    related value other → compare related (.ok value) (.ok other)
  bind {α β γ δ : Type} {related : α → β → Prop} {after : γ → δ → Prop} {first : Attempt α} {second : Attempt β}
    {next : α → Attempt γ} {other : β → Attempt δ} :
    compare related first second →
      (∀ value returned, related value returned → compare after (next value) (other returned)) →
      compare after (first >>= next) (second >>= other)
  same {α γ δ : Type} {property : α → Prop} {after : γ → δ → Prop} {computation : Attempt α} {next : α → Attempt γ}
    {other : α → Attempt δ} :
    Ensures computation property → (∀ value, property value → compare after (next value) (other value)) →
      compare after (computation >>= next) (computation >>= other)

namespace Sequential

variable {compare : Comparer} (sequential : Sequential compare)

include sequential

theorem self {related : α → α → Prop} (ensured : Ensures computation fun value => related value value) :
    compare related computation computation := by
  have continued : compare related (computation >>= pure) (computation >>= pure) :=
    sequential.same ensured fun _ holds => sequential.ok holds
  rwa [bind_pure] at continued

theorem unsupported {related : α → β → Prop} (cause : Unsupported) :
    compare related (.error (.unsupported cause)) (.error (.unsupported cause)) := by
  have failing : Ensures (.error (.unsupported cause)) fun _ : Empty => True := ensures_unsupported cause _
  have failed : ∀ next other, compare related ((.error (.unsupported cause) : Except _ Empty) >>= next)
      (.error (.unsupported cause) >>= other) := fun _ _ =>
    sequential.same failing fun value => value.elim
  exact failed Empty.elim Empty.elim

theorem mapM {γ : Type} {entries : List α} {related : β → γ → Prop} {one : α → Attempt β} {other : α → Attempt γ}
    (each : ∀ entry ∈ entries, compare related (one entry) (other entry)) :
    compare (Forall₂ related) (entries.mapM one) (entries.mapM other) := by
  induction entries with
  | nil => exact sequential.ok .nil
  | cons entry rest ih =>
    rw [forall_mem_cons] at each
    simp only [mapM_cons]
    exact sequential.bind each.1 fun _ _ first =>
      sequential.bind (ih each.2) fun _ _ others => sequential.ok (.cons first others)

end Sequential

theorem sequential_secures : Sequential Secures where
  ok related := ⟨_, rfl, related⟩
  bind secures continued := (ensures_bind _ _ _).mpr (Ensures.imp secures fun value found => by
    obtain ⟨returned, rfl, related⟩ := found
    exact continued value returned related)
  same ensured continued := (ensures_bind _ _ _).mpr (ensured.attach.imp fun value both => by
    rw [both.1]
    exact continued value both.2)

theorem sequential_agree : Sequential Agree where
  ok related := related
  bind agree follow := agree.bind follow
  same ensured follow := agree_bind_ensured ensured follow

theorem sequential_follows : Sequential Follows where
  ok related := (follows_ok _ _).mpr related
  bind follows continued := follows.bind continued
  same ensured continued := ensured.follows_bind continued

end GraphSql
