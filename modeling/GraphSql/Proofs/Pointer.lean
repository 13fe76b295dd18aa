import GraphSql.Proofs.RoundTrip

namespace GraphSql.Pointer

open List

/-- After every tilde stands a zero or a one. -/
def EscapesTildes (text : List Char) : Prop :=
  ∀ index, text[index]? = some '~' → text[index + 1]? = some '0' ∨ text[index + 1]? = some '1'

theorem escapesTildes_cons (c : Char) (rest : List Char) : EscapesTildes (c :: rest) ↔
      (c = '~' → rest.head? = some '0' ∨ rest.head? = some '1') ∧ EscapesTildes rest := by
  constructor
  · intro escapes
    exact ⟨fun tilde => by simpa [head?_eq_getElem?] using escapes 0 (by simp [tilde]),
      fun index => by simpa using escapes (index + 1)⟩
  · rintro ⟨first, others⟩ index tilde
    cases index with
    | zero => simpa [head?_eq_getElem?] using first (by simpa using tilde)
    | succ index => simpa using others index (by simpa using tilde)

/-- The text after the first slash is read if its tildes are escapes, and the segments that are read
are written as it. -/
def ReadsExactly (text : List Char) : Prop :=
  (∃ segments, (splitSlashes text).mapM unescape = some segments ∧
    segments.flatMap ('/' :: escape ·) = '/' :: text ∧ EscapesTildes text) ∨
  (splitSlashes text).mapM unescape = none ∧ ¬ EscapesTildes text

theorem splitSlashes_append_left {before : List Char} (unslashed : '/' ∉ before) (rest : List Char) :
    ∃ first others, splitSlashes rest = first :: others ∧
      splitSlashes (before ++ rest) = (before ++ first) :: others := by
  induction before with
  | nil =>
    obtain ⟨first, others, parts⟩ : ∃ first others, splitSlashes rest = first :: others := by
      cases rest with
      | nil => exact ⟨[], [], rfl⟩
      | cons c rest =>
        unfold splitSlashes
        split
        · exact ⟨_, _, rfl⟩
        · split <;> exact ⟨_, _, rfl⟩
    exact ⟨first, others, parts, parts⟩
  | cons c before ih =>
    rw [mem_cons, not_or] at unslashed
    obtain ⟨first, others, parts, further⟩ := ih unslashed.2
    exact ⟨first, others, parts, by simp [splitSlashes, further, Ne.symm unslashed.1]⟩

/-- A character is read from its own escape, whatever follows. -/
theorem ReadsExactly.cons {c : Char} {rest : List Char} (reads : ReadsExactly rest)
    (decodes : ∀ first, unescape (escape [c] ++ first) = (unescape first).map (c :: ·))
    (escapes : EscapesTildes (escape [c] ++ rest) ↔ EscapesTildes rest) :
    ReadsExactly (escape [c] ++ rest) := by
  obtain ⟨first, others, parts, further⟩ := splitSlashes_append_left (slash_notMem_escape [c]) rest
  unfold ReadsExactly at reads ⊢
  rw [parts] at reads
  rw [further, escapes, mapM_cons, decodes]
  rcases reads with ⟨segments, read, written, escaped⟩ | ⟨unread, stray⟩
  · left
    rw [mapM_cons] at read
    obtain ⟨segment, found, read⟩ := Option.bind_eq_some_iff.mp read
    obtain ⟨mem, others, same⟩ := Option.bind_eq_some_iff.mp read
    obtain rfl := Option.some_inj.mp same
    refine ⟨(c :: segment) :: mem, by simp [found, others], ?_, escaped⟩
    have whole : escape (c :: segment) = escape [c] ++ escape segment := by simp [escape]
    simpa [whole] using written
  · right
    refine ⟨?_, stray⟩
    rw [mapM_cons] at unread
    cases found : unescape first with
    | none => rfl
    | some segment => simpa [found] using unread

theorem readsExactly (text : List Char) : ReadsExactly text := by
  induction text using unescape.induct with
  | case1 => exact .inl ⟨[[]], rfl, rfl, by simp [EscapesTildes]⟩
  | case2 rest ih => exact ih.cons (c := '~') (fun _ => rfl) (by simp [escape, escapesTildes_cons])
  | case3 rest ih => exact ih.cons (c := '/') (fun _ => rfl) (by simp [escape, escapesTildes_cons])
  | case4 rest notZero notOne =>
    -- Neither escape begins here, so the part that begins with the tilde is refused.
    refine .inr ⟨?_, fun escapes => ?_⟩
    · cases rest with
      | nil => rfl
      | cons c rest =>
        by_cases slash : c = '/'
        · simp [splitSlashes, slash, unescape]
        · have unslashed : '/' ∉ ['~', c] := by simp [Ne.symm slash]
          obtain ⟨first, others, -, parts⟩ := splitSlashes_append_left unslashed rest
          have refused : unescape ('~' :: c :: first) = none := by
            have zero : c ≠ '0' := fun same => notZero rest rfl (by rw [same])
            have one : c ≠ '1' := fun same => notOne rest rfl (by rw [same])
            simp [unescape, zero, one]
          simp only [cons_append, nil_append] at parts
          simp [parts, refused]
    · rcases ((escapesTildes_cons _ _).mp escapes).1 rfl with zero | one
      · obtain ⟨others, rfl⟩ := head?_eq_some_iff.mp zero
        exact notZero others rfl rfl
      · obtain ⟨others, rfl⟩ := head?_eq_some_iff.mp one
        exact notOne others rfl rfl
  | case5 c rest _ _ plain ih =>
    by_cases slash : c = '/'
    · subst slash
      rcases ih with ⟨segments, read, written, escapes⟩ | ⟨unread, stray⟩
      · exact .inl ⟨[] :: segments, by simp [splitSlashes, unescape, read],
          by rw [flatMap_cons, written]; rfl, by simp [escapesTildes_cons, escapes]⟩
      · exact .inr ⟨by simp [splitSlashes, unescape, unread], by simp [escapesTildes_cons, stray]⟩
    · have own : escape [c] = [c] := by simp [escape, plain, slash]
      have reads := ih.cons (c := c) (fun first => by simp [own, unescape, plain])
        (by simp [own, escapesTildes_cons, plain])
      rwa [own] at reads

/-- A pointer is read from its own text. A text is read exactly if it is empty, or begins with a
slash and has only tildes that begin an escape, and the pointer that is read is written as it. -/
theorem text_determines_segments (pointer : Pointer) (text : String) :
    parse pointer.display = .ok pointer ∧
      ((∃ read, parse text = .ok read) ↔
        text = "" ∨ text.toList.head? = some '/' ∧ EscapesTildes text.toList) ∧
      ∀ read, parse text = .ok read → read.display = text := by
  refine ⟨parse_display pointer, ?_⟩
  unfold parse
  cases begins : text.toList with
  | nil => simp [String.toList_eq_nil_iff.mp begins, root, display, displayCharacters]
  | cons c rest =>
    have nonempty : text ≠ "" := by
      rintro rfl
      simp at begins
    by_cases slash : c = '/'
    · subst slash
      rcases readsExactly rest with ⟨segments, read, written, escapes⟩ | ⟨unread, stray⟩
      · have shown : (display ⟨segments.map String.ofList⟩).toList = text.toList := by
          simpa [display, displayCharacters, flatMap_map, begins] using written
        simpa [read, escapesTildes_cons, escapes] using String.toList_inj.mp shown
      · simp [unread, escapesTildes_cons, stray, nonempty]
    · simp [slash, nonempty]

end GraphSql.Pointer
