import GraphSql.Identifier
import Mathlib

namespace GraphSql

open List

namespace Text

/-- The search is right because what is left out of it is on the other side of the middle word. -/
theorem bisect_iff_mem {words : List String} (ordered : words.Pairwise (· < ·)) (word : String) :
    bisect words word = true ↔ word ∈ words := by
  fun_induction bisect words word with
  | case1 words found =>
    have none : words = [] := by
      rw [drop_eq_nil_iff] at found
      exact length_eq_zero_iff.mp (by omega)
    simp [none]
  | case2 words middle later found before search =>
    rw [search ordered.take]
    have upper : word ∉ words.drop (words.length / 2) := by
      rw [found, mem_cons, not_or]
      refine ⟨before.ne, fun isLater => ?_⟩
      have follows := rel_of_pairwise_cons (found ▸ ordered.drop) isLater
      exact lt_asymm before follows
    rw [← take_append_drop (words.length / 2) words, mem_append, or_iff_left upper]
    simp
  | case3 words middle later found notBefore after search =>
    have ends : (middle :: later).Pairwise (· < ·) := found ▸ ordered.drop
    rw [search ends.of_cons]
    have lower : word ∉ words.take (words.length / 2) := by
      intro isEarlier
      have split := take_append_drop (words.length / 2) words ▸ ordered
      rw [found] at split
      exact lt_asymm after ((pairwise_append.mp split).2.2 word isEarlier middle mem_cons_self)
    rw [← take_append_drop (words.length / 2) words, mem_append, or_iff_right lower, found, mem_cons,
      or_iff_right after.ne']
  | case4 words middle later found notBefore notAfter =>
    have same : word = middle := le_antisymm (not_lt.mp notAfter) (not_lt.mp notBefore)
    have mem : middle ∈ words := mem_of_mem_drop (found ▸ mem_cons_self)
    simp [same, mem]

end Text

theorem reservedKeywords_ordered : reservedKeywords.Pairwise (· < ·) := by
  rw [← isChain_iff_pairwise]
  decide +kernel

/-- Letters of ASCII, by their places in the code. -/
def IsAsciiLetter (c : Char) : Prop := 'A' ≤ c ∧ c ≤ 'Z' ∨ 'a' ≤ c ∧ c ≤ 'z'

/-- What a name must look like, keywords apart. -/
structure Identifier.IsWellFormed (name : String) : Prop where
  notEmpty : name ≠ ""
  short : name.utf8ByteSize ≤ 63
  first : ∀ c ∈ name.toList.head?, IsAsciiLetter c ∨ c = '_'
  rest : ∀ c ∈ name.toList.tail, IsAsciiLetter c ∨ '0' ≤ c ∧ c ≤ '9' ∨ c = '_' ∨ c = '$'

namespace Identifier

theorem isFirst_iff (c : Char) : isFirst c = true ↔ IsAsciiLetter c ∨ c = '_' := by
  simp only [isFirst, Char.isAlpha, Char.isUpper, Char.isLower, Bool.or_eq_true, Bool.and_eq_true,
    decide_eq_true_eq, beq_iff_eq]
  rfl

theorem isRest_iff (c : Char) : isRest c = true ↔ IsAsciiLetter c ∨ '0' ≤ c ∧ c ≤ '9' ∨ c = '_' ∨ c = '$' := by
  simp only [isRest, Char.isAlphanum, Char.isAlpha, Char.isUpper, Char.isLower, Char.isDigit,
    Bool.or_eq_true, Bool.and_eq_true, decide_eq_true_eq, beq_iff_eq]
  rw [or_assoc, or_assoc]
  rfl

theorem isWellFormed_iff (name : String) : IsWellFormed name ↔
      name.isEmpty = false ∧ name.utf8ByteSize ≤ maxIdentifierBytes ∧ hasShape name.toList = true := by
  have shape : hasShape name.toList = true ↔ name.toList ≠ [] ∧ (∀ c ∈ name.toList.head?, IsAsciiLetter c ∨ c = '_') ∧
      ∀ c ∈ name.toList.tail, IsAsciiLetter c ∨ '0' ≤ c ∧ c ≤ '9' ∨ c = '_' ∨ c = '$' := by
    cases name.toList with
    | nil => simp [hasShape]
    | cons first rest => simp [hasShape, isFirst_iff, isRest_iff]
  have mem : name.toList ≠ [] ↔ name ≠ "" := by simp
  rw [shape, mem, String.isEmpty_eq_false_iff]
  constructor
  · rintro ⟨notEmpty, short, first, rest⟩
    exact ⟨notEmpty, short, notEmpty, first, rest⟩
  · rintro ⟨notEmpty, short, -, first, rest⟩
    exact ⟨notEmpty, short, first, rest⟩

/-- The check splits all texts into three: names, keywords that look like names, and the rest. -/
theorem check_exact (name : String) :
    (Text.bisect reservedKeywords name = true ↔ name ∈ reservedKeywords) ∧
      (check name = .ok () ↔ IsWellFormed name ∧ Text.lowerAscii name ∉ reservedKeywords) ∧
      (check name = .error (.reservedKeyword name) ↔
        IsWellFormed name ∧ Text.lowerAscii name ∈ reservedKeywords) ∧
      ((∃ fault, check name = .error (.invalidIdentifier name fault)) ↔ ¬ IsWellFormed name) := by
  have searched := Text.bisect_iff_mem reservedKeywords_ordered
  refine ⟨searched name, ?_⟩
  rw [isWellFormed_iff, ← searched, ← isReservedKeyword]
  unfold check
  split_ifs with empty long misshapen reserved
  · simp [empty]
  · simp [Nat.not_le.mpr long]
  · simp_all
  · simp_all
  · simp_all

end Identifier

end GraphSql
