import Mathlib.Data.List.Infix
import Mathlib.Data.List.TakeWhile

/-!
# Searching in strings that end at a zero byte

A C string is the bytes of a block up to its first zero.  `strcasestr` looks for a
pattern in it without regard to the case of ASCII letters; it may read beyond the
field it is given, up to the zero that it finds there.
-/

namespace Lib.CString

def lower (b : UInt8) : UInt8 := if 65 ≤ b ∧ b ≤ 90 then b + 32 else b

def cString (block : List UInt8) : List UInt8 := block.takeWhile (· ≠ 0)

/-- The bytes contain the pattern, whatever the case of letters. -/
def containsCase (bytes needle : List UInt8) : Bool :=
  decide (needle.map lower <:+: bytes.map lower)

/-- `strcasestr` finds the pattern in the string at the start of the block. -/
def strcasestr (block needle : List UInt8) : Bool := containsCase (cString block) needle

/-- A byte that does not end the pattern adds no place where it is found. -/
theorem containsCase_append_singleton {needle : List UInt8} {b : UInt8} (bytes : List UInt8)
    (hne : needle ≠ []) (hlast : (needle.map lower).getLast? ≠ some (lower b)) :
    containsCase (bytes ++ [b]) needle = containsCase bytes needle := by
  unfold containsCase
  rw [Bool.eq_iff_iff, decide_eq_true_iff, decide_eq_true_iff, List.map_append, List.map_cons,
    List.map_nil, List.infix_concat_iff, List.suffix_concat_iff]
  constructor
  · rintro ((hnil | ⟨t, ht, -⟩) | h)
    · exact absurd (List.map_eq_nil_iff.mp hnil) hne
    · rw [ht, List.getLast?_concat] at hlast
      exact absurd rfl hlast
    · exact h
  · exact Or.inr

/-- What lies behind a field with a zero in it does not matter to the search. -/
theorem strcasestr_append_of_mem {field : List UInt8} (hzero : 0 ∈ field)
    (rest needle : List UInt8) : strcasestr (field ++ rest) needle = strcasestr field needle := by
  unfold strcasestr cString
  rw [List.takeWhile_append, if_neg]
  intro hall
  have hsame : field.takeWhile (· ≠ 0) = field :=
    (List.takeWhile_prefix _).eq_of_length hall
  have hne := List.takeWhile_eq_self_iff.mp hsame 0 hzero
  exact absurd rfl (of_decide_eq_true hne)

/-- What lies behind a field does not matter to the search in it, if a zero comes
    there at once or after one byte that does not end the pattern. -/
theorem strcasestr_append {needle : List UInt8} {b : UInt8} (field rest : List UInt8)
    (hne : needle ≠ []) (hlast : (needle.map lower).getLast? ≠ some (lower b)) :
    strcasestr (field ++ b :: 0 :: rest) needle = strcasestr field needle := by
  by_cases hzero : (0 : UInt8) ∈ field
  · exact strcasestr_append_of_mem hzero _ _
  · unfold strcasestr cString
    have hall : ∀ x ∈ field, decide (x ≠ 0) = true := by
      intro x hx
      apply decide_eq_true
      intro heq
      subst heq
      exact hzero hx
    rw [List.takeWhile_append_of_pos hall, List.takeWhile_eq_self_iff.mpr hall]
    by_cases hb : b = 0
    · simp [hb]
    · have htail : (b :: 0 :: rest).takeWhile (· ≠ 0) = [b] := by simp [hb]
      rw [htail]
      exact containsCase_append_singleton field hne hlast

theorem cString_append_zeros (field : List UInt8) (k : Nat) :
    cString (field ++ List.replicate k 0) = cString field := by
  unfold cString
  rw [List.takeWhile_append]
  split
  · have hzeros : (List.replicate k (0 : UInt8)).takeWhile (· ≠ 0) = [] := by
      cases k <;> simp [List.replicate_succ]
    rename_i hall
    rw [hzeros, List.append_nil]
    exact ((List.takeWhile_prefix _).eq_of_length hall).symm
  · rfl

/-- In a field that contains the pattern, what comes behind the field does not matter:
    it is found unless a zero precedes it. -/
theorem strcasestr_append_of_contains {field needle : List UInt8} (rest : List UInt8)
    (h : containsCase field needle = true) :
    strcasestr (field ++ rest) needle = strcasestr field needle := by
  unfold strcasestr cString
  rw [List.takeWhile_append]
  by_cases hall : (field.takeWhile (· ≠ 0)).length = field.length
  · have hsame : field.takeWhile (· ≠ 0) = field :=
      (List.takeWhile_prefix _).eq_of_length hall
    rw [if_pos hall, hsame, h]
    apply decide_eq_true
    rw [List.map_append]
    exact (of_decide_eq_true h).trans List.infix_append_left
  · rw [if_neg hall]

theorem containsCase_of_strcasestr {block needle : List UInt8}
    (h : strcasestr block needle = true) : containsCase block needle = true := by
  refine decide_eq_true ((of_decide_eq_true h).trans ?_)
  exact ((List.takeWhile_prefix _).map lower).isInfix

end Lib.CString
