import Mathlib.Algebra.Order.Ring.Int
import Mathlib.Data.List.TakeWhile

/-!
# Decimal text and the C conversions

`intText` is the text that `%d`, `%u` or a database column gives for an integer,
and `strtol`, `atoi` read such text back as the C library does on a platform with
64-bit `long` and 32-bit `int`: `strtol` stops at the first character that is no
digit and saturates, `atoi` truncates its result to `int`.
-/

namespace Lib.Decimal

def intText (n : Int) : List Char :=
  if n < 0 then '-' :: Nat.toDigits 10 n.natAbs else Nat.toDigits 10 n.natAbs

def isSpace (c : Char) : Bool := c == ' ' || ('\t' ≤ c && c ≤ '\r')

/-- The value of the digits the text starts with. -/
def leadingDigits (s : List Char) : Int := Nat.ofDigitChars 10 (s.takeWhile Char.isDigit) 0

def clampLong (n : Int) : Int := max (-2 ^ 63) (min n (2 ^ 63 - 1))

def strtol (s : List Char) : Int :=
  match s.dropWhile isSpace with
  | '-' :: ds => clampLong (-leadingDigits ds)
  | '+' :: ds => clampLong (leadingDigits ds)
  | ds => clampLong (leadingDigits ds)

def atoi (s : List Char) : Int32 := Int32.ofInt (strtol s)

/-! ## Reading back what was written -/

theorem leadingDigits_toDigits (n : Nat) : leadingDigits (Nat.toDigits 10 n) = n := by
  have hall : (Nat.toDigits 10 n).takeWhile Char.isDigit = Nat.toDigits 10 n := by
    rw [List.takeWhile_eq_self_iff]
    intro c hc
    exact Nat.isDigit_of_mem_toDigits (by decide) (by decide) hc
  rw [leadingDigits, hall, Nat.ofDigitChars_ten_toDigits]

/-- The first character of a number is a digit, so neither a space nor a sign. -/
theorem toDigits_eq_cons (n : Nat) :
    ∃ c cs, Nat.toDigits 10 n = c :: cs ∧ isSpace c = false ∧ c ≠ '-' ∧ c ≠ '+' := by
  rcases hd : Nat.toDigits 10 n with _ | ⟨c, cs⟩
  · exact absurd hd Nat.toDigits_ne_nil
  · have hdigit : c.isDigit := Nat.isDigit_of_mem_toDigits (b := 10) (n := n) (by decide)
      (by decide) (by rw [hd]; exact List.mem_cons_self)
    refine ⟨c, cs, rfl, ?_, ?_, ?_⟩
    · have h1 : ¬ c = ' ' := by
        intro heq
        subst heq
        exact absurd hdigit (by decide)
      have h2 : ¬ c ≤ '\r' := by
        intro hle
        simp only [Char.isDigit, Bool.and_eq_true, decide_eq_true_eq] at hdigit
        exact absurd (Nat.le_trans hdigit.1 hle) (by decide)
      simp [isSpace, h1, h2]
    · intro heq
      subst heq
      exact absurd hdigit (by decide)
    · intro heq
      subst heq
      exact absurd hdigit (by decide)

theorem strtol_intText {n : Int} (hlo : -2 ^ 63 ≤ n) (hhi : n < 2 ^ 63) :
    strtol (intText n) = n := by
  have hclamp : clampLong n = n := by
    unfold clampLong
    omega
  by_cases hneg : n < 0
  · have habs : -(n.natAbs : Int) = n := by omega
    rw [intText, if_pos hneg]
    have hsp : ('-' :: Nat.toDigits 10 n.natAbs).dropWhile isSpace =
        '-' :: Nat.toDigits 10 n.natAbs := rfl
    simp only [strtol, hsp, leadingDigits_toDigits, habs, hclamp]
  · have habs : (n.natAbs : Int) = n := by omega
    obtain ⟨c, cs, hcs, hsp, hminus, hplus⟩ := toDigits_eq_cons n.natAbs
    have hvalue := leadingDigits_toDigits n.natAbs
    rw [hcs, habs] at hvalue
    have hdrop : (c :: cs).dropWhile isSpace = c :: cs := by simp [hsp]
    rw [intText, if_neg hneg, hcs]
    simp only [strtol, hdrop]
    split
    · simp_all
    · simp_all
    · rw [hvalue, hclamp]

/-- An `int` survives being written and read back. -/
theorem atoi_int32 (x : Int32) : atoi (intText x.toInt) = x := by
  have hlo := x.le_toInt
  have hhi := x.toInt_lt
  rw [atoi, strtol_intText (by omega) (by omega), Int32.ofInt_toInt]

/-- So does an unsigned 32-bit value that is cast back after `atoi`. -/
theorem atoi_uint32 (x : UInt32) : (atoi (intText x.toNat)).toUInt32 = x := by
  have hlt := x.toNat_lt
  rw [atoi, strtol_intText (by omega) (by omega)]
  apply UInt32.toBitVec_inj.mp
  apply BitVec.eq_of_toInt_eq
  simp

theorem atoi_uint16 (x : UInt16) : (atoi (intText x.toNat)).toUInt32.toUInt16 = x := by
  have hlt := x.toNat_lt
  have h32 := atoi_uint32 x.toUInt32
  rw [UInt16.toNat_toUInt32] at h32
  rw [h32, UInt16.toUInt16_toUInt32]

end Lib.Decimal
