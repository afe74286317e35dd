import Mathlib.Data.List.Basic

/-!
# Blocks of raw memory

The bytes of an object that the code only ever copies.  A byte of a fresh
`malloc` is indeterminate (`none`).  `memcpy` outside one of its two blocks is
undefined behaviour and yields no result.
-/

namespace Lib.Raw

abbrev Block := List (Option UInt8)

/-- A fresh block of `malloc`. -/
def uninit (n : Nat) : Block := List.replicate n none

/-- A fresh block of `calloc`. -/
def zeroed (n : Nat) : Block := List.replicate n (some 0)

/-- The `n` bytes from offset `off` on. -/
def slice (b : Block) (off n : Nat) : Block := (b.drop off).take n

/-- `memcpy(dst + d, src + s, n)`: the block `dst` afterwards. -/
def memcpy (dst : Block) (d : Nat) (src : Block) (s n : Nat) : Option Block :=
  if d + n ≤ dst.length ∧ s + n ≤ src.length then
    some (dst.take d ++ slice src s n ++ dst.drop (d + n))
  else none

variable {dst src b : Block} {d s n : Nat}

@[simp] theorem length_uninit : (uninit n).length = n := List.length_replicate

@[simp] theorem length_zeroed : (zeroed n).length = n := List.length_replicate

theorem length_slice (h : s + n ≤ src.length) : (slice src s n).length = n := by
  simp [slice]
  omega

@[simp] theorem slice_zero : slice b 0 n = b.take n := rfl

theorem memcpy_eq (hd : d + n ≤ dst.length) (hs : s + n ≤ src.length) :
    memcpy dst d src s n = some (dst.take d ++ slice src s n ++ dst.drop (d + n)) :=
  if_pos ⟨hd, hs⟩

theorem length_memcpy (h : memcpy dst d src s n = some b) : b.length = dst.length := by
  simp only [memcpy, Option.ite_none_right_eq_some, Option.some.injEq] at h
  obtain ⟨⟨hd, hs⟩, rfl⟩ := h
  simp [slice]
  omega

/-- Filling a block of the right size. -/
theorem memcpy_whole (hd : dst.length = n) (hs : n ≤ src.length) :
    memcpy dst 0 src 0 n = some (src.take n) := by
  rw [memcpy_eq (by omega) (by omega), Nat.zero_add, List.drop_of_length_le (by omega)]
  simp

/-- What is copied is what stands there afterwards. -/
theorem slice_memcpy_self (h : memcpy dst d src s n = some b) :
    slice b d n = slice src s n := by
  simp only [memcpy, Option.ite_none_right_eq_some, Option.some.injEq] at h
  obtain ⟨⟨hd, hs⟩, rfl⟩ := h
  have htake : (dst.take d).length = d := by simp; omega
  have hslice : (slice src s n).length = n := length_slice hs
  unfold slice at hslice ⊢
  rw [List.append_assoc, List.drop_left' htake, List.take_left' hslice]

/-- A copy leaves every range that it does not overlap. -/
theorem slice_memcpy_of_disjoint (h : memcpy dst d src s n = some b) {o k : Nat}
    (ho : o + k ≤ d ∨ d + n ≤ o) : slice b o k = slice dst o k := by
  simp only [memcpy, Option.ite_none_right_eq_some, Option.some.injEq] at h
  obtain ⟨⟨hd, hs⟩, rfl⟩ := h
  have htake : (dst.take d).length = d := by simp; omega
  have hslice : (slice src s n).length = n := length_slice hs
  unfold slice at hslice ⊢
  apply List.ext_getElem?
  intro i
  by_cases hi : i < k
  · rw [List.getElem?_take_of_lt hi, List.getElem?_take_of_lt hi, List.getElem?_drop,
      List.getElem?_drop]
    rcases ho with ho | ho
    · rw [List.getElem?_append_left (by rw [List.length_append, htake]; omega),
        List.getElem?_append_left (by rw [htake]; omega), List.getElem?_take_of_lt (by omega)]
    · rw [List.getElem?_append_right (by rw [List.length_append, htake, hslice]; omega),
        List.getElem?_drop, List.length_append, htake, hslice]
      congr 1
      omega
  · rw [List.getElem?_take_eq_none (by omega), List.getElem?_take_eq_none (by omega)]

end Lib.Raw
