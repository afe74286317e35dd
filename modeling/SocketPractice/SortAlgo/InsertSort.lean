import SocketPractice.SortAlgo.ShellSort

/-!
# Insertion sort (`insert_sort.c`)

Element after element is inserted into those before it, which are in order already.  The
loops are those of a pass of `shell_sort.c` for the gap 1, but for the test of the index,
`j > 0` in place of `j >= gap`, and the first element, which is left out.
-/

namespace SocketPractice.SortAlgo

open Lib.While Lib.CArray Lib.Stride

/-! ## 1. The code -/

/-- `j > 0 && tmp > a[j - 1]`. -/
def insertTest (tmp : Int) (s : Shift) : Outcome Bool := do
  if s.j > 0 then
    return tmp > (← load s.a (s.j - 1))
  else
    return false

/-- `a[j] = a[j - 1]`, and `j--`. -/
def insertShift (s : Shift) : Outcome Shift := do
  return { a := ← store s.a s.j (← load s.a (s.j - 1)), j := s.j - 1 }

/-- One round of `for (i = 1; i < cnt; i++)`. -/
def insertElement (fuel : Nat) (i : Int) (a : List Int) : Outcome (List Int) := do
  let tmp ← load a i
  let s ← whileLoop (insertTest tmp) insertShift fuel { a, j := i }
  store s.a s.j tmp

/-- The array on return, and what has been printed. -/
def lcInsertSort (fuel : Nat) (a : List Int) (cnt : Int) : Outcome (List Int × List Char) := do
  let a ← forRange 1 cnt (insertElement fuel) a
  return (a, ← printArray a cnt)

/-! ## 2. An insertion -/

section Insert

variable {fuel : Nat} {a b : List Int} {i : Int}

/-- An index is positive exactly if it is at least 1. -/
theorem insertTest_eq (tmp : Int) : insertTest tmp = shiftTest 1 tmp := by
  funext s
  have hiff : s.j > 0 ↔ s.j ≥ 1 := by omega
  simp only [insertTest, shiftTest, hiff]

theorem insertElement_eq : insertElement fuel i a = shellInsert fuel 1 i a := by
  simp only [insertElement, shellInsert, insertTest_eq]
  rfl

/-- The elements before `i` are in order, and nothing has been lost. -/
structure Inserted (a : List Int) (i : Int) (b : List Int) : Prop where
  perm : b.Perm a
  sorted : ∀ p, 1 ≤ p → p < i → val b p ≤ val b (p - 1)

/-- Wherever the hole stops, `tmp` in it leaves the elements up to `i` in order. -/
theorem Inserted.next (h : Inserted a i b) (h0 : 0 ≤ i) (hi : i < a.length)
    (hfuel : a.length ≤ fuel) : Returns (insertElement fuel i b) (Inserted a (i + 1)) := by
  have hlen := h.perm.length_eq
  rw [insertElement_eq]
  apply (shellInsert_returns Int.one_pos h0 (by omega) h.sorted (by omega)).mono
  rintro c ⟨hbc, hsorted⟩
  exact ⟨hbc.perm.trans h.perm, hsorted⟩

/-- The first element alone is in order. -/
theorem insertions_returns (hfuel : a.length ≤ fuel) :
    Returns (forRange 1 a.length (insertElement fuel) a) (Inserted a a.length) := by
  by_cases hlen : 1 ≤ a.length
  · apply forRange_returns (Inserted a) (by omega)
    · constructor
      · exact .refl a
      · intro p hp hlt
        omega
    · intro i b hi hlt hb
      exact hb.next (by omega) hlt hfuel
  · rw [forRange_of_le (by omega)]
    apply returns_ok
    constructor
    · exact .refl a
    · intro p hp hlt
      omega

theorem Inserted.descending (h : Inserted a a.length b) : b.Pairwise (· ≥ ·) := by
  have hdesc : DescendingAt 1 b := by
    intro p hp hlt
    rw [h.perm.length_eq] at hlt
    exact h.sorted p hp hlt
  exact hdesc.pairwise

end Insert

/-! ## 3. The sort -/

/-- `lc_insert_sort` returns for every array, without an access outside it, and leaves the
    array in descending order. -/
theorem lc_insert_sort_sorts {a : List Int} {cnt : Int} (hcnt : a.length = cnt) :
    ∃ enough, ∀ fuel, enough ≤ fuel →
      Returns (lcInsertSort fuel a cnt) fun r => r.1.Perm a ∧ r.1.Pairwise (· ≥ ·) := by
  subst hcnt
  refine ⟨a.length, ?_⟩
  intro fuel hfuel
  obtain ⟨b, hrun, hb⟩ := insertions_returns hfuel
  have hprint : printArray b a.length = .ok (printed b) :=
    printArray_eq (by rw [hb.perm.length_eq])
  simp only [lcInsertSort, hrun, hprint, bind, Except.bind]
  apply returns_ok
  exact ⟨hb.perm, hb.descending⟩

/-- The last element goes all the way to the start. -/
theorem lc_insert_sort_sorts_five : ∃ enough, ∀ fuel, enough ≤ fuel →
    Returns (lcInsertSort fuel [3, 1, 3, 2, 5] 5) fun r =>
      r.1.Perm [3, 1, 3, 2, 5] ∧ r.1.Pairwise (· ≥ ·) :=
  lc_insert_sort_sorts rfl

end SocketPractice.SortAlgo
