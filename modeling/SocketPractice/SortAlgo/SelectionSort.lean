import SocketPractice.SortAlgo.BubbleSort

/-!
# Selection sort (`selection_sort.c`)

A pass looks for a largest element from `k` on and exchanges it with the one at `k`.  The
last test, that the two values differ, leaves out exchanges that would change nothing.
What stands before `k` is in order and not less than anything behind it.
-/

namespace SocketPractice.SortAlgo

open Lib.While Lib.CArray Lib.CInt

/-! ## 1. The code -/

/-- `if (a[tmp_i] < a[i]) tmp_i = i;`. -/
def selectRound (a : List Int) (i tmpI : Int) : Outcome Int := do
  if (← load a tmpI) < (← load a i) then
    return i
  else
    return tmpI

/-- `for (i = k; i < cnt; i++)`, and the exchange behind it. -/
def selectionPass (cnt k : Int) (a : List Int) : Outcome (List Int) := do
  let tmpI ← forRange k cnt (selectRound a) k
  if (← load a k) ≠ (← load a tmpI) then
    swap a k tmpI
  else
    return a

/-- The array on return, and what has been printed. -/
def lcSelectionSort (a : List Int) (asize : Nat) : Outcome (List Int × List Char) := do
  let cnt := toInt (asize / SIZEOF_INT : Nat)
  let a ← forRange 0 (cnt - 1) (selectionPass cnt) a
  return (a, ← printArray a cnt)

/-! ## 2. A pass -/

section Pass

variable {a b c : List Int} {k i tmpI : Int}

/-- The element at `tmp_i` is a largest one from `k` up to before `i`. -/
structure Selecting (a : List Int) (k i tmpI : Int) : Prop where
  start_le : k ≤ tmpI
  lt_length : tmpI < a.length
  largest : ∀ p, k ≤ p → p < i → val a p ≤ val a tmpI

theorem selectRound_returns (h : Selecting a k i tmpI) (h0 : 0 ≤ k) (hki : k ≤ i)
    (hi : i < a.length) : Returns (selectRound a i tmpI) (Selecting a k (i + 1)) := by
  obtain ⟨hstart, hlen, hlargest⟩ := h
  have hin : InBounds a i := ⟨by omega, hi⟩
  have hintmp : InBounds a tmpI := ⟨by omega, hlen⟩
  simp only [selectRound, load_eq hin, load_eq hintmp, bind, Except.bind]
  by_cases hless : val a tmpI < val a i
  · rw [if_pos hless]
    apply returns_ok
    constructor
    · exact hki
    · exact hi
    · intro p hp hpi
      by_cases hpe : p = i
      · rw [hpe]
      · exact (hlargest p hp (by omega)).trans hless.le
  · rw [if_neg hless]
    apply returns_ok
    constructor
    · exact hstart
    · exact hlen
    · intro p hp hpi
      by_cases hpe : p = i
      · rw [hpe]
        exact Int.not_lt.mp hless
      · exact hlargest p hp (by omega)

/-- The scan ends with a largest element of those from `k` on. -/
theorem select_returns (h0 : 0 ≤ k) (hk : k < a.length) :
    Returns (forRange k a.length (selectRound a) k) (Selecting a k a.length) := by
  apply forRange_returns (Selecting a k) hk.le
  · constructor
    · exact Int.le_refl k
    · exact hk
    · intro p hp hlt
      omega
  · intro i tmpI hki hi hsel
    exact selectRound_returns hsel h0 hki hi

/-- A largest element of those from `k` on is at `k`, and the others are behind it. -/
structure Selected (a : List Int) (k : Int) (b : List Int) : Prop where
  rearranges : Rearranges (within k (a.length - 1)) a b
  largest : ∀ p, k ≤ p → p < a.length → val b p ≤ val b k

theorem Selecting.swap (h : Selecting a k a.length tmpI) (h0 : 0 ≤ k) (hk : k < a.length) :
    Selected a k (swapped a k tmpI) := by
  obtain ⟨hstart, hlen, hlargest⟩ := h
  have hin : InBounds a k := ⟨h0, hk⟩
  have hintmp : InBounds a tmpI := ⟨by omega, hlen⟩
  have hclass : within k (a.length - 1) k = within k (a.length - 1) tmpI :=
    within_eq (Int.le_refl k) (by omega) hstart (by omega)
  have hab := Rearranges.swapped hin hintmp hclass
  constructor
  · exact hab
  · intro p hp hlt
    obtain ⟨q, hq, hqlt, hval⟩ := hab.inside hp (by omega)
    rw [hval, val_swapped_left hin hintmp]
    exact hlargest q hq (by omega)

/-- Equal values need no exchange. -/
theorem Selecting.keep (h : Selecting a k a.length tmpI) (heq : val a k = val a tmpI) :
    Selected a k a := by
  constructor
  · exact .refl _ a
  · intro p hp hlt
    rw [heq]
    exact h.largest p hp hlt

theorem selectionPass_returns (h0 : 0 ≤ k) (hk : k < a.length) :
    Returns (selectionPass a.length k a) (Selected a k) := by
  apply (select_returns h0 hk).bind
  intro tmpI hsel
  have hstart := hsel.start_le
  have hin : InBounds a k := ⟨h0, hk⟩
  have hintmp : InBounds a tmpI := ⟨by omega, hsel.lt_length⟩
  simp only [load_eq hin, load_eq hintmp, bind, Except.bind]
  by_cases heq : val a k = val a tmpI
  · rw [if_neg (not_not_intro heq)]
    exact returns_ok (hsel.keep heq)
  · rw [if_pos heq, swap_eq hin hintmp]
    exact returns_ok (hsel.swap h0 hk)

end Pass

/-! ## 3. All passes -/

section Passes

variable {a b c : List Int} {k : Int}

/-- The first `k` elements are in order, and nothing behind one of them is larger. -/
structure SelectedTo (a : List Int) (k : Int) (b : List Int) : Prop where
  perm : b.Perm a
  dominates : ∀ p q, 0 ≤ p → p < k → p < q → q < a.length → val b q ≤ val b p

/-- A pass touches nothing before `k`, and the elements that it moves stay behind those. -/
theorem SelectedTo.next (h : SelectedTo a k b) (hpass : Selected b k c) :
    SelectedTo a (k + 1) c := by
  obtain ⟨hperm, hdominates⟩ := h
  obtain ⟨hbc, hlargest⟩ := hpass
  have hlen := hperm.length_eq
  constructor
  · exact hbc.perm.trans hperm
  · intro p q hp hpk hpq hq
    by_cases hpe : p = k
    · subst hpe
      exact hlargest q (by omega) (by omega)
    · rw [hbc.outside (.inl (by omega : p < k))]
      by_cases hqk : q < k
      · rw [hbc.outside (.inl hqk)]
        exact hdominates p q hp (by omega) hpq hq
      · obtain ⟨r, hr, hrlt, hval⟩ := hbc.inside (by omega : k ≤ q) (by omega)
        rw [hval]
        exact hdominates p r hp (by omega) (by omega) (by omega)

/-- The passes up to the last element but one leave nothing to be sorted. -/
theorem SelectedTo.pairwise (h : SelectedTo a (a.length - 1) b) : b.Pairwise (· ≥ ·) := by
  have hlen := h.perm.length_eq
  rw [List.pairwise_iff_getElem]
  intro p q hp hq hpq
  rw [← val_natCast b hp, ← val_natCast b hq]
  exact h.dominates p q (by omega) (by omega) (by omega) (by omega)

theorem selectionPasses_returns (a : List Int) :
    Returns (forRange 0 (a.length - 1) (selectionPass a.length) a) fun b =>
      b.Perm a ∧ b.Pairwise (· ≥ ·) := by
  have hzero : SelectedTo a 0 a := by
    constructor
    · exact .refl a
    · intro p q hp hlt
      omega
  by_cases hpos : 0 < a.length
  · have hloop : Returns (forRange 0 (a.length - 1) (selectionPass a.length) a)
        (SelectedTo a (a.length - 1)) := by
      apply forRange_returns (SelectedTo a) (by omega) hzero
      intro k b h0 hk hb
      have hlen := hb.perm.length_eq
      rw [← hlen]
      apply (selectionPass_returns h0 (by omega)).mono
      intro c hpass
      exact hb.next hpass
    apply hloop.mono
    intro b hb
    exact ⟨hb.perm, hb.pairwise⟩
  · obtain rfl : a = [] := List.length_eq_zero_iff.mp (by omega)
    rw [forRange_of_le (by decide)]
    exact returns_ok ⟨.refl _, .nil⟩

end Passes

/-! ## 4. The sort -/

theorem lcSelectionSort_eq {a b : List Int} (hmax : (a.length : Int) ≤ INT_MAX)
    (hpasses : forRange 0 (a.length - 1) (selectionPass a.length) a = .ok b)
    (hlen : b.length = a.length) :
    lcSelectionSort a (a.length * SIZEOF_INT) = .ok (b, printed b) := by
  have hprint : printArray b a.length = .ok (printed b) := printArray_eq (by rw [hlen])
  unfold lcSelectionSort
  simp only [cnt_eq hmax, hpasses]
  show (printArray b a.length >>= fun out => pure (b, out)) = _
  rw [hprint]
  rfl

/-- `lc_selection_sort` returns for every array whose length is an `int`, without an access
    outside it, and leaves the array in descending order. -/
theorem lc_selection_sort_sorts {a : List Int} {cnt : Int} {asize : Nat}
    (hcnt : a.length = cnt) (hmax : cnt ≤ INT_MAX) (hsize : asize = a.length * SIZEOF_INT) :
    Returns (lcSelectionSort a asize) fun r => r.1.Perm a ∧ r.1.Pairwise (· ≥ ·) := by
  subst hcnt hsize
  obtain ⟨b, hpasses, hperm, hsorted⟩ := selectionPasses_returns a
  rw [lcSelectionSort_eq hmax hpasses hperm.length_eq]
  exact returns_ok ⟨hperm, hsorted⟩

/-- A largest element twice, once behind the other. -/
theorem lc_selection_sort_sorts_five : Returns (lcSelectionSort [3, 1, 5, 2, 5] 20) fun r =>
    r.1.Perm [3, 1, 5, 2, 5] ∧ r.1.Pairwise (· ≥ ·) :=
  @lc_selection_sort_sorts [3, 1, 5, 2, 5] 5 20 rfl (by decide) (by decide)

end SocketPractice.SortAlgo
