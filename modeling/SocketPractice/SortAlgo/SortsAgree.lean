import Mathlib.Data.List.Sort
import SocketPractice.SortAlgo.BubbleSort
import SocketPractice.SortAlgo.InsertSort
import SocketPractice.SortAlgo.QuickSortsAgree
import SocketPractice.SortAlgo.SelectionSort
import SocketPractice.SortAlgo.ShellSort

/-!
# The sorts against the one arrangement

An array has one descending arrangement.  Insertion, shell and selection sort leave that
one and print it, and the quicksorts leave it the other way round.  Bubble sort leaves it
too, but for its two first elements: those change places exactly if the largest element of
the array was the last one and the only one of its value.
-/

namespace SocketPractice.SortAlgo

open Lib.While Lib.CArray Lib.CInt

/-! ## 1. The arrangement -/

/-- The elements in descending order. -/
def descending (a : List Int) : List Int := a.mergeSort fun x y => decide (x ≥ y)

/-- The last element is greater than every other. -/
def LastAlone (a : List Int) : Prop := 2 ≤ a.length ∧ ¬ LastNotAlone a

section Descending

variable {a b : List Int}

theorem descending_perm (a : List Int) : (descending a).Perm a := List.mergeSort_perm a _

theorem descending_pairwise (a : List Int) : (descending a).Pairwise (· ≥ ·) := by
  exact List.pairwise_mergeSort' (· ≥ ·) a

/-- There is no other descending arrangement. -/
theorem eq_descending (hperm : b.Perm a) (hsorted : b.Pairwise (· ≥ ·)) : b = descending a :=
  List.Perm.eq_of_pairwise (fun _ _ _ _ hxy hyx => Int.le_antisymm hyx hxy) hsorted
    (descending_pairwise a) (hperm.trans (descending_perm a).symm)

theorem eq_ascending (hperm : b.Perm a) (hsorted : b.Pairwise (· ≤ ·)) :
    b = (descending a).reverse := by
  have hrev : b.reverse = descending a :=
    eq_descending (b.reverse_perm.trans hperm) (List.pairwise_reverse.mpr hsorted)
  rw [← hrev, List.reverse_reverse]

end Descending

/-! ## 2. The sorts that sort -/

section Sorts

variable {a : List Int} {fuel : Nat}

theorem lcInsertSort_eq (hfuel : a.length ≤ fuel) :
    lcInsertSort fuel a a.length = .ok (descending a, printed (descending a)) := by
  obtain ⟨b, hrun, hb⟩ := insertions_returns hfuel
  have hprint : printArray b a.length = .ok (printed b) :=
    printArray_eq (by rw [hb.perm.length_eq])
  simp only [lcInsertSort, hrun, hprint, bind, Except.bind]
  rw [← eq_descending hb.perm hb.descending]
  rfl

theorem lcShellSort_eq (hfuel : a.length < fuel) :
    lcShellSort fuel a a.length = .ok (descending a, printed (descending a)) := by
  obtain ⟨⟨b, out⟩, hrun, hperm, hsorted, hout⟩ := lcShellSort_returns hfuel
  simp only at hperm hsorted hout
  rw [hrun, hout, eq_descending hperm hsorted]

theorem lcSelectionSort_descending (hmax : (a.length : Int) ≤ INT_MAX) :
    lcSelectionSort a (a.length * SIZEOF_INT) = .ok (descending a, printed (descending a)) := by
  obtain ⟨b, hpasses, hperm, hsorted⟩ := selectionPasses_returns a
  rw [lcSelectionSort_eq hmax hpasses hperm.length_eq, eq_descending hperm hsorted]

theorem lcQuickSort_ascending (ha : a ≠ []) (hfuel : 2 * a.length ≤ fuel) :
    LcQuickSort.lcQuickSort fuel a a.length =
      .ok ((descending a).reverse, printed (descending a).reverse) := by
  obtain ⟨⟨b, out⟩, hrun, hperm, hsorted, hout⟩ := LcQuickSort.lcQuickSort_returns ha hfuel
  simp only at hperm hsorted hout
  rw [hrun, hout, eq_ascending hperm hsorted]

theorem quickSort_ascending (hfuel : 2 * a.length + 1 ≤ fuel)
    (hshort : 2 * (a.length : Int) - 3 ≤ INT_MAX) :
    QuickSort.quickSort fuel a a.length = .ok (descending a).reverse := by
  by_cases ha : a = []
  · subst ha
    rw [← eq_ascending (List.Perm.refl []) List.Pairwise.nil]
    rfl
  · have hfits : QuickSort.SumsFit fuel a := QuickSort.sumsFit_of_le ha (by omega) hshort
    obtain ⟨b, hrun, hperm, hsorted⟩ := QuickSort.quickSort_returns ha (by omega) hfits
    rw [hrun, eq_ascending hperm hsorted]

end Sorts

/-- Insertion, shell and selection sort leave and print the same array for every input, and
    the quicksorts the same array the other way round; `lc_quick_sort` needs an element, and
    `quick_sort` an array whose sums of two indices are `int`s. -/
theorem sorts_agree {a : List Int} {cnt : Int} {asize : Nat} (hcnt : a.length = cnt)
    (hmax : cnt ≤ INT_MAX) (hsize : asize = a.length * SIZEOF_INT) :
    ∃ d, d.Perm a ∧ d.Pairwise (· ≥ ·) ∧ ∃ enough, ∀ fuel, enough ≤ fuel →
      lcInsertSort fuel a cnt = .ok (d, printed d) ∧
      lcShellSort fuel a cnt = .ok (d, printed d) ∧
      lcSelectionSort a asize = .ok (d, printed d) ∧
      (1 ≤ cnt → LcQuickSort.lcQuickSort fuel a cnt = .ok (d.reverse, printed d.reverse)) ∧
      (2 * cnt - 3 ≤ INT_MAX → QuickSort.quickSort fuel a cnt = .ok d.reverse) := by
  subst hcnt hsize
  refine ⟨descending a, descending_perm a, descending_pairwise a, 2 * a.length + 1, ?_⟩
  intro fuel hfuel
  refine ⟨lcInsertSort_eq (by omega), lcShellSort_eq (by omega),
    lcSelectionSort_descending hmax, ?_, ?_⟩
  · intro hpos
    have ha : a ≠ [] := by
      rintro rfl
      simp at hpos
    exact lcQuickSort_ascending ha (by omega)
  · intro hshort
    exact quickSort_ascending (by omega) hshort

/-- Five elements, two of them the same. -/
theorem sorts_agree_five : ∃ d, d.Perm [3, 1, 3, 2, 5] ∧ d.Pairwise (· ≥ ·) ∧
    ∃ enough, ∀ fuel, enough ≤ fuel →
      lcInsertSort fuel [3, 1, 3, 2, 5] 5 = .ok (d, printed d) ∧
      lcShellSort fuel [3, 1, 3, 2, 5] 5 = .ok (d, printed d) ∧
      lcSelectionSort [3, 1, 3, 2, 5] 20 = .ok (d, printed d) ∧
      ((1 : Int) ≤ 5 → LcQuickSort.lcQuickSort fuel [3, 1, 3, 2, 5] 5 =
        .ok (d.reverse, printed d.reverse)) ∧
      ((2 : Int) * 5 - 3 ≤ INT_MAX →
        QuickSort.quickSort fuel [3, 1, 3, 2, 5] 5 = .ok d.reverse) :=
  sorts_agree rfl (by decide) (by decide)

/-! ## 3. The sort that does not quite -/

section Bubble

variable {a b : List Int}

/-- With the two first elements exchanged the passes would have been enough. -/
theorem Passed.swapped_pairwise (h : Passed a (a.length - 2) b) (hlen : 2 ≤ a.length)
    (hfirst : val b 0 ≤ val b 1) : (swapped b 0 1).Pairwise (· ≥ ·) := by
  have hblen := h.rearranges.length_eq
  have h0 : InBounds b 0 := ⟨Int.le_refl 0, by omega⟩
  have h1 : InBounds b 1 := ⟨by omega, by omega⟩
  rw [List.pairwise_iff_getElem]
  intro p q hp hq hpq
  have hq' : q < b.length := by rwa [length_swapped] at hq
  rw [← val_natCast _ hp, ← val_natCast _ hq]
  by_cases hq1 : q = 1
  · subst hq1
    obtain rfl : p = 0 := by omega
    show val (swapped b 0 1) 1 ≤ val (swapped b 0 1) 0
    rw [val_swapped_left h0 h1, val_swapped_right h0 h1]
    exact hfirst
  · rw [val_swapped_of_ne h0 h1 (by omega : (q : Int) ≠ 0) (by omega), val_swapped h0 h1]
    -- what stands at `p` now stood before `q` as well
    have hplace : Equiv.swap (0 : Int) 1 p = p ∨ Equiv.swap (0 : Int) 1 p = 0 ∨
        Equiv.swap (0 : Int) 1 p = 1 := by
      rw [Equiv.swap_apply_def]
      split
      · exact .inr (.inr rfl)
      · split
        · exact .inr (.inl rfl)
        · exact .inl rfl
    rcases hplace with hsame | hzero | hone
    · rw [hsame]
      exact h.suffix p q (by omega) (by omega) (by omega) (by omega)
    · rw [hzero]
      exact h.suffix 0 q (by omega) (by omega) (by omega) (by omega)
    · rw [hone]
      exact h.suffix 1 q (by omega) (by omega) (by omega) (by omega)

/-- The passes leave the two first elements of the arrangement exchanged. -/
theorem Passed.eq_swapped (h : Passed a (a.length - 2) b) (halone : LastAlone a) :
    b = swapped (descending a) 0 1 := by
  obtain ⟨hlen, hnot⟩ := halone
  have hblen := h.rearranges.length_eq
  have h0 : InBounds b 0 := ⟨Int.le_refl 0, by omega⟩
  have h1 : InBounds b 1 := ⟨by omega, by omega⟩
  have hfirst : ¬ val b 1 ≤ val b 0 := fun hle => hnot (h.lastNotAlone hlen hle)
  have hsorted := h.swapped_pairwise hlen (by omega)
  have hperm := (swapped_perm h0 h1).trans h.rearranges.perm
  rw [← eq_descending hperm hsorted, swapped_swapped h0 h1]

theorem Passed.eq_descending (h : Passed a (a.length - 2) b) (hlen : 2 ≤ a.length)
    (hlast : LastNotAlone a) : b = descending a :=
  SortAlgo.eq_descending h.rearranges.perm
    ((h.sorted_iff hlen).mpr (h.first hlen hlast))

end Bubble

/-- `lc_bubble_sort` leaves, and prints, the descending arrangement of every input, with its
    two first elements exchanged exactly if the last element was greater than every other. -/
theorem bubble_sort_leaves {a : List Int} {size : Nat} (hmax : (a.length : Int) ≤ INT_MAX)
    (hsize : size = a.length * SIZEOF_INT) :
    ∃ b, lcBubbleSort a size = .ok (b, printed b) ∧
      (¬ LastAlone a → b = descending a) ∧
      (LastAlone a → b = swapped (descending a) 0 1 ∧ b ≠ descending a) := by
  subst hsize
  by_cases hlen : a.length ≤ 1
  · have hnone : forRange 0 (a.length - 2) (bubblePass a.length) a = .ok a :=
      forRange_of_le (by omega)
    have hsorted : a.Pairwise (· ≥ ·) := by
      rcases a with _ | ⟨x, _ | ⟨y, a⟩⟩
      · exact .nil
      · exact List.pairwise_singleton _ x
      · simp at hlen
    refine ⟨a, lcBubbleSort_eq hmax hnone rfl, fun _ => eq_descending (.refl a) hsorted, ?_⟩
    rintro ⟨hlong, -⟩
    omega
  · obtain ⟨b, hpasses, hb⟩ := bubblePasses_returns (a := a) (by omega)
    refine ⟨b, lcBubbleSort_eq hmax hpasses hb.rearranges.length_eq, ?_, ?_⟩
    · intro halone
      apply hb.eq_descending (by omega)
      by_contra hnot
      exact halone ⟨by omega, hnot⟩
    · intro halone
      refine ⟨hb.eq_swapped halone, ?_⟩
      rintro rfl
      have hsorted := (hb.sorted_iff halone.1).mp (descending_pairwise a)
      exact halone.2 (hb.lastNotAlone halone.1 hsorted)

/-- The greatest of three elements is the last. -/
theorem bubble_sort_leaves_three : ∃ b, lcBubbleSort [2, 1, 3] 12 = .ok (b, printed b) ∧
    (¬ LastAlone [2, 1, 3] → b = descending [2, 1, 3]) ∧
    (LastAlone [2, 1, 3] → b = swapped (descending [2, 1, 3]) 0 1 ∧
      b ≠ descending [2, 1, 3]) :=
  @bubble_sort_leaves [2, 1, 3] 12 (by decide) (by decide)

end SocketPractice.SortAlgo
