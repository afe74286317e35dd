import SocketPractice.SortAlgo.MiddlePivot
import SocketPractice.SortAlgo.QuickSort

/-!
# The two quicksorts against each other

Both leave the one ascending arrangement of the elements, so they agree where both
return.  With no elements `quick_sort` returns at once; `lc_quick_sort` has no such test,
and writes its first range into a stack without entries.  On arrays of more than `2^30 + 1`
elements the sum of two indices in `quick_sort` may be too large for an `int`.  The index
that comes of it is negative.
-/

namespace SocketPractice.SortAlgo

open Lib.While Lib.CArray Lib.CInt Lib.RangeSort LcQuickSort QuickSort

/-- With enough fuel both return, and the same array. -/
def QuickSortsAgree (a : List Int) (n : Int) : Prop :=
  ∃ enough, ∀ fuel, enough ≤ fuel → ∃ b out,
    lcQuickSort fuel a n = .ok (b, out) ∧ quickSort fuel a n = .ok b

/-- In every round of `quick_sort` that scans a range the sum of its ends is an `int`. -/
def SumsAreInts (a : List Int) : Prop := ∃ enough, ∀ fuel, enough ≤ fuel → SumsFit fuel a

/-! ## 1. Where one of them faults -/

/-- There is no entry for the first range. -/
theorem lcQuickSort_of_le {n : Int} (hn : n ≤ 0) (fuel : Nat) (a : List Int) :
    lcQuickSort fuel a n = .error .fault := by
  have hcap : ¬ 0 < n.toNat := by omega
  simp only [lcQuickSort, push, List.length_nil, if_neg hcap]
  rfl

/-- A sum that is no `int` makes the middle a negative index. -/
theorem middle_neg {range : Range} (hle : range.start ≤ range.stop) (hstop : range.stop ≤ INT_MAX)
    (hsum : INT_MAX < range.start + range.stop) : middle range < 0 := by
  have hneg := addInt_le (hle.trans hstop) hstop hsum
  rw [middle]
  have hquot := Int.mul_tdiv_add_tmod (addInt range.start range.stop) 2
  have hrem : -2 < (addInt range.start range.stop).tmod 2 := Int.lt_tmod_of_pos _ (by decide)
  omega

theorem sortRound_fault {fuel : Nat} {len : Int} {s : QuickSort.SortState} {range : Range}
    {rest : List Range} (hr : s.r = range :: rest) (hlt : range.start < range.stop)
    (hstop : range.stop ≤ INT_MAX) (hsum : INT_MAX < range.start + range.stop) :
    QuickSort.sortRound fuel len s = .error .fault := by
  have hneg := middle_neg hlt.le hstop hsum
  have hnot : ¬ 0 ≤ middle range := by omega
  simp only [QuickSort.sortRound, hr, if_neg (Int.not_le.mpr hlt), load, if_neg hnot]
  rfl

/-! ## 2. Agreement -/

section Agree

variable {a : List Int} {fuel : Nat}

/-- Two ascending arrangements of the same elements are one. -/
theorem eq_of_ascending {b c : List Int} (hb : b.Perm a) (hbs : b.Pairwise (· ≤ ·))
    (hc : c.Perm a) (hcs : c.Pairwise (· ≤ ·)) : b = c :=
  List.Perm.eq_of_pairwise (fun _ _ _ _ => Int.le_antisymm) hbs hcs (hb.trans hc.symm)

/-- A run of `quick_sort` that returns is one of its loop. -/
theorem loop_of_ok {b : List Int} (ha : a ≠ []) (hrun : quickSort fuel a a.length = .ok b) :
    ∃ r, whileLoop QuickSort.sortTest (QuickSort.sortRound fuel a.length) fuel (start a) =
      .ok r := by
  have hpos : 0 < a.length := List.length_pos_iff.mpr ha
  have hguard : ¬ (a.length : Int) ≤ 0 := by omega
  unfold quickSort at hrun
  rw [if_neg hguard, push_start ha] at hrun
  cases hloop : whileLoop QuickSort.sortTest (QuickSort.sortRound fuel a.length) fuel (start a)
  · have hstop : (whileLoop QuickSort.sortTest (QuickSort.sortRound fuel a.length) fuel
        (start a) >>= fun s => pure s.arr) = .ok b := hrun
    rw [hloop] at hstop
    cases hstop
  · exact ⟨_, rfl⟩

/-- It has not met a sum that is no `int`: what it passes through it leaves without a
    fault. -/
theorem sumsFit_of_ok (ha : a ≠ []) (hmax : (a.length : Int) ≤ INT_MAX)
    (hfuel : a.length < fuel) {b : List Int} (hrun : quickSort fuel a a.length = .ok b) :
    SumsFit fuel a := by
  obtain ⟨r, hloop⟩ := loop_of_ok ha hrun
  apply sumsFit_of_sortInv ha hfuel
  intro s range rest hreach hinv hr hlt
  by_contra hsum
  have hin := hinv.partly.inside range (by simp [hr])
  rw [hinv.perm.length_eq] at hin
  have hfault : QuickSort.sortRound fuel a.length s = .error .fault :=
    sortRound_fault hr hlt (by omega) (Int.not_le.mp hsum)
  obtain ⟨left, hleft⟩ := hreach.whileLoop_eq hloop
  rcases left with _ | left
  · cases hleft
  · have htest : QuickSort.sortTest s = .ok true := by simp [QuickSort.sortTest, hr]
    simp only [whileLoop, htest, hfault] at hleft
    cases hleft

theorem agree_of_sumsAreInts (ha : a ≠ []) (hsums : SumsAreInts a) :
    QuickSortsAgree a a.length := by
  obtain ⟨enough, hfits⟩ := hsums
  refine ⟨max enough (2 * a.length), ?_⟩
  intro fuel hfuel
  obtain ⟨⟨b, out⟩, hlc, hlcperm, hlcsorted, -⟩ :=
    lcQuickSort_returns ha (by omega : 2 * a.length ≤ fuel)
  obtain ⟨c, hq, hqperm, hqsorted⟩ := quickSort_returns ha (by omega) (hfits fuel (by omega))
  refine ⟨b, out, hlc, ?_⟩
  rw [hq, eq_of_ascending hqperm hqsorted hlcperm hlcsorted]

theorem sumsAreInts_of_agree (ha : a ≠ []) (hmax : (a.length : Int) ≤ INT_MAX)
    (hagree : QuickSortsAgree a a.length) : SumsAreInts a := by
  obtain ⟨enough, hrun⟩ := hagree
  refine ⟨max enough (a.length + 1), ?_⟩
  intro fuel hfuel
  obtain ⟨b, out, -, hq⟩ := hrun fuel (by omega)
  exact sumsFit_of_ok ha hmax (by omega) hq

end Agree

/-- The two agree exactly if there is an element and no sum of two indices is too large for
    an `int`; on arrays of at most `2^30 + 1` elements, exactly if there is an element. -/
theorem quick_sorts_agree_iff {a : List Int} {n : Int} (hlen : a.length = max n 0)
    (hmax : n ≤ INT_MAX) :
    (QuickSortsAgree a n ↔ 1 ≤ n ∧ SumsAreInts a) ∧
      (2 * n - 3 ≤ INT_MAX → (QuickSortsAgree a n ↔ 1 ≤ n)) := by
  by_cases hpos : n ≤ 0
  · have hnot : ¬ QuickSortsAgree a n := by
      rintro ⟨enough, hrun⟩
      obtain ⟨b, out, hlc, -⟩ := hrun enough (Nat.le_refl _)
      rw [lcQuickSort_of_le hpos] at hlc
      cases hlc
    exact ⟨iff_of_false hnot fun h => by omega, fun _ => iff_of_false hnot (by omega)⟩
  · obtain rfl : n = a.length := by omega
    have ha : a ≠ [] := by
      rintro rfl
      simp at hpos
    have hiff : QuickSortsAgree a a.length ↔ SumsAreInts a :=
      ⟨sumsAreInts_of_agree ha hmax, agree_of_sumsAreInts ha⟩
    refine ⟨hiff.trans (iff_and_self.mpr fun _ => by omega), ?_⟩
    intro hshort
    refine iff_of_true (hiff.mpr ⟨a.length + 1, ?_⟩) (by omega)
    intro fuel hfuel
    exact sumsFit_of_le ha hfuel hshort

/-- Three elements. -/
theorem quick_sorts_agree_three : QuickSortsAgree [3, 1, 2] 3 :=
  ((quick_sorts_agree_iff (by decide) (by decide)).2 (by decide)).mpr (by decide)

/-- No elements: the guard of `quick_sort` is missing from `lc_quick_sort`. -/
theorem quick_sorts_disagree_empty : ¬ QuickSortsAgree [] 0 := by
  rintro ⟨enough, hrun⟩
  obtain ⟨b, out, hlc, -⟩ := hrun enough (Nat.le_refl _)
  cases hlc

end SocketPractice.SortAlgo
