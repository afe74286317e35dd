import SocketPractice.SortAlgo.QuickSort

/-!
# The stack of ranges (`quick_sort.c`)

Between two rounds the ranges on the stack are all that is left to do: the rest of the run
works inside them, so an element outside of them is where it will be in the end.  A range
is put on the stack only if it has two elements or more, and the ranges are apart from
each other, so there is never more than one for every two elements.  The array of `cnt`
entries that `lc_quick_sort` takes for them is twice as long as it has to be.
-/

namespace SocketPractice.SortAlgo.LcQuickSort

open Lib.While Lib.CArray Lib.RangeSort

/-! ## 1. The states of the main loop -/

section States

variable {fuel : Nat} {a₀ : List Int} {s t : SortState}

/-- The array is sorted up to the ranges on the stack, which have at least two elements. -/
structure StackInv (a₀ : List Int) (s : SortState) : Prop where
  inv : SortInv a₀ s
  two : ∀ q ∈ s.range, q.start < q.stop

theorem StackInv.start {a : List Int} (hlen : 2 ≤ a.length) :
    StackInv a ⟨a, [newRangerT 0 (a.length - 1)]⟩ := by
  have ha : a ≠ [] := by
    rintro rfl
    simp at hlen
  constructor
  · exact ⟨.refl a, partlySorted_whole ha⟩
  · intro q hq
    obtain rfl := List.mem_singleton.mp hq
    show (0 : Int) < a.length - 1
    omega

/-- A round keeps this, and works inside the ranges on the stack. -/
theorem StackInv.round (h : StackInv a₀ s) (hcond : sortTest s = .ok true)
    (hfuel : 2 * a₀.length ≤ fuel) : Returns (sortRound fuel a₀.length s) fun t =>
      StackInv a₀ t ∧ Narrows s.range s.a t.range t.a := by
  obtain ⟨curR, rest, hrange⟩ : ∃ curR rest, s.range = curR :: rest := by
    apply List.exists_cons_of_ne_nil
    simpa [sortTest] using hcond
  apply (sortRound_returns h.inv hrange hfuel).mono
  intro t ht
  refine ⟨⟨ht.inv, ?_⟩, ht.narrows⟩
  intro q hq
  rcases ht.longer q hq with hold | hlt
  · exact h.two q hold
  · exact hlt

/-- From wherever a run stands, what is done later is done inside the ranges of now. -/
theorem StackInv.reaches (h : StackInv a₀ s) (hfuel : 2 * a₀.length ≤ fuel)
    (hreach : Reaches sortTest (sortRound fuel a₀.length) s t) :
    StackInv a₀ t ∧ Narrows s.range s.a t.range t.a := by
  refine hreach.holds (I := fun t => StackInv a₀ t ∧ Narrows s.range s.a t.range t.a)
    ⟨h, .refl _ _⟩ ?_
  rintro t ⟨ht, hst⟩ hcond
  apply (ht.round hcond hfuel).mono
  rintro u ⟨hu, htu⟩
  exact ⟨hu, hst.trans htu⟩

/-- So what is outside of these is final. -/
theorem StackInv.settled {r : SortState} {left : Nat} (h : StackInv a₀ s)
    (hfuel : 2 * a₀.length ≤ fuel)
    (hrun : whileLoop sortTest (sortRound fuel a₀.length) left s = .ok r) :
    Settled r.a s.range s.a :=
  (h.reaches hfuel (reaches_of_whileLoop hrun).1).2.settled

theorem StackInv.inside (h : StackInv a₀ s) :
    ∀ q ∈ s.range, 0 ≤ q.start ∧ q.stop ≤ (a₀.length : Int) - 1 := by
  intro q hq
  obtain ⟨hstart, -, hstop⟩ := h.inv.partly.inside q hq
  rw [h.inv.perm.length_eq] at hstop
  exact ⟨hstart, by omega⟩

theorem StackInv.depth (h : StackInv a₀ s) : (s.range.length : Int) ≤ (a₀.length : Int) / 2 := by
  have hhalf := h.inv.partly.two_mul_length_le h.two
  rw [h.inv.perm.length_eq] at hhalf
  omega

/-- The scans of a range move nothing outside of it. -/
theorem scan_keeps {a : List Int} {curR : Range} {t : Scan} (hstart : 0 ≤ curR.start)
    (hlt : curR.start < curR.stop) (hstop : curR.stop < a.length) (hfuel : 2 * a.length ≤ fuel)
    (hreach : Reaches (fun s => .ok (s.left < s.right)) (scanRound fuel curR.start)
      ⟨a, curR.start + 1, curR.stop⟩ t) : Scanned a curR.start curR.stop t := by
  apply hreach.holds (scanned_start hlt)
  intro u hu hcond
  have hcross : u.left < u.right := by simpa using hcond
  have hgt := hu.left_gt
  have hle := hu.right_le
  apply (scanRound_returns hstart hstop hu hcross (by omega)).mono
  intro v hv
  exact hv.1

end States

/-! ## 2. Every iteration -/

/-- The main loop of a run that ends with `b` tests its condition in `s`.  While it then works
    on the range that it takes from the stack, that range may not be settled yet. -/
structure AtIteration (fuel : Nat) (cnt : Int) (b : List Int) (s : SortState) : Prop where
  apart : s.range.Pairwise Apart
  inside : ∀ q ∈ s.range, 0 ≤ q.start ∧ q.stop ≤ cnt - 1
  two : ∀ q ∈ s.range, q.start < q.stop
  settled : Settled b s.range s.a
  working : ∀ curR rest, s.range = curR :: rest → ∀ t,
    Reaches (fun s => .ok (s.left < s.right)) (scanRound fuel curR.start)
      ⟨s.a, curR.start + 1, curR.stop⟩ t → Settled b (curR :: rest) t.a
  depth : (s.range.length : Int) ≤ cnt / 2

theorem StackInv.atIteration {fuel left : Nat} {a₀ : List Int} {s r : SortState}
    (h : StackInv a₀ s) (hfuel : 2 * a₀.length ≤ fuel)
    (hrun : whileLoop sortTest (sortRound fuel a₀.length) left s = .ok r) :
    AtIteration fuel a₀.length r.a s := by
  have hsettled := h.settled hfuel hrun
  refine ⟨h.inv.partly.apart, h.inside, h.two, hsettled, ?_, h.depth⟩
  intro curR rest hrange t hreach
  have hmem : curR ∈ s.range := by simp [hrange]
  obtain ⟨hstart, -, hstop⟩ := h.inv.partly.inside curR hmem
  have hlen := h.inv.perm.length_eq
  have hscanned := scan_keeps hstart (h.two curR hmem) hstop (by omega) hreach
  rw [hrange] at hsettled
  intro p hp
  rw [← hsettled p hp]
  have hout := hp curR List.mem_cons_self
  exact hscanned.rearranges.outside (by omega)

/-- In a run of `lc_quick_sort` on at least two elements, wherever the main loop tests its
    condition: the ranges on the stack are apart from each other, lie in the array and have at
    least two elements each; what is outside of them has its final value, also while one of
    them is being worked on; and there are at most `cnt / 2` of them. -/
theorem lc_quick_sort_stack {a : List Int} {cnt : Int} (hcnt : a.length = cnt) (hpos : 2 ≤ cnt) :
    ∃ enough, ∀ fuel, enough ≤ fuel → ∃ b out, lcQuickSort fuel a cnt = .ok (b, out) ∧
      ∀ s, Reaches sortTest (sortRound fuel cnt) ⟨a, [newRangerT 0 (cnt - 1)]⟩ s →
        AtIteration fuel cnt b s := by
  subst hcnt
  refine ⟨2 * a.length, ?_⟩
  intro fuel hfuel
  have hlen : 2 ≤ a.length := by omega
  obtain ⟨r, hrun, hr⟩ := lcQuickSort_loop (a := a) (by omega) hfuel
  refine ⟨r.a, printed r.a, lcQuickSort_eq (by omega) hrun hr.1.length_eq, ?_⟩
  intro s hreach
  obtain ⟨hs, -⟩ := (StackInv.start hlen).reaches hfuel hreach
  obtain ⟨left, hleft⟩ := hreach.whileLoop_eq hrun
  exact hs.atIteration hfuel hleft

/-- Four elements, and up to two ranges. -/
theorem lc_quick_sort_stack_four : ∃ enough, ∀ fuel, enough ≤ fuel →
    ∃ b out, lcQuickSort fuel [2, 4, 1, 3] 4 = .ok (b, out) ∧
      ∀ s, Reaches sortTest (sortRound fuel 4) ⟨[2, 4, 1, 3], [newRangerT 0 3]⟩ s →
        AtIteration fuel 4 b s :=
  lc_quick_sort_stack rfl (by decide)

end SocketPractice.SortAlgo.LcQuickSort
