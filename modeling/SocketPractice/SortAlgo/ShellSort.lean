import SocketPractice.Lib.Stride
import SocketPractice.SortAlgo.PrintArray

/-!
# Shell sort (`shell_sort.c`)

A pass inserts every element into those before it at the distance of the gap.  While an
element is held in `tmp`, its place is a hole that wanders down; the array that counts is
the one with `tmp` in the hole, and moving the hole is an exchange in it.  The last gap
is 1, and a pass for 1 alone sorts.
-/

namespace SocketPractice.SortAlgo

open Lib.While Lib.CArray Lib.Stride

/-! ## 1. The code -/

/-- The array and the place of the hole. -/
structure Shift where
  a : List Int
  j : Int
deriving DecidableEq, Repr

/-- `j >= gap && tmp > a[j - gap]`. -/
def shiftTest (gap tmp : Int) (s : Shift) : Outcome Bool := do
  if s.j ≥ gap then
    return tmp > (← load s.a (s.j - gap))
  else
    return false

/-- `a[j] = a[j - gap]`, and `j -= gap`. -/
def shiftRound (gap : Int) (s : Shift) : Outcome Shift := do
  return { a := ← store s.a s.j (← load s.a (s.j - gap)), j := s.j - gap }

/-- The insertion of `a[i]`. -/
def shellInsert (fuel : Nat) (gap i : Int) (a : List Int) : Outcome (List Int) := do
  let tmp ← load a i
  let s ← whileLoop (shiftTest gap tmp) (shiftRound gap) fuel { a, j := i }
  store s.a s.j tmp

/-- `for (i = 0; i < cnt; i++)`. -/
def shellPass (fuel : Nat) (cnt gap : Int) (a : List Int) : Outcome (List Int) :=
  forRange 0 cnt (shellInsert fuel gap) a

structure ShellState where
  a : List Int
  gap : Int
deriving DecidableEq, Repr

def shellTest (s : ShellState) : Outcome Bool := .ok (s.gap > 0)

def shellRound (fuel : Nat) (cnt : Int) (s : ShellState) : Outcome ShellState := do
  return { a := ← shellPass fuel cnt s.gap s.a, gap := s.gap >>> (1 : Nat) }

/-- The array on return, and what has been printed. -/
def lcShellSort (fuel : Nat) (a : List Int) (cnt : Int) : Outcome (List Int × List Char) := do
  let s ← whileLoop shellTest (shellRound fuel cnt) fuel { a, gap := cnt >>> (1 : Nat) }
  return (s.a, ← printArray s.a cnt)

/-! ## 2. An insertion -/

section Insert

variable {fuel : Nat} {a : List Int} {gap i tmp : Int}

/-- With `tmp` in the hole at `j`, only the element in the hole may be too large for the one
    before it, and the elements on both sides of the hole are in order. -/
structure Shifting (a : List Int) (gap i tmp : Int) (s : Shift) : Prop where
  rearranges : Rearranges (strided a.length gap) a (put s.a s.j tmp)
  j_nonneg : 0 ≤ s.j
  j_le : s.j ≤ i
  ordered : ∀ p, gap ≤ p → p ≤ i → p ≠ s.j →
    val (put s.a s.j tmp) p ≤ val (put s.a s.j tmp) (p - gap)
  around : s.j + gap ≤ i → gap ≤ s.j →
    val (put s.a s.j tmp) (s.j + gap) ≤ val (put s.a s.j tmp) (s.j - gap)

theorem Shifting.length_eq {s : Shift} (h : Shifting a gap i tmp s) : s.a.length = a.length := by
  rw [← h.rearranges.length_eq, length_put]

/-- Moving the hole exchanges two elements of one class. -/
theorem put_shift {s : Shift} (tmp : Int) (hgap : 0 < gap) (hj : InBounds s.a s.j) :
    put (put s.a s.j (val s.a (s.j - gap))) (s.j - gap) tmp =
      swapped (put s.a s.j tmp) s.j (s.j - gap) := by
  have hval : val (put s.a s.j tmp) (s.j - gap) = val s.a (s.j - gap) :=
    val_put_ne hj.1 (by omega)
  have htmp : val (put s.a s.j tmp) s.j = tmp := val_put_self hj
  rw [swapped, hval, htmp]
  simp only [put, List.set_set]

theorem Shifting.move {s : Shift} (hgap : 0 < gap) (hi : i < a.length)
    (h : Shifting a gap i tmp s) (hprev : gap ≤ s.j) (hless : val s.a (s.j - gap) < tmp) :
    Shifting a gap i tmp ⟨put s.a s.j (val s.a (s.j - gap)), s.j - gap⟩ := by
  obtain ⟨hab, h0, hle, hordered, haround⟩ := h
  have hlen : s.a.length = a.length := by rw [← hab.length_eq, length_put]
  have hj : InBounds s.a s.j := ⟨h0, by omega⟩
  have hshift := put_shift tmp hgap hj
  have hval : val (put s.a s.j tmp) (s.j - gap) = val s.a (s.j - gap) :=
    val_put_ne h0 (by omega)
  have htmp : val (put s.a s.j tmp) s.j = tmp := val_put_self hj
  rw [← hval] at hless
  generalize put s.a s.j tmp = v at *
  have hvlen := hab.length_eq
  have hjv : InBounds v s.j := ⟨h0, by omega⟩
  have hpv : InBounds v (s.j - gap) := ⟨by omega, by omega⟩
  have hclass : strided a.length gap s.j = strided a.length gap (s.j - gap) := by
    rw [strided_eq_iff (by omega) (by omega)]
    exact ⟨h0, by omega, by simp⟩
  have hhole : val (swapped v s.j (s.j - gap)) (s.j - gap) = tmp := by
    rw [val_swapped_right hjv hpv, htmp]
  have hmoved : val (swapped v s.j (s.j - gap)) s.j = val v (s.j - gap) :=
    val_swapped_left hjv hpv
  have hother : ∀ p, p ≠ s.j → p ≠ s.j - gap → val (swapped v s.j (s.j - gap)) p = val v p :=
    fun p => val_swapped_of_ne hjv hpv
  have hnext : 0 ≤ s.j - gap := by omega
  have hnexti : s.j - gap ≤ i := by omega
  refine ⟨?_, hnext, hnexti, ?_, ?_⟩
  · rw [hshift]
    exact hab.trans (.swapped hjv hpv hclass)
  · intro p hp hpi hne
    rw [hshift]
    by_cases hpj : p = s.j
    · rw [hpj, hmoved, hhole]
      exact hless.le
    · by_cases hpnext : p = s.j + gap
      · subst hpnext
        rw [hother _ hpj (by omega), Int.add_sub_cancel, hmoved]
        exact haround hpi hprev
      · rw [hother p hpj hne, hother (p - gap) (by omega) (by omega)]
        exact hordered p hp hpi hpj
  · intro _ hprev'
    rw [hshift, Int.sub_add_cancel, hmoved, hother (s.j - gap - gap) (by omega) (by omega)]
    exact hordered (s.j - gap) hprev' (by omega) (by omega)

theorem shift_returns (hgap : 0 < gap) (h0 : 0 ≤ i) (hi : i < a.length)
    (hsorted : ∀ p, gap ≤ p → p < i → val a p ≤ val a (p - gap)) (hfuel : a.length ≤ fuel) :
    Returns (whileLoop (shiftTest gap (val a i)) (shiftRound gap) fuel ⟨a, i⟩) fun s =>
      Shifting a gap i (val a i) s ∧
        (gap ≤ s.j → val a i ≤ val (put s.a s.j (val a i)) (s.j - gap)) := by
  have hself : put a i (val a i) = a := by
    obtain ⟨n, rfl⟩ := Int.eq_ofNat_of_zero_le h0
    have hn : n < a.length := Int.ofNat_lt.mp hi
    rw [val_natCast a hn, put, Int.toNat_natCast, List.set_getElem_self]
  refine whileLoop_returns (Shifting a gap i (val a i)) (fun s => s.j.toNat) ?_ (by simp; omega) ?_
  · refine ⟨?_, h0, Int.le_refl i, ?_, ?_⟩
    · rw [hself]
      exact .refl _ a
    · intro p hp hpi hne
      rw [hself]
      exact hsorted p hp (by simp at hne; omega)
    · intro hnext
      simp at hnext
      omega
  · intro s hs
    have hlen := hs.length_eq
    have hj := hs.j_nonneg
    have hji := hs.j_le
    by_cases hprev : gap ≤ s.j
    · have hin : InBounds s.a (s.j - gap) := ⟨by omega, by omega⟩
      have hinj : InBounds s.a s.j := ⟨hj, by omega⟩
      have hval : val (put s.a s.j (val a i)) (s.j - gap) = val s.a (s.j - gap) :=
        val_put_ne hj (by omega)
      simp only [shiftTest, shiftRound, if_pos hprev, load_eq hin, store_eq hinj, bind,
        Except.bind, pure, Except.pure, Except.ok.injEq, decide_eq_true_eq,
        decide_eq_false_iff_not]
      by_cases hless : val s.a (s.j - gap) < val a i
      · refine .inr ⟨hless, returns_ok ⟨hs.move hgap hi hprev hless, ?_⟩⟩
        show (s.j - gap).toNat < s.j.toNat
        omega
      · refine .inl ⟨hless, hs, fun _ => ?_⟩
        rw [hval]
        exact Int.not_lt.mp hless
    · refine .inl ⟨?_, hs, fun hle => absurd hle hprev⟩
      simp only [shiftTest, if_neg hprev]
      rfl

/-- The elements up to `i` are in order at the distance of the gap. -/
theorem shellInsert_returns (hgap : 0 < gap) (h0 : 0 ≤ i) (hi : i < a.length)
    (hsorted : ∀ p, gap ≤ p → p < i → val a p ≤ val a (p - gap)) (hfuel : a.length ≤ fuel) :
    Returns (shellInsert fuel gap i a) fun b => Rearranges (strided a.length gap) a b ∧
      ∀ p, gap ≤ p → p < i + 1 → val b p ≤ val b (p - gap) := by
  obtain ⟨s, hrun, hs, hstop⟩ := shift_returns hgap h0 hi hsorted hfuel
  have hlen := hs.length_eq
  have hle := hs.j_le
  have hj : InBounds s.a s.j := ⟨hs.j_nonneg, by omega⟩
  simp only [shellInsert, load_eq ⟨h0, hi⟩, bind, Except.bind, hrun, store_eq hj]
  refine returns_ok ⟨hs.rearranges, ?_⟩
  intro p hp hpi
  by_cases hpj : p = s.j
  · subst hpj
    rw [val_put_self hj]
    exact hstop hp
  · exact hs.ordered p hp (by omega) hpj

end Insert

/-! ## 3. Passes -/

section Passes

variable {fuel : Nat} {a : List Int} {gap : Int}

/-- A pass puts the array in order at its gap, and moves no element out of its class. -/
theorem shellPass_returns (hgap : 0 < gap) (hfuel : a.length ≤ fuel) :
    Returns (shellPass fuel a.length gap a) fun b =>
      Rearranges (strided a.length gap) a b ∧ DescendingAt gap b := by
  have hloop : Returns (forRange 0 a.length (shellInsert fuel gap) a) fun b =>
      Rearranges (strided a.length gap) a b ∧
        ∀ p, gap ≤ p → p < a.length → val b p ≤ val b (p - gap) := by
    refine forRange_returns (fun i b => Rearranges (strided a.length gap) a b ∧
      ∀ p, gap ≤ p → p < i → val b p ≤ val b (p - gap)) (Int.natCast_nonneg _)
      ⟨.refl _ a, fun p hp hlt => by omega⟩ ?_
    rintro i b h0 hi ⟨hab, hsorted⟩
    have hlen := hab.length_eq
    apply (shellInsert_returns hgap h0 (by omega) hsorted (by omega)).mono
    rintro c ⟨hbc, hnext⟩
    rw [hlen] at hbc
    exact ⟨hab.trans hbc, hnext⟩
  apply hloop.mono
  rintro b ⟨hab, hsorted⟩
  refine ⟨hab, ?_⟩
  intro p hp hlt
  rw [hab.length_eq] at hlt
  exact hsorted p hp hlt

theorem half_lt (hgap : 0 < gap) : 0 ≤ gap >>> (1 : Nat) ∧ gap >>> (1 : Nat) < gap := by
  rw [Int.shiftRight_eq_div_pow]
  omega

/-- A gap that is halved to nothing was 1. -/
theorem eq_one_of_half (hgap : 0 < gap) (hhalf : gap >>> (1 : Nat) = 0) : gap = 1 := by
  rw [Int.shiftRight_eq_div_pow] at hhalf
  omega

/-- Before the last pass there is a gap left, and after it the array is in order. -/
structure ShellInv (a₀ : List Int) (s : ShellState) : Prop where
  perm : s.a.Perm a₀
  gap_nonneg : 0 ≤ s.gap
  gap_le : s.gap ≤ a₀.length
  last : s.gap = 0 → s.a.Pairwise (· ≥ ·)

theorem shellRound_returns {a₀ : List Int} {s : ShellState} (hs : ShellInv a₀ s)
    (hgap : 0 < s.gap) (hfuel : a₀.length ≤ fuel) :
    Returns (shellRound fuel a₀.length s) fun t => ShellInv a₀ t ∧
      t.gap.toNat < s.gap.toNat := by
  have hlen := hs.perm.length_eq
  have hle := hs.gap_le
  have hhalf := half_lt hgap
  rw [← hlen] at hfuel
  obtain ⟨b, hrun, hab, hsorted⟩ := shellPass_returns hgap hfuel
  rw [hlen] at hrun
  simp only [shellRound, hrun, bind, Except.bind]
  refine returns_ok ⟨⟨hab.perm.trans hs.perm, hhalf.1, ?_, ?_⟩, ?_⟩
  · show s.gap >>> (1 : Nat) ≤ _
    omega
  · intro hzero
    have hone := eq_one_of_half hgap hzero
    rw [hone] at hsorted
    exact hsorted.pairwise
  · show (s.gap >>> (1 : Nat)).toNat < _
    omega

theorem lcShellSort_returns (hfuel : a.length < fuel) :
    Returns (lcShellSort fuel a a.length) fun r => r.1.Perm a ∧ r.1.Pairwise (· ≥ ·) ∧
      r.2 = printed r.1 := by
  have hgap : (a.length : Int) >>> (1 : Nat) = a.length / 2 := by
    rw [Int.shiftRight_eq_div_pow]
    rfl
  have hloop : Returns (whileLoop shellTest (shellRound fuel a.length) fuel
      ⟨a, (a.length : Int) >>> (1 : Nat)⟩) fun s => s.a.Perm a ∧ s.a.Pairwise (· ≥ ·) := by
    refine whileLoop_returns (ShellInv a) (fun s => s.gap.toNat) ⟨.refl a, ?_, ?_, ?_⟩ ?_ ?_
    · show 0 ≤ (a.length : Int) >>> (1 : Nat)
      omega
    · show (a.length : Int) >>> (1 : Nat) ≤ _
      omega
    · intro hzero
      have hshort : a.length ≤ 1 := by
        simp only [hgap] at hzero
        omega
      rcases a with _ | ⟨x, _ | ⟨y, a⟩⟩
      · exact .nil
      · exact List.pairwise_singleton _ x
      · simp at hshort
    · show ((a.length : Int) >>> (1 : Nat)).toNat < _
      omega
    · intro s hs
      by_cases hpos : 0 < s.gap
      · exact .inr ⟨by simp [shellTest, hpos], shellRound_returns hs hpos (by omega)⟩
      · have hnonneg := hs.gap_nonneg
        exact .inl ⟨by simp [shellTest, hpos], hs.perm, hs.last (by omega)⟩
  obtain ⟨s, hrun, hperm, hsorted⟩ := hloop
  have hprint : printArray s.a a.length = .ok (printed s.a) :=
    printArray_eq (by rw [hperm.length_eq])
  simp only [lcShellSort, hrun, bind, Except.bind, hprint]
  exact returns_ok ⟨hperm, hsorted, rfl⟩

end Passes

/-- `lc_shell_sort` returns for every array, without an access outside it, and leaves the
    array in descending order. -/
theorem lc_shell_sort_sorts {a : List Int} {cnt : Int} (hcnt : a.length = cnt) :
    ∃ enough, ∀ fuel, enough ≤ fuel →
      Returns (lcShellSort fuel a cnt) fun r => r.1.Perm a ∧ r.1.Pairwise (· ≥ ·) := by
  subst hcnt
  refine ⟨a.length + 1, ?_⟩
  intro fuel hfuel
  exact (lcShellSort_returns hfuel).mono fun r hr => ⟨hr.1, hr.2.1⟩

theorem lc_shell_sort_sorts_five : ∃ enough, ∀ fuel, enough ≤ fuel →
    Returns (lcShellSort fuel [3, 1, 3, 2, 5] 5) fun r =>
      r.1.Perm [3, 1, 3, 2, 5] ∧ r.1.Pairwise (· ≥ ·) :=
  lc_shell_sort_sorts rfl

/-! ## 4. What the earlier passes have done -/

/-- The state after `m` passes: the array is in order at all gaps used so far. -/
structure PassesDone (cnt : Int) (m : Nat) (s : ShellState) : Prop where
  length_eq : s.a.length = cnt
  gap_eq : s.gap = cnt >>> (m + 1)
  descending : ∀ k : Nat, 1 ≤ k → k ≤ m → DescendingAt (cnt >>> k) s.a

section PassesDone

variable {fuel m : Nat} {cnt : Int} {s : ShellState}

/-- The next pass is for the gap that comes next, and keeps what the others have done. -/
theorem PassesDone.next (h : PassesDone cnt m s) (hgap : 0 < s.gap)
    (hfuel : s.a.length ≤ fuel) : Returns (shellRound fuel cnt s) (PassesDone cnt (m + 1)) := by
  obtain ⟨hlen, hnow, hdone⟩ := h
  obtain ⟨b, hrun, hab, hsorted⟩ := shellPass_returns hgap hfuel
  rw [hlen] at hrun
  simp only [shellRound, hrun, bind, Except.bind]
  refine returns_ok ⟨?_, ?_, ?_⟩
  · rw [hab.length_eq, hlen]
  · show s.gap >>> (1 : Nat) = _
    rw [hnow, ← Int.shiftRight_add]
  · intro k hk hkm
    by_cases hlast : k = m + 1
    · rw [hlast, ← hnow]
      exact hsorted
    · have hnonneg : 0 ≤ cnt >>> k := Int.le_shiftRight_of_nonneg (by omega)
      exact (hdone k hk (by omega)).of_rearranges hnonneg hgap hab hsorted

theorem PassesDone.zero (a : List Int) :
    PassesDone a.length 0 ⟨a, (a.length : Int) >>> (1 : Nat)⟩ :=
  ⟨rfl, rfl, fun k hk hle => by omega⟩

end PassesDone

/-- Wherever the loop over the gaps tests its condition, the passes so far have left the array
    in order at every gap they were for; and the loop comes past the pass for every gap of the
    sequence. -/
theorem shell_passes_keep_order (a : List Int) : ∃ enough, ∀ fuel, enough ≤ fuel →
    (∀ s, Reaches shellTest (shellRound fuel a.length) ⟨a, (a.length : Int) >>> (1 : Nat)⟩ s →
      ∃ m, PassesDone a.length m s) ∧
    ∀ m : Nat, 1 ≤ m → 0 < (a.length : Int) >>> m → ∃ s,
      Reaches shellTest (shellRound fuel a.length) ⟨a, (a.length : Int) >>> (1 : Nat)⟩ s ∧
        PassesDone a.length m s := by
  refine ⟨a.length, ?_⟩
  intro fuel hfuel
  have hstep : ∀ m s, PassesDone a.length m s → 0 < s.gap →
      Returns (shellRound fuel a.length s) (PassesDone a.length (m + 1)) := by
    intro m s hs hgap
    have hlen := hs.length_eq
    exact hs.next hgap (by omega)
  constructor
  · intro s hreach
    refine hreach.holds (I := fun s => ∃ m, PassesDone a.length m s) ⟨0, .zero a⟩ ?_
    rintro t ⟨m, ht⟩ hcond
    have hgap : 0 < t.gap := by simpa [shellTest] using hcond
    apply (hstep m t ht hgap).mono
    intro u hu
    exact ⟨m + 1, hu⟩
  · intro m hm hgap
    induction m with
    | zero => omega
    | succ m ih =>
        -- the state in which the pass for this gap begins
        obtain ⟨s, hreach, hs⟩ : ∃ s, Reaches shellTest (shellRound fuel a.length)
            ⟨a, (a.length : Int) >>> (1 : Nat)⟩ s ∧ PassesDone a.length m s := by
          rcases Nat.eq_zero_or_pos m with rfl | hpos
          · exact ⟨_, .start, .zero a⟩
          · apply ih hpos
            have hnonneg : 0 ≤ (a.length : Int) >>> m :=
              Int.le_shiftRight_of_nonneg (Int.natCast_nonneg _)
            rw [Int.shiftRight_add, Int.shiftRight_eq_div_pow _ 1] at hgap
            omega
        rw [← hs.gap_eq] at hgap
        obtain ⟨t, hrun, ht⟩ := hstep m s hs hgap
        exact ⟨t, hreach.round (by simp [shellTest, hgap]) hrun, ht⟩

/-- Nine elements: after the pass for the gap 2 the order at the gap 4 is still there. -/
theorem shell_passes_keep_order_nine : ∃ enough, ∀ fuel, enough ≤ fuel → ∃ s,
    Reaches shellTest (shellRound fuel 9) ⟨[4, 8, 1, 9, 7, 3, 2, 6, 5], 4⟩ s ∧
      DescendingAt 4 s.a ∧ DescendingAt 2 s.a := by
  obtain ⟨enough, h⟩ := shell_passes_keep_order [4, 8, 1, 9, 7, 3, 2, 6, 5]
  refine ⟨enough, ?_⟩
  intro fuel hfuel
  obtain ⟨s, hreach, hs⟩ := (h fuel hfuel).2 2 (by decide) (by decide)
  exact ⟨s, hreach, hs.descending 1 (by decide) (by decide),
    hs.descending 2 (by decide) (by decide)⟩

end SocketPractice.SortAlgo
