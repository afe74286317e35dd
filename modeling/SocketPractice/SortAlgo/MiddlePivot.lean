import SocketPractice.Lib.CInt
import SocketPractice.Lib.RangeSort

/-!
# Quicksort around the middle element (`test.c`)

The two scans of a range do not test where they are.  What stops them are elements that
stand on the far side: at first the middle element itself, and after an exchange the two
elements that have been exchanged.  A read outside the range counts as a fault here, so
that a result is also proof that there was none.
-/

namespace SocketPractice.SortAlgo.QuickSort

open Lib.While Lib.CArray Lib.CInt Lib.RangeSort

/-! ## 1. The code -/

def newRange (s e : Int) : Range := { start := s, stop := e }

/-- `arr[i]` in a scan of the range. -/
def loadIn (range : Range) (arr : List Int) (i : Int) : Outcome Int :=
  if range.start ≤ i ∧ i ≤ range.stop then load arr i else .error .fault

structure Scan where
  arr : List Int
  left : Int
  right : Int
deriving DecidableEq, Repr

/-- `while (arr[left] < mid) ++left;`. -/
def scanLeft (fuel : Nat) (range : Range) (mid : Int) (arr : List Int) (left : Int) :
    Outcome Int :=
  whileLoop (fun left => do return (← loadIn range arr left) < mid) (fun left => .ok (left + 1))
    fuel left

/-- `while (arr[right] > mid) --right;`. -/
def scanRight (fuel : Nat) (range : Range) (mid : Int) (arr : List Int) (right : Int) :
    Outcome Int :=
  whileLoop (fun right => do return (← loadIn range arr right) > mid)
    (fun right => .ok (right - 1)) fuel right

def scanRound (fuel : Nat) (range : Range) (mid : Int) (s : Scan) : Outcome Scan := do
  let left ← scanLeft fuel range mid s.arr s.left
  let right ← scanRight fuel range mid s.arr s.right
  if left ≤ right then
    return { arr := ← swap s.arr left right, left := left + 1, right := right - 1 }
  return { s with left, right }

def scanTest (s : Scan) : Outcome Bool := .ok (s.left ≤ s.right)

/-- `do .. while (left <= right);`. -/
def scan (fuel : Nat) (range : Range) (mid : Int) (s : Scan) : Outcome Scan :=
  doWhile scanTest (scanRound fuel range mid) fuel s

/-- The index of the middle element. -/
def middle (range : Range) : Int := (addInt range.start range.stop).tdiv 2

/-- The two `r[p++] = ..` behind the scans. -/
def pushRanges (len : Int) (range : Range) (left right : Int) (r : List Range) :
    Outcome (List Range) := do
  let r ← if range.start < right then push len.toNat (newRange range.start right) r else pure r
  if range.stop > left then push len.toNat (newRange left range.stop) r else pure r

/-- The array, and the entries of `r` below `p`, the last one first. -/
structure SortState where
  arr : List Int
  r : List Range
deriving DecidableEq, Repr

/-- One round of `while (p)`. -/
def sortRound (fuel : Nat) (len : Int) (s : SortState) : Outcome SortState :=
  match s.r with
  | [] => .error .fault
  | range :: r =>
      if range.start ≥ range.stop then
        .ok { s with r }
      else do
        let mid ← load s.arr (middle range)
        let t ← scan fuel range mid { s with left := range.start, right := range.stop }
        return { arr := t.arr, r := ← pushRanges len range t.left t.right r }

def sortTest (s : SortState) : Outcome Bool := .ok (s.r ≠ [])

def quickSort (fuel : Nat) (arr : List Int) (len : Int) : Outcome (List Int) := do
  if len ≤ 0 then
    return arr
  let r ← push len.toNat (newRange 0 (len - 1)) []
  let s ← whileLoop sortTest (sortRound fuel len) fuel { arr, r }
  return s.arr

/-! ## 2. The scans -/

section Scans

variable {fuel : Nat} {arr : List Int} {s e mid i p : Int}

theorem loadIn_eq (hs : 0 ≤ s) (he : e < arr.length) (hsp : s ≤ p) (hpe : p ≤ e) :
    loadIn ⟨s, e⟩ arr p = .ok (val arr p) := by
  rw [loadIn, if_pos ⟨hsp, hpe⟩, load_eq ⟨by omega, by omega⟩]

/-- An element that is not less than `mid` stops the scan from the left. -/
theorem scanLeft_returns (hs : 0 ≤ s) (he : e < arr.length) (hsp : s ≤ p) (hpi : p ≤ i)
    (hie : i ≤ e) (hi : mid ≤ val arr i) (hfuel : (e - s).toNat < fuel) :
    Returns (scanLeft fuel ⟨s, e⟩ mid arr p) fun l => p ≤ l ∧ l ≤ i ∧ mid ≤ val arr l ∧
      ∀ q, p ≤ q → q < l → val arr q < mid := by
  have hscan : Returns (scanLeft fuel ⟨s, e⟩ mid arr p) fun l => p ≤ l ∧ l ≤ i ∧
      ¬ val arr l < mid ∧ ∀ q, p ≤ q → q < l → val arr q < mid := by
    apply countUp_returns hpi
    · intro l hl hli
      rw [loadIn_eq hs he (by omega) (by omega)]
      rfl
    · exact Int.not_lt.mpr hi
    · omega
  apply hscan.mono
  rintro l ⟨hl, hli, hstop, hbefore⟩
  exact ⟨hl, hli, Int.not_lt.mp hstop, hbefore⟩

theorem scanRight_returns (hs : 0 ≤ s) (he : e < arr.length) (hpe : p ≤ e) (hip : i ≤ p)
    (hsi : s ≤ i) (hi : val arr i ≤ mid) (hfuel : (e - s).toNat < fuel) :
    Returns (scanRight fuel ⟨s, e⟩ mid arr p) fun r => i ≤ r ∧ r ≤ p ∧ val arr r ≤ mid ∧
      ∀ q, r < q → q ≤ p → mid < val arr q := by
  have hscan : Returns (scanRight fuel ⟨s, e⟩ mid arr p) fun r => i ≤ r ∧ r ≤ p ∧
      ¬ val arr r > mid ∧ ∀ q, r < q → q ≤ p → val arr q > mid := by
    apply countDown_returns hip
    · intro r hir hr
      rw [loadIn_eq hs he (by omega) (by omega)]
      rfl
    · exact Int.not_lt.mpr hi
    · omega
  apply hscan.mono
  rintro r ⟨hir, hr, hstop, hafter⟩
  exact ⟨hir, hr, Int.not_lt.mp hstop, hafter⟩

end Scans

/-! ## 3. A range around its middle element -/

section Partition

variable {fuel : Nat} {a : List Int} {s e mid : Int}

/-- Nothing before `left` exceeds the middle element, and nothing behind `right` is less. -/
structure Scanned (a : List Int) (s e mid : Int) (t : Scan) : Prop where
  rearranges : Rearranges (within s e) a t.arr
  start_le : s ≤ t.left
  le_stop : t.right ≤ e
  below : ∀ p, s ≤ p → p < t.left → val t.arr p ≤ mid
  above : ∀ p, t.right < p → p ≤ e → mid ≤ val t.arr p

/-- There are elements that stop both scans. -/
structure Guarded (s e mid : Int) (t : Scan) : Prop where
  high : ∃ i, t.left ≤ i ∧ i ≤ e ∧ mid ≤ val t.arr i
  low : ∃ i, s ≤ i ∧ i ≤ t.right ∧ val t.arr i ≤ mid

/-- What a round does to the two indices; where the middle element is between them, both
    move. -/
structure Advanced (mid : Int) (t u : Scan) : Prop where
  left_le : t.left ≤ u.left
  right_le : u.right ≤ t.right
  left_lt : u.left ≤ u.right → t.left < u.left
  both : ∀ m, t.left ≤ m → m ≤ t.right → val t.arr m = mid → t.left < u.left ∧ u.right < t.right

/-- The two scans of a round. -/
theorem Scanned.narrow {t : Scan} {l r : Int} (h : Scanned a s e mid t) (hl : t.left ≤ l)
    (hr : r ≤ t.right) (hless : ∀ p, t.left ≤ p → p < l → val t.arr p < mid)
    (hmore : ∀ p, r < p → p ≤ t.right → mid < val t.arr p) :
    Scanned a s e mid ⟨t.arr, l, r⟩ := by
  obtain ⟨hab, hsl, hre, hbelow, habove⟩ := h
  refine ⟨hab, Int.le_trans hsl hl, Int.le_trans hr hre, ?_, ?_⟩
  · intro p hp hpl
    by_cases hpt : p < t.left
    · exact hbelow p hp hpt
    · exact (hless p (by omega) hpl).le
  · intro p hp hpe
    by_cases hpt : t.right < p
    · exact habove p hpt hpe
    · exact (hmore p hp (by omega)).le

section Exchange

variable {b : List Int} {l r : Int} (hs : 0 ≤ s) (he : e < a.length)
  (h : Scanned a s e mid ⟨b, l, r⟩) (hlr : l ≤ r) (hl : mid ≤ val b l) (hr : val b r ≤ mid)

include hs he h hlr in
theorem Scanned.inBounds : InBounds b l ∧ InBounds b r := by
  have hlen : b.length = a.length := h.rearranges.length_eq
  have hsl : s ≤ l := h.start_le
  have hre : r ≤ e := h.le_stop
  exact ⟨⟨by omega, by omega⟩, ⟨by omega, by omega⟩⟩

include hs he h hlr hl hr

/-- The exchange behind them, and the last step of both indices. -/
theorem Scanned.swap : Scanned a s e mid ⟨swapped b l r, l + 1, r - 1⟩ := by
  obtain ⟨hinl, hinr⟩ := h.inBounds hs he hlr
  obtain ⟨hab, (hsl : s ≤ l), (hre : r ≤ e), hbelow, habove⟩ := h
  have hclass : within s e l = within s e r :=
    within_eq hsl (by omega) (by omega) hre
  have hsl' : s ≤ l + 1 := by omega
  have hre' : r - 1 ≤ e := by omega
  refine ⟨hab.trans (.swapped hinl hinr hclass), hsl', hre', ?_, ?_⟩
  · intro p hp (hpl : p < l + 1)
    by_cases hpe : p = l
    · rw [hpe, val_swapped_left hinl hinr]
      exact hr
    · rw [val_swapped_of_ne hinl hinr hpe (by omega)]
      exact hbelow p hp (by omega : p < l)
  · intro p (hpr : r - 1 < p) hpe
    by_cases hpr' : p = r
    · rw [hpr', val_swapped_right hinl hinr]
      exact hl
    · rw [val_swapped_of_ne hinl hinr (by omega) hpr']
      exact habove p (by omega : r < p) hpe

/-- The elements that have been exchanged stop the next scans. -/
theorem Scanned.guarded_swap (hgo : l + 1 ≤ r - 1) :
    Guarded s e mid ⟨swapped b l r, l + 1, r - 1⟩ := by
  obtain ⟨hinl, hinr⟩ := h.inBounds hs he hlr
  have hsl : s ≤ l := h.start_le
  have hre : r ≤ e := h.le_stop
  constructor
  · refine ⟨r, (by omega : l + 1 ≤ r), hre, ?_⟩
    rwa [val_swapped_right hinl hinr]
  · refine ⟨l, hsl, (by omega : l ≤ r - 1), ?_⟩
    rwa [val_swapped_left hinl hinr]

end Exchange

theorem scanRound_returns {t : Scan} (hs : 0 ≤ s) (he : e < a.length) (h : Scanned a s e mid t)
    (hguard : Guarded s e mid t) (hfuel : (e - s).toNat < fuel) :
    Returns (scanRound fuel ⟨s, e⟩ mid t) fun u => Scanned a s e mid u ∧
      (u.left ≤ u.right → Guarded s e mid u) ∧ Advanced mid t u := by
  obtain ⟨⟨i, hli, hie, hival⟩, ⟨j, hsj, hjr, hjval⟩⟩ := hguard
  have hlen := h.rearranges.length_eq
  obtain ⟨l, hleft, hl, hli', hlval, hless⟩ :=
    scanLeft_returns hs (by omega) h.start_le hli hie hival hfuel
  obtain ⟨r, hright, hjr', hr, hrval, hmore⟩ :=
    scanRight_returns hs (by omega) h.le_stop hjr hsj hjval hfuel
  have hnarrow : Scanned a s e mid ⟨t.arr, l, r⟩ := h.narrow hl hr hless hmore
  -- the scans do not pass an element that is equal to `mid`
  have hmid : ∀ m, t.left ≤ m → m ≤ t.right → val t.arr m = mid → l ≤ m ∧ m ≤ r := by
    intro m hlm hmr hm
    constructor
    · by_contra hpast
      have := hless m hlm (by omega)
      omega
    · by_contra hpast
      have := hmore m (by omega) hmr
      omega
  simp only [scanRound, hleft, hright, bind, Except.bind]
  by_cases hcross : l ≤ r
  · obtain ⟨hinl, hinr⟩ := hnarrow.inBounds hs he hcross
    have hadvance : t.left < l + 1 ∧ r - 1 < t.right := by omega
    rw [if_pos hcross, swap_eq hinl hinr]
    refine returns_ok ⟨hnarrow.swap hs he hcross hlval hrval,
      hnarrow.guarded_swap hs he hcross hlval hrval, ?_⟩
    exact ⟨hadvance.1.le, hadvance.2.le, fun _ => hadvance.1, fun _ _ _ _ => hadvance⟩
  · rw [if_neg hcross]
    refine returns_ok ⟨hnarrow, fun hgo => absurd hgo hcross, hl, hr,
      fun hgo => absurd hgo hcross, ?_⟩
    intro m hlm hmr hm
    have := hmid m hlm hmr hm
    omega

/-- The range around the middle element: what is up to `right` does not exceed it, and what
    is from `left` on is not less. -/
structure Partitioned (a : List Int) (s e mid : Int) (t : Scan) : Prop where
  scanned : Scanned a s e mid t
  start_lt : s < t.left
  lt_stop : t.right < e
  crossed : t.right < t.left

theorem scan_returns {m : Int} (hs : 0 ≤ s) (he : e < a.length) (hsm : s ≤ m) (hme : m ≤ e)
    (hfuel : (e - s).toNat + 1 < fuel) :
    Returns (scan fuel ⟨s, e⟩ (val a m) ⟨a, s, e⟩) (Partitioned a s e (val a m)) := by
  have hstart : Scanned a s e (val a m) ⟨a, s, e⟩ :=
    ⟨.refl _ a, Int.le_refl s, Int.le_refl e, fun p hp hlt => by simp at hlt; omega,
      fun p hp hpe => by simp at hp; omega⟩
  have hguard : Guarded s e (val a m) ⟨a, s, e⟩ :=
    ⟨⟨m, hsm, hme, Int.le_refl _⟩, ⟨m, hsm, hme, Int.le_refl _⟩⟩
  refine doWhile_returns (fun t => Scanned a s e (val a m) t ∧
    (t.left ≤ t.right → Guarded s e (val a m) t) ∧ s < t.left ∧ t.right < e)
    (fun t => (t.right - t.left + 1).toNat) ?_ ?_
  · apply (scanRound_returns hs he hstart hguard (by omega)).mono
    rintro t ⟨ht, hnext, hadv⟩
    obtain ⟨hleft, hright⟩ := hadv.both m hsm hme rfl
    simp only at hleft hright
    exact ⟨⟨ht, hnext, hleft, hright⟩, by omega⟩
  · rintro t ⟨ht, hnext, hleft, hright⟩
    by_cases hgo : t.left ≤ t.right
    · refine .inr ⟨by simp [scanTest, hgo], ?_⟩
      apply (scanRound_returns hs he ht (hnext hgo) (by omega)).mono
      rintro u ⟨hu, hnextu, hadv⟩
      have hle := hadv.left_le
      have hre := hadv.right_le
      have hlt := hadv.left_lt
      refine ⟨⟨hu, hnextu, by omega, by omega⟩, ?_⟩
      by_cases hgou : u.left ≤ u.right
      · have := hlt hgou
        omega
      · omega
    · exact .inl ⟨by simp [scanTest, hgo], ht, hleft, hright, by omega⟩

theorem Partitioned.splits {t : Scan} (h : Partitioned a s e mid t) :
    Splits s e (parts s t.right t.left e) t.arr := by
  obtain ⟨ht, hstart, hstop, hcrossed⟩ := h
  apply splits_parts hcrossed hstart.le hstop.le
  intro i j hi hil hij hrj hj
  exact (ht.below i hi hil).trans (ht.above j hrj hj)

end Partition

/-! ## 4. The sort -/

section Rounds

variable {fuel : Nat} {a₀ : List Int}

/-- The array is sorted up to the ranges on the stack. -/
structure SortInv (a₀ : List Int) (s : SortState) : Prop where
  perm : s.arr.Perm a₀
  partly : PartlySorted s.r s.arr

/-- The middle element of the range is there, if the sum of its ends is an `int`. -/
theorem middle_mem {range : Range} (hstart : 0 ≤ range.start) (hlt : range.start < range.stop)
    (hsum : range.start + range.stop ≤ INT_MAX) :
    range.start ≤ middle range ∧ middle range ≤ range.stop := by
  rw [middle, addInt_eq (by omega) hsum, Int.tdiv_eq_ediv_of_nonneg (by omega)]
  omega

/-- A round discards a range of one element, or partitions a longer one. -/
theorem sortRound_returns {s : SortState} {range : Range} {rest : List Range}
    (hs : SortInv a₀ s) (hr : s.r = range :: rest) (hfuel : a₀.length < fuel)
    (hsum : range.start < range.stop → range.start + range.stop ≤ INT_MAX) :
    Returns (sortRound fuel a₀.length s) fun t => SortInv a₀ t ∧ weight t.r < weight s.r := by
  obtain ⟨hperm, hpartly⟩ := hs
  rw [hr] at hpartly
  have hlen := hperm.length_eq
  obtain ⟨hstart, hle, hstop⟩ := hpartly.inside range List.mem_cons_self
  simp only [sortRound, hr, weight_cons]
  by_cases hone : range.start ≥ range.stop
  · rw [if_pos hone]
    refine returns_ok ⟨⟨hperm, ?_⟩, ?_⟩
    · exact hpartly.replace (.refl _ _) (splits_nil hone)
    · show weight rest < _
      omega
  · have hlt : range.start < range.stop := Int.not_le.mp hone
    obtain ⟨hsm, hme⟩ := middle_mem hstart hlt (hsum hlt)
    rw [if_neg hone, load_eq ⟨by omega, by omega⟩]
    apply (scan_returns hstart hstop hsm hme (by omega)).bind
    intro t hpart
    have hab := hpart.scanned.rearranges
    have hnew := hpartly.replace hab hpart.splits
    have hpush : pushRanges a₀.length range t.left t.right rest =
        .ok (parts range.start t.right t.left range.stop ++ rest) :=
      hnew.pushParts_eq (hab.length_eq.trans hlen)
    have hless := weight_parts_lt hlt hpart.crossed hpart.start_lt hpart.lt_stop
    refine ⟨⟨t.arr, parts range.start t.right t.left range.stop ++ rest⟩, ?_,
      ⟨hab.perm.trans hperm, hnew⟩, ?_⟩
    · simp only [hpush]
      rfl
    · rw [weight_append]
      omega

/-- The state before the first round. -/
def start (arr : List Int) : SortState := { arr, r := [newRange 0 (arr.length - 1)] }

/-- In every round whose range is scanned the sum of its ends is an `int`. -/
def SumsFit (fuel : Nat) (arr : List Int) : Prop :=
  ∀ s range rest, Reaches sortTest (sortRound fuel arr.length) (start arr) s →
    s.r = range :: rest → range.start < range.stop → range.start + range.stop ≤ INT_MAX

theorem sortInv_start {arr : List Int} (ha : arr ≠ []) : SortInv arr (start arr) :=
  ⟨.refl arr, partlySorted_whole ha⟩

theorem sortLoop_returns {arr : List Int} (ha : arr ≠ []) (hfuel : 2 * arr.length ≤ fuel)
    (hfits : SumsFit fuel arr) :
    Returns (whileLoop sortTest (sortRound fuel arr.length) fuel (start arr)) fun s =>
      s.arr.Perm arr ∧ s.arr.Pairwise (· ≤ ·) := by
  have hpos : 0 < arr.length := List.length_pos_iff.mpr ha
  refine whileLoop_returns (fun s => SortInv arr s ∧
    Reaches sortTest (sortRound fuel arr.length) (start arr) s) (fun s => weight s.r)
    ⟨sortInv_start ha, .start⟩ ?_ ?_
  · exact Nat.lt_of_lt_of_le (weight_whole hpos) hfuel
  · rintro s ⟨hs, hreach⟩
    rcases hr : s.r with _ | ⟨range, rest⟩
    · refine .inl ⟨by simp [sortTest, hr], hs.perm, ?_⟩
      have hpartly := hs.partly
      rw [hr] at hpartly
      exact hpartly.sorted
    · have htest : sortTest s = .ok true := by simp [sortTest, hr]
      have hlong : arr.length < fuel := by omega
      obtain ⟨t, hrun, ht, hless⟩ :=
        sortRound_returns hs hr hlong (hfits s range rest hreach hr)
      rw [← hr]
      exact .inr ⟨htest, t, hrun, ⟨ht, hreach.round htest hrun⟩, hless⟩

theorem push_start {arr : List Int} (ha : arr ≠ []) :
    push (arr.length : Int).toNat (newRange 0 (arr.length - 1)) [] = .ok (start arr).r := by
  have hpos : 0 < arr.length := List.length_pos_iff.mpr ha
  exact if_pos (by simpa using hpos)

theorem quickSort_returns {arr : List Int} (ha : arr ≠ []) (hfuel : 2 * arr.length ≤ fuel)
    (hfits : SumsFit fuel arr) :
    Returns (quickSort fuel arr arr.length) fun b => b.Perm arr ∧ b.Pairwise (· ≤ ·) := by
  have hpos : 0 < arr.length := List.length_pos_iff.mpr ha
  have hguard : ¬ (arr.length : Int) ≤ 0 := by omega
  obtain ⟨s, hrun, hsorted⟩ := sortLoop_returns ha hfuel hfits
  refine ⟨s.arr, ?_, hsorted⟩
  unfold quickSort
  rw [if_neg hguard, push_start ha]
  show (whileLoop sortTest (sortRound fuel arr.length) fuel (start arr) >>=
    fun s => pure s.arr) = _
  rw [hrun]
  rfl

/-- It is enough to know the sums in states in which the invariant holds. -/
theorem sumsFit_of_sortInv {arr : List Int} (ha : arr ≠ []) (hfuel : arr.length < fuel)
    (hsums : ∀ s range rest, Reaches sortTest (sortRound fuel arr.length) (start arr) s →
      SortInv arr s → s.r = range :: rest → range.start < range.stop →
      range.start + range.stop ≤ INT_MAX) : SumsFit fuel arr := by
  have hinv : ∀ s, Reaches sortTest (sortRound fuel arr.length) (start arr) s →
      SortInv arr s := by
    intro s hreach
    induction hreach with
    | start => exact sortInv_start ha
    | round hreach htest hbody ih =>
        rename_i t u
        rcases hr : t.r with _ | ⟨range, rest⟩
        · simp [sortTest, hr] at htest
        · have hround := sortRound_returns ih hr hfuel (hsums t range rest hreach ih hr)
          exact (hround.holds hbody).1
  intro s range rest hreach hr hlt
  exact hsums s range rest hreach (hinv s hreach) hr hlt

/-- The ranges stay inside the array, so in one that is not too long all sums fit. -/
theorem sumsFit_of_le {arr : List Int} (ha : arr ≠ [])
    (hfuel : arr.length < fuel) (hlen : 2 * (arr.length : Int) - 3 ≤ INT_MAX) :
    SumsFit fuel arr := by
  apply sumsFit_of_sortInv ha hfuel
  intro s range rest _ hs hr hlt
  have hin := hs.partly.inside range (by simp [hr])
  rw [hs.perm.length_eq] at hin
  omega

end Rounds

/-- `quick_sort` returns for every array on which the sum of two indices is an `int`, with no
    read of a scan outside its range and no access outside `r`, and leaves the array in
    ascending order. -/
theorem quick_sort_sorts {arr : List Int} {len : Int} (hlen : arr.length = max len 0)
    (hfits : 2 * len - 3 ≤ INT_MAX) : ∃ enough, ∀ fuel, enough ≤ fuel →
      Returns (quickSort fuel arr len) fun b => b.Perm arr ∧ b.Pairwise (· ≤ ·) := by
  refine ⟨2 * arr.length, ?_⟩
  intro fuel hfuel
  by_cases hpos : len ≤ 0
  · obtain rfl : arr = [] := List.length_eq_zero_iff.mp (by omega)
    unfold quickSort
    rw [if_pos hpos]
    exact returns_ok ⟨.refl [], .nil⟩
  · obtain rfl : len = arr.length := by omega
    have ha : arr ≠ [] := by
      rintro rfl
      simp at hpos
    have hlong : 0 < arr.length := List.length_pos_iff.mpr ha
    exact quickSort_returns ha hfuel (sumsFit_of_le ha (by omega) hfits)

/-- The middle element is the largest one, and stands once more at the end. -/
theorem quick_sort_sorts_five : ∃ enough, ∀ fuel, enough ≤ fuel →
    Returns (quickSort fuel [3, 1, 9, 2, 9] 5) fun b =>
      b.Perm [3, 1, 9, 2, 9] ∧ b.Pairwise (· ≤ ·) :=
  quick_sort_sorts (by decide) (by decide)

end SocketPractice.SortAlgo.QuickSort
