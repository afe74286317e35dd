import SocketPractice.Lib.RangeSort
import SocketPractice.SortAlgo.PrintArray

/-!
# Quicksort with the key at the start (`quick_sort.c`)

The ranges that are still to be sorted are on a stack in an array of `cnt` entries.  A
round takes one of them and scans it from both ends for elements that are on the wrong
side of its first element, the key.  Where the scans meet, the element may belong to
either side, and the last test decides where the key goes.
-/

namespace SocketPractice.SortAlgo.LcQuickSort

open Lib.While Lib.CArray Lib.RangeSort

/-! ## 1. The code -/

/-- `range_t`. -/
abbrev RangeT := Range

def newRangerT (start stop : Int) : RangeT := { start := start, stop := stop }

def swapInt (a : List Int) (x y : Int) : Outcome (List Int) := swap a x y

/-- The array and the two indices that scan a range of it. -/
structure Scan where
  a : List Int
  left : Int
  right : Int
deriving DecidableEq, Repr

/-- `while (a[left] < *key && left < right) left++;`, where `key` points to `a[key]`. -/
def scanLeft (fuel : Nat) (a : List Int) (key left right : Int) : Outcome Int :=
  whileLoop (fun left => do return (← load a left) < (← load a key) && left < right)
    (fun left => .ok (left + 1)) fuel left

/-- `while (a[right] >= *key && left < right) right--;`. -/
def scanRight (fuel : Nat) (a : List Int) (key left right : Int) : Outcome Int :=
  whileLoop (fun right => do return (← load a right) ≥ (← load a key) && left < right)
    (fun right => .ok (right - 1)) fuel right

def scanRound (fuel : Nat) (key : Int) (s : Scan) : Outcome Scan := do
  let left ← scanLeft fuel s.a key s.left s.right
  let right ← scanRight fuel s.a key left s.right
  if left < right then
    return { a := ← swapInt s.a left right, left, right }
  return { s with left, right }

/-- `while (left < right)`. -/
def scan (fuel : Nat) (key : Int) (s : Scan) : Outcome Scan :=
  whileLoop (fun s => .ok (s.left < s.right)) (scanRound fuel key) fuel s

/-- The key goes to where the scans have met, or before it; the new `left` is where the
    key is. -/
def placeKey (a : List Int) (key left : Int) : Outcome (List Int × Int) := do
  if (← load a left) < (← load a key) then
    return (← swapInt a left key, left)
  else
    return (← swapInt a (left - 1) key, left - 1)

/-- The array, and the entries of `range` below `stack_top`, the last one first. -/
structure SortState where
  a : List Int
  range : List RangeT
deriving DecidableEq, Repr

/-- The two `range[stack_top++] = ..` behind the placing of the key. -/
def pushRanges (cnt : Int) (curR : RangeT) (left : Int) (range : List RangeT) :
    Outcome (List RangeT) := do
  let range ← if curR.start < left - 1 then
    push cnt.toNat (newRangerT curR.start (left - 1)) range else pure range
  if left + 1 < curR.stop then
    push cnt.toNat (newRangerT (left + 1) curR.stop) range else pure range

/-- One round of `while (stack_top)`. -/
def sortRound (fuel : Nat) (cnt : Int) (s : SortState) : Outcome SortState :=
  match s.range with
  | [] => .error .fault
  | curR :: range =>
      if curR.start ≥ curR.stop then
        .ok { s with range }
      else do
        let t ← scan fuel curR.start { s with left := curR.start + 1, right := curR.stop }
        let (a, left) ← placeKey t.a curR.start t.left
        return { a, range := ← pushRanges cnt curR left range }

def sortTest (s : SortState) : Outcome Bool := .ok (s.range ≠ [])

/-- The array on return, and what has been printed. -/
def lcQuickSort (fuel : Nat) (a : List Int) (cnt : Int) : Outcome (List Int × List Char) := do
  let range ← push cnt.toNat (newRangerT 0 (cnt - 1)) []
  let s ← whileLoop sortTest (sortRound fuel cnt) fuel { a, range }
  return (s.a, ← printArray s.a cnt)

/-! ## 2. The scans -/

section Scans

variable {fuel : Nat} {a : List Int} {key left right : Int}

/-- The scan from the left stops at an element that is not less than the key, or at
    `right`. -/
theorem scanLeft_returns (hkey : InBounds a key) (h0 : 0 ≤ left) (hle : left ≤ right)
    (hright : right < a.length) (hfuel : (right - left).toNat < fuel) :
    Returns (scanLeft fuel a key left right) fun l => left ≤ l ∧ l ≤ right ∧
      (∀ p, left ≤ p → p < l → val a p < val a key) ∧ (l = right ∨ val a key ≤ val a l) := by
  have hscan : Returns (scanLeft fuel a key left right) fun l => left ≤ l ∧ l ≤ right ∧
      ¬ (val a l < val a key ∧ l < right) ∧
      ∀ p, left ≤ p → p < l → val a p < val a key ∧ p < right := by
    apply countUp_returns hle
    · intro l hl hlr
      have hin : InBounds a l := ⟨by omega, by omega⟩
      simp [load_eq hin, load_eq hkey, bind, Except.bind, pure, Except.pure]
    · omega
    · exact hfuel
  apply hscan.mono
  rintro l ⟨hl, hlr, hstop, hbefore⟩
  exact ⟨hl, hlr, fun p hp hpl => (hbefore p hp hpl).1, by omega⟩

theorem scanRight_returns (hkey : InBounds a key) (h0 : 0 ≤ left) (hle : left ≤ right)
    (hright : right < a.length) (hfuel : (right - left).toNat < fuel) :
    Returns (scanRight fuel a key left right) fun r => left ≤ r ∧ r ≤ right ∧
      (∀ p, r < p → p ≤ right → val a key ≤ val a p) ∧ (r = left ∨ val a r < val a key) := by
  have hscan : Returns (scanRight fuel a key left right) fun r => left ≤ r ∧ r ≤ right ∧
      ¬ (val a r ≥ val a key ∧ left < r) ∧
      ∀ p, r < p → p ≤ right → val a p ≥ val a key ∧ left < p := by
    apply countDown_returns hle
    · intro r hlr hr
      have hin : InBounds a r := ⟨by omega, by omega⟩
      simp [load_eq hin, load_eq hkey, bind, Except.bind, pure, Except.pure]
    · omega
    · exact hfuel
  apply hscan.mono
  rintro r ⟨hlr, hr, hstop, hafter⟩
  exact ⟨hlr, hr, fun p hrp hp => (hafter p hrp hp).1, by omega⟩

end Scans

/-! ## 3. A range around its key -/

section Partition

variable {fuel : Nat} {a : List Int} {s e : Int}

/-- The elements before `left` are less than the key, those behind `right` are not, and
    the key is still at the start of the range. -/
structure Scanned (a : List Int) (s e : Int) (t : Scan) : Prop where
  rearranges : Rearranges (within (s + 1) e) a t.a
  left_gt : s < t.left
  le : t.left ≤ t.right
  right_le : t.right ≤ e
  below : ∀ p, s < p → p < t.left → val t.a p < val a s
  above : ∀ p, t.right < p → p ≤ e → val a s ≤ val t.a p

theorem Scanned.key_eq {t : Scan} (h : Scanned a s e t) : val t.a s = val a s :=
  h.rearranges.outside (.inl (by omega))

/-- The two scans of a round. -/
theorem Scanned.narrow {t : Scan} {l r : Int} (h : Scanned a s e t) (hl : t.left ≤ l)
    (hlr : l ≤ r) (hr : r ≤ t.right) (hless : ∀ p, t.left ≤ p → p < l → val t.a p < val a s)
    (hge : ∀ p, r < p → p ≤ t.right → val a s ≤ val t.a p) : Scanned a s e ⟨t.a, l, r⟩ := by
  obtain ⟨hab, hgt, -, hre, hbelow, habove⟩ := h
  refine ⟨hab, Int.lt_of_lt_of_le hgt hl, hlr, Int.le_trans hr hre, ?_, ?_⟩
  · intro p hp hpl
    by_cases hpt : p < t.left
    · exact hbelow p hp hpt
    · exact hless p (by omega) hpl
  · intro p hp hpe
    by_cases hpt : t.right < p
    · exact habove p hpt hpe
    · exact hge p hp (by omega)

/-- The exchange behind them. -/
theorem Scanned.swap {b : List Int} {l r : Int} (hs : 0 ≤ s) (he : e < a.length)
    (h : Scanned a s e ⟨b, l, r⟩) (hlt : l < r) : Scanned a s e ⟨swapped b l r, l, r⟩ := by
  obtain ⟨hab, (hgt : s < l), -, (hre : r ≤ e), hbelow, habove⟩ := h
  have hlen : b.length = a.length := hab.length_eq
  have hl : InBounds b l := ⟨by omega, by omega⟩
  have hr : InBounds b r := ⟨by omega, by omega⟩
  have hclass : within (s + 1) e l = within (s + 1) e r :=
    within_eq (by omega) (by omega) (by omega) hre
  refine ⟨hab.trans (.swapped hl hr hclass), hgt, hlt.le, hre, ?_, ?_⟩
  · intro p hp (hpl : p < l)
    rw [val_swapped_of_ne hl hr (by omega) (by omega)]
    exact hbelow p hp hpl
  · intro p (hp : r < p) hpe
    rw [val_swapped_of_ne hl hr (by omega) (by omega)]
    exact habove p hp hpe

/-- A round in which neither index moves finds an element not less than the key at `left`
    and leaves one that is less. -/
def scanMeasure (a : List Int) (s : Int) (t : Scan) : Nat :=
  2 * (t.right - t.left).toNat + if val a s ≤ val t.a t.left then 1 else 0

theorem scanRound_returns {t : Scan} (hs : 0 ≤ s) (he : e < a.length) (h : Scanned a s e t)
    (hlt : t.left < t.right) (hfuel : (t.right - t.left).toNat < fuel) :
    Returns (scanRound fuel s t) fun u => Scanned a s e u ∧
      scanMeasure a s u < scanMeasure a s t := by
  have hkeyval := h.key_eq
  have hgt := h.left_gt
  have hre := h.right_le
  have hlen := h.rearranges.length_eq
  have hkey : InBounds t.a s := ⟨hs, by omega⟩
  obtain ⟨l, hleft, hl, hlr, hless, hlstop⟩ :=
    scanLeft_returns hkey (by omega) h.le (by omega) hfuel
  obtain ⟨r, hright, hr, hrt, hge, hrstop⟩ :=
    scanRight_returns hkey (by omega) hlr (by omega) (by omega : (t.right - l).toNat < fuel)
  rw [hkeyval] at hless hlstop hge hrstop
  have hnarrow : Scanned a s e ⟨t.a, l, r⟩ := h.narrow hl hr hrt hless hge
  simp only [scanRound, hleft, hright, bind, Except.bind]
  by_cases hcross : l < r
  · have hinl : InBounds t.a l := ⟨by omega, by omega⟩
    have hinr : InBounds t.a r := ⟨by omega, by omega⟩
    have hvall : val a s ≤ val t.a l := hlstop.resolve_left (by omega)
    have hnew : ¬ val a s ≤ val (swapped t.a l r) l := by
      rw [val_swapped_left hinl hinr]
      exact Int.not_le.mpr (hrstop.resolve_left (by omega))
    rw [if_pos hcross]
    simp only [swapInt, swap_eq hinl hinr]
    refine returns_ok ⟨hnarrow.swap hs he hcross, ?_⟩
    simp only [scanMeasure, if_neg hnew]
    -- if neither index has moved, the element at `left` was not less than the key
    by_cases hmoved : l = t.left
    · subst hmoved
      rw [if_pos hvall]
      omega
    · omega
  · rw [if_neg hcross]
    refine returns_ok ⟨hnarrow, ?_⟩
    simp only [scanMeasure]
    split <;> omega

theorem scanned_start (hse : s < e) : Scanned a s e ⟨a, s + 1, e⟩ := by
  refine ⟨.refl _ a, by simp, hse, Int.le_refl e, ?_, ?_⟩
  · intro p hp hlt
    simp at hlt
    omega
  · intro p hp hpe
    simp at hp
    omega

/-- The scans meet. -/
theorem scan_returns (hs : 0 ≤ s) (hse : s < e) (he : e < a.length)
    (hfuel : 2 * (e - s).toNat ≤ fuel) :
    Returns (scan fuel s ⟨a, s + 1, e⟩) fun t => Scanned a s e t ∧ t.left = t.right := by
  refine whileLoop_returns (Scanned a s e) (scanMeasure a s) (scanned_start hse) ?_ ?_
  · simp only [scanMeasure]
    split <;> omega
  · intro t ht
    have hgt := ht.left_gt
    have hle := ht.le
    have hre := ht.right_le
    by_cases hlt : t.left < t.right
    · exact .inr ⟨by simp [hlt], scanRound_returns hs he ht hlt (by omega)⟩
    · exact .inl ⟨by simp [hlt], ht, by omega⟩

/-- The range around the key at `m`. -/
structure Partitioned (a : List Int) (s e : Int) (b : List Int) (m : Int) : Prop where
  rearranges : Rearranges (within s e) a b
  start_le : s ≤ m
  le_stop : m ≤ e
  key : val b m = val a s
  below : ∀ p, s ≤ p → p < m → val b p < val a s
  above : ∀ p, m < p → p ≤ e → val a s ≤ val b p

theorem placeKey_returns {t : Scan} (hs : 0 ≤ s) (he : e < a.length) (h : Scanned a s e t)
    (hmet : t.left = t.right) :
    Returns (placeKey t.a s t.left) fun r => Partitioned a s e r.1 r.2 := by
  have hlen := h.rearranges.length_eq
  have hkeyval := h.key_eq
  have hgt := h.left_gt
  have hre := h.right_le
  have hwide : Rearranges (within s e) a t.a := h.rearranges.widen (by omega) (Int.le_refl e)
  have hkey : InBounds t.a s := ⟨hs, by omega⟩
  have hleft : InBounds t.a t.left := ⟨by omega, by omega⟩
  -- the key goes to `m`, and the element from there to the start of the range
  have hplaced : ∀ m, s ≤ m → m ≤ e → (∀ p, s < p → p ≤ m → val t.a p < val a s) →
      (∀ p, m < p → p ≤ e → val a s ≤ val t.a p) → Partitioned a s e (swapped t.a m s) m := by
    intro m hsm hme hless hge
    have hm : InBounds t.a m := ⟨by omega, by omega⟩
    refine ⟨hwide.trans (.swapped hm hkey (within_eq hsm hme (Int.le_refl s) (by omega))), hsm,
      hme, ?_, ?_, ?_⟩
    · rw [val_swapped_left hm hkey, hkeyval]
    · intro p hp hpm
      by_cases hps : p = s
      · rw [hps, val_swapped_right hm hkey]
        exact hless m (by omega) (Int.le_refl m)
      · rw [val_swapped_of_ne hm hkey (by omega) hps]
        exact hless p (by omega) (by omega)
    · intro p hp hpe
      rw [val_swapped_of_ne hm hkey (by omega) (by omega)]
      exact hge p hp hpe
  simp only [placeKey, load_eq hkey, load_eq hleft, bind, Except.bind, hkeyval, swapInt]
  by_cases hval : val t.a t.left < val a s
  · rw [if_pos hval, swap_eq hleft hkey]
    refine returns_ok (hplaced t.left (by omega) (by omega) ?_ ?_)
    · intro p hp hpl
      rcases Int.lt_or_eq_of_le hpl with hpl | rfl
      · exact h.below p hp hpl
      · exact hval
    · intro p hp hpe
      exact h.above p (by omega) hpe
  · have hprev : InBounds t.a (t.left - 1) := ⟨by omega, by omega⟩
    rw [if_neg hval, swap_eq hprev hkey]
    refine returns_ok (hplaced (t.left - 1) (by omega) (by omega) ?_ ?_)
    · intro p hp hpl
      exact h.below p hp (by omega)
    · intro p hp hpe
      by_cases hpl : p = t.left
      · rw [hpl]
        exact Int.not_lt.mp hval
      · exact h.above p (by omega) hpe

/-- What is left to sort is on either side of the key. -/
theorem Partitioned.splits {b : List Int} {m : Int} (h : Partitioned a s e b m) :
    Splits s e (parts s (m - 1) (m + 1) e) b := by
  have hsm := h.start_le
  have hme := h.le_stop
  apply splits_parts (by omega) (by omega) (by omega)
  intro i j hi him hij hmj hj
  have hbelow : val b i ≤ val a s := by
    rcases Int.lt_or_eq_of_le (Int.lt_add_one_iff.mp him) with him | rfl
    · exact (h.below i hi him).le
    · exact h.key.le
  have habove : val a s ≤ val b j := by
    by_cases hjm : j = m
    · rw [hjm, h.key]
    · exact h.above j (by omega) hj
  exact hbelow.trans habove

end Partition

/-! ## 4. The sort -/

section Rounds

variable {fuel : Nat} {a₀ : List Int}

/-- The array is sorted up to the ranges on the stack. -/
structure SortInv (a₀ : List Int) (s : SortState) : Prop where
  perm : s.a.Perm a₀
  partly : PartlySorted s.range s.a

/-- What a round makes of a state: new ranges have at least two elements. -/
structure Worked (a₀ : List Int) (s t : SortState) : Prop where
  inv : SortInv a₀ t
  weight_lt : weight t.range < weight s.range
  narrows : Narrows s.range s.a t.range t.a
  longer : ∀ q ∈ t.range, q ∈ s.range ∨ q.start < q.stop

/-- A round discards a range of one element, or partitions a longer one. -/
theorem sortRound_returns {s : SortState} {curR : Range} {rest : List Range}
    (hs : SortInv a₀ s) (hrange : s.range = curR :: rest) (hfuel : 2 * a₀.length ≤ fuel) :
    Returns (sortRound fuel a₀.length s) (Worked a₀ s) := by
  obtain ⟨hperm, hpartly⟩ := hs
  rw [hrange] at hpartly
  have hlen := hperm.length_eq
  obtain ⟨hstart, hle, hstop⟩ := hpartly.inside curR List.mem_cons_self
  simp only [sortRound, hrange]
  by_cases hone : curR.start ≥ curR.stop
  · rw [if_pos hone]
    refine returns_ok ⟨⟨hperm, ?_⟩, ?_, ?_, ?_⟩
    · exact hpartly.replace (.refl _ _) (splits_nil hone)
    · rw [hrange, weight_cons]
      show weight rest < _
      omega
    · rw [hrange]
      exact .replace (.refl _ _) (splits_nil (a := s.a) hone).within
    · intro q hq
      rw [hrange]
      exact .inl (List.mem_cons_of_mem _ hq)
  · rw [if_neg hone]
    apply (scan_returns hstart (by omega) hstop (by omega)).bind
    rintro t ⟨hscanned, hmet⟩
    apply (placeKey_returns hstart hstop hscanned hmet).bind
    rintro ⟨b, m⟩ hpart
    have hsm := hpart.start_le
    have hme := hpart.le_stop
    have hnew := hpartly.replace hpart.rearranges hpart.splits
    have hpush : pushRanges a₀.length curR m rest =
        .ok (parts curR.start (m - 1) (m + 1) curR.stop ++ rest) :=
      hnew.pushParts_eq (hpart.rearranges.length_eq.trans hlen)
    refine ⟨⟨b, parts curR.start (m - 1) (m + 1) curR.stop ++ rest⟩, ?_, ⟨?_, hnew⟩, ?_, ?_, ?_⟩
    · simp only [hpush]
      rfl
    · exact hpart.rearranges.perm.trans hperm
    · have hless := weight_parts_lt (s := curR.start) (l := m - 1) (r := m + 1) (e := curR.stop)
        (by omega) (by omega) (by omega) (by omega)
      rw [hrange, weight_append, weight_cons]
      omega
    · rw [hrange]
      exact .replace hpart.rearranges hpart.splits.within
    · intro q hq
      rw [hrange]
      rcases List.mem_append.mp hq with hq | hq
      · exact .inr (lt_of_mem_parts hq)
      · exact .inl (List.mem_cons_of_mem _ hq)

/-- The main loop, from the whole array on. -/
theorem lcQuickSort_loop {a : List Int} (hpos : 0 < a.length) (hfuel : 2 * a.length ≤ fuel) :
    Returns (whileLoop sortTest (sortRound fuel a.length) fuel
      ⟨a, [newRangerT 0 (a.length - 1)]⟩) fun s => s.a.Perm a ∧ s.a.Pairwise (· ≤ ·) := by
  refine whileLoop_returns (SortInv a) (fun s => weight s.range)
    ⟨.refl a, partlySorted_whole (List.length_pos_iff.mp hpos)⟩ ?_ ?_
  · exact Nat.lt_of_lt_of_le (weight_whole hpos) hfuel
  · intro s hs
    rcases hrange : s.range with _ | ⟨curR, rest⟩
    · refine .inl ⟨by simp [sortTest, hrange], hs.perm, ?_⟩
      have hpartly := hs.partly
      rw [hrange] at hpartly
      exact hpartly.sorted
    · refine .inr ⟨by simp [sortTest, hrange], ?_⟩
      rw [← hrange]
      apply (sortRound_returns hs hrange hfuel).mono
      intro t ht
      exact ⟨ht.inv, ht.weight_lt⟩

/-- What the loop leaves is returned and printed. -/
theorem lcQuickSort_eq {a : List Int} {s : SortState} (hpos : 0 < a.length)
    (hrun : whileLoop sortTest (sortRound fuel a.length) fuel
      ⟨a, [newRangerT 0 (a.length - 1)]⟩ = .ok s) (hlen : s.a.length = a.length) :
    lcQuickSort fuel a a.length = .ok (s.a, printed s.a) := by
  have hfirst : push (a.length : Int).toNat (newRangerT 0 (a.length - 1)) [] =
      .ok [newRangerT 0 (a.length - 1)] := if_pos (by simpa using hpos)
  have hprint : printArray s.a a.length = .ok (printed s.a) := printArray_eq (by rw [hlen])
  simp only [lcQuickSort, hfirst, bind, Except.bind, hrun, hprint]
  rfl

theorem lcQuickSort_returns {a : List Int} (ha : a ≠ []) (hfuel : 2 * a.length ≤ fuel) :
    Returns (lcQuickSort fuel a a.length) fun r => r.1.Perm a ∧ r.1.Pairwise (· ≤ ·) ∧
      r.2 = printed r.1 := by
  have hpos : 0 < a.length := List.length_pos_iff.mpr ha
  obtain ⟨s, hrun, hperm, hsorted⟩ := lcQuickSort_loop hpos hfuel
  rw [lcQuickSort_eq hpos hrun hperm.length_eq]
  exact returns_ok ⟨hperm, hsorted, rfl⟩

end Rounds

/-- `lc_quick_sort` returns for every array of at least one element, without an access outside
    the array or the stack, and leaves the array in ascending order. -/
theorem lc_quick_sort_sorts {a : List Int} {cnt : Int} (hcnt : a.length = cnt)
    (hpos : 1 ≤ cnt) : ∃ enough, ∀ fuel, enough ≤ fuel →
      Returns (lcQuickSort fuel a cnt) fun r => r.1.Perm a ∧ r.1.Pairwise (· ≤ ·) := by
  subst hcnt
  have ha : a ≠ [] := by
    rintro rfl
    simp at hpos
  refine ⟨2 * a.length, ?_⟩
  intro fuel hfuel
  exact (lcQuickSort_returns ha hfuel).mono fun r hr => ⟨hr.1, hr.2.1⟩

/-- With the key twice, and an element that is less behind it. -/
theorem lc_quick_sort_sorts_five : ∃ enough, ∀ fuel, enough ≤ fuel →
    Returns (lcQuickSort fuel [3, 1, 3, 2, 5] 5) fun r =>
      r.1.Perm [3, 1, 3, 2, 5] ∧ r.1.Pairwise (· ≤ ·) :=
  lc_quick_sort_sorts rfl (by decide)

example : (lcQuickSort 10 [3, 1, 3, 2, 5] 5).map Prod.fst = .ok [1, 2, 3, 3, 5] := by
  decide +kernel

end SocketPractice.SortAlgo.LcQuickSort
