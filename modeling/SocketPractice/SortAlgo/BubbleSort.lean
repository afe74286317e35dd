import SocketPractice.Lib.CInt
import SocketPractice.SortAlgo.PrintArray

/-!
# Bubble sort (`bubble_sort.c`)

A pass carries the smallest element that it meets to the end of the part it looks at, and
moves a largest one a single place towards the start.  The passes are one too few: after
them the two first elements may be the wrong way round, and they are exactly if the
largest element has had to come all the way from the end.
-/

namespace SocketPractice.SortAlgo

open Lib.While Lib.CArray Lib.CInt

/-! ## 1. The code -/

/-- `sizeof(data_arr[0])`. -/
def SIZEOF_INT : Nat := 4

def bubbleRound (i : Int) (dataArr : List Int) : Outcome (List Int) := do
  if (← load dataArr i) < (← load dataArr (i + 1)) then
    swap dataArr i (i + 1)
  else
    return dataArr

/-- `for (i = 0; i < cnt - k - 1; i++)`. -/
def bubblePass (cnt k : Int) (dataArr : List Int) : Outcome (List Int) :=
  forRange 0 (cnt - k - 1) bubbleRound dataArr

/-- The array on return, and what has been printed. -/
def lcBubbleSort (dataArr : List Int) (size : Nat) : Outcome (List Int × List Char) := do
  let cnt := toInt (size / SIZEOF_INT : Nat)
  let dataArr ← forRange 0 (cnt - 2) (bubblePass cnt) dataArr
  return (dataArr, ← printArray dataArr cnt)

/-! ## 2. A pass -/

/-- The element at `q` is a largest one up to `m`. -/
def Largest (a : List Int) (m q : Int) : Prop := ∀ p, 0 ≤ p → p ≤ m → val a p ≤ val a q

/-- The array after the rounds before `i` of a pass up to `m`. -/
structure Bubbling (a : List Int) (m i : Int) (b : List Int) : Prop where
  rearranges : Rearranges (within 0 m) a b
  ahead : ∀ p, i < p → val b p = val a p
  smallest : ∀ p, 0 ≤ p → p < i → val b i ≤ val b p
  moved : ∀ q, 1 ≤ q → q ≤ i → Largest a m q → val b (q - 1) = val a q
  stays : Largest a m 0 → val b 0 = val a 0

section Pass

variable {a b : List Int} {m i : Int}

theorem Bubbling.le_largest (h : Bubbling a m i b) {q p : Int} (hq : Largest a m q) (h0 : 0 ≤ p)
    (hm : p ≤ m) : val b p ≤ val a q := by
  obtain ⟨p', h0', hm', hval⟩ := h.rearranges.inside h0 hm
  rw [hval]
  exact hq p' h0' hm'

/-- The smaller of two elements goes on, and the larger one stays behind. -/
theorem Bubbling.swap (h : Bubbling a m i b) (h0 : 0 ≤ i) (him : i < m) (hm : m < a.length)
    (hlt : val b i < val b (i + 1)) : Bubbling a m (i + 1) (swapped b i (i + 1)) := by
  have hlen := h.rearranges.length_eq
  have hi : InBounds b i := ⟨h0, by omega⟩
  have hi' : InBounds b (i + 1) := ⟨by omega, by omega⟩
  have hleft : val (swapped b i (i + 1)) i = val b (i + 1) := val_swapped_left hi hi'
  have hother : ∀ p, p ≠ i → p ≠ i + 1 → val (swapped b i (i + 1)) p = val b p :=
    fun p => val_swapped_of_ne hi hi'
  have hclass : within 0 m i = within 0 m (i + 1) :=
    within_eq h0 (by omega) (by omega) (by omega)
  refine ⟨h.rearranges.trans (.swapped hi hi' hclass), ?_, ?_, ?_, ?_⟩
  · intro p hp
    rw [hother p (by omega) (by omega)]
    exact h.ahead p (by omega)
  · intro p hp hpi
    rw [val_swapped_right hi hi']
    by_cases hpe : p = i
    · rw [hpe, hleft]
      exact hlt.le
    · rw [hother p hpe (by omega)]
      exact h.smallest p hp (by omega)
  · intro q hq hqi hlargest
    by_cases hqe : q = i + 1
    · subst hqe
      rw [Int.add_sub_cancel, hleft]
      exact h.ahead (i + 1) (by omega)
    · rw [hother (q - 1) (by omega) (by omega)]
      exact h.moved q hq (by omega) hlargest
  · intro hlargest
    have hne : 0 ≠ i := by
      rintro rfl
      have hle := h.le_largest hlargest (p := 0 + 1) (by omega) (by omega)
      rw [← h.stays hlargest] at hle
      omega
    rw [hother 0 hne (by omega)]
    exact h.stays hlargest

theorem Bubbling.keep (h : Bubbling a m i b) (h0 : 0 ≤ i) (him : i < m)
    (hge : val b (i + 1) ≤ val b i) : Bubbling a m (i + 1) b := by
  refine ⟨h.rearranges, fun p hp => h.ahead p (by omega), ?_, ?_, h.stays⟩
  · intro p hp hpi
    by_cases hpe : p = i
    · rwa [hpe]
    · exact hge.trans (h.smallest p hp (by omega))
  · intro q hq hqi hlargest
    by_cases hqe : q = i + 1
    · subst hqe
      have hahead := h.ahead (i + 1) (by omega)
      have hle := h.le_largest hlargest h0 him.le
      rw [Int.add_sub_cancel]
      omega
    · exact h.moved q hq (by omega) hlargest

theorem bubbleRound_returns (h : Bubbling a m i b) (h0 : 0 ≤ i) (him : i < m)
    (hm : m < a.length) : Returns (bubbleRound i b) (Bubbling a m (i + 1)) := by
  have hlen := h.rearranges.length_eq
  have hi : InBounds b i := ⟨h0, by omega⟩
  have hi' : InBounds b (i + 1) := ⟨by omega, by omega⟩
  simp only [bubbleRound, load_eq hi, load_eq hi', bind, Except.bind]
  by_cases hlt : val b i < val b (i + 1)
  · rw [if_pos hlt, swap_eq hi hi']
    exact returns_ok (h.swap h0 him hm hlt)
  · rw [if_neg hlt]
    exact returns_ok (h.keep h0 him (Int.not_lt.mp hlt))

theorem bubblePass_returns {cnt k : Int} (hm : cnt - k - 1 = m) (h0 : 0 ≤ m)
    (hlt : m < a.length) : Returns (bubblePass cnt k a) (Bubbling a m m) := by
  rw [bubblePass, hm]
  refine forRange_returns (Bubbling a m) h0 ⟨.refl _ a, fun _ _ => rfl, ?_, ?_, fun _ => rfl⟩ ?_
  · intro p hp hlt
    omega
  · intro q hq hle
    omega
  · intro i b hi him hb
    exact bubbleRound_returns hb hi him hlt

end Pass

/-! ## 3. All passes -/

/-- After `k` passes the last `k` elements are the smallest, in order, and a largest one is
    `k` places nearer to the start. -/
structure Passed (a : List Int) (k : Int) (b : List Int) : Prop where
  rearranges : Rearranges (within 0 (a.length - 1)) a b
  suffix : ∀ p q : Int, 0 ≤ p → p < q → q < a.length → a.length - k ≤ q → val b q ≤ val b p
  largest : ∀ q : Int, 0 ≤ q → q < a.length → Largest a (a.length - 1) q →
    val b (max 0 (q - k)) = val a q

section Passes

variable {a b b' : List Int} {k : Int}

theorem Passed.zero (a : List Int) : Passed a 0 a := by
  refine ⟨.refl _ a, fun p q _ _ hq hle => by omega, ?_⟩
  intro q hq _ _
  rw [Int.sub_zero, Int.max_eq_right hq]

theorem Passed.next (h : Passed a k b) (h0 : 0 ≤ k)
    (hpass : Bubbling b (a.length - k - 1) (a.length - k - 1) b') : Passed a (k + 1) b' := by
  refine ⟨h.rearranges.trans (hpass.rearranges.widen (Int.le_refl 0) (by omega)), ?_, ?_⟩
  · intro p q hp hpq hq hle
    by_cases hqm : q = a.length - k - 1
    · subst hqm
      exact hpass.smallest p hp hpq
    · rw [hpass.rearranges.outside (p := q) (by omega)]
      by_cases hpm : p ≤ a.length - k - 1
      · obtain ⟨p', hp', hpm', hval⟩ := hpass.rearranges.inside hp hpm
        rw [hval]
        exact h.suffix p' q hp' (by omega) hq (by omega)
      · rw [hpass.rearranges.outside (p := p) (by omega)]
        exact h.suffix p q hp hpq hq (by omega)
  · intro q hq hlt hlargest
    have hat := h.largest q hq hlt hlargest
    have hstill : Largest b (a.length - k - 1) (max 0 (q - k)) := by
      intro p hp hpm
      obtain ⟨p', hp', hpm', hval⟩ := h.rearranges.inside hp (by omega)
      rw [hat, hval]
      exact hlargest p' hp' hpm'
    by_cases hqk : q - k ≤ 0
    · rw [Int.max_eq_left hqk] at hat hstill
      rw [Int.max_eq_left (by omega), hpass.stays hstill, hat]
    · rw [Int.max_eq_right (by omega)] at hat hstill
      have hmoved := hpass.moved (q - k) (by omega) (by omega) hstill
      rw [Int.max_eq_right (by omega), ← hat, ← hmoved]
      congr 1
      omega

theorem bubblePasses_returns (hlen : 2 ≤ a.length) :
    Returns (forRange 0 (a.length - 2) (bubblePass a.length) a) (Passed a (a.length - 2)) := by
  apply forRange_returns (Passed a) (by omega) (.zero a)
  intro k b h0 hlt hb
  have hblen := hb.rearranges.length_eq
  apply (bubblePass_returns (m := a.length - k - 1) rfl (by omega) (by omega)).mono
  intro b' hpass
  exact hb.next h0 hpass

/-- Only the two first elements may be in the wrong order. -/
theorem Passed.sorted_iff (h : Passed a (a.length - 2) b) (hlen : 2 ≤ a.length) :
    b.Pairwise (· ≥ ·) ↔ val b 1 ≤ val b 0 := by
  have hblen := h.rearranges.length_eq
  constructor
  · intro hsorted
    have hlt : 1 < b.length := by omega
    have hge := List.pairwise_iff_getElem.mp hsorted 0 1 (by omega) hlt Nat.zero_lt_one
    rwa [← val_natCast b hlt, ← val_natCast b (by omega : 0 < b.length)] at hge
  · intro hfirst
    rw [List.pairwise_iff_getElem]
    intro p q hp hq hpq
    rw [← val_natCast b hp, ← val_natCast b hq]
    by_cases hq1 : q = 1
    · subst hq1
      obtain rfl : p = 0 := by omega
      exact hfirst
    · exact h.suffix p q (by omega) (by omega) (by omega) (by omega)

/-- There is a largest element up to every index. -/
theorem exists_largest (a : List Int) (n : Nat) :
    ∃ q : Int, 0 ≤ q ∧ q ≤ n ∧ Largest a n q := by
  induction n with
  | zero =>
      refine ⟨0, Int.le_refl 0, Int.le_refl 0, ?_⟩
      intro p hp hp0
      obtain rfl : p = 0 := by omega
      exact Int.le_refl _
  | succ n ih =>
      obtain ⟨q, hq, hqn, hlargest⟩ := ih
      by_cases hnew : val a q ≤ val a (n + 1)
      · refine ⟨n + 1, by omega, by omega, ?_⟩
        intro p hp hpn
        by_cases hpe : p = n + 1
        · rw [hpe]
        · exact (hlargest p hp (by omega)).trans hnew
      · refine ⟨q, hq, by omega, ?_⟩
        intro p hp hpn
        by_cases hpe : p = n + 1
        · rw [hpe]
          omega
        · exact hlargest p hp (by omega)

/-- The last element is less than or equal to an earlier one. -/
def LastNotAlone (a : List Int) : Prop :=
  ∃ i : Int, 0 ≤ i ∧ i < a.length - 1 ∧ val a (a.length - 1) ≤ val a i

/-- The only largest element was the last, and stops at 1. -/
theorem Passed.lastNotAlone (h : Passed a (a.length - 2) b) (hlen : 2 ≤ a.length)
    (hfirst : val b 1 ≤ val b 0) : LastNotAlone a := by
  by_contra hnot
  have hless : ∀ i : Int, 0 ≤ i → i < a.length - 1 → val a i < val a (a.length - 1) := by
    intro i hi hlt
    by_contra hge
    exact hnot ⟨i, hi, hlt, Int.not_lt.mp hge⟩
  have hlargest : Largest a (a.length - 1) (a.length - 1) := by
    intro p hp hpm
    by_cases hpe : p = a.length - 1
    · rw [hpe]
    · exact (hless p hp (by omega)).le
  have hone := h.largest (a.length - 1) (by omega) (by omega) hlargest
  have hat : max 0 ((a.length : Int) - 1 - (a.length - 2)) = 1 := by omega
  rw [hat] at hone
  obtain ⟨σ, hσ, hb⟩ := h.rearranges.places
  -- the elements at 0 and 1 come from different places, and only one of those is last
  have hne : σ 0 ≠ σ 1 := fun heq => absurd (σ.injective heq) (by decide)
  obtain ⟨h0, h0'⟩ := of_within_eq (hσ 0) (Int.le_refl 0) (by omega)
  obtain ⟨h1, h1'⟩ := of_within_eq (hσ 1) (by omega) (by omega)
  rw [hb, hb] at hfirst
  rw [hb] at hone
  have hlast : σ 1 = a.length - 1 := by
    by_contra hnl
    have := hless (σ 1) h1 (by omega)
    omega
  have hzero := hless (σ 0) h0 (by omega)
  omega

/-- A largest element before the last comes to the start. -/
theorem Passed.first (h : Passed a (a.length - 2) b) (hlen : 2 ≤ a.length)
    (hlast : LastNotAlone a) : val b 1 ≤ val b 0 := by
  obtain ⟨i, hi, hlt, hle⟩ := hlast
  obtain ⟨n, hn⟩ : ∃ n : Nat, (n : Int) = a.length - 2 := ⟨a.length - 2, by omega⟩
  obtain ⟨q, hq, hqn, hbefore⟩ := exists_largest a n
  have hlargest : Largest a (a.length - 1) q := by
    intro p hp hpm
    by_cases hpe : p = a.length - 1
    · rw [hpe]
      exact hle.trans (hbefore i hi (by omega))
    · exact hbefore p hp (by omega)
  have hzero := h.largest q hq (by omega) hlargest
  rw [Int.max_eq_left (by omega)] at hzero
  obtain ⟨p, hp, hpm, hval⟩ := h.rearranges.inside (p := 1) (by omega) (by omega)
  rw [hzero, hval]
  exact hlargest p hp hpm

end Passes

/-! ## 4. The sort -/

/-- `lc_bubble_sort` returns the array in descending order. -/
def BubbleSorts (a : List Int) (size : Nat) : Prop :=
  Returns (lcBubbleSort a size) fun r => r.1.Perm a ∧ r.1.Pairwise (· ≥ ·)

/-- The number of elements, as the code computes it. -/
theorem cnt_eq {n : Nat} (hmax : (n : Int) ≤ INT_MAX) :
    toInt ((n * SIZEOF_INT / SIZEOF_INT : Nat)) = n := by
  have hpos : 0 < SIZEOF_INT := by decide
  rw [Nat.mul_div_cancel n hpos, toInt_eq (by omega) hmax]

theorem lcBubbleSort_eq {a b : List Int} (hmax : (a.length : Int) ≤ INT_MAX)
    (hpasses : forRange 0 (a.length - 2) (bubblePass a.length) a = .ok b)
    (hlen : b.length = a.length) :
    lcBubbleSort a (a.length * SIZEOF_INT) = .ok (b, printed b) := by
  have hprint : printArray b a.length = .ok (printed b) := printArray_eq (by rw [hlen])
  unfold lcBubbleSort
  simp only [cnt_eq hmax, hpasses]
  show (printArray b a.length >>= fun out => pure (b, out)) = _
  rw [hprint]
  rfl

/-- For every array whose length is an `int`, `lc_bubble_sort` sorts it exactly if it has at
    most one element, or its last element is not greater than all others. -/
theorem lc_bubble_sort_sorts_iff {a : List Int} {cnt : Int} {size : Nat} (hcnt : a.length = cnt)
    (hmax : cnt ≤ INT_MAX) (hsize : size = a.length * SIZEOF_INT) :
    BubbleSorts a size ↔ cnt ≤ 1 ∨ ∃ i, 0 ≤ i ∧ i < cnt - 1 ∧ val a (cnt - 1) ≤ val a i := by
  subst hcnt hsize
  by_cases hlen : a.length ≤ 1
  · refine iff_of_true ?_ (.inl (by omega))
    have hnone : forRange 0 (a.length - 2) (bubblePass a.length) a = .ok a :=
      forRange_of_le (by omega)
    refine ⟨_, lcBubbleSort_eq hmax hnone rfl, .refl a, ?_⟩
    rcases a with _ | ⟨x, _ | ⟨y, a⟩⟩
    · exact .nil
    · exact List.pairwise_singleton _ x
    · simp at hlen
  · obtain ⟨b, hpasses, hb⟩ := bubblePasses_returns (a := a) (by omega)
    have hiff : b.Pairwise (· ≥ ·) ↔ LastNotAlone a :=
      (hb.sorted_iff (by omega)).trans ⟨hb.lastNotAlone (by omega), hb.first (by omega)⟩
    rw [BubbleSorts, lcBubbleSort_eq hmax hpasses hb.rearranges.length_eq, returns_ok_iff,
      and_iff_right hb.rearranges.perm, hiff]
    constructor
    · exact .inr
    · rintro (hone | hlast)
      · omega
      · exact hlast

/-- Among three elements a largest one is not the last. -/
theorem lc_bubble_sort_sorts_three : BubbleSorts [1, 3, 3] 12 :=
  (@lc_bubble_sort_sorts_iff [1, 3, 3] 3 12 rfl (by decide) (by decide)).mpr
    (.inr ⟨1, by decide, by decide, by decide⟩)

/-- Two elements are never compared. -/
theorem lc_bubble_sort_two : ¬ BubbleSorts [1, 2] 8 := by
  rintro ⟨r, hrun, -, hsorted⟩
  cases hrun
  exact absurd hsorted (by decide)

end SocketPractice.SortAlgo
