import Mathlib.Algebra.Order.BigOperators.Group.List
import Mathlib.Algebra.Order.Ring.Int
import Mathlib.Algebra.Order.Ring.Nat
import SocketPractice.Lib.CArray

/-!
# Sorting by ranges

An array is sorted up to a list of pending ranges when any two elements are in order
unless both lie in one of the ranges.  Rearranging the elements of one range cannot
disturb that, so a range may be replaced by smaller ranges that it has been split into.
When no range is pending the array is sorted.  What lies in none of the ranges is settled:
work inside the ranges does not change it any more.
-/

namespace Lib.RangeSort

open Lib.While Lib.CArray

/-! ## 1. Ranges -/

/-- The positions from `start` to `stop`, both included. -/
structure Range where
  start : Int
  stop : Int
deriving DecidableEq, Repr

def width (r : Range) : Nat := (r.stop - r.start + 1).toNat

def total (ranges : List Range) : Nat := (ranges.map width).sum

/-- A measure that a range of one element lowers by going away, and a longer one by
    being split. -/
def weight (ranges : List Range) : Nat :=
  (ranges.map fun r => (2 * (r.stop - r.start) + 1).toNat).sum

def Apart (r q : Range) : Prop := r.stop < q.start ∨ q.stop < r.start

/-- The parts below and above that have at least two positions. -/
def parts (s l r e : Int) : List Range :=
  (if r < e then [⟨r, e⟩] else []) ++ if s < l then [⟨s, l⟩] else []

/-- The parts go onto a stack in an array of `cap` entries. -/
def pushParts (cap : Nat) (s l r e : Int) (stack : List Range) : Outcome (List Range) := do
  let stack ← if s < l then push cap ⟨s, l⟩ stack else pure stack
  if r < e then push cap ⟨r, e⟩ stack else pure stack

section Ranges

variable {ranges rest : List Range} {s l r e : Int}

@[simp] theorem total_cons (q : Range) : total (q :: ranges) = width q + total ranges := by
  simp [total]

@[simp] theorem total_append : total (ranges ++ rest) = total ranges + total rest := by
  simp [total]

@[simp] theorem weight_cons (q : Range) :
    weight (q :: ranges) = (2 * (q.stop - q.start) + 1).toNat + weight ranges := by
  simp [weight]

@[simp] theorem weight_append : weight (ranges ++ rest) = weight ranges + weight rest := by
  simp [weight]

/-- Every range of at least `n` positions takes as many of the total. -/
theorem length_mul_le_total {n : Nat} (h : ∀ q ∈ ranges, n ≤ width q) :
    ranges.length * n ≤ total ranges := by
  have hsum := List.card_nsmul_le_sum (ranges.map width) n (by simpa using h)
  rwa [List.length_map, Nat.nsmul_eq_mul] at hsum

theorem length_le_total (h : ∀ q ∈ ranges, q.start ≤ q.stop) : ranges.length ≤ total ranges := by
  have hwidth : ∀ q ∈ ranges, 1 ≤ width q := by
    intro q hq
    have hle := h q hq
    unfold width
    omega
  simpa using length_mul_le_total hwidth

theorem mem_parts {q : Range} (hq : q ∈ parts s l r e) :
    q = ⟨r, e⟩ ∧ r < e ∨ q = ⟨s, l⟩ ∧ s < l := by
  simp only [parts, List.mem_append, List.mem_ite_nil_right, List.mem_singleton] at hq
  exact hq.imp And.symm And.symm

theorem lt_of_mem_parts {q : Range} (hq : q ∈ parts s l r e) : q.start < q.stop := by
  rcases mem_parts hq with ⟨rfl, hlt⟩ | ⟨rfl, hlt⟩
  · exact hlt
  · exact hlt

theorem total_parts_le (hlr : l < r) (hsr : s ≤ r) (hle : l ≤ e) :
    total (parts s l r e) ≤ width ⟨s, e⟩ := by
  unfold parts
  split <;> split <;> simp [total, width] <;> omega

/-- Two proper parts weigh less than the whole. -/
theorem weight_parts_lt (hse : s < e) (hlr : l < r) (hsr : s < r) (hle : l < e) :
    weight (parts s l r e) < (2 * (e - s) + 1).toNat := by
  unfold parts
  split <;> split <;> simp [weight] <;> omega

/-- A whole array takes less rounds than twice its length. -/
theorem weight_whole {n : Nat} (hn : 0 < n) : weight [⟨0, (n : Int) - 1⟩] < 2 * n := by
  simp [weight]
  omega

theorem apart_parts (hlr : l < r) : (parts s l r e).Pairwise Apart := by
  unfold parts
  split <;> split <;> simp [Apart, hlr]

theorem pushParts_eq {cap : Nat} {stack : List Range}
    (hcap : (parts s l r e ++ stack).length ≤ cap) :
    pushParts cap s l r e stack = .ok (parts s l r e ++ stack) := by
  unfold pushParts parts at *
  by_cases hsl : s < l
  · by_cases hre : r < e
    · simp only [hsl, hre, if_true, List.length_append, List.length_singleton] at hcap ⊢
      rw [push, if_pos (by omega)]
      exact if_pos (by simp; omega)
    · simp only [hsl, hre, if_true, if_false, List.length_append, List.length_singleton,
        List.length_nil] at hcap ⊢
      rw [push, if_pos (by omega)]
      rfl
  · by_cases hre : r < e
    · simp only [hsl, hre, if_true, if_false, List.length_append, List.length_singleton,
        List.length_nil] at hcap ⊢
      exact if_pos (by omega)
    · simp only [hsl, hre, if_false]
      rfl

end Ranges

/-! ## 2. Arrays with pending ranges -/

variable {α : Type} [Inhabited α]

/-- Any two positions from `s` to `e` are in order or lie in one of the ranges. -/
def Pending [LE α] (s e : Int) (ranges : List Range) (a : List α) : Prop :=
  ∀ i j, s ≤ i → i < j → j ≤ e → val a i ≤ val a j ∨ ∃ q ∈ ranges, q.start ≤ i ∧ j ≤ q.stop

/-- The ranges are apart from each other, and nothing else is left to sort. -/
structure PartlySorted [LE α] (ranges : List Range) (a : List α) : Prop where
  pending : Pending 0 (a.length - 1) ranges a
  apart : ranges.Pairwise Apart
  inside : ∀ q ∈ ranges, 0 ≤ q.start ∧ q.start ≤ q.stop ∧ q.stop < a.length
  total_le : total ranges ≤ a.length

/-- What is left to sort from `s` to `e`. -/
structure Splits [LE α] (s e : Int) (ranges : List Range) (a : List α) : Prop where
  pending : Pending s e ranges a
  apart : ranges.Pairwise Apart
  inside : ∀ q ∈ ranges, s ≤ q.start ∧ q.start ≤ q.stop ∧ q.stop ≤ e
  total_le : total ranges ≤ width ⟨s, e⟩

section PartlySorted

variable [Preorder α] {ranges rest : List Range} {a b : List α} {s l r e : Int}

/-- What does not exceed a bound below and does above leaves two parts to sort. -/
theorem splits_parts (hlr : l < r) (hsr : s ≤ r) (hle : l ≤ e)
    (hval : ∀ i j, s ≤ i → i < r → i < j → l < j → j ≤ e → val a i ≤ val a j) :
    Splits s e (parts s l r e) a := by
  refine ⟨?_, apart_parts hlr, ?_, total_parts_le hlr hsr hle⟩
  · intro i j hi hij hj
    by_cases hir : i < r
    · by_cases hlj : l < j
      · exact .inl (hval i j hi hir hij hlj hj)
      · refine .inr ⟨⟨s, l⟩, ?_, hi, Int.not_lt.mp hlj⟩
        simp [parts, show s < l by omega]
    · refine .inr ⟨⟨r, e⟩, ?_, Int.not_lt.mp hir, hj⟩
      simp [parts, show r < e by omega]
  · intro q hq
    rcases mem_parts hq with ⟨rfl, hlt⟩ | ⟨rfl, hlt⟩
    · exact ⟨hsr, hlt.le, Int.le_refl e⟩
    · exact ⟨Int.le_refl s, hlt.le, hle⟩

theorem Splits.within (h : Splits s e ranges a) : ∀ q ∈ ranges, s ≤ q.start ∧ q.stop ≤ e := by
  intro q hq
  obtain ⟨hs, -, he⟩ := h.inside q hq
  exact ⟨hs, he⟩

/-- One position is sorted. -/
theorem splits_nil (hes : e ≤ s) : Splits s e [] a := by
  refine ⟨?_, .nil, ?_, Nat.zero_le _⟩
  · intro i j hi hij hj
    omega
  · intro q hq
    cases hq

theorem partlySorted_whole (ha : a ≠ []) : PartlySorted [⟨0, a.length - 1⟩] a := by
  have hpos : 0 < a.length := List.length_pos_iff.mpr ha
  refine ⟨?_, List.pairwise_singleton _ _, ?_, ?_⟩
  · intro i j hi hij hj
    exact .inr ⟨_, List.mem_singleton_self _, hi, hj⟩
  · intro q hq
    rw [List.mem_singleton.mp hq]
    simp only [Int.le_refl, true_and]
    omega
  · simp [total, width]

/-- A position in one of two ranges that are apart is not in the other. -/
theorem Apart.notMem {q : Range} (h : Apart ⟨s, e⟩ q) {p : Int} (hs : s ≤ p) (he : p ≤ e) :
    ¬ (q.start ≤ p ∧ p ≤ q.stop) := by
  simp only [Apart] at h
  omega

/-- The pairs with one place in the range are in order still: none of them was pending. -/
theorem PartlySorted.pending_replace (h : PartlySorted (⟨s, e⟩ :: rest) a)
    (hab : Rearranges (within s e) a b) (hsplit : Pending s e ranges b) :
    Pending 0 (b.length - 1) (ranges ++ rest) b := by
  obtain ⟨hapart, -⟩ := List.pairwise_cons.mp h.apart
  obtain ⟨hs, hse, he⟩ : 0 ≤ s ∧ s ≤ e ∧ e < a.length := h.inside ⟨s, e⟩ List.mem_cons_self
  have hlen := hab.length_eq
  -- the two places of a pair were pending before, or in order
  have hold : ∀ i j : Int, 0 ≤ i → i < j → j < a.length →
      val a i ≤ val a j ∨ (s ≤ i ∧ j ≤ e) ∨ ∃ q ∈ rest, q.start ≤ i ∧ j ≤ q.stop := by
    intro i j hi hij hj
    rcases h.pending i j hi hij (by omega) with hle | ⟨q, hq, hqi, hqj⟩
    · exact .inl hle
    · rcases List.mem_cons.mp hq with rfl | hq
      · exact .inr (.inl ⟨hqi, hqj⟩)
      · exact .inr (.inr ⟨q, hq, hqi, hqj⟩)
  intro i j hi hij hj
  rw [hlen] at hj
  by_cases hiin : s ≤ i ∧ i ≤ e
  · by_cases hjin : j ≤ e
    · rcases hsplit i j hiin.1 hij hjin with hle | ⟨q, hq, hqi, hqj⟩
      · exact .inl hle
      · exact .inr ⟨q, List.mem_append_left rest hq, hqi, hqj⟩
    · obtain ⟨k, hsk, hke, hval⟩ := hab.inside hiin.1 hiin.2
      rw [hval, hab.outside (.inr (by omega))]
      rcases hold k j (by omega) (by omega) (by omega) with hle | hin | ⟨q, hq, hqk, hqj⟩
      · exact .inl hle
      · omega
      · exact absurd ⟨hqk, by omega⟩ ((hapart q hq).notMem hsk hke)
  · rw [hab.outside (by omega)]
    by_cases hjin : s ≤ j ∧ j ≤ e
    · obtain ⟨k, hsk, hke, hval⟩ := hab.inside hjin.1 hjin.2
      rw [hval]
      rcases hold i k hi (by omega) (by omega) with hle | hin | ⟨q, hq, hqi, hqk⟩
      · exact .inl hle
      · omega
      · exact absurd ⟨by omega, hqk⟩ ((hapart q hq).notMem hsk hke)
    · rw [hab.outside (by omega)]
      rcases hold i j hi hij (by omega) with hle | hin | ⟨q, hq, hqi, hqj⟩
      · exact .inl hle
      · omega
      · exact .inr ⟨q, List.mem_append_right ranges hq, hqi, hqj⟩

/-- The elements of one range are rearranged, and smaller ranges are left of it. -/
theorem PartlySorted.replace (h : PartlySorted (⟨s, e⟩ :: rest) a)
    (hab : Rearranges (within s e) a b) (hsplit : Splits s e ranges b) :
    PartlySorted (ranges ++ rest) b := by
  obtain ⟨hapart, hrest⟩ := List.pairwise_cons.mp h.apart
  obtain ⟨hs, hse, he⟩ : 0 ≤ s ∧ s ≤ e ∧ e < a.length := h.inside ⟨s, e⟩ List.mem_cons_self
  have hlen := hab.length_eq
  refine ⟨h.pending_replace hab hsplit.pending, ?_, ?_, ?_⟩
  · rw [List.pairwise_append]
    refine ⟨hsplit.apart, hrest, ?_⟩
    intro p hp q hq
    have hin := hsplit.inside p hp
    have hpq := hapart q hq
    simp only [Apart] at hpq ⊢
    omega
  · intro q hq
    rw [hlen]
    rcases List.mem_append.mp hq with hq | hq
    · have hin := hsplit.inside q hq
      omega
    · exact h.inside q (List.mem_cons_of_mem _ hq)
  · have hle := h.total_le
    have hparts := hsplit.total_le
    rw [total_cons] at hle
    rw [total_append, hlen]
    omega

/-- There are never more pending ranges than elements. -/
theorem PartlySorted.length_le (h : PartlySorted ranges a) : ranges.length ≤ a.length :=
  (length_le_total fun q hq => (h.inside q hq).2.1).trans h.total_le

/-- There are never more than half as many, if each has at least two. -/
theorem PartlySorted.two_mul_length_le (h : PartlySorted ranges a)
    (htwo : ∀ q ∈ ranges, q.start < q.stop) : ranges.length * 2 ≤ a.length := by
  have hwidth : ∀ q ∈ ranges, 2 ≤ width q := by
    intro q hq
    have hlt := htwo q hq
    unfold width
    omega
  exact (length_mul_le_total hwidth).trans h.total_le

/-- So a stack for as many ranges as there are elements has room. -/
theorem PartlySorted.pushParts_eq {n : Nat}
    (h : PartlySorted (parts s l r e ++ rest) a) (hn : a.length = n) :
    pushParts (n : Int).toNat s l r e rest = .ok (parts s l r e ++ rest) := by
  apply RangeSort.pushParts_eq
  rw [Int.toNat_natCast, ← hn]
  exact h.length_le

theorem PartlySorted.sorted (h : PartlySorted [] a) : a.Pairwise (· ≤ ·) := by
  rw [List.pairwise_iff_getElem]
  intro i j hi hj hij
  rcases h.pending i j (by omega) (by omega) (by omega) with hle | ⟨q, hq, -⟩
  · rwa [val_natCast a hi, val_natCast a hj] at hle
  · cases hq

end PartlySorted

/-! ## 3. What is settled -/

/-- Outside the ranges the elements are those of `b` already. -/
def Settled (b : List α) (ranges : List Range) (a : List α) : Prop :=
  ∀ p, (∀ q ∈ ranges, ¬ (q.start ≤ p ∧ p ≤ q.stop)) → val a p = val b p

/-- Work inside the ranges of `a` has left `b`, with ranges inside these. -/
structure Narrows (ranges : List Range) (a : List α) (ranges' : List Range) (b : List α) :
    Prop where
  inside : ∀ q ∈ ranges', ∃ r ∈ ranges, r.start ≤ q.start ∧ q.stop ≤ r.stop
  settled : Settled b ranges a

section Narrows

variable {ranges ranges' ranges'' rest : List Range} {a b c : List α} {s e : Int}

theorem Narrows.refl (ranges : List Range) (a : List α) : Narrows ranges a ranges a :=
  ⟨fun q hq => ⟨q, hq, Int.le_refl _, Int.le_refl _⟩, fun _ _ => rfl⟩

/-- What lies outside the ranges lies outside those that they become. -/
theorem Narrows.trans (hab : Narrows ranges a ranges' b) (hbc : Narrows ranges' b ranges'' c) :
    Narrows ranges a ranges'' c := by
  constructor
  · intro q hq
    obtain ⟨r, hr, hrq, hqr⟩ := hbc.inside q hq
    obtain ⟨t, ht, htr, hrt⟩ := hab.inside r hr
    exact ⟨t, ht, by omega, by omega⟩
  · intro p hp
    rw [hab.settled p hp]
    apply hbc.settled p
    intro r hr hin
    obtain ⟨t, ht, htr, hrt⟩ := hab.inside r hr
    exact hp t ht ⟨by omega, by omega⟩

/-- The elements of one range are rearranged. -/
theorem settled_of_rearranges (hab : Rearranges (within s e) a b) :
    Settled b (⟨s, e⟩ :: rest) a := by
  intro p hp
  have hout := hp ⟨s, e⟩ List.mem_cons_self
  simp only at hout
  rw [hab.outside (by omega)]

/-- They are, and smaller ranges take its place. -/
theorem Narrows.replace (hab : Rearranges (within s e) a b)
    (hin : ∀ q ∈ ranges, s ≤ q.start ∧ q.stop ≤ e) :
    Narrows (⟨s, e⟩ :: rest) a (ranges ++ rest) b := by
  constructor
  · intro q hq
    rcases List.mem_append.mp hq with hq | hq
    · exact ⟨⟨s, e⟩, List.mem_cons_self, hin q hq⟩
    · exact ⟨q, List.mem_cons_of_mem _ hq, Int.le_refl _, Int.le_refl _⟩
  · exact settled_of_rearranges hab

end Narrows

end Lib.RangeSort
