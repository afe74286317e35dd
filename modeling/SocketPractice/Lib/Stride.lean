import Mathlib.Algebra.Order.Ring.Int
import Mathlib.Data.Int.Interval
import SocketPractice.Lib.CArray

/-!
# Arrays in order at a stride

An array is descending at the stride `k` when every element is at most the one `k` places
before it.  Sorting at one stride `h` keeps the order at every other stride `k`, whatever
the two have to do with each other: if an element were too large for the place `k` before
it, the elements of its class modulo `h` that are at least as large would be too many for
the places they came from.
-/

namespace Lib.Stride

open Lib.CArray

/-! ## 1. Strides -/

variable {α : Type} [Inhabited α]

def DescendingAt [LE α] (k : Int) (a : List α) : Prop :=
  ∀ p, k ≤ p → p < a.length → val a p ≤ val a (p - k)

/-- The positions of an array of length `n` that have one remainder modulo `h` are one
    class. -/
def strided (n h p : Int) : Int ⊕ Int := if 0 ≤ p ∧ p < n then .inl (p % h) else .inr p

section Strided

variable {n h p q : Int}

theorem strided_eq_iff (hp : 0 ≤ p) (hpn : p < n) :
    strided n h q = strided n h p ↔ 0 ≤ q ∧ q < n ∧ q % h = p % h := by
  rw [strided, strided, if_pos (⟨hp, hpn⟩ : 0 ≤ p ∧ p < n)]
  by_cases hq : 0 ≤ q ∧ q < n
  · rw [if_pos hq, Sum.inl.injEq]
    exact ⟨fun heq => ⟨hq.1, hq.2, heq⟩, fun h => h.2.2⟩
  · rw [if_neg hq]
    exact iff_of_false (by simp) fun h => hq ⟨h.1, h.2.1⟩

/-- What is moved inside the classes also comes from its own class. -/
theorem mem_of_strided_symm {σ : Equiv.Perm Int} (hσ : ∀ q, strided n h (σ q) = strided n h q)
    (hq : 0 ≤ q) (hqn : q < n) : 0 ≤ σ.symm q ∧ σ.symm q < n ∧ σ.symm q % h = q % h := by
  apply (strided_eq_iff hq hqn).mp
  rw [← hσ, Equiv.apply_symm_apply]

end Strided

variable [Preorder α] {a b : List α} {h k p q : Int}

/-- Descending at a stride is descending along its classes. -/
theorem DescendingAt.le_of_emod_eq (hb : DescendingAt h b) (hh : 0 < h) (hp : 0 ≤ p)
    (hpq : p ≤ q) (hq : q < b.length) (hmod : q % h = p % h) : val b q ≤ val b p := by
  obtain ⟨m, hm⟩ : ∃ m : Nat, q = p + h * m := by
    have hdvd : h ∣ q - p := Int.dvd_of_emod_eq_zero (Int.emod_eq_emod_iff_emod_sub_eq_zero.mp hmod)
    obtain ⟨c, hc⟩ := hdvd
    have hnonneg : 0 ≤ c := by
      by_contra hneg
      have := Int.mul_neg_of_pos_of_neg hh (Int.not_le.mp hneg)
      omega
    obtain ⟨m, rfl⟩ := Int.eq_ofNat_of_zero_le hnonneg
    exact ⟨m, by omega⟩
  clear hmod hpq
  induction m generalizing q with
  | zero =>
      subst hm
      simp
  | succ m ih =>
      have hmul : h * ((m + 1 : Nat) : Int) = h * m + h := by
        rw [Int.natCast_succ, Int.mul_add, Int.mul_one]
      have hnonneg : 0 ≤ h * (m : Int) := Int.mul_nonneg hh.le (Int.natCast_nonneg m)
      have hstep := hb q (by omega) hq
      exact hstep.trans (ih (q := q - h) (by omega) (by omega))

/-! ## 2. Sorting at one stride keeps another

`σ` says where the elements of `b` come from.  If the element at `p` were too large for the
one `k` places before it, every position of the class of `p` up to `p` would have its own
follower among those before `p`. -/

/-- The positions of the class of `p` up to `p`. -/
def classTo (h p : Int) : Set Int := {q | (0 ≤ q ∧ q ≤ p) ∧ q % h = p % h}

/-- Where the element at `q` comes from, if that is below `k`; otherwise `k` places behind
    where its partner, `k` places before it, has gone. -/
def follower (σ : Equiv.Perm Int) (k q : Int) : Int :=
  if σ q < k then σ q else σ.symm (σ q - k) + k

theorem finite_classTo (h p : Int) : (classTo h p).Finite :=
  (Set.finite_Icc 0 p).subset fun _ hq => hq.1

section Followers

variable {σ : Equiv.Perm Int} (hσ : ∀ q, strided a.length h (σ q) = strided a.length h q)

variable (hval : ∀ q, val b q = val a (σ q)) (hlen : b.length = a.length) (hh : 0 < h)
  (hk : 0 ≤ k) (ha : DescendingAt k a) (hb : DescendingAt h b) (hkp : k ≤ p)
  (hp : p < a.length) (hnot : ¬ val b p ≤ val b (p - k))

include hσ hval hlen hh hk ha hb hkp hp hnot

/-- A partner is as large as the element at `p`, so it does not stand behind `p - k`. -/
theorem partner_lt (hq : q ∈ classTo h p) (hge : ¬ σ q < k) :
    0 ≤ σ.symm (σ q - k) ∧ σ.symm (σ q - k) + k < p ∧
      (σ.symm (σ q - k) + k) % h = p % h := by
  obtain ⟨⟨hq0, hqp⟩, hqmod⟩ := hq
  obtain ⟨hs0, hsn, hsmod⟩ := (strided_eq_iff hq0 (by omega)).mp (hσ q)
  obtain ⟨hr0, hrn, hrmod⟩ :=
    mem_of_strided_symm hσ (by omega : 0 ≤ σ q - k) (by omega)
  have hmod : σ.symm (σ q - k) % h = (p - k) % h := by
    rw [hrmod, Int.sub_emod, hsmod, hqmod, ← Int.sub_emod]
  have hlarge : val b p ≤ val b (σ.symm (σ q - k)) := by
    calc val b p ≤ val b q := hb.le_of_emod_eq hh hq0 hqp (by omega) hqmod.symm
      _ = val a (σ q) := hval q
      _ ≤ val a (σ q - k) := ha (σ q) (by omega) hsn
      _ = val b (σ.symm (σ q - k)) := by rw [hval, Equiv.apply_symm_apply]
  refine ⟨hr0, ?_, ?_⟩
  · by_contra hbehind
    exact hnot (hlarge.trans (hb.le_of_emod_eq hh (by omega) (by omega) (by omega) hmod))
  · rw [Int.add_emod, hmod, ← Int.add_emod, Int.sub_add_cancel]

theorem follower_mem (hq : q ∈ classTo h p) :
    follower σ k q ∈ classTo h p ∧ follower σ k q ≠ p := by
  rw [follower]
  by_cases hlt : σ q < k
  · obtain ⟨⟨hq0, hqp⟩, hqmod⟩ := hq
    obtain ⟨hs0, -, hsmod⟩ := (strided_eq_iff hq0 (by omega)).mp (hσ q)
    rw [if_pos hlt]
    exact ⟨⟨⟨hs0, by omega⟩, hsmod.trans hqmod⟩, by omega⟩
  · obtain ⟨hr0, hrp, hrmod⟩ := partner_lt hσ hval hlen hh hk ha hb hkp hp hnot hq hlt
    rw [if_neg hlt]
    exact ⟨⟨⟨by omega, by omega⟩, hrmod⟩, by omega⟩

theorem follower_injOn : Set.InjOn (follower σ k) (classTo h p) := by
  intro x hx y hy heq
  have hpartner : ∀ q ∈ classTo h p, ¬ σ q < k → 0 ≤ σ.symm (σ q - k) := fun q hq hge =>
    (partner_lt hσ hval hlen hh hk ha hb hkp hp hnot hq hge).1
  simp only [follower] at heq
  by_cases hlx : σ x < k
  · by_cases hly : σ y < k
    · rw [if_pos hlx, if_pos hly] at heq
      exact σ.injective heq
    · rw [if_pos hlx, if_neg hly] at heq
      have := hpartner y hy hly
      omega
  · by_cases hly : σ y < k
    · rw [if_neg hlx, if_pos hly] at heq
      have := hpartner x hx hlx
      omega
    · rw [if_neg hlx, if_neg hly] at heq
      have hback : σ.symm (σ x - k) = σ.symm (σ y - k) := by omega
      have hsame : σ x - k = σ y - k := σ.symm.injective hback
      exact σ.injective (by omega)

end Followers

/-- Elements are moved inside the classes modulo `h` until the array is descending at the
    stride `h`: it stays descending at the stride `k`. -/
theorem DescendingAt.of_rearranges (ha : DescendingAt k a) (hk : 0 ≤ k) (hh : 0 < h)
    (hab : Rearranges (strided a.length h) a b) (hb : DescendingAt h b) : DescendingAt k b := by
  intro p hkp hp
  by_contra hnot
  have hlen := hab.length_eq
  rw [hlen] at hp
  obtain ⟨σ, hσ, hval⟩ := hab.places
  have hmem : ∀ q ∈ classTo h p, follower σ k q ∈ classTo h p ∧ follower σ k q ≠ p :=
    fun q hq => follower_mem hσ hval hlen hh hk ha hb hkp hp hnot hq
  have hbij : Set.BijOn (follower σ k) (classTo h p) (classTo h p) :=
    ((finite_classTo h p).injOn_iff_bijOn_of_mapsTo fun q hq => (hmem q hq).1).mp
      (follower_injOn hσ hval hlen hh hk ha hb hkp hp hnot)
  have hself : p ∈ classTo h p := ⟨⟨by omega, Int.le_refl p⟩, rfl⟩
  obtain ⟨q, hq, hqp⟩ := hbij.surjOn hself
  exact (hmem q hq).2 hqp

/-- Descending at the stride 1 is descending. -/
theorem DescendingAt.pairwise (ha : DescendingAt 1 a) : a.Pairwise (· ≥ ·) := by
  rw [List.pairwise_iff_getElem]
  intro i j hi hj hij
  rw [← val_natCast a hi, ← val_natCast a hj]
  exact ha.le_of_emod_eq Int.one_pos (by omega) (by omega) (by omega) (by simp)

end Lib.Stride
