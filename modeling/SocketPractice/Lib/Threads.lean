import Mathlib.Algebra.BigOperators.Group.Finset.Basic
import Mathlib.Algebra.Order.BigOperators.Group.Finset
import Mathlib.Algebra.Order.Group.Multiset

/-!
# Threads with program counters

A family of threads is a function from thread identities to program counters.
Two notions are carried along by the steps of such a family: that the threads
inside a critical section are those that own the mutex, and, for finitely many
threads, the multiset of the items that the threads hold at their program
counters.
-/

namespace Lib.Threads

variable {ι π τ α : Type}

/-! ## 1. Mutual exclusion -/

/-- A thread is inside its critical section if and only if it owns the mutex;
    `tag` is its identity among all threads that use the mutex. -/
def Excl (mutex : Option τ) (tag : ι → τ) (inside : π → Bool) (pcs : ι → π) : Prop :=
  ∀ i, inside (pcs i) = true ↔ mutex = some (tag i)

namespace Excl

variable {mutex : Option τ} {tag : ι → τ} {inside : π → Bool} {pcs : ι → π}

/-- Steps that leave and enter no critical section. -/
theorem congr (h : Excl mutex tag inside pcs) {pcs' : ι → π}
    (hsame : ∀ i, inside (pcs' i) = inside (pcs i)) : Excl mutex tag inside pcs' := by
  intro i
  rw [hsame]
  exact h i

theorem outside (h : Excl none tag inside pcs) (i : ι) : inside (pcs i) = false := by
  have hi := h i
  simpa using hi

/-- A thread of another family takes or releases the mutex. -/
theorem of_other {mutex' : Option τ} (h : Excl mutex tag inside pcs)
    (hbefore : ∀ i, mutex ≠ some (tag i)) (hafter : ∀ i, mutex' ≠ some (tag i)) :
    Excl mutex' tag inside pcs := by
  intro i
  rw [h i]
  simp [hbefore i, hafter i]

variable [DecidableEq ι]

theorem stay (h : Excl mutex tag inside pcs) {i : ι} {x : π}
    (hx : inside x = inside (pcs i)) : Excl mutex tag inside (Function.update pcs i x) := by
  apply h.congr
  intro j
  by_cases hj : j = i
  · subst hj
    rw [Function.update_self, hx]
  · rw [Function.update_of_ne hj]

theorem lock (h : Excl none tag inside pcs) (htag : Function.Injective tag) {i : ι} {x : π}
    (hx : inside x = true) : Excl (some (tag i)) tag inside (Function.update pcs i x) := by
  intro j
  by_cases hj : j = i
  · subst hj
    rw [Function.update_self, hx]
    simp
  · rw [Function.update_of_ne hj, h.outside j]
    simp [htag.eq_iff, Ne.symm hj]

theorem unlock {i : ι} (h : Excl (some (tag i)) tag inside pcs) (htag : Function.Injective tag)
    {x : π} (hx : inside x = false) : Excl none tag inside (Function.update pcs i x) := by
  intro j
  by_cases hj : j = i
  · subst hj
    rw [Function.update_self, hx]
    simp
  · rw [Function.update_of_ne hj, h j]
    simp [htag.eq_iff, Ne.symm hj]

end Excl

/-! ## 2. What the threads hold -/

/-- A sum over the positions of some threads, when one of them moves. -/
theorem sum_update {M : Type} [AddCommMonoid M] [DecidableEq ι] {s : Finset ι} (rank : π → M)
    (pcs : ι → π) {i : ι} (hi : i ∈ s) (x : π) :
    ∑ j ∈ s, rank (Function.update pcs i x j) + rank (pcs i) = ∑ j ∈ s, rank (pcs j) + rank x := by
  have hrest : ∑ j ∈ s.erase i, rank (Function.update pcs i x j) =
      ∑ j ∈ s.erase i, rank (pcs j) := by
    apply Finset.sum_congr rfl
    intro j hj
    rw [Function.update_of_ne (Finset.ne_of_mem_erase hj)]
  rw [← Finset.add_sum_erase s (fun j => rank (Function.update pcs i x j)) hi,
    ← Finset.add_sum_erase s (fun j => rank (pcs j)) hi, hrest, Function.update_self,
    add_right_comm, add_comm (rank x), add_assoc, add_assoc, add_comm (rank x)]

section Held

variable [Fintype ι]

/-- The items that the threads hold at their program counters. -/
def held (items : π → Multiset α) (pcs : ι → π) : Multiset α := ∑ i, items (pcs i)

theorem mem_held {items : π → Multiset α} {pcs : ι → π} {a : α} :
    a ∈ held items pcs ↔ ∃ i, a ∈ items (pcs i) := by
  rw [held, Multiset.mem_sum]
  simp only [Finset.mem_univ, true_and]

theorem held_congr {items : π → Multiset α} {pcs pcs' : ι → π}
    (h : ∀ i, items (pcs' i) = items (pcs i)) : held items pcs' = held items pcs :=
  Finset.sum_congr rfl fun i _ => h i

variable [DecidableEq ι]

theorem held_eq_add (items : π → Multiset α) (pcs : ι → π) (i : ι) :
    held items pcs = items (pcs i) + ∑ j ∈ Finset.univ.erase i, items (pcs j) :=
  (Finset.add_sum_erase _ _ (Finset.mem_univ i)).symm

/-- A thread that moves exchanges the items of its old position for those of its
    new one. -/
theorem held_update (items : π → Multiset α) (pcs : ι → π) (i : ι) (x : π) :
    held items (Function.update pcs i x) + items (pcs i) = held items pcs + items x :=
  sum_update items pcs (Finset.mem_univ i) x

theorem held_update_same {items : π → Multiset α} {pcs : ι → π} {i : ι} {x : π}
    (hx : items x = items (pcs i)) : held items (Function.update pcs i x) = held items pcs := by
  have h := held_update items pcs i x
  rw [hx] at h
  exact Multiset.add_left_inj.mp h

theorem le_held (items : π → Multiset α) (pcs : ι → π) (i : ι) :
    items (pcs i) ≤ held items pcs := by
  rw [held_eq_add items pcs i]
  exact Multiset.le_add_right _ _

theorem add_le_held (items : π → Multiset α) (pcs : ι → π) {i j : ι} (hij : i ≠ j) :
    items (pcs i) + items (pcs j) ≤ held items pcs := by
  rw [held_eq_add items pcs i]
  have hmem : j ∈ Finset.univ.erase i := Finset.mem_erase.mpr ⟨hij.symm, Finset.mem_univ j⟩
  have hrest := Finset.single_le_sum (f := fun k => items (pcs k))
    (fun _ _ => Multiset.zero_le _) hmem
  exact add_le_add le_rfl hrest

end Held

end Lib.Threads
