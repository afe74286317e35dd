import Mathlib.Algebra.Order.Group.Multiset
import Mathlib.Data.Multiset.Count
import Mathlib.Logic.Function.Basic

/-!
# Edge-triggered readiness

The ports of a kernel that reports arrivals once: what arrives at a watched port puts
it on the ready list, and a report takes it off, however many arrivals it stands for.
The ports count, for the proof, the arrivals that found an earlier one of the same port
unreported.

A program that makes one read for each report leaves the counted arrivals unread and
no others.
-/

namespace Lib.EdgeTriggered

variable {κ : Type} [DecidableEq κ]

/-! ## 1. Ports -/

structure Ports (κ : Type) where
  unread : κ → Nat
  watched : κ → Bool
  /-- The ready list. -/
  edge : κ → Bool
  /-- How many arrivals found an earlier one unreported. -/
  merged : κ → Nat

namespace Ports

/-- Nothing has arrived yet. -/
def new (watched : κ → Bool) : Ports κ :=
  { unread := fun _ => 0, watched := watched, edge := fun _ => false, merged := fun _ => 0 }

/-- There are arrivals that will be reported: the port is on the ready list, or will be
    when it is watched. -/
def pending (p : Ports κ) (k : κ) : Bool :=
  if p.watched k then p.edge k else decide (0 < p.unread k)

def arrive (p : Ports κ) (k : κ) : Ports κ :=
  { p with
    unread := Function.update p.unread k (p.unread k + 1)
    edge := Function.update p.edge k (p.edge k || p.watched k)
    merged := Function.update p.merged k (p.merged k + (p.pending k).toNat) }

/-- Ports that are reported leave the ready list. -/
def report (p : Ports κ) (ks : List κ) : Ports κ :=
  { p with edge := fun k => p.edge k && !decide (k ∈ ks) }

def read (p : Ports κ) (k : κ) : Ports κ :=
  { p with unread := Function.update p.unread k (p.unread k - 1) }

/-- A port that has arrivals already is ready at once. -/
def watch (p : Ports κ) (k : κ) : Ports κ :=
  { p with
    watched := Function.update p.watched k true
    edge := Function.update p.edge k (decide (0 < p.unread k)) }

variable (p : Ports κ) (k k' : κ)

@[simp] theorem unread_arrive : (p.arrive k).unread k' =
    if k' = k then p.unread k + 1 else p.unread k' := by
  simp [arrive, Function.update_apply]

@[simp] theorem merged_arrive : (p.arrive k).merged k' =
    if k' = k then p.merged k + (p.pending k).toNat else p.merged k' := by
  simp [arrive, Function.update_apply]

@[simp] theorem unread_read : (p.read k).unread k' =
    if k' = k then p.unread k - 1 else p.unread k' := by
  simp [read, Function.update_apply]

@[simp] theorem unread_watch : (p.watch k).unread = p.unread := rfl

@[simp] theorem watched_watch : (p.watch k).watched k' =
    if k' = k then true else p.watched k' := by
  simp [watch, Function.update_apply]

theorem pending_arrive : (p.arrive k).pending k' = (decide (k' = k) || p.pending k') := by
  by_cases hk : k' = k
  · subst hk
    by_cases hw : p.watched k' = true <;> simp [pending, arrive, hw]
  · simp [pending, arrive, hk]

/-- Beginning to watch a port changes nothing about what will be reported. -/
theorem pending_watch (hk : p.watched k = false) : (p.watch k).pending k' = p.pending k' := by
  by_cases hk' : k' = k
  · subst hk'
    simp [pending, watch, hk]
  · have hwatched : (p.watch k).watched k' = p.watched k' := Function.update_of_ne hk' _ _
    have hedge : (p.watch k).edge k' = p.edge k' := Function.update_of_ne hk' _ _
    rw [pending, pending, hwatched, hedge]
    rfl

theorem pending_read (hk : p.watched k = true) : (p.read k).pending k' = p.pending k' := by
  by_cases hk' : k' = k
  · subst hk'
    simp [pending, read, hk]
  · simp [pending, read, Function.update_of_ne hk']

end Ports

/-! ## 2. The account -/

/-- What was not read is about to be read, is about to be reported, or was merged into
    an earlier report; `reads` are the reads that the program owes. -/
structure Account (p : Ports κ) (reads : Multiset κ) : Prop where
  balance : ∀ k, p.unread k = reads.count k + (p.pending k).toNat + p.merged k
  edge_watched : ∀ k, p.edge k = true → p.watched k = true
  reads_watched : ∀ k ∈ reads, p.watched k = true

namespace Account

variable {p : Ports κ} {reads : Multiset κ} {k : κ}

theorem new (watched : κ → Bool) : Account (Ports.new watched) 0 where
  balance := by
    intro k
    simp [Ports.new, Ports.pending]
  edge_watched := by simp [Ports.new]
  reads_watched := by simp

theorem arrive (h : Account p reads) (k : κ) : Account (p.arrive k) reads := by
  refine ⟨?_, ?_, h.reads_watched⟩
  · intro k'
    have hbal := h.balance k'
    rw [Ports.pending_arrive, Ports.unread_arrive, Ports.merged_arrive]
    by_cases hk : k' = k
    · subst hk
      simp only [if_true, decide_true, Bool.true_or, Bool.toNat_true]
      omega
    · rw [if_neg hk, if_neg hk, decide_eq_false hk, Bool.false_or]
      exact hbal
  · intro k' hk'
    by_cases hk : k' = k
    · subst hk
      have hor : (p.edge k' || p.watched k') = true := by
        simpa [Ports.arrive] using hk'
      rcases Bool.or_eq_true_iff.mp hor with hedge | hw
      · exact h.edge_watched k' hedge
      · exact hw
    · apply h.edge_watched k'
      simpa [Ports.arrive, Function.update_of_ne hk] using hk'

/-- For each port that is reported one read is owed. -/
theorem report (h : Account p reads) {ks : List κ} (hnodup : ks.Nodup)
    (hedge : ∀ k ∈ ks, p.edge k = true) : Account (p.report ks) (ks + reads) := by
  refine ⟨?_, ?_, ?_⟩
  · intro k
    have hbal := h.balance k
    rw [Multiset.count_add, Multiset.coe_count]
    by_cases hk : k ∈ ks
    · have hw := h.edge_watched k (hedge k hk)
      rw [List.count_eq_one_of_mem hnodup hk]
      simp only [Ports.report, Ports.pending, hw, if_true, hedge k hk, hk, decide_true,
        Bool.not_true, Bool.and_false, Bool.toNat_true, Bool.toNat_false] at hbal ⊢
      omega
    · have hsame : (p.report ks).edge k = p.edge k := by
        simp [Ports.report, hk]
      have hpending : (p.report ks).pending k = p.pending k := by
        rw [Ports.pending, Ports.pending, hsame]
        rfl
      rw [List.count_eq_zero_of_not_mem hk, zero_add, hpending]
      exact hbal
  · intro k hk
    exact h.edge_watched k (Bool.and_eq_true_iff.mp hk).1
  · intro k hk
    rcases Multiset.mem_add.mp hk with hk | hk
    · exact h.edge_watched k (hedge k (Multiset.mem_coe.mp hk))
    · exact h.reads_watched k hk

/-- A read that is owed finds something. -/
theorem ready (h : Account p (k ::ₘ reads)) : 0 < p.unread k := by
  have hbal := h.balance k
  rw [Multiset.count_cons_self] at hbal
  omega

theorem read (h : Account p (k ::ₘ reads)) : Account (p.read k) reads := by
  have hw := h.reads_watched k (Multiset.mem_cons_self k reads)
  refine ⟨?_, h.edge_watched, ?_⟩
  · intro k'
    have hbal := h.balance k'
    rw [Ports.pending_read p k k' hw, Ports.unread_read]
    by_cases hk : k' = k
    · subst hk
      rw [Multiset.count_cons_self] at hbal
      rw [if_pos rfl, hbal]
      show _ = Multiset.count k' reads + (p.pending k').toNat + p.merged k'
      omega
    · rw [Multiset.count_cons_of_ne hk] at hbal
      rw [if_neg hk]
      exact hbal
  · exact fun k' hk' => h.reads_watched k' (Multiset.mem_cons_of_mem hk')

theorem watch (h : Account p reads) (hk : p.watched k = false) : Account (p.watch k) reads := by
  have hwatch : ∀ k', p.watched k' = true → (p.watch k).watched k' = true := by
    intro k' hk'
    rw [Ports.watched_watch]
    split
    · rfl
    · exact hk'
  refine ⟨?_, ?_, fun k' hk' => hwatch k' (h.reads_watched k' hk')⟩
  · intro k'
    rw [Ports.pending_watch p k k' hk]
    exact h.balance k'
  · intro k' hk'
    by_cases heq : k' = k
    · subst heq
      simp
    · apply hwatch
      apply h.edge_watched
      simpa [Ports.watch, Function.update_of_ne heq] using hk'

/-- When nothing is ready and no read is owed, what is unread at a watched port is what
    was merged. -/
theorem unread_eq_merged (h : Account p 0) (hquiet : ∀ k, p.edge k = false)
    (hk : p.watched k = true) : p.unread k = p.merged k := by
  have hbal := h.balance k
  simpa [Ports.pending, hk, hquiet k] using hbal

end Account

/-- After an arrival nothing is merged on some ports exactly if nothing was, and what
    arrived at one of them found nothing unreported. -/
theorem merged_arrive_iff (p : Ports κ) (k : κ) (q : κ → Prop) :
    (∀ k', q k' → (p.arrive k).merged k' = 0) ↔
      (∀ k', q k' → p.merged k' = 0) ∧ (q k → p.pending k = false) := by
  constructor
  · intro h
    constructor
    · intro k' hq
      have hk' := h k' hq
      rw [Ports.merged_arrive] at hk'
      split at hk'
      · rename_i heq
        rw [heq]
        exact Nat.eq_zero_of_add_eq_zero_right hk'
      · exact hk'
    · intro hq
      have hk := h k hq
      rw [Ports.merged_arrive, if_pos rfl] at hk
      simpa using Nat.eq_zero_of_add_eq_zero_left hk
  · rintro ⟨hmerged, hpending⟩ k' hq
    rw [Ports.merged_arrive]
    split
    · rename_i heq
      subst heq
      simp [hmerged k' hq, hpending hq]
    · exact hmerged k' hq

end Lib.EdgeTriggered
