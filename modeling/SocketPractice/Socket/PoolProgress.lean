import SocketPractice.Lib.Accounts
import SocketPractice.Socket.ThreadPoolInv

/-!
# The thread pool gets its tasks done (`thread_pool.c`)

A worker that finds the queue empty gives the mutex up and waits in one step, and an add
call broadcasts before it gives the mutex up.  So no wake-up is lost: while a task is
queued, some worker does not wait, or the add call that is to broadcast has the mutex.

From there the tasks get done.  If no call is made any more and every handler returns, the
threads can take only a bounded number of steps, in whatever order, and when none of them
can take one, all tasks are finished; no wake-up without a broadcast is needed for it.
-/

namespace SocketPractice.Socket

open Lib.Accounts Lib.Links Lib.Runs Lib.Threads Common
open Lib.Memory (Store)

/-! ## 1. No wake-up is lost -/

/-- The add call has changed the queue and not broadcast yet. -/
def CallerPc.signals : CallerPc → Bool
  | .enqueued => true
  | .counted => true
  | _ => false

variable {n : Nat}

/-- What keeps the pool going, next to `PoolInv`; the callers with a call are below
    `limit`. -/
structure Going (limit : Nat) (s : PoolState n) (queued : List Job) : Prop where
  /-- `malloc` can find memory for a node. -/
  bounded : Store.Bounded s.heap
  awake : queued ≠ [] → (∃ w, s.workers w ≠ .waiting) ∨ ∃ p, (s.callers p).signals = true
  idle : ∀ p, limit ≤ p → s.callers p = .idle
  /-- Every task that was made is with its caller or has been enqueued. -/
  made : ∀ id < s.nextId, (∃ p j, (s.callers p).pending = some j ∧ j.id = id) ∨
    ∃ j ∈ s.enqueued, j.id = id

section Steps

variable {limit : Nat} {s t : PoolState n} {queued queued' : List Job}

/-- A step of a worker: it waits only if the queue is empty. -/
theorem Going.worker {w : Fin n} {pc : WorkerPc} (h : Going limit s queued)
    (hworkers : t.workers = Function.update s.workers w pc) (hcallers : t.callers = s.callers)
    (henqueued : t.enqueued = s.enqueued) (hnext : t.nextId = s.nextId)
    (hbounded : Store.Bounded t.heap) (hpc : pc = .waiting → queued' = []) :
    Going limit t queued' where
  bounded := hbounded
  awake := by
    intro hqueued
    left
    refine ⟨w, ?_⟩
    rw [hworkers, Function.update_self]
    exact fun hwait => hqueued (hpc hwait)
  idle := by
    rw [hcallers]
    exact h.idle
  made := by
    rw [hcallers, henqueued, hnext]
    exact h.made

/-- A step of a caller. -/
theorem Going.caller {p limit' : Nat} {pc : CallerPc} (h : Going limit s queued)
    (hcallers : t.callers = Function.update s.callers p pc) (hbounded : Store.Bounded t.heap)
    (hlimit : limit ≤ limit') (hp : p < limit')
    (hawake : (∃ w, t.workers w ≠ .waiting) ∨ pc.signals = true ∨
      queued' = queued ∧ t.workers = s.workers ∧ (s.callers p).signals = false)
    (henqueued : ∀ j ∈ s.enqueued, j ∈ t.enqueued)
    (hkept : ∀ j, (s.callers p).pending = some j → pc.pending = some j ∨ j ∈ t.enqueued)
    (hnew : ∀ id < t.nextId, id < s.nextId ∨ ∃ j, pc.pending = some j ∧ j.id = id) :
    Going limit' t queued' where
  bounded := hbounded
  awake := by
    intro hqueued
    rcases hawake with hw | hsignals | ⟨rfl, hworkers, hsignals⟩
    · exact Or.inl hw
    · right
      exact ⟨p, by rw [hcallers, Function.update_self, hsignals]⟩
    · rw [hworkers, hcallers]
      rcases h.awake hqueued with hw | ⟨q, hq⟩
      · exact Or.inl hw
      · right
        refine ⟨q, ?_⟩
        have hne : q ≠ p := by
          intro heq
          rw [heq, hsignals] at hq
          cases hq
        rw [Function.update_of_ne hne, hq]
  idle := by
    intro q hq
    have hne : q ≠ p := Nat.ne_of_gt (Nat.lt_of_lt_of_le hp hq)
    rw [hcallers, Function.update_of_ne hne]
    exact h.idle q (Nat.le_trans hlimit hq)
  made := by
    intro id hid
    rw [hcallers]
    rcases hnew id hid with hold | ⟨j, hj, rfl⟩
    · rcases h.made id hold with ⟨q, j, hq, hj⟩ | ⟨j, hmem, hj⟩
      · by_cases heq : q = p
        · subst heq
          rcases hkept j hq with hpending | hmem
          · exact Or.inl ⟨q, j, by rw [Function.update_self, hpending], hj⟩
          · exact Or.inr ⟨j, hmem, hj⟩
        · exact Or.inl ⟨q, j, by rw [Function.update_of_ne heq, hq], hj⟩
      · exact Or.inr ⟨j, henqueued j hmem, hj⟩
    · exact Or.inl ⟨p, j, by rw [Function.update_self, hj], rfl⟩

/-- A caller in a call is below the limit. -/
theorem Going.lt_limit {p : Nat} (h : Going limit s queued) (hbusy : s.callers p ≠ .idle) :
    p < limit := by
  by_contra hge
  exact hbusy (h.idle p (Nat.le_of_not_lt hge))

/-! ## 2. What is left to do -/

/-- The steps that the thread can take before it waits, with the mutex in its hands or
    free to be taken. -/
def WorkerPc.rank : WorkerPc → Nat
  | .waiting => 0
  | .locked => 1
  | .top => 2
  | .woken => 2
  | .returned _ => 3
  | .handling _ => 4
  | .taken _ => 5
  | .counted _ => 6
  | .dequeued _ => 7

/-- The same for an add call among `n` workers: its task makes up for seven steps of one
    worker, its broadcast for two of every worker. -/
def CallerPc.rank (n : Nat) : CallerPc → Nat
  | .idle => 0
  | .signalled => 1
  | .counted => 2 + 2 * n
  | .enqueued => 3 + 2 * n
  | .locked _ => 11 + 2 * n
  | .made _ => 12 + 2 * n

def toDo (limit : Nat) (s : PoolState n) (queued : List Job) : Nat :=
  (∑ w, (s.workers w).rank) + (∑ p ∈ Finset.range limit, (s.callers p).rank n) + 7 * queued.length

/-- The steps of the pool itself, with handlers that return: no call is made, nothing
    outside changes, and no worker wakes up without a broadcast. -/
def PoolEvent.Work : PoolEvent n → Prop
  | .caller _ (.makeUse _ _) => False
  | .caller _ (.makeRelease _ _ _ _) => False
  | .caller _ _ => True
  | .worker _ .wake => False
  | .worker _ (.write _) => False
  | .worker _ _ => True
  | .env _ => False

theorem toDo_worker {w : Fin n} {pc : WorkerPc}
    (hworkers : t.workers = Function.update s.workers w pc) (hcallers : t.callers = s.callers)
    (hlt : pc.rank + 7 * queued'.length < (s.workers w).rank + 7 * queued.length) :
    toDo limit t queued' < toDo limit s queued := by
  have hsum := sum_update WorkerPc.rank s.workers (Finset.mem_univ w) pc
  unfold toDo
  rw [hworkers, hcallers]
  omega

theorem toDo_caller {p : Nat} {pc : CallerPc} (h : Going limit s queued) (more : Nat)
    (hbusy : s.callers p ≠ .idle) (hcallers : t.callers = Function.update s.callers p pc)
    (hworkers : ∑ w, (t.workers w).rank ≤ (∑ w, (s.workers w).rank) + more)
    (hlt : pc.rank n + 7 * queued'.length + more < (s.callers p).rank n + 7 * queued.length) :
    toDo limit t queued' < toDo limit s queued := by
  have hp : p ∈ Finset.range limit := Finset.mem_range.mpr (h.lt_limit hbusy)
  have hsum := sum_update (CallerPc.rank n) s.callers hp pc
  unfold toDo
  rw [hcallers]
  omega

theorem sum_wake_le (workers : Fin n → WorkerPc) :
    ∑ w, (workers w).wake.rank ≤ (∑ w, (workers w).rank) + 2 * n := by
  have hone : ∀ w ∈ Finset.univ, (workers w).wake.rank ≤ (workers w).rank + 2 := by
    intro w _
    cases workers w <;> simp [WorkerPc.wake, WorkerPc.rank]
  have hsum := Finset.sum_le_sum hone
  rw [Finset.sum_add_distrib, Finset.sum_const, Finset.card_univ, Fintype.card_fin,
    Nat.nsmul_eq_mul, Nat.mul_comm] at hsum
  exact hsum

/-! ## 3. The steps -/

theorem going_workerStep {w : Fin n} {e : WorkerEvent} (h : PoolInv s queued)
    (hg : Going limit s queued) (hstep : workerStep s w e = some t) :
    ∃ queued', Holds t.heap t.queue queued' ∧ Going limit t queued' ∧
      ((PoolEvent.worker w e).Work → toDo limit t queued' < toDo limit s queued) := by
  cases e with
  | lock =>
      simp only [workerStep] at hstep
      split at hstep
      · rename_i hpc _
        cases hstep
        refine ⟨queued, h.holds, hg.worker rfl rfl rfl rfl hg.bounded (by rintro ⟨⟩), ?_⟩
        exact fun _ => toDo_worker rfl rfl (by simp [hpc, WorkerPc.rank])
      · rename_i hpc _
        cases hstep
        refine ⟨queued, h.holds, hg.worker rfl rfl rfl rfl hg.bounded (by rintro ⟨⟩), ?_⟩
        exact fun _ => toDo_worker rfl rfl (by simp [hpc, WorkerPc.rank])
      · cases hstep
  | deQueue =>
      simp only [workerStep] at hstep
      split at hstep
      · rename_i hpc
        rcases queued with _ | ⟨j, queued⟩
        · -- the wait gives the mutex up in the same step
          simp only [deTaskFromQueue, deFromQueue_nil h.holds] at hstep
          cases hstep
          refine ⟨[], h.holds, hg.worker rfl rfl rfl rfl hg.bounded (fun _ => rfl), ?_⟩
          exact fun _ => toDo_worker rfl rfl (by simp [hpc, WorkerPc.rank])
        · obtain ⟨heap, node, heq, hholds, hnone, hlive⟩ := deFromQueue_cons h.holds true
          simp only [deTaskFromQueue, heq, if_true] at hstep
          cases hstep
          have hbounded : Store.Bounded heap := by
            apply @Store.Bounded.of_isSome _ _ _ node hg.bounded
            intro a hne hsome
            rwa [hlive a hne] at hsome
          refine ⟨queued, hholds, hg.worker rfl rfl rfl rfl hbounded (by rintro ⟨⟩), ?_⟩
          exact fun _ => toDo_worker rfl rfl (by simp [hpc, WorkerPc.rank]; omega)
      · cases hstep
  | wake =>
      simp only [workerStep] at hstep
      split at hstep
      · cases hstep
        exact ⟨queued, h.holds, hg.worker rfl rfl rfl rfl hg.bounded (by rintro ⟨⟩), False.elim⟩
      · cases hstep
  | count =>
      simp only [workerStep] at hstep
      split at hstep
      · rename_i hpc
        cases hstep
        refine ⟨queued, h.holds, hg.worker rfl rfl rfl rfl hg.bounded (by rintro ⟨⟩), ?_⟩
        exact fun _ => toDo_worker rfl rfl (by simp [hpc, WorkerPc.rank])
      · cases hstep
  | unlock =>
      simp only [workerStep] at hstep
      split at hstep
      · rename_i hpc
        cases hstep
        refine ⟨queued, h.holds, hg.worker rfl rfl rfl rfl hg.bounded (by rintro ⟨⟩), ?_⟩
        exact fun _ => toDo_worker rfl rfl (by simp [hpc, WorkerPc.rank])
      · cases hstep
  | call =>
      simp only [workerStep] at hstep
      split at hstep
      · rename_i hpc
        cases hstep
        refine ⟨queued, h.holds, hg.worker rfl rfl rfl rfl hg.bounded (by rintro ⟨⟩), ?_⟩
        exact fun _ => toDo_worker rfl rfl (by simp [hpc, WorkerPc.rank])
      · cases hstep
  | write bytes =>
      simp only [workerStep] at hstep
      split at hstep
      · rename_i hpc
        obtain ⟨a, -, rfl⟩ := Option.map_eq_some_iff.mp hstep
        refine ⟨queued, h.holds, ?_, False.elim⟩
        refine hg.worker (Function.update_eq_self w s.workers).symm rfl rfl rfl hg.bounded ?_
        rw [hpc]
        rintro ⟨⟩
      · cases hstep
  | ret =>
      simp only [workerStep] at hstep
      split at hstep
      · rename_i hpc
        cases hstep
        refine ⟨queued, h.holds, hg.worker rfl rfl rfl rfl hg.bounded (by rintro ⟨⟩), ?_⟩
        exact fun _ => toDo_worker rfl rfl (by simp [hpc, WorkerPc.rank])
      · cases hstep
  | release =>
      simp only [workerStep] at hstep
      split at hstep
      · rename_i hpc
        split at hstep
        · cases hstep
          refine ⟨queued, h.holds, hg.worker rfl rfl rfl rfl hg.bounded (by rintro ⟨⟩), ?_⟩
          exact fun _ => toDo_worker rfl rfl (by simp [hpc, WorkerPc.rank])
        · cases hstep
          refine ⟨queued, h.holds, hg.worker rfl rfl rfl rfl hg.bounded (by rintro ⟨⟩), ?_⟩
          exact fun _ => toDo_worker rfl rfl (by simp [hpc, WorkerPc.rank])
      · cases hstep

/-- A new call takes its caller in. -/
theorem Going.make {p : Nat} {j : Job} (hg : Going limit s queued) (hpc : s.callers p = .idle)
    (hid : j.id = s.nextId) (hcallers : t.callers = Function.update s.callers p (.made j))
    (hheap : t.heap = s.heap) (hworkers : t.workers = s.workers)
    (henqueued : t.enqueued = s.enqueued) (hnext : t.nextId = s.nextId + 1) :
    Going (max limit (p + 1)) t queued := by
  apply hg.caller hcallers (hheap ▸ hg.bounded) (Nat.le_max_left _ _) (Nat.le_max_right _ _)
  · exact Or.inr (Or.inr ⟨rfl, hworkers, by rw [hpc]; rfl⟩)
  · rw [henqueued]
    exact fun _ hj => hj
  · rw [hpc]
    rintro j' ⟨⟩
  · rw [hnext]
    intro id hlt
    rcases Nat.lt_or_eq_of_le (Nat.le_of_lt_succ hlt) with hold | hlast
    · exact Or.inl hold
    · exact Or.inr ⟨j, rfl, hid.trans hlast.symm⟩

/-- A call goes on and makes nothing. -/
theorem Going.goOn {p : Nat} {pc : CallerPc} (hg : Going limit s queued)
    (hbusy : s.callers p ≠ .idle) (hcallers : t.callers = Function.update s.callers p pc)
    (hbounded : Store.Bounded t.heap)
    (hawake : (∃ w, t.workers w ≠ .waiting) ∨ pc.signals = true ∨
      queued' = queued ∧ t.workers = s.workers ∧ (s.callers p).signals = false)
    (henqueued : ∀ j ∈ s.enqueued, j ∈ t.enqueued)
    (hkept : ∀ j, (s.callers p).pending = some j → pc.pending = some j ∨ j ∈ t.enqueued)
    (hnext : t.nextId = s.nextId) : Going limit t queued' := by
  apply hg.caller hcallers hbounded (Nat.le_refl _) (hg.lt_limit hbusy) hawake henqueued hkept
  rw [hnext]
  exact fun id hid => Or.inl hid

theorem going_callerStep {p : Nat} {e : CallerEvent} (hn : 0 < n) (h : PoolInv s queued)
    (hg : Going limit s queued) (hstep : callerStep s p e = some t) :
    ∃ limit' queued', Holds t.heap t.queue queued' ∧ Going limit' t queued' ∧
      ((PoolEvent.caller (n := n) p e).Work →
        limit' = limit ∧ toDo limit t queued' < toDo limit s queued) := by
  cases e with
  | makeUse handler arg =>
      simp only [callerStep] at hstep
      split at hstep
      · rename_i hpc
        cases hstep
        exact ⟨_, queued, h.holds, hg.make hpc rfl rfl rfl rfl rfl rfl, False.elim⟩
      · cases hstep
  | makeRelease handler arg argSize block =>
      simp only [callerStep] at hstep
      split at hstep
      · rename_i hpc
        split at hstep
        · rcases arg with _ | a
          · cases hstep
            exact ⟨_, queued, h.holds, hg.make hpc rfl rfl rfl rfl rfl rfl, False.elim⟩
          · simp only at hstep
            split at hstep
            · cases hstep
            simp only [Option.ite_none_right_eq_some, Option.some.injEq] at hstep
            obtain ⟨-, rfl⟩ := hstep
            exact ⟨_, queued, h.holds, hg.make hpc rfl rfl rfl rfl rfl rfl, False.elim⟩
        · cases hstep
      · cases hstep
  | lock =>
      simp only [callerStep] at hstep
      split at hstep
      · rename_i j hpc _
        cases hstep
        have hbusy : s.callers p ≠ .idle := by simp [hpc]
        refine ⟨limit, queued, h.holds, ?_, fun _ => ⟨rfl, ?_⟩⟩
        · refine hg.goOn hbusy rfl hg.bounded ?_ (fun _ hj => hj) ?_ rfl
          · exact Or.inr (Or.inr ⟨rfl, rfl, by rw [hpc]; rfl⟩)
          · rw [hpc]
            exact fun _ hj => Or.inl hj
        · exact toDo_caller hg 0 hbusy rfl le_rfl (by simp [hpc, CallerPc.rank])
      · cases hstep
  | enQueue node =>
      simp only [callerStep] at hstep
      split at hstep
      · rename_i j hpc
        obtain ⟨hfresh, hen⟩ := Option.ite_none_right_eq_some.mp hstep
        obtain ⟨heap, heq, hholds, hlive⟩ := enToQueue_listAddTail h.holds hfresh j
        simp only [enTaskToQueue, heq, Option.some.injEq] at hen
        subst hen
        have hbusy : s.callers p ≠ .idle := by simp [hpc]
        have hbounded : Store.Bounded heap := by
          apply @Store.Bounded.of_isSome _ _ _ node hg.bounded
          intro a hne hsome
          rw [hlive a, decide_eq_false hne, Bool.false_or] at hsome
          exact hsome
        refine ⟨limit, queued ++ [j], hholds, ?_, fun _ => ⟨rfl, ?_⟩⟩
        · refine hg.goOn hbusy rfl hbounded (Or.inr (Or.inl rfl)) ?_ ?_ rfl
          · exact fun _ hj => List.mem_append_left _ hj
          · rw [hpc]
            rintro j' ⟨⟩
            exact Or.inr (List.mem_append_right _ (List.mem_singleton_self j))
        · refine toDo_caller hg 0 hbusy rfl le_rfl ?_
          rw [hpc, List.length_append, List.length_singleton]
          simp only [CallerPc.rank]
          omega
      · cases hstep
  | count =>
      simp only [callerStep] at hstep
      split at hstep
      · rename_i hpc
        cases hstep
        have hbusy : s.callers p ≠ .idle := by simp [hpc]
        refine ⟨limit, queued, h.holds, ?_, fun _ => ⟨rfl, ?_⟩⟩
        · refine hg.goOn hbusy rfl hg.bounded (Or.inr (Or.inl rfl)) (fun _ hj => hj) ?_ rfl
          rw [hpc]
          rintro j ⟨⟩
        · exact toDo_caller hg 0 hbusy rfl le_rfl (by simp [hpc, CallerPc.rank])
      · cases hstep
  | broadcast =>
      simp only [callerStep] at hstep
      split at hstep
      · rename_i hpc
        cases hstep
        have hbusy : s.callers p ≠ .idle := by simp [hpc]
        refine ⟨limit, queued, h.holds, ?_, fun _ => ⟨rfl, ?_⟩⟩
        · refine hg.goOn hbusy rfl hg.bounded ?_ (fun _ hj => hj) ?_ rfl
          · left
            refine ⟨⟨0, hn⟩, ?_⟩
            show (s.workers ⟨0, hn⟩).wake ≠ .waiting
            cases s.workers ⟨0, hn⟩ <;> simp [WorkerPc.wake]
          · rw [hpc]
            rintro j ⟨⟩
        · refine toDo_caller hg (2 * n) hbusy rfl (sum_wake_le s.workers) ?_
          rw [hpc]
          simp only [CallerPc.rank]
          omega
      · cases hstep
  | unlock =>
      simp only [callerStep] at hstep
      split at hstep
      · rename_i hpc
        cases hstep
        have hbusy : s.callers p ≠ .idle := by simp [hpc]
        refine ⟨limit, queued, h.holds, ?_, fun _ => ⟨rfl, ?_⟩⟩
        · refine hg.goOn hbusy rfl hg.bounded ?_ (fun _ hj => hj) ?_ rfl
          · exact Or.inr (Or.inr ⟨rfl, rfl, by rw [hpc]; rfl⟩)
          · rw [hpc]
            rintro j ⟨⟩
        · exact toDo_caller hg 0 hbusy rfl le_rfl (by simp [hpc, CallerPc.rank])
      · cases hstep

/-! ## 4. When nothing can go on -/

/-- The mutex is free, the workers wait, no call is under way, and the tasks of all calls
    that were ever made are finished, each once. -/
structure AllDone (s : PoolState n) : Prop where
  free : s.mutex = none
  waiting : ∀ w, s.workers w = .waiting
  idle : ∀ p, s.callers p = .idle
  finished : (s.finished : Multiset Job) = s.enqueued
  every : ∀ id < s.nextId, ∃ j ∈ s.finished, j.id = id

/-- No thread of the pool can take a step. -/
def Stuck (s : PoolState n) : Prop := ∀ e : PoolEvent n, e.Work → poolStep s e = none

theorem Stuck.outside (h : PoolInv s queued) (hstuck : Stuck s) (w : Fin n) :
    (s.workers w).inside = false := by
  rcases hpc : s.workers w with _ | _ | _ | _ | j | j | j | j | j
  case locked =>
    have hstep := hstuck (.worker w .deQueue) trivial
    simp only [poolStep, workerStep, hpc] at hstep
    rcases queued with _ | ⟨j, queued⟩
    · simp only [deTaskFromQueue, deFromQueue_nil h.holds] at hstep
      cases hstep
    · obtain ⟨heap, node, heq, -⟩ := deFromQueue_cons h.holds true
      simp only [deTaskFromQueue, heq, if_true] at hstep
      cases hstep
  case dequeued =>
    have hstep := hstuck (.worker w .count) trivial
    simp only [poolStep, workerStep, hpc] at hstep
    cases hstep
  case counted =>
    have hstep := hstuck (.worker w .unlock) trivial
    simp only [poolStep, workerStep, hpc] at hstep
    cases hstep
  all_goals rfl

theorem Stuck.callerOutside (h : PoolInv s queued) (hg : Going limit s queued)
    (hstuck : Stuck s) (p : Nat) : (s.callers p).inside = false := by
  rcases hpc : s.callers p with _ | j | j | _ | _ | _
  case locked =>
    obtain ⟨node, hfresh⟩ := hg.bounded.exists_free
    obtain ⟨heap, heq, -⟩ := enToQueue_listAddTail h.holds hfresh j
    have hstep := hstuck (.caller p (.enQueue node)) trivial
    simp only [poolStep, callerStep, hpc, hfresh, if_true, enTaskToQueue, heq] at hstep
    cases hstep
  case enqueued =>
    have hstep := hstuck (.caller p .count) trivial
    simp only [poolStep, callerStep, hpc] at hstep
    cases hstep
  case counted =>
    have hstep := hstuck (.caller p .broadcast) trivial
    simp only [poolStep, callerStep, hpc] at hstep
    cases hstep
  case signalled =>
    have hstep := hstuck (.caller p .unlock) trivial
    simp only [poolStep, callerStep, hpc] at hstep
    cases hstep
  all_goals rfl

/-- The owner of the mutex could go on. -/
theorem Stuck.free (h : PoolInv s queued) (hg : Going limit s queued) (hstuck : Stuck s) :
    s.mutex = none := by
  rcases hmutex : s.mutex with _ | (w | p)
  · rfl
  · have hin := (h.workersExcl w).mpr hmutex
    rw [hstuck.outside h w] at hin
    cases hin
  · have hin := (h.callersExcl p).mpr hmutex
    rw [hstuck.callerOutside h hg p] at hin
    cases hin

theorem Stuck.waiting (h : PoolInv s queued) (hg : Going limit s queued) (hstuck : Stuck s)
    (w : Fin n) : s.workers w = .waiting := by
  have hfree := hstuck.free h hg
  have hout := hstuck.outside h w
  rcases hpc : s.workers w with _ | _ | _ | _ | j | j | j | j | j
  case waiting => rfl
  case top =>
    have hstep := hstuck (.worker w .lock) trivial
    simp only [poolStep, workerStep, hpc, hfree] at hstep
    cases hstep
  case woken =>
    have hstep := hstuck (.worker w .lock) trivial
    simp only [poolStep, workerStep, hpc, hfree] at hstep
    cases hstep
  case taken =>
    have hstep := hstuck (.worker w .call) trivial
    simp only [poolStep, workerStep, hpc] at hstep
    cases hstep
  case handling =>
    have hstep := hstuck (.worker w .ret) trivial
    simp only [poolStep, workerStep, hpc] at hstep
    cases hstep
  case returned =>
    have hstep := hstuck (.worker w .release) trivial
    simp only [poolStep, workerStep, hpc] at hstep
    split at hstep <;> cases hstep
  all_goals
    rw [hpc] at hout
    cases hout

theorem Stuck.idle (h : PoolInv s queued) (hg : Going limit s queued) (hstuck : Stuck s)
    (p : Nat) : s.callers p = .idle := by
  have hfree := hstuck.free h hg
  have hout := hstuck.callerOutside h hg p
  rcases hpc : s.callers p with _ | j | j | _ | _ | _
  case idle => rfl
  case made =>
    have hstep := hstuck (.caller p .lock) trivial
    simp only [poolStep, callerStep, hpc, hfree] at hstep
    cases hstep
  all_goals
    rw [hpc] at hout
    cases hout

/-- The pool stops only when all is done: the workers would not wait for a queued task. -/
theorem Stuck.allDone (h : PoolInv s queued) (hg : Going limit s queued) (hstuck : Stuck s) :
    AllDone s := by
  have hwaiting := hstuck.waiting h hg
  have hidle := hstuck.idle h hg
  have hqueued : queued = [] := by
    by_contra hne
    rcases hg.awake hne with ⟨w, hw⟩ | ⟨p, hp⟩
    · exact hw (hwaiting w)
    · rw [hidle p] at hp
      cases hp
  have hrunning : held WorkerPc.running s.workers = 0 := by
    apply Finset.sum_eq_zero
    intro w _
    rw [hwaiting w]
    rfl
  have hfinished : (s.finished : Multiset Job) = s.enqueued := by
    rw [h.order, hqueued, List.append_nil, h.account, hrunning, zero_add]
  refine ⟨hstuck.free h hg, hwaiting, hidle, hfinished, ?_⟩
  intro id hid
  rcases hg.made id hid with ⟨p, j, hp, -⟩ | ⟨j, hj, hid⟩
  · rw [hidle p] at hp
    cases hp
  · refine ⟨j, ?_, hid⟩
    rw [← Multiset.mem_coe, hfinished]
    exact hj

end Steps

/-! ## 5. Runs -/

theorem going_step {limit : Nat} {s t : PoolState n} {queued : List Job} {e : PoolEvent n}
    (hn : 0 < n) (h : PoolInv s queued) (hg : Going limit s queued)
    (hstep : poolStep s e = some t) :
    ∃ limit' queued', PoolInv t queued' ∧ Going limit' t queued' ∧
      (e.Work → limit' = limit ∧ toDo limit t queued' < toDo limit s queued) := by
  obtain ⟨found, hinv⟩ := poolInv_step s e t ⟨queued, h⟩ hstep
  cases e with
  | caller p e =>
      obtain ⟨limit', queued', hholds, hgo, hwork⟩ := going_callerStep hn h hg hstep
      rw [hinv.holds.unique hholds] at hinv
      exact ⟨limit', queued', hinv, hgo, hwork⟩
  | worker w e =>
      obtain ⟨queued', hholds, hgo, hwork⟩ := going_workerStep h hg hstep
      rw [hinv.holds.unique hholds] at hinv
      exact ⟨limit, queued', hinv, hgo, fun he => ⟨rfl, hwork he⟩⟩
  | env e =>
      have hsame : t.heap = s.heap ∧ t.queue = s.queue ∧ t.workers = s.workers ∧
          t.callers = s.callers ∧ t.enqueued = s.enqueued ∧ t.nextId = s.nextId := by
        cases e <;>
          simp only [poolStep, envStep, Option.ite_none_right_eq_some, Option.some.injEq]
            at hstep <;>
          (obtain ⟨-, rfl⟩ := hstep; exact ⟨rfl, rfl, rfl, rfl, rfl, rfl⟩)
      obtain ⟨hheap, hqueue, hworkers, hcallers, henqueued, hnext⟩ := hsame
      have hholds : Holds t.heap t.queue queued := by
        rw [hheap, hqueue]
        exact h.holds
      rw [hinv.holds.unique hholds] at hinv
      refine ⟨limit, queued, hinv, ⟨?_, ?_, ?_, ?_⟩, False.elim⟩
      · rw [hheap]
        exact hg.bounded
      · rw [hworkers, hcallers]
        exact hg.awake
      · rw [hcallers]
        exact hg.idle
      · rw [hcallers, henqueued, hnext]
        exact hg.made

theorem newPool_going (queue : Addr) (mem : Addr → Option (List UInt8)) :
    Going 0 (newPool n queue mem) [] where
  bounded := Heap.bounded_alloc_empty queue _
  awake := fun h => absurd rfl h
  idle := fun _ _ => rfl
  made := by
    intro id hid
    exact absurd hid (Nat.not_lt_zero id)

/-- The pool is in order and there are `m` steps left. -/
def Left (limit m : Nat) (s : PoolState n) : Prop :=
  ∃ queued, PoolInv s queued ∧ Going limit s queued ∧ toDo limit s queued = m

/-- For a pool with a worker, in every state of every run: if no call is made any more and
    the handlers return, the threads stop after a bounded number of steps in any order, and
    where they stop all tasks are finished. -/
theorem pool_finishes {queue : Addr} {mem : Addr → Option (List UInt8)} {evs : List (PoolEvent n)}
    {s : PoolState n} (hn : 0 < n) (hrun : exec poolStep (newPool n queue mem) evs = some s) :
    ∃ bound, ∀ more t, (∀ e ∈ more, PoolEvent.Work e) → exec poolStep s more = some t →
      more.length ≤ bound ∧ (Stuck t → AllDone t) := by
  have hs : ∃ limit queued, PoolInv s queued ∧ Going limit s queued := by
    apply exec_invariant _ ⟨0, [], newPool_inv queue mem, newPool_going queue mem⟩ hrun
    rintro s e t ⟨limit, queued, h, hg⟩ hstep
    obtain ⟨limit', queued', h', hg', -⟩ := going_step hn h hg hstep
    exact ⟨limit', queued', h', hg'⟩
  obtain ⟨limit, queued, h, hg⟩ := hs
  refine ⟨toDo limit s queued, ?_⟩
  intro more t hmore hrest
  have hrule : ∃ m, Left limit m t ∧ more.length + m ≤ toDo limit s queued := by
    apply exec_length_le _ ⟨queued, h, hg, rfl⟩ hmore hrest
    rintro m s e t he ⟨queued, h, hg, rfl⟩ hstep
    obtain ⟨limit', queued', h', hg', hwork⟩ := going_step hn h hg hstep
    obtain ⟨rfl, hlt⟩ := hwork he
    exact ⟨_, hlt, queued', h', hg', rfl⟩
  obtain ⟨m, ⟨queued', h', hg', -⟩, hle⟩ := hrule
  exact ⟨Nat.le_of_add_right_le hle, fun hstuck => hstuck.allDone h' hg'⟩

def onlyWorker : Fin 1 := ⟨0, Nat.one_pos⟩

/-- The only worker waits when a call takes the mutex: its task is still to come. -/
def callAfterWait : List (PoolEvent 1) :=
  [.caller 0 (.makeUse 7 none), .worker onlyWorker .lock, .worker onlyWorker .deQueue,
    .caller 0 .lock, .caller 0 (.enQueue 8)]

theorem pool_finishes_callAfterWait :
    ∃ s, exec poolStep (newPool 1 0 fun _ => none) callAfterWait = some s ∧
      s.workers onlyWorker = .waiting ∧
      ∃ bound, ∀ more t, (∀ e ∈ more, PoolEvent.Work e) → exec poolStep s more = some t →
        more.length ≤ bound ∧ (Stuck t → AllDone t) :=
  ⟨_, rfl, rfl, @pool_finishes 1 0 (fun _ => none) callAfterWait _ (by decide) rfl⟩

end SocketPractice.Socket
