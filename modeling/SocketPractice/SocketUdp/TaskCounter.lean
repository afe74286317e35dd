import SocketPractice.Lib.Runs
import SocketPractice.Lib.Threads
import SocketPractice.SocketUdp.ServerQueues

/-!
# The task counter (`thread_pool.c`)

`AddTaskToPool` counts a task inside its critical section.  `ProcessTask` takes the task
out in one and counts down after it has given the mutex up, so the decrement is a load and
a store between which other threads may count.

A critical section is one step here.  A worker that finds the queue empty waits and looks
again; its step changes nothing.
-/

namespace SocketPractice.SocketUdp

open Lib.Links Lib.Runs Lib.Threads Common
open Lib.Memory (Ptr)

/-! ## 1. The code -/

/-- Where a worker is in the loop of `ProcessTask`. -/
inductive CountPc where
  | taking
  | loading (task : Task)
  | storing (task : Task) (curTaskCnt : UInt32)
  | handling (task : Task)

structure CountState (n : Nat) where
  heap : Heap Task
  taskQueue : Ptr
  curTaskCnt : UInt32
  workers : Fin n → CountPc
  /-- A decrement stored the value below zero. -/
  wrapped : Bool
  /-- Memory was accessed that is not allocated. -/
  fault : Bool

inductive CountEvent (n : Nat) where
  | addTaskToPool (taskNode : Addr) (task : Task)
  | deTaskQueue (w : Fin n)
  | load (w : Fin n)
  | store (w : Fin n)
  | ret (w : Fin n)
deriving DecidableEq

section Step

variable {n : Nat}

def CountState.setWorker (s : CountState n) (w : Fin n) (pc : CountPc) : CountState n :=
  { s with workers := Function.update s.workers w pc }

def countStep (s : CountState n) : CountEvent n → Option (CountState n)
  | .addTaskToPool taskNode task =>
      if s.heap taskNode = none then
        match enTaskQueue s.heap taskNode s.taskQueue (some task) with
        | none => some { s with fault := true }
        | some (heap, .QUEUE_SUCCESS) =>
            some { s with heap := heap, curTaskCnt := s.curTaskCnt + 1 }
        | some (heap, _) => some { s with heap := heap }
      else none
  | .deTaskQueue w =>
      match s.workers w with
      | .taking =>
          match deTaskQueue s.heap s.taskQueue true with
          | none => some { s with fault := true }
          | some (heap, .QUEUE_SUCCESS, some task) =>
              some { s.setWorker w (.loading task) with heap := heap }
          | some (heap, _, _) => some { s with heap := heap }
      | _ => none
  | .load w =>
      match s.workers w with
      | .loading task => some (s.setWorker w (.storing task s.curTaskCnt))
      | _ => none
  | .store w =>
      match s.workers w with
      | .storing task cnt =>
          some { s.setWorker w (.handling task) with
            curTaskCnt := cnt - 1, wrapped := s.wrapped || cnt == 0 }
      | _ => none
  | .ret w =>
      match s.workers w with
      | .handling _ => some (s.setWorker w .taking)
      | _ => none

/-- The pool as `CreateThreadPool` makes it. -/
def newCountState (n : Nat) (taskQueue : Addr) : CountState n :=
  { heap := initListHead Heap.empty taskQueue, taskQueue := some taskQueue, curTaskCnt := 0
    workers := fun _ => .taking, wrapped := false, fault := false }

/-! ## 2. What the counter should say -/

/-- The task that a worker has taken and not counted down. -/
def CountPc.uncounted : CountPc → Multiset Task
  | .loading task => {task}
  | .storing task _ => {task}
  | _ => 0

/-- No decrement went below zero, and while no worker is between its dequeue and the end
    of its decrement the counter is the number of queued tasks. -/
structure CounterOk (s : CountState n) : Prop where
  sound : s.fault = false
  wrapped : s.wrapped = false
  quiet : (∀ w, (s.workers w).uncounted = 0) →
    ∃ q tasks, s.taskQueue = some q ∧ Holds s.heap q tasks ∧ s.curTaskCnt.toNat = tasks.length

/-- A worker stores only while the counter still has the value that it loaded, and a task
    is added only while the counter can count it. -/
def CountsInTime (s : CountState n) : CountEvent n → Prop
  | .store w =>
      match s.workers w with
      | .storing _ cnt => cnt = s.curTaskCnt
      | _ => True
  | .addTaskToPool _ _ => s.curTaskCnt.toNat + 1 < 2 ^ 32
  | _ => True

instance decidableCountsInTime (s : CountState n) :
    (e : CountEvent n) → Decidable (CountsInTime s e)
  | .addTaskToPool _ _ => inferInstanceAs (Decidable (_ < _))
  | .deTaskQueue _ => isTrue trivial
  | .load _ => isTrue trivial
  | .ret _ => isTrue trivial
  | .store w =>
      match hpc : s.workers w with
      | .storing _ cnt => decidable_of_iff (cnt = s.curTaskCnt) (by simp [CountsInTime, hpc])
      | .taking => isTrue (by simp [CountsInTime, hpc])
      | .loading _ => isTrue (by simp [CountsInTime, hpc])
      | .handling _ => isTrue (by simp [CountsInTime, hpc])

/-- Between the steps the counter is also ahead by the tasks of these workers. -/
structure CountInv (s : CountState n) (tasks : List Task) : Prop where
  sound : s.fault = false
  wrapped : s.wrapped = false
  holds : ∃ q, s.taskQueue = some q ∧ Holds s.heap q tasks
  count : s.curTaskCnt.toNat = tasks.length + (held CountPc.uncounted s.workers).card

theorem CountInv.ok {s : CountState n} {tasks : List Task} (h : CountInv s tasks) :
    CounterOk s where
  sound := h.sound
  wrapped := h.wrapped
  quiet := by
    intro hquiet
    obtain ⟨q, hq, hh⟩ := h.holds
    have hnone : held CountPc.uncounted s.workers = 0 := Finset.sum_eq_zero fun w _ => hquiet w
    have hcount := h.count
    rw [hnone, Multiset.card_zero, Nat.add_zero] at hcount
    exact ⟨q, tasks, hq, hh, hcount⟩

/-! ## 3. Steps -/

section Inv

variable {s t : CountState n} {tasks : List Task} {w : Fin n}

/-- A worker that moves on with the task that it has still to count, if any. -/
theorem CountInv.move (h : CountInv s tasks) {pc : CountPc}
    (hpc : pc.uncounted = (s.workers w).uncounted) : CountInv (s.setWorker w pc) tasks where
  sound := h.sound
  wrapped := h.wrapped
  holds := h.holds
  count := by
    rw [CountState.setWorker, held_update_same hpc]
    exact h.count

theorem CountInv.add (h : CountInv s tasks) {taskNode : Addr} (hnode : s.heap taskNode = none)
    (task : Task) (hroom : s.curTaskCnt.toNat + 1 < 2 ^ 32) :
    ∃ heap, enTaskQueue s.heap taskNode s.taskQueue (some task) = some (heap, .QUEUE_SUCCESS) ∧
      CountInv { s with heap := heap, curTaskCnt := s.curTaskCnt + 1 } (tasks ++ [task]) := by
  obtain ⟨q, hq, hh⟩ := h.holds
  obtain ⟨heap, heq, hh', -⟩ := enToTail_holds hh hnode task
  have hcnt : (s.curTaskCnt + 1).toNat = s.curTaskCnt.toNat + 1 := by
    rw [UInt32.toNat_add]
    exact Nat.mod_eq_of_lt hroom
  refine ⟨heap, by rw [hq]; exact heq, h.sound, h.wrapped, ⟨q, hq, hh'⟩, ?_⟩
  rw [hcnt, h.count, List.length_append, List.length_singleton]
  exact Nat.add_right_comm _ _ _

/-- The worker that takes a task owes a decrement for it. -/
theorem CountInv.take {task : Task} (h : CountInv s (task :: tasks))
    (hpc : s.workers w = .taking) :
    ∃ heap, deTaskQueue s.heap s.taskQueue true = some (heap, .QUEUE_SUCCESS, some task) ∧
      CountInv { s.setWorker w (.loading task) with heap := heap } tasks := by
  obtain ⟨q, hq, hh⟩ := h.holds
  obtain ⟨heap, node, heq, hh', -⟩ := deFromQueue_cons hh true
  have hheld := held_update CountPc.uncounted s.workers w (.loading task)
  rw [hpc] at hheld
  have hcard := congrArg Multiset.card hheld
  simp only [CountPc.uncounted, Multiset.card_add, Multiset.card_zero,
    Multiset.card_singleton] at hcard
  refine ⟨heap, by rw [hq]; exact heq, h.sound, h.wrapped, ⟨q, hq, hh'⟩, ?_⟩
  have hcount := h.count
  rw [List.length_cons] at hcount
  simp only [CountState.setWorker]
  omega

/-- A worker that stores in time counts its task down. -/
theorem CountInv.store (h : CountInv s tasks) {task : Task}
    (hpc : s.workers w = .storing task s.curTaskCnt) :
    CountInv { s.setWorker w (.handling task) with
      curTaskCnt := s.curTaskCnt - 1, wrapped := s.wrapped || s.curTaskCnt == 0 } tasks := by
  have hheld := held_update CountPc.uncounted s.workers w (.handling task)
  rw [hpc] at hheld
  have hcard := congrArg Multiset.card hheld
  simp only [CountPc.uncounted, Multiset.card_add, Multiset.card_zero,
    Multiset.card_singleton] at hcard
  have hcount := h.count
  have hpos : 1 ≤ s.curTaskCnt.toNat := by omega
  have hne : s.curTaskCnt ≠ 0 := by
    intro h0
    rw [h0] at hpos
    exact absurd hpos (by decide)
  have hcnt : (s.curTaskCnt - 1).toNat = s.curTaskCnt.toNat - 1 :=
    UInt32.toNat_sub_of_le _ _ (UInt32.le_iff_toNat_le.mpr hpos)
  refine ⟨h.sound, ?_, h.holds, ?_⟩
  · rw [h.wrapped, Bool.false_or]
    exact beq_false_of_ne hne
  · simp only [CountState.setWorker]
    omega

/-- What one step in time preserves. -/
theorem countInv_step (s : CountState n) (e : CountEvent n) (t : CountState n)
    (hs : ∃ tasks, CountInv s tasks) (hG : CountsInTime s e) (hstep : countStep s e = some t) :
    ∃ tasks, CountInv t tasks := by
  obtain ⟨tasks, h⟩ := hs
  cases e with
  | addTaskToPool taskNode task =>
      simp only [countStep] at hstep
      split at hstep
      · next hnode =>
        obtain ⟨heap, heq, h'⟩ := h.add hnode task hG
        rw [heq] at hstep
        cases hstep
        exact ⟨_, h'⟩
      · cases hstep
  | deTaskQueue w =>
      simp only [countStep] at hstep
      split at hstep
      · next hpc =>
        cases tasks with
        | nil =>
            obtain ⟨q, hq, hh⟩ := h.holds
            have heq : deTaskQueue s.heap s.taskQueue true =
                some (s.heap, .QUEUE_EMPTY, none) := by
              rw [hq]
              exact deFromQueue_nil hh true
            rw [heq] at hstep
            cases hstep
            exact ⟨[], h⟩
        | cons task tasks =>
            obtain ⟨heap, heq, h'⟩ := h.take hpc
            rw [heq] at hstep
            cases hstep
            exact ⟨tasks, h'⟩
      · cases hstep
  | load w =>
      simp only [countStep] at hstep
      split at hstep
      · next hpc =>
        cases hstep
        exact ⟨tasks, h.move (by rw [hpc]; rfl)⟩
      · cases hstep
  | store w =>
      simp only [countStep] at hstep
      split at hstep
      · next task cnt hpc =>
        have hcnt : cnt = s.curTaskCnt := by
          rw [CountsInTime, hpc] at hG
          exact hG
        subst hcnt
        cases hstep
        exact ⟨tasks, h.store hpc⟩
      · cases hstep
  | ret w =>
      simp only [countStep] at hstep
      split at hstep
      · next hpc =>
        cases hstep
        exact ⟨tasks, h.move (by rw [hpc]; rfl)⟩
      · cases hstep

end Inv

theorem newCountState_inv (taskQueue : Addr) : CountInv (newCountState n taskQueue) [] where
  sound := rfl
  wrapped := rfl
  holds := ⟨taskQueue, rfl, [], initListHead_circular _ _, rfl⟩
  count := by simp [newCountState, held, CountPc.uncounted]

/-! ## 4. Runs -/

/-- In every run in which all decrements are stored in time and the counter has room, it
    is right in every state. -/
theorem counterOk_of_countsInTime (n : Nat) (taskQueue : Addr) (evs : List (CountEvent n))
    (h : Along countStep CountsInTime (newCountState n taskQueue) evs) :
    Always countStep CounterOk (newCountState n taskQueue) evs :=
  (always_of_invariant_along countInv_step ⟨[], newCountState_inv taskQueue⟩ h).mono
    fun _ ⟨_, hinv⟩ => hinv.ok

/-- A task that is counted down before the next one is added. -/
theorem counterOk_one_after_the_other :
    Always countStep CounterOk (newCountState 1 40)
      [.addTaskToPool 30 ⟨.ProcessStdin, none⟩, .deTaskQueue ⟨0, Nat.one_pos⟩,
        .load ⟨0, Nat.one_pos⟩, .store ⟨0, Nat.one_pos⟩,
        .addTaskToPool 31 ⟨.ProcessStdin, none⟩] :=
  counterOk_of_countsInTime 1 40 _ (by decide +kernel)

/-- One worker, two tasks: the first is added, taken and its counter loaded, the second is
    added, and the store loses its increment.  When the worker has taken the second task
    too, the counter goes below zero. -/
theorem increment_lost :
    ∃ s, exec countStep (newCountState 1 40)
        [.addTaskToPool 30 ⟨.ProcessStdin, none⟩, .deTaskQueue ⟨0, Nat.one_pos⟩,
          .load ⟨0, Nat.one_pos⟩, .addTaskToPool 31 ⟨.ProcessStdin, none⟩,
          .store ⟨0, Nat.one_pos⟩, .ret ⟨0, Nat.one_pos⟩, .deTaskQueue ⟨0, Nat.one_pos⟩,
          .load ⟨0, Nat.one_pos⟩, .store ⟨0, Nat.one_pos⟩] = some s ∧ ¬ CounterOk s := by
  have hrun : (exec countStep (newCountState 1 40)
      [.addTaskToPool 30 ⟨.ProcessStdin, none⟩, .deTaskQueue ⟨0, Nat.one_pos⟩,
        .load ⟨0, Nat.one_pos⟩, .addTaskToPool 31 ⟨.ProcessStdin, none⟩,
        .store ⟨0, Nat.one_pos⟩, .ret ⟨0, Nat.one_pos⟩, .deTaskQueue ⟨0, Nat.one_pos⟩,
        .load ⟨0, Nat.one_pos⟩, .store ⟨0, Nat.one_pos⟩]).map CountState.wrapped =
      some true := by
    decide +kernel
  obtain ⟨s, hs, hwrapped⟩ := Option.map_eq_some_iff.mp hrun
  refine ⟨s, hs, fun h => ?_⟩
  rw [h.wrapped] at hwrapped
  cases hwrapped

end Step

end SocketPractice.SocketUdp
