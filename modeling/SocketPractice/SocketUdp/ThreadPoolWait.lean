import SocketPractice.Lib.Runs
import SocketPractice.Lib.Threads
import SocketPractice.SocketUdp.ServerQueues

/-!
# Waiting for tasks (`thread_pool.c`)

The workers of the pool wait on a condition variable for tasks.  `AddTaskToPool` queues a
task under the mutex, gives the mutex up and signals only then, so a signal comes after
the fact and may find nobody, and a worker that it wakes may find the queue empty.

Here every statement on the mutex, the queue and the condition variable is a step.  A wait
gives the mutex up in the step in which the worker blocks; a signal wakes some of the
workers that wait, at least one if there is one; and a worker may wake up by itself.  The
mutex is taken in two steps where the worker was woken: it has to own it again before
`pthread_cond_wait` returns.

Any number of threads adds tasks.  A worker whose handler adds one is a caller like the
others while its own counter stays at the handler.
-/

namespace SocketPractice.SocketUdp

open Lib.Links Lib.Runs Lib.Threads Common
open Lib.Memory (Ptr)

/-! ## 1. The threads -/

/-- Where a worker is in the loop of `ProcessTask`. -/
inductive ProcessTaskPc where
  | locking
  | dequeuing
  | empty
  | blocked
  | woken
  | unlocking (task : Option Task)
  | handling (task : Task)

/-- Where a thread is in a call of `AddTaskToPool`. -/
inductive AddTaskToPoolPc where
  | idle
  | locking (task : Task)
  | enqueuing (task : Task)
  | unlocking
  | signalling

inductive PoolThread (n : Nat) where
  | worker (w : Fin n)
  | caller (p : Nat)
deriving DecidableEq

structure WaitState (n : Nat) where
  mutex : Option (PoolThread n)
  pool : ThreadPool
  workers : Fin n → ProcessTaskPc
  callers : Nat → AddTaskToPoolPc
  /-- Memory was accessed that is not allocated. -/
  fault : Bool

inductive WaitEvent (n : Nat) where
  | call (p : Nat) (handler : Handler) (arg : Ptr)
  | callerLock (p : Nat)
  | enTaskQueue (p : Nat) (taskNode : Addr)
  | callerUnlock (p : Nat)
  | signal (p : Nat) (woken : Finset (Fin n))
  | lock (w : Fin n)
  | deTaskQueue (w : Fin n)
  | wait (w : Fin n)
  | wakeUp (w : Fin n)
  | unlock (w : Fin n)
  | ret (w : Fin n)

section Step

variable {n : Nat}

def WaitState.setWorker (s : WaitState n) (w : Fin n) (pc : ProcessTaskPc) : WaitState n :=
  { s with workers := Function.update s.workers w pc }

def WaitState.setCaller (s : WaitState n) (p : Nat) (pc : AddTaskToPoolPc) : WaitState n :=
  { s with callers := Function.update s.callers p pc }

def ProcessTaskPc.waits : ProcessTaskPc → Bool
  | .blocked => true
  | _ => false

/-- Whom a signal may wake. -/
def MayWake (workers : Fin n → ProcessTaskPc) (woken : Finset (Fin n)) : Prop :=
  (∀ w ∈ woken, (workers w).waits = true) ∧
    ((∃ w, (workers w).waits = true) → woken.Nonempty)

instance (workers : Fin n → ProcessTaskPc) (woken : Finset (Fin n)) :
    Decidable (MayWake workers woken) :=
  inferInstanceAs (Decidable (_ ∧ _))

def waitStep (s : WaitState n) : WaitEvent n → Option (WaitState n)
  | .call p handler arg =>
      match s.callers p with
      | .idle => some (s.setCaller p (.locking ⟨handler, arg⟩))
      | _ => none
  | .callerLock p =>
      match s.callers p, s.mutex with
      | .locking task, none =>
          some { s.setCaller p (.enqueuing task) with mutex := some (.caller p) }
      | _, _ => none
  | .enTaskQueue p taskNode =>
      match s.callers p with
      | .enqueuing task =>
          if s.pool.heap taskNode = none then
            match addTaskToPool s.pool taskNode task.Handler task.arg with
            | none => some { s with fault := true }
            | some pool => some { s.setCaller p .unlocking with pool := pool }
          else none
      | _ => none
  | .callerUnlock p =>
      match s.callers p with
      | .unlocking => some { s.setCaller p .signalling with mutex := none }
      | _ => none
  | .signal p woken =>
      match s.callers p with
      | .signalling =>
          if MayWake s.workers woken then
            some { s.setCaller p .idle with
              workers := fun w => if w ∈ woken then .woken else s.workers w }
          else none
      | _ => none
  | .lock w =>
      match s.workers w, s.mutex with
      | .locking, none => some { s.setWorker w .dequeuing with mutex := some (.worker w) }
      | .woken, none => some { s.setWorker w .dequeuing with mutex := some (.worker w) }
      | _, _ => none
  | .deTaskQueue w =>
      match s.workers w with
      | .dequeuing =>
          match deTaskQueue s.pool.heap s.pool.taskQueue true with
          | none => some { s with fault := true }
          | some (heap, .QUEUE_EMPTY, _) =>
              some { s.setWorker w .empty with pool := { s.pool with heap := heap } }
          | some (heap, .QUEUE_SUCCESS, task) =>
              some { s.setWorker w (.unlocking task) with pool := { s.pool with heap := heap } }
          | some (heap, _, _) =>
              some { s.setWorker w (.unlocking none) with pool := { s.pool with heap := heap } }
      | _ => none
  | .wait w =>
      match s.workers w with
      | .empty => some { s.setWorker w .blocked with mutex := none }
      | _ => none
  | .wakeUp w =>
      match s.workers w with
      | .blocked => some (s.setWorker w .woken)
      | _ => none
  | .unlock w =>
      match s.workers w with
      | .unlocking (some task) => some { s.setWorker w (.handling task) with mutex := none }
      | .unlocking none => some { s.setWorker w .locking with mutex := none }
      | _ => none
  | .ret w =>
      match s.workers w with
      | .handling _ => some (s.setWorker w .locking)
      | _ => none

/-- The pool as `CreateThreadPool` makes it, before its first worker runs. -/
def newWaitState (n : Nat) (taskQueue : Addr) : WaitState n :=
  { mutex := none
    pool := { heap := initListHead Heap.empty taskQueue, taskQueue := some taskQueue,
              args := fun _ => none }
    workers := fun _ => .locking
    callers := fun _ => .idle
    fault := false }

/-! ## 2. The invariant

A worker blocks only after it saw the queue empty under the mutex that it gives up in the
same step, so no task can have been queued in between; and whoever queued one since then
owes a signal. -/

def ProcessTaskPc.inside : ProcessTaskPc → Bool
  | .dequeuing => true
  | .empty => true
  | .unlocking _ => true
  | _ => false

def AddTaskToPoolPc.inside : AddTaskToPoolPc → Bool
  | .enqueuing _ => true
  | .unlocking => true
  | _ => false

/-- The caller has queued its task and not signalled. -/
def AddTaskToPoolPc.owesSignal : AddTaskToPoolPc → Bool
  | .unlocking => true
  | .signalling => true
  | _ => false

/-- Somebody will look at the queue: a worker that does not wait, or one that a signal
    still to come wakes. -/
def Attended (s : WaitState n) : Prop :=
  (∃ w, (s.workers w).waits = false) ∨ ∃ p, (s.callers p).owesSignal = true

/-- No wake-up was lost: the queue is sound, and while it is not empty somebody will look
    at it. -/
def NoLostWakeUp (s : WaitState n) : Prop :=
  s.fault = false ∧ ∃ tasks, s.pool.Queued tasks ∧ (tasks ≠ [] → Attended s)

structure WaitInv (s : WaitState n) (tasks : List Task) : Prop where
  sound : s.fault = false
  queued : s.pool.Queued tasks
  workersExcl : Excl s.mutex PoolThread.worker ProcessTaskPc.inside s.workers
  callersExcl : Excl s.mutex PoolThread.caller AddTaskToPoolPc.inside s.callers
  empty : ∀ w, s.workers w = .empty → tasks = []
  attended : tasks ≠ [] → Attended s

end Step

section Steps

variable {n : Nat} {s t : WaitState n} {tasks tasks' : List Task} {pool : ThreadPool}

theorem worker_injective : Function.Injective (PoolThread.worker (n := n)) := by
  intro w v h
  cases h
  rfl

theorem caller_injective : Function.Injective (PoolThread.caller (n := n)) := by
  intro p q h
  cases h
  rfl

/-- Who owns the mutex is the only thread that can have seen the queue empty. -/
theorem WaitInv.empty_owns (h : WaitInv s tasks) {w : Fin n} (hw : s.workers w = .empty) :
    s.mutex = some (.worker w) :=
  (h.workersExcl w).mp (by rw [hw]; rfl)

/-! ### Workers -/

/-- A worker that moves on without blocking attends to the queue itself. -/
theorem WaitInv.moveWorker (h : WaitInv s tasks) {w : Fin n} {pc : ProcessTaskPc}
    {mutex : Option (PoolThread n)} (hwaits : pc.waits = false) (hqueued : pool.Queued tasks')
    (hworkers : Excl mutex PoolThread.worker ProcessTaskPc.inside
      (Function.update s.workers w pc))
    (hcallers : Excl mutex PoolThread.caller AddTaskToPoolPc.inside s.callers)
    (hempty : pc = .empty → tasks' = [])
    (hothers : ∀ v, v ≠ w → s.workers v = .empty → tasks' = []) :
    WaitInv { s.setWorker w pc with pool := pool, mutex := mutex } tasks' where
  sound := h.sound
  queued := hqueued
  workersExcl := hworkers
  callersExcl := hcallers
  empty := by
    intro v hv
    by_cases hvw : v = w
    · subst hvw
      exact hempty (by simpa [WaitState.setWorker] using hv)
    · exact hothers v hvw (by simpa [WaitState.setWorker, Function.update_of_ne hvw] using hv)
  attended := fun _ => Or.inl ⟨w, by simpa [WaitState.setWorker] using hwaits⟩

theorem WaitInv.lockWorker (h : WaitInv s tasks) {w : Fin n} (hfree : s.mutex = none) :
    WaitInv { s.setWorker w .dequeuing with mutex := some (.worker w) } tasks := by
  have hworkers := h.workersExcl
  have hcallers := h.callersExcl
  rw [hfree] at hworkers hcallers
  apply h.moveWorker rfl h.queued
  · exact hworkers.lock worker_injective rfl
  · exact hcallers.of_other (by simp) (by simp)
  · intro hpc
    cases hpc
  · intro v _ hv
    exact h.empty v hv

theorem WaitInv.unlockWorker (h : WaitInv s tasks) {w : Fin n} {task : Option Task}
    {pc : ProcessTaskPc} (hpc : s.workers w = .unlocking task) (hwaits : pc.waits = false)
    (hinside : pc.inside = false) :
    WaitInv { s.setWorker w pc with mutex := none } tasks := by
  have hmutex : s.mutex = some (.worker w) := (h.workersExcl w).mp (by rw [hpc]; rfl)
  have hworkers := h.workersExcl
  have hcallers := h.callersExcl
  rw [hmutex] at hworkers hcallers
  apply h.moveWorker hwaits h.queued
  · exact hworkers.unlock worker_injective hinside
  · exact hcallers.of_other (by simp) (by simp)
  · intro heq
    rw [heq] at hinside
    cases hinside
  · intro v _ hv
    exact h.empty v hv

/-- A step of a worker that leaves the mutex alone. -/
theorem WaitInv.goOn (h : WaitInv s tasks) {w : Fin n} {pc : ProcessTaskPc}
    (hsame : pc.inside = (s.workers w).inside) (hwaits : pc.waits = false)
    (hinside : pc.inside = false) : WaitInv (s.setWorker w pc) tasks := by
  apply h.moveWorker hwaits h.queued (h.workersExcl.stay hsame) h.callersExcl
  · intro heq
    rw [heq] at hinside
    cases hinside
  · intro v _ hv
    exact h.empty v hv

theorem WaitInv.deTaskQueue (h : WaitInv s tasks) {w : Fin n} (hpc : s.workers w = .dequeuing)
    (hstep : waitStep s (.deTaskQueue w) = some t) : ∃ tasks', WaitInv t tasks' := by
  have hmutex : s.mutex = some (.worker w) := (h.workersExcl w).mp (by rw [hpc]; rfl)
  have hothers : ∀ v, v ≠ w → s.workers v ≠ .empty := by
    intro v hne hv
    have howns := h.empty_owns hv
    rw [hmutex] at howns
    exact hne (worker_injective (Option.some.inj howns)).symm
  obtain ⟨q, hq, hh⟩ := h.queued
  simp only [waitStep, hpc, hq] at hstep
  rcases tasks with _ | ⟨task, tasks⟩
  · rw [SocketUdp.deTaskQueue, deFromQueue_nil hh] at hstep
    simp only [Option.some.injEq] at hstep
    subst hstep
    refine ⟨[], h.moveWorker rfl ⟨q, rfl, hh⟩ (h.workersExcl.stay ?_) h.callersExcl ?_ ?_⟩
    · rw [hpc]
      rfl
    · intro _
      rfl
    · intro _ _ _
      rfl
  · obtain ⟨heap, node, hde, hh', -⟩ := deFromQueue_cons hh true
    rw [SocketUdp.deTaskQueue, hde] at hstep
    simp only [if_pos, Option.some.injEq] at hstep
    subst hstep
    refine ⟨tasks, h.moveWorker rfl ⟨q, rfl, hh'⟩ (h.workersExcl.stay ?_) h.callersExcl ?_ ?_⟩
    · rw [hpc]
      rfl
    · intro heq
      cases heq
    · intro v hne hv
      exact absurd hv (hothers v hne)

/-- A worker blocks on an empty queue. -/
theorem WaitInv.wait (h : WaitInv s tasks) {w : Fin n} (hpc : s.workers w = .empty) :
    WaitInv { s.setWorker w .blocked with mutex := none } tasks := by
  have hmutex := h.empty_owns hpc
  have hnil := h.empty w hpc
  have hworkers := h.workersExcl
  have hcallers := h.callersExcl
  rw [hmutex] at hworkers hcallers
  exact
    { sound := h.sound
      queued := h.queued
      workersExcl := hworkers.unlock worker_injective rfl
      callersExcl := hcallers.of_other (by simp) (by simp)
      empty := fun _ _ => hnil
      attended := fun hne => absurd hnil hne }

/-! ### Callers -/

theorem Attended.setCaller (h : Attended s) {p : Nat} {pc : AddTaskToPoolPc}
    (howes : (s.callers p).owesSignal = true → pc.owesSignal = true) :
    Attended (s.setCaller p pc) := by
  rcases h with hw | ⟨q, hq⟩
  · exact Or.inl hw
  · right
    by_cases hqp : q = p
    · subst hqp
      exact ⟨q, by simpa [WaitState.setCaller] using howes hq⟩
    · exact ⟨q, by simpa [WaitState.setCaller, Function.update_of_ne hqp] using hq⟩

theorem WaitInv.moveCaller (h : WaitInv s tasks) {p : Nat} {pc : AddTaskToPoolPc}
    {mutex : Option (PoolThread n)}
    (howes : (s.callers p).owesSignal = true → pc.owesSignal = true)
    (hworkers : Excl mutex PoolThread.worker ProcessTaskPc.inside s.workers)
    (hcallers : Excl mutex PoolThread.caller AddTaskToPoolPc.inside
      (Function.update s.callers p pc)) :
    WaitInv { s.setCaller p pc with mutex := mutex } tasks where
  sound := h.sound
  queued := h.queued
  workersExcl := hworkers
  callersExcl := hcallers
  empty := h.empty
  attended := fun hne => (h.attended hne).setCaller howes

theorem WaitInv.enTaskQueue (h : WaitInv s tasks) {p : Nat} {task : Task} {taskNode : Addr}
    (hpc : s.callers p = .enqueuing task)
    (hstep : waitStep s (.enTaskQueue p taskNode) = some t) : ∃ tasks', WaitInv t tasks' := by
  have hmutex : s.mutex = some (.caller p) := (h.callersExcl p).mp (by rw [hpc]; rfl)
  simp only [waitStep, hpc, Option.ite_none_right_eq_some] at hstep
  obtain ⟨hfresh, hstep⟩ := hstep
  obtain ⟨pool, hadd, hqueued, -⟩ := addTaskToPool_spec h.queued hfresh task.Handler task.arg
  rw [hadd] at hstep
  simp only [Option.some.injEq] at hstep
  subst hstep
  refine ⟨tasks ++ [task], h.sound, hqueued, h.workersExcl, h.callersExcl.stay ?_, ?_, ?_⟩
  · rw [hpc]
    rfl
  · intro w hw
    have howns := h.empty_owns hw
    rw [hmutex] at howns
    cases howns
  · intro _
    exact Or.inr ⟨p, by simp [WaitState.setCaller, AddTaskToPoolPc.owesSignal]⟩

theorem wake_inside {w : Fin n} {woken : Finset (Fin n)} (hmay : MayWake s.workers woken) :
    (if w ∈ woken then ProcessTaskPc.woken else s.workers w).inside = (s.workers w).inside := by
  by_cases hw : w ∈ woken
  · have hwaits := hmay.1 w hw
    rw [if_pos hw]
    cases hpc : s.workers w <;> simp_all [ProcessTaskPc.waits, ProcessTaskPc.inside]
  · rw [if_neg hw]

/-- After a signal some worker does not wait: one that was woken, or, if nobody waited,
    any. -/
theorem attended_signal (hn : 0 < n) {p : Nat} {woken : Finset (Fin n)}
    (hmay : MayWake s.workers woken) :
    Attended { s.setCaller p .idle with
      workers := fun w => if w ∈ woken then .woken else s.workers w } := by
  left
  by_cases hwaits : ∃ w, (s.workers w).waits = true
  · obtain ⟨w, hw⟩ := hmay.2 hwaits
    refine ⟨w, ?_⟩
    simp [hw, ProcessTaskPc.waits]
  · have hnone : ∀ w, (s.workers w).waits = false := by
      intro w
      exact Bool.eq_false_iff.mpr fun hw => hwaits ⟨w, hw⟩
    refine ⟨⟨0, hn⟩, ?_⟩
    by_cases hw : (⟨0, hn⟩ : Fin n) ∈ woken
    · simp [hw, ProcessTaskPc.waits]
    · simpa [hw] using hnone ⟨0, hn⟩

theorem WaitInv.signal (h : WaitInv s tasks) (hn : 0 < n) {p : Nat} {woken : Finset (Fin n)}
    (hpc : s.callers p = .signalling) (hmay : MayWake s.workers woken) :
    WaitInv { s.setCaller p .idle with
      workers := fun w => if w ∈ woken then .woken else s.workers w } tasks where
  sound := h.sound
  queued := h.queued
  workersExcl := h.workersExcl.congr fun _ => wake_inside hmay
  callersExcl := h.callersExcl.stay (by rw [hpc]; rfl)
  empty := by
    intro w hw
    by_cases hwoken : w ∈ woken
    · simp [hwoken] at hw
    · simp only [if_neg hwoken] at hw
      exact h.empty w hw
  attended := fun _ => attended_signal hn hmay

/-! ## 3. No lost wake-up -/

theorem waitInv_step (hn : 0 < n) (h : ∃ tasks, WaitInv s tasks) {e : WaitEvent n}
    (hstep : waitStep s e = some t) : ∃ tasks, WaitInv t tasks := by
  obtain ⟨tasks, h⟩ := h
  cases e with
  | call p handler arg =>
      simp only [waitStep] at hstep
      split at hstep
      · rename_i hpc
        cases hstep
        refine ⟨tasks, h.moveCaller ?_ h.workersExcl (h.callersExcl.stay ?_)⟩
        · intro howes
          rw [hpc] at howes
          cases howes
        · rw [hpc]
          rfl
      · cases hstep
  | callerLock p =>
      simp only [waitStep] at hstep
      split at hstep
      · rename_i task hpc hfree
        cases hstep
        have hworkers := h.workersExcl
        have hcallers := h.callersExcl
        rw [hfree] at hworkers hcallers
        refine ⟨tasks, h.moveCaller ?_ (hworkers.of_other (by simp) (by simp))
          (hcallers.lock caller_injective rfl)⟩
        intro howes
        rw [hpc] at howes
        cases howes
      · cases hstep
  | enTaskQueue p taskNode =>
      cases hpc : s.callers p with
      | enqueuing task => exact h.enTaskQueue hpc hstep
      | _ => simp [waitStep, hpc] at hstep
  | callerUnlock p =>
      simp only [waitStep] at hstep
      split at hstep
      · rename_i hpc
        cases hstep
        have hmutex : s.mutex = some (.caller p) := (h.callersExcl p).mp (by rw [hpc]; rfl)
        have hworkers := h.workersExcl
        have hcallers := h.callersExcl
        rw [hmutex] at hworkers hcallers
        exact ⟨tasks, h.moveCaller (fun _ => rfl) (hworkers.of_other (by simp) (by simp))
          (hcallers.unlock caller_injective rfl)⟩
      · cases hstep
  | signal p woken =>
      simp only [waitStep] at hstep
      split at hstep
      · rename_i hpc
        simp only [Option.ite_none_right_eq_some, Option.some.injEq] at hstep
        obtain ⟨hmay, rfl⟩ := hstep
        exact ⟨tasks, h.signal hn hpc hmay⟩
      · cases hstep
  | lock w =>
      simp only [waitStep] at hstep
      split at hstep
      · rename_i hpc hfree
        cases hstep
        exact ⟨tasks, h.lockWorker hfree⟩
      · rename_i hpc hfree
        cases hstep
        exact ⟨tasks, h.lockWorker hfree⟩
      · cases hstep
  | deTaskQueue w =>
      cases hpc : s.workers w with
      | dequeuing => exact h.deTaskQueue hpc hstep
      | _ => simp [waitStep, hpc] at hstep
  | wait w =>
      simp only [waitStep] at hstep
      split at hstep
      · rename_i hpc
        cases hstep
        exact ⟨tasks, h.wait hpc⟩
      · cases hstep
  | wakeUp w =>
      simp only [waitStep] at hstep
      split at hstep
      · rename_i hpc
        cases hstep
        exact ⟨tasks, h.goOn (by rw [hpc]; rfl) rfl rfl⟩
      · cases hstep
  | unlock w =>
      simp only [waitStep] at hstep
      split at hstep
      · rename_i task hpc
        cases hstep
        exact ⟨tasks, h.unlockWorker hpc rfl rfl⟩
      · rename_i hpc
        cases hstep
        exact ⟨tasks, h.unlockWorker hpc rfl rfl⟩
      · cases hstep
  | ret w =>
      simp only [waitStep] at hstep
      split at hstep
      · rename_i task hpc
        cases hstep
        exact ⟨tasks, h.goOn (by rw [hpc]; rfl) rfl rfl⟩
      · cases hstep

theorem newWaitState_inv (n : Nat) (taskQueue : Addr) : WaitInv (newWaitState n taskQueue) [] where
  sound := rfl
  queued := ⟨taskQueue, rfl, [], initListHead_circular Heap.empty taskQueue, rfl⟩
  workersExcl := fun w => by simp [newWaitState, ProcessTaskPc.inside]
  callersExcl := fun p => by simp [newWaitState, AddTaskToPoolPc.inside]
  empty := fun _ _ => rfl
  attended := fun hne => absurd rfl hne

theorem exec_waitInv (hn : 0 < n) (taskQueue : Addr) {es : List (WaitEvent n)}
    (hrun : exec waitStep (newWaitState n taskQueue) es = some s) :
    ∃ tasks, WaitInv s tasks := by
  apply exec_invariant (I := fun s => ∃ tasks, WaitInv s tasks) ?_
    ⟨[], newWaitState_inv n taskQueue⟩ hrun
  intro u e v hu huv
  exact waitInv_step hn hu huv

/-- The pool loses no wake-up: whenever its queue is not empty, a worker does not wait or
    a caller that queued a task has still to signal. -/
theorem task_pool_no_lost_wakeup (hn : 0 < n) (taskQueue : Addr) {es : List (WaitEvent n)}
    (hrun : exec waitStep (newWaitState n taskQueue) es = some s) : NoLostWakeUp s := by
  obtain ⟨tasks, h⟩ := exec_waitInv hn taskQueue hrun
  exact ⟨h.sound, tasks, h.queued, h.attended⟩

/-- Both workers find the queue empty and wait; a task is queued, its signal is to come. -/
def signalToCome : List (WaitEvent 2) :=
  let first : Fin 2 := ⟨0, Nat.two_pos⟩
  let second : Fin 2 := ⟨1, Nat.one_lt_two⟩
  [.lock first, .deTaskQueue first, .wait first, .lock second, .deTaskQueue second, .wait second,
    .call 0 .ProcessStdin none, .callerLock 0, .enTaskQueue 0 2, .callerUnlock 0]

theorem task_pool_no_lost_wakeup_signalToCome :
    ∃ s, exec waitStep (newWaitState 2 1) signalToCome = some s ∧
      (∀ w, (s.workers w).waits = true) ∧ NoLostWakeUp s := by
  have hrun : (exec waitStep (newWaitState 2 1) signalToCome).map
      (fun s => decide (∀ w, (s.workers w).waits = true)) = some true := by decide +kernel
  obtain ⟨s, hs, hwaits⟩ := Option.map_eq_some_iff.mp hrun
  exact ⟨s, hs, of_decide_eq_true hwaits, task_pool_no_lost_wakeup (by decide) 1 hs⟩

end Steps

end SocketPractice.SocketUdp
