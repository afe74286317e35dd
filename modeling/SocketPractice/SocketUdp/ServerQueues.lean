import SocketPractice.Common.ListQueue
import SocketPractice.Lib.Memory
import SocketPractice.SocketUdp.LcMsg

/-!
# The queues of the server (`server_lcmsgqueue.c`, `server_threadpool.c`)

Messages wait in one queue and tasks in another; both copy what they are given to a
node at the tail.  A task points to its argument, of which
`AddTaskToServerPoolReleaseArgMem` makes a copy in a block of its own.

Each function here is one critical section, with the addresses that `malloc` returns in
it as parameters.  `none` is an access to memory that is not allocated.
-/

namespace SocketPractice.SocketUdp

open Lib.Links Common
open Lib.Memory (Store Ptr)

/-! ## 1. Messages (`lcmsg_queue.c`) -/

def enMsgQueue (h : Heap LcMsg) (msgQueueNode : Addr) (msgQueue : Ptr) (lcMsg : Option LcMsg) :
    Option (Heap LcMsg × QueueRet) :=
  enToTail h msgQueueNode msgQueue lcMsg

def deMsgQueue (h : Heap LcMsg) (msgQueue : Ptr) (want : Bool) :
    Option (Heap LcMsg × QueueRet × Option LcMsg) :=
  deFromQueue h msgQueue want

/-- `g_srvMsgQueue`, which is `NULL` as long as there is no `queue`. -/
structure SrvMsgQueue where
  heap : Heap LcMsg
  queue : Ptr

def initSrvMsgQueue (s : SrvMsgQueue) (queue : Addr) : SrvMsgQueue :=
  if s.queue.isSome then s
  else { heap := initListHead s.heap queue, queue := some queue }

def enSrvMsgQueue (s : SrvMsgQueue) (queue msgQueueNode : Addr) (lcMsg : Option LcMsg) :
    Option (SrvMsgQueue × QueueRet) := do
  let s := initSrvMsgQueue s queue
  let (heap, ret) ← enMsgQueue s.heap msgQueueNode s.queue lcMsg
  return ({ s with heap := heap }, ret)

def deSrvMsgQueue (s : SrvMsgQueue) (queue : Addr) (want : Bool) :
    Option (SrvMsgQueue × QueueRet × Option LcMsg) := do
  let s := initSrvMsgQueue s queue
  let (heap, ret, lcMsg) ← deMsgQueue s.heap s.queue want
  return ({ s with heap := heap }, ret, lcMsg)

/-! ## 2. Tasks (`task_queue.c`, `thread_pool.c`) -/

/-- The functions that are given to the pool. -/
inductive Handler where
  | ProcessStdin
  | PorcessUdpMsg
  | SrvMsgProcessTask
deriving DecidableEq, Repr

structure Task where
  Handler : Handler
  arg : Ptr
deriving DecidableEq, Repr

/-- What a task's argument points to. -/
inductive Arg where
  | fd (fd : Int32)
  | lcMsg (msg : LcMsg)
deriving DecidableEq

/-- The pool and the blocks that tasks have as arguments. -/
structure ThreadPool where
  heap : Heap Task
  taskQueue : Ptr
  args : Store Arg

def enTaskQueue (h : Heap Task) (taskNode : Addr) (taskQueue : Ptr) (task : Option Task) :
    Option (Heap Task × QueueRet) :=
  enToTail h taskNode taskQueue task

def deTaskQueue (h : Heap Task) (taskQueue : Ptr) (want : Bool) :
    Option (Heap Task × QueueRet × Option Task) :=
  deFromQueue h taskQueue want

/-- The critical section, which is passed whether or not the task was queued. -/
def addTaskToPool (pool : ThreadPool) (taskNode : Addr) (handler : Handler) (arg : Ptr) :
    Option ThreadPool := do
  let (heap, _) ← enTaskQueue pool.heap taskNode pool.taskQueue (some ⟨handler, arg⟩)
  return { pool with heap := heap }

/-- The copy that `AddTaskToServerPoolReleaseArgMem` makes before it adds the task. -/
def copyArg (pool : ThreadPool) (tmp : Addr) (arg : Arg) : ThreadPool :=
  { pool with args := pool.args.malloc (some tmp) arg }

def addTaskToServerPoolReleaseArgMem (pool : ThreadPool) (tmp taskNode : Addr)
    (handler : Handler) (arg : Arg) : Option ThreadPool :=
  addTaskToPool (copyArg pool tmp arg) taskNode handler (some tmp)

/-- The critical section of `ProcessTask`: the task it takes, if there is one. -/
def takeTask (pool : ThreadPool) : Option (ThreadPool × Option Task) := do
  let (heap, _, task) ← deTaskQueue pool.heap pool.taskQueue true
  return ({ pool with heap := heap }, task)

/-! ## 3. What the queues hold -/

/-- The messages in the queue, oldest first; before the first call there is no queue. -/
def SrvMsgQueue.Queued (s : SrvMsgQueue) (ms : List LcMsg) : Prop :=
  match s.queue with
  | none => ms = []
  | some q => Holds s.heap q ms

def ThreadPool.Queued (pool : ThreadPool) (tasks : List Task) : Prop :=
  ∃ q, pool.taskQueue = some q ∧ Holds pool.heap q tasks

section Specs

variable {s : SrvMsgQueue} {ms : List LcMsg} {pool : ThreadPool} {tasks : List Task}

theorem ThreadPool.Queued.unique {tasks' : List Task} (h : pool.Queued tasks)
    (h' : pool.Queued tasks') : tasks = tasks' := by
  obtain ⟨q, hq, hh⟩ := h
  obtain ⟨q', hq', hh'⟩ := h'
  obtain rfl : q = q' := Option.some.inj (hq.symm.trans hq')
  exact hh.unique hh'

theorem initSrvMsgQueue_spec (hs : s.Queued ms) (queue : Addr) :
    ∃ q, (initSrvMsgQueue s queue).queue = some q ∧
      Holds (initSrvMsgQueue s queue).heap q ms ∧
      ∀ x, x ≠ queue → (initSrvMsgQueue s queue).heap x = s.heap x := by
  unfold initSrvMsgQueue
  unfold SrvMsgQueue.Queued at hs
  cases hq : s.queue with
  | some q =>
      rw [hq] at hs
      exact ⟨q, by simp [hq], by simpa using hs, by simp⟩
  | none =>
      rw [hq] at hs
      have hs : ms = [] := hs
      subst hs
      refine ⟨queue, by simp, ⟨[], by simpa using initListHead_circular s.heap queue, rfl⟩, ?_⟩
      intro x hx
      simp [initListHead, Heap.alloc, hx]

theorem enSrvMsgQueue_spec (hs : s.Queued ms) {queue node : Addr} (hnode : s.heap node = none)
    (hne : node ≠ queue) (m : LcMsg) :
    ∃ s', enSrvMsgQueue s queue node (some m) = some (s', .QUEUE_SUCCESS) ∧
      s'.Queued (ms ++ [m]) := by
  obtain ⟨q, hq, hh, hother⟩ := initSrvMsgQueue_spec hs queue
  have hfresh : (initSrvMsgQueue s queue).heap node = none := by rw [hother node hne, hnode]
  obtain ⟨h', heq, hh', -⟩ := enToTail_holds hh hfresh m
  refine ⟨_, by simp [enSrvMsgQueue, enMsgQueue, hq, heq]; rfl, ?_⟩
  simpa [SrvMsgQueue.Queued, hq] using hh'

theorem deSrvMsgQueue_nil (hs : s.Queued []) (queue : Addr) :
    ∃ s', deSrvMsgQueue s queue true = some (s', .QUEUE_EMPTY, none) ∧ s'.Queued [] := by
  obtain ⟨q, hq, hh, -⟩ := initSrvMsgQueue_spec hs queue
  refine ⟨_, by simp [deSrvMsgQueue, deMsgQueue, hq, deFromQueue_nil hh]; rfl, ?_⟩
  simpa [SrvMsgQueue.Queued, hq] using hh

theorem deSrvMsgQueue_cons {m : LcMsg} (hs : s.Queued (m :: ms)) (queue : Addr) :
    ∃ s', deSrvMsgQueue s queue true = some (s', .QUEUE_SUCCESS, some m) ∧ s'.Queued ms := by
  obtain ⟨q, hq, hh, -⟩ := initSrvMsgQueue_spec hs queue
  obtain ⟨h', node, heq, hh', -⟩ := deFromQueue_cons hh true
  refine ⟨_, by simp [deSrvMsgQueue, deMsgQueue, hq, heq]; rfl, ?_⟩
  simpa [SrvMsgQueue.Queued, hq] using hh'

theorem addTaskToPool_spec (hp : pool.Queued tasks) {taskNode : Addr}
    (hnode : pool.heap taskNode = none) (handler : Handler) (arg : Ptr) :
    ∃ pool', addTaskToPool pool taskNode handler arg = some pool' ∧
      pool'.Queued (tasks ++ [⟨handler, arg⟩]) ∧ pool'.args = pool.args := by
  obtain ⟨q, hq, hh⟩ := hp
  obtain ⟨h', heq, hh', -⟩ := enToTail_holds hh hnode (⟨handler, arg⟩ : Task)
  exact ⟨{ pool with heap := h' }, by simp [addTaskToPool, enTaskQueue, hq, heq],
    ⟨q, hq, hh'⟩, rfl⟩

theorem takeTask_nil (hp : pool.Queued []) : takeTask pool = some (pool, none) := by
  obtain ⟨q, hq, hh⟩ := hp
  have hde : deTaskQueue pool.heap pool.taskQueue true = some (pool.heap, .QUEUE_EMPTY, none) := by
    rw [deTaskQueue, hq]
    exact deFromQueue_nil hh true
  rw [takeTask, hde]
  rfl

theorem takeTask_cons {task : Task} (hp : pool.Queued (task :: tasks)) :
    ∃ pool', takeTask pool = some (pool', some task) ∧ pool'.Queued tasks ∧
      pool'.args = pool.args := by
  obtain ⟨q, hq, hh⟩ := hp
  obtain ⟨h', node, heq, hh', -⟩ := deFromQueue_cons hh true
  exact ⟨{ pool with heap := h' }, by simp [takeTask, deTaskQueue, hq, heq],
    ⟨q, hq, hh'⟩, rfl⟩

end Specs

/-! ## 4. The addresses in use -/

section Bounded

variable {s s' : SrvMsgQueue} {ms : List LcMsg} {pool pool' : ThreadPool} {tasks : List Task}

theorem addTaskToPool_bounded (hp : pool.Queued tasks) {taskNode : Addr}
    (hnode : pool.heap taskNode = none) {handler : Handler} {arg : Ptr}
    (hadd : addTaskToPool pool taskNode handler arg = some pool')
    (hb : Store.Bounded pool.heap) : Store.Bounded pool'.heap := by
  obtain ⟨q, hq, hh⟩ := hp
  obtain ⟨h', heq, -, hlive⟩ := enToTail_holds hh hnode (⟨handler, arg⟩ : Task)
  simp only [addTaskToPool, enTaskQueue, hq, heq, Option.bind_eq_bind, Option.bind_some,
    Option.pure_def, Option.some.injEq] at hadd
  subst hadd
  apply @Store.Bounded.of_isSome _ _ _ taskNode hb
  intro a hne hsome
  rwa [hlive a, decide_eq_false hne, Bool.false_or] at hsome

theorem takeTask_bounded (hp : pool.Queued tasks) {task : Option Task}
    (htake : takeTask pool = some (pool', task)) (hb : Store.Bounded pool.heap) :
    Store.Bounded pool'.heap := by
  obtain ⟨q, hq, hh⟩ := hp
  cases tasks with
  | nil =>
      simp only [takeTask, deTaskQueue, hq, deFromQueue_nil hh, Option.bind_eq_bind,
        Option.bind_some, Option.pure_def, Option.some.injEq, Prod.mk.injEq] at htake
      obtain ⟨rfl, -⟩ := htake
      exact hb
  | cons task' tasks =>
      obtain ⟨h', node, heq, -, -, hlive⟩ := deFromQueue_cons hh true
      simp only [takeTask, deTaskQueue, hq, heq, Option.bind_eq_bind, Option.bind_some,
        Option.pure_def, Option.some.injEq, Prod.mk.injEq] at htake
      obtain ⟨rfl, -⟩ := htake
      apply @Store.Bounded.of_isSome _ _ _ node hb
      intro a hne hsome
      rwa [hlive a hne] at hsome

theorem initSrvMsgQueue_bounded (hs : s.Queued ms) (queue : Addr) (hb : Store.Bounded s.heap) :
    Store.Bounded (initSrvMsgQueue s queue).heap := by
  obtain ⟨-, -, -, hother⟩ := initSrvMsgQueue_spec hs queue
  apply @Store.Bounded.of_isSome _ _ _ queue hb
  intro a hne hsome
  rwa [hother a hne] at hsome

theorem enSrvMsgQueue_bounded (hs : s.Queued ms) {queue node : Addr} (hnode : s.heap node = none)
    (hne : node ≠ queue) {m : LcMsg} {ret : QueueRet}
    (hen : enSrvMsgQueue s queue node (some m) = some (s', ret)) (hb : Store.Bounded s.heap) :
    Store.Bounded s'.heap := by
  have hinit := initSrvMsgQueue_bounded hs queue hb
  obtain ⟨q, hq, hh, hother⟩ := initSrvMsgQueue_spec hs queue
  have hfresh : (initSrvMsgQueue s queue).heap node = none := by rw [hother node hne, hnode]
  obtain ⟨h', heq, -, hlive⟩ := enToTail_holds hh hfresh m
  simp only [enSrvMsgQueue, enMsgQueue, hq, heq, Option.bind_eq_bind, Option.bind_some,
    Option.pure_def, Option.some.injEq, Prod.mk.injEq] at hen
  obtain ⟨rfl, -⟩ := hen
  apply @Store.Bounded.of_isSome _ _ _ node hinit
  intro a hne' hsome
  rwa [hlive a, decide_eq_false hne', Bool.false_or] at hsome

theorem deSrvMsgQueue_bounded (hs : s.Queued ms) {queue : Addr} {ret : QueueRet}
    {msg : Option LcMsg} (hde : deSrvMsgQueue s queue true = some (s', ret, msg))
    (hb : Store.Bounded s.heap) : Store.Bounded s'.heap := by
  have hinit := initSrvMsgQueue_bounded hs queue hb
  obtain ⟨q, hq, hh, -⟩ := initSrvMsgQueue_spec hs queue
  cases ms with
  | nil =>
      simp only [deSrvMsgQueue, deMsgQueue, hq, deFromQueue_nil hh, Option.bind_eq_bind,
        Option.bind_some, Option.pure_def, Option.some.injEq, Prod.mk.injEq] at hde
      obtain ⟨rfl, -⟩ := hde
      exact hinit
  | cons m ms =>
      obtain ⟨h', node, heq, -, -, hlive⟩ := deFromQueue_cons hh true
      simp only [deSrvMsgQueue, deMsgQueue, hq, heq, Option.bind_eq_bind, Option.bind_some,
        Option.pure_def, Option.some.injEq, Prod.mk.injEq] at hde
      obtain ⟨rfl, -⟩ := hde
      apply @Store.Bounded.of_isSome _ _ _ node hinit
      intro a hne hsome
      rwa [hlive a hne] at hsome

end Bounded

end SocketPractice.SocketUdp
