import SocketPractice.SocketUdp.Routing

/-!
# The threads of the server (`server_epoll.c`, `server_udp.c`, `thread_pool.c`)

`ServerEpollThread` gives the pool a task for every event, workers take the tasks and
run their handlers, and `SrvMsgProcessThread` turns the messages that `PorcessUdpMsg`
queued into tasks.  Each thread has a program counter, and a step is a critical section
or an access to memory between two of them.

Every argument of a task is a block of its own, made by the thread that adds the task.
The block passes with the task to the pool and on to the worker, so nobody else writes
to it or frees it meanwhile: `SrvMsgProcessThread` may use its buffer again as soon as
it has made the copy.

The queue and the pool are there from the start and are not destroyed.  A handler that
ends the program, as a lookup without a result does, ends the run.
-/

namespace SocketPractice.SocketUdp

open Lib.Bytes Lib.Links Lib.Runs Common
open Lib.Memory (Store Ptr)

/-! ## 1. The threads -/

inductive EpollPc where
  | waiting
  /-- In `AddTaskToServerPoolReleaseArgMem`, the copy is made. -/
  | adding (handler : Handler) (tmp : Addr)
deriving DecidableEq

/-- `SrvMsgProcessThread`. -/
inductive MoverPc where
  | receiving
  | copying
  | adding (tmp : Addr)
deriving DecidableEq

/-- A worker in `ProcessTask` and in the handler it has called.  `n` is the number of
    messages that had been handed to tasks before. -/
inductive WorkerPc where
  | waiting
  | called (task : Task) (n : Nat)
  /-- `PorcessUdpMsg`, before `recvfrom`. -/
  | receiving
  /-- `PorcessUdpMsg`, before `EnSrvMsgQueue`. -/
  | enqueueing (rxBuf : LcMsg)
  /-- `SrvMsgProcessTask`, before `free`. -/
  | freeing (msgBuf : Ptr) (n : Nat)
deriving DecidableEq

/-- A task that was taken: by which worker, and what was in its block. -/
structure Handed where
  worker : Nat
  block : Option Arg
deriving DecidableEq

/-- The server with its history: the messages of `EnSrvMsgQueue` in the order of the
    calls, and the message tasks in the order in which they were taken. -/
structure PipeState where
  msgQueue : SrvMsgQueue
  pool : ThreadPool
  msgBuf : LcMsg
  epoll : EpollPc
  mover : MoverPc
  workers : Nat → WorkerPc
  faulted : Bool
  entered : List LcMsg
  handed : List Handed

inductive EpollLabel where
  | copy (handler : Handler) (fd : Int32) (tmp : Addr)
  | add (taskNode : Addr)

inductive MoverLabel where
  | receive (queue : Addr)
  | copy (tmp : Addr)
  | add (taskNode : Addr)

inductive WorkerLabel where
  | take
  | start
  | recv (ret : RecvRet sizeofLcMsg)
  | enqueue (queue node : Addr)
  | free

inductive PipeLabel where
  | epoll (l : EpollLabel)
  | mover (l : MoverLabel)
  | worker (w : Nat) (l : WorkerLabel)

namespace PipeState

/-- Go on with the result of an operation that may touch memory it must not. -/
def orFault {α : Type} (s : PipeState) (x : Option α) (next : α → PipeState) : PipeState :=
  match x with
  | some a => next a
  | none => { s with faulted := true }

def setWorker (s : PipeState) (w : Nat) (pc : WorkerPc) : PipeState :=
  { s with workers := Function.update s.workers w pc }

end PipeState

/-- An event is one on standard input or on the socket. -/
def epollStep (s : PipeState) (l : EpollLabel) : Option PipeState :=
  match s.epoll, l with
  | .waiting, .copy handler fd tmp =>
      if handler ≠ .SrvMsgProcessTask ∧ s.pool.args tmp = none then
        some { s with pool := copyArg s.pool tmp (.fd fd), epoll := .adding handler tmp }
      else none
  | .adding handler tmp, .add taskNode =>
      if s.pool.heap taskNode = none then
        some (s.orFault (addTaskToPool s.pool taskNode handler (some tmp)) fun pool =>
          { s with pool := pool, epoll := .waiting })
      else none
  | _, _ => none

def moverStep (s : PipeState) (l : MoverLabel) : Option PipeState :=
  match s.mover, l with
  | .receiving, .receive queue =>
      some (s.orFault (deSrvMsgQueue s.msgQueue queue true) fun (msgQueue, ret, lcMsg) =>
        if ret = .QUEUE_EMPTY then { s with msgQueue := msgQueue }
        else { s with msgQueue := msgQueue, msgBuf := lcMsg.getD s.msgBuf, mover := .copying })
  | .copying, .copy tmp =>
      if s.pool.args tmp = none then
        some { s with pool := copyArg s.pool tmp (.lcMsg s.msgBuf), mover := .adding tmp }
      else none
  | .adding tmp, .add taskNode =>
      if s.pool.heap taskNode = none then
        some (s.orFault (addTaskToPool s.pool taskNode .SrvMsgProcessTask (some tmp)) fun pool =>
          { s with pool := pool, mover := .receiving })
      else none
  | _, _ => none

/-- The messages that a taken task hands over. -/
def handOver (pool : ThreadPool) (w : Nat) (task : Task) : List Handed :=
  if task.Handler = .SrvMsgProcessTask then [⟨w, pool.args.load task.arg⟩] else []

/-- What the handlers do with their argument first: `PorcessUdpMsg` and `ProcessStdin`
    read the descriptor and free it, `SrvMsgProcessTask` looks at the message. -/
def startHandler (s : PipeState) (w : Nat) (task : Task) (n : Nat) : Option PipeState :=
  match task.Handler with
  | .ProcessStdin => do
      let .fd _ ← s.pool.args.load task.arg | none
      let args ← s.pool.args.free task.arg
      return { s with pool := { s.pool with args := args } }.setWorker w .waiting
  | .PorcessUdpMsg => do
      let .fd _ ← s.pool.args.load task.arg | none
      let args ← s.pool.args.free task.arg
      return { s with pool := { s.pool with args := args } }.setWorker w .receiving
  | .SrvMsgProcessTask =>
      if task.arg = none then some (s.setWorker w .waiting)
      else do
        let .lcMsg msgBuf ← s.pool.args.load task.arg | none
        if IsDataMsg msgBuf ∧ LcMsg.destEndID msgBuf = SETVER_ENDID then
          return s.setWorker w .waiting
        return s.setWorker w (.freeing task.arg n)

def workerStep (s : PipeState) (w : Nat) (l : WorkerLabel) : Option PipeState :=
  match s.workers w, l with
  | .waiting, .take =>
      some (s.orFault (takeTask s.pool) fun (pool, task) =>
        match task with
        | none => s
        | some task =>
            { s with pool := pool, handed := s.handed ++ handOver pool w task }.setWorker w
              (.called task s.handed.length))
  | .called task n, .start => some (s.orFault (startHandler s w task n) id)
  | .receiving, .recv ret =>
      match ret with
      | .data c =>
          if ¬ IsSaveCliInfo (rxBuf c) ∧ IsDataMsg (rxBuf c) then
            some (s.setWorker w (.enqueueing (rxBuf c)))
          else some (s.setWorker w .waiting)
      | _ => some (s.setWorker w .waiting)
  | .enqueueing rxBuf, .enqueue queue node =>
      if s.msgQueue.heap node = none ∧ node ≠ queue then
        some (s.orFault (enSrvMsgQueue s.msgQueue queue node (some rxBuf)) fun (msgQueue, _) =>
          { s with msgQueue := msgQueue, entered := s.entered ++ [rxBuf] }.setWorker w .waiting)
      else none
  | .freeing msgBuf _, .free =>
      some (s.orFault (s.pool.args.free msgBuf) fun args =>
        { s with pool := { s.pool with args := args } }.setWorker w .waiting)
  | _, _ => none

def pipeStep (s : PipeState) (l : PipeLabel) : Option PipeState :=
  if s.faulted then none
  else
    match l with
    | .epoll l => epollStep s l
    | .mover l => moverStep s l
    | .worker w l => workerStep s w l

/-- All threads at their start, both queues made and empty. -/
def newPipe (queue taskQueue : Addr) (msgBuf : LcMsg) : PipeState where
  msgQueue := { heap := initListHead Heap.empty queue, queue := some queue }
  pool := { heap := initListHead Heap.empty taskQueue, taskQueue := some taskQueue,
            args := fun _ => none }
  msgBuf := msgBuf
  epoll := .waiting
  mover := .receiving
  workers := fun _ => .waiting
  faulted := false
  entered := []
  handed := []

/-! ## 2. A thread that is not interrupted -/

/-- When no other thread moves in between, the steps of `SrvMsgProcessThread` that move
    a message are one round of its loop. -/
theorem exec_mover_alone {s : PipeState} {srv srv' : ServerUdp} {queue tmp taskNode : Addr}
    {m msgBuf : LcMsg} {ms : List LcMsg} (hok : s.faulted = false) (hpc : s.mover = .receiving)
    (hqueue : srv.msgQueue = s.msgQueue) (hpool : srv.pool = s.pool)
    (hqueued : s.msgQueue.Queued (m :: ms)) (hunused : Unused srv (.move queue tmp taskNode))
    (hround : srvMsgProcessThread srv s.msgBuf queue tmp taskNode = some (srv', msgBuf)) :
    exec pipeStep s [.mover (.receive queue), .mover (.copy tmp), .mover (.add taskNode)] =
      some { s with msgQueue := srv'.msgQueue, pool := srv'.pool, msgBuf := msgBuf } := by
  obtain ⟨htmp, hnode⟩ := hunused
  obtain ⟨msgQueue, hde, -⟩ := deSrvMsgQueue_cons hqueued queue
  have hnode' : (copyArg s.pool tmp (.lcMsg m)).heap taskNode = none := by
    rw [← hpool]
    exact hnode
  simp only [srvMsgProcessThread, hqueue, hde, Option.bind_eq_bind, Option.bind_some,
    Option.getD_some, Option.pure_def, hpool] at hround
  rw [if_neg (by simp)] at hround
  obtain ⟨pool, hadd, hsrv⟩ := Option.bind_eq_some_iff.mp hround
  obtain ⟨rfl, rfl⟩ := Prod.mk.inj (Option.some.inj hsrv)
  rw [hpool] at htmp
  have hadd' : addTaskToPool (copyArg s.pool tmp (.lcMsg m)) taskNode .SrvMsgProcessTask
      (some tmp) = some pool := hadd
  simp [exec, pipeStep, moverStep, PipeState.orFault, hok, hpc, hde, htmp, hnode', hadd']

end SocketPractice.SocketUdp
