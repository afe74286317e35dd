import SocketPractice.Common.ListQueue
import SocketPractice.Lib.Runs
import SocketPractice.Lib.Threads

/-!
# The thread pool (`thread_pool.c`, `task_queue.c`)

Workers wait on a condition variable for tasks in a linked queue; any thread adds
tasks.  A task that was added with `add_task_to_pool_release_arg_mem` carries a
copy of its argument that the worker frees after the handler, which it recognises
by `arg_size` alone.

Every thread has a program counter, and a step is one statement on the shared
state: the mutex, the queue, the counter, and the memory that the arguments lie
in.  A wait on the condition variable gives the mutex up in the same step, and a
waiting worker may wake up without a broadcast.

The model starts at a pool that `create_thread_pool` returned and has no
`destroy_thread_pool`; allocation succeeds, and what a caller passes as the
argument of a copy is readable.
-/

namespace SocketPractice.Socket

open Lib.Links Lib.Runs Lib.Threads Common

/-! ## 1. Tasks -/

/-- `task_t`; the handler is known by its address. -/
structure Task where
  handler : Addr
  arg : Option Addr
  argSize : UInt64
deriving DecidableEq, Repr

/-- A task with its history: the number of its add call, the variant that was
    called, and the bytes that a copy was made of. -/
structure Job where
  task : Task
  id : Nat
  release : Bool
  given : Option (List UInt8)
  size_pos : release = true ↔ 0 < task.argSize
  given_none : task.arg = none → given = none

/-- The argument block that the worker frees: `task.arg_size > 0 && task.arg`. -/
def Job.block (j : Job) : Option Addr := if 0 < j.task.argSize then j.task.arg else none

def enTaskToQueue (h : Heap Job) (node : Addr) (taskQueue : Option Addr) (task : Option Job) :
    Option (Heap Job × QueueRet) :=
  enToQueue listAddTail h node taskQueue task

def deTaskFromQueue (h : Heap Job) (taskQueue : Option Addr) (want : Bool) :
    Option (Heap Job × QueueRet × Option Job) :=
  deFromQueue h taskQueue want

/-- The task of `add_task_to_pool_use_arg_mem`. -/
def useArgMem (id : Nat) (handler : Addr) (arg : Option Addr) : Job where
  task := { handler := handler, arg := arg, argSize := 0 }
  id := id
  release := false
  given := none
  size_pos := by simp
  given_none := fun _ => rfl

/-- The task of `add_task_to_pool_release_arg_mem`: `copy` is the allocated block
    with the bytes copied to it, or `none` for a `NULL` argument. -/
def releaseArgMem (id : Nat) (handler : Addr) (copy : Option (Addr × List UInt8))
    (argSize : UInt64) (hsize : 0 < argSize) : Job where
  task := { handler := handler, arg := copy.map Prod.fst, argSize := argSize }
  id := id
  release := true
  given := copy.map Prod.snd
  size_pos := by simpa using hsize
  given_none := by cases copy <;> simp

@[simp] theorem block_useArgMem (id : Nat) (handler : Addr) (arg : Option Addr) :
    (useArgMem id handler arg).block = none := by
  simp [Job.block, useArgMem]

@[simp] theorem block_releaseArgMem (id : Nat) (handler : Addr)
    (copy : Option (Addr × List UInt8)) {argSize : UInt64} (hsize : 0 < argSize) :
    (releaseArgMem id handler copy argSize hsize).block = copy.map Prod.fst := by
  simp [Job.block, releaseArgMem, hsize]

/-! ## 2. The pool -/

/-- Where a worker is in the loop of `pool_task_process_thread`. -/
inductive WorkerPc where
  | top
  | locked
  | waiting
  | woken
  | dequeued (j : Job)
  | counted (j : Job)
  | taken (j : Job)
  | handling (j : Job)
  | returned (j : Job)

/-- Where a thread is in an add call. -/
inductive CallerPc where
  | idle
  | made (j : Job)
  | locked (j : Job)
  | enqueued
  | counted
  | signalled

inductive PoolThread (n : Nat) where
  | worker (w : Fin n)
  | caller (p : Nat)
deriving DecidableEq

structure PoolState (n : Nat) where
  mutex : Option (PoolThread n)
  queue : Addr
  heap : Heap Job
  curTasksCnt : UInt32
  /-- The blocks that arguments lie in. -/
  mem : Addr → Option (List UInt8)
  workers : Fin n → WorkerPc
  callers : Nat → CallerPc
  /-- Memory was accessed or freed that is not allocated. -/
  fault : Bool
  /-- The add call that a block was allocated in, until it is freed. -/
  owner : Addr → Option Nat
  nextId : Nat
  enqueued : List Job
  dequeued : List Job
  finished : List Job
  /-- The handlers called, each with the bytes it found at its argument. -/
  calls : List (Job × Option (List UInt8))
  returned : List Job
  freed : List Job

inductive CallerEvent where
  | makeUse (handler : Addr) (arg : Option Addr)
  | makeRelease (handler : Addr) (arg : Option Addr) (argSize : UInt64) (block : Addr)
  | lock
  | enQueue (node : Addr)
  | count
  | broadcast
  | unlock
deriving DecidableEq

inductive WorkerEvent where
  | lock
  | deQueue
  | wake
  | count
  | unlock
  | call
  | write (bytes : List UInt8)
  | ret
  | release
deriving DecidableEq

/-- What happens outside the pool to blocks that are not the pool's copies. -/
inductive EnvEvent where
  | alloc (a : Addr) (bytes : List UInt8)
  | write (a : Addr) (bytes : List UInt8)
  | free (a : Addr)
deriving DecidableEq

inductive PoolEvent (n : Nat) where
  | caller (p : Nat) (e : CallerEvent)
  | worker (w : Fin n) (e : WorkerEvent)
  | env (e : EnvEvent)
deriving DecidableEq

namespace PoolState

variable {n : Nat}

def setWorker (s : PoolState n) (w : Fin n) (pc : WorkerPc) : PoolState n :=
  { s with workers := Function.update s.workers w pc }

def setCaller (s : PoolState n) (p : Nat) (pc : CallerPc) : PoolState n :=
  { s with callers := Function.update s.callers p pc }

def setMem (s : PoolState n) (a : Addr) (bytes : Option (List UInt8)) : PoolState n :=
  { s with mem := Function.update s.mem a bytes }

def setOwner (s : PoolState n) (a : Addr) (id : Option Nat) : PoolState n :=
  { s with owner := Function.update s.owner a id }

end PoolState

/-- Every waiting worker is woken by a broadcast. -/
def WorkerPc.wake : WorkerPc → WorkerPc
  | .waiting => .woken
  | pc => pc

section Step

variable {n : Nat}

def callerStep (s : PoolState n) (p : Nat) : CallerEvent → Option (PoolState n)
  | .makeUse handler arg =>
      match s.callers p with
      | .idle => some { s.setCaller p (.made (useArgMem s.nextId handler arg)) with
          nextId := s.nextId + 1 }
      | _ => none
  | .makeRelease handler arg argSize block =>
      match s.callers p with
      | .idle =>
          if hsize : 0 < argSize then
            match arg with
            | none => some { s.setCaller p
                (.made (releaseArgMem s.nextId handler none argSize hsize)) with
                nextId := s.nextId + 1 }
            | some a =>
                match s.mem a with
                | none => none
                | some bytes =>
                    -- `malloc` and `memcpy`
                    if argSize.toNat ≤ bytes.length ∧ s.mem block = none then
                      let copy := bytes.take argSize.toNat
                      some { ((s.setMem block (some copy)).setOwner block
                          (some s.nextId)).setCaller p
                        (.made (releaseArgMem s.nextId handler (some (block, copy)) argSize hsize))
                        with nextId := s.nextId + 1 }
                    else none
          else none
      | _ => none
  | .lock =>
      match s.callers p, s.mutex with
      | .made j, none => some { s.setCaller p (.locked j) with mutex := some (.caller p) }
      | _, _ => none
  | .enQueue node =>
      match s.callers p with
      | .locked j =>
          if s.heap node = none then
            match enTaskToQueue s.heap node (some s.queue) (some j) with
            | none => some { s with fault := true }
            | some (h, .QUEUE_SUCCESS) => some { s.setCaller p .enqueued with
                heap := h, enqueued := s.enqueued ++ [j] }
            | some (h, _) => some { s.setCaller p .counted with heap := h }
          else none
      | _ => none
  | .count =>
      match s.callers p with
      | .enqueued => some { s.setCaller p .counted with curTasksCnt := s.curTasksCnt + 1 }
      | _ => none
  | .broadcast =>
      match s.callers p with
      | .counted => some { s.setCaller p .signalled with
          workers := fun w => (s.workers w).wake }
      | _ => none
  | .unlock =>
      match s.callers p with
      | .signalled => some { s.setCaller p .idle with mutex := none }
      | _ => none

def workerStep (s : PoolState n) (w : Fin n) : WorkerEvent → Option (PoolState n)
  | .lock =>
      match s.workers w, s.mutex with
      | .top, none => some { s.setWorker w .locked with mutex := some (.worker w) }
      | .woken, none => some { s.setWorker w .locked with mutex := some (.worker w) }
      | _, _ => none
  | .deQueue =>
      match s.workers w with
      | .locked =>
          match deTaskFromQueue s.heap (some s.queue) true with
          | none => some { s with fault := true }
          | some (h, .QUEUE_SUCCESS, some j) => some { s.setWorker w (.dequeued j) with
              heap := h, dequeued := s.dequeued ++ [j] }
          | some (h, _, _) => some { s.setWorker w .waiting with heap := h, mutex := none }
      | _ => none
  | .wake =>
      match s.workers w with
      | .waiting => some (s.setWorker w .woken)
      | _ => none
  | .count =>
      match s.workers w with
      | .dequeued j => some { s.setWorker w (.counted j) with curTasksCnt := s.curTasksCnt - 1 }
      | _ => none
  | .unlock =>
      match s.workers w with
      | .counted j => some { s.setWorker w (.taken j) with mutex := none }
      | _ => none
  | .call =>
      match s.workers w with
      | .taken j => some { s.setWorker w (.handling j) with
          calls := s.calls ++ [(j, j.task.arg.bind s.mem)] }
      | _ => none
  | .write bytes =>
      match s.workers w with
      | .handling j => j.block.map fun a => s.setMem a (some bytes)
      | _ => none
  | .ret =>
      match s.workers w with
      | .handling j => some { s.setWorker w (.returned j) with returned := s.returned ++ [j] }
      | _ => none
  | .release =>
      match s.workers w with
      | .returned j =>
          match j.block with
          | none => some { s.setWorker w .top with finished := s.finished ++ [j] }
          | some a => some { ((s.setMem a none).setOwner a none).setWorker w .top with
              finished := s.finished ++ [j]
              freed := s.freed ++ [j]
              fault := s.fault || (s.mem a).isNone }
      | _ => none

def envStep (s : PoolState n) : EnvEvent → Option (PoolState n)
  | .alloc a bytes => if s.mem a = none then some (s.setMem a (some bytes)) else none
  | .write a bytes =>
      if s.mem a ≠ none ∧ s.owner a = none then some (s.setMem a (some bytes)) else none
  | .free a => if s.mem a ≠ none ∧ s.owner a = none then some (s.setMem a none) else none

def poolStep (s : PoolState n) : PoolEvent n → Option (PoolState n)
  | .caller p e => callerStep s p e
  | .worker w e => workerStep s w e
  | .env e => envStep s e

/-- A pool fresh from `create_thread_pool`, its queue at the address `queue`. -/
def newPool (n : Nat) (queue : Addr) (mem : Addr → Option (List UInt8)) : PoolState n :=
  { mutex := none, queue := queue, heap := initListHead Heap.empty queue, curTasksCnt := 0,
    mem := mem, workers := fun _ => .top, callers := fun _ => .idle, fault := false,
    owner := fun _ => none, nextId := 0, enqueued := [], dequeued := [], finished := [],
    calls := [], returned := [], freed := [] }

end Step

/-! ## 3. Exactly once -/

/-- The task that a worker has taken and not finished with. -/
def WorkerPc.running : WorkerPc → Multiset Job
  | .dequeued j => {j}
  | .counted j => {j}
  | .taken j => {j}
  | .handling j => {j}
  | .returned j => {j}
  | _ => 0

/-- The task whose handler a worker has called. -/
def WorkerPc.started : WorkerPc → Multiset Job
  | .handling j => {j}
  | .returned j => {j}
  | _ => 0

def WorkerPc.ended : WorkerPc → Multiset Job
  | .returned j => {j}
  | _ => 0

/-- The accounts of the pool. -/
structure PoolOk {n : Nat} (s : PoolState n) (queued : List Job) : Prop where
  /-- No access to memory that is not allocated, no second `free` of a block. -/
  sound : s.fault = false
  holds : Holds s.heap s.queue queued
  /-- Every add call enqueues a task of its own. -/
  nodup : (s.enqueued.map Job.id).Nodup
  /-- Tasks are taken in the order in which they were enqueued. -/
  order : s.enqueued = s.dequeued ++ queued
  account : (s.enqueued : Multiset Job) =
    queued + held WorkerPc.running s.workers + s.finished
  count : s.mutex = none → s.curTasksCnt = UInt32.ofNat queued.length
  /-- The handler of every taken task is called once and returns before the end. -/
  called : ((s.calls.map Prod.fst : List Job) : Multiset Job) =
    held WorkerPc.started s.workers + s.finished
  returned : (s.returned : Multiset Job) = held WorkerPc.ended s.workers + s.finished
  /-- A handler finds the bytes its add call was given. -/
  seen : ∀ c ∈ s.calls, c.1.release = true → c.2 = c.1.given
  /-- The copies of the finished tasks are freed, once each, and nothing else is. -/
  freed : s.freed = s.finished.filter fun j => j.block.isSome
  release : ∀ j ∈ s.freed, j.release = true

end SocketPractice.Socket
