import SocketPractice.Lib.EdgeTriggered
import SocketPractice.Lib.Threads
import SocketPractice.SocketUdp.PipelineMoves

/-!
# Edge-triggered readiness (`server_epoll.c`)

`ServerEpollThread` makes one task of each report, and a worker in `PorcessUdpMsg` takes
one datagram off the socket.  The socket is watched with `EPOLLET`, so datagrams that no
report separates are reported together, once, and all but one of them stay.

The threads are those of the pipeline, with `n` workers in the pool; beside them are the
sockets in the kernel and the events that the thread has in hand.  The descriptors are
blocking: a worker goes on when there is something to read.
-/

namespace SocketPractice.SocketUdp

open Lib.Bytes Lib.Links Lib.Runs Lib.Threads Lib.EdgeTriggered Common

/-! ## 1. The threads and the kernel -/

def STDIN_FILENO : Int32 := 0

def MAXEVENTS : Nat := 50

/-- `GetSrvUdp()->udpFd`; standard input is open, so it is not 0. -/
structure UdpFd where
  fd : Int32
  ne_stdin : fd ≠ STDIN_FILENO

/-- `events` are what is left of `triggeEvents`. -/
structure ReadyPipe where
  pipe : PipeState
  ports : Ports Int32
  events : List Int32

inductive ReadyLabel where
  | arrive (fd : Int32)
  | epollWait (fds : List Int32)
  | pipe (l : PipeLabel)

variable (udpFd : UdpFd) (n : Nat)

/-- The task that `ServerEpollThread` adds for an event. -/
def handlerOf (fd : Int32) : Option Handler :=
  if fd = STDIN_FILENO then some .ProcessStdin
  else if fd = udpFd.fd then some .PorcessUdpMsg
  else none

/-- The descriptor that a worker reads in a step. -/
def readBy : WorkerPc → WorkerLabel → Option Int32
  | .called task _, .start => if task.Handler = .ProcessStdin then some STDIN_FILENO else none
  | .receiving, .recv _ => some udpFd.fd
  | _, _ => none

/-- What a step of a thread does to the kernel and the events in hand: it deals with the
    next event, it reads, or neither.  It is not enabled if it blocks; `recvfrom` does
    not fail. -/
def kernelStep (s : ReadyPipe) : PipeLabel → Option (Ports Int32 × List Int32)
  | .epoll (.copy handler fd _) =>
      match s.events with
      | [] => none
      | fd' :: events =>
          if fd' = fd ∧ handlerOf udpFd fd = some handler then some (s.ports, events) else none
  | .worker _ (.recv .error) => none
  | .worker w l =>
      if w < n then
        match readBy udpFd (s.pipe.workers w) l with
        | none => some (s.ports, s.events)
        | some fd => if 0 < s.ports.unread fd then some (s.ports.read fd, s.events) else none
      else none
  | _ => some (s.ports, s.events)

def readyStep (s : ReadyPipe) : ReadyLabel → Option ReadyPipe
  | .arrive fd =>
      if fd = STDIN_FILENO ∨ fd = udpFd.fd then some { s with ports := s.ports.arrive fd }
      else none
  | .epollWait fds =>
      if s.pipe.epoll = .waiting ∧ s.events = [] ∧ fds.length ≤ MAXEVENTS ∧ fds.Nodup ∧
          fds.all s.ports.edge = true then
        some { s with ports := s.ports.report fds, events := fds }
      else none
  | .pipe l =>
      (kernelStep udpFd n s l).bind fun (ports, events) =>
        (pipeStep s.pipe l).map fun pipe => { pipe := pipe, ports := ports, events := events }

/-- Both descriptors are watched when the loop begins. -/
def newReady (queue taskQueue : Addr) (msgBuf : LcMsg) : ReadyPipe :=
  { pipe := newPipe queue taskQueue msgBuf
    ports := Ports.new fun fd => decide (fd = STDIN_FILENO ∨ fd = udpFd.fd)
    events := [] }

/-- The worker runs `PorcessUdpMsg`. -/
def WorkerPc.inPorcessUdpMsg : WorkerPc → Bool
  | .called task _ => task.Handler = .PorcessUdpMsg
  | .receiving => true
  | .enqueueing _ => true
  | _ => false

/-- No event of the socket is pending, and no `PorcessUdpMsg` is queued or running. -/
structure Quiescent (s : ReadyPipe) : Prop where
  edge : s.ports.edge udpFd.fd = false
  events : udpFd.fd ∉ s.events
  epoll : ∀ tmp, s.pipe.epoll ≠ .adding .PorcessUdpMsg tmp
  tasks : ∃ tasks, s.pipe.pool.Queued tasks ∧ ∀ task ∈ tasks, task.Handler ≠ .PorcessUdpMsg
  workers : ∀ w < n, (s.pipe.workers w).inPorcessUdpMsg = false

def Drained (s : ReadyPipe) : Prop := s.ports.unread udpFd.fd = 0

/-- No datagram arrives while an earlier one is unreported. -/
def Reported (s : ReadyPipe) : ReadyLabel → Prop
  | .arrive fd => fd = udpFd.fd → s.ports.pending fd = false
  | _ => True

instance (s : ReadyPipe) (l : ReadyLabel) : Decidable (Reported udpFd s l) := by
  unfold Reported
  split <;> infer_instance

/-! ## 2. The reads that are owed -/

def Handler.reads : Handler → Multiset Int32
  | .ProcessStdin => {STDIN_FILENO}
  | .PorcessUdpMsg => {udpFd.fd}
  | .SrvMsgProcessTask => 0

def EpollPc.reads : EpollPc → Multiset Int32
  | .waiting => 0
  | .adding handler _ => handler.reads udpFd

def WorkerPc.reads : WorkerPc → Multiset Int32
  | .called task _ => task.Handler.reads udpFd
  | .receiving => {udpFd.fd}
  | _ => 0

def taskReads (tasks : List Task) : Multiset Int32 :=
  (tasks.map fun task => task.Handler.reads udpFd).sum

/-- What the workers of the pool will read. -/
def workerReads (s : PipeState) : Multiset Int32 :=
  held (WorkerPc.reads udpFd) fun i : Fin n => s.workers i

/-- What the tasks will read, from the one that is being added on. -/
def owed (s : PipeState) (tasks : List Task) : Multiset Int32 :=
  s.epoll.reads udpFd + taskReads udpFd tasks + workerReads udpFd n s

/-- The reads that a step adds. -/
def adds : PipeLabel → Multiset Int32
  | .epoll (.copy handler _ _) => handler.reads udpFd
  | _ => 0

/-- The reads that a step makes. -/
def makes (s : PipeState) : PipeLabel → Multiset Int32
  | .worker w l => (readBy udpFd (s.workers w) l).elim 0 fun fd => {fd}
  | _ => 0

variable {udpFd n} {s t : PipeState} {tasks tasks' : List Task}

@[simp] theorem taskReads_nil : taskReads udpFd [] = 0 := rfl

@[simp] theorem taskReads_cons (task : Task) (tasks : List Task) :
    taskReads udpFd (task :: tasks) = task.Handler.reads udpFd + taskReads udpFd tasks := by
  simp [taskReads]

@[simp] theorem taskReads_append (as bs : List Task) :
    taskReads udpFd (as ++ bs) = taskReads udpFd as + taskReads udpFd bs := by
  simp [taskReads]

/-- A worker moves to a position with the reads that it does not make now; a task that it
    takes passes its reads on. -/
theorem worker_moves (udpFd : UdpFd) {w : Nat} {l : WorkerLabel}
    (h : Moves s tasks (.worker w l) t tasks') :
    ∃ pc, t.epoll = s.epoll ∧ t.workers = Function.update s.workers w pc ∧
      taskReads udpFd tasks' + pc.reads udpFd + makes udpFd s (.worker w l) =
        taskReads udpFd tasks + (s.workers w).reads udpFd := by
  cases h with
  | idle hpc =>
      refine ⟨s.workers w, rfl, (Function.update_eq_self w s.workers).symm, ?_⟩
      simp [makes, readBy, hpc]
  | take hpc htasks hargs =>
      refine ⟨_, rfl, rfl, ?_⟩
      subst htasks
      simp only [makes, readBy, hpc, WorkerPc.reads, Option.elim, add_zero, taskReads_cons]
      exact add_comm _ _
  | startRead hpc harg hcontent hpc' =>
      refine ⟨_, rfl, rfl, ?_⟩
      rcases hpc' with ⟨hhandler, rfl⟩ | ⟨hhandler, rfl⟩
      · simp [makes, readBy, hpc, WorkerPc.reads, Handler.reads, hhandler]
      · simp [makes, readBy, hpc, WorkerPc.reads, Handler.reads, hhandler]
  | startMsg hpc hhandler harg hcontent =>
      refine ⟨_, rfl, rfl, ?_⟩
      have hzero : ∀ m arg k, WorkerPc.reads udpFd (if IsDataMsg m ∧
          LcMsg.destEndID m = SETVER_ENDID then .waiting else .freeing arg k) = 0 := by
        intro m arg k
        split <;> rfl
      rw [hzero]
      simp [makes, readBy, hpc, hhandler, WorkerPc.reads, Handler.reads]
  | recv hpc hpc' =>
      refine ⟨_, rfl, rfl, ?_⟩
      rcases hpc' with rfl | ⟨m, rfl⟩ <;> simp [makes, readBy, hpc, WorkerPc.reads]
  | enqueue hpc =>
      refine ⟨_, rfl, rfl, ?_⟩
      simp [makes, readBy, hpc, WorkerPc.reads]
  | free hpc hcontent =>
      refine ⟨_, rfl, rfl, ?_⟩
      simp [makes, readBy, hpc, WorkerPc.reads]

/-- In a step the reads that are owed change by what it adds and what it makes. -/
theorem owed_moves {l : PipeLabel} (h : Moves s tasks l t tasks')
    (hw : ∀ w l', l = .worker w l' → w < n) :
    owed udpFd n t tasks' + makes udpFd s l = owed udpFd n s tasks + adds udpFd l := by
  cases l with
  | epoll l =>
      cases h with
      | epollCopy hpc hhandler hfresh =>
          simp only [owed, hpc, EpollPc.reads, makes, adds, zero_add, add_zero]
          rw [add_assoc, add_comm (Handler.reads _ _)]
          rfl
      | epollAdd hpc hargs =>
          simp only [owed, hpc, EpollPc.reads, makes, adds, zero_add, add_zero,
            taskReads_append, taskReads_cons, taskReads_nil]
          rw [add_comm (taskReads _ _)]
          rfl
  | mover l =>
      cases h with
      | moverReceive hpc hpc' => rfl
      | moverCopy hpc hfresh => rfl
      | moverAdd hpc hargs => simp [owed, makes, adds, Handler.reads, workerReads]
  | worker w l =>
      have hlt := hw w l rfl
      obtain ⟨pc, hepoll, hworkers, hreads⟩ := worker_moves udpFd h
      have hfun : (fun i : Fin n => t.workers i) =
          Function.update (fun i : Fin n => s.workers i) ⟨w, hlt⟩ pc := by
        rw [hworkers]
        exact Function.update_comp_eq_of_injective s.workers Fin.val_injective ⟨w, hlt⟩ pc
      have hheld := held_update (WorkerPc.reads udpFd) (fun i : Fin n => s.workers i)
        ⟨w, hlt⟩ pc
      rw [← hfun] at hheld
      apply add_right_cancel (b := (s.workers w).reads udpFd + pc.reads udpFd)
      calc owed udpFd n t tasks' + makes udpFd s (.worker w l) +
            ((s.workers w).reads udpFd + pc.reads udpFd)
          = s.epoll.reads udpFd + (taskReads udpFd tasks' + pc.reads udpFd +
              makes udpFd s (.worker w l)) +
              (workerReads udpFd n t + (s.workers w).reads udpFd) := by
            rw [owed, hepoll]
            ac_rfl
        _ = s.epoll.reads udpFd + (taskReads udpFd tasks + (s.workers w).reads udpFd) +
              (workerReads udpFd n s + pc.reads udpFd) := by
            rw [hreads]
            exact congrArg _ hheld
        _ = owed udpFd n s tasks + 0 + ((s.workers w).reads udpFd + pc.reads udpFd) := by
            rw [owed]
            ac_rfl

/-! ## 3. The invariant -/

structure ReadyInv (udpFd : UdpFd) (n : Nat) (s : ReadyPipe) : Prop where
  good : PipeGood s.pipe
  account : ∃ tasks, s.pipe.pool.Queued tasks ∧
    Account s.ports (s.events + owed udpFd n s.pipe tasks)
  watched : s.ports.watched udpFd.fd = true

/-- Each event makes one task, and this reads the descriptor once. -/
theorem reads_of_handlerOf {fd : Int32} {handler : Handler}
    (h : handlerOf udpFd fd = some handler) : handler.reads udpFd = {fd} := by
  unfold handlerOf at h
  split at h
  · obtain rfl := Option.some.inj h
    rename_i hfd
    rw [hfd]
    rfl
  · split at h
    · obtain rfl := Option.some.inj h
      rename_i hfd
      rw [hfd]
      rfl
    · cases h

/-- What a step reads is read off the sockets, and an event in hand passes to a task. -/
theorem kernelStep_eq_some {r : ReadyPipe} {l : PipeLabel} {ports : Ports Int32}
    {events : List Int32} (h : kernelStep udpFd n r l = some (ports, events)) :
    (∀ w l', l = .worker w l' → w < n) ∧
      (r.events : Multiset Int32) = events + adds udpFd l ∧
      ((makes udpFd r.pipe l = 0 ∧ ports = r.ports) ∨
        ∃ fd, makes udpFd r.pipe l = {fd} ∧ ports = r.ports.read fd) := by
  unfold kernelStep at h
  split at h
  · rename_i handler fd tmp
    split at h
    · cases h
    · rename_i fd' rest hevents
      simp only [Option.ite_none_right_eq_some, Option.some.injEq, Prod.mk.injEq] at h
      obtain ⟨⟨rfl, hhandler⟩, rfl, rfl⟩ := h
      refine ⟨by simp, ?_, Or.inl ⟨rfl, rfl⟩⟩
      rw [hevents, adds, reads_of_handlerOf hhandler, ← Multiset.cons_coe,
        ← Multiset.singleton_add, add_comm]
  · cases h
  · rename_i w l' _
    simp only [Option.ite_none_right_eq_some] at h
    obtain ⟨hlt, h⟩ := h
    have hw : ∀ w' l'', PipeLabel.worker w l' = .worker w' l'' → w' < n := by
      intro w' l'' heq
      cases heq
      exact hlt
    have hadds : adds udpFd (.worker w l') = 0 := rfl
    cases hread : readBy udpFd (r.pipe.workers w) l' with
    | none =>
        simp only [hread, Option.some.injEq, Prod.mk.injEq] at h
        obtain ⟨rfl, rfl⟩ := h
        exact ⟨hw, by rw [hadds, add_zero], Or.inl ⟨by simp [makes, hread], rfl⟩⟩
    | some fd =>
        simp only [hread, Option.ite_none_right_eq_some, Option.some.injEq, Prod.mk.injEq] at h
        obtain ⟨-, rfl, rfl⟩ := h
        exact ⟨hw, by rw [hadds, add_zero], Or.inr ⟨fd, by simp [makes, hread], rfl⟩⟩
  · rename_i hcopy herror hworker
    simp only [Option.some.injEq, Prod.mk.injEq] at h
    obtain ⟨rfl, rfl⟩ := h
    have hnot : ∀ w l', l ≠ .worker w l' := by
      intro w l' heq
      exact hworker w l' heq
    have hadds : adds udpFd l = 0 := by
      unfold adds
      split
      · exact absurd rfl (hcopy _ _ _)
      · rfl
    have hmakes : makes udpFd r.pipe l = 0 := by
      unfold makes
      split
      · exact absurd rfl (hnot _ _)
      · rfl
    exact ⟨fun w l' heq => absurd heq (hnot w l'), by rw [hadds, add_zero], Or.inl ⟨hmakes, rfl⟩⟩

theorem ReadyInv.pipe {s t : ReadyPipe} (h : ReadyInv udpFd n s) {l : PipeLabel}
    (hstep : readyStep udpFd n s (.pipe l) = some t) : ReadyInv udpFd n t := by
  obtain ⟨⟨ports, events⟩, hkernel, hmap⟩ := Option.bind_eq_some_iff.mp hstep
  obtain ⟨pipe, hpipe, rfl⟩ := Option.map_eq_some_iff.mp hmap
  obtain ⟨hw, hevents, hports⟩ := kernelStep_eq_some hkernel
  obtain ⟨own, jobs, hand, queued, hinv⟩ := id h.good
  obtain ⟨tasks', hmoves, hqueued⟩ := pipeStep_moves hinv hpipe
  obtain ⟨tasks, htasks, hacc⟩ := h.account
  obtain rfl := htasks.unique hinv.pool.queued
  have hreads : (s.events : Multiset Int32) + owed udpFd n s.pipe (jobs.map Job.task) =
      makes udpFd s.pipe l + (events + owed udpFd n pipe tasks') := by
    have howed : owed udpFd n pipe tasks' + makes udpFd s.pipe l =
        owed udpFd n s.pipe (jobs.map Job.task) + adds udpFd l := owed_moves hmoves hw
    rw [hevents, add_right_comm, add_assoc, ← howed]
    ac_rfl
  rw [hreads] at hacc
  refine ⟨pipeStep_good h.good hpipe, ⟨tasks', hqueued, ?_⟩, ?_⟩
  · rcases hports with ⟨hmakes, rfl⟩ | ⟨fd, hmakes, rfl⟩
    · rwa [hmakes, zero_add] at hacc
    · rw [hmakes, Multiset.singleton_add] at hacc
      exact hacc.read
  · rcases hports with ⟨-, rfl⟩ | ⟨fd, -, rfl⟩
    · exact h.watched
    · exact h.watched

theorem readyInv_step (udpFd : UdpFd) (n : Nat) (s : ReadyPipe) (l : ReadyLabel) (t : ReadyPipe)
    (h : ReadyInv udpFd n s) (hstep : readyStep udpFd n s l = some t) : ReadyInv udpFd n t := by
  cases l with
  | arrive fd =>
      simp only [readyStep, Option.ite_none_right_eq_some, Option.some.injEq] at hstep
      obtain ⟨-, rfl⟩ := hstep
      obtain ⟨tasks, htasks, hacc⟩ := h.account
      exact ⟨h.good, ⟨tasks, htasks, hacc.arrive fd⟩, h.watched⟩
  | epollWait fds =>
      simp only [readyStep, Option.ite_none_right_eq_some, Option.some.injEq] at hstep
      obtain ⟨⟨-, hnil, -, hnodup, hedge⟩, rfl⟩ := hstep
      obtain ⟨tasks, htasks, hacc⟩ := h.account
      rw [hnil, Multiset.coe_nil, zero_add] at hacc
      exact ⟨h.good, ⟨tasks, htasks, hacc.report hnodup (List.all_eq_true.mp hedge)⟩, h.watched⟩
  | pipe l => exact h.pipe hstep

theorem newReady_inv (udpFd : UdpFd) (n : Nat) (queue taskQueue : Addr) (msgBuf : LcMsg) :
    ReadyInv udpFd n (newReady udpFd queue taskQueue msgBuf) := by
  refine ⟨newPipe_good queue taskQueue msgBuf, ⟨[], ?_, ?_⟩, by simp [newReady, Ports.new]⟩
  · exact ⟨taskQueue, rfl, [], initListHead_circular _ _, rfl⟩
  · have hnone : owed udpFd n (newPipe queue taskQueue msgBuf) [] = 0 := by
      simp [owed, newPipe, EpollPc.reads, workerReads, held, WorkerPc.reads]
    rw [show (newReady udpFd queue taskQueue msgBuf).pipe = newPipe queue taskQueue msgBuf from rfl,
      hnone, add_zero]
    exact Account.new _

/-! ## 4. Runs -/

/-- Only an arrival merges anything. -/
theorem merged_step (udpFd : UdpFd) (n : Nat) (s : ReadyPipe) (l : ReadyLabel) (t : ReadyPipe)
    (hstep : readyStep udpFd n s l = some t) :
    (∀ fd, fd = udpFd.fd → t.ports.merged fd = 0) ↔
      (∀ fd, fd = udpFd.fd → s.ports.merged fd = 0) ∧ Reported udpFd s l := by
  cases l with
  | arrive fd =>
      simp only [readyStep, Option.ite_none_right_eq_some, Option.some.injEq] at hstep
      obtain ⟨-, rfl⟩ := hstep
      exact merged_arrive_iff s.ports fd (· = udpFd.fd)
  | epollWait fds =>
      simp only [readyStep, Option.ite_none_right_eq_some, Option.some.injEq] at hstep
      obtain ⟨-, rfl⟩ := hstep
      exact (and_iff_left trivial).symm
  | pipe l =>
      obtain ⟨⟨ports, events⟩, hkernel, hmap⟩ := Option.bind_eq_some_iff.mp hstep
      obtain ⟨pipe, -, rfl⟩ := Option.map_eq_some_iff.mp hmap
      obtain ⟨-, -, hports⟩ := kernelStep_eq_some hkernel
      rcases hports with ⟨-, rfl⟩ | ⟨fd, -, rfl⟩
      · exact (and_iff_left trivial).symm
      · exact (and_iff_left trivial).symm

theorem not_mem_reads {handler : Handler} (h : handler ≠ .PorcessUdpMsg) :
    udpFd.fd ∉ handler.reads udpFd := by
  cases handler with
  | ProcessStdin => simpa [Handler.reads] using udpFd.ne_stdin
  | PorcessUdpMsg => exact absurd rfl h
  | SrvMsgProcessTask => simp [Handler.reads]

theorem not_mem_taskReads {tasks : List Task} (h : ∀ task ∈ tasks, task.Handler ≠ .PorcessUdpMsg) :
    udpFd.fd ∉ taskReads udpFd tasks := by
  induction tasks with
  | nil => simp
  | cons task tasks ih =>
      obtain ⟨htask, htasks⟩ := List.forall_mem_cons.mp h
      rw [taskReads_cons, Multiset.mem_add, not_or]
      exact ⟨not_mem_reads htask, ih htasks⟩

theorem not_mem_workerReads {s : PipeState}
    (h : ∀ w < n, (s.workers w).inPorcessUdpMsg = false) : udpFd.fd ∉ workerReads udpFd n s := by
  intro hmem
  obtain ⟨i, hi⟩ := mem_held.mp hmem
  have hw := h i i.isLt
  cases hpc : s.workers i with
  | called task k =>
      rw [hpc] at hi hw
      exact not_mem_reads (by simpa [WorkerPc.inPorcessUdpMsg] using hw) hi
  | receiving => simp [hpc, WorkerPc.inPorcessUdpMsg] at hw
  | _ => simp [hpc, WorkerPc.reads] at hi

/-- Where `PorcessUdpMsg` is neither queued nor running, no read of the socket is owed. -/
theorem Quiescent.count_owed {s : ReadyPipe} (hq : Quiescent udpFd n s) {tasks : List Task}
    (htasks : s.pipe.pool.Queued tasks) :
    (s.events + owed udpFd n s.pipe tasks : Multiset Int32).count udpFd.fd = 0 := by
  have hepoll : udpFd.fd ∉ s.pipe.epoll.reads udpFd := by
    cases hpc : s.pipe.epoll with
    | waiting => simp [EpollPc.reads]
    | adding handler tmp =>
        apply not_mem_reads
        intro heq
        exact hq.epoll tmp (heq ▸ hpc)
  have hpool : udpFd.fd ∉ taskReads udpFd tasks := by
    obtain ⟨tasks', htasks', hnone⟩ := hq.tasks
    obtain rfl := htasks.unique htasks'
    exact not_mem_taskReads hnone
  have hworkers : udpFd.fd ∉ workerReads udpFd n s.pipe := not_mem_workerReads hq.workers
  rw [Multiset.count_eq_zero, Multiset.mem_add, owed, Multiset.mem_add, Multiset.mem_add]
  simp [hq.events, hepoll, hpool, hworkers]

/-- When `PorcessUdpMsg` has come to rest, no datagram is left in the socket exactly if,
    all along, none arrived while an earlier one was not yet reported. -/
theorem udp_drained_iff_reported (udpFd : UdpFd) (n : Nat) (queue taskQueue : Addr)
    (msgBuf : LcMsg) (labels : List ReadyLabel) (s : ReadyPipe)
    (hrun : exec (readyStep udpFd n) (newReady udpFd queue taskQueue msgBuf) labels = some s)
    (hquiet : Quiescent udpFd n s) :
    Drained udpFd s ↔
      Along (readyStep udpFd n) (Reported udpFd) (newReady udpFd queue taskQueue msgBuf)
        labels := by
  have hinv := exec_invariant (readyInv_step udpFd n)
    (newReady_inv udpFd n queue taskQueue msgBuf) hrun
  obtain ⟨tasks, htasks, hacc⟩ := hinv.account
  have hbal := hacc.balance udpFd.fd
  rw [hquiet.count_owed htasks, Ports.pending, if_pos hinv.watched, hquiet.edge] at hbal
  have hunread : s.ports.unread udpFd.fd = s.ports.merged udpFd.fd := by simpa using hbal
  have hmerged := exec_iff_along (I := fun s => ∀ fd, fd = udpFd.fd → s.ports.merged fd = 0)
    (merged_step udpFd n) hrun
  rw [Drained, hunread]
  constructor
  · intro hzero
    apply (hmerged.mp ?_).2
    rintro fd rfl
    exact hzero
  · intro halong
    exact hmerged.mpr ⟨fun _ _ => rfl, halong⟩ udpFd.fd rfl

def someUdpFd : UdpFd := ⟨4, by decide⟩

/-- A report of the socket is dealt with by worker 0. -/
def handleReport (tmp taskNode : Addr) : List ReadyLabel :=
  [.epollWait [4], .pipe (.epoll (.copy .PorcessUdpMsg 4 tmp)), .pipe (.epoll (.add taskNode)),
   .pipe (.worker 0 .take), .pipe (.worker 0 .start),
   .pipe (.worker 0 (.recv (.data (wholeChunk (Buf.zero sizeofLcMsg)))))]

/-- What is left of a run with one worker: whether the socket is ready, the events, the
    positions of the threads, whether the pool has a task, and what is unread. -/
def ReadyPipe.left (s : ReadyPipe) : Bool × List Int32 × EpollPc × WorkerPc × Bool × Nat :=
  (s.ports.edge 4, s.events, s.pipe.epoll, s.pipe.workers 0,
    (takeTask s.pipe.pool).any fun r => r.2.isSome, s.ports.unread 4)

theorem quiescent_of_left {s : ReadyPipe} (h : ReadyInv someUdpFd 1 s) {unread : Nat}
    (hleft : s.left = (false, [], .waiting, .waiting, false, unread)) :
    Quiescent someUdpFd 1 s ∧ s.ports.unread someUdpFd.fd = unread := by
  simp only [ReadyPipe.left, Prod.mk.injEq] at hleft
  obtain ⟨hedge, hevents, hepoll, hworker, htake, hunread⟩ := hleft
  obtain ⟨tasks, htasks, -⟩ := h.account
  refine ⟨⟨hedge, by rw [hevents]; simp, by rw [hepoll]; simp, ⟨tasks, htasks, ?_⟩, ?_⟩, hunread⟩
  · rcases tasks with _ | ⟨task, tasks⟩
    · simp
    · obtain ⟨pool, htake', -⟩ := takeTask_cons htasks
      simp [htake'] at htake
  · intro w hw
    obtain rfl : w = 0 := by omega
    rw [hworker]
    rfl

theorem datagram_left_unread :
    ∃ s, exec (readyStep someUdpFd 1) (newReady someUdpFd 1 2 (Buf.zero _))
        (.arrive 4 :: .arrive 4 :: handleReport 10 11) = some s ∧
      Quiescent someUdpFd 1 s ∧ ¬ Drained someUdpFd s := by
  have hrun : (exec (readyStep someUdpFd 1) (newReady someUdpFd 1 2 (Buf.zero _))
      (.arrive 4 :: .arrive 4 :: handleReport 10 11)).map ReadyPipe.left =
        some (false, [], .waiting, .waiting, false, 1) := by
    decide +kernel
  obtain ⟨s, hs, hleft⟩ := Option.map_eq_some_iff.mp hrun
  have hinv := exec_invariant (readyInv_step someUdpFd 1) (newReady_inv _ _ _ _ _) hs
  obtain ⟨hquiet, hunread⟩ := quiescent_of_left hinv hleft
  refine ⟨s, hs, hquiet, ?_⟩
  rw [Drained, hunread]
  decide

/-- The second datagram comes after the first is reported. -/
theorem udp_drained_oneByOne :
    ∃ s, exec (readyStep someUdpFd 1) (newReady someUdpFd 1 2 (Buf.zero _))
        (.arrive 4 :: handleReport 10 11 ++ .arrive 4 :: handleReport 12 13) = some s ∧
      Quiescent someUdpFd 1 s ∧ Drained someUdpFd s := by
  have hrun : (exec (readyStep someUdpFd 1) (newReady someUdpFd 1 2 (Buf.zero _))
      (.arrive 4 :: handleReport 10 11 ++ .arrive 4 :: handleReport 12 13)).map ReadyPipe.left =
        some (false, [], .waiting, .waiting, false, 0) := by
    decide +kernel
  obtain ⟨s, hs, hleft⟩ := Option.map_eq_some_iff.mp hrun
  have hinv := exec_invariant (readyInv_step someUdpFd 1) (newReady_inv _ _ _ _ _) hs
  obtain ⟨hquiet, -⟩ := quiescent_of_left hinv hleft
  refine ⟨s, hs, hquiet, ?_⟩
  apply (udp_drained_iff_reported someUdpFd 1 1 2 (Buf.zero _) _ s hs hquiet).mpr
  decide +kernel

end SocketPractice.SocketUdp
