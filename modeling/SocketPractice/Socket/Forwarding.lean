import Mathlib.Data.List.Perm.Basic
import SocketPractice.Socket.Broadcast
import SocketPractice.Socket.ConnectionOwnership
import SocketPractice.Socket.MsgQueue

/-!
# Messages on their way through the server (`server_socket.c`)

A worker that has received a message carries out the calls of its handler one by one.
`socket_msg_process_thread` takes messages off the queue and gives each to the pool, to be
shown if it is for the server itself and to be forwarded otherwise; `forward_msg_clients`
looks the destination up and sends over the link it has found.  Between any two of these
steps, and between the lookup and the send, the workers and the thread may take others.

The queue is created by whoever uses it first.  The tests of the pointer take no lock, so
that a thread may put a new queue in the place of one that another has created and used;
the messages in it are then abandoned.  A send over a connection may end the process, and a
descriptor number may come to mean another connection.

Whatever the order, a message that was received is in one place at a time, so that it is
forwarded or shown at most once.  It is forwarded only over a link with which its
destination has registered; and over the connection on which it has, as long as no
connection gets a descriptor number that the table or a task still names.
-/

namespace SocketPractice.Socket.Forwarding

open Lib.Bytes Lib.Links Lib.Runs Lib.Sql Common

/-! ## 1. The code -/

/-- Where a thread is in a call of the queue: before the test of the call, before the one in
    `init_srv_msg_queue`, before the section there, or before the section of the call. -/
inductive QueuePc where
  | test
  | initTest
  | initLocked
  | locked
deriving DecidableEq

/-- What a worker still has to do for its task. -/
inductive Task where
  /-- The calls of `recv_tcp_cli_msg`, `recv_udp_cli_msg` or `process_accept_tcp_link` behind
      the system call. -/
  | calls (cs : List SrvCall)
  /-- The same in `en_srv_msg_queue`. -/
  | enqueue (pc : QueuePc) (msgPackage : LcMsgPackage) (cs : List SrvCall)
  /-- `forward_msg_clients`. -/
  | forward (msgbuf : LcMsgPackage)
  /-- The same behind its lookup. -/
  | send (socket : SocketHandle) (msgbuf : LcMsgPackage)
  | display (msgbuf : LcMsgPackage)
  /-- `process_stdin_msg` behind its read. -/
  | broadcast (msgPack : LcMsgPackage)

/-- Where `socket_msg_process_thread` is. -/
inductive MsgProcessPc where
  | deSrvMsgQueue (pc : QueuePc)
  | addTask (msgbuf : LcMsgPackage)

/-- What a message was sent for. -/
inductive Purpose where
  | answer
  | forward
  | broadcast
deriving DecidableEq

/-- A send, with the connection that the descriptor then was. -/
structure Sending where
  purpose : Purpose
  call : SrvCall
  conn : Option Conn

/-- The server, and what it has sent and shown. -/
structure Server where
  fds : Int32 → Option Conn
  accepted : Conn
  /-- The registrations that were received over connections. -/
  saved : List (EndId × Int32 × Conn)
  table : Table
  heap : Heap LcMsgPackage
  /-- `srv_msg_queue.queue`. -/
  queue : Option Addr
  /-- The messages in the list at `queue`. -/
  queued : List LcMsgPackage
  /-- The messages that were in a list when another one took its place. -/
  abandoned : List LcMsgPackage
  tasks : List Task
  msgProcess : MsgProcessPc
  sent : List Sending
  shown : List LcMsgPackage
  /-- The messages whose destination was not found. -/
  unknown : List LcMsgPackage
  /-- Memory that is not allocated was accessed. -/
  faulted : Bool
  /-- A send has raised `SIGPIPE`. -/
  killed : Bool

/-- The connection that a send goes over. -/
def connOf (fds : Int32 → Option Conn) : SrvCall → Option Conn
  | .sendMsgByTcp _ fd => fds fd
  | _ => none

/-- Only a send over a connection raises the signal. -/
def raisesSignal (net : Net) : SrvCall → Bool
  | .sendMsgByTcp _ _ => (sendMsgByTcp (net.send 0)).isNone
  | _ => false

def Server.send (s : Server) (net : Net) (purpose : Purpose) (call : SrvCall) : Server :=
  { s with
    sent := s.sent ++ [⟨purpose, call, connOf s.fds call⟩]
    killed := raisesSignal net call }

/-- `send_tcp_cli_msg` or `send_udp_cli_msg`, as `forward_msg_clients` chooses. -/
def sendCliMsg (net : Net) (s : Server) (msgbuf : LcMsgPackage) : SocketHandle → Server
  | .UNSET => { s with unknown := s.unknown ++ [msgbuf] }
  | .TCP_LINK fd => s.send net .forward (.sendMsgByTcp msgbuf fd)
  | .UDP_LINK addr => s.send net .forward (.sendMsgByUdp msgbuf addr.sinAddr addr.sinPort)

/-- A call of a handler.  The calls on the epoll instance are not part of this state, and
    `en_srv_msg_queue` takes steps of its own. -/
def runCall (net : Net) (s : Server) : SrvCall → Server
  | .addFdToSrvEpoll _ => s
  | .delFdFromSrvEpoll _ => s
  | .close fd => { s with fds := Function.update s.fds fd none }
  | .delTcpCliFromDatabaseByFd fd => { s with table := delTcpCliFromDatabaseByFd s.table fd }
  | .addTcpCliToDatabase endid fd => { s with table := addTcpCliToDatabase s.table endid fd }
  | .addUdpCliToDatabase endid ipaddr port =>
      { s with table := addUdpCliToDatabase s.table endid ipaddr port }
  | .sendMsgByTcp msgPack cliFd => s.send net .answer (.sendMsgByTcp msgPack cliFd)
  | .sendMsgByUdp msgPack ipaddr port => s.send net .answer (.sendMsgByUdp msgPack ipaddr port)
  | .enSrvMsgQueue _ => s

/-- The section of `init_srv_msg_queue`, with `queue` what `malloc` returns. -/
def initSrvMsgQueue (s : Server) (queue : Addr) : Server :=
  { s with
    heap := initMsgQueue s.heap queue
    queue := some queue
    queued := []
    abandoned := s.abandoned ++ s.queued }

/-- A step on the way to the section of a call. -/
def toSection (s : Server) (node : Addr) : QueuePc → Server × QueuePc
  | .test => (s, if s.queue.isSome then .locked else .initTest)
  | .initTest => (s, if s.queue.isSome then .locked else .initLocked)
  | .initLocked => (initSrvMsgQueue s node, .locked)
  | .locked => (s, .locked)

/-- The section of `en_srv_msg_queue`; `node` is what `malloc` returns. -/
def enSrvMsgQueue (s : Server) (node : Addr) (msgPackage : LcMsgPackage) : Server :=
  match enMsgToQueue s.heap node s.queue (some msgPackage) with
  | some (heap, .QUEUE_SUCCESS) => { s with heap := heap, queued := msgPackage :: s.queued }
  | some (heap, _) => { s with heap := heap }
  | none => { s with faulted := true }

/-- One step of a worker, and what is left of its task. -/
def runTask (net : Net) (s : Server) (node : Addr) : Task → Server × Option Task
  | .calls [] => (s, none)
  | .calls (.enSrvMsgQueue msgPackage :: cs) => (s, some (.enqueue .test msgPackage cs))
  | .calls (c :: cs) => (runCall net s c, some (.calls cs))
  | .enqueue .locked msgPackage cs => (enSrvMsgQueue s node msgPackage, some (.calls cs))
  | .enqueue pc msgPackage cs =>
      ((toSection s node pc).1, some (.enqueue (toSection s node pc).2 msgPackage cs))
  | .forward msgbuf => (s, some (.send (getCliByEndid s.table msgbuf.destid .UNSET) msgbuf))
  | .send socket msgbuf => (sendCliMsg net s msgbuf socket, none)
  | .display msgbuf => ({ s with shown := s.shown ++ [msgbuf] }, none)
  | .broadcast msgPack =>
      let broadcast := traverseTableSendMsg net s.table msgPack
      ({ s with
        sent := s.sent ++ broadcast.sent.map fun call => ⟨.broadcast, call, connOf s.fds call⟩
        killed := broadcast.killed }, none)

/-- One step of `socket_msg_process_thread`. -/
def socketMsgProcessThread (endid : EndId) (s : Server) (node : Addr) : Server :=
  match s.msgProcess with
  | .deSrvMsgQueue .locked =>
      match deMsgFromQueue s.heap s.queue true with
      | some (heap, .QUEUE_SUCCESS, some msgbuf) =>
          { s with heap := heap, queued := s.queued.tail, msgProcess := .addTask msgbuf }
      | some (heap, _, _) => { s with heap := heap, msgProcess := .deSrvMsgQueue .test }
      | none => { s with faulted := true }
  | .deSrvMsgQueue pc =>
      { (toSection s node pc).1 with msgProcess := .deSrvMsgQueue (toSection s node pc).2 }
  | .addTask msgbuf =>
      let task := if msgbuf.destid = endid then Task.display msgbuf else .forward msgbuf
      { s with tasks := s.tasks ++ [task], msgProcess := .deSrvMsgQueue .test }

/-- A task begins with its system call, whose result is in the label; a worker takes a
    step, or the thread does. -/
inductive Event where
  | accept (newfd : Int32)
  | recvTcp (fd : Int32) (r : RecvRet)
  | recvUdp (ipaddr : UInt32) (port : UInt16) (r : RecvRet)
  | readStdin (msgPack : LcMsgPackage)
  | work (k : Nat) (node : Addr) (net : Net)
  | msgProcess (node : Addr)

def Server.addTask (s : Server) (task : Task) : Server := { s with tasks := s.tasks ++ [task] }

/-- The kernel gives a new connection a number that is not open, and answers a `recv` on a
    number that is not open with an error.  After a fault or the signal the process is
    gone. -/
def step (endid : EndId) (s : Server) (e : Event) : Option Server :=
  if s.faulted ∨ s.killed then none
  else
    match e with
    | .accept newfd =>
        if newfd < 0 then some s
        else if (s.fds newfd).isSome then none
        else some (Server.addTask { s with
          fds := Function.update s.fds newfd (some s.accepted)
          accepted := s.accepted + 1 } (.calls (processAcceptTcpLink newfd)))
    | .recvTcp fd r =>
        match s.fds fd with
        | none => if r = .error then some s else none
        | some conn =>
            some (Server.addTask { s with
              saved := (savedEndid r).map (·, fd, conn) ++ s.saved }
              (.calls (recvTcpCliMsg endid fd r).1))
    | .recvUdp ipaddr port r => some (s.addTask (.calls (recvUdpCliMsg endid ipaddr port r).1))
    | .readStdin msgPack => some (s.addTask (.broadcast msgPack))
    | .work k node net =>
        if s.heap node = none then
          s.tasks[k]?.map fun task =>
            let (s', rest) := runTask net { s with tasks := s.tasks.eraseIdx k } node task
            { s' with tasks := s'.tasks ++ rest.toList }
        else none
    | .msgProcess node =>
        if s.heap node = none then some (socketMsgProcessThread endid s node) else none

/-- The server when its threads begin: no queue, and no connection. -/
def start : Server :=
  { fds := fun _ => none, accepted := 0, saved := [], table := [], heap := Heap.empty
    queue := none, queued := [], abandoned := [], tasks := [], msgProcess := .deSrvMsgQueue .test
    sent := [], shown := [], unknown := [], faulted := false, killed := false }

/-! ## 2. What comes in and what goes out -/

/-- The message that a receive stored in the zeroed buffer. -/
def msgOf : RecvRet → Option LcMsgPackage
  | .data c => some ((Buf.zero sizeofLcMsgPackage).recv c)
  | _ => none

def IsSaveCliInfo (m : LcMsgPackage) : Prop := m.msgType = LcMsgType.SAVE_CLI_INFO.code

instance (m : LcMsgPackage) : Decidable (IsSaveCliInfo m) :=
  inferInstanceAs (Decidable (m.msgType = _))

/-- The messages for others that are received in an event. -/
def received : Event → List LcMsgPackage
  | .recvTcp _ r => (msgOf r).toList.filter fun m => ¬ IsSaveCliInfo m
  | .recvUdp _ _ r => (msgOf r).toList.filter fun m => ¬ IsSaveCliInfo m
  | _ => []

/-- The registrations that are received, with the link they came over. -/
def registered : Event → List (EndId × Link)
  | .recvTcp fd r =>
      ((msgOf r).toList.filter fun m => IsSaveCliInfo m).map fun m => (m.srcid, .tcp fd)
  | .recvUdp ipaddr port r =>
      ((msgOf r).toList.filter fun m => IsSaveCliInfo m).map fun m => (m.srcid, .udp ipaddr port)
  | _ => []

/-- A message that is forwarded. -/
structure Forward where
  link : Link
  msg : LcMsgPackage
  conn : Option Conn

def forwardOf : Sending → Option Forward
  | ⟨.forward, .sendMsgByTcp m fd, conn⟩ => some ⟨.tcp fd, m, conn⟩
  | ⟨.forward, .sendMsgByUdp m ipaddr port, conn⟩ => some ⟨.udp ipaddr port, m, conn⟩
  | _ => none

def forwarded (s : Server) : List Forward := s.sent.filterMap forwardOf

/-- The messages that the calls queue. -/
def queuedBy : SrvCall → Option LcMsgPackage
  | .enSrvMsgQueue m => some m
  | _ => none

/-- The messages that are with a task. -/
def Task.msgs : Task → List LcMsgPackage
  | .calls cs => cs.filterMap queuedBy
  | .enqueue _ m cs => m :: cs.filterMap queuedBy
  | .forward m => [m]
  | .send _ m => [m]
  | .display m => [m]
  | .broadcast _ => []

def MsgProcessPc.msgs : MsgProcessPc → List LcMsgPackage
  | .deSrvMsgQueue _ => []
  | .addTask m => [m]

/-- The registrations that the calls enter. -/
def enteredBy : SrvCall → Option (EndId × Link)
  | .addTcpCliToDatabase endid fd => some (endid, .tcp fd)
  | .addUdpCliToDatabase endid ipaddr port => some (endid, .udp ipaddr port)
  | _ => none

/-- The registrations that a task enters. -/
def Task.enters : Task → List (EndId × Link)
  | .calls cs => cs.filterMap enteredBy
  | .enqueue _ _ cs => cs.filterMap enteredBy
  | _ => []

/-- What a task has to do is in keeping with what the lookups `found` for a message. -/
def Task.Ok (endid : EndId) (found : LcMsgPackage → Option Link → Prop) : Task → Prop
  | .forward m => m.destid ≠ endid
  | .send socket m => m.destid ≠ endid ∧ ∃ link, socket = Link.handle link ∧ found m link
  | .display m => m.destid = endid
  | _ => True

/-- The table holds registrations with `P`. -/
def Enters (P : EndId → Link → Prop) (t : Table) : Prop :=
  ∃ r : Registry, t = r.table ∧ ∀ e k, r.get e = some k → P e k

/-- The task, or the thread, is before the section of a call of the queue. -/
def Task.locked : Task → Bool
  | .enqueue .locked _ _ => true
  | _ => false

def MsgProcessPc.locked : MsgProcessPc → Bool
  | .deSrvMsgQueue .locked => true
  | _ => false

/-- Where the message `m` is, apart from the tasks. -/
def placed (s : Server) (m : LcMsgPackage) : Nat :=
  s.msgProcess.msgs.count m + s.queued.count m + s.abandoned.count m +
    ((forwarded s).map Forward.msg).count m + s.shown.count m + s.unknown.count m

/-- The list that `srv_msg_queue.queue` points to. -/
def HoldsQueued (s : Server) : Prop :=
  match s.queue with
  | none => s.queued = []
  | some queue => Holds s.heap queue s.queued

/-- The state after the registrations `regs`, the messages `msgs` and the lookups `found`. -/
structure Inv (endid : EndId) (regs : List (EndId × Link)) (msgs : List LcMsgPackage)
    (found : LcMsgPackage → Option Link → Prop) (s : Server) : Prop where
  table : Enters (fun e k => (e, k) ∈ regs) s.table
  enters : ∀ task ∈ s.tasks, ∀ n ∈ task.enters, n ∈ regs
  tasks : ∀ task ∈ s.tasks, task.Ok endid found
  forwarded : ∀ f ∈ forwarded s, f.msg.destid ≠ endid ∧ found f.msg (some f.link)
  unknown : ∀ m ∈ s.unknown, m.destid ≠ endid ∧ found m none
  shown : ∀ m ∈ s.shown, m.destid = endid
  running : s.faulted = false
  queue : HoldsQueued s
  /-- Behind the tests there is a queue. -/
  created : s.queue = none →
    (∀ task ∈ s.tasks, task.locked = false) ∧ s.msgProcess.locked = false
  /-- Every message is in one place. -/
  counted : ∀ m, msgs.count m = (s.tasks.flatMap Task.msgs).count m + placed s m

/-! ## 3. The steps -/

section Steps

variable {endid : EndId} {regs : List (EndId × Link)} {msgs : List LcMsgPackage}
  {found : LcMsgPackage → Option Link → Prop} {s : Server} {P Q : EndId → Link → Prop}

theorem Enters.mono {t : Table} (h : Enters P t) (hsub : ∀ e k, P e k → Q e k) : Enters Q t := by
  obtain ⟨r, hr, hget⟩ := h
  exact ⟨r, hr, fun e k hk => hsub e k (hget e k hk)⟩

theorem Task.Ok.mono {found' : LcMsgPackage → Option Link → Prop}
    {task : Task} (h : task.Ok endid found)
    (hfound : ∀ m link, found m link → found' m link) : task.Ok endid found' := by
  cases task with
  | send socket m =>
      obtain ⟨hdest, link, hsocket, hlink⟩ := h
      exact ⟨hdest, link, hsocket, hfound m link hlink⟩
  | _ => exact h

theorem Inv.mono {found' : LcMsgPackage → Option Link → Prop} (h : Inv endid regs msgs found s)
    (hfound : ∀ m link, found m link → found' m link) : Inv endid regs msgs found' s :=
  { h with
    tasks := fun task htask => (h.tasks task htask).mono hfound
    forwarded := fun f hf => ⟨(h.forwarded f hf).1, hfound _ _ (h.forwarded f hf).2⟩
    unknown := fun m hm => ⟨(h.unknown m hm).1, hfound _ _ (h.unknown m hm).2⟩ }

/-- A system call adds a task with what was received. -/
theorem Inv.add {new : List (EndId × Link)} {got : List LcMsgPackage} {fds : Int32 → Option Conn}
    {accepted : Conn} {saved : List (EndId × Int32 × Conn)}
    (h : Inv endid regs msgs found s) {task : Task} (hok : task.Ok endid found)
    (henters : task.enters = new) (hmsgs : task.msgs = got) (hlocked : task.locked = false) :
    Inv endid (regs ++ new) (msgs ++ got) found (Server.addTask { s with
      fds := fds
      accepted := accepted
      saved := saved } task) := by
  have hold : ∀ n ∈ regs, n ∈ regs ++ new := fun n hn => List.mem_append_left _ hn
  have hall : ∀ {P : Task → Prop}, (∀ t ∈ s.tasks, P t) → P task →
      ∀ t ∈ s.tasks ++ [task], P t := by
    intro P hs hnew t ht
    rcases List.mem_append.mp ht with ht | ht
    · exact hs t ht
    · exact List.mem_singleton.mp ht ▸ hnew
  refine { h with
    table := h.table.mono fun e k hk => hold _ hk
    enters := hall (fun t ht n hn => hold n (h.enters t ht n hn)) fun n hn => ?_
    tasks := hall h.tasks hok
    created := fun hnone => ⟨hall (h.created hnone).1 hlocked, (h.created hnone).2⟩
    counted := fun m => ?_ }
  · exact List.mem_append_right _ (henters ▸ hn)
  · have hcount := h.counted m
    show (msgs ++ got).count m = ((s.tasks ++ [task]).flatMap Task.msgs).count m + placed s m
    rw [List.count_append, hcount, List.flatMap_append, List.count_append,
      List.flatMap_singleton, hmsgs]
    omega

theorem recvTcp_calls (endid : EndId) (fd : Int32) (r : RecvRet) :
    (recvTcpCliMsg endid fd r).1.filterMap enteredBy = registered (.recvTcp fd r) ∧
      (recvTcpCliMsg endid fd r).1.filterMap queuedBy = received (.recvTcp fd r) := by
  cases r with
  | error => exact ⟨rfl, rfl⟩
  | eof => exact ⟨rfl, rfl⟩
  | data c =>
      by_cases hsave : IsSaveCliInfo ((Buf.zero sizeofLcMsgPackage).recv c)
      · have hcode : LcMsgPackage.msgType ((Buf.zero sizeofLcMsgPackage).recv c) =
            LcMsgType.SAVE_CLI_INFO.code := hsave
        simp [recvTcpCliMsg, handleTcpMsg, registered, received, msgOf, hsave, hcode, enteredBy,
          queuedBy]
      · have hcode : ¬ LcMsgPackage.msgType ((Buf.zero sizeofLcMsgPackage).recv c) =
            LcMsgType.SAVE_CLI_INFO.code := hsave
        simp [recvTcpCliMsg, handleTcpMsg, registered, received, msgOf, hsave, hcode, enteredBy,
          queuedBy]

theorem recvUdp_calls (endid : EndId) (ipaddr : UInt32) (port : UInt16) (r : RecvRet) :
    (recvUdpCliMsg endid ipaddr port r).1.filterMap enteredBy =
        registered (.recvUdp ipaddr port r) ∧
      (recvUdpCliMsg endid ipaddr port r).1.filterMap queuedBy =
        received (.recvUdp ipaddr port r) := by
  cases r with
  | error => exact ⟨rfl, rfl⟩
  | eof => exact ⟨rfl, rfl⟩
  | data c =>
      by_cases hsave : IsSaveCliInfo ((Buf.zero sizeofLcMsgPackage).recv c)
      · have hcode : LcMsgPackage.msgType ((Buf.zero sizeofLcMsgPackage).recv c) =
            LcMsgType.SAVE_CLI_INFO.code := hsave
        simp [recvUdpCliMsg, handleUdpMsg, registered, received, msgOf, hsave, hcode, enteredBy,
          queuedBy]
      · have hcode : ¬ LcMsgPackage.msgType ((Buf.zero sizeofLcMsgPackage).recv c) =
            LcMsgType.SAVE_CLI_INFO.code := hsave
        simp [recvUdpCliMsg, handleUdpMsg, registered, received, msgOf, hsave, hcode, enteredBy,
          queuedBy]

theorem accept_calls (newfd : Int32) :
    (processAcceptTcpLink newfd).filterMap enteredBy = [] ∧
      (processAcceptTcpLink newfd).filterMap queuedBy = [] := by
  unfold processAcceptTcpLink
  split <;> exact ⟨rfl, rfl⟩

/-- A task is taken out and what is left of it is put back. -/
theorem Inv.replace (s' : Server) {k : Nat} {task : Task} {rest : Option Task}
    (h : Inv endid regs msgs found s) (htask : s.tasks[k]? = some task)
    (htasks : s'.tasks = s.tasks.eraseIdx k) (hthread : s'.msgProcess = s.msgProcess)
    (htable : Enters (fun e k => (e, k) ∈ regs) s'.table)
    (henters : ∀ t ∈ rest.toList, ∀ n ∈ t.enters, n ∈ regs)
    (hrest : ∀ t ∈ rest.toList, t.Ok endid found)
    (hforwarded : ∀ f ∈ Forwarding.forwarded s', f.msg.destid ≠ endid ∧ found f.msg (some f.link))
    (hunknown : ∀ m ∈ s'.unknown, m.destid ≠ endid ∧ found m none)
    (hshown : ∀ m ∈ s'.shown, m.destid = endid) (hrunning : s'.faulted = false)
    (hqueue : HoldsQueued s')
    (hcreated : s'.queue = none → s.queue = none ∧ ∀ t ∈ rest.toList, t.locked = false)
    (hcounted : ∀ m, task.msgs.count m + placed s m =
      (rest.toList.flatMap Task.msgs).count m + placed s' m) :
    Inv endid regs msgs found { s' with tasks := s'.tasks ++ rest.toList } := by
  have hall : ∀ {P : Task → Prop}, (∀ t ∈ s.tasks, P t) → (∀ t ∈ rest.toList, P t) →
      ∀ t ∈ s'.tasks ++ rest.toList, P t := by
    intro P hs hnew t ht
    rw [htasks] at ht
    rcases List.mem_append.mp ht with ht | ht
    · exact hs t (List.mem_of_mem_eraseIdx ht)
    · exact hnew t ht
  constructor
  · exact htable
  · exact hall h.enters henters
  · exact hall h.tasks hrest
  · exact hforwarded
  · exact hunknown
  · exact hshown
  · exact hrunning
  · exact hqueue
  · intro hnone
    obtain ⟨hold, hnew⟩ := hcreated hnone
    obtain ⟨hlocked, hprocess⟩ := h.created hold
    exact ⟨hall hlocked hnew, hthread ▸ hprocess⟩
  · intro m
    obtain ⟨hk, rfl⟩ := List.getElem?_eq_some_iff.mp htask
    have hperm := (List.getElem_cons_eraseIdx_perm hk).flatMap_right Task.msgs
    have hout := hperm.count_eq m
    have hsame : placed { s' with tasks := s'.tasks ++ rest.toList } m = placed s' m := rfl
    have hmoved := hcounted m
    rw [List.flatMap_cons, List.count_append] at hout
    rw [hsame, h.counted m, List.flatMap_append, List.count_append, htasks]
    omega

/-! ### The steps of a worker -/

theorem Enters.addTcp {t : Table} {e : EndId} {fd : Int32} (h : Enters P t)
    (hreg : P e (.tcp fd)) : Enters P (addTcpCliToDatabase t e fd) := by
  obtain ⟨r, rfl, hget⟩ := h
  refine ⟨r.set e (.tcp fd), Registry.add_tcp_table r e fd, ?_⟩
  intro e' k hk
  rw [Lib.Assoc.get_set] at hk
  split at hk
  · rename_i heq
    obtain rfl := Option.some.inj hk
    exact heq ▸ hreg
  · exact hget e' k hk

theorem Enters.addUdp {t : Table} {e : EndId} {ipaddr : UInt32} {port : UInt16}
    (h : Enters P t) (hreg : P e (.udp ipaddr port)) :
    Enters P (addUdpCliToDatabase t e ipaddr port) := by
  obtain ⟨r, rfl, hget⟩ := h
  rw [Registry.add_udp_table]
  split
  · exact ⟨r, rfl, hget⟩
  · refine ⟨r.set e (.udp ipaddr port), rfl, ?_⟩
    intro e' k hk
    rw [Lib.Assoc.get_set] at hk
    split at hk
    · rename_i heq
      obtain rfl := Option.some.inj hk
      exact heq ▸ hreg
    · exact hget e' k hk

theorem Enters.delTcp {t : Table} (h : Enters P t) (fd : Int32) :
    Enters P (delTcpCliFromDatabaseByFd t fd) := by
  obtain ⟨r, rfl, hget⟩ := h
  refine ⟨r.dropVal (.tcp fd), Registry.del_tcp_table r fd, ?_⟩
  intro e k hk
  rw [Lib.Assoc.get_dropVal] at hk
  split at hk
  · cases hk
  · exact hget e k hk

theorem Enters.runCall {net : Net} {c : SrvCall} (h : Enters P s.table)
    (hreg : ∀ n ∈ enteredBy c, P n.1 n.2) : Enters P (runCall net s c).table := by
  cases c with
  | addTcpCliToDatabase endid fd => exact h.addTcp (hreg (endid, .tcp fd) rfl)
  | addUdpCliToDatabase endid ipaddr port => exact h.addUdp (hreg (endid, .udp ipaddr port) rfl)
  | delTcpCliFromDatabaseByFd fd => exact h.delTcp fd
  | _ => exact h

/-- A call that queues nothing changes the connections and the table, or sends an answer. -/
theorem runCall_eq (net : Net) (s : Server) (c : SrvCall) : ∃ fds table sent killed,
    runCall net s c = { s with
      fds := fds
      table := table
      sent := sent
      killed := killed } ∧
    sent.filterMap forwardOf = Forwarding.forwarded s := by
  cases c with
  | sendMsgByTcp msgPack cliFd =>
      exact ⟨_, _, _, _, rfl, List.filterMap_append.trans (List.append_nil _)⟩
  | sendMsgByUdp msgPack ipaddr port =>
      exact ⟨_, _, _, _, rfl, List.filterMap_append.trans (List.append_nil _)⟩
  | _ => exact ⟨_, _, _, _, rfl, rfl⟩

theorem runTask_call (net : Net) (s : Server) (node : Addr) {c : SrvCall} (cs : List SrvCall)
    (hc : queuedBy c = none) :
    runTask net s node (.calls (c :: cs)) = (runCall net s c, some (.calls cs)) := by
  cases c with
  | enSrvMsgQueue m => cases hc
  | _ => rfl

theorem runTask_enqueue (net : Net) (s : Server) (node : Addr) {pc : QueuePc} (m : LcMsgPackage)
    (cs : List SrvCall) (hpc : pc ≠ .locked) :
    runTask net s node (.enqueue pc m cs) =
      ((toSection s node pc).1, some (.enqueue (toSection s node pc).2 m cs)) := by
  cases pc with
  | locked => exact absurd rfl hpc
  | _ => rfl

/-- What a step towards a section does: nothing, or a new queue takes the place of the one
    that is there. -/
theorem toSection_spec (h : HoldsQueued s) (node : Addr) {pc : QueuePc} (hpc : pc ≠ .locked) :
    ∃ heap queue queued abandoned, (toSection s node pc).1 = { s with
        heap := heap
        queue := queue
        queued := queued
        abandoned := abandoned } ∧
      HoldsQueued (toSection s node pc).1 ∧
      (∀ m, queued.count m + abandoned.count m = s.queued.count m + s.abandoned.count m) ∧
      (queue = none → s.queue = none ∧ (toSection s node pc).2 ≠ .locked) ∧
      ∀ a, a ≠ node → (heap a).isSome → (s.heap a).isSome := by
  have hstay : ∀ pc' : QueuePc, (pc' = .locked → s.queue.isSome) →
      (s.queue = none → s.queue = none ∧ pc' ≠ .locked) := by
    intro pc' himp hnone
    refine ⟨hnone, fun heq => ?_⟩
    rw [hnone] at himp
    cases himp heq
  cases pc with
  | test =>
      refine ⟨_, _, _, _, rfl, h, fun m => rfl, ?_, fun a _ ha => ha⟩
      apply hstay
      simp only [toSection]
      split
      · exact fun _ => ‹_›
      · simp
  | initTest =>
      refine ⟨_, _, _, _, rfl, h, fun m => rfl, ?_, fun a _ ha => ha⟩
      apply hstay
      simp only [toSection]
      split
      · exact fun _ => ‹_›
      · simp
  | initLocked =>
      refine ⟨_, _, _, _, rfl, ⟨[], initListHead_circular _ _, rfl⟩, ?_, nofun, ?_⟩
      · intro m
        rw [List.count_append, List.count_nil]
        omega
      · intro a hne ha
        rwa [initMsgQueue, initListHead, Heap.alloc_of_ne _ _ hne] at ha
  | locked => exact absurd rfl hpc

/-- The section of `en_srv_msg_queue` puts the message into the queue. -/
theorem enSrvMsgQueue_spec (h : HoldsQueued s) (hsome : s.queue ≠ none) {node : Addr}
    (hfresh : s.heap node = none) (m : LcMsgPackage) :
    ∃ heap, enSrvMsgQueue s node m = { s with
        heap := heap
        queued := m :: s.queued } ∧
      HoldsQueued { s with
        heap := heap
        queued := m :: s.queued } ∧
      ∀ a, a ≠ node → (heap a).isSome → (s.heap a).isSome := by
  obtain ⟨queue, hqueue⟩ := Option.ne_none_iff_exists'.mp hsome
  have hholds : Holds s.heap queue s.queued := by
    rw [HoldsQueued, hqueue] at h
    exact h
  obtain ⟨heap, heq, hholds', hlive⟩ := enToQueue_listAdd hholds hfresh m
  refine ⟨heap, ?_, ?_, ?_⟩
  · simp only [enSrvMsgQueue, enMsgToQueue, hqueue, heq]
  · simp only [HoldsQueued, hqueue]
    exact hholds'
  · intro a hne ha
    simpa [hlive a, hne] using ha

/-- The message goes over the link that was found, and is dropped if there is none. -/
theorem sendCliMsg_handle (net : Net) (s : Server) (m : LcMsgPackage) (link : Option Link) :
    ∃ sent unknown killed, sendCliMsg net s m (Link.handle link) =
        { s with
          sent := sent
          unknown := s.unknown ++ unknown
          killed := killed } ∧
      (∃ conn, sent.filterMap forwardOf =
        Forwarding.forwarded s ++ link.toList.map (Forward.mk · m conn)) ∧
      unknown ++ link.toList.map (fun _ => m) = [m] := by
  rcases link with _ | fd | ⟨ipaddr, port⟩
  · exact ⟨s.sent, [m], s.killed, rfl, ⟨none, (List.append_nil _).symm⟩, rfl⟩
  · refine ⟨s.sent ++ [⟨.forward, .sendMsgByTcp m fd, s.fds fd⟩], [],
      raisesSignal net (.sendMsgByTcp m fd), ?_, ⟨s.fds fd, List.filterMap_append⟩, rfl⟩
    rw [List.append_nil]
    rfl
  · refine ⟨s.sent ++ [⟨.forward, .sendMsgByUdp m ipaddr port, none⟩], [], false, ?_,
      ⟨none, List.filterMap_append⟩, rfl⟩
    rw [List.append_nil]
    rfl

/-- A broadcast forwards nothing. -/
theorem filterMap_broadcast (fds : Int32 → Option Conn) (calls : List SrvCall) :
    (calls.map fun call => Sending.mk .broadcast call (connOf fds call)).filterMap forwardOf =
      [] := by
  rw [List.filterMap_eq_nil_iff]
  intro x hx
  obtain ⟨call, -, rfl⟩ := List.mem_map.mp hx
  rfl

theorem count_calls (c : SrvCall) (cs : List SrvCall) (m : LcMsgPackage) :
    (Task.calls (c :: cs)).msgs.count m =
      (queuedBy c).toList.count m + (Task.calls cs).msgs.count m := by
  simp only [Task.msgs, List.filterMap_cons]
  cases queuedBy c with
  | none => simp
  | some m' => rw [Option.toList_some, ← List.count_append, List.singleton_append]

theorem enters_calls {c : SrvCall} {cs : List SrvCall} {n : EndId × Link}
    (h : n ∈ (Task.calls cs).enters) : n ∈ (Task.calls (c :: cs)).enters := by
  obtain ⟨c', hc', heq⟩ := List.mem_filterMap.mp h
  exact List.mem_filterMap.mpr ⟨c', List.mem_cons_of_mem c hc', heq⟩

/-- One step of the worker that has the `k`-th task. -/
theorem Inv.work (net : Net) {s' : Server} {k : Nat} {node : Addr} {task : Task}
    {rest : Option Task} (h : Inv endid regs msgs found s) (htask : s.tasks[k]? = some task)
    (hfresh : s.heap node = none)
    (hlookup : ∀ m link, getCliByEndid s.table m.destid .UNSET = Link.handle link → found m link)
    (hrun : runTask net { s with tasks := s.tasks.eraseIdx k } node task = (s', rest)) :
    Inv endid regs msgs found { s' with tasks := s'.tasks ++ rest.toList } := by
  have hmem : task ∈ s.tasks := List.mem_of_getElem? htask
  have hok := h.tasks task hmem
  have hin := h.enters task hmem
  -- for a step that leaves nothing of the task, or calls
  have hnothing : ∀ {P : Task → Prop}, ∀ t ∈ (none : Option Task).toList, P t :=
    fun t ht => by cases ht
  have hone : ∀ {P : Task → Prop} {t' : Task}, P t' → ∀ t ∈ (some t').toList, P t := by
    intro P t' ht' t ht
    rw [Option.toList_some, List.mem_singleton] at ht
    exact ht ▸ ht'
  let s₀ : Server := { s with tasks := s.tasks.eraseIdx k }
  have hq : HoldsQueued s₀ := h.queue
  cases task with
  | calls cs =>
      cases cs with
      | nil =>
          cases hrun
          exact h.replace s₀ htask rfl rfl h.table hnothing hnothing h.forwarded h.unknown h.shown
            h.running h.queue (fun hnone => ⟨hnone, hnothing⟩) fun m => rfl
      | cons c cs =>
          cases hc : queuedBy c with
          | none =>
              rw [runTask_call net s₀ node cs hc] at hrun
              cases hrun
              have henter : ∀ n ∈ enteredBy c, n ∈ regs := by
                intro n hn
                exact hin n (List.mem_filterMap.mpr ⟨c, List.mem_cons_self, hn⟩)
              have htable : Enters (fun e k => (e, k) ∈ regs) (runCall net s₀ c).table :=
                Enters.runCall (s := s₀) h.table henter
              obtain ⟨fds, table, sent, killed, heq, hsent⟩ := runCall_eq net s₀ c
              rw [heq] at htable ⊢
              refine h.replace { s₀ with
                fds := fds
                table := table
                sent := sent
                killed := killed } htask rfl rfl htable
                (hone fun n hn => hin n (enters_calls hn)) (hone trivial) ?_ h.unknown h.shown
                h.running h.queue (fun hnone => ⟨hnone, hone rfl⟩) fun m => ?_
              · intro f hf
                have hf' : f ∈ sent.filterMap forwardOf := hf
                rw [hsent] at hf'
                exact h.forwarded f hf'
              · rw [count_calls, hc]
                simp only [placed, Forwarding.forwarded, hsent, Option.toList_some,
                  Option.toList_none, List.flatMap_singleton, List.count_nil]
                show 0 + _ + _ = _
                simp only [s₀]
                omega
          | some m₀ =>
              obtain rfl : c = .enSrvMsgQueue m₀ := by
                cases c <;> simp_all [queuedBy]
              cases hrun
              refine h.replace s₀ htask rfl rfl h.table (hone fun n hn => hin n (enters_calls hn))
                (hone trivial) h.forwarded h.unknown h.shown h.running h.queue
                (fun hnone => ⟨hnone, hone rfl⟩) fun m => ?_
              rw [Option.toList_some, List.flatMap_singleton]
              rfl
  | enqueue pc m₀ cs =>
      by_cases hpc : pc = .locked
      · subst hpc
        have hsome : s₀.queue ≠ none := by
          intro hnone
          have hlocked := (h.created hnone).1 _ hmem
          cases hlocked
        obtain ⟨heap, heq, hholds, -⟩ := enSrvMsgQueue_spec hq hsome hfresh m₀
        have hrun' : (enSrvMsgQueue s₀ node m₀, some (Task.calls cs)) = (s', rest) := hrun
        rw [heq] at hrun'
        cases hrun'
        refine h.replace { s₀ with
          heap := heap
          queued := m₀ :: s.queued } htask rfl rfl h.table (hone hin) (hone trivial)
          h.forwarded h.unknown h.shown h.running hholds (fun hnone => ⟨hnone, hone rfl⟩)
          fun m => ?_
        simp only [placed, Task.msgs, Option.toList_some, List.flatMap_singleton,
          List.count_cons, Forwarding.forwarded, s₀]
        omega
      · rw [runTask_enqueue net s₀ node m₀ cs hpc] at hrun
        cases hrun
        obtain ⟨heap, queue, queued, abandoned, heq, hholds, hcount, hnone, -⟩ :=
          toSection_spec hq node hpc
        rw [heq] at hholds ⊢
        refine h.replace { s₀ with
          heap := heap
          queue := queue
          queued := queued
          abandoned := abandoned } htask rfl rfl h.table (hone hin) (hone trivial)
          h.forwarded h.unknown h.shown h.running hholds (fun hq => ⟨(hnone hq).1, hone ?_⟩)
          fun m => ?_
        · have hne := (hnone hq).2
          cases hpc' : (toSection s₀ node pc).2 with
          | locked => exact absurd hpc' hne
          | _ => rfl
        · have hsame := hcount m
          simp only [placed, Task.msgs, Option.toList_some, List.flatMap_singleton,
            Forwarding.forwarded, s₀] at hsame ⊢
          omega
  | forward m =>
      cases hrun
      obtain ⟨r, hr, -⟩ := h.table
      have hget : getCliByEndid s.table m.destid .UNSET = Link.handle (r.get m.destid) := by
        rw [hr]
        exact Registry.get_cli_table r m.destid
      exact h.replace s₀ htask rfl rfl h.table (hone nofun)
        (hone ⟨hok, r.get m.destid, hget, hlookup m _ hget⟩) h.forwarded h.unknown h.shown
        h.running h.queue (fun hnone => ⟨hnone, hone rfl⟩) fun m' => rfl
  | send socket m =>
      obtain ⟨hdest, link, rfl, hlink⟩ := hok
      cases hrun
      obtain ⟨sent, unknown, killed, heq, ⟨conn, hsent⟩, hall⟩ := sendCliMsg_handle net s₀ m link
      rw [heq]
      refine h.replace { s₀ with
        sent := sent
        unknown := s.unknown ++ unknown
        killed := killed } htask rfl rfl h.table hnothing hnothing ?_ ?_ h.shown h.running h.queue
        (fun hnone => ⟨hnone, hnothing⟩) fun m' => ?_
      · intro f hf
        have hf' : f ∈ sent.filterMap forwardOf := hf
        rw [hsent, List.mem_append, List.mem_map] at hf'
        rcases hf' with hf' | ⟨l, hl, rfl⟩
        · exact h.forwarded f hf'
        · obtain rfl := Option.mem_toList.mp hl
          exact ⟨hdest, hlink⟩
      · intro m' hm'
        rcases List.mem_append.mp hm' with hm' | hm'
        · exact h.unknown m' hm'
        · rcases link with _ | l
          · rw [Option.toList_none, List.map_nil, List.append_nil] at hall
            subst hall
            rw [List.mem_singleton.mp hm']
            exact ⟨hdest, hlink⟩
          · obtain rfl : unknown = [] := by simpa using congrArg List.length hall
            cases hm'
      · have hcount := congrArg (List.count m') hall
        rw [List.count_append] at hcount
        simp only [placed, Task.msgs, Forwarding.forwarded, hsent, List.map_append, List.map_map,
          List.count_append, Option.toList_none, List.flatMap_nil, List.count_nil, s₀]
        have hmap : link.toList.map (Forward.msg ∘ (Forward.mk · m conn)) =
            link.toList.map fun _ => m := rfl
        rw [hmap]
        omega
  | display m =>
      cases hrun
      refine h.replace { s₀ with shown := s.shown ++ [m] } htask rfl rfl h.table hnothing hnothing
        h.forwarded h.unknown ?_ h.running h.queue (fun hnone => ⟨hnone, hnothing⟩) fun m' => ?_
      · intro m' hm'
        rcases List.mem_append.mp hm' with hm' | hm'
        · exact h.shown m' hm'
        · rw [List.mem_singleton.mp hm']
          exact hok
      · simp only [placed, Task.msgs, Forwarding.forwarded, List.count_append, Option.toList_none,
          List.flatMap_nil, List.count_nil, s₀]
        omega
  | broadcast m =>
      cases hrun
      refine h.replace { s₀ with
        sent := s.sent ++ (traverseTableSendMsg net s.table m).sent.map
          fun call => ⟨.broadcast, call, connOf s.fds call⟩
        killed := (traverseTableSendMsg net s.table m).killed } htask rfl rfl h.table hnothing
        hnothing ?_ h.unknown h.shown h.running h.queue (fun hnone => ⟨hnone, hnothing⟩)
        fun m' => ?_
      · intro f hf
        apply h.forwarded f
        simpa only [Forwarding.forwarded, List.filterMap_append, filterMap_broadcast,
          List.append_nil] using hf
      · simp only [placed, Task.msgs, Forwarding.forwarded, List.filterMap_append,
          filterMap_broadcast, List.append_nil, Option.toList_none, List.flatMap_nil, s₀]

/-- A step of the thread: towards a message, or with the one it has taken. -/
theorem Inv.msgProcess (h : Inv endid regs msgs found s) (node : Addr) :
    Inv endid regs msgs found (socketMsgProcessThread endid s node) := by
  cases hpc : s.msgProcess with
  | addTask m =>
      have hgiven : ∃ task, Task.Ok endid found task ∧ task.msgs = [m] ∧ task.enters = [] ∧
          task.locked = false ∧ socketMsgProcessThread endid s node =
            { s with
              tasks := s.tasks ++ [task]
              msgProcess := .deSrvMsgQueue .test } := by
        by_cases hdest : m.destid = endid
        · refine ⟨.display m, hdest, rfl, rfl, rfl, ?_⟩
          simp only [socketMsgProcessThread, hpc, hdest, if_true]
        · refine ⟨.forward m, hdest, rfl, rfl, rfl, ?_⟩
          simp only [socketMsgProcessThread, hpc, hdest, if_false]
      obtain ⟨task, hok, hmsgs, henters, hlocked, heq⟩ := hgiven
      have hall : ∀ {P : Task → Prop}, (∀ t ∈ s.tasks, P t) → P task →
          ∀ t ∈ s.tasks ++ [task], P t := by
        intro P hs hnew t ht
        rcases List.mem_append.mp ht with ht | ht
        · exact hs t ht
        · exact List.mem_singleton.mp ht ▸ hnew
      rw [heq]
      refine { h with
        enters := hall h.enters (by rw [henters]; nofun)
        tasks := hall h.tasks hok
        created := fun hnone => ⟨hall (h.created hnone).1 hlocked, rfl⟩
        counted := fun m' => ?_ }
      rw [h.counted m', List.flatMap_append, List.count_append, List.flatMap_singleton, hmsgs]
      simp only [placed, hpc, MsgProcessPc.msgs, List.count_nil, Forwarding.forwarded]
      omega
  | deSrvMsgQueue pc =>
      have hplaced : ∀ m, placed s m = s.queued.count m + s.abandoned.count m +
          ((Forwarding.forwarded s).map Forward.msg).count m + s.shown.count m +
            s.unknown.count m := by
        intro m
        simp only [placed, hpc, MsgProcessPc.msgs, List.count_nil, Nat.zero_add]
      by_cases hlocked : pc = .locked
      · subst hlocked
        obtain ⟨queue, hqueue⟩ : ∃ queue, s.queue = some queue := by
          apply Option.ne_none_iff_exists'.mp
          intro hnone
          have hnot := (h.created hnone).2
          rw [hpc] at hnot
          cases hnot
        have hholds : Holds s.heap queue s.queued := by
          have hq := h.queue
          rwa [HoldsQueued, hqueue] at hq
        rcases hqueued : s.queued with _ | ⟨m, queued⟩
        · rw [hqueued] at hholds
          have heq : socketMsgProcessThread endid s node =
              { s with msgProcess := .deSrvMsgQueue .test } := by
            simp only [socketMsgProcessThread, hpc, deMsgFromQueue, hqueue, deFromQueue_nil hholds]
          rw [heq]
          exact { h with
            created := fun hnone => ⟨(h.created hnone).1, rfl⟩
            counted := fun m => by
              rw [h.counted m, hplaced]
              simp only [placed, MsgProcessPc.msgs, List.count_nil, Nat.zero_add]
              rfl }
        · rw [hqueued] at hholds
          obtain ⟨heap, node', hde, hholds', -⟩ := deFromQueue_cons hholds true
          have heq : socketMsgProcessThread endid s node =
              { s with
                heap := heap
                queued := queued
                msgProcess := .addTask m } := by
            simp only [socketMsgProcessThread, hpc, deMsgFromQueue, hqueue, hde, if_true, hqueued,
              List.tail_cons]
          rw [heq]
          refine { h with
            queue := ?_
            created := fun hnone => ⟨(h.created hnone).1, rfl⟩
            counted := fun m' => ?_ }
          · show HoldsQueued { s with
              heap := heap
              queued := queued
              msgProcess := .addTask m }
            simp only [HoldsQueued, hqueue]
            exact hholds'
          · rw [h.counted m', hplaced, hqueued]
            simp only [placed, MsgProcessPc.msgs, Forwarding.forwarded, List.count_cons,
              List.count_nil]
            omega
      · obtain ⟨heap, queue, queued, abandoned, heq, hholds, hcount, hnone, -⟩ :=
          toSection_spec h.queue node hlocked
        have hstep : socketMsgProcessThread endid s node = { (toSection s node pc).1 with
            msgProcess := .deSrvMsgQueue (toSection s node pc).2 } := by
          cases pc with
          | locked => exact absurd rfl hlocked
          | _ => simp only [socketMsgProcessThread, hpc]
        rw [hstep]
        rw [heq] at hholds ⊢
        refine { h with
          queue := hholds
          created := fun hq => ⟨(h.created (hnone hq).1).1, ?_⟩
          counted := fun m => ?_ }
        · have hne := (hnone hq).2
          cases hpc' : (toSection s node pc).2 with
          | locked => exact absurd hpc' hne
          | _ => rfl
        · have hsame := hcount m
          rw [h.counted m, hplaced]
          simp only [placed, MsgProcessPc.msgs, Forwarding.forwarded, List.count_nil]
          omega

/-- What one event preserves. -/
theorem Inv.step {e : Event} {t : Server} (h : Inv endid regs msgs found s)
    (hlookup : ∀ m link, getCliByEndid s.table m.destid .UNSET = Link.handle link → found m link)
    (hstep : Forwarding.step endid s e = some t) :
    Inv endid (regs ++ registered e) (msgs ++ received e) found t := by
  obtain ⟨-, hstep⟩ := Option.ite_none_left_eq_some.mp hstep
  have hsame : registered e = [] → received e = [] → Inv endid regs msgs found t →
      Inv endid (regs ++ registered e) (msgs ++ received e) found t := by
    intro hr hm hinv
    rwa [hr, hm, List.append_nil, List.append_nil]
  cases e with
  | accept newfd =>
      simp only at hstep
      split at hstep
      · obtain rfl := Option.some.inj hstep
        exact hsame rfl rfl h
      · obtain ⟨-, hstep⟩ := Option.ite_none_left_eq_some.mp hstep
        obtain rfl := Option.some.inj hstep
        exact h.add trivial (accept_calls newfd).1 (accept_calls newfd).2 rfl
  | recvTcp fd r =>
      simp only at hstep
      split at hstep
      · obtain ⟨rfl, hstep⟩ := Option.ite_none_right_eq_some.mp hstep
        obtain rfl := Option.some.inj hstep
        exact hsame rfl rfl h
      · obtain rfl := Option.some.inj hstep
        exact h.add trivial (recvTcp_calls endid fd r).1 (recvTcp_calls endid fd r).2 rfl
  | recvUdp ipaddr port r =>
      obtain rfl := Option.some.inj hstep
      exact h.add trivial (recvUdp_calls endid ipaddr port r).1
        (recvUdp_calls endid ipaddr port r).2 rfl
  | readStdin msgPack =>
      obtain rfl := Option.some.inj hstep
      exact h.add trivial rfl rfl rfl
  | work k node net =>
      obtain ⟨hfresh, hstep⟩ := Option.ite_none_right_eq_some.mp hstep
      obtain ⟨task, htask, rfl⟩ := Option.map_eq_some_iff.mp hstep
      exact hsame rfl rfl (h.work net htask hfresh hlookup (Prod.mk.eta).symm)
  | msgProcess node =>
      obtain ⟨-, hstep⟩ := Option.ite_none_right_eq_some.mp hstep
      obtain rfl := Option.some.inj hstep
      exact hsame rfl rfl (h.msgProcess node)

end Steps

/-! ## 4. Whole runs -/

section Run

variable {endid : EndId} {evs : List Event} {s t : Server}

/-- At some moment of the run, the lookup of the destination of `m` finds `link`. -/
def FoundIn (endid : EndId) (evs : List Event) (m : LcMsgPackage) (link : Option Link) : Prop :=
  ∃ pre u, pre <+: evs ∧ exec (step endid) start pre = some u ∧
    getCliByEndid u.table m.destid .UNSET = Link.handle link

theorem start_inv : Inv endid [] [] (FoundIn endid []) start where
  table := ⟨.empty, rfl, fun e k hk => by cases hk⟩
  enters := fun task htask => by cases htask
  tasks := fun task htask => by cases htask
  forwarded := fun f hf => by cases hf
  unknown := fun m hm => by cases hm
  shown := fun m hm => by cases hm
  running := rfl
  queue := rfl
  created := fun _ => ⟨fun task htask => (by cases htask), rfl⟩
  counted := fun m => rfl

/-- The invariant with the events of the run so far. -/
theorem run_inv (hrun : exec (step endid) start evs = some s) :
    Inv endid (evs.flatMap registered) (evs.flatMap received) (FoundIn endid evs) s := by
  have hhist : exec (step endid) start evs = some s ∧
      Inv endid (evs.flatMap registered) (evs.flatMap received) (FoundIn endid evs) s := by
    apply exec_history (K := fun evs s => exec (step endid) start evs = some s ∧
      Inv endid (evs.flatMap registered) (evs.flatMap received) (FoundIn endid evs) s)
      _ ⟨rfl, start_inv⟩ hrun
    rintro es u e t ⟨hu, hinv⟩ hstep
    constructor
    · rw [exec_append, hu]
      exact (exec_cons u e []).trans (by rw [hstep]; rfl)
    · rw [List.flatMap_append, List.flatMap_append, List.flatMap_singleton, List.flatMap_singleton]
      have hwider : ∀ m link, FoundIn endid es m link → FoundIn endid (es ++ [e]) m link := by
        rintro m link ⟨pre, v, hpre, hv, hget⟩
        exact ⟨pre, v, hpre.trans (List.prefix_append es [e]), hv, hget⟩
      apply (hinv.mono hwider).step _ hstep
      intro m link hget
      exact ⟨es, u, List.prefix_append es [e], hu, hget⟩
  exact hhist.2

/-- A lookup finds only what was registered before. -/
theorem FoundIn.registered {m : LcMsgPackage} {link : Link}
    (h : FoundIn endid evs m (some link)) : (m.destid, link) ∈ evs.flatMap registered := by
  obtain ⟨pre, u, ⟨rest, rfl⟩, hu, hget⟩ := h
  obtain ⟨r, hr, hreg⟩ := (run_inv hu).table
  rw [hr, Registry.get_cli_table r] at hget
  rw [List.flatMap_append, List.mem_append]
  left
  exact hreg m.destid link (Link.handle_injective hget)

/-- The messages that are in the hands of the threads or in the queue. -/
def Server.underWay (s : Server) : List LcMsgPackage :=
  s.tasks.flatMap Task.msgs ++ s.msgProcess.msgs ++ s.queued

/-- Every message received is in one place: none is forwarded or shown twice, and none is made
    up. -/
theorem conserved (hrun : exec (step endid) start evs = some s) :
    (evs.flatMap received).Perm (s.underWay ++ s.abandoned ++
      (forwarded s).map Forward.msg ++ s.shown ++ s.unknown) := by
  rw [List.perm_iff_count]
  intro m
  rw [(run_inv hrun).counted m, placed, Server.underWay]
  simp only [List.count_append]
  omega

/-- The section of `init_srv_msg_queue` runs while there is no queue or an empty one. -/
def InitEmpty (s : Server) : Event → Prop
  | .work k _ _ => ∀ m cs, s.tasks[k]? = some (.enqueue .initLocked m cs) → s.queued = []
  | .msgProcess _ => s.msgProcess = .deSrvMsgQueue .initLocked → s.queued = []
  | _ => True

/-- Only that section abandons messages. -/
theorem abandoned_runTask (net : Net) (s : Server) (node : Addr) (task : Task) :
    (runTask net s node task).1.abandoned = s.abandoned ++
      match task with
      | .enqueue .initLocked _ _ => s.queued
      | _ => [] := by
  cases task with
  | calls cs =>
      rcases cs with _ | ⟨c, cs⟩
      · exact (List.append_nil _).symm
      · cases c <;> exact (List.append_nil _).symm
  | enqueue pc m cs =>
      cases pc with
      | test => exact (List.append_nil _).symm
      | initTest => exact (List.append_nil _).symm
      | initLocked => rfl
      | locked =>
          simp only [runTask, enSrvMsgQueue, List.append_nil]
          split <;> rfl
  | forward m => exact (List.append_nil _).symm
  | send socket m => cases socket <;> exact (List.append_nil _).symm
  | display m => exact (List.append_nil _).symm
  | broadcast m => exact (List.append_nil _).symm

theorem abandoned_msgProcess (endid : EndId) (s : Server) (node : Addr) :
    (socketMsgProcessThread endid s node).abandoned = s.abandoned ++
      match s.msgProcess with
      | .deSrvMsgQueue .initLocked => s.queued
      | _ => [] := by
  rcases hpc : s.msgProcess with pc | m
  · cases pc with
    | test => simp [socketMsgProcessThread, hpc, toSection]
    | initTest => simp [socketMsgProcessThread, hpc, toSection]
    | initLocked => simp [socketMsgProcessThread, hpc, toSection, initSrvMsgQueue]
    | locked =>
        simp only [socketMsgProcessThread, hpc, List.append_nil]
        split <;> rfl
  · simp [socketMsgProcessThread, hpc]

theorem abandoned_step {e : Event} (hstep : step endid s e = some t) :
    t.abandoned = [] ↔ s.abandoned = [] ∧ InitEmpty s e := by
  obtain ⟨-, hstep⟩ := Option.ite_none_left_eq_some.mp hstep
  cases e with
  | accept newfd =>
      simp only at hstep
      split at hstep
      · obtain rfl := Option.some.inj hstep
        exact (and_iff_left trivial).symm
      · obtain ⟨-, hstep⟩ := Option.ite_none_left_eq_some.mp hstep
        obtain rfl := Option.some.inj hstep
        exact (and_iff_left trivial).symm
  | recvTcp fd r =>
      simp only at hstep
      split at hstep
      · obtain ⟨-, hstep⟩ := Option.ite_none_right_eq_some.mp hstep
        obtain rfl := Option.some.inj hstep
        exact (and_iff_left trivial).symm
      · obtain rfl := Option.some.inj hstep
        exact (and_iff_left trivial).symm
  | recvUdp ipaddr port r =>
      obtain rfl := Option.some.inj hstep
      exact (and_iff_left trivial).symm
  | readStdin msgPack =>
      obtain rfl := Option.some.inj hstep
      exact (and_iff_left trivial).symm
  | work k node net =>
      obtain ⟨-, hstep⟩ := Option.ite_none_right_eq_some.mp hstep
      obtain ⟨task, htask, rfl⟩ := Option.map_eq_some_iff.mp hstep
      simp only [abandoned_runTask, List.append_eq_nil_iff, InitEmpty, htask]
      apply and_congr_right
      intro _
      split
      · simp
      · rename_i hne
        refine iff_of_true rfl ?_
        intro m cs heq
        exact absurd (Option.some.inj heq) (hne m cs)
  | msgProcess node =>
      obtain ⟨-, hstep⟩ := Option.ite_none_right_eq_some.mp hstep
      obtain rfl := Option.some.inj hstep
      simp only [abandoned_msgProcess, List.append_eq_nil_iff, InitEmpty]
      apply and_congr_right
      intro _
      split
      · rename_i hpc
        simp [hpc]
      · rename_i hne
        exact iff_of_true rfl fun heq => absurd heq hne

/-- Nothing is abandoned exactly if no queue takes the place of one with messages. -/
theorem abandoned_run (hrun : exec (step endid) s evs = some t) :
    t.abandoned = [] ↔ s.abandoned = [] ∧ Along (step endid) InitEmpty s evs := by
  induction evs generalizing s with
  | nil =>
      obtain rfl := Option.some.inj hrun
      exact (and_iff_left trivial).symm
  | cons e evs ih =>
      obtain ⟨u, hu, hrest⟩ := exec_cons_eq_some.mp hrun
      rw [ih hrest, abandoned_step hu, and_assoc]
      apply and_congr_right
      intro _
      apply and_congr_right
      intro _
      constructor
      · intro h v hv
        exact Option.some.inj (hu.symm.trans hv) ▸ h
      · exact fun h => h u hu

/-- In every run each message that was received is in exactly one place; one of the places is
    a queue that another one has replaced, and it is empty exactly if no queue with messages
    was. -/
theorem received_in_one_place (endid : EndId) (evs : List Event) (s : Server)
    (hrun : exec (step endid) start evs = some s) :
    s.faulted = false ∧ HoldsQueued s ∧
      (evs.flatMap received).Perm (s.underWay ++ s.abandoned ++
        (forwarded s).map Forward.msg ++ s.shown ++ s.unknown) ∧
      (s.abandoned = [] ↔ Along (step endid) InitEmpty start evs) := by
  have hinv := run_inv hrun
  refine ⟨hinv.running, hinv.queue, conserved hrun, ?_⟩
  rw [abandoned_run hrun]
  exact and_iff_right rfl

end Run

theorem whole_pos (m : LcMsgPackage) : 0 < m.bytes.length := by
  simp [m.size, sizeofLcMsgPackage]

theorem whole_le (m : LcMsgPackage) : m.bytes.length ≤ sizeofLcMsgPackage := Nat.le_of_eq m.size

/-- The receive of a whole message. -/
def wholeRecv (m : LcMsgPackage) : RecvRet :=
  .data ⟨m.bytes, whole_pos m, whole_le m⟩

/-- A message for client 7. -/
def forSeven : LcMsgPackage := LcMsgPackage.setDestid tcpData 7

def noNet : Net := ⟨fun _ => .ret 0, fun _ => 0⟩

/-- Client 7 connects and registers, and a datagram with a message for it comes in.  The
    worker that receives it creates the queue. -/
def oneForwarded : List Event :=
  [.accept 5, .recvTcp 5 (wholeRecv (LcMsgPackage.setSrcid
      (LcMsgPackage.setMsgType (Buf.zero sizeofLcMsgPackage) .SAVE_CLI_INFO) 7)),
   .work 1 1 noNet, .recvUdp 0x0100007f 9000 (wholeRecv forSeven)] ++
  List.replicate 4 (.work 2 2 noNet) ++ .work 2 3 noNet ::
  List.replicate 3 (.msgProcess 4) ++ List.replicate 2 (.work 3 4 noNet)

theorem oneForwarded_forwarded :
    (exec (step 1) start oneForwarded).map
      (fun s => (forwarded s).map fun f => (f.link, f.msg, f.conn)) =
        some [(.tcp 5, forSeven, some 0)] := by
  decide +kernel

/-- It is nowhere else. -/
theorem received_in_one_place_oneForwarded :
    ∃ s, exec (step 1) start oneForwarded = some s ∧ s.underWay = [] ∧ s.abandoned = [] ∧
      s.shown = [] ∧ s.unknown = [] := by
  obtain ⟨s, hs, hforwarded⟩ := Option.map_eq_some_iff.mp oneForwarded_forwarded
  obtain ⟨-, -, hperm, -⟩ := received_in_one_place 1 oneForwarded s hs
  have hone : (oneForwarded.flatMap received).length = 1 := by decide +kernel
  have hsent := congrArg List.length hforwarded
  have hlength := hperm.length_eq
  simp only [List.length_map, List.length_cons, List.length_nil] at hsent
  simp only [hone, List.length_append, List.length_map, hsent] at hlength
  refine ⟨s, hs, ?_, ?_, ?_, ?_⟩ <;> exact List.eq_nil_of_length_eq_zero (by omega)

end SocketPractice.Socket.Forwarding
