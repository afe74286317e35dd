import SocketPractice.SocketUdp.ServerUdp

/-!
# The threads of the server (`server_udp.c`)

A worker that has received a datagram carries out the calls of `PorcessUdpMsg` one after the
other, and one that has taken a task those of `SrvMsgProcessTask`; `SrvMsgProcessThread` takes
messages off the queue and makes a task of each.  Between any two of these calls the other
threads may take steps.

The registry and the queue are made by whoever uses them first.  A call tests the pointer
without a lock, and makes the list if there is none.  If another thread tests the pointer in
the meantime, it reads what is just being written; there is no saying what the program does
after such a data race, and a run ends there.

Up to then the registry lists what was entered and the queue what was put in, and a worker
either goes on with what it has in its hands or reads through the node of a client that it
has not found.
-/

namespace SocketPractice.SocketUdp.Chat

open Lib.Bytes Lib.Keyed Lib.Links Common

/-! ## 1. The code -/

/-- Where a thread is in a call that needs a list: before the test of the pointer, between a
    test that has found none and the end of `InitCliInfoList` or `InitSrvMsgQueue`, or before
    the critical section. -/
inductive InitPc where
  | test
  | init
  | locked
deriving DecidableEq

/-- What a worker still has to do. -/
inductive SrvTask where
  /-- `PorcessUdpMsg` at its `AddNodeToCliInfoList`. -/
  | addNode (pc : InitPc) (cliID : EndID) (addr : SockaddrIn)
  /-- The same at its `sendto`. -/
  | answer (cliID : EndID) (addr : SockaddrIn)
  /-- The same at its `EnSrvMsgQueue`. -/
  | enQueue (pc : InitPc) (rxBuf : LcMsg)
  | srvMsgProcessTask (msgBuf : LcMsg)
  /-- `SrvMsgProcessTask` at its `GetCliInfoNodeByCliID`. -/
  | getNode (pc : InitPc) (msgBuf : LcMsg)
  /-- The same at the copy of the node that the call has returned. -/
  | copyNode (listNode : Option Addr) (msgBuf : LcMsg)
  /-- The same at its `sendto`. -/
  | sendto (addr : SockaddrIn) (msgBuf : LcMsg)

/-- Where `SrvMsgProcessThread` is. -/
inductive MsgProcessPc where
  | deQueue (pc : InitPc)
  | addTask (msgBuf : LcMsg)
deriving DecidableEq

structure ChatServer where
  cliInfo : CLisInfoList
  /-- The nodes of `cliInfo`, the latest first. -/
  entered : List ClisInfoListNode
  msgQueue : SrvMsgQueue
  /-- The messages in `msgQueue`, oldest first. -/
  queued : List LcMsg
  tasks : List SrvTask
  msgProcess : MsgProcessPc
  shown : List LcMsg
  /-- Memory was accessed that is not allocated. -/
  faulted : Bool

/-- A step on the way to the critical section, where `made` says whether there is a list. -/
def InitPc.next (made : Bool) : InitPc → InitPc
  | .test => if made then .locked else .init
  | .init => .locked
  | .locked => .locked

def ChatServer.initList (s : ChatServer) (list : Addr) : InitPc → ChatServer
  | .init => { s with cliInfo := initCliInfoList s.cliInfo list }
  | _ => s

def ChatServer.initQueue (s : ChatServer) (queue : Addr) : InitPc → ChatServer
  | .init => { s with msgQueue := initSrvMsgQueue s.msgQueue queue }
  | _ => s

/-- What a datagram of a whole message makes `PorcessUdpMsg` do behind its `recvfrom`. -/
def recvTask (rxBuf : LcMsg) (sockaddr : SockaddrIn) : Option SrvTask :=
  if IsSaveCliInfo rxBuf then some (.addNode .test (LcMsg.srcEndID rxBuf) sockaddr)
  else if IsDataMsg rxBuf then some (.enQueue .test rxBuf)
  else none

/-- The server after a step of a worker, what is left of its task, and what it has sent. -/
structure Ran where
  srv : ChatServer
  rest : Option SrvTask
  sent : List (SockaddrIn × LcMsg)

def ChatServer.fault (s : ChatServer) (task : SrvTask) : Ran :=
  ⟨{ s with faulted := true }, some task, []⟩

/-- A step of a worker.  The tests that the calls begin with are steps of their own, so that
    they find the list again in the critical section. -/
def runTask (s : ChatServer) (list node : Addr) : SrvTask → Ran
  | .addNode .locked cliID addr =>
      if s.cliInfo.head = none then s.fault (.addNode .locked cliID addr)
      else
        match addNodeToCliInfoList s.cliInfo list node cliID addr with
        | some cliInfo =>
            ⟨{ s with cliInfo := cliInfo, entered := ⟨cliID, addr⟩ :: s.entered },
              some (.answer cliID addr), []⟩
        | none => s.fault (.addNode .locked cliID addr)
  | .addNode pc cliID addr =>
      ⟨s.initList list pc, some (.addNode (pc.next s.cliInfo.head.isSome) cliID addr), []⟩
  | .answer cliID addr => ⟨s, none, [(addr, txBuf cliID)]⟩
  | .enQueue .locked rxBuf =>
      if s.msgQueue.queue = none then s.fault (.enQueue .locked rxBuf)
      else
        match enSrvMsgQueue s.msgQueue list node (some rxBuf) with
        | some (msgQueue, .QUEUE_SUCCESS) =>
            ⟨{ s with msgQueue := msgQueue, queued := s.queued ++ [rxBuf] }, none, []⟩
        | some (msgQueue, _) => ⟨{ s with msgQueue := msgQueue }, none, []⟩
        | none => s.fault (.enQueue .locked rxBuf)
  | .enQueue pc rxBuf =>
      ⟨s.initQueue list pc, some (.enQueue (pc.next s.msgQueue.queue.isSome) rxBuf), []⟩
  | .srvMsgProcessTask msgBuf =>
      if IsDataMsg msgBuf then
        if LcMsg.destEndID msgBuf = SETVER_ENDID then
          ⟨{ s with shown := s.shown ++ [msgBuf] }, none, []⟩
        else ⟨s, some (.getNode .test msgBuf), []⟩
      else ⟨s, none, []⟩
  | .getNode .locked msgBuf =>
      if s.cliInfo.head = none then s.fault (.getNode .locked msgBuf)
      else
        match getCliInfoNodeByCliID s.cliInfo list (LcMsg.destEndID msgBuf) with
        | some (cliInfo, listNode) =>
            ⟨{ s with cliInfo := cliInfo }, some (.copyNode listNode msgBuf), []⟩
        | none => s.fault (.getNode .locked msgBuf)
  | .getNode pc msgBuf =>
      ⟨s.initList list pc, some (.getNode (pc.next s.cliInfo.head.isSome) msgBuf), []⟩
  | .copyNode listNode msgBuf =>
      match listNode.bind s.cliInfo.heap.val? with
      | some destCliInfo => ⟨s, some (.sendto destCliInfo.addr msgBuf), []⟩
      | none => s.fault (.copyNode listNode msgBuf)
  | .sendto addr msgBuf => ⟨s, none, [(addr, msgBuf)]⟩

/-- A step of `SrvMsgProcessThread`. -/
def runThread (s : ChatServer) (queue : Addr) : ChatServer :=
  match s.msgProcess with
  | .deQueue .locked =>
      if s.msgQueue.queue = none then { s with faulted := true }
      else
        match deSrvMsgQueue s.msgQueue queue true with
        | some (msgQueue, .QUEUE_SUCCESS, some msgBuf) =>
            { s with msgQueue := msgQueue, queued := s.queued.tail, msgProcess := .addTask msgBuf }
        | some (msgQueue, _, _) => { s with msgQueue := msgQueue, msgProcess := .deQueue .test }
        | none => { s with faulted := true }
  | .deQueue pc =>
      { s.initQueue queue pc with msgProcess := .deQueue (pc.next s.msgQueue.queue.isSome) }
  | .addTask msgBuf =>
      { s with tasks := s.tasks ++ [.srvMsgProcessTask msgBuf], msgProcess := .deQueue .test }

/-- Where a worker is in a call that needs the registry, or the queue. -/
def SrvTask.listPc : SrvTask → Option InitPc
  | .addNode pc _ _ => some pc
  | .getNode pc _ => some pc
  | _ => none

def SrvTask.queuePc : SrvTask → Option InitPc
  | .enQueue pc _ => some pc
  | _ => none

def MsgProcessPc.queuePc : MsgProcessPc → Option InitPc
  | .deQueue pc => some pc
  | .addTask _ => none

/-- A worker takes a step of its task, or the thread does, with the addresses that `malloc`
    returns for a list and for a node. -/
inductive SrvEvent where
  | work (k : Nat) (list node : Addr)
  | msgProcess (queue : Addr)

/-- A thread is between its test and the end of `InitCliInfoList`, or `InitSrvMsgQueue`. -/
def ChatServer.listInInit (s : ChatServer) : Bool :=
  s.tasks.any fun task => task.listPc = some .init

def ChatServer.queueInInit (s : ChatServer) : Bool :=
  s.msgProcess.queuePc = some .init || s.tasks.any fun task => task.queuePc = some .init

/-- A thread tests a pointer while another one may write it. -/
def Races (s : ChatServer) : SrvEvent → Bool
  | .work k _ _ =>
      s.tasks[k]?.any fun task =>
        (task.listPc = some .test && s.listInInit) || (task.queuePc = some .test && s.queueInInit)
  | .msgProcess _ => s.msgProcess.queuePc = some .test && s.queueInInit

/-- What `malloc` returns is not in use. -/
def Free (s : ChatServer) : SrvEvent → Prop
  | .work _ list node =>
      (s.cliInfo.heap list = none ∧ s.cliInfo.heap node = none ∧ s.msgQueue.heap node = none) ∧
        node ≠ list
  | .msgProcess _ => True

instance (s : ChatServer) (e : SrvEvent) : Decidable (Free s e) := by
  cases e <;> unfold Free <;> infer_instance

/-- With what is sent in the step.  After a fault the process is gone. -/
def srvStep (s : ChatServer) (e : SrvEvent) : Option (ChatServer × List (SockaddrIn × LcMsg)) :=
  if s.faulted = true ∨ Races s e = true ∨ ¬ Free s e then none
  else
    match e with
    | .work k list node =>
        s.tasks[k]?.map fun task =>
          let ran := runTask { s with tasks := s.tasks.eraseIdx k } list node task
          ({ ran.srv with tasks := ran.srv.tasks ++ ran.rest.toList }, ran.sent)
    | .msgProcess queue => some (runThread s queue, [])

/-- The server when its threads begin. -/
def newChatServer : ChatServer where
  cliInfo := ListTable.empty
  entered := []
  msgQueue := { heap := Heap.empty, queue := none }
  queued := []
  tasks := []
  msgProcess := .deQueue .test
  shown := []
  faulted := false

/-! ## 2. What the lists hold -/

/-- The lists are there for those who are behind their tests, they hold what they should, and
    a node that was found stays what it was. -/
structure SrvInv (s : ChatServer) : Prop where
  registry : s.cliInfo.Lists s.entered
  nodes : ∃ xs, s.cliInfo.Nodes xs
  queue : s.msgQueue.Queued s.queued
  listMade : ∀ task ∈ s.tasks, task.listPc = some .locked → s.cliInfo.head ≠ none
  queueMade : ∀ task ∈ s.tasks, task.queuePc = some .locked → s.msgQueue.queue ≠ none
  threadMade : s.msgProcess.queuePc = some .locked → s.msgQueue.queue ≠ none
  found : ∀ pos m, .copyNode (some pos) m ∈ s.tasks →
    ∃ v ∈ s.entered, s.cliInfo.heap.val? pos = some v ∧ v.cliID = LcMsg.destEndID m

theorem newChatServer_inv : SrvInv newChatServer where
  registry := ListTable.empty_lists
  nodes := ⟨[], ListTable.empty_nodes⟩
  queue := rfl
  listMade _ h := absurd h List.not_mem_nil
  queueMade _ h := absurd h List.not_mem_nil
  threadMade h := by cases h
  found _ _ h := absurd h List.not_mem_nil

/-- What a step of a worker does to what is listed, queued, shown and sent. -/
inductive Does (s : ChatServer) : SrvTask → ChatServer → Option SrvTask →
    List (SockaddrIn × LcMsg) → Prop where
  | addInit {pc pc' : InitPc} {cliID : EndID} {addr : SockaddrIn} {cliInfo : CLisInfoList}
      (hpc : pc ≠ .locked) :
      Does s (.addNode pc cliID addr) { s with cliInfo := cliInfo }
        (some (.addNode pc' cliID addr)) []
  | add {cliID : EndID} {addr : SockaddrIn} {cliInfo : CLisInfoList} :
      Does s (.addNode .locked cliID addr)
        { s with cliInfo := cliInfo, entered := ⟨cliID, addr⟩ :: s.entered }
        (some (.answer cliID addr)) []
  | answer {cliID : EndID} {addr : SockaddrIn} :
      Does s (.answer cliID addr) s none [(addr, txBuf cliID)]
  | queueInit {pc pc' : InitPc} {m : LcMsg} {msgQueue : SrvMsgQueue} (hpc : pc ≠ .locked) :
      Does s (.enQueue pc m) { s with msgQueue := msgQueue } (some (.enQueue pc' m)) []
  | enQueue {m : LcMsg} {msgQueue : SrvMsgQueue} :
      Does s (.enQueue .locked m) { s with msgQueue := msgQueue, queued := s.queued ++ [m] }
        none []
  | display {m : LcMsg} (hdata : IsDataMsg m) (hdest : LcMsg.destEndID m = SETVER_ENDID) :
      Does s (.srvMsgProcessTask m) { s with shown := s.shown ++ [m] } none []
  | search {m : LcMsg} (hdata : IsDataMsg m) (hdest : LcMsg.destEndID m ≠ SETVER_ENDID) :
      Does s (.srvMsgProcessTask m) s (some (.getNode .test m)) []
  | drop {m : LcMsg} (hdata : ¬ IsDataMsg m) : Does s (.srvMsgProcessTask m) s none []
  | getInit {pc pc' : InitPc} {m : LcMsg} {cliInfo : CLisInfoList} (hpc : pc ≠ .locked) :
      Does s (.getNode pc m) { s with cliInfo := cliInfo } (some (.getNode pc' m)) []
  | get {m : LcMsg} {cliInfo : CLisInfoList} {listNode : Option Addr}
      (hfirst : listNode.bind cliInfo.heap.val? =
        first ClisInfoListNode.cliID s.entered (LcMsg.destEndID m))
      (hnone : first ClisInfoListNode.cliID s.entered (LcMsg.destEndID m) = none →
        listNode = none) :
      Does s (.getNode .locked m) { s with cliInfo := cliInfo } (some (.copyNode listNode m)) []
  | copy {pos : Addr} {m : LcMsg} {v : ClisInfoListNode} (hmem : v ∈ s.entered)
      (hid : v.cliID = LcMsg.destEndID m) :
      Does s (.copyNode (some pos) m) s (some (.sendto v.addr m)) []
  | null {m : LcMsg} :
      Does s (.copyNode none m) { s with faulted := true } (some (.copyNode none m)) []
  | sendto {addr : SockaddrIn} {m : LcMsg} : Does s (.sendto addr m) s none [(addr, m)]

section Steps

variable {s : ChatServer}

/-- Behind the test, or behind the call that makes it, there is a list. -/
theorem initList_spec (h : SrvInv s) {list : Addr} (hlist : s.cliInfo.heap list = none)
    (pc : InitPc) :
    ∃ cliInfo xs, s.initList list pc = { s with cliInfo := cliInfo } ∧
      cliInfo.Lists s.entered ∧ cliInfo.Nodes xs ∧ ListTable.Keeps s.cliInfo cliInfo ∧
      (s.cliInfo.head ≠ none → cliInfo.head ≠ none) ∧
      (pc ≠ .locked → pc.next s.cliInfo.head.isSome = .locked → cliInfo.head ≠ none) := by
  obtain ⟨xs, hxs⟩ := h.nodes
  cases pc with
  | test =>
      refine ⟨s.cliInfo, xs, rfl, h.registry, hxs, ListTable.Keeps.refl _, id, ?_⟩
      intro _ hnext
      cases hhead : s.cliInfo.head with
      | none => simp [InitPc.next, hhead] at hnext
      | some head => exact Option.some_ne_none head
  | init =>
      obtain ⟨hnodes, hkeeps, head, hhead, -⟩ := hxs.init hlist
      have hne : (s.cliInfo.init list).head ≠ none := by
        rw [hhead]
        exact Option.some_ne_none head
      exact ⟨s.cliInfo.init list, xs, rfl, h.registry.init list, hnodes, hkeeps, fun _ => hne,
        fun _ _ => hne⟩
  | locked =>
      exact ⟨s.cliInfo, xs, rfl, h.registry, hxs, ListTable.Keeps.refl _, id,
        fun hne => absurd rfl hne⟩

theorem initQueue_spec (h : SrvInv s) (queue : Addr) (pc : InitPc) :
    ∃ msgQueue, s.initQueue queue pc = { s with msgQueue := msgQueue } ∧
      msgQueue.Queued s.queued ∧
      (s.msgQueue.queue ≠ none → msgQueue.queue ≠ none) ∧
      (pc ≠ .locked → pc.next s.msgQueue.queue.isSome = .locked → msgQueue.queue ≠ none) := by
  cases pc with
  | test =>
      refine ⟨s.msgQueue, rfl, h.queue, id, ?_⟩
      intro _ hnext
      cases hqueue : s.msgQueue.queue with
      | none => simp [InitPc.next, hqueue] at hnext
      | some q => exact Option.some_ne_none q
  | init =>
      obtain ⟨q, hq, hholds, -⟩ := initSrvMsgQueue_spec h.queue queue
      have hne : (initSrvMsgQueue s.msgQueue queue).queue ≠ none := by
        rw [hq]
        exact Option.some_ne_none q
      refine ⟨initSrvMsgQueue s.msgQueue queue, rfl, ?_, fun _ => hne, fun _ _ => hne⟩
      simpa only [SrvMsgQueue.Queued, hq] using hholds
  | locked => exact ⟨s.msgQueue, rfl, h.queue, id, fun hne => absurd rfl hne⟩

/-- A worker whose lists are as they should be has taken its step. -/
structure Runs (s : ChatServer) (task : SrvTask) (ran : Ran) : Prop where
  does : Does s task ran.srv ran.rest ran.sent
  registry : ran.srv.cliInfo.Lists ran.srv.entered
  nodes : ∃ xs, ran.srv.cliInfo.Nodes xs
  keeps : ListTable.Keeps s.cliInfo ran.srv.cliInfo
  queue : ran.srv.msgQueue.Queued ran.srv.queued
  listStays : s.cliInfo.head ≠ none → ran.srv.cliInfo.head ≠ none
  queueStays : s.msgQueue.queue ≠ none → ran.srv.msgQueue.queue ≠ none
  listMade : ∀ task, ran.rest = some task → task.listPc = some .locked → ran.srv.cliInfo.head ≠ none
  queueMade : ∀ task, ran.rest = some task → task.queuePc = some .locked →
    ran.srv.msgQueue.queue ≠ none
  found : ∀ pos m, ran.rest = some (.copyNode (some pos) m) →
    ∃ v ∈ ran.srv.entered, ran.srv.cliInfo.heap.val? pos = some v ∧ v.cliID = LcMsg.destEndID m

/-- A step that leaves both lists alone. -/
theorem Runs.of_same (h : SrvInv s) {task : SrvTask} {ran : Ran}
    (hdoes : Does s task ran.srv ran.rest ran.sent) (hcli : ran.srv.cliInfo = s.cliInfo)
    (hentered : ran.srv.entered = s.entered) (hmsg : ran.srv.msgQueue = s.msgQueue)
    (hqueued : ran.srv.queued = s.queued)
    (hlist : ∀ task, ran.rest = some task → task.listPc ≠ some .locked)
    (hqueue : ∀ task, ran.rest = some task → task.queuePc ≠ some .locked)
    (hfound : ∀ pos m, ran.rest ≠ some (.copyNode (some pos) m)) : Runs s task ran where
  does := hdoes
  registry := by
    rw [hcli, hentered]
    exact h.registry
  nodes := by
    rw [hcli]
    exact h.nodes
  keeps := by
    rw [hcli]
    exact ListTable.Keeps.refl _
  queue := by
    rw [hmsg, hqueued]
    exact h.queue
  listStays := by
    rw [hcli]
    exact id
  queueStays := by
    rw [hmsg]
    exact id
  listMade task htask hpc := absurd hpc (hlist task htask)
  queueMade task htask hpc := absurd hpc (hqueue task htask)
  found pos m hrest := absurd hrest (hfound pos m)

/-- The same at the end of a task. -/
theorem Runs.of_end (h : SrvInv s) {task : SrvTask} {ran : Ran}
    (hdoes : Does s task ran.srv ran.rest ran.sent) (hcli : ran.srv.cliInfo = s.cliInfo)
    (hentered : ran.srv.entered = s.entered) (hmsg : ran.srv.msgQueue = s.msgQueue)
    (hqueued : ran.srv.queued = s.queued) (hend : ran.rest = none) : Runs s task ran := by
  refine .of_same h hdoes hcli hentered hmsg hqueued ?_ ?_ ?_
  · intro task hrest
    cases hend.symm.trans hrest
  · intro task hrest
    cases hend.symm.trans hrest
  · intro pos m hrest
    cases hend.symm.trans hrest

theorem queue_of_deSrvMsgQueue {q q' : SrvMsgQueue} {queue : Addr} {want : Bool}
    {ret : QueueRet} {m : Option LcMsg} (h : deSrvMsgQueue q queue want = some (q', ret, m)) :
    q'.queue ≠ none := by
  simp only [deSrvMsgQueue, Option.bind_eq_bind, Option.bind_eq_some_iff, Option.pure_def,
    Option.some.injEq, Prod.mk.injEq] at h
  obtain ⟨_, -, rfl, -⟩ := h
  unfold initSrvMsgQueue
  split
  · rename_i hsome
    exact Option.isSome_iff_ne_none.mp hsome
  · exact Option.some_ne_none queue

/-- A step in which a list may be made, and a worker goes on in the same call. -/
theorem Runs.of_initList (h : SrvInv s) {list : Addr} (hlist : s.cliInfo.heap list = none)
    {pc : InitPc} (hpc : pc ≠ .locked) {task task' : SrvTask}
    (hnext : task'.listPc = some (pc.next s.cliInfo.head.isSome)) (hqueue : task'.queuePc = none)
    (hdoes : ∀ cliInfo, Does s task { s with cliInfo := cliInfo } (some task') []) :
    Runs s task ⟨s.initList list pc, some task', []⟩ := by
  obtain ⟨cliInfo, xs, heq, hlists, hnodes, hkeeps, hstays, hmade⟩ := initList_spec h hlist pc
  rw [heq]
  refine ⟨hdoes cliInfo, hlists, ⟨xs, hnodes⟩, hkeeps, h.queue, hstays, id, ?_, ?_, ?_⟩
  · rintro _ ⟨⟩ hlocked
    exact hmade hpc (Option.some.inj (hnext.symm.trans hlocked))
  · rintro _ ⟨⟩ hlocked
    cases hqueue.symm.trans hlocked
  · intro pos m hrest
    obtain rfl := Option.some.inj hrest
    cases hnext

theorem runTask_addNode (h : SrvInv s) {list node : Addr} (hlist : s.cliInfo.heap list = none)
    (hnode : s.cliInfo.heap node = none) (hne : node ≠ list) {pc : InitPc}
    (hmade : pc = .locked → s.cliInfo.head ≠ none) (cliID : EndID) (addr : SockaddrIn) :
    Runs s (.addNode pc cliID addr) (runTask s list node (.addNode pc cliID addr)) := by
  cases pc with
  | test =>
      exact .of_initList h hlist (by decide) rfl rfl fun _ => .addInit (by decide)
  | init =>
      exact .of_initList h hlist (by decide) rfl rfl fun _ => .addInit (by decide)
  | locked =>
      obtain ⟨xs, hxs⟩ := h.nodes
      obtain ⟨cliInfo, heq, hlists⟩ := h.registry.add hnode hne ⟨cliID, addr⟩
      obtain ⟨cliInfo', heq', hnodes, hkeeps⟩ := hxs.add hlist hnode hne ⟨cliID, addr⟩
      obtain rfl : cliInfo' = cliInfo := Option.some.inj (heq'.symm.trans heq)
      have hrun : runTask s list node (.addNode .locked cliID addr) =
          ⟨{ s with cliInfo := cliInfo', entered := ⟨cliID, addr⟩ :: s.entered },
            some (.answer cliID addr), []⟩ := by
        simp only [runTask, if_neg (hmade rfl), addNodeToCliInfoList, heq]
      have hhead : cliInfo'.head ≠ none := by
        intro hnone
        have hnil := hlists.2
        rw [hnone] at hnil
        cases hnil
      rw [hrun]
      refine ⟨.add, hlists, ⟨_, hnodes⟩, hkeeps, h.queue, fun _ => hhead, id, ?_, ?_, ?_⟩
      · exact fun _ _ _ => hhead
      · rintro _ ⟨⟩ hlocked
        cases hlocked
      · intro pos m hrest
        cases hrest

theorem runTask_enQueue (h : SrvInv s) {list node : Addr} (hnode : s.msgQueue.heap node = none)
    (hne : node ≠ list) {pc : InitPc} (hmade : pc = .locked → s.msgQueue.queue ≠ none)
    (m : LcMsg) : Runs s (.enQueue pc m) (runTask s list node (.enQueue pc m)) := by
  by_cases hpc : pc = .locked
  · subst hpc
    obtain ⟨msgQueue, heq, hqueued⟩ := enSrvMsgQueue_spec h.queue hnode hne m
    have hrun : runTask s list node (.enQueue .locked m) =
        ⟨{ s with msgQueue := msgQueue, queued := s.queued ++ [m] }, none, []⟩ := by
      simp only [runTask, if_neg (hmade rfl), heq]
    have hqueue : msgQueue.queue ≠ none := by
      intro hnone
      rw [SrvMsgQueue.Queued, hnone] at hqueued
      simp at hqueued
    rw [hrun]
    exact ⟨.enQueue, h.registry, h.nodes, ListTable.Keeps.refl _, hqueued, id, fun _ => hqueue,
      fun _ h => (by cases h), fun _ h => (by cases h), fun _ _ h => (by cases h)⟩
  · obtain ⟨msgQueue, heq, hqueued, hstays, hlocked⟩ := initQueue_spec h list pc
    have hrun : runTask s list node (.enQueue pc m) =
        ⟨s.initQueue list pc, some (.enQueue (pc.next s.msgQueue.queue.isSome) m), []⟩ := by
      cases pc with
      | locked => exact absurd rfl hpc
      | _ => rfl
    rw [hrun, heq]
    refine ⟨.queueInit hpc, h.registry, h.nodes, ListTable.Keeps.refl _, hqueued, id, hstays,
      ?_, ?_, ?_⟩
    · rintro _ ⟨⟩ hlist
      cases hlist
    · rintro _ ⟨⟩ hnext
      exact hlocked hpc (Option.some.inj hnext)
    · intro pos m' hrest
      cases hrest

theorem runTask_getNode (h : SrvInv s) {list node : Addr} (hlist : s.cliInfo.heap list = none)
    {pc : InitPc} (hmade : pc = .locked → s.cliInfo.head ≠ none) (m : LcMsg) :
    Runs s (.getNode pc m) (runTask s list node (.getNode pc m)) := by
  cases pc with
  | test =>
      exact .of_initList h hlist (by decide) rfl rfl fun _ => .getInit (by decide)
  | init =>
      exact .of_initList h hlist (by decide) rfl rfl fun _ => .getInit (by decide)
  | locked =>
      obtain ⟨xs, hxs⟩ := h.nodes
      obtain ⟨hnodes, hkeeps, head, hhead, -⟩ := hxs.init hlist
      obtain ⟨listNode, hget, hfirst, hnone⟩ :=
        h.registry.find_first ClisInfoListNode.cliID list (LcMsg.destEndID m)
      have hrun : runTask s list node (.getNode .locked m) =
          ⟨{ s with cliInfo := s.cliInfo.init list }, some (.copyNode listNode m), []⟩ := by
        simp only [runTask, if_neg (hmade rfl), getCliInfoNodeByCliID, __getCliInfoNodeByCliID,
          hget]
      have hsome : (s.cliInfo.init list).head ≠ none := by
        rw [hhead]
        exact Option.some_ne_none head
      rw [hrun]
      refine ⟨.get hfirst hnone, h.registry.init list, ⟨xs, hnodes⟩, hkeeps, h.queue,
        fun _ => hsome, id, ?_, ?_, ?_⟩
      · rintro _ ⟨⟩ hlocked
        cases hlocked
      · rintro _ ⟨⟩ hlocked
        cases hlocked
      · intro pos m' hrest
        obtain ⟨rfl, rfl⟩ := SrvTask.copyNode.inj (Option.some.inj hrest)
        cases hcase : first ClisInfoListNode.cliID s.entered (LcMsg.destEndID m) with
        | none => cases hnone hcase
        | some v =>
            obtain ⟨hmem, hid⟩ := mem_of_first hcase
            exact ⟨v, hmem, hfirst.trans hcase, hid⟩

/-- Every task that is as it should be. -/
theorem runTask_runs (h : SrvInv s) {list node : Addr}
    (hfree : s.cliInfo.heap list = none ∧ s.cliInfo.heap node = none ∧
      s.msgQueue.heap node = none) (hne : node ≠ list) {task : SrvTask}
    (hlist : task.listPc = some .locked → s.cliInfo.head ≠ none)
    (hqueue : task.queuePc = some .locked → s.msgQueue.queue ≠ none)
    (hfound : ∀ pos m, task = .copyNode (some pos) m → ∃ v ∈ s.entered,
      s.cliInfo.heap.val? pos = some v ∧ v.cliID = LcMsg.destEndID m) :
    Runs s task (runTask s list node task) := by
  obtain ⟨hcliList, hcliNode, hmsgNode⟩ := hfree
  cases task with
  | addNode pc cliID addr =>
      exact runTask_addNode h hcliList hcliNode hne (fun hpc => hlist (congrArg some hpc)) cliID
        addr
  | answer cliID addr => exact .of_end h .answer rfl rfl rfl rfl rfl
  | enQueue pc m =>
      exact runTask_enQueue h hmsgNode hne (fun hpc => hqueue (congrArg some hpc)) m
  | srvMsgProcessTask m =>
      by_cases hdata : IsDataMsg m
      · by_cases hdest : LcMsg.destEndID m = SETVER_ENDID
        · simp only [runTask, if_pos hdata, if_pos hdest]
          exact .of_end h (.display hdata hdest) rfl rfl rfl rfl rfl
        · simp only [runTask, if_pos hdata, if_neg hdest]
          refine .of_same h (.search hdata hdest) rfl rfl rfl rfl ?_ ?_ fun _ _ h => by cases h
          · rintro _ ⟨⟩ ⟨⟩
          · rintro _ ⟨⟩ ⟨⟩
      · simp only [runTask, if_neg hdata]
        exact .of_end h (.drop hdata) rfl rfl rfl rfl rfl
  | getNode pc m => exact runTask_getNode h hcliList (fun hpc => hlist (congrArg some hpc)) m
  | copyNode listNode m =>
      cases listNode with
      | none =>
          refine .of_same h .null rfl rfl rfl rfl ?_ ?_ ?_
          · rintro _ ⟨⟩ ⟨⟩
          · rintro _ ⟨⟩ ⟨⟩
          · intro pos m' hrest
            cases hrest
      | some pos =>
          obtain ⟨v, hmem, hval, hid⟩ := hfound pos m rfl
          have hrun : runTask s list node (.copyNode (some pos) m) =
              ⟨s, some (.sendto v.addr m), []⟩ := by
            simp only [runTask, Option.bind_some, hval]
          rw [hrun]
          refine .of_same h (.copy hmem hid) rfl rfl rfl rfl ?_ ?_ fun _ _ h => by cases h
          · rintro _ ⟨⟩ ⟨⟩
          · rintro _ ⟨⟩ ⟨⟩
  | sendto addr m => exact .of_end h .sendto rfl rfl rfl rfl rfl

theorem Does.same {task : SrvTask} {t : ChatServer} {rest : Option SrvTask}
    {sent : List (SockaddrIn × LcMsg)} (h : Does s task t rest sent) :
    t.tasks = s.tasks ∧ t.msgProcess = s.msgProcess ∧ ∀ v ∈ s.entered, v ∈ t.entered := by
  cases h with
  | add => exact ⟨rfl, rfl, fun _ hv => List.mem_cons_of_mem _ hv⟩
  | _ => exact ⟨rfl, rfl, fun _ hv => hv⟩

/-- What a step of the thread does. -/
inductive Moves (s : ChatServer) : ChatServer → Prop where
  | wait {pc pc' : InitPc} {msgQueue : SrvMsgQueue} (hpc : s.msgProcess = .deQueue pc) :
      Moves s { s with msgQueue := msgQueue, msgProcess := .deQueue pc' }
  | take {m : LcMsg} {queued : List LcMsg} {msgQueue : SrvMsgQueue}
      (hpc : s.msgProcess = .deQueue .locked) (hqueued : s.queued = m :: queued) :
      Moves s { s with msgQueue := msgQueue, queued := queued, msgProcess := .addTask m }
  | addTask {m : LcMsg} (hpc : s.msgProcess = .addTask m) :
      Moves s { s with tasks := s.tasks ++ [.srvMsgProcessTask m], msgProcess := .deQueue .test }

theorem runThread_moves (h : SrvInv s) (queue : Addr) :
    Moves s (runThread s queue) ∧ SrvInv (runThread s queue) := by
  cases hpc : s.msgProcess with
  | addTask m =>
      have hrun : runThread s queue = { s with
          tasks := s.tasks ++ [.srvMsgProcessTask m], msgProcess := .deQueue .test } := by
        simp only [runThread, hpc]
      rw [hrun]
      refine ⟨.addTask hpc, h.registry, h.nodes, h.queue, ?_, ?_, fun h => (by cases h), ?_⟩
      · intro task htask hlocked
        rcases List.mem_append.mp htask with hold | hnew
        · exact h.listMade task hold hlocked
        · rw [List.mem_singleton.mp hnew] at hlocked
          cases hlocked
      · intro task htask hlocked
        rcases List.mem_append.mp htask with hold | hnew
        · exact h.queueMade task hold hlocked
        · rw [List.mem_singleton.mp hnew] at hlocked
          cases hlocked
      · intro pos m' hmem
        rcases List.mem_append.mp hmem with hold | hnew
        · exact h.found pos m' hold
        · cases List.mem_singleton.mp hnew
  | deQueue pc =>
      by_cases hl : pc = .locked
      · subst hl
        have hmade : s.msgQueue.queue ≠ none := h.threadMade (by rw [hpc]; rfl)
        have hqueue := h.queue
        rcases hqueued : s.queued with _ | ⟨m, queued⟩
        · rw [hqueued] at hqueue
          obtain ⟨msgQueue, hde, hleft⟩ := deSrvMsgQueue_nil hqueue queue
          have hstays := queue_of_deSrvMsgQueue hde
          have hrun : runThread s queue =
              { s with msgQueue := msgQueue, msgProcess := .deQueue .test } := by
            simp only [runThread, hpc, if_neg hmade, hde]
          rw [hrun]
          refine ⟨.wait hpc, h.registry, h.nodes, ?_, h.listMade, fun _ _ _ => hstays,
            fun h => (by cases h), h.found⟩
          show msgQueue.Queued s.queued
          rwa [hqueued]
        · rw [hqueued] at hqueue
          obtain ⟨msgQueue, hde, hleft⟩ := deSrvMsgQueue_cons hqueue queue
          have hstays := queue_of_deSrvMsgQueue hde
          have hrun : runThread s queue =
              { s with msgQueue := msgQueue, queued := queued, msgProcess := .addTask m } := by
            simp only [runThread, hpc, if_neg hmade, hde, hqueued, List.tail_cons]
          rw [hrun]
          exact ⟨.take hpc hqueued, h.registry, h.nodes, hleft, h.listMade, fun _ _ _ => hstays,
            fun h => (by cases h), h.found⟩
      · obtain ⟨msgQueue, heq, hqueued, hstays, hlocked⟩ := initQueue_spec h queue pc
        have hrun : runThread s queue = { s.initQueue queue pc with
            msgProcess := .deQueue (pc.next s.msgQueue.queue.isSome) } := by
          cases pc with
          | locked => exact absurd rfl hl
          | _ => simp only [runThread, hpc]
        rw [hrun, heq]
        refine ⟨.wait hpc, h.registry, h.nodes, hqueued, h.listMade, ?_, ?_, h.found⟩
        · exact fun task htask hlock => hstays (h.queueMade task htask hlock)
        · exact fun hnext => hlocked hl (Option.some.inj hnext)

/-- A step is one of a worker or of the thread, and both lists are kept. -/
theorem srvStep_cases (h : SrvInv s) {e : SrvEvent} {t : ChatServer}
    {sent : List (SockaddrIn × LcMsg)} (hstep : srvStep s e = some (t, sent)) :
    SrvInv t ∧ s.faulted = false ∧ match e with
      | .work k _ _ => ∃ task s' rest, s.tasks[k]? = some task ∧
          Does { s with tasks := s.tasks.eraseIdx k } task s' rest sent ∧
          t = { s' with tasks := s'.tasks ++ rest.toList }
      | .msgProcess _ => sent = [] ∧ Moves s t := by
  obtain ⟨henabled, hstep⟩ := Option.ite_none_left_eq_some.mp hstep
  simp only [not_or, not_not] at henabled
  obtain ⟨hok, -, hfree⟩ := henabled
  have hok : s.faulted = false := by simpa using hok
  cases e with
  | work k list node =>
      obtain ⟨hfree, hne⟩ := hfree
      obtain ⟨task, htask, heq⟩ := Option.map_eq_some_iff.mp hstep
      obtain ⟨rfl, rfl⟩ := Prod.mk.inj heq
      have hmem : task ∈ s.tasks := List.mem_of_getElem? htask
      have hbase : SrvInv { s with tasks := s.tasks.eraseIdx k } :=
        { h with
          listMade := fun task htask => h.listMade task (List.mem_of_mem_eraseIdx htask)
          queueMade := fun task htask => h.queueMade task (List.mem_of_mem_eraseIdx htask)
          found := fun pos m hm => h.found pos m (List.mem_of_mem_eraseIdx hm) }
      have hruns := runTask_runs hbase hfree hne (h.listMade task hmem) (h.queueMade task hmem)
        fun pos m heq => h.found pos m (heq ▸ hmem)
      obtain ⟨htasks, hthread, hentered⟩ := hruns.does.same
      refine ⟨⟨hruns.registry, hruns.nodes, hruns.queue, ?_, ?_, ?_, ?_⟩, hok, task, _, _, htask,
        hruns.does, rfl⟩
      · intro task' htask' hlocked
        rcases List.mem_append.mp htask' with hold | hnew
        · rw [htasks] at hold
          exact hruns.listStays (hbase.listMade task' hold hlocked)
        · exact hruns.listMade task' (Option.mem_toList.mp hnew) hlocked
      · intro task' htask' hlocked
        rcases List.mem_append.mp htask' with hold | hnew
        · rw [htasks] at hold
          exact hruns.queueStays (hbase.queueMade task' hold hlocked)
        · exact hruns.queueMade task' (Option.mem_toList.mp hnew) hlocked
      · intro hlocked
        have hlocked : (runTask { s with tasks := s.tasks.eraseIdx k } list node
          task).srv.msgProcess.queuePc = some .locked := hlocked
        rw [hthread] at hlocked
        exact hruns.queueStays (h.threadMade hlocked)
      · intro pos m hm
        rcases List.mem_append.mp hm with hold | hnew
        · rw [htasks] at hold
          obtain ⟨v, hv, hval, hid⟩ := hbase.found pos m hold
          have hcell := @ListTable.isSome_of_val? _ s.cliInfo.heap pos (by rw [hval]; rfl)
          exact ⟨v, hentered v hv, (hruns.keeps pos hcell).1.trans hval, hid⟩
        · exact hruns.found pos m (Option.mem_toList.mp hnew)
  | msgProcess queue =>
      obtain ⟨rfl, rfl⟩ := Prod.mk.inj (Option.some.inj hstep)
      obtain ⟨hmoves, hinv⟩ := runThread_moves h queue
      exact ⟨hinv, hok, rfl, hmoves⟩

end Steps

end SocketPractice.SocketUdp.Chat
