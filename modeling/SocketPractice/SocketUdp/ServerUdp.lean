import SocketPractice.SocketUdp.CliInfoList
import SocketPractice.SocketUdp.ServerQueues

/-!
# The handlers of the server (`server_udp.c`)

`PorcessUdpMsg` takes one datagram off the socket.  A registration that is addressed to
the server is entered and acknowledged, a data message is queued, and anything else is
dropped.  What it looks at for this are two words of the message: neither the checksum
nor the length of the datagram is tested, and what is missing of a short one is zero.

`SrvMsgProcessTask` is given a copy of a queued message.  It shows a message for the
server and sends any other on to the address in the registry, without a look at whether
there is one.
-/

namespace SocketPractice.SocketUdp

open Lib.Bytes Lib.Links Common
open Lib.Memory (Store Ptr)

/-! ## 1. The code -/

/-- `GetModulesManager()->LcEndID`, as `InitModulesManager` of the server sets it. -/
def LcEndID : EndID := SETVER_ENDID

/-- What a handler does outside its own memory. -/
inductive UdpCall where
  | sendto (msg : LcMsg) (addr : SockaddrIn)
  | display (msg : LcMsg)
deriving DecidableEq

structure ServerUdp where
  cliInfo : CLisInfoList
  msgQueue : SrvMsgQueue
  pool : ThreadPool

/-- What `recvfrom` returns and stores, and what `malloc` would return for a list and
    for a node of it. -/
structure UdpAnswers where
  recv : RecvRet sizeofLcMsg
  sockaddr : SockaddrIn
  list : Addr
  node : Addr

/-- The buffer starts as zeros. -/
def rxBuf (c : Chunk sizeofLcMsg) : LcMsg := (Buf.zero sizeofLcMsg).recv c

/-- `TxBuf` of `PorcessUdpMsg`. -/
def txBuf (destEndID : EndID) : LcMsg :=
  LcMsg.setDestEndID (LcMsg.setSrcEndID (LcMsg.setMsgType (Buf.zero sizeofLcMsg) .SaveCliInfo)
    LcEndID) destEndID

/-- The registrations that `PorcessUdpMsg` enters. -/
def IsSaveCliInfo (m : LcMsg) : Prop :=
  LcMsg.msgType m = MsgType.SaveCliInfo.code ∧ LcMsg.destEndID m = LcEndID

def IsDataMsg (m : LcMsg) : Prop := LcMsg.msgType m = MsgType.DataMsg.code

instance (m : LcMsg) : Decidable (IsSaveCliInfo m) :=
  inferInstanceAs (Decidable (LcMsg.msgType m = _ ∧ LcMsg.destEndID m = _))

instance (m : LcMsg) : Decidable (IsDataMsg m) :=
  inferInstanceAs (Decidable (LcMsg.msgType m = _))

/-- The handler from `recvfrom` on; it returns whether the result is not `NULL`. -/
def porcessUdpMsg (s : ServerUdp) (k : UdpAnswers) : Option (ServerUdp × List UdpCall × Bool) :=
  match k.recv with
  | .error => some (s, [], false)
  | .eof => some (s, [], true)
  | .data c =>
      let rxBuf := rxBuf c
      if IsSaveCliInfo rxBuf then do
        let cliInfo ← addNodeToCliInfoList s.cliInfo k.list k.node (LcMsg.srcEndID rxBuf) k.sockaddr
        return ({ s with cliInfo := cliInfo },
          [.sendto (txBuf (LcMsg.srcEndID rxBuf)) k.sockaddr], true)
      else if IsDataMsg rxBuf then do
        let (msgQueue, _) ← enSrvMsgQueue s.msgQueue k.list k.node (some rxBuf)
        return ({ s with msgQueue := msgQueue }, [], true)
      else some (s, [], true)

/-- A message for the server is shown, and its copy is not freed. -/
def srvMsgProcessTask (s : ServerUdp) (list : Addr) (arg : Ptr) :
    Option (ServerUdp × List UdpCall × Bool) :=
  match arg with
  | none => some (s, [], false)
  | some _ => do
      let .lcMsg msgBuf ← s.pool.args.load arg | none
      if IsDataMsg msgBuf then
        if LcMsg.destEndID msgBuf = SETVER_ENDID then
          return (s, [.display msgBuf], true)
        let (cliInfo, listNode) ← getCliInfoNodeByCliID s.cliInfo list (LcMsg.destEndID msgBuf)
        let destCliInfo ← cliInfo.heap.val? (← listNode)
        let args ← s.pool.args.free arg
        return ({ s with cliInfo := cliInfo, pool := { s.pool with args := args } },
          [.sendto msgBuf destCliInfo.addr], true)
      let args ← s.pool.args.free arg
      return ({ s with pool := { s.pool with args := args } }, [], true)

/-! ## 2. Corrupt datagrams -/

/-- The datagram is not a whole message whose checksum is right. -/
def Corrupt : RecvRet sizeofLcMsg → Prop
  | .error => False
  | .eof => True
  | .data c =>
      match c.whole with
      | none => True
      | some m => checkCheckSum m = false

/-- The handler leaves the registry and the queue as they were and sends nothing. -/
def Rejects (s : ServerUdp) (k : UdpAnswers) : Prop :=
  ∃ s' ret, porcessUdpMsg s k = some (s', [], ret) ∧ s'.cliInfo = s.cliInfo ∧
    s'.msgQueue = s.msgQueue

/-- The datagram is a registration or a data message, to go by its first words. -/
def ActedOn : RecvRet sizeofLcMsg → Prop
  | .error => False
  | .eof => False
  | .data c => IsSaveCliInfo (rxBuf c) ∨ IsDataMsg (rxBuf c)

/-- An enqueueing leaves its node allocated, whatever state the queue is in. -/
theorem isSome_of_enSrvMsgQueue {s s' : SrvMsgQueue} {queue node : Addr} {m : LcMsg}
    {ret : QueueRet} (h : enSrvMsgQueue s queue node (some m) = some (s', ret)) :
    (s'.heap node).isSome := by
  simp only [enSrvMsgQueue, enMsgQueue, Option.bind_eq_bind, Option.bind_eq_some_iff,
    Option.pure_def, Option.some.injEq, Prod.mk.injEq] at h
  obtain ⟨⟨heap, _⟩, hen, rfl, -⟩ := h
  obtain ⟨q, hq⟩ : ∃ q, (initSrvMsgQueue s queue).queue = some q := by
    unfold initSrvMsgQueue
    cases hqueue : s.queue with
    | none => exact ⟨queue, by simp⟩
    | some q => exact ⟨q, by simp [hqueue]⟩
  simp only [enToTail, hq, Option.bind_eq_bind, Option.bind_eq_some_iff, Option.pure_def,
    Option.some.injEq, Prod.mk.injEq] at hen
  obtain ⟨heap', hadd, rfl, -⟩ := hen
  rw [isSome_of_listAddTail hadd]
  simp

/-- A corrupt datagram is rejected if and only if its first words make it neither a
    registration with the server nor a data message. -/
theorem porcess_udp_msg_rejects_iff (s : ServerUdp) (k : UdpAnswers)
    (hcorrupt : Corrupt k.recv) (hnode : s.msgQueue.heap k.node = none) :
    Rejects s k ↔ ¬ ActedOn k.recv := by
  cases hrecv : k.recv with
  | error =>
      rw [hrecv] at hcorrupt
      exact absurd hcorrupt id
  | eof =>
      refine iff_of_true ⟨s, true, ?_, rfl, rfl⟩ id
      simp [porcessUdpMsg, hrecv]
  | data c =>
      by_cases hsave : IsSaveCliInfo (rxBuf c)
      · refine iff_of_false ?_ (not_not_intro (Or.inl hsave))
        rintro ⟨s', ret, heq, -⟩
        simp [porcessUdpMsg, hrecv, hsave, Option.bind_eq_some_iff] at heq
      · by_cases hdata : IsDataMsg (rxBuf c)
        · refine iff_of_false ?_ (not_not_intro (Or.inr hdata))
          rintro ⟨s', ret, heq, -, hqueue⟩
          simp only [porcessUdpMsg, hrecv, if_neg hsave, if_pos hdata, Option.bind_eq_bind,
            Option.bind_eq_some_iff, Option.pure_def, Option.some.injEq, Prod.mk.injEq] at heq
          obtain ⟨⟨msgQueue, _⟩, hen, rfl, -⟩ := heq
          have hsome := isSome_of_enSrvMsgQueue hen
          have hsame : msgQueue = s.msgQueue := hqueue
          rw [hsame, hnode] at hsome
          exact absurd hsome (by simp)
        · refine iff_of_true ⟨s, true, ?_, rfl, rfl⟩ ?_
          · simp [porcessUdpMsg, hrecv, hsave, hdata]
          · rintro (h | h)
            · exact hsave h
            · exact hdata h

def newServerUdp : ServerUdp where
  cliInfo := ListTable.empty
  msgQueue := { heap := Heap.empty, queue := none }
  pool := { heap := initListHead Heap.empty 1, taskQueue := some 1, args := fun _ => none }

/-- A data message without a checksum. -/
def uncheckedMsg : LcMsg := LcMsg.setMsgType (Buf.zero sizeofLcMsg) .DataMsg

def wholeChunk (m : LcMsg) : Chunk sizeofLcMsg where
  bytes := m.bytes
  pos := by rw [m.size]; decide
  le := Nat.le_of_eq m.size

@[simp] theorem whole_wholeChunk (m : LcMsg) : (wholeChunk m).whole = some m := by
  have hlen : (wholeChunk m).bytes.length = sizeofLcMsg := m.size
  rw [Chunk.whole, dif_pos hlen]
  rfl

def udpAnswers (m : LcMsg) : UdpAnswers :=
  { recv := .data (wholeChunk m), sockaddr := addrA, list := 1, node := 2 }

/-- It is queued although its checksum byte is wrong. -/
theorem porcess_udp_msg_queues_corrupt :
    Corrupt (udpAnswers uncheckedMsg).recv ∧
      ¬ Rejects newServerUdp (udpAnswers uncheckedMsg) := by
  constructor
  · have hsum : checkCheckSum uncheckedMsg = false := by decide +kernel
    simpa [Corrupt, udpAnswers] using hsum
  · rintro ⟨s', ret, heq, -, hqueue⟩
    have hnode : (porcessUdpMsg newServerUdp (udpAnswers uncheckedMsg)).map
        (fun r => (r.1.msgQueue.heap 2).isSome) = some true := by
      decide +kernel
    rw [heq, Option.map_some, hqueue] at hnode
    exact absurd (Option.some.inj hnode) (by simp [newServerUdp, Heap.empty])

/-- A datagram of one byte, of a type that does not exist. -/
def shortAnswers : UdpAnswers :=
  { udpAnswers uncheckedMsg with recv := .data ⟨[9], by decide, by decide⟩ }

theorem porcess_udp_msg_rejects_short :
    Corrupt shortAnswers.recv ∧ Rejects newServerUdp shortAnswers := by
  have hcorrupt : Corrupt shortAnswers.recv := by
    simp [Corrupt, shortAnswers, Chunk.whole, sizeofLcMsg]
  have hnot : ¬ ActedOn shortAnswers.recv := by
    unfold ActedOn shortAnswers
    decide +kernel
  have hfree : newServerUdp.msgQueue.heap shortAnswers.node = none := by
    simp [newServerUdp, Heap.empty]
  exact ⟨hcorrupt, (porcess_udp_msg_rejects_iff _ _ hcorrupt hfree).mpr hnot⟩

end SocketPractice.SocketUdp
