import SocketPractice.Lib.Frames
import SocketPractice.SocketTcp.ClientSocket
import SocketPractice.SocketTcp.EndIdRouting

/-!
# Clients and server over their connections (`socket_tcp`)

Every client has one connection to the server, a stream of bytes in each direction.  The
client's two threads, the server's epoll thread and the thread that processes messages take
their steps in any order; a receive gets a piece of what is on the stream, and a send puts
its message there, or a part of it, or nothing.

The server's two threads share the table of clients and the message queue, and take no lock.
Their calls have a beginning and an end.  When one of them is in a call that changes what the
other one is using, that is a data race: of such a state nothing is said, and no step is
taken from it.

What a party sends says who it is from: a client stores its own number in `TX_BUF` before
each send, and the server its own, except in a message that it relays as it is.
-/

namespace SocketPractice.SocketTcp.Chat

open Lib.Bytes Lib.Runs Lib.Frames

/-! ## 1. The whole -/

/-- The clients' process numbers. -/
structure Parties (ι : Type) where
  endId : ι → EndID
  inj : Function.Injective endId
  ne_server : ∀ i, endId i ≠ SERVER_ENDID

/-- What the two threads of the server share. -/
inductive Shared where
  | cliInfoManager
  | linkQueue
deriving DecidableEq, Repr

/-- Where the epoll thread is. -/
inductive EpollPc where
  | waiting
  /-- In `ProcessEventsByFd`, which changes `shared`; `sends` are the sends to come, each with
      what it returns. -/
  | handling (shared : Option Shared) (sends : List (Int32 × MsgBuf × Nat))

/-- Where the thread that processes messages is. -/
inductive ProcessPc where
  | idle
  /-- In `DeMsgLinkQueue`, with what it takes. -/
  | dequeueing (msgBuf : Option MsgBuf)
  | dequeued (msgBuf : MsgBuf)
  /-- In `ProcessMsg`, which looks clients up and reads their nodes. -/
  | processing (msgBuf : MsgBuf)

def EpollPc.uses : EpollPc → Option Shared
  | .waiting => none
  | .handling shared _ => shared

def ProcessPc.uses : ProcessPc → Option Shared
  | .idle => none
  | .dequeueing _ => some .linkQueue
  | .dequeued _ => none
  | .processing _ => some .cliInfoManager

/-- The message that the thread has taken off the queue. -/
def ProcessPc.hand : ProcessPc → List MsgBuf
  | .idle => []
  | .dequeueing msgBuf => msgBuf.toList
  | .dequeued msgBuf => [msgBuf]
  | .processing msgBuf => [msgBuf]

/-- The server, the clients, the streams between them, and which client's connection an open
    descriptor is; `got` is what a client has received. -/
structure TcpChat (ι : Type) where
  srv : TcpSrv
  epoll : EpollPc
  process : ProcessPc
  clients : ι → CliState
  toServer : ι → List UInt8
  toClient : ι → List UInt8
  conn : Int32 → Option ι
  accepted : List ι
  got : ι → List MsgBuf

/-- Both threads are in calls on the same structure. -/
def TcpChat.Races {ι : Type} (u : TcpChat ι) : Prop :=
  u.epoll.uses ≠ none ∧ u.epoll.uses = u.process.uses

instance {ι : Type} (u : TcpChat ι) : Decidable u.Races := by
  unfold TcpChat.Races
  infer_instance

/-- What a thread of the server does.  An event of a descriptor begins with `accept`, `read`
    or `recv` and what is then done to the table and the queue; `i` is the client whose
    connection is accepted.  Its sends follow, one by one. -/
inductive ServerMove (ι : Type) where
  | event (e : SrvEvent) (i : ι)
  | send
  | eventEnd
  | dequeue
  | dequeueEnd
  | processBegin
  | process (k : TxAnswers)

/-- `taken` is how many bytes a `send` of the client takes. -/
inductive ChatEvent (ι : Type) where
  | client (i : ι) (e : CliEvent) (taken : Nat)
  | server (e : ServerMove ι)

/-- What the client sent in the step to `t`. -/
def newSent (s t : CliState) : List MsgBuf := (t.sent.drop s.sent.length).map Prod.snd

/-- The receive of an event, if it is one. -/
def receive : CliEvent → RecvRet sizeofMsgBuf
  | .recv r => r
  | _ => .error

/-- The message received in the step to `t`. -/
def received (e : CliEvent) (t : CliState) : List MsgBuf :=
  match receive e with
  | .data _ => [t.rxBuf]
  | _ => []

def sendOf : SrvCall → Option (Int32 × MsgBuf)
  | .sendMsg fd msgBuf => some (fd, msgBuf)
  | .sendInitInfo fd msgBuf => some (fd, msgBuf)
  | .sendCliMsg fd msgBuf => some (fd, msgBuf)
  | _ => none

/-- The calls of the step to `t`. -/
def newCalls (s t : TcpSrv) : List SrvCall := t.run.calls.drop s.run.calls.length

section System

variable {ι : Type} [DecidableEq ι]

/-- What some calls of the server send to the client `j`. -/
def sendsTo (conn : Int32 → Option ι) (send : Int32 → Int) (calls : List SrvCall) (j : ι) :
    List (MsgBuf × Nat) :=
  (calls.filterMap sendOf).filterMap fun s =>
    if conn s.1 = some j then some (s.2, (send s.1).toNat) else none

/-- The server has come to `srv`, and its sends were answered by `send`. -/
def TcpChat.goOn (u : TcpChat ι) (send : Int32 → Int) (srv : TcpSrv) : TcpChat ι :=
  { u with
    srv := srv
    toClient := fun j => u.toClient j ++ onto (sendsTo u.conn send (newCalls u.srv srv) j) }

/-- What `ProcessEventsByFd` changes in an event. -/
def changes (serverFd : ServerFd) (s : SrvState) (e : SrvEvent) : Option Shared :=
  if e.fd = serverFd.fd then
    if e.answers.accept = -1 then none else some .cliInfoManager
  else if IsClient serverFd s e.fd then
    match e.answers.recv with
    | .error => none
    | .eof => some .cliInfoManager
    | .data c =>
        if MsgBuf.msgType (s.rxBuf.recv c) = MsgType.SAVE_CLI_INFO.code then
          some .cliInfoManager
        else some .linkQueue
  else none

/-- The sends among some calls, with what they return. -/
def sendsOf (send : Int32 → Int) (calls : List SrvCall) : List (Int32 × MsgBuf × Nat) :=
  (calls.filterMap sendOf).map fun s => (s.1, s.2, (send s.1).toNat)

/-- The epoll thread begins with an event. -/
def beginEvent (debug : Bool) (serverFd : ServerFd) (u : TcpChat ι) (e : SrvEvent) (i : ι) :
    Option (TcpChat ι) := do
  let srv ← tcpStep debug serverFd u.srv (.epoll e)
  let v := { u with
    srv := srv
    epoll := .handling (changes serverFd u.srv.run.srv e)
      (sendsOf e.answers.send (newCalls u.srv srv)) }
  if e.fd = serverFd.fd then
    if e.answers.accept = -1 then return v
    else if i ∈ u.accepted then none
    else return { v with
      conn := Function.update u.conn e.answers.accept (some i)
      accepted := i :: u.accepted }
  else
    match u.conn e.fd with
    | none => return v
    | some j =>
        let rest ← takeOff (u.toServer j) e.answers.recv
        return { v with
          conn := if e.answers.recv = .eof then Function.update u.conn e.fd none else u.conn
          toServer := Function.update u.toServer j rest }

/-- What the streams to the clients are after a send of the epoll thread. -/
def TcpChat.afterSend (u : TcpChat ι) (fd : Int32) (m : MsgBuf) (taken : Nat) :
    ι → List UInt8 :=
  match u.conn fd with
  | none => u.toClient
  | some j => Function.update u.toClient j (u.toClient j ++ onto [(m, taken)])

/-- The server before a turn of `ProcessCliMsg` that takes `m` off the queue. -/
def TcpChat.putBack (u : TcpChat ι) (m : MsgBuf) : TcpChat ι :=
  { u with
    srv := { u.srv with queue := m :: u.srv.queue }
    process := .idle }

/-- After a fault the process is gone. -/
def serverMove (debug : Bool) (serverFd : ServerFd) (u : TcpChat ι) (e : ServerMove ι) :
    Option (TcpChat ι) :=
  if u.srv.fault then none
  else
    match e, u.epoll, u.process with
    | .event e i, .waiting, _ => beginEvent debug serverFd u e i
    | .send, .handling shared ((fd, m, taken) :: sends), _ =>
        some { u with
          epoll := .handling shared sends
          toClient := u.afterSend fd m taken }
    | .eventEnd, .handling _ [], _ => some { u with epoll := .waiting }
    | .dequeue, _, .idle =>
        some { u with
          srv := { u.srv with queue := u.srv.queue.tail }
          process := .dequeueing u.srv.queue.head? }
    | .dequeueEnd, _, .dequeueing none => some { u with process := .idle }
    | .dequeueEnd, _, .dequeueing (some m) => some { u with process := .dequeued m }
    | .processBegin, _, .dequeued m => some { u with process := .processing m }
    | .process k, _, .processing m => do
        let srv ← tcpStep debug serverFd (u.putBack m).srv (.process k)
        return (u.putBack m).goOn k.send srv
    | _, _, _ => none

def clientMove (u : TcpChat ι) (i : ι) (e : CliEvent) (taken : Nat) : Option (TcpChat ι) := do
  let c ← cliStep (u.clients i) e
  let rest ← takeOff (u.toClient i) (receive e)
  return { u with
    clients := Function.update u.clients i c
    toServer := Function.update u.toServer i
      (u.toServer i ++ onto ((newSent (u.clients i) c).map fun m => (m, taken)))
    toClient := Function.update u.toClient i rest
    got := Function.update u.got i (u.got i ++ received e c) }

def chatStep (debug : Bool) (serverFd : ServerFd) (u : TcpChat ι) (e : ChatEvent ι) :
    Option (TcpChat ι) :=
  if u.Races then none
  else
    match e with
    | .client i e taken => clientMove u i e taken
    | .server e => serverMove debug serverFd u e

/-- All have connected, and have sent their registrations; the server has accepted none. -/
def newChat (p : Parties ι) : TcpChat ι where
  srv := newTcpSrv
  epoll := .waiting
  process := .idle
  clients i := newCli (p.endId i)
  toServer i := framed [(newCli (p.endId i)).txBuf]
  toClient _ := []
  conn _ := none
  accepted := []
  got _ := []

end System

/-- A send takes the message or nothing of it. -/
def AllOrNothing (taken : Nat) : Prop := taken = 0 ∨ taken = sizeofMsgBuf

/-- Receives are whole, and sends take all or nothing. -/
def ChatEvent.Whole {ι : Type} : ChatEvent ι → Prop
  | .client _ e taken => IsBlock (receive e) ∧ AllOrNothing taken
  | .server (.event e _) => IsBlock e.answers.recv ∧ ∀ fd, AllOrNothing (e.answers.send fd).toNat
  | .server (.process k) => ∀ fd, AllOrNothing (k.send fd).toNat
  | .server _ => True

/-- No send fails, apart from those of the broadcasts and acknowledgements. -/
def ChatEvent.Sends {ι : Type} : ChatEvent ι → Prop
  | .client _ _ taken => taken = sizeofMsgBuf
  | .server (.process k) => ∀ fd, k.send fd = sizeofMsgBuf
  | .server _ => True

def cameFrom (id : EndID) (m : MsgBuf) : Bool := m.srcEndID = id

def goesTo (id : EndID) (m : MsgBuf) : Bool := m.destEndID = id

/-! ## 2. Headers -/

theorem toInt32_toUInt32 (id : EndID) : id.toUInt32.toInt32 = id := by simp

theorem srcEndID_setSrcEndID (b : MsgBuf) (id : EndID) : (b.setSrcEndID id).srcEndID = id := by
  rw [MsgBuf.srcEndID, MsgBuf.setSrcEndID, Buf.get32_put32, toInt32_toUInt32]

theorem srcEndID_congr {a b : MsgBuf} (h : a.bytes.take 8 = b.bytes.take 8) :
    a.srcEndID = b.srcEndID := by
  rw [MsgBuf.srcEndID, MsgBuf.srcEndID, Buf.get32_congr h]

theorem srcEndID_setDestEndID (b : MsgBuf) (id : EndID) :
    (b.setDestEndID id).srcEndID = b.srcEndID :=
  srcEndID_congr (b.take_put32_of_le _ _ (Nat.le_refl 8))

theorem srcEndID_setMsg (b : MsgBuf) {bytes : List UInt8} (h : bytes.length ≤ MAX_MSG_LEN) :
    (b.setMsg bytes h).srcEndID = b.srcEndID :=
  srcEndID_congr (b.take_setMsg h (by decide))

theorem msgType_setMsgType (b : MsgBuf) (t : MsgType) : (b.setMsgType t).msgType = t.code := by
  rw [MsgBuf.msgType, MsgBuf.setMsgType, Buf.get32_put32]

theorem msgType_setSrcEndID (b : MsgBuf) (id : EndID) :
    (b.setSrcEndID id).msgType = b.msgType :=
  MsgBuf.msgType_congr (b.take_put32_of_le _ _ (Nat.le_refl 4))

theorem msgType_setDestEndID (b : MsgBuf) (id : EndID) :
    (b.setDestEndID id).msgType = b.msgType :=
  MsgBuf.msgType_congr (b.take_put32_of_le _ _ (by decide))

theorem msgType_setMsg (b : MsgBuf) {bytes : List UInt8} (h : bytes.length ≤ MAX_MSG_LEN) :
    (b.setMsg bytes h).msgType = b.msgType :=
  MsgBuf.msgType_congr (b.take_setMsg h (by decide))

/-- What the server sends on its own account says so. -/
theorem srcEndID_txMsg (txBuf : MsgBuf) (msgType : MsgType) (destEndID : EndID) :
    (txMsg txBuf msgType destEndID).srcEndID = SERVER_ENDID := by
  rw [txMsg, srcEndID_setDestEndID, srcEndID_setSrcEndID]

/-! ## 3. What a client sends -/

/-- The user interface is behind the statement that stores the type, and behind the one that
    stores the sender. -/
def typeStored : UiPc → Bool
  | .setSrcEndID => true
  | .setDestEndID => true
  | .copy => true
  | .send => true
  | _ => false

def senderStored : UiPc → Bool
  | .setDestEndID => true
  | .copy => true
  | .send => true
  | _ => false

/-- A message to be processed, of the client with this number. -/
structure IsFrom (id : EndID) (m : MsgBuf) : Prop where
  type : m.msgType = MsgType.PROCESS_MSG.code
  src : m.srcEndID = id

/-- `TX_BUF` as far as it has been filled. -/
structure Filled (id : EndID) (c : CliState) : Prop where
  endId : c.endId = id
  type : typeStored c.ui = true → c.txBuf.msgType = MsgType.PROCESS_MSG.code
  src : senderStored c.ui = true → c.txBuf.srcEndID = id

theorem Filled.of_early {id : EndID} {s : CliState} (hid : s.endId = id)
    (htype : typeStored s.ui = false) (hsender : senderStored s.ui = false) : Filled id s where
  endId := hid
  type := by
    rw [htype]
    intro h
    cases h
  src := by
    rw [hsender]
    intro h
    cases h

/-- A step of the user interface; it sends when it comes to `send`. -/
theorem Filled.ui {id : EndID} {s t : CliState} (h : Filled id s) (hstep : uiStep s = some t) :
    Filled id t ∧ ∃ new, t.sent = s.sent ++ new ∧ ∀ p ∈ new, IsFrom id p.2 := by
  have hnone : ∀ {t : CliState}, t.sent = s.sent →
      ∃ new, t.sent = s.sent ++ new ∧ ∀ p ∈ new, IsFrom id p.2 :=
    fun heq => ⟨[], by rw [heq, List.append_nil], by simp⟩
  unfold uiStep at hstep
  split at hstep
  case h_1 => cases hstep
  case h_2 =>
    cases hstep
    exact ⟨.of_early h.endId rfl rfl, hnone rfl⟩
  case h_3 => cases hstep
  case h_4 =>
    cases hstep
    refine ⟨.of_early h.endId ?_ ?_, hnone rfl⟩ <;> cases findsQuit s.rxBuf s.txBuf <;> rfl
  case h_5 =>
    cases hstep
    exact ⟨⟨h.endId, fun _ => msgType_setMsgType _ _, by rintro ⟨⟩⟩, hnone rfl⟩
  case h_6 hui =>
    have htype := h.type (by rw [hui]; rfl)
    cases hstep
    refine ⟨⟨h.endId, fun _ => ?_, fun _ => ?_⟩, hnone rfl⟩
    · exact (msgType_setSrcEndID _ _).trans htype
    · exact (srcEndID_setSrcEndID _ _).trans h.endId
  case h_7 hui =>
    have htype := h.type (by rw [hui]; rfl)
    have hsrc := h.src (by rw [hui]; rfl)
    cases hstep
    refine ⟨⟨h.endId, fun _ => ?_, fun _ => ?_⟩, hnone rfl⟩
    · exact (msgType_setDestEndID _ _).trans htype
    · exact (srcEndID_setDestEndID _ _).trans hsrc
  case h_8 hui =>
    have htype := h.type (by rw [hui]; rfl)
    have hsrc := h.src (by rw [hui]; rfl)
    cases hstep
    refine ⟨⟨h.endId, fun _ => ?_, fun _ => ?_⟩, hnone rfl⟩
    · exact (msgType_setMsg _ (Nat.le_of_eq s.rxBuf.length_msg)).trans htype
    · exact (srcEndID_setMsg _ (Nat.le_of_eq s.rxBuf.length_msg)).trans hsrc
  case h_9 hui =>
    have htype := h.type (by rw [hui]; rfl)
    have hsrc := h.src (by rw [hui]; rfl)
    cases hstep
    refine ⟨.of_early h.endId rfl rfl, [(s.typed, s.txBuf)], rfl, ?_⟩
    intro p hp
    rw [List.mem_singleton.mp hp]
    exact ⟨htype, hsrc⟩

/-- The receive thread does not touch `TX_BUF`. -/
theorem Filled.same {id : EndID} {s t : CliState} (h : Filled id s) (hid : t.endId = s.endId)
    (hui : t.ui = s.ui) (htx : t.txBuf = s.txBuf) : Filled id t where
  endId := hid.trans h.endId
  type := by
    rw [hui, htx]
    exact h.type
  src := by
    rw [hui, htx]
    exact h.src

theorem filled_step {id : EndID} {s t : CliState} {e : CliEvent} (h : Filled id s)
    (hstep : cliStep s e = some t) :
    Filled id t ∧ ∃ new, t.sent = s.sent ++ new ∧ ∀ p ∈ new, IsFrom id p.2 := by
  cases e with
  | enter dest =>
      simp only [cliStep, Option.ite_none_right_eq_some, Option.some.injEq] at hstep
      obtain ⟨-, rfl⟩ := hstep
      exact ⟨.of_early h.endId rfl rfl, [], by simp⟩
  | ui => exact h.ui hstep
  | read r =>
      simp only [cliStep, Option.ite_none_right_eq_some] at hstep
      obtain ⟨-, hstep⟩ := hstep
      rcases r with _ | typed
      · obtain rfl := Option.some.inj hstep
        exact ⟨.of_early h.endId rfl rfl, [], by simp⟩
      · obtain rfl := Option.some.inj hstep
        exact ⟨.of_early h.endId rfl rfl, [], by simp⟩
  | rx =>
      simp only [cliStep, rxStep] at hstep
      split at hstep
      case h_1 =>
        cases hstep
        exact ⟨h.same rfl rfl rfl, [], by simp⟩
      case h_2 => cases hstep
      case h_3 => split at hstep <;> cases hstep <;> exact ⟨h.same rfl rfl rfl, [], by simp⟩
      case h_4 =>
        cases hstep
        exact ⟨h.same rfl rfl rfl, [], by simp⟩
  | recv r =>
      obtain ⟨-, hrecv⟩ := Option.ite_none_right_eq_some.mp hstep
      rcases r with _ | _ | c
      all_goals
        obtain rfl := Option.some.inj hrecv
        exact ⟨h.same rfl rfl rfl, [], by simp⟩

theorem newSent_eq {s t : CliState} {new : List (Typed × MsgBuf)} (h : t.sent = s.sent ++ new) :
    newSent s t = new.map Prod.snd := by
  rw [newSent, h, List.drop_left]

/-- A whole receive stores the message. -/
theorem received_eq {s t : CliState} {e : CliEvent} {c : Chunk sizeofMsgBuf} {m : MsgBuf}
    (hstep : cliStep s e = some t) (he : receive e = .data c) (hm : c.whole = some m) :
    received e t = [m] := by
  cases e with
  | recv r =>
      obtain rfl : r = .data c := he
      obtain ⟨-, hrecv⟩ := Option.ite_none_right_eq_some.mp hstep
      obtain rfl := Option.some.inj hrecv
      exact congrArg (fun b => [b]) (Buf.recv_of_whole s.rxBuf hm)
  | _ => cases he

/-! ## 4. What the server does with an event -/

/-- What `ClientMsgEnQueue` puts into the queue. -/
def enqueues (serverFd : ServerFd) (s : SrvState) (e : SrvEvent) : List MsgBuf :=
  if IsClient serverFd s e.fd then
    match e.answers.recv with
    | .data c =>
        let rxBuf := s.rxBuf.recv c
        if MsgBuf.msgType rxBuf = MsgType.SAVE_CLI_INFO.code then [] else [rxBuf]
    | _ => []
  else []

/-- The messages that `ProcessMsg` sends to clients. -/
def relayOf : SrvCall → Option MsgBuf
  | .sendCliMsg _ msgBuf => some msgBuf
  | _ => none

/-- The epoll thread relays nothing, and says of what it sends that it is from the server. -/
def OwnAccount (call : SrvCall) : Prop :=
  relayOf call = none ∧ ∀ fd m, sendOf call = some (fd, m) → m.srcEndID = SERVER_ENDID

theorem ownAccount_sendMsgAllClient {send : Int32 → Int} {msgBuf : MsgBuf} {mgr : CliInfoManager}
    {txBuf : MsgBuf} {s32Ret : Int} :
    ∀ call ∈ (sendMsgAllClient send msgBuf mgr txBuf s32Ret).2.1, OwnAccount call := by
  induction mgr generalizing txBuf s32Ret with
  | nil => simp [sendMsgAllClient]
  | cons pos rest ih =>
      intro call hcall
      rcases List.mem_cons.mp hcall with rfl | hcall
      · refine ⟨rfl, ?_⟩
        intro fd m hm
        cases hm
        rw [srcEndID_setMsg, srcEndID_txMsg]
      · exact ih call hcall

theorem ownAccount_of_sendOf_none {call : SrvCall} (hrelay : relayOf call = none)
    (hsend : sendOf call = none) : OwnAccount call := by
  refine ⟨hrelay, ?_⟩
  intro fd m hm
  rw [hsend] at hm
  cases hm

theorem ownAccount_broadcastAllClient {s : SrvState} {k : Answers} :
    ∀ call ∈ (broadcastAllClient s k).2.1, OwnAccount call := by
  intro call hcall
  unfold broadcastAllClient at hcall
  split at hcall
  · rw [List.mem_singleton.mp hcall]
    exact ownAccount_of_sendOf_none rfl rfl
  · rcases List.mem_cons.mp hcall with rfl | hcall
    · exact ownAccount_of_sendOf_none rfl rfl
    · exact ownAccount_sendMsgAllClient call hcall

theorem queued_eq_nil {calls : List SrvCall} (h : ∀ call ∈ calls, ∀ fd m,
    call ≠ .enMsgLinkQueue fd m) : queued calls = [] := by
  apply List.filterMap_eq_nil_iff.mpr
  intro call hcall
  cases call with
  | enMsgLinkQueue fd m => exact absurd rfl (h _ hcall fd m)
  | _ => rfl

/-- The calls of an event: what they queue, and on whose account they send. -/
theorem epoll_calls (serverFd : ServerFd) (s : SrvState) (e : SrvEvent) :
    (∀ call ∈ (processEventsByFd serverFd s e.fd e.answers).2.1, OwnAccount call) ∧
      queued (processEventsByFd serverFd s e.fd e.answers).2.1 = enqueues serverFd s e := by
  by_cases hclient : IsClient serverFd s e.fd
  · rw [processEventsByFd_client hclient, enqueues, if_pos hclient]
    unfold clientMsgEnQueue
    cases hrecv : e.answers.recv with
    | error => exact ⟨by simp [OwnAccount, relayOf, sendOf], rfl⟩
    | eof =>
        simp only [delFromCliInfoByFd_calls, hclient.2.2, if_true]
        exact ⟨by simp [OwnAccount, relayOf, sendOf], rfl⟩
    | data c =>
        by_cases hsave : MsgBuf.msgType (s.rxBuf.recv c) = MsgType.SAVE_CLI_INFO.code
        · simp only [hsave, if_true]
          unfold sendInitInfoToCliByFd
          split
          · exact ⟨by simp [OwnAccount, relayOf, sendOf], rfl⟩
          · refine ⟨?_, rfl⟩
            intro call hcall
            rcases List.mem_cons.mp hcall with rfl | hcall
            · exact ownAccount_of_sendOf_none rfl rfl
            · rw [List.mem_singleton.mp hcall]
              refine ⟨rfl, ?_⟩
              intro fd m hm
              cases hm
              exact srcEndID_txMsg _ _ _
        · simp only [hsave, if_false]
          exact ⟨by simp [OwnAccount, relayOf, sendOf], rfl⟩
  · rw [enqueues, if_neg hclient, processEventsByFd]
    by_cases hserver : e.fd = serverFd.fd
    · rw [if_pos hserver]
      by_cases hacc : e.answers.accept = -1 <;>
        simp [acceptNewClient, hacc, OwnAccount, relayOf, sendOf, queued]
    · rw [if_neg hserver]
      by_cases hstdin : e.fd = STDIN_FILENO
      · rw [if_pos hstdin]
        constructor
        · exact ownAccount_broadcastAllClient
        · apply queued_eq_nil
          intro call hcall fd m heq
          rcases mem_broadcastAllClient hcall with ⟨_, rfl⟩ | ⟨_, _, rfl⟩ <;> cases heq
      · rw [if_neg hstdin, if_neg]
        · simp [queued]
        · rw [isSome_getOneCliInfoByFd]
          exact fun hopen => hclient ⟨hserver, hstdin, hopen⟩

/-- A message for a client is sent to a node with the client's number. -/
theorem processMsg_relays {debug : Bool} {k : TxAnswers} {mgr : CliInfoManager} {m : MsgBuf}
    {calls : List SrvCall} {s32Ret : Int} (htype : m.msgType = MsgType.PROCESS_MSG.code)
    (hdest : m.destEndID ≠ getServerEndId)
    (hret : processMsg debug k mgr m = some (calls, s32Ret)) :
    ∃ dest, getOneCliInfoByEndID m.destEndID mgr = some dest ∧
      calls = [.sendCliMsg dest.fd m] := by
  have hrelease : processMsg false k mgr m = some (calls, s32Ret) := by
    rcases debug with _ | _
    · exact hret
    · rw [processMsg_debug k mgr m htype, Option.ite_none_right_eq_some] at hret
      exact hret.2
  rcases hlookup : getOneCliInfoByEndID m.destEndID mgr with _ | dest
  · simp [processMsg, htype, hdest, hlookup] at hrelease
  · refine ⟨dest, rfl, ?_⟩
    by_cases hsend : k.send dest.fd = sizeofMsgBuf
    · simp [processMsg, htype, hdest, hlookup, hsend] at hrelease
      exact hrelease.1.symm
    · simp [processMsg, htype, hdest, hlookup, hsend, Option.bind_eq_some_iff] at hrelease
      obtain ⟨-, -, hcalls, -⟩ := hrelease
      exact hcalls.symm

/-- One for the server is not. -/
theorem processMsg_own {debug : Bool} {k : TxAnswers} {mgr : CliInfoManager} {m : MsgBuf}
    {calls : List SrvCall} {s32Ret : Int} (hdest : m.destEndID = getServerEndId)
    (hret : processMsg debug k mgr m = some (calls, s32Ret)) :
    calls.filterMap sendOf = [] ∧ calls.filterMap relayOf = [] ∧ queued calls = [] := by
  rcases processMsg_calls hret with rfl | rfl | ⟨hne, -⟩
  · exact ⟨rfl, rfl, rfl⟩
  · exact ⟨rfl, rfl, rfl⟩
  · exact absurd hdest hne

end SocketPractice.SocketTcp.Chat
