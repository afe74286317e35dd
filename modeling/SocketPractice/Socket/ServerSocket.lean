import SocketPractice.Socket.SockMsg

/-!
# Receiving a message (`server_tcp.c`, `server_udp.c`)

A receive handler makes one `recv` into a zeroed message and then a fixed list of
calls, which depends on nothing but what the `recv` returned.  The handlers are
therefore functions from that result to the list of their calls, in order; the
calls themselves take effect in the modules that model the table, the queue and
the descriptors.

The number of bytes received is compared with 0 only.  A TCP connection is a byte
stream, so a receive may return a part of a message, which is then handled as a
message of its own.
-/

namespace SocketPractice.Socket

open Lib.Bytes

/-! ## 1. The code -/

/-- A call a handler of the server makes. -/
inductive SrvCall where
  | addFdToSrvEpoll (fd : Int32)
  | delFdFromSrvEpoll (fd : Int32)
  | delTcpCliFromDatabaseByFd (fd : Int32)
  | close (fd : Int32)
  | addTcpCliToDatabase (endid : EndId) (fd : Int32)
  | sendMsgByTcp (msgPack : LcMsgPackage) (cliFd : Int32)
  | addUdpCliToDatabase (endid : EndId) (ipaddr : UInt32) (port : UInt16)
  | sendMsgByUdp (msgPack : LcMsgPackage) (ipaddr : UInt32) (port : UInt16)
  | enSrvMsgQueue (msgPackage : LcMsgPackage)
deriving DecidableEq

/-- What `recv` into a message returns. -/
abbrev RecvRet := Lib.Bytes.RecvRet sizeofLcMsgPackage

/-- The acknowledgement of a registration, built in a zeroed message. -/
def saveCliInfoAck (serverEndid destid : EndId) : LcMsgPackage :=
  let TXbuf := LcMsgPackage.setMsgType (Buf.zero sizeofLcMsgPackage) .SAVE_CLI_INFO
  let TXbuf := LcMsgPackage.setSrcid TXbuf serverEndid
  LcMsgPackage.setDestid TXbuf destid

/-- The last part of `recv_tcp_cli_msg`: what is done with the message in `msgbuf`. -/
def handleTcpMsg (serverEndid : EndId) (fd : Int32) (msgbuf : LcMsgPackage) : List SrvCall :=
  if msgbuf.msgType = LcMsgType.SAVE_CLI_INFO.code then
    [.addTcpCliToDatabase msgbuf.srcid fd,
     .sendMsgByTcp (saveCliInfoAck serverEndid msgbuf.srcid) fd]
  else [.enSrvMsgQueue msgbuf]

/-- The calls of `recv_tcp_cli_msg` and its return value. -/
def recvTcpCliMsg (serverEndid : EndId) (fd : Int32) : RecvRet → List SrvCall × Int32
  | .error => ([], -1)
  | .eof => ([.delFdFromSrvEpoll fd, .delTcpCliFromDatabaseByFd fd, .close fd], 0)
  | .data c => (handleTcpMsg serverEndid fd ((Buf.zero sizeofLcMsgPackage).recv c), 0)

def handleUdpMsg (serverEndid : EndId) (ipaddr : UInt32) (port : UInt16)
    (msgbuf : LcMsgPackage) : List SrvCall :=
  if msgbuf.msgType = LcMsgType.SAVE_CLI_INFO.code then
    [.addUdpCliToDatabase msgbuf.srcid ipaddr port,
     .sendMsgByUdp (saveCliInfoAck serverEndid msgbuf.srcid) ipaddr port]
  else [.enSrvMsgQueue msgbuf]

/-- The calls of `recv_udp_cli_msg` and its return value; the address is the one
    `recvfrom` stored.  An empty datagram is ignored. -/
def recvUdpCliMsg (serverEndid : EndId) (ipaddr : UInt32) (port : UInt16) :
    RecvRet → List SrvCall × Int32
  | .error => ([], -1)
  | .eof => ([], 0)
  | .data c => (handleUdpMsg serverEndid ipaddr port ((Buf.zero sizeofLcMsgPackage).recv c), 0)

/-! ## 2. One message for each receive -/

/-- The calls by which a message counts as acted on: it is registered or queued. -/
def SrvCall.actsOn : SrvCall → Bool
  | .addTcpCliToDatabase _ _ => true
  | .addUdpCliToDatabase _ _ _ => true
  | .enSrvMsgQueue _ => true
  | _ => false

theorem countP_handleTcpMsg (serverEndid : EndId) (fd : Int32) (m : LcMsgPackage) :
    (handleTcpMsg serverEndid fd m).countP SrvCall.actsOn = 1 := by
  unfold handleTcpMsg
  by_cases hsave : m.msgType = LcMsgType.SAVE_CLI_INFO.code
  · rw [if_pos hsave]
    rfl
  · rw [if_neg hsave]
    rfl

/-- Every receive is acted on as one message, whatever its length. -/
theorem countP_recvTcpCliMsg (serverEndid : EndId) (fd : Int32)
    (c : Chunk sizeofLcMsgPackage) :
    (recvTcpCliMsg serverEndid fd (.data c)).1.countP SrvCall.actsOn = 1 :=
  countP_handleTcpMsg _ _ _

theorem countP_flatMap_one {α : Type} (f : α → List SrvCall)
    (hf : ∀ a, (f a).countP SrvCall.actsOn = 1) (as : List α) :
    (as.flatMap f).countP SrvCall.actsOn = as.length := by
  induction as with
  | nil => rfl
  | cons a as ih =>
      rw [List.flatMap_cons, List.countP_append, hf a, ih, List.length_cons, Nat.add_comm]

theorem recv_zero_full (c : Chunk sizeofLcMsgPackage) (m : LcMsgPackage)
    (h : c.bytes = m.bytes) : (Buf.zero sizeofLcMsgPackage).recv c = m := by
  apply Buf.ext
  rw [Buf.recv_full _ c (h ▸ m.size), h]

/-! ## 3. The stream of a connection -/

/-- The calls made for the receives on one connection, in order. -/
def serveTcp (serverEndid : EndId) (fd : Int32) (chunks : List (Chunk sizeofLcMsgPackage)) :
    List SrvCall :=
  chunks.flatMap fun c => (recvTcpCliMsg serverEndid fd (.data c)).1

/-- The calls that the messages of one connection ask for, in order. -/
def wantedTcp (serverEndid : EndId) (fd : Int32) (msgs : List LcMsgPackage) : List SrvCall :=
  msgs.flatMap (handleTcpMsg serverEndid fd)

/-- `chunks` is a way in which the bytes of `msgs` can arrive. -/
def Arrives (msgs : List LcMsgPackage) (chunks : List (Chunk sizeofLcMsgPackage)) : Prop :=
  (chunks.map Chunk.bytes).flatten = (msgs.map Buf.bytes).flatten

instance (msgs : List LcMsgPackage) (chunks : List (Chunk sizeofLcMsgPackage)) :
    Decidable (Arrives msgs chunks) :=
  inferInstanceAs (Decidable (_ = _))

/-- When every receive returns a whole message, the chunks are the messages. -/
theorem serveTcp_of_full (serverEndid : EndId) (fd : Int32) {msgs : List LcMsgPackage}
    {chunks : List (Chunk sizeofLcMsgPackage)} (hwire : Arrives msgs chunks)
    (hfull : ∀ c ∈ chunks, c.bytes.length = sizeofLcMsgPackage) :
    serveTcp serverEndid fd chunks = wantedTcp serverEndid fd msgs := by
  have heq : chunks.map Chunk.bytes = msgs.map Buf.bytes := by
    refine eq_of_flatten_eq (n := sizeofLcMsgPackage) (by decide) ?_ ?_ hwire
    · intro x hx
      rcases List.mem_map.mp hx with ⟨c, hc, rfl⟩
      exact hfull c hc
    · intro y hy
      rcases List.mem_map.mp hy with ⟨m, -, rfl⟩
      exact m.size
  clear hwire hfull
  induction chunks generalizing msgs with
  | nil =>
      rcases msgs with _ | ⟨m, msgs⟩
      · rfl
      · simp at heq
  | cons c chunks ih =>
      rcases msgs with _ | ⟨m, msgs⟩
      · simp at heq
      · rcases List.cons.inj heq with ⟨hc, hrest⟩
        have hhead : (recvTcpCliMsg serverEndid fd (.data c)).1 =
            handleTcpMsg serverEndid fd m := by
          rw [recvTcpCliMsg, recv_zero_full c m hc]
        have htail := ih hrest
        simp only [serveTcp, wantedTcp, List.flatMap_cons, hhead] at htail ⊢
        rw [htail]

/-- The server registers, acknowledges and queues exactly the messages that were
    sent, in order, if and only if no receive returned less than a message. -/
theorem tcp_messages_intact_iff (serverEndid : EndId) (fd : Int32) (msgs : List LcMsgPackage)
    (chunks : List (Chunk sizeofLcMsgPackage)) (hwire : Arrives msgs chunks) :
    serveTcp serverEndid fd chunks = wantedTcp serverEndid fd msgs ↔
      ∀ c ∈ chunks, c.bytes.length = sizeofLcMsgPackage := by
  constructor
  · intro heq c hc
    -- as many receives as messages, so there is no room for a short one
    have hcount : chunks.length = msgs.length := by
      have h1 := countP_flatMap_one _ (countP_recvTcpCliMsg serverEndid fd) chunks
      have h2 := countP_flatMap_one _ (countP_handleTcpMsg serverEndid fd) msgs
      rw [← h1, ← h2]
      exact congrArg _ heq
    have hle : ∀ x ∈ chunks.map Chunk.bytes, x.length ≤ sizeofLcMsgPackage := by
      intro x hx
      rcases List.mem_map.mp hx with ⟨c, -, rfl⟩
      exact c.le
    have hsum : sizeofLcMsgPackage * (chunks.map Chunk.bytes).length ≤
        (chunks.map Chunk.bytes).flatten.length := by
      apply Nat.le_of_eq
      rw [hwire, length_flatten_bytes, List.length_map, hcount]
    exact all_full_of_length hle hsum _ (List.mem_map_of_mem hc)
  · exact serveTcp_of_full serverEndid fd hwire

def cutMsg (m : LcMsgPackage) : List (Chunk sizeofLcMsgPackage) :=
  [⟨m.bytes.take 100, by simp [m.size, sizeofLcMsgPackage], by simp [m.size, sizeofLcMsgPackage]⟩,
   ⟨m.bytes.drop 100, by simp [m.size, sizeofLcMsgPackage], by simp [m.size, sizeofLcMsgPackage]⟩]

theorem cutMsg_arrives (m : LcMsgPackage) : Arrives [m] (cutMsg m) := by
  simp [Arrives, cutMsg]

def tcpData : LcMsgPackage := LcMsgPackage.setMsgType (Buf.zero sizeofLcMsgPackage) .TCP_DATA

/-- Cut in two, it is acted on twice: queued with the data cut off, and registered
    as the zeroed rest of it. -/
theorem tcp_message_split :
    Arrives [tcpData] (cutMsg tcpData) ∧
      serveTcp 1 5 (cutMsg tcpData) ≠ wantedTcp 1 5 [tcpData] := by
  refine ⟨cutMsg_arrives _, ?_⟩
  intro heq
  have h := congrArg (List.countP SrvCall.actsOn) heq
  rw [wantedTcp, serveTcp, countP_flatMap_one _ (countP_recvTcpCliMsg 1 5),
    countP_flatMap_one _ (countP_handleTcpMsg 1 5)] at h
  cases h

def wholeMsg (m : LcMsgPackage) : List (Chunk sizeofLcMsgPackage) :=
  [⟨m.bytes, by simp [m.size, sizeofLcMsgPackage], Nat.le_of_eq m.size⟩]

theorem tcp_message_whole :
    serveTcp 1 5 (wholeMsg tcpData) = wantedTcp 1 5 [tcpData] ↔
      ∀ c ∈ wholeMsg tcpData, c.bytes.length = sizeofLcMsgPackage :=
  tcp_messages_intact_iff 1 5 [tcpData] (wholeMsg tcpData) rfl

end SocketPractice.Socket
