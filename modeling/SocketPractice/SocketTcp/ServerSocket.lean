import SocketPractice.SocketTcp.ServerEpoll

/-!
# The thread that processes messages (`server_socket.c`)

`ProcessMsg` looks up both endids of a message in the table of clients and uses what
it finds without a check.  A step is one call of `ProcessEventsByFd` in the epoll
thread or one turn of `ProcessCliMsg`; the queue between them and the table change
with the former.  `LOCAL_DEBUG` is a parameter.

The server survives a run, and drops what it cannot deliver with an error, if and
only if each message it processes names clients that are registered where this
matters.
-/

namespace SocketPractice.SocketTcp

open Lib.Bytes Lib.Runs

/-! ## 1. The code -/

/-- What `GetInitModules()->GetEndId()` returns in the server. -/
def getServerEndId : EndID := 0

/-- What `write` and `send` return in `ProcessMsg`. -/
structure TxAnswers where
  write : Int
  send : Int32 → Int

/-- The endids and the bytes that are printed; `none` where a node is `NULL`. -/
def displayMsgBuf (mgr : CliInfoManager) (msgBuf : MsgBuf) :
    Option (EndID × EndID × List UInt8) := do
  let srcEndInfo := getOneCliInfoByEndID msgBuf.srcEndID mgr
  let tmpid ←
    if msgBuf.destEndID = getServerEndId then some msgBuf.destEndID
    else (getOneCliInfoByEndID msgBuf.destEndID mgr).map CliInfoNode.cliEndid
  let src ← srcEndInfo
  return (src.cliEndid, tmpid, msgBuf.msg.take 30)

/-- The calls made and the value returned; `none` where a node is `NULL`. -/
def processMsg (debug : Bool) (k : TxAnswers) (mgr : CliInfoManager) (msgBuf : MsgBuf) :
    Option (List SrvCall × Int) :=
  if msgBuf.msgType ≠ MsgType.PROCESS_MSG.code then some ([], -1)
  else do
    let _ ← if debug then (displayMsgBuf mgr msgBuf).map fun _ => () else some ()
    let srcEndInfo := getOneCliInfoByEndID msgBuf.srcEndID mgr
    if msgBuf.destEndID = getServerEndId then
      let calls := [.write msgBuf.destEndID msgBuf.msg]
      if k.write ≠ MAX_MSG_LEN then (getCliInfoErrStr srcEndInfo).map fun _ => (calls, -1)
      else return (calls, 0)
    else
      let destEndInfo := getOneCliInfoByEndID msgBuf.destEndID mgr
      let dest ← destEndInfo
      let calls := [.sendCliMsg dest.fd msgBuf]
      if k.send dest.fd ≠ sizeofMsgBuf then
        (getCliInfoErrStr srcEndInfo).bind fun _ =>
          (getCliInfoErrStr destEndInfo).map fun _ => (calls, -1)
      else return (calls, 0)

/-- The server with the message queue.  `returns` lists what `ProcessMsg` returned,
    each time with whether the destination was registered. -/
structure TcpSrv where
  run : SrvRun
  queue : List MsgBuf
  /-- A null pointer was dereferenced. -/
  fault : Bool
  returns : List (Bool × Int)

inductive TcpEvent where
  | epoll (e : SrvEvent)
  | process (k : TxAnswers)

/-- The messages that some calls put into the queue. -/
def queued (calls : List SrvCall) : List MsgBuf :=
  calls.filterMap fun
    | .enMsgLinkQueue _ msgBuf => some msgBuf
    | _ => none

def Registered (mgr : CliInfoManager) (cliEndid : EndID) : Prop :=
  (getOneCliInfoByEndID cliEndid mgr).isSome

instance (mgr : CliInfoManager) (cliEndid : EndID) : Decidable (Registered mgr cliEndid) := by
  unfold Registered
  infer_instance

/-- The server itself is always a destination. -/
def IsDest (mgr : CliInfoManager) (destEndID : EndID) : Prop :=
  destEndID = getServerEndId ∨ Registered mgr destEndID

instance (mgr : CliInfoManager) (destEndID : EndID) : Decidable (IsDest mgr destEndID) := by
  unfold IsDest
  infer_instance

def processCliMsg (debug : Bool) (k : TxAnswers) (s : TcpSrv) : TcpSrv :=
  match s.queue with
  | [] => s
  | msgBuf :: queue =>
      let mgr := s.run.srv.cliInfoManager
      match processMsg debug k mgr msgBuf with
      | none => { s with queue := queue, fault := true }
      | some (calls, s32Ret) =>
          { s with
            run := { s.run with calls := s.run.calls ++ calls }
            queue := queue
            returns := s.returns ++ [(decide (IsDest mgr msgBuf.destEndID), s32Ret)] }

/-- After a fault the process is gone. -/
def tcpStep (debug : Bool) (serverFd : ServerFd) (s : TcpSrv) (e : TcpEvent) : Option TcpSrv :=
  if s.fault then none
  else
    match e with
    | .epoll e =>
        (srvStep serverFd s.run e).map fun run =>
          { s with
            run := run
            queue := s.queue ++
              queued (processEventsByFd serverFd s.run.srv e.fd e.answers).2.1 }
    | .process k => some (processCliMsg debug k s)

def newTcpSrv : TcpSrv := { run := newRun, queue := [], fault := false, returns := [] }

/-! ## 2. Which messages are survived -/

def Answerable (debug : Bool) (k : TxAnswers) (mgr : CliInfoManager) (msgBuf : MsgBuf) : Prop :=
  msgBuf.msgType = MsgType.PROCESS_MSG.code →
    (debug = true → Registered mgr msgBuf.srcEndID) ∧
    if msgBuf.destEndID = getServerEndId then
      k.write = MAX_MSG_LEN ∨ Registered mgr msgBuf.srcEndID
    else
      match getOneCliInfoByEndID msgBuf.destEndID mgr with
      | none => False
      | some dest => k.send dest.fd = sizeofMsgBuf ∨ Registered mgr msgBuf.srcEndID

instance (debug : Bool) (k : TxAnswers) (mgr : CliInfoManager) (msgBuf : MsgBuf) :
    Decidable (Answerable debug k mgr msgBuf) := by
  unfold Answerable
  refine @instDecidableForall _ _ _ (@instDecidableAnd _ _ _ ?_)
  split
  · infer_instance
  · split <;> infer_instance

/-- What the server should make of a message: it returns 0 or -1, and -1 where there
    is no destination. -/
def Answered (mgr : CliInfoManager) (msgBuf : MsgBuf) : Option (List SrvCall × Int) → Prop
  | none => False
  | some (_, s32Ret) =>
      (s32Ret = 0 ∨ s32Ret = -1) ∧ (¬ IsDest mgr msgBuf.destEndID → s32Ret = -1)

theorem displayMsgBuf_isSome (mgr : CliInfoManager) (msgBuf : MsgBuf) :
    (displayMsgBuf mgr msgBuf).isSome ↔
      IsDest mgr msgBuf.destEndID ∧ Registered mgr msgBuf.srcEndID := by
  unfold displayMsgBuf IsDest Registered
  by_cases hdest : msgBuf.destEndID = getServerEndId
  · cases hsrc : getOneCliInfoByEndID msgBuf.srcEndID mgr <;> simp [hdest]
  · cases hdst : getOneCliInfoByEndID msgBuf.destEndID mgr <;>
      cases hsrc : getOneCliInfoByEndID msgBuf.srcEndID mgr <;> simp [hdest]

/-- Without the display: a message for the server or for a client is answered if the
    source is registered or the call goes through. -/
theorem answered_processMsg_release (k : TxAnswers) (mgr : CliInfoManager) (msgBuf : MsgBuf) :
    Answered mgr msgBuf (processMsg false k mgr msgBuf) ↔ Answerable false k mgr msgBuf := by
  unfold processMsg Answerable
  by_cases htype : msgBuf.msgType = MsgType.PROCESS_MSG.code
  · simp only [htype, ne_eq, not_true_eq_false, if_false, forall_const, Registered,
      Bool.false_eq_true, false_implies, true_and]
    by_cases hdest : msgBuf.destEndID = getServerEndId
    · by_cases hwrite : k.write = MAX_MSG_LEN
      · simp [hdest, hwrite, Answered, IsDest]
      · cases hsrc : getOneCliInfoByEndID msgBuf.srcEndID mgr <;>
          simp [hdest, hwrite, Answered, IsDest, getCliInfoErrStr]
    · rcases hdst : getOneCliInfoByEndID msgBuf.destEndID mgr with _ | dest
      · simp [hdest, Answered]
      · have hisDest : IsDest mgr msgBuf.destEndID := Or.inr (by simp [Registered, hdst])
        by_cases hsend : k.send dest.fd = sizeofMsgBuf
        · simp [hdest, hsend, Answered, hisDest]
        · cases hsrc : getOneCliInfoByEndID msgBuf.srcEndID mgr <;>
            simp [hdest, hsend, Answered, hisDest, getCliInfoErrStr]
  · simp [htype, Answered]

/-- With the display both endids have to be registered. -/
theorem processMsg_debug (k : TxAnswers) (mgr : CliInfoManager) (msgBuf : MsgBuf)
    (htype : msgBuf.msgType = MsgType.PROCESS_MSG.code) :
    processMsg true k mgr msgBuf =
      if (displayMsgBuf mgr msgBuf).isSome then processMsg false k mgr msgBuf else none := by
  cases hdisp : displayMsgBuf mgr msgBuf <;> simp [processMsg, htype, hdisp]

theorem answerable_debug (k : TxAnswers) (mgr : CliInfoManager) (msgBuf : MsgBuf)
    (htype : msgBuf.msgType = MsgType.PROCESS_MSG.code) :
    Answerable true k mgr msgBuf ↔
      (displayMsgBuf mgr msgBuf).isSome ∧ Answerable false k mgr msgBuf := by
  rw [displayMsgBuf_isSome]
  unfold Answerable IsDest
  simp only [htype, forall_const, Bool.false_eq_true, false_implies, true_and]
  by_cases hdest : msgBuf.destEndID = getServerEndId
  · simp only [hdest, if_true, true_or, true_and]
  · simp only [hdest, if_false, false_or]
    rcases hdst : getOneCliInfoByEndID msgBuf.destEndID mgr with _ | dest
    · simp
    · simp [Registered, hdst]

/-- `ProcessMsg` writes the message, or sends it to the node that has the destination's
    endid, or makes no call. -/
theorem processMsg_calls {debug : Bool} {k : TxAnswers} {mgr : CliInfoManager} {msgBuf : MsgBuf}
    {calls : List SrvCall} {s32Ret : Int}
    (hret : processMsg debug k mgr msgBuf = some (calls, s32Ret)) :
    calls = [] ∨ calls = [.write msgBuf.destEndID msgBuf.msg] ∨
      msgBuf.destEndID ≠ getServerEndId ∧ ∃ dest,
        getOneCliInfoByEndID msgBuf.destEndID mgr = some dest ∧
        calls = [.sendCliMsg dest.fd msgBuf] := by
  by_cases htype : msgBuf.msgType = MsgType.PROCESS_MSG.code
  · have hrelease : processMsg false k mgr msgBuf = some (calls, s32Ret) := by
      rcases debug with _ | _
      · exact hret
      · rw [processMsg_debug k mgr msgBuf htype, Option.ite_none_right_eq_some] at hret
        exact hret.2
    unfold processMsg at hrelease
    by_cases hdest : msgBuf.destEndID = getServerEndId
    · right
      left
      by_cases hwrite : k.write = MAX_MSG_LEN
      · simp [htype, hdest, hwrite] at hrelease
        rw [← hrelease.1, hdest]
      · simp [htype, hdest, hwrite] at hrelease
        obtain ⟨-, hcalls, -⟩ := hrelease
        rw [← hcalls, hdest]
    · right
      right
      refine ⟨hdest, ?_⟩
      rcases hdst : getOneCliInfoByEndID msgBuf.destEndID mgr with _ | dest
      · simp [htype, hdest, hdst] at hrelease
      · refine ⟨dest, rfl, ?_⟩
        by_cases hsend : k.send dest.fd = sizeofMsgBuf
        · simp [htype, hdest, hdst, hsend] at hrelease
          exact hrelease.1.symm
        · simp [htype, hdest, hdst, hsend, Option.bind_eq_some_iff] at hrelease
          obtain ⟨-, -, hcalls, -⟩ := hrelease
          exact hcalls.symm
  · left
    simp [processMsg, htype] at hret
    exact hret.1

/-- A message is answered exactly if it names clients where the code relies on it. -/
theorem answered_processMsg_iff (debug : Bool) (k : TxAnswers) (mgr : CliInfoManager)
    (msgBuf : MsgBuf) :
    Answered mgr msgBuf (processMsg debug k mgr msgBuf) ↔ Answerable debug k mgr msgBuf := by
  rcases debug with _ | _
  · exact answered_processMsg_release k mgr msgBuf
  · by_cases htype : msgBuf.msgType = MsgType.PROCESS_MSG.code
    · rw [processMsg_debug k mgr msgBuf htype, answerable_debug k mgr msgBuf htype,
        ← answered_processMsg_release]
      by_cases hshow : (displayMsgBuf mgr msgBuf).isSome = true
      · rw [if_pos hshow]
        exact (and_iff_right hshow).symm
      · rw [if_neg hshow]
        exact ⟨False.elim, fun h => hshow h.1⟩
    · simp [processMsg, Answerable, htype, Answered]

/-! ## 3. Runs -/

/-- No fault, and each message was answered as it should be. -/
structure Survives (s : TcpSrv) : Prop where
  fault : s.fault = false
  returns : ∀ p ∈ s.returns, (p.2 = 0 ∨ p.2 = -1) ∧ (p.1 = false → p.2 = -1)

/-- The message that is processed next, if one is, can be answered. -/
def NextAnswerable (debug : Bool) (s : TcpSrv) : TcpEvent → Prop
  | .epoll _ => True
  | .process k => ∀ msgBuf ∈ s.queue.head?, Answerable debug k s.run.srv.cliInfoManager msgBuf

instance (debug : Bool) (s : TcpSrv) (e : TcpEvent) : Decidable (NextAnswerable debug s e) := by
  unfold NextAnswerable
  split <;> infer_instance

theorem processCliMsg_survives_iff {debug : Bool} {k : TxAnswers} {s : TcpSrv}
    (h : Survives s) :
    Survives (processCliMsg debug k s) ↔ NextAnswerable debug s (.process k) := by
  unfold processCliMsg NextAnswerable
  cases hqueue : s.queue with
  | nil => simpa using h
  | cons msgBuf queue =>
      simp only [List.head?_cons, Option.mem_some_iff, forall_eq',
        ← answered_processMsg_iff]
      rcases hret : processMsg debug k s.run.srv.cliInfoManager msgBuf with _ | ret
      · constructor
        · intro hs
          exact Bool.noConfusion hs.fault
        · exact False.elim
      · constructor
        · intro hs
          have hlast := hs.returns _ (List.mem_append_right _ (List.mem_singleton_self _))
          exact ⟨hlast.1, fun hisDest => hlast.2 (decide_eq_false hisDest)⟩
        · rintro ⟨hret, hisDest⟩
          refine ⟨h.fault, ?_⟩
          intro p hp
          rcases List.mem_append.mp hp with hp | hp
          · exact h.returns p hp
          · rw [List.mem_singleton.mp hp]
            exact ⟨hret, fun hfalse => hisDest (of_decide_eq_false hfalse)⟩

theorem survives_step_iff (debug : Bool) (serverFd : ServerFd) (s : TcpSrv) (e : TcpEvent)
    (t : TcpSrv) (h : Survives s) (hstep : tcpStep debug serverFd s e = some t) :
    Survives t ↔ NextAnswerable debug s e := by
  cases e with
  | epoll e =>
      simp only [tcpStep, h.fault, Bool.false_eq_true, if_false] at hstep
      rcases Option.map_eq_some_iff.mp hstep with ⟨run, -, rfl⟩
      constructor
      · intro _
        trivial
      · intro _
        exact ⟨rfl, h.returns⟩
  | process k =>
      simp only [tcpStep, h.fault, Bool.false_eq_true, if_false, Option.some.injEq] at hstep
      subst hstep
      exact processCliMsg_survives_iff h

/-- The server survives a run and answers every message in it if and only if each
    message that is processed can be answered with the table as it then is. -/
theorem survives_iff_answerable (debug : Bool) (serverFd : ServerFd) (evs : List TcpEvent)
    (s : TcpSrv) (hrun : exec (tcpStep debug serverFd) newTcpSrv evs = some s) :
    Always (tcpStep debug serverFd) Survives newTcpSrv evs ↔
      Along (tcpStep debug serverFd) (NextAnswerable debug) newTcpSrv evs :=
  always_iff_along (J := fun _ => True) (fun _ _ _ _ _ => trivial)
    (fun s e t _ h hstep => survives_step_iff debug serverFd s e t h hstep) trivial
    ⟨rfl, fun _ hp => by cases hp⟩ hrun

/-- What the clients send in these runs: a registration, and a message to a client. -/
def registration (srcEndID : EndID) : MsgBuf :=
  (MsgBuf.setMsgType (Buf.zero sizeofMsgBuf) .SAVE_CLI_INFO).setSrcEndID srcEndID

def msgTo (srcEndID destEndID : EndID) : MsgBuf :=
  (serverMsg.setSrcEndID srcEndID).setDestEndID destEndID

def allSent : TxAnswers := { write := MAX_MSG_LEN, send := fun _ => sizeofMsgBuf }

/-- The destination has disconnected when its message is processed. -/
def destGone : List TcpEvent :=
  [.epoll (acceptEvent 5), .epoll (recvEvent 5 (registration 7).chunk), .epoll (acceptEvent 6),
   .epoll (recvEvent 6 (registration 8).chunk), .epoll (recvEvent 5 (msgTo 7 8).chunk),
   .epoll (closeEvent 6), .process allSent]

theorem null_dest_dereferenced :
    ∃ s, exec (tcpStep false listening) newTcpSrv destGone = some s ∧ ¬ Survives s := by
  have hrun : (exec (tcpStep false listening) newTcpSrv destGone).any TcpSrv.fault = true := by
    decide +kernel
  rcases (Option.any_eq_true _ _).mp hrun with ⟨s, hs, hfault⟩
  exact ⟨s, hs, fun h => Bool.noConfusion (h.fault.symm.trans hfault)⟩

def destThere : List TcpEvent :=
  [.epoll (acceptEvent 5), .epoll (recvEvent 5 (registration 7).chunk), .epoll (acceptEvent 6),
   .epoll (recvEvent 6 (registration 8).chunk), .epoll (recvEvent 5 (msgTo 7 8).chunk),
   .process allSent]

theorem survives_destThere :
    Always (tcpStep true listening) Survives newTcpSrv destThere := by
  obtain ⟨s, hs⟩ : ∃ s, exec (tcpStep true listening) newTcpSrv destThere = some s := by
    apply Option.isSome_iff_exists.mp
    decide +kernel
  exact (survives_iff_answerable true listening destThere s hs).mpr (by decide +kernel)

end SocketPractice.SocketTcp
