import SocketPractice.SocketTcp.PreProcess

/-!
# The table of clients (`client_info.c`)

`cliInfoManager` lists the open connections, the latest first; the endid of a
connection is 0 until its client registers.  The loops over the list are recursions
on it.  A function that calls the system or the message queue also returns the
calls it makes, in their order.
-/

namespace SocketPractice.SocketTcp

open Lib.Bytes

/-! ## 1. The code -/

structure CliInfoNode where
  fd : Int32
  cliEndid : EndID
deriving DecidableEq, Repr

/-- The nodes of `cliInfoManager`, from the head of the list on. -/
abbrev CliInfoManager := List CliInfoNode

/-- What the server calls, with what the call returned where this is data. -/
inductive SrvCall where
  | accept (fd : Int32)
  | addEpollByFd (fd : Int32)
  | read (r : Option Typed)
  | recv (fd : Int32) (r : RecvRet sizeofMsgBuf)
  | close (fd : Int32)
  /-- `EnMsgLinkQueue`, called for a message received from `fd`. -/
  | enMsgLinkQueue (fd : Int32) (msgBuf : MsgBuf)
  /-- `send` in `SendMsgAllClient`. -/
  | sendMsg (fd : Int32) (msgBuf : MsgBuf)
  /-- `send` in `SendInitInfoToCliByFd`. -/
  | sendInitInfo (fd : Int32) (msgBuf : MsgBuf)
  /-- `write` and `send` in `ProcessMsg`. -/
  | write (fd : Int32) (bytes : List UInt8)
  | sendCliMsg (fd : Int32) (msgBuf : MsgBuf)
deriving DecidableEq

def addToCliInfo (fd : Int32) (mgr : CliInfoManager) : CliInfoManager :=
  { fd := fd, cliEndid := 0 } :: mgr

def delFromCliInfoByFd (fd : Int32) : CliInfoManager → CliInfoManager × List SrvCall × Int
  | [] => ([], [], -1)
  | pos :: rest =>
      if pos.fd ≠ fd then
        let (rest, calls, s32Ret) := delFromCliInfoByFd fd rest
        (pos :: rest, calls, s32Ret)
      else (rest, [.close fd], 0)

def getOneCliInfoByFd (fd : Int32) (mgr : CliInfoManager) : Option CliInfoNode :=
  mgr.find? fun pos => pos.fd = fd

def getOneCliInfoByEndID (cliEndid : EndID) (mgr : CliInfoManager) : Option CliInfoNode :=
  mgr.find? fun pos => pos.cliEndid = cliEndid

def saveOneCliInfoByFd (fd : Int32) (msgBuf : MsgBuf) : CliInfoManager → CliInfoManager × Int
  | [] => ([], -1)
  | pos :: rest =>
      if pos.fd ≠ fd then
        let (rest, s32Ret) := saveOneCliInfoByFd fd msgBuf rest
        (pos :: rest, s32Ret)
      else ({ pos with cliEndid := msgBuf.srcEndID } :: rest, 0)

/-- `none`: the node is `NULL`, and its endid is read all the same. -/
def getCliInfoErrStr (cliInfo : Option CliInfoNode) : Option String :=
  cliInfo.map fun node => toString node.cliEndid ++ "(endid)"

def txMsg (txBuf : MsgBuf) (msgType : MsgType) (destEndID : EndID) : MsgBuf :=
  ((txBuf.setMsgType msgType).setSrcEndID SERVER_ENDID).setDestEndID destEndID

/-- The loop of `SendMsgAllClient` from a node on; `send` is what the call returns
    for a descriptor. -/
def sendMsgAllClient (send : Int32 → Int) (msgBuf : MsgBuf) :
    CliInfoManager → MsgBuf → Int → MsgBuf × List SrvCall × Int
  | [], txBuf, s32Ret => (txBuf, [], s32Ret)
  | pos :: rest, txBuf, s32Ret =>
      let txBuf := (txMsg txBuf .PROCESS_MSG pos.cliEndid).setMsg msgBuf.msg
        (Nat.le_of_eq msgBuf.length_msg)
      let s32Ret := if send pos.fd ≠ sizeofMsgBuf then -1 else s32Ret
      let (txBuf', calls, s32Ret) := sendMsgAllClient send msgBuf rest txBuf s32Ret
      (txBuf', .sendMsg pos.fd txBuf :: calls, s32Ret)

def sendInitInfoToCliByFd (send : Int32 → Int) (fd : Int32) (mgr : CliInfoManager)
    (txBuf : MsgBuf) : MsgBuf × List SrvCall × Int :=
  match getOneCliInfoByFd fd mgr with
  | none => (txBuf, [], -1)
  | some pos =>
      let txBuf := txMsg txBuf .SAVE_CLI_INFO pos.cliEndid
      (txBuf, [.sendInitInfo fd txBuf], if send fd ≠ sizeofMsgBuf then -1 else 0)

/-! ## 2. The descriptors -/

def fds (mgr : CliInfoManager) : List Int32 := mgr.map CliInfoNode.fd

@[simp] theorem fds_addToCliInfo (fd : Int32) (mgr : CliInfoManager) :
    fds (addToCliInfo fd mgr) = fd :: fds mgr := rfl

@[simp] theorem fds_saveOneCliInfoByFd (fd : Int32) (msgBuf : MsgBuf) (mgr : CliInfoManager) :
    fds (saveOneCliInfoByFd fd msgBuf mgr).1 = fds mgr := by
  induction mgr with
  | nil => rfl
  | cons pos rest ih =>
      rw [saveOneCliInfoByFd]
      by_cases hfd : pos.fd ≠ fd
      · rw [if_pos hfd]
        exact congrArg (pos.fd :: ·) ih
      · rw [if_neg hfd]
        rfl

@[simp] theorem fds_delFromCliInfoByFd (fd : Int32) (mgr : CliInfoManager) :
    fds (delFromCliInfoByFd fd mgr).1 = (fds mgr).erase fd := by
  induction mgr with
  | nil => rfl
  | cons pos rest ih =>
      rw [delFromCliInfoByFd]
      by_cases hfd : pos.fd ≠ fd
      · rw [if_pos hfd, show fds (pos :: rest) = pos.fd :: fds rest from rfl,
          List.erase_cons_tail (by simpa using hfd)]
        exact congrArg (pos.fd :: ·) ih
      · rw [if_neg hfd, show fds (pos :: rest) = pos.fd :: fds rest from rfl,
          not_not.mp hfd, List.erase_cons_head]

theorem isSome_getOneCliInfoByFd (fd : Int32) (mgr : CliInfoManager) :
    (getOneCliInfoByFd fd mgr).isSome = true ↔ fd ∈ fds mgr := by
  rw [getOneCliInfoByFd, List.find?_isSome, fds, List.mem_map]
  simp only [decide_eq_true_eq]

/-- A removal closes the descriptor it removes, and makes no other call. -/
theorem delFromCliInfoByFd_calls (fd : Int32) (mgr : CliInfoManager) :
    (delFromCliInfoByFd fd mgr).2.1 = if fd ∈ fds mgr then [.close fd] else [] := by
  induction mgr with
  | nil => rfl
  | cons pos rest ih =>
      rw [delFromCliInfoByFd]
      by_cases hfd : pos.fd ≠ fd
      · rw [if_pos hfd]
        have hmem : fd ∈ fds (pos :: rest) ↔ fd ∈ fds rest := by
          rw [show fds (pos :: rest) = pos.fd :: fds rest from rfl, List.mem_cons]
          exact or_iff_right (Ne.symm hfd)
        simp only [hmem]
        exact ih
      · rw [if_neg hfd, if_pos]
        rw [show fds (pos :: rest) = pos.fd :: fds rest from rfl, not_not.mp hfd]
        exact List.mem_cons_self

/-! ## 3. Broadcasts and acknowledgements -/

theorem mem_sendMsgAllClient {send : Int32 → Int} {msgBuf : MsgBuf} {mgr : CliInfoManager}
    {txBuf : MsgBuf} {s32Ret : Int} {call : SrvCall}
    (h : call ∈ (sendMsgAllClient send msgBuf mgr txBuf s32Ret).2.1) :
    ∃ fd m, call = .sendMsg fd m := by
  induction mgr generalizing txBuf s32Ret with
  | nil => cases h
  | cons pos rest ih =>
      rcases List.mem_cons.mp h with rfl | h
      · exact ⟨_, _, rfl⟩
      · exact ih h

/-- A broadcast leaves its message in `TX_BUF` if there is a client. -/
theorem sendMsgAllClient_msg (send : Int32 → Int) (msgBuf : MsgBuf) (mgr : CliInfoManager)
    (txBuf : MsgBuf) (s32Ret : Int) :
    (sendMsgAllClient send msgBuf mgr txBuf s32Ret).1.msg =
      if mgr = [] then txBuf.msg else msgBuf.msg := by
  induction mgr generalizing txBuf s32Ret with
  | nil => rfl
  | cons pos rest ih =>
      rw [if_neg (List.cons_ne_nil _ _)]
      apply (ih _ _).trans
      by_cases hrest : rest = []
      · rw [if_pos hrest, MsgBuf.msg_setMsg_full _ msgBuf.length_msg]
      · rw [if_neg hrest]

@[simp] theorem msg_txMsg (txBuf : MsgBuf) (msgType : MsgType) (destEndID : EndID) :
    (txMsg txBuf msgType destEndID).msg = txBuf.msg := by
  simp [txMsg]

/-- The acknowledgement carries the message that `TX_BUF` held before. -/
theorem sendInitInfoToCliByFd_calls (send : Int32 → Int) {fd : Int32} {mgr : CliInfoManager}
    (txBuf : MsgBuf) (h : fd ∈ fds mgr) :
    ∃ m, (sendInitInfoToCliByFd send fd mgr txBuf).2.1 = [.sendInitInfo fd m] ∧
      m.msg = txBuf.msg := by
  rw [← isSome_getOneCliInfoByFd] at h
  rcases Option.isSome_iff_exists.mp h with ⟨pos, hpos⟩
  rw [sendInitInfoToCliByFd, hpos]
  exact ⟨_, rfl, msg_txMsg _ _ _⟩

end SocketPractice.SocketTcp
