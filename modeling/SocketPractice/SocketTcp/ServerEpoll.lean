import SocketPractice.Lib.Runs
import SocketPractice.SocketTcp.ClientInfo

/-!
# The epoll thread of the server (`server_epoll.c`, `server_socket.c`)

One step is one call of `ProcessEventsByFd`.  Its label carries the descriptor that
`epoll_wait` reported and the answers of the system calls the handler makes.  Which
connections are open after a step, and what is received from each, depends on the
descriptors in the table and on the label, and on nothing else in the state.
-/

namespace SocketPractice.SocketTcp

open Lib.Bytes Lib.Runs

/-! ## 1. The code -/

def STDIN_FILENO : Int32 := 0

/-- What `socket` returned in `InitServerSock`; standard input is open, so it is not 0. -/
structure ServerFd where
  fd : Int32
  ne_stdin : fd ≠ STDIN_FILENO

/-- What the next call of each kind returns. -/
structure Answers where
  accept : Int32
  read : Option Typed
  recv : RecvRet sizeofMsgBuf
  send : Int32 → Int

structure SrvState where
  cliInfoManager : CliInfoManager
  rxBuf : MsgBuf
  txBuf : MsgBuf

def acceptNewClient (s : SrvState) (k : Answers) : SrvState × List SrvCall × Int :=
  if k.accept = -1 then (s, [.accept k.accept], -1)
  else
    ({ s with cliInfoManager := addToCliInfo k.accept s.cliInfoManager },
      [.accept k.accept, .addEpollByFd k.accept], 0)

def broadcastAllClient (s : SrvState) (k : Answers) : SrvState × List SrvCall × Int :=
  let rxBuf := s.rxBuf.clearMsg
  match k.read with
  | none => ({ s with rxBuf := rxBuf }, [.read none], -1)
  | some typed =>
      let rxBuf := rxBuf.setMsg typed.bytes typed.le
      let (txBuf, calls, s32Ret) := sendMsgAllClient k.send rxBuf s.cliInfoManager s.txBuf 0
      ({ s with rxBuf := rxBuf, txBuf := txBuf }, .read (some typed) :: calls, s32Ret)

def clientMsgEnQueue (s : SrvState) (fd : Int32) (k : Answers) :
    SrvState × List SrvCall × Int :=
  match k.recv with
  | .error => (s, [.recv fd k.recv], -1)
  | .eof =>
      let (mgr, calls, _) := delFromCliInfoByFd fd s.cliInfoManager
      ({ s with cliInfoManager := mgr }, .recv fd k.recv :: calls, -1)
  | .data c =>
      let rxBuf := s.rxBuf.recv c
      if MsgBuf.msgType rxBuf = MsgType.SAVE_CLI_INFO.code then
        let (mgr, _) := saveOneCliInfoByFd fd rxBuf s.cliInfoManager
        let (txBuf, calls, _) := sendInitInfoToCliByFd k.send fd mgr s.txBuf
        ({ cliInfoManager := mgr, rxBuf := rxBuf, txBuf := txBuf }, .recv fd k.recv :: calls, 0)
      else
        ({ s with rxBuf := rxBuf }, [.recv fd k.recv, .enMsgLinkQueue fd rxBuf], 0)

def processEventsByFd (serverFd : ServerFd) (s : SrvState) (fd : Int32) (k : Answers) :
    SrvState × List SrvCall × Int :=
  if fd = serverFd.fd then
    let (s, calls, _) := acceptNewClient s k
    (s, calls, 0)
  else if fd = STDIN_FILENO then
    let (s, calls, _) := broadcastAllClient s k
    (s, calls, 0)
  else if (getOneCliInfoByFd fd s.cliInfoManager).isSome then
    let (s, calls, _) := clientMsgEnQueue s fd k
    (s, calls, 0)
  else (s, [], -1)

/-! ## 2. Runs -/

structure SrvEvent where
  fd : Int32
  answers : Answers

/-- The server and all the calls it has made. -/
structure SrvRun where
  srv : SrvState
  calls : List SrvCall

/-- `accept` hands out no descriptor that is open. -/
def Possible (serverFd : ServerFd) (s : SrvState) (e : SrvEvent) : Prop :=
  e.fd = serverFd.fd → e.answers.accept ≠ STDIN_FILENO ∧ e.answers.accept ≠ serverFd.fd ∧
    e.answers.accept ∉ fds s.cliInfoManager

instance (serverFd : ServerFd) (s : SrvState) (e : SrvEvent) :
    Decidable (Possible serverFd s e) := by
  unfold Possible
  infer_instance

def SrvRun.handle (serverFd : ServerFd) (r : SrvRun) (e : SrvEvent) : SrvRun :=
  let handled := processEventsByFd serverFd r.srv e.fd e.answers
  { srv := handled.1, calls := r.calls ++ handled.2.1 }

def srvStep (serverFd : ServerFd) (r : SrvRun) (e : SrvEvent) : Option SrvRun :=
  if Possible serverFd r.srv e then some (r.handle serverFd e) else none

/-- The table is empty and the buffers are those of `calloc`. -/
def newSrv : SrvState :=
  { cliInfoManager := [], rxBuf := Buf.zero sizeofMsgBuf, txBuf := Buf.zero sizeofMsgBuf }

def newRun : SrvRun := { srv := newSrv, calls := [] }

theorem srvStep_eq_some {serverFd : ServerFd} {r t : SrvRun} {e : SrvEvent} :
    srvStep serverFd r e = some t ↔ Possible serverFd r.srv e ∧ r.handle serverFd e = t := by
  rw [srvStep, Option.ite_none_right_eq_some, Option.some.injEq]

theorem exec_calls {serverFd : ServerFd} {r t : SrvRun} {evs : List SrvEvent}
    (hrun : exec (srvStep serverFd) r evs = some t) : ∃ rest, t.calls = r.calls ++ rest := by
  refine exec_invariant (I := fun t => ∃ rest, t.calls = r.calls ++ rest) ?_
    ⟨[], (List.append_nil _).symm⟩ hrun
  rintro s e t ⟨rest, hrest⟩ hstep
  rcases srvStep_eq_some.mp hstep with ⟨-, rfl⟩
  exact ⟨rest ++ _, by rw [SrvRun.handle, hrest, List.append_assoc]⟩

/-- The events that `ProcessEventsByFd` passes to `ClientMsgEnQueue`. -/
def IsClient (serverFd : ServerFd) (s : SrvState) (fd : Int32) : Prop :=
  fd ≠ serverFd.fd ∧ fd ≠ STDIN_FILENO ∧ fd ∈ fds s.cliInfoManager

theorem processEventsByFd_client {serverFd : ServerFd} {s : SrvState} {fd : Int32}
    (h : IsClient serverFd s fd) (k : Answers) :
    processEventsByFd serverFd s fd k =
      ((clientMsgEnQueue s fd k).1, (clientMsgEnQueue s fd k).2.1, 0) := by
  rw [processEventsByFd, if_neg h.1, if_neg h.2.1,
    if_pos ((isSome_getOneCliInfoByFd _ _).mpr h.2.2)]

/-! ## 3. The open connections -/

/-- Which connections are open after an event, from those open before. -/
def openAfter (serverFd : ServerFd) (opened : List Int32) (e : SrvEvent) : List Int32 :=
  if e.fd = serverFd.fd then
    if e.answers.accept = -1 then opened else e.answers.accept :: opened
  else if e.fd = STDIN_FILENO then opened
  else if e.answers.recv = .eof then opened.erase e.fd
  else opened

theorem fds_clientMsgEnQueue (s : SrvState) (fd : Int32) (k : Answers) :
    fds (clientMsgEnQueue s fd k).1.cliInfoManager =
      if k.recv = .eof then (fds s.cliInfoManager).erase fd else fds s.cliInfoManager := by
  unfold clientMsgEnQueue
  cases hrecv : k.recv with
  | error => rfl
  | eof => exact fds_delFromCliInfoByFd fd s.cliInfoManager
  | data c =>
      rw [if_neg (by rintro ⟨⟩)]
      by_cases hsave : MsgBuf.msgType (s.rxBuf.recv c) = MsgType.SAVE_CLI_INFO.code
      · simp only [if_pos hsave]
        exact fds_saveOneCliInfoByFd fd _ s.cliInfoManager
      · simp only [if_neg hsave]

theorem fds_processEventsByFd (serverFd : ServerFd) (s : SrvState) (e : SrvEvent) :
    fds (processEventsByFd serverFd s e.fd e.answers).1.cliInfoManager =
      openAfter serverFd (fds s.cliInfoManager) e := by
  unfold processEventsByFd openAfter
  by_cases hserver : e.fd = serverFd.fd
  · rw [if_pos hserver, if_pos hserver]
    by_cases hacc : e.answers.accept = -1 <;> simp [acceptNewClient, hacc]
  · rw [if_neg hserver, if_neg hserver]
    by_cases hstdin : e.fd = STDIN_FILENO
    · rw [if_pos hstdin, if_pos hstdin]
      cases hread : e.answers.read <;> simp [broadcastAllClient, hread]
    · rw [if_neg hstdin, if_neg hstdin]
      by_cases hopen : e.fd ∈ fds s.cliInfoManager
      · rw [if_pos ((isSome_getOneCliInfoByFd _ _).mpr hopen)]
        exact fds_clientMsgEnQueue s e.fd e.answers
      · rw [if_neg (mt (isSome_getOneCliInfoByFd _ _).mp hopen), List.erase_of_not_mem hopen,
          ite_self]

/-! ## 4. What a connection sees -/

/-- What happens to a connection from its side: it is accepted, and the server
    receives from it. -/
inductive CliInput where
  | accepted
  | received (r : RecvRet sizeofMsgBuf)
deriving DecidableEq

def CliInput.ofCall (fd : Int32) : SrvCall → Option CliInput
  | .accept fd' => if fd' = fd then some .accepted else none
  | .recv fd' r => if fd' = fd then some (.received r) else none
  | _ => none

/-- The accept and the receives of `fd`. -/
def inputs (fd : Int32) (calls : List SrvCall) : List CliInput :=
  calls.filterMap (CliInput.ofCall fd)

/-- The messages that `ClientMsgEnQueue(fd)` passed to the queue. -/
def enqueued (fd : Int32) (calls : List SrvCall) : List MsgBuf :=
  calls.filterMap fun
    | .enMsgLinkQueue fd' msgBuf => if fd' = fd then some msgBuf else none
    | _ => none

/-- The acknowledgements that `SendInitInfoToCliByFd(fd)` sent. -/
def acked (fd : Int32) (calls : List SrvCall) : List MsgBuf :=
  calls.filterMap fun
    | .sendInitInfo fd' msgBuf => if fd' = fd then some msgBuf else none
    | _ => none

@[simp] theorem inputs_append (fd : Int32) (as bs : List SrvCall) :
    inputs fd (as ++ bs) = inputs fd as ++ inputs fd bs := List.filterMap_append

@[simp] theorem enqueued_append (fd : Int32) (as bs : List SrvCall) :
    enqueued fd (as ++ bs) = enqueued fd as ++ enqueued fd bs := List.filterMap_append

@[simp] theorem acked_append (fd : Int32) (as bs : List SrvCall) :
    acked fd (as ++ bs) = acked fd as ++ acked fd bs := List.filterMap_append

theorem mem_broadcastAllClient {s : SrvState} {k : Answers} {call : SrvCall}
    (hcall : call ∈ (broadcastAllClient s k).2.1) :
    (∃ r, call = .read r) ∨ ∃ fd m, call = .sendMsg fd m := by
  unfold broadcastAllClient at hcall
  split at hcall
  · exact Or.inl ⟨_, List.mem_singleton.mp hcall⟩
  · rcases List.mem_cons.mp hcall with rfl | hcall
    · exact Or.inl ⟨_, rfl⟩
    · exact Or.inr (mem_sendMsgAllClient hcall)

/-- A broadcast is nothing to the connections' own records. -/
theorem broadcastAllClient_calls (s : SrvState) (k : Answers) (fd : Int32) :
    inputs fd (broadcastAllClient s k).2.1 = [] ∧ enqueued fd (broadcastAllClient s k).2.1 = [] ∧
      acked fd (broadcastAllClient s k).2.1 = [] := by
  refine ⟨List.filterMap_eq_nil_iff.mpr ?_, List.filterMap_eq_nil_iff.mpr ?_,
    List.filterMap_eq_nil_iff.mpr ?_⟩
  all_goals
    intro call hcall
    rcases mem_broadcastAllClient hcall with ⟨_, rfl⟩ | ⟨_, _, rfl⟩ <;> rfl

/-- A full line ends up in `RX_BUF`, behind the old header, and if there is a client
    in `TX_BUF`. -/
theorem broadcastAllClient_full {s : SrvState} {k : Answers} {typed : Typed}
    (hread : k.read = some typed) (hfull : typed.bytes.length = MAX_MSG_LEN) :
    (broadcastAllClient s k).1.rxBuf.bytes.take 4 = s.rxBuf.bytes.take 4 ∧
      (broadcastAllClient s k).1.rxBuf.msg = typed.bytes ∧
      (s.cliInfoManager ≠ [] → (broadcastAllClient s k).1.txBuf.msg = typed.bytes) := by
  have hmsg : (s.rxBuf.clearMsg.setMsg typed.bytes typed.le).msg = typed.bytes :=
    MsgBuf.msg_setMsg_full _ hfull
  simp only [broadcastAllClient, hread]
  refine ⟨?_, hmsg, fun hne => ?_⟩
  · rw [MsgBuf.take_setMsg _ _ (by decide), MsgBuf.clearMsg, MsgBuf.take_setMsg _ _ (by decide)]
  · rw [sendMsgAllClient_msg, if_neg hne, hmsg]

/-- The calls of `ClientMsgEnQueue`: the receive, and after it at most one close, one
    enqueueing or one acknowledgement. -/
theorem clientMsgEnQueue_calls {s : SrvState} {fd : Int32} (k : Answers)
    (hopen : fd ∈ fds s.cliInfoManager) :
    ∃ call, (clientMsgEnQueue s fd k).2.1 = .recv fd k.recv :: call.toList ∧
      match k.recv with
      | .error => call = none
      | .eof => call = some (.close fd)
      | .data c =>
          if MsgBuf.msgType (s.rxBuf.recv c) = MsgType.SAVE_CLI_INFO.code then
            ∃ m, call = some (.sendInitInfo fd m) ∧ m.msg = s.txBuf.msg
          else call = some (.enMsgLinkQueue fd (s.rxBuf.recv c)) := by
  unfold clientMsgEnQueue
  cases hrecv : k.recv with
  | error => exact ⟨none, rfl, rfl⟩
  | eof =>
      refine ⟨some (.close fd), ?_, rfl⟩
      simp [delFromCliInfoByFd_calls, hopen]
  | data c =>
      by_cases hsave : MsgBuf.msgType (s.rxBuf.recv c) = MsgType.SAVE_CLI_INFO.code
      · have hmem : fd ∈ fds (saveOneCliInfoByFd fd (s.rxBuf.recv c) s.cliInfoManager).1 := by
          rw [fds_saveOneCliInfoByFd]
          exact hopen
        rcases sendInitInfoToCliByFd_calls k.send s.txBuf hmem with ⟨m, hcalls, hm⟩
        refine ⟨some (.sendInitInfo fd m), ?_, ?_⟩
        · simp [hsave, hcalls]
        · simp only [if_pos hsave]
          exact ⟨m, rfl, hm⟩
      · refine ⟨some (.enMsgLinkQueue fd (s.rxBuf.recv c)), ?_, ?_⟩
        · simp [hsave]
        · simp only [if_neg hsave]

/-- What an event makes `fd` see, from the connections that are open. -/
def inputsOf (serverFd : ServerFd) (opened : List Int32) (e : SrvEvent) (fd : Int32) :
    List CliInput :=
  if e.fd = serverFd.fd then
    if e.answers.accept = fd then [.accepted] else []
  else if e.fd = STDIN_FILENO then []
  else if e.fd ∈ opened ∧ e.fd = fd then [.received e.answers.recv]
  else []

theorem inputs_clientMsgEnQueue {s : SrvState} {fd : Int32} (k : Answers) (fd' : Int32)
    (hopen : fd ∈ fds s.cliInfoManager) :
    inputs fd' (clientMsgEnQueue s fd k).2.1 = if fd = fd' then [.received k.recv] else [] := by
  rcases clientMsgEnQueue_calls k hopen with ⟨call, hcalls, hcall⟩
  have hrest : inputs fd' call.toList = [] := by
    split at hcall
    · rw [hcall]
      rfl
    · rw [hcall]
      rfl
    · split at hcall
      · obtain ⟨m, rfl, -⟩ := hcall
        rfl
      · rw [hcall]
        rfl
  rw [hcalls, inputs, List.filterMap_cons]
  by_cases hfd : fd = fd'
  · simp only [CliInput.ofCall, if_pos hfd]
    exact congrArg _ hrest
  · simp only [CliInput.ofCall, if_neg hfd]
    exact hrest

theorem inputs_processEventsByFd (serverFd : ServerFd) (s : SrvState) (e : SrvEvent) (fd : Int32) :
    inputs fd (processEventsByFd serverFd s e.fd e.answers).2.1 =
      inputsOf serverFd (fds s.cliInfoManager) e fd := by
  unfold processEventsByFd inputsOf
  by_cases hserver : e.fd = serverFd.fd
  · rw [if_pos hserver, if_pos hserver]
    by_cases hacc : e.answers.accept = -1 <;> by_cases hfd : e.answers.accept = fd <;>
      simp_all [acceptNewClient, inputs, CliInput.ofCall]
  · rw [if_neg hserver, if_neg hserver]
    by_cases hstdin : e.fd = STDIN_FILENO
    · rw [if_pos hstdin, if_pos hstdin]
      exact (broadcastAllClient_calls s e.answers fd).1
    · rw [if_neg hstdin, if_neg hstdin]
      by_cases hopen : e.fd ∈ fds s.cliInfoManager
      · rw [if_pos ((isSome_getOneCliInfoByFd _ _).mpr hopen)]
        simp only [hopen, true_and]
        exact inputs_clientMsgEnQueue e.answers fd hopen
      · rw [if_neg (mt (isSome_getOneCliInfoByFd _ _).mp hopen)]
        simp [hopen, inputs]

/-! ## 5. Some events -/

def listening : ServerFd := ⟨3, by decide⟩

def acceptEvent (fd : Int32) : SrvEvent :=
  { fd := listening.fd
    answers := { accept := fd, read := none, recv := .error, send := fun _ => sizeofMsgBuf } }

def recvEvent (fd : Int32) (c : Chunk sizeofMsgBuf) : SrvEvent :=
  { fd := fd
    answers := { accept := -1, read := none, recv := .data c, send := fun _ => sizeofMsgBuf } }

def closeEvent (fd : Int32) : SrvEvent :=
  { fd := fd
    answers := { accept := -1, read := none, recv := .eof, send := fun _ => sizeofMsgBuf } }

end SocketPractice.SocketTcp
