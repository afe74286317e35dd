import SocketPractice.Common.ListTable
import SocketPractice.SocketTcp.ServerEpoll

/-!
# The table of clients in memory (`client_info.c`, `server_socket.c`)

`cliInfoManager` is an intrusive list that the first call makes.  The functions of the
epoll thread are here those of the source on that list, with the addresses that
`malloc` returns as parameters, and each call they make is recorded together with the
list at the time of the call.  On a list that holds a table they do what the functions
on the table do, without touching memory that is not theirs.
-/

namespace SocketPractice.SocketTcp

open Lib.Bytes Lib.Links Common

/-! ## 1. The code -/

/-- `cliInfoManager`, with the nodes on it. -/
abbrev CliInfoTable := ListTable CliInfoNode

/-- A call, and the table at the time of the call. -/
abbrev Traced := SrvCall × CliInfoTable

def traced (calls : List SrvCall) (g : CliInfoTable) : List Traced := calls.map (·, g)

namespace CliInfoTable

def addToCliInfo (g : CliInfoTable) (list node : Addr) (fd : Int32) : Option CliInfoTable :=
  g.add list node { fd := fd, cliEndid := 0 }

/-- The loop ends with the node it unlinks, so the links of a freed node are not read. -/
def delFromCliInfoByFd (g : CliInfoTable) (list : Addr) (fd : Int32) :
    Option (CliInfoTable × List Traced × Int) := do
  let (g, pos) ← g.find list fun posCliInfo => posCliInfo.fd = fd
  match pos with
  | none => return (g, [], -1)
  | some pos =>
      let g ← g.remove pos
      return (g, [(.close fd, g)], 0)

def getOneCliInfoByFd (g : CliInfoTable) (list : Addr) (fd : Int32) :
    Option (CliInfoTable × Option Addr) :=
  g.find list fun posCliInfo => posCliInfo.fd = fd

def saveOneCliInfoByFd (g : CliInfoTable) (list : Addr) (fd : Int32) (msgBuf : MsgBuf) :
    Option (CliInfoTable × Int) := do
  let (g, pos) ← g.find list fun posCliInfo => posCliInfo.fd = fd
  match pos with
  | none => return (g, -1)
  | some pos =>
      let posCliInfo ← g.heap.val? pos
      let g ← g.setVal pos { posCliInfo with cliEndid := msgBuf.srcEndID }
      return (g, 0)

/-- The loop reads the list and leaves it as it is, so what it comes by is read first. -/
def sendMsgAllClient (g : CliInfoTable) (list : Addr) (send : Int32 → Int)
    (msgBuf txBuf : MsgBuf) : Option (CliInfoTable × MsgBuf × List Traced × Int) := do
  let (g, mgr) ← g.values list
  let (txBuf, calls, s32Ret) := SocketTcp.sendMsgAllClient send msgBuf mgr txBuf 0
  return (g, txBuf, traced calls g, s32Ret)

def sendInitInfoToCliByFd (g : CliInfoTable) (list : Addr) (send : Int32 → Int) (fd : Int32)
    (txBuf : MsgBuf) : Option (CliInfoTable × MsgBuf × List Traced × Int) := do
  let (g, pos) ← g.find list fun posCliInfo => posCliInfo.fd = fd
  match pos with
  | none => return (g, txBuf, [], -1)
  | some pos =>
      let posCliInfo ← g.heap.val? pos
      let txBuf := txMsg txBuf .SAVE_CLI_INFO posCliInfo.cliEndid
      return (g, txBuf, [(.sendInitInfo fd txBuf, g)], if send fd ≠ sizeofMsgBuf then -1 else 0)

end CliInfoTable

/-- The server with the table in memory. -/
structure TableSrv where
  cliInfoManager : CliInfoTable
  rxBuf : MsgBuf
  txBuf : MsgBuf

/-- What an event comes with: the answers of the system calls, and the addresses that
    `malloc` returns for the list and for a node. -/
structure TableAnswers extends Answers where
  list : Addr
  node : Addr

namespace TableSrv

def acceptNewClient (s : TableSrv) (k : TableAnswers) : Option (TableSrv × List Traced × Int) :=
  if k.accept = -1 then some (s, [(.accept k.accept, s.cliInfoManager)], -1)
  else do
    let g ← s.cliInfoManager.addToCliInfo k.list k.node k.accept
    return ({ s with cliInfoManager := g },
      [(.accept k.accept, s.cliInfoManager), (.addEpollByFd k.accept, g)], 0)

def broadcastAllClient (s : TableSrv) (k : TableAnswers) :
    Option (TableSrv × List Traced × Int) :=
  let rxBuf := s.rxBuf.clearMsg
  match k.read with
  | none => some ({ s with rxBuf := rxBuf }, [(.read none, s.cliInfoManager)], -1)
  | some typed => do
      let rxBuf := rxBuf.setMsg typed.bytes typed.le
      let (g, txBuf, trace, s32Ret) ←
        s.cliInfoManager.sendMsgAllClient k.list k.send rxBuf s.txBuf
      return ({ cliInfoManager := g, rxBuf := rxBuf, txBuf := txBuf },
        (.read (some typed), s.cliInfoManager) :: trace, s32Ret)

def clientMsgEnQueue (s : TableSrv) (fd : Int32) (k : TableAnswers) :
    Option (TableSrv × List Traced × Int) :=
  match k.recv with
  | .error => some (s, [(.recv fd k.recv, s.cliInfoManager)], -1)
  | .eof => do
      let (g, trace, _) ← s.cliInfoManager.delFromCliInfoByFd k.list fd
      return ({ s with cliInfoManager := g }, (.recv fd k.recv, s.cliInfoManager) :: trace, -1)
  | .data c =>
      let rxBuf := s.rxBuf.recv c
      if MsgBuf.msgType rxBuf = MsgType.SAVE_CLI_INFO.code then do
        let (g, _) ← s.cliInfoManager.saveOneCliInfoByFd k.list fd rxBuf
        let (g, txBuf, trace, _) ← g.sendInitInfoToCliByFd k.list k.send fd s.txBuf
        return ({ cliInfoManager := g, rxBuf := rxBuf, txBuf := txBuf },
          (.recv fd k.recv, s.cliInfoManager) :: trace, 0)
      else
        some ({ s with rxBuf := rxBuf }, [(.recv fd k.recv, s.cliInfoManager),
          (.enMsgLinkQueue fd rxBuf, s.cliInfoManager)], 0)

def processEventsByFd (serverFd : ServerFd) (s : TableSrv) (fd : Int32) (k : TableAnswers) :
    Option (TableSrv × List Traced × Int) :=
  if fd = serverFd.fd then do
    let (s, trace, _) ← s.acceptNewClient k
    return (s, trace, 0)
  else if fd = STDIN_FILENO then do
    let (s, trace, _) ← s.broadcastAllClient k
    return (s, trace, 0)
  else do
    let (g, cliInfo) ← s.cliInfoManager.getOneCliInfoByFd k.list fd
    let s := { s with cliInfoManager := g }
    if cliInfo.isSome then
      let (s, trace, _) ← s.clientMsgEnQueue fd k
      return (s, trace, 0)
    else return (s, [], -1)

end TableSrv

/-! ## 2. The table where a descriptor is found, and where it is not -/

section Table

variable {fd : Int32} {before after mgr : CliInfoManager} {v : CliInfoNode}

theorem delFromCliInfoByFd_append (hbefore : ∀ w ∈ before, w.fd ≠ fd) (hv : v.fd = fd) :
    delFromCliInfoByFd fd (before ++ v :: after) = (before ++ after, [.close fd], 0) := by
  induction before with
  | nil => simp [delFromCliInfoByFd, hv]
  | cons w before ih =>
      obtain ⟨hw, hbefore⟩ := List.forall_mem_cons.mp hbefore
      simp [delFromCliInfoByFd, hw, ih hbefore]

theorem delFromCliInfoByFd_of_forall (h : ∀ w ∈ mgr, w.fd ≠ fd) :
    delFromCliInfoByFd fd mgr = (mgr, [], -1) := by
  induction mgr with
  | nil => rfl
  | cons w mgr ih =>
      obtain ⟨hw, h⟩ := List.forall_mem_cons.mp h
      simp [delFromCliInfoByFd, hw, ih h]

theorem saveOneCliInfoByFd_append (msgBuf : MsgBuf) (hbefore : ∀ w ∈ before, w.fd ≠ fd)
    (hv : v.fd = fd) :
    saveOneCliInfoByFd fd msgBuf (before ++ v :: after) =
      (before ++ { v with cliEndid := msgBuf.srcEndID } :: after, 0) := by
  induction before with
  | nil => simp [saveOneCliInfoByFd, hv]
  | cons w before ih =>
      obtain ⟨hw, hbefore⟩ := List.forall_mem_cons.mp hbefore
      simp [saveOneCliInfoByFd, hw, ih hbefore]

theorem saveOneCliInfoByFd_of_forall (msgBuf : MsgBuf) (h : ∀ w ∈ mgr, w.fd ≠ fd) :
    saveOneCliInfoByFd fd msgBuf mgr = (mgr, -1) := by
  induction mgr with
  | nil => rfl
  | cons w mgr ih =>
      obtain ⟨hw, h⟩ := List.forall_mem_cons.mp h
      simp [saveOneCliInfoByFd, hw, ih h]

/-- The nodes of other descriptors stay what and where they are. -/
theorem filter_delFromCliInfoByFd (fd : Int32) (mgr : CliInfoManager) :
    (delFromCliInfoByFd fd mgr).1.filter (·.fd ≠ fd) = mgr.filter (·.fd ≠ fd) := by
  induction mgr with
  | nil => rfl
  | cons pos rest ih =>
      by_cases hpos : pos.fd = fd
      · simp [delFromCliInfoByFd, hpos]
      · simpa [delFromCliInfoByFd, hpos] using ih

theorem filter_saveOneCliInfoByFd (fd : Int32) (msgBuf : MsgBuf) (mgr : CliInfoManager) :
    (saveOneCliInfoByFd fd msgBuf mgr).1.filter (·.fd ≠ fd) = mgr.filter (·.fd ≠ fd) := by
  induction mgr with
  | nil => rfl
  | cons pos rest ih =>
      by_cases hpos : pos.fd = fd
      · simp [saveOneCliInfoByFd, hpos]
      · simpa [saveOneCliInfoByFd, hpos] using ih

end Table

/-! ## 3. The list holds the table -/

namespace CliInfoTable

variable {g : CliInfoTable} {mgr : CliInfoManager}

theorem delFromCliInfoByFd_spec (hg : g.Lists mgr) (list : Addr) (fd : Int32) :
    ∃ g', g.delFromCliInfoByFd list fd =
        some (g', traced (SocketTcp.delFromCliInfoByFd fd mgr).2.1 g',
          (SocketTcp.delFromCliInfoByFd fd mgr).2.2) ∧
      g'.Lists (SocketTcp.delFromCliInfoByFd fd mgr).1 := by
  obtain ⟨r, hr, hfound⟩ := hg.find list fun posCliInfo => posCliInfo.fd = fd
  cases r with
  | none =>
      have hall : ∀ w ∈ mgr, w.fd ≠ fd := by simpa using hfound
      rw [delFromCliInfoByFd_of_forall hall]
      exact ⟨g.init list, by simp [CliInfoTable.delFromCliInfoByFd, traced, hr], hg.init list⟩
  | some pos =>
      obtain ⟨before, v, after, rfl, hbefore, hv, hat⟩ := hfound
      obtain ⟨g', hremove, hlists⟩ := hat.remove
      rw [delFromCliInfoByFd_append (by simpa using hbefore) (by simpa using hv)]
      exact ⟨g', by simp [CliInfoTable.delFromCliInfoByFd, traced, hr, hremove], hlists⟩

theorem getOneCliInfoByFd_spec (hg : g.Lists mgr) (list : Addr) (fd : Int32) :
    ∃ cliInfo, g.getOneCliInfoByFd list fd = some (g.init list, cliInfo) ∧
      cliInfo.isSome = (SocketTcp.getOneCliInfoByFd fd mgr).isSome := by
  obtain ⟨r, hr, hfound⟩ := hg.find list fun posCliInfo => posCliInfo.fd = fd
  refine ⟨r, hr, ?_⟩
  cases r with
  | none =>
      have hnone : SocketTcp.getOneCliInfoByFd fd mgr = none := List.find?_eq_none.mpr
        fun v hv => by simpa using hfound v hv
      rw [hnone]
      rfl
  | some pos =>
      obtain ⟨before, v, after, rfl, -, hv, -⟩ := hfound
      symm
      rw [Option.isSome_some, isSome_getOneCliInfoByFd]
      exact List.mem_map.mpr ⟨v, by simp, by simpa using hv⟩

theorem saveOneCliInfoByFd_spec (hg : g.Lists mgr) (list : Addr) (fd : Int32) (msgBuf : MsgBuf) :
    ∃ g', g.saveOneCliInfoByFd list fd msgBuf =
        some (g', (SocketTcp.saveOneCliInfoByFd fd msgBuf mgr).2) ∧
      g'.Lists (SocketTcp.saveOneCliInfoByFd fd msgBuf mgr).1 := by
  obtain ⟨r, hr, hfound⟩ := hg.find list fun posCliInfo => posCliInfo.fd = fd
  cases r with
  | none =>
      have hall : ∀ w ∈ mgr, w.fd ≠ fd := by simpa using hfound
      rw [saveOneCliInfoByFd_of_forall msgBuf hall]
      exact ⟨g.init list, by simp [CliInfoTable.saveOneCliInfoByFd, hr], hg.init list⟩
  | some pos =>
      obtain ⟨before, v, after, rfl, hbefore, hv, hat⟩ := hfound
      obtain ⟨g', hset, hlists⟩ := hat.setVal { v with cliEndid := msgBuf.srcEndID }
      rw [saveOneCliInfoByFd_append msgBuf (by simpa using hbefore) (by simpa using hv)]
      exact ⟨g', by simp [CliInfoTable.saveOneCliInfoByFd, hr, hat.val, hset], hlists⟩

theorem sendMsgAllClient_spec (hg : g.Lists mgr) (list : Addr) (send : Int32 → Int)
    (msgBuf txBuf : MsgBuf) :
    let sent := SocketTcp.sendMsgAllClient send msgBuf mgr txBuf 0
    g.sendMsgAllClient list send msgBuf txBuf = some (g.init list, sent.1,
      traced sent.2.1 (g.init list), sent.2.2) := by
  simp [CliInfoTable.sendMsgAllClient, hg.values list]

theorem sendInitInfoToCliByFd_spec (hg : g.Lists mgr) (list : Addr) (send : Int32 → Int)
    (fd : Int32) (txBuf : MsgBuf) :
    let sent := SocketTcp.sendInitInfoToCliByFd send fd mgr txBuf
    g.sendInitInfoToCliByFd list send fd txBuf = some (g.init list, sent.1,
      traced sent.2.1 (g.init list), sent.2.2) := by
  obtain ⟨r, hr, hfound⟩ := hg.find list fun posCliInfo => posCliInfo.fd = fd
  cases r with
  | none =>
      have hnone : SocketTcp.getOneCliInfoByFd fd mgr = none := List.find?_eq_none.mpr
        fun v hv => by simpa using hfound v hv
      simp [CliInfoTable.sendInitInfoToCliByFd, SocketTcp.sendInitInfoToCliByFd, traced, hr,
        hnone]
  | some pos =>
      obtain ⟨before, v, after, rfl, hbefore, hv, hat⟩ := hfound
      have hsome : SocketTcp.getOneCliInfoByFd fd (before ++ v :: after) = some v :=
        Lib.Keyed.first_append (by simpa using hbefore) (by simpa using hv)
      simp [CliInfoTable.sendInitInfoToCliByFd, SocketTcp.sendInitInfoToCliByFd, traced, hr,
        hsome, hat.val]

end CliInfoTable

/-! ## 4. The handlers refine those on the table -/

/-- The list holds the table, and the buffers are the same. -/
def Refines (s : TableSrv) (r : SrvState) : Prop :=
  s.cliInfoManager.Lists r.cliInfoManager ∧ s.rxBuf = r.rxBuf ∧ s.txBuf = r.txBuf

/-- A handler comes to its end, with the calls and the result of the one on the table.
    A descriptor is closed when the list is already what the handler leaves. -/
def Handles (handled : Option (TableSrv × List Traced × Int))
    (spec : SrvState × List SrvCall × Int) : Prop :=
  ∃ s trace, handled = some (s, trace, spec.2.2) ∧ Refines s spec.1 ∧
    trace.map Prod.fst = spec.2.1 ∧
    ∀ fd g, (SrvCall.close fd, g) ∈ trace → g.Lists spec.1.cliInfoManager

@[simp] theorem map_fst_traced (calls : List SrvCall) (g : CliInfoTable) :
    (traced calls g).map Prod.fst = calls := by
  rw [traced, List.map_map]
  exact List.map_id calls

theorem lists_of_close_mem {call : SrvCall} {calls : List SrvCall} {g₀ g' : CliInfoTable}
    {mgr : CliInfoManager} (hcall : ∀ fd, call ≠ .close fd) (hg' : g'.Lists mgr) (fd : Int32)
    (g : CliInfoTable) (hmem : (SrvCall.close fd, g) ∈ (call, g₀) :: traced calls g') :
    g.Lists mgr := by
  rcases List.mem_cons.mp hmem with heq | hmem
  · exact absurd (Prod.mk.inj heq).1.symm (hcall fd)
  · obtain ⟨_, -, heq⟩ := List.mem_map.mp hmem
    obtain ⟨-, rfl⟩ := Prod.mk.inj heq
    exact hg'

namespace TableSrv

variable {s : TableSrv} {r : SrvState}

theorem acceptNewClient_handles (h : Refines s r) {k : TableAnswers}
    (hnode : s.cliInfoManager.heap k.node = none) (hne : k.node ≠ k.list) :
    Handles (s.acceptNewClient k) (SocketTcp.acceptNewClient r k.toAnswers) := by
  obtain ⟨hg, hrx, htx⟩ := h
  unfold TableSrv.acceptNewClient SocketTcp.acceptNewClient
  by_cases hacc : k.accept = -1
  · rw [if_pos hacc, if_pos hacc]
    exact ⟨s, _, rfl, ⟨hg, hrx, htx⟩, rfl, by simp⟩
  · obtain ⟨g', hadd, hg'⟩ := hg.add hnode hne { fd := k.accept, cliEndid := 0 }
    rw [if_neg hacc, if_neg hacc]
    exact ⟨{ s with cliInfoManager := g' }, _, by simp [CliInfoTable.addToCliInfo, hadd]; rfl,
      ⟨hg', hrx, htx⟩, rfl, by simp⟩

theorem broadcastAllClient_handles (h : Refines s r) (k : TableAnswers) :
    Handles (s.broadcastAllClient k) (SocketTcp.broadcastAllClient r k.toAnswers) := by
  obtain ⟨hg, hrx, htx⟩ := h
  unfold TableSrv.broadcastAllClient SocketTcp.broadcastAllClient
  cases hread : k.read with
  | none => exact ⟨_, _, rfl, ⟨hg, by simp [hrx], htx⟩, rfl, by simp⟩
  | some typed =>
      have hsent := CliInfoTable.sendMsgAllClient_spec hg k.list k.send
        (s.rxBuf.clearMsg.setMsg typed.bytes typed.le) s.txBuf
      simp only [hsent, ← hrx, ← htx]
      have hg' := hg.init k.list
      exact ⟨_, _, rfl, ⟨hg', rfl, rfl⟩, by simp, lists_of_close_mem (by simp) hg'⟩

theorem clientMsgEnQueue_handles (h : Refines s r) (fd : Int32) (k : TableAnswers) :
    Handles (s.clientMsgEnQueue fd k) (SocketTcp.clientMsgEnQueue r fd k.toAnswers) := by
  obtain ⟨hg, hrx, htx⟩ := h
  unfold TableSrv.clientMsgEnQueue SocketTcp.clientMsgEnQueue
  cases hrecv : k.recv with
  | error => exact ⟨s, _, rfl, ⟨hg, hrx, htx⟩, rfl, by simp⟩
  | eof =>
      obtain ⟨g', hdel, hg'⟩ := CliInfoTable.delFromCliInfoByFd_spec hg k.list fd
      simp only [hdel]
      exact ⟨_, _, rfl, ⟨hg', hrx, htx⟩, by simp, lists_of_close_mem (by simp) hg'⟩
  | data c =>
      simp only [← hrx]
      by_cases hsave : MsgBuf.msgType (s.rxBuf.recv c) = MsgType.SAVE_CLI_INFO.code
      · obtain ⟨g', hset, hg'⟩ := CliInfoTable.saveOneCliInfoByFd_spec hg k.list fd
          (s.rxBuf.recv c)
        have hsent := CliInfoTable.sendInitInfoToCliByFd_spec hg' k.list k.send fd s.txBuf
        have hg'' := hg'.init k.list
        simp only [← htx, if_pos hsave, hset, Option.bind_eq_bind, Option.bind_some, hsent]
        exact ⟨_, _, rfl, ⟨hg'', rfl, rfl⟩, by simp, lists_of_close_mem (by simp) hg''⟩
      · simp only [if_neg hsave]
        exact ⟨_, _, rfl, ⟨hg, rfl, htx⟩, rfl, by simp⟩

theorem processEventsByFd_handles (serverFd : ServerFd) (h : Refines s r) (fd : Int32)
    {k : TableAnswers} (hnode : s.cliInfoManager.heap k.node = none) (hne : k.node ≠ k.list) :
    Handles (s.processEventsByFd serverFd fd k)
      (SocketTcp.processEventsByFd serverFd r fd k.toAnswers) := by
  unfold TableSrv.processEventsByFd SocketTcp.processEventsByFd
  by_cases hserver : fd = serverFd.fd
  · rw [if_pos hserver, if_pos hserver]
    obtain ⟨s', trace, heq, href, htrace⟩ := acceptNewClient_handles h hnode hne
    exact ⟨s', trace, by simp [heq], href, htrace⟩
  · rw [if_neg hserver, if_neg hserver]
    by_cases hstdin : fd = STDIN_FILENO
    · rw [if_pos hstdin, if_pos hstdin]
      obtain ⟨s', trace, heq, href, htrace⟩ := broadcastAllClient_handles h k
      exact ⟨s', trace, by simp [heq], href, htrace⟩
    · rw [if_neg hstdin, if_neg hstdin]
      obtain ⟨hg, hrx, htx⟩ := h
      obtain ⟨cliInfo, hget, hsome⟩ := CliInfoTable.getOneCliInfoByFd_spec hg k.list fd
      have hinit : Refines { s with cliInfoManager := s.cliInfoManager.init k.list } r :=
        ⟨hg.init k.list, hrx, htx⟩
      by_cases hfound : (SocketTcp.getOneCliInfoByFd fd r.cliInfoManager).isSome
      · obtain ⟨s', trace, heq, href, htrace⟩ := clientMsgEnQueue_handles hinit fd k
        rw [if_pos hfound]
        rw [hfound] at hsome
        exact ⟨s', trace, by simp [hget, hsome, heq], href, htrace⟩
      · rw [if_neg hfound]
        rw [Bool.not_eq_true] at hfound
        rw [hfound] at hsome
        exact ⟨_, [], by simp [hget, hsome], hinit, rfl, by simp⟩

end TableSrv

end SocketPractice.SocketTcp
