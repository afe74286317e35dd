import SocketPractice.SocketTcp.CliInfoManager

/-!
# The registry of open connections

Events come in any order, and a descriptor that was closed may be handed out again.
The kernel's open descriptors are read off the calls: `accept` opens what it returns
and `close` closes it.  They are then those in the table, in the same order, since the
server makes the two changes together: a node for each descriptor that it accepts, and
a `close` for each node that it removes.
-/

namespace SocketPractice.SocketTcp

open Lib.Bytes Lib.Links Lib.Runs Common

/-! ## 1. Runs -/

/-- What a call does to the open descriptors of clients. -/
def descriptors (opened : List Int32) : SrvCall → List Int32
  | .accept fd => if fd = -1 then opened else fd :: opened
  | .close fd => opened.erase fd
  | _ => opened

/-- The descriptors that were accepted and are not closed. -/
def openFds (calls : List SrvCall) : List Int32 := calls.foldl descriptors []

structure RegistryEvent where
  fd : Int32
  answers : TableAnswers

/-- The server with the calls it made, and whether it touched memory that is not
    allocated. -/
structure RegistryRun where
  srv : TableSrv
  trace : List Traced
  faulted : Bool

def RegistryRun.calls (r : RegistryRun) : List SrvCall := r.trace.map Prod.fst

/-- `malloc` returns what is not in use, and `accept` no descriptor that is open. -/
def RegistryRun.Enabled (serverFd : ServerFd) (r : RegistryRun) (e : RegistryEvent) : Prop :=
  r.faulted = false ∧ r.srv.cliInfoManager.heap e.answers.list = none ∧
    r.srv.cliInfoManager.heap e.answers.node = none ∧ e.answers.node ≠ e.answers.list ∧
    (e.fd = serverFd.fd → e.answers.accept = -1 ∨ e.answers.accept ∉ openFds r.calls ∧
      e.answers.accept ≠ serverFd.fd ∧ e.answers.accept ≠ STDIN_FILENO)

instance (serverFd : ServerFd) (r : RegistryRun) (e : RegistryEvent) :
    Decidable (r.Enabled serverFd e) := by
  unfold RegistryRun.Enabled
  infer_instance

def registryStep (serverFd : ServerFd) (r : RegistryRun) (e : RegistryEvent) :
    Option RegistryRun :=
  if r.Enabled serverFd e then
    match r.srv.processEventsByFd serverFd e.fd e.answers with
    | some (srv, trace, _) => some { srv := srv, trace := r.trace ++ trace, faulted := false }
    | none => some { r with faulted := true }
  else none

/-- No list is made yet, and the buffers are those of `calloc`. -/
def newRegistryRun : RegistryRun :=
  { srv := { cliInfoManager := ListTable.empty, rxBuf := newSrv.rxBuf, txBuf := newSrv.txBuf }
    trace := [], faulted := false }

/-- What the registry is for: there is one node for each open descriptor and no other
    node; `close` is called for an open descriptor, when the list has no node of it any
    more; and every descriptor that was accepted is closed once or open. -/
structure IsRegistry (r : RegistryRun) : Prop where
  not_faulted : r.faulted = false
  one_node : ∃ mgr, r.srv.cliInfoManager.Lists mgr ∧
    ∀ fd, (fds mgr).count fd = if fd ∈ openFds r.calls then 1 else 0
  closed_open : ∀ pre fd g post, r.trace = pre ++ (.close fd, g) :: post →
    fd ∈ openFds (pre.map Prod.fst) ∧ ∃ mgr, g.Lists mgr ∧ fd ∉ fds mgr
  closed_once : ∀ fd, fd ≠ -1 → r.calls.count (.accept fd) =
    r.calls.count (.close fd) + if fd ∈ openFds r.calls then 1 else 0

/-- The descriptor that an event is about: that of the new client, or its own. -/
def subject (serverFd : ServerFd) (e : RegistryEvent) : Int32 :=
  if e.fd = serverFd.fd then e.answers.accept else e.fd

/-- An event leaves the nodes of all other clients what and where they are. -/
def KeepsOthers (serverFd : ServerFd) (r : RegistryRun) (e : RegistryEvent) : Prop :=
  ∀ r' mgr mgr', registryStep serverFd r e = some r' → r.srv.cliInfoManager.Lists mgr →
    r'.srv.cliInfoManager.Lists mgr' →
    mgr'.filter (·.fd ≠ subject serverFd e) = mgr.filter (·.fd ≠ subject serverFd e)

/-- When the client behind an open descriptor has shut down, the event takes its node off the
    list and closes the descriptor. -/
def ClosesEnded (serverFd : ServerFd) (r : RegistryRun) (e : RegistryEvent) : Prop :=
  ∀ r' mgr', registryStep serverFd r e = some r' → r'.srv.cliInfoManager.Lists mgr' →
    e.fd ≠ serverFd.fd → e.fd ≠ STDIN_FILENO → e.fd ∈ openFds r.calls → e.answers.recv = .eof →
    r'.calls = r.calls ++ [.recv e.fd .eof, .close e.fd] ∧ e.fd ∉ fds mgr'

/-! ## 2. The calls of an event -/

/-- The calls that neither open nor close a descriptor. -/
def Neutral (call : SrvCall) : Prop := ∀ fd, call ≠ .accept fd ∧ call ≠ .close fd

theorem foldl_descriptors_of_neutral {calls : List SrvCall} (h : ∀ call ∈ calls, Neutral call)
    (opened : List Int32) : calls.foldl descriptors opened = opened := by
  induction calls with
  | nil => rfl
  | cons call calls ih =>
      obtain ⟨hcall, h⟩ := List.forall_mem_cons.mp h
      have hkeep : descriptors opened call = opened := by
        cases call with
        | accept fd => exact absurd rfl (hcall fd).1
        | close fd => exact absurd rfl (hcall fd).2
        | _ => rfl
      rw [List.foldl_cons, hkeep]
      exact ih h

/-- An event accepts a connection, or ends one, or does neither. -/
theorem processEventsByFd_calls (serverFd : ServerFd) (s : SrvState) (fd : Int32) (k : Answers) :
    (fd = serverFd.fd ∧ ∃ rest, (processEventsByFd serverFd s fd k).2.1 =
        .accept k.accept :: rest ∧ ∀ call ∈ rest, Neutral call) ∨
      (IsClient serverFd s fd ∧ k.recv = .eof ∧
        (processEventsByFd serverFd s fd k).2.1 = [.recv fd .eof, .close fd]) ∨
      (fd ≠ serverFd.fd ∧ ¬ (IsClient serverFd s fd ∧ k.recv = .eof) ∧
        ∀ call ∈ (processEventsByFd serverFd s fd k).2.1, Neutral call) := by
  by_cases hserver : fd = serverFd.fd
  · left
    refine ⟨hserver, ?_⟩
    rw [processEventsByFd, if_pos hserver]
    by_cases hacc : k.accept = -1
    · exact ⟨[], by simp [acceptNewClient, hacc], by simp⟩
    · exact ⟨[.addEpollByFd k.accept], by simp [acceptNewClient, hacc], by simp [Neutral]⟩
  · right
    by_cases hclient : IsClient serverFd s fd
    · rw [processEventsByFd_client hclient]
      obtain ⟨call, hcalls, hcall⟩ := clientMsgEnQueue_calls k hclient.2.2
      by_cases heof : k.recv = .eof
      · left
        rw [heof] at hcall hcalls
        simp only at hcall
        exact ⟨hclient, heof, by simp [hcalls, hcall]⟩
      · right
        refine ⟨hserver, fun h => heof h.2, ?_⟩
        simp only [hcalls]
        split at hcall
        · simp [hcall, Neutral]
        · contradiction
        · split at hcall
          · obtain ⟨m, rfl, -⟩ := hcall
            simp [Neutral]
          · simp [hcall, Neutral]
    · right
      refine ⟨hserver, fun h => hclient h.1, ?_⟩
      rw [processEventsByFd, if_neg hserver]
      by_cases hstdin : fd = STDIN_FILENO
      · rw [if_pos hstdin]
        intro call hcall fd'
        rcases mem_broadcastAllClient hcall with ⟨_, rfl⟩ | ⟨_, _, rfl⟩ <;> simp
      · rw [if_neg hstdin, if_neg]
        · simp
        · rw [isSome_getOneCliInfoByFd]
          exact fun hopen => hclient ⟨hserver, hstdin, hopen⟩

/-- An event changes the open descriptors as it changes the table. -/
theorem descriptors_processEventsByFd (serverFd : ServerFd) (s : SrvState) (fd : Int32)
    (k : Answers) :
    (processEventsByFd serverFd s fd k).2.1.foldl descriptors (fds s.cliInfoManager) =
      fds (processEventsByFd serverFd s fd k).1.cliInfoManager := by
  have hafter := fds_processEventsByFd serverFd s ⟨fd, k⟩
  simp only [openAfter] at hafter
  rw [hafter]
  rcases processEventsByFd_calls serverFd s fd k with ⟨hserver, rest, hcalls, hrest⟩ |
    ⟨⟨hserver, hstdin, -⟩, heof, hcalls⟩ | ⟨hserver, hopen, hcalls⟩
  · rw [hcalls, List.foldl_cons, foldl_descriptors_of_neutral hrest, if_pos hserver]
    rfl
  · rw [hcalls, if_neg hserver, if_neg hstdin, if_pos heof]
    rfl
  · rw [foldl_descriptors_of_neutral hcalls, if_neg hserver]
    by_cases hstdin : fd = STDIN_FILENO
    · rw [if_pos hstdin]
    · rw [if_neg hstdin]
      by_cases heof : k.recv = .eof
      · rw [if_pos heof, List.erase_of_not_mem]
        exact fun hmem => hopen ⟨⟨hserver, hstdin, hmem⟩, heof⟩
      · rw [if_neg heof]

/-- A handler closes the descriptor that it removes from the table, and no other. -/
theorem close_processEventsByFd {serverFd : ServerFd} {s : SrvState} {fd fd' : Int32}
    {k : Answers} {pre post : List SrvCall}
    (hcalls : (processEventsByFd serverFd s fd k).2.1 = pre ++ .close fd' :: post) :
    fd' ∈ fds s.cliInfoManager ∧ (∀ call ∈ pre, Neutral call) ∧
      fds (processEventsByFd serverFd s fd k).1.cliInfoManager =
        (fds s.cliInfoManager).erase fd' := by
  have hmem : SrvCall.close fd' ∈ pre ++ .close fd' :: post := by simp
  rw [← hcalls] at hmem
  have hafter := descriptors_processEventsByFd serverFd s fd k
  rcases processEventsByFd_calls serverFd s fd k with ⟨-, rest, hrest, hneutral⟩ |
    ⟨⟨-, -, hopen⟩, -, hrest⟩ | ⟨-, -, hneutral⟩
  · rw [hrest] at hmem
    rcases List.mem_cons.mp hmem with heq | hmem
    · cases heq
    · exact absurd rfl (hneutral _ hmem fd').2
  · rw [hrest] at hcalls hafter
    obtain ⟨rfl, rfl⟩ : pre = [.recv fd .eof] ∧ fd' = fd := by
      rcases pre with _ | ⟨call, pre⟩
      · simp at hcalls
      · obtain ⟨rfl, hcalls⟩ := List.cons.inj hcalls
        rcases pre with _ | ⟨call', pre⟩ <;> simp_all
    exact ⟨hopen, by simp [Neutral], hafter.symm⟩
  · exact absurd rfl (hneutral _ hmem fd').2

theorem nodup_processEventsByFd {serverFd : ServerFd} {s : SrvState} {fd : Int32} {k : Answers}
    (h : (fds s.cliInfoManager).Nodup)
    (hacc : fd = serverFd.fd → k.accept = -1 ∨ k.accept ∉ fds s.cliInfoManager) :
    (fds (processEventsByFd serverFd s fd k).1.cliInfoManager).Nodup := by
  rw [← descriptors_processEventsByFd]
  rcases processEventsByFd_calls serverFd s fd k with ⟨hserver, rest, hcalls, hrest⟩ |
    ⟨-, -, hcalls⟩ | ⟨-, -, hcalls⟩
  · rw [hcalls, List.foldl_cons, foldl_descriptors_of_neutral hrest, descriptors]
    by_cases hfail : k.accept = -1
    · rwa [if_pos hfail]
    · rw [if_neg hfail]
      exact List.nodup_cons.mpr ⟨(hacc hserver).resolve_left hfail, h⟩
  · rw [hcalls]
    exact h.erase fd
  · rwa [foldl_descriptors_of_neutral hcalls]

theorem filter_clientMsgEnQueue (s : SrvState) (fd : Int32) (k : Answers) :
    (clientMsgEnQueue s fd k).1.cliInfoManager.filter (·.fd ≠ fd) =
      s.cliInfoManager.filter (·.fd ≠ fd) := by
  unfold clientMsgEnQueue
  cases hrecv : k.recv with
  | error => rfl
  | eof => exact filter_delFromCliInfoByFd fd s.cliInfoManager
  | data c =>
      by_cases hsave : MsgBuf.msgType (s.rxBuf.recv c) = MsgType.SAVE_CLI_INFO.code
      · simp only [if_pos hsave]
        exact filter_saveOneCliInfoByFd fd _ s.cliInfoManager
      · simp only [if_neg hsave]

theorem filter_processEventsByFd (serverFd : ServerFd) (s : SrvState) (e : RegistryEvent) :
    (processEventsByFd serverFd s e.fd e.answers.toAnswers).1.cliInfoManager.filter
        (·.fd ≠ subject serverFd e) =
      s.cliInfoManager.filter (·.fd ≠ subject serverFd e) := by
  unfold processEventsByFd subject
  by_cases hserver : e.fd = serverFd.fd
  · rw [if_pos hserver, if_pos hserver]
    by_cases hacc : e.answers.accept = -1 <;> simp [acceptNewClient, addToCliInfo, hacc]
  · rw [if_neg hserver, if_neg hserver]
    by_cases hstdin : e.fd = STDIN_FILENO
    · rw [if_pos hstdin]
      cases hread : e.answers.read <;> simp [broadcastAllClient, hread]
    · rw [if_neg hstdin]
      by_cases hopen : (getOneCliInfoByFd e.fd s.cliInfoManager).isSome
      · rw [if_pos hopen]
        exact filter_clientMsgEnQueue s e.fd e.answers.toAnswers
      · rw [if_neg hopen]

/-! ## 3. Opening and closing -/

theorem openFds_append (as bs : List SrvCall) :
    openFds (as ++ bs) = bs.foldl descriptors (openFds as) := List.foldl_append

theorem count_descriptors (opened : List Int32) (call : SrvCall)
    (hclose : ∀ fd, call = .close fd → fd ∈ opened) {fd : Int32} (hfd : fd ≠ -1) :
    (if call = .accept fd then 1 else 0) + opened.count fd =
      (if call = .close fd then 1 else 0) + (descriptors opened call).count fd := by
  cases call with
  | accept a =>
      by_cases ha : a = fd
      · subst ha
        simp [descriptors, hfd, Nat.add_comm]
      · by_cases hfail : a = -1 <;> simp [descriptors, ha, hfail, Ne.symm hfd]
  | close a =>
      by_cases ha : a = fd
      · subst ha
        have hpos := List.count_pos_iff.mpr (hclose a rfl)
        simp only [descriptors, List.count_erase_self, reduceCtorEq, if_false, if_true]
        omega
      · simp [descriptors, ha, List.count_erase_of_ne (Ne.symm ha)]
  | _ => simp [descriptors]

/-- If only open descriptors are closed, each is accepted once more often than it is
    closed as long as it is open, and as often when it is not. -/
theorem count_accept {calls : List SrvCall} (opened : List Int32)
    (hclose : ∀ pre fd post, calls = pre ++ .close fd :: post →
      fd ∈ pre.foldl descriptors opened) {fd : Int32} (hfd : fd ≠ -1) :
    calls.count (.accept fd) + opened.count fd =
      calls.count (.close fd) + (calls.foldl descriptors opened).count fd := by
  induction calls generalizing opened with
  | nil => rfl
  | cons call calls ih =>
      have hrest := ih (descriptors opened call)
        fun pre fd post h => hclose (call :: pre) fd post (by rw [h]; rfl)
      have hcall := count_descriptors opened call
        (fun fd h => hclose [] fd calls (by rw [h]; rfl)) hfd
      simp only [List.foldl_cons, List.count_cons, beq_iff_eq]
      omega

/-! ## 4. The invariant -/

structure RegistryInv (r : RegistryRun) : Prop where
  not_faulted : r.faulted = false
  nodup : (openFds r.calls).Nodup
  lists : ∃ mgr, r.srv.cliInfoManager.Lists mgr ∧ fds mgr = openFds r.calls
  closed_open : ∀ pre fd g post, r.trace = pre ++ (.close fd, g) :: post →
    fd ∈ openFds (pre.map Prod.fst) ∧ ∃ mgr, g.Lists mgr ∧ fd ∉ fds mgr

theorem newRegistryRun_inv : RegistryInv newRegistryRun where
  not_faulted := rfl
  nodup := List.nodup_nil
  lists := ⟨[], ListTable.empty_lists, rfl⟩
  closed_open := by simp [newRegistryRun]

theorem RegistryInv.isRegistry {r : RegistryRun} (h : RegistryInv r) : IsRegistry r where
  not_faulted := h.not_faulted
  one_node := by
    obtain ⟨mgr, hlists, hfds⟩ := h.lists
    refine ⟨mgr, hlists, ?_⟩
    intro fd
    rw [hfds]
    exact h.nodup.count
  closed_open := h.closed_open
  closed_once := by
    intro fd hfd
    have hopen : ∀ pre fd post, r.calls = pre ++ .close fd :: post → fd ∈ openFds pre := by
      intro pre fd post hcalls
      obtain ⟨pre, rest, htrace, rfl, hrest⟩ := List.map_eq_append_iff.mp hcalls
      obtain ⟨⟨call, g⟩, post, rfl, rfl, rfl⟩ := List.map_eq_cons_iff.mp hrest
      exact (h.closed_open pre fd g post htrace).1
    have hcount := count_accept [] hopen hfd
    rw [List.count_nil, Nat.add_zero] at hcount
    rw [hcount, ← h.nodup.count]
    rfl

/-- The server with a table in the place of the list. -/
def TableSrv.withTable (s : TableSrv) (mgr : CliInfoManager) : SrvState :=
  { cliInfoManager := mgr, rxBuf := s.rxBuf, txBuf := s.txBuf }

/-- An enabled event is handled to its end, and what it leaves is the table that
    `ProcessEventsByFd` makes of the old one. -/
theorem registryStep_eq_some {serverFd : ServerFd} {r r' : RegistryRun} {e : RegistryEvent}
    {mgr : CliInfoManager} (hlists : r.srv.cliInfoManager.Lists mgr)
    (hstep : registryStep serverFd r e = some r') :
    r.Enabled serverFd e ∧ ∃ srv trace mgr',
      r' = { srv := srv, trace := r.trace ++ trace, faulted := false } ∧
      srv.cliInfoManager.Lists mgr' ∧ (∀ fd g, (SrvCall.close fd, g) ∈ trace → g.Lists mgr') ∧
      ∃ s32Ret, processEventsByFd serverFd (r.srv.withTable mgr) e.fd e.answers.toAnswers =
        (srv.withTable mgr', trace.map Prod.fst, s32Ret) := by
  simp only [registryStep, Option.ite_none_right_eq_some] at hstep
  obtain ⟨henabled, hstep⟩ := hstep
  obtain ⟨-, -, hnode, hne, -⟩ := id henabled
  have href : Refines r.srv (r.srv.withTable mgr) := ⟨hlists, rfl, rfl⟩
  have hhandles := TableSrv.processEventsByFd_handles serverFd href e.fd hnode hne
  obtain ⟨⟨⟨mgr', rxBuf, txBuf⟩, calls, s32Ret⟩, hspec⟩ : ∃ spec,
      processEventsByFd serverFd (r.srv.withTable mgr) e.fd e.answers.toAnswers = spec := ⟨_, rfl⟩
  rw [hspec] at hhandles
  obtain ⟨srv, trace, heq, ⟨hlists', rfl, rfl⟩, rfl, hclose⟩ := hhandles
  rw [heq, Option.some.injEq] at hstep
  subst hstep
  exact ⟨henabled, srv, trace, mgr', rfl, hlists', hclose, s32Ret, hspec⟩

theorem registryStep_inv (serverFd : ServerFd) (r : RegistryRun) (e : RegistryEvent)
    (r' : RegistryRun) (h : RegistryInv r) (hstep : registryStep serverFd r e = some r') :
    RegistryInv r' := by
  obtain ⟨mgr, hlists, hfds⟩ := h.lists
  obtain ⟨⟨-, -, -, -, hacc⟩, srv, trace, mgr', rfl, hlists', hclose, s32Ret, heq⟩ :=
    registryStep_eq_some hlists hstep
  have hopen : openFds ((r.trace ++ trace).map Prod.fst) = fds mgr' := by
    have hafter := descriptors_processEventsByFd serverFd (r.srv.withTable mgr) e.fd
      e.answers.toAnswers
    rw [heq] at hafter
    rw [List.map_append, openFds_append]
    exact hfds ▸ hafter
  have hnodup : (fds mgr).Nodup := hfds ▸ h.nodup
  have hnodup' : (fds mgr').Nodup := by
    have hafter := nodup_processEventsByFd (s := r.srv.withTable mgr) (k := e.answers.toAnswers)
      hnodup fun hserver => hfds ▸ (hacc hserver).imp_right And.left
    rwa [heq] at hafter
  have hnew : ∀ before fd g post, trace = before ++ (.close fd, g) :: post →
      fd ∈ openFds ((r.trace ++ before).map Prod.fst) ∧ ∃ mgr, g.Lists mgr ∧ fd ∉ fds mgr := by
    intro before fd g post htrace
    have hcalls : (processEventsByFd serverFd (r.srv.withTable mgr) e.fd
        e.answers.toAnswers).2.1 = before.map Prod.fst ++ .close fd :: post.map Prod.fst := by
      rw [heq, htrace, List.map_append]
      rfl
    obtain ⟨hmem, hneutral, hfds'⟩ := close_processEventsByFd hcalls
    rw [heq] at hfds'
    constructor
    · rw [List.map_append, openFds_append, foldl_descriptors_of_neutral hneutral]
      exact hfds ▸ hmem
    · exact ⟨mgr', hclose fd g (by simp [htrace]), hfds' ▸ hnodup.not_mem_erase⟩
  refine ⟨rfl, hopen ▸ hnodup', ⟨mgr', hlists', hopen.symm⟩, ?_⟩
  intro pre fd g post htrace
  rcases List.append_eq_append_iff.mp htrace with ⟨before, rfl, hpost⟩ | ⟨rest, hold, hpost⟩
  · exact hnew before fd g post hpost
  · rcases List.cons_eq_append_iff.mp hpost with ⟨rfl, hpost⟩ | ⟨rest, rfl, -⟩
    · rw [List.append_nil] at hold
      have hfirst := hnew [] fd g post hpost.symm
      rwa [List.append_nil, hold] at hfirst
    · exact h.closed_open pre fd g rest hold

theorem keepsOthers (serverFd : ServerFd) (r : RegistryRun) (e : RegistryEvent) :
    KeepsOthers serverFd r e := by
  intro r' mgr mgr' hstep hlists hlists'
  obtain ⟨-, srv, trace, mgr'', rfl, hafter, -, s32Ret, heq⟩ := registryStep_eq_some hlists hstep
  have hfilter := filter_processEventsByFd serverFd (r.srv.withTable mgr) e
  rw [heq] at hfilter
  rw [hlists'.unique hafter]
  exact hfilter

theorem closesEnded (serverFd : ServerFd) {r : RegistryRun} (h : RegistryInv r)
    (e : RegistryEvent) : ClosesEnded serverFd r e := by
  intro r' mgr' hstep hlists' hserver hstdin hopen heof
  obtain ⟨mgr, hlists, hfds⟩ := h.lists
  obtain ⟨-, srv, trace, mgr'', rfl, hafter, -, s32Ret, heq⟩ := registryStep_eq_some hlists hstep
  have hclient : IsClient serverFd (r.srv.withTable mgr) e.fd :=
    ⟨hserver, hstdin, hfds.symm ▸ hopen⟩
  have hcalls : trace.map Prod.fst = [.recv e.fd .eof, .close e.fd] := by
    have hcases := processEventsByFd_calls serverFd (r.srv.withTable mgr) e.fd
      e.answers.toAnswers
    rw [heq] at hcases
    rcases hcases with ⟨heq, -⟩ | ⟨-, -, hcalls⟩ | ⟨-, hnot, -⟩
    · exact absurd heq hserver
    · exact hcalls
    · exact absurd ⟨hclient, heof⟩ hnot
  have hleft : fds mgr'' = (fds mgr).erase e.fd := by
    have hdescriptors := descriptors_processEventsByFd serverFd (r.srv.withTable mgr) e.fd
      e.answers.toAnswers
    rw [heq] at hdescriptors
    simp only [hcalls] at hdescriptors
    exact hdescriptors.symm
  constructor
  · rw [← hcalls]
    exact List.map_append
  · rw [hlists'.unique hafter, hleft]
    exact (hfds ▸ h.nodup : (fds mgr).Nodup).not_mem_erase

/-- In every run of events the table is the registry of the open connections, each event
    leaves the nodes of other clients alone, and a connection that its client has shut down
    is closed. -/
theorem cli_info_manager_registers (serverFd : ServerFd) (evs : List RegistryEvent) :
    Always (registryStep serverFd) IsRegistry newRegistryRun evs ∧
      Along (registryStep serverFd) (KeepsOthers serverFd) newRegistryRun evs ∧
      Along (registryStep serverFd) (ClosesEnded serverFd) newRegistryRun evs := by
  refine ⟨?_, ?_, ?_⟩
  · exact (always_of_invariant (registryStep_inv serverFd) newRegistryRun_inv evs).mono
      fun _ h => h.isRegistry
  · exact along_of_invariant (registryStep_inv serverFd)
      (fun r e _ => keepsOthers serverFd r e) newRegistryRun_inv evs
  · exact along_of_invariant (registryStep_inv serverFd)
      (fun r e h => closesEnded serverFd h e) newRegistryRun_inv evs

def registryEvent (e : SrvEvent) (list node : Addr) : RegistryEvent :=
  { fd := e.fd, answers := { e.answers with list := list, node := node } }

/-- A descriptor is closed and handed out again, while another stays open. -/
example : (exec (registryStep listening) newRegistryRun
    [registryEvent (acceptEvent 5) 1 2, registryEvent (acceptEvent 6) 3 4,
      registryEvent (closeEvent 5) 3 5, registryEvent (acceptEvent 5) 3 2]).map
        (fun r => (openFds r.calls, r.faulted)) = some ([5, 6], false) := by
  decide +kernel

end SocketPractice.SocketTcp
