import SocketPractice.Lib.Recency
import SocketPractice.SocketTcp.Registry
import SocketPractice.SocketTcp.ServerSocket

/-!
# Which connection has an endid

A client may register again and again, and several under one endid.  A message for the
endid should go to the one that registered latest.  The table keeps its nodes in the
order of the connections, the latest first, and a registration changes a node where it
stands; a look-up then finds the latest connection with the endid, which need not be
the one that registered latest.
-/

namespace SocketPractice.SocketTcp

open Lib.Bytes Lib.Runs Lib.Keyed Lib.Recency

/-! ## 1. What a look-up should find -/

instance (serverFd : ServerFd) (s : SrvState) (fd : Int32) :
    Decidable (IsClient serverFd s fd) := by
  unfold IsClient
  infer_instance

/-- The endid under which `ClientMsgEnQueue` registers the connection of an event. -/
def registers (serverFd : ServerFd) (s : SrvState) (e : SrvEvent) : Option EndID :=
  if IsClient serverFd s e.fd then
    match e.answers.recv with
    | .data c =>
        let rxBuf := s.rxBuf.recv c
        if MsgBuf.msgType rxBuf = MsgType.SAVE_CLI_INFO.code then some (MsgBuf.srcEndID rxBuf)
        else none
    | _ => none
  else none

def Disconnects (serverFd : ServerFd) (s : SrvState) (e : SrvEvent) : Prop :=
  IsClient serverFd s e.fd ∧ e.answers.recv = .eof

instance (serverFd : ServerFd) (s : SrvState) (e : SrvEvent) :
    Decidable (Disconnects serverFd s e) := by
  unfold Disconnects
  infer_instance

/-- The server, and the open connections that have registered, each with the endid it
    registered under last, the latest registration first. -/
structure RouteState where
  run : SrvRun
  registrations : List CliInfoNode

def recorded (serverFd : ServerFd) (s : SrvState) (e : SrvEvent)
    (registrations : List CliInfoNode) : List CliInfoNode :=
  match registers serverFd s e with
  | some cliEndid => renew CliInfoNode.fd ⟨e.fd, cliEndid⟩ registrations
  | none =>
      if Disconnects serverFd s e then others CliInfoNode.fd e.fd registrations
      else registrations

def routeStep (serverFd : ServerFd) (s : RouteState) (e : SrvEvent) : Option RouteState :=
  (srvStep serverFd s.run e).map fun run =>
    { run := run, registrations := recorded serverFd s.run.srv e s.registrations }

def newRoute : RouteState := { run := newRun, registrations := [] }

/-- The open connection that registered under the endid latest and has it still. -/
def latest (cliEndid : EndID) (registrations : List CliInfoNode) : Option CliInfoNode :=
  first CliInfoNode.cliEndid registrations cliEndid

/-- A look-up finds the latest registration, and what `ProcessMsg` sends goes there. -/
structure RoutesToLatest (s : RouteState) : Prop where
  lookup : ∀ cliEndid, cliEndid ≠ 0 →
    getOneCliInfoByEndID cliEndid s.run.srv.cliInfoManager = latest cliEndid s.registrations
  delivery : ∀ debug k msgBuf calls s32Ret,
    processMsg debug k s.run.srv.cliInfoManager msgBuf = some (calls, s32Ret) →
    ∀ fd m, .sendCliMsg fd m ∈ calls →
      (latest msgBuf.destEndID s.registrations).map CliInfoNode.fd = some fd

/-- Where a client registers under an endid other than 0, no connection that is newer
    than its own has this endid. -/
def NoNewerHolder (serverFd : ServerFd) (s : RouteState) (e : SrvEvent) : Prop :=
  ∀ cliEndid ∈ registers serverFd s.run.srv e, cliEndid ≠ 0 →
    ∀ pos ∈ ahead CliInfoNode.fd e.fd s.run.srv.cliInfoManager, pos.cliEndid ≠ cliEndid

instance (serverFd : ServerFd) (s : RouteState) (e : SrvEvent) :
    Decidable (NoNewerHolder serverFd s e) := by
  unfold NoNewerHolder
  exact Option.decidableForallMem _

/-! ## 2. The table after an event -/

theorem saveOneCliInfoByFd_eq_put (fd : Int32) (msgBuf : MsgBuf) (mgr : CliInfoManager) :
    (saveOneCliInfoByFd fd msgBuf mgr).1 = put CliInfoNode.fd ⟨fd, msgBuf.srcEndID⟩ mgr := by
  induction mgr with
  | nil => rfl
  | cons pos rest ih =>
      rw [saveOneCliInfoByFd, put]
      by_cases hfd : pos.fd = fd
      · rw [if_neg (not_not.mpr hfd), if_pos hfd]
        simp only [hfd]
      · rw [if_pos hfd, if_neg hfd]
        exact congrArg (pos :: ·) ih

theorem delFromCliInfoByFd_eq_removeFirst (fd : Int32) (mgr : CliInfoManager) :
    (delFromCliInfoByFd fd mgr).1 = removeFirst CliInfoNode.fd mgr fd := by
  induction mgr with
  | nil => rfl
  | cons pos rest ih =>
      rw [delFromCliInfoByFd, removeFirst_cons]
      by_cases hfd : pos.fd = fd
      · rw [if_neg (not_not.mpr hfd), if_pos hfd]
      · rw [if_pos hfd, if_neg hfd]
        exact congrArg (pos :: ·) ih

/-- An event registers a client, ends a connection, adds a new one or leaves the table
    as it is. -/
theorem cliInfoManager_processEventsByFd (serverFd : ServerFd) (s : SrvState) (e : SrvEvent) :
    (processEventsByFd serverFd s e.fd e.answers).1.cliInfoManager =
      match registers serverFd s e with
      | some cliEndid => put CliInfoNode.fd ⟨e.fd, cliEndid⟩ s.cliInfoManager
      | none =>
          if Disconnects serverFd s e then removeFirst CliInfoNode.fd s.cliInfoManager e.fd
          else if e.fd = serverFd.fd ∧ e.answers.accept ≠ -1 then
            addToCliInfo e.answers.accept s.cliInfoManager
          else s.cliInfoManager := by
  by_cases hclient : IsClient serverFd s e.fd
  · rw [processEventsByFd_client hclient]
    have hserver : e.fd ≠ serverFd.fd := hclient.1
    simp only [registers, Disconnects, hclient, if_true, true_and, hserver, false_and, if_false,
      clientMsgEnQueue]
    cases hrecv : e.answers.recv with
    | error => simp
    | eof => simpa using delFromCliInfoByFd_eq_removeFirst e.fd s.cliInfoManager
    | data c =>
        by_cases hsave : MsgBuf.msgType (s.rxBuf.recv c) = MsgType.SAVE_CLI_INFO.code
        · simp only [if_pos hsave]
          exact saveOneCliInfoByFd_eq_put e.fd (s.rxBuf.recv c) s.cliInfoManager
        · simp [if_neg hsave]
  · simp only [registers, Disconnects, hclient, if_false, false_and]
    rw [processEventsByFd]
    by_cases hserver : e.fd = serverFd.fd
    · rw [if_pos hserver]
      by_cases hacc : e.answers.accept = -1 <;> simp [acceptNewClient, hserver, hacc]
    · rw [if_neg hserver]
      simp only [hserver, false_and, if_false]
      by_cases hstdin : e.fd = STDIN_FILENO
      · rw [if_pos hstdin]
        cases hread : e.answers.read <;> simp [broadcastAllClient, hread]
      · rw [if_neg hstdin, if_neg]
        rw [isSome_getOneCliInfoByFd]
        exact fun hopen => hclient ⟨hserver, hstdin, hopen⟩

theorem isClient_of_registers {serverFd : ServerFd} {s : SrvState} {e : SrvEvent}
    {cliEndid : EndID} (h : registers serverFd s e = some cliEndid) :
    IsClient serverFd s e.fd := by
  unfold registers at h
  split at h
  · assumption
  · cases h

/-! ## 3. The invariant -/

/-- The table and the record list the same connections for each endid other than 0, in
    the same order. -/
structure RouteInv (s : RouteState) : Prop where
  nodup : (fds s.run.srv.cliInfoManager).Nodup
  agrees : Agrees CliInfoNode.cliEndid (· ≠ 0) s.run.srv.cliInfoManager s.registrations

theorem routeStep_eq_some {serverFd : ServerFd} {s t : RouteState} {e : SrvEvent} :
    routeStep serverFd s e = some t ↔ Possible serverFd s.run.srv e ∧
      t = { run := s.run.handle serverFd e
            registrations := recorded serverFd s.run.srv e s.registrations } := by
  rw [routeStep, srvStep, Option.map_eq_some_iff]
  constructor
  · rintro ⟨run, hrun, rfl⟩
    rw [Option.ite_none_right_eq_some, Option.some.injEq] at hrun
    exact ⟨hrun.1, by rw [hrun.2]⟩
  · rintro ⟨hpossible, rfl⟩
    exact ⟨_, if_pos hpossible, rfl⟩

theorem RouteInv.routes {s : RouteState} (h : RouteInv s) : RoutesToLatest s := by
  have hlookup : ∀ cliEndid, cliEndid ≠ 0 →
      getOneCliInfoByEndID cliEndid s.run.srv.cliInfoManager = latest cliEndid s.registrations :=
    fun _ hne => h.agrees.first_eq hne
  refine ⟨hlookup, ?_⟩
  intro debug k msgBuf calls s32Ret hret fd m hcall
  rcases processMsg_calls hret with rfl | rfl | ⟨hdest, dest, hfound, rfl⟩
  · cases hcall
  · simp at hcall
  · rw [← hlookup _ hdest, hfound]
    simp only [List.mem_singleton, SrvCall.sendCliMsg.injEq] at hcall
    rw [hcall.1]
    rfl

theorem routeInv_step (serverFd : ServerFd) (s : RouteState) (e : SrvEvent) (t : RouteState)
    (h : RouteInv s) (hG : NoNewerHolder serverFd s e) (hstep : routeStep serverFd s e = some t) :
    RouteInv t := by
  obtain ⟨hpossible, rfl⟩ := routeStep_eq_some.mp hstep
  constructor
  · apply nodup_processEventsByFd h.nodup
    exact fun hserver => Or.inr (hpossible hserver).2.2
  · show Agrees CliInfoNode.cliEndid (· ≠ 0)
      (processEventsByFd serverFd s.run.srv e.fd e.answers).1.cliInfoManager
      (recorded serverFd s.run.srv e s.registrations)
    rw [cliInfoManager_processEventsByFd, recorded]
    cases hreg : registers serverFd s.run.srv e with
    | some cliEndid =>
        apply h.agrees.put_renew h.nodup
        · exact (isClient_of_registers hreg).2.2
        · exact fun hne => hG cliEndid hreg hne
    | none =>
        by_cases hdisc : Disconnects serverFd s.run.srv e
        · simp only [if_pos hdisc]
          rw [removeFirst_eq_others h.nodup]
          exact h.agrees.others e.fd
        · simp only [if_neg hdisc]
          split
          · apply h.agrees.cons
            exact fun hne => hne rfl
          · exact h.agrees

/-- A registration behind a newer connection with the endid is not found. -/
theorem not_routes_of_newer {serverFd : ServerFd} {s t : RouteState} {e : SrvEvent}
    (hG : ¬ NoNewerHolder serverFd s e) (hstep : routeStep serverFd s e = some t) :
    ¬ RoutesToLatest t := by
  intro hroutes
  apply hG
  intro cliEndid hreg hne pos hpos hcls
  obtain ⟨-, rfl⟩ := routeStep_eq_some.mp hstep
  have hlookup := hroutes.lookup cliEndid hne
  simp only [SrvRun.handle, recorded, Option.mem_def.mp hreg] at hlookup
  rw [cliInfoManager_processEventsByFd, Option.mem_def.mp hreg] at hlookup
  have hahead : ∃ y ∈
        ahead CliInfoNode.fd (CliInfoNode.fd ⟨e.fd, cliEndid⟩) s.run.srv.cliInfoManager,
      y.cliEndid = CliInfoNode.cliEndid ⟨e.fd, cliEndid⟩ := ⟨pos, hpos, hcls⟩
  obtain ⟨node, hnode, hfd⟩ := first_put_of_ahead hahead
  have hlatest : latest cliEndid (renew CliInfoNode.fd ⟨e.fd, cliEndid⟩ s.registrations) =
      some ⟨e.fd, cliEndid⟩ := first_renew_self _ _
  rw [hlatest] at hlookup
  have hsame := hnode.symm.trans hlookup
  rw [Option.some.injEq] at hsame
  exact hfd (by rw [hsame])

/-- In every run of accepts, registrations and disconnects the table finds, for every
    endid but 0, the connection that registered under it latest, if and only if no client
    registers under an endid that a connection newer than its own has. -/
theorem routes_iff_noNewerHolder (serverFd : ServerFd) (evs : List SrvEvent) (s : RouteState)
    (hrun : exec (routeStep serverFd) newRoute evs = some s) :
    Always (routeStep serverFd) RoutesToLatest newRoute evs ↔
      Along (routeStep serverFd) (NoNewerHolder serverFd) newRoute evs := by
  apply always_iff_along_of_lost (routeInv_step serverFd) ?_ ?_ ?_ hrun
  · exact fun _ h => h.routes
  · exact fun s e t _ hG hstep => not_routes_of_newer hG hstep
  · exact ⟨List.nodup_nil, fun _ _ => rfl⟩

/-- The client that connected first registers last. -/
def olderRegistersLast : List SrvEvent :=
  [acceptEvent 5, acceptEvent 6, recvEvent 6 (registration 7).chunk,
   recvEvent 5 (registration 7).chunk]

theorem superseded_connection_found :
    ∃ s, exec (routeStep listening) newRoute olderRegistersLast = some s ∧
      latest 7 s.registrations = some ⟨5, 7⟩ ∧
      getOneCliInfoByEndID 7 s.run.srv.cliInfoManager = some ⟨6, 7⟩ ∧
      processMsg false allSent s.run.srv.cliInfoManager (msgTo 9 7) =
        some ([.sendCliMsg 6 (msgTo 9 7)], 0) ∧
      ¬ RoutesToLatest s := by
  have hrun : (exec (routeStep listening) newRoute olderRegistersLast).map
      (fun s => (s.run.srv.cliInfoManager, s.registrations)) =
        some ([⟨6, 7⟩, ⟨5, 7⟩], [⟨5, 7⟩, ⟨6, 7⟩]) := by
    decide +kernel
  obtain ⟨s, hs, heq⟩ := Option.map_eq_some_iff.mp hrun
  obtain ⟨hmgr, hregs⟩ := Prod.mk.inj heq
  refine ⟨s, hs, ?_⟩
  rw [hmgr, hregs]
  refine ⟨rfl, rfl, by decide +kernel, ?_⟩
  intro h
  have hlookup := h.lookup 7 (by decide)
  rw [hmgr, hregs] at hlookup
  exact absurd hlookup (by decide)

/-- The client that connected last registers last. -/
def newerRegistersLast : List SrvEvent :=
  [acceptEvent 5, acceptEvent 6, recvEvent 5 (registration 7).chunk,
   recvEvent 6 (registration 7).chunk, closeEvent 6]

theorem routes_newerRegistersLast :
    Always (routeStep listening) RoutesToLatest newRoute newerRegistersLast := by
  obtain ⟨s, hs⟩ : ∃ s, exec (routeStep listening) newRoute newerRegistersLast = some s := by
    apply Option.isSome_iff_exists.mp
    decide +kernel
  exact (routes_iff_noNewerHolder listening newerRegistersLast s hs).mpr (by decide +kernel)

end SocketPractice.SocketTcp
