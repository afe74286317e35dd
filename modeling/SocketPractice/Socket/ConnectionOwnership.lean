import SocketPractice.Socket.CliSqlite
import SocketPractice.Socket.ServerSocket

/-!
# Which connection a descriptor means (`server_epoll.c`, `server_tcp.c`)

The pool workers run `process_accept_tcp_link` and `process_recv_cli_msg` side by
side, and everything they know about a client is a descriptor number, which the
kernel hands out again once it was closed.  Here a connection has an identity of
its own, a worker makes its calls one by one, and the steps of the workers
interleave freely.

The client table then names the right connections in every continuation of a run
if and only if, whenever `recv` returns 0 on a connection, no other worker still
has a registration or a shutdown of this connection ahead of it.
-/

namespace SocketPractice.Socket

open Lib.Bytes Lib.Sql Lib.Runs

/-! ## 1. The code -/

/-- The calls of `process_accept_tcp_link` after `accept` returned `newfd`. -/
def processAcceptTcpLink (newfd : Int32) : List SrvCall :=
  if checkFd newfd then [.addFdToSrvEpoll newfd] else []

/-! ## 2. The server -/

/-- The identity of a TCP connection: how many were accepted before it. -/
abbrev Conn := Nat

/-- A worker of the pool: the calls of its task still to be made, and the
    connection on which the task's `recv` was made. -/
structure Worker where
  conn : Conn
  calls : List SrvCall

structure SrvState where
  fds : Int32 → Option Conn
  table : Table
  workers : Nat → Worker
  accepted : Conn
  /-- The registrations received so far, with the connection they came in on. -/
  saved : List (Conn × EndId)
  /-- The connections on which `recv` returned 0. -/
  ended : List Conn

/-- A worker takes a task up with its first system call, whose result is in the
    label, or makes the next call of the task it is in. -/
inductive SrvEvent where
  | accept (w : Nat) (newfd : Int32)
  | recvTcp (w : Nat) (fd : Int32) (ret : RecvRet)
  | recvUdp (w : Nat) (ipaddr : UInt32) (port : UInt16) (ret : RecvRet)
  | call (w : Nat)
deriving DecidableEq

/-- The effect of a call on the descriptors and the table. -/
def runCall (s : SrvState) : SrvCall → SrvState
  | .addTcpCliToDatabase e fd => { s with table := addTcpCliToDatabase s.table e fd }
  | .addUdpCliToDatabase e ipaddr port =>
      { s with table := addUdpCliToDatabase s.table e ipaddr port }
  | .delTcpCliFromDatabaseByFd fd => { s with table := delTcpCliFromDatabaseByFd s.table fd }
  | .close fd => { s with fds := Function.update s.fds fd none }
  | _ => s

/-- The endid of the registration that a receive delivered. -/
def savedEndid : RecvRet → List EndId
  | .data c =>
      let msgbuf := (Buf.zero sizeofLcMsgPackage).recv c
      if LcMsgPackage.msgType msgbuf = LcMsgType.SAVE_CLI_INFO.code
      then [LcMsgPackage.srcid msgbuf] else []
  | _ => []

def SrvState.setWorker (s : SrvState) (w : Nat) (x : Worker) : SrvState :=
  { s with workers := Function.update s.workers w x }

/-- One step of a worker.  The kernel gives a new connection a number that is not
    open, answers a `recv` on a number that is not open with an error, and goes on
    returning 0 on a connection on which it once did. -/
def srvStep (serverEndid : EndId) (s : SrvState) : SrvEvent → Option SrvState
  | .accept w newfd =>
      if (s.workers w).calls ≠ [] then none
      else if newfd < 0 then some s
      else if (s.fds newfd).isSome then none
      else some (({ s with
          fds := Function.update s.fds newfd (some s.accepted)
          accepted := s.accepted + 1 } : SrvState).setWorker w
        { conn := s.accepted, calls := processAcceptTcpLink newfd })
  | .recvTcp w fd ret =>
      if (s.workers w).calls ≠ [] then none
      else match s.fds fd with
        | none => if ret = .error then some s else none
        | some conn =>
            if ret ≠ .error ∧ ret ≠ .eof ∧ conn ∈ s.ended then none
            else some (({ s with
                saved := (savedEndid ret).map (conn, ·) ++ s.saved
                ended := if ret = .eof then conn :: s.ended else s.ended } : SrvState).setWorker w
              { conn := conn, calls := (recvTcpCliMsg serverEndid fd ret).1 })
  | .recvUdp w ipaddr port ret =>
      if (s.workers w).calls ≠ [] then none
      else some (s.setWorker w
        { s.workers w with calls := (recvUdpCliMsg serverEndid ipaddr port ret).1 })
  | .call w =>
      match (s.workers w).calls with
      | [] => none
      | c :: calls => some ((runCall s c).setWorker w { s.workers w with calls := calls })

def newSrv : SrvState :=
  { fds := fun _ => none, table := newDb.table, workers := fun _ => ⟨0, []⟩, accepted := 0,
    saved := [], ended := [] }

/-! ## 3. Ownership -/

/-- The descriptor that a call of the shutdown branch is about. -/
def SrvCall.shutsDown : SrvCall → Option Int32
  | .delFdFromSrvEpoll fd => some fd
  | .delTcpCliFromDatabaseByFd fd => some fd
  | .close fd => some fd
  | _ => none

/-- Every row with a descriptor names the open connection on which its endid was
    registered; a shutdown in progress is about the connection that ended; and the lookup
    for a message finds a connection that registered the endid.  The send of
    `forward_msg_clients` comes after that lookup and is no step of these runs. -/
structure Owned (s : SrvState) : Prop where
  rows : ∀ row ∈ s.table, ∀ v : Int, cliInfo.get row "fd" = some v →
    ∃ (fd : Int32) (e : EndId) (conn : Conn), v = fd.toInt ∧
      cliInfo.get row "endid" = some e.toInt ∧ s.fds fd = some conn ∧ (conn, e) ∈ s.saved
  shutdown : ∀ w, ∀ c ∈ (s.workers w).calls, ∀ fd, c.shutsDown = some fd →
    s.fds fd = some (s.workers w).conn ∧ (s.workers w).conn ∈ s.ended
  forward : ∀ e fd, getCliByEndid s.table e .UNSET = .TCP_LINK fd →
    ∃ conn, s.fds fd = some conn ∧ (conn, e) ∈ s.saved

/-- A call that registers or shuts down by descriptor. -/
def SrvCall.touches (c : SrvCall) : Bool :=
  match c with
  | .addTcpCliToDatabase _ _ => true
  | c => c.shutsDown.isSome

/-- The worker still has a registration or a shutdown of its connection to make. -/
def Worker.Touches (x : Worker) : Prop := ∃ c ∈ x.calls, c.touches = true

def Worker.ShutsDown (x : Worker) : Prop := ∃ c ∈ x.calls, c.shutsDown.isSome

/-- When `recv` returns 0 on a connection, no worker has a registration or a
    shutdown of it ahead. -/
def NoOverlap (s : SrvState) : SrvEvent → Prop
  | .recvTcp _ fd .eof => ∀ conn, s.fds fd = some conn →
      ∀ w, (s.workers w).conn = conn → ¬ (s.workers w).Touches
  | _ => True

/-! ## 4. The invariant -/

def NoRow (r : Registry) (fd : Int32) : Prop := ∀ e, r.get e ≠ some (.tcp fd)

/-- What a worker with these calls ahead relies on. -/
inductive WorkerOk (s : SrvState) (r : Registry) (conn : Conn) : List SrvCall → Prop
  | quiet {calls} (h : ∀ c ∈ calls, c.touches = false) : WorkerOk s r conn calls
  | registering {e fd m} (hfd : s.fds fd = some conn) (hsaved : (conn, e) ∈ s.saved) :
      WorkerOk s r conn [.addTcpCliToDatabase e fd, .sendMsgByTcp m fd]
  | ended {fd} (hfd : s.fds fd = some conn) (hended : conn ∈ s.ended) :
      WorkerOk s r conn [.delFdFromSrvEpoll fd, .delTcpCliFromDatabaseByFd fd, .close fd]
  | unwatched {fd} (hfd : s.fds fd = some conn) (hended : conn ∈ s.ended) :
      WorkerOk s r conn [.delTcpCliFromDatabaseByFd fd, .close fd]
  | unregistered {fd} (hfd : s.fds fd = some conn) (hended : conn ∈ s.ended)
      (hrow : NoRow r fd) : WorkerOk s r conn [.close fd]

/-- While a worker shuts a connection down, no other touches this connection. -/
def Alone (workers : Nat → Worker) : Prop :=
  ∀ w w', (workers w).ShutsDown → (workers w').Touches →
    (workers w').conn = (workers w).conn → w' = w

/-- The invariant, with the registry behind the table. -/
structure Inv (s : SrvState) (r : Registry) : Prop where
  table : s.table = r.table
  links : ∀ e fd, r.get e = some (.tcp fd) → ∃ conn, s.fds fd = some conn ∧ (conn, e) ∈ s.saved
  fresh : ∀ fd conn, s.fds fd = some conn → conn < s.accepted
  inj : ∀ fd fd' conn, s.fds fd = some conn → s.fds fd' = some conn → fd = fd'
  worker : ∀ w, WorkerOk s r (s.workers w).conn (s.workers w).calls
  alone : Alone s.workers

theorem SrvCall.touches_of_shutsDown {c : SrvCall} (h : c.shutsDown.isSome) :
    c.touches = true := by
  cases c <;> simp_all [SrvCall.touches, SrvCall.shutsDown]

theorem WorkerOk.mono {s t : SrvState} {r r' : Registry} {conn : Conn} {calls : List SrvCall}
    (h : WorkerOk s r conn calls)
    (hfds : ∀ fd, s.fds fd = some conn → t.fds fd = some conn)
    (hsaved : ∀ e, (conn, e) ∈ s.saved → (conn, e) ∈ t.saved)
    (hended : conn ∈ s.ended → conn ∈ t.ended)
    (hrow : ∀ fd, s.fds fd = some conn → .close fd ∈ calls → NoRow r fd → NoRow r' fd) :
    WorkerOk t r' conn calls := by
  cases h with
  | quiet h => exact .quiet h
  | registering hfd hs => exact .registering (hfds _ hfd) (hsaved _ hs)
  | ended hfd he => exact .ended (hfds _ hfd) (hended he)
  | unwatched hfd he => exact .unwatched (hfds _ hfd) (hended he)
  | unregistered hfd he hr =>
      exact .unregistered (hfds _ hfd) (hended he) (hrow _ hfd (by simp) hr)

/-- A pending call of the shutdown branch is about the worker's own connection. -/
theorem WorkerOk.shutdown {s : SrvState} {r : Registry} {conn : Conn} {calls : List SrvCall}
    (h : WorkerOk s r conn calls) {c : SrvCall} (hc : c ∈ calls) {fd : Int32}
    (hfd : c.shutsDown = some fd) : s.fds fd = some conn ∧ conn ∈ s.ended := by
  cases h with
  | quiet h =>
      have := SrvCall.touches_of_shutsDown (c := c) (by simp [hfd])
      rw [h c hc] at this
      cases this
  | registering => simp at hc; rcases hc with rfl | rfl <;> cases hfd
  | ended h he => simp at hc; rcases hc with rfl | rfl | rfl <;> cases hfd <;> exact ⟨h, he⟩
  | unwatched h he => simp at hc; rcases hc with rfl | rfl <;> cases hfd <;> exact ⟨h, he⟩
  | unregistered h he => simp at hc; subst hc; cases hfd; exact ⟨h, he⟩

theorem Inv.owned {s : SrvState} {r : Registry} (hs : Inv s r) : Owned s where
  rows := by
    intro row hrow v hv
    rw [hs.table] at hrow
    rcases List.mem_map.mp hrow with ⟨⟨e, k⟩, hp, rfl⟩
    cases k with
    | tcp fd =>
        rcases hs.links e fd ((r.get_eq_some_iff e _).mpr hp) with ⟨conn, hconn, hsaved⟩
        exact ⟨fd, e, conn, (Option.some.inj hv).symm, rfl, hconn, hsaved⟩
    | udp ipaddr port => cases hv
  shutdown := fun w c hc fd hfd => (hs.worker w).shutdown hc hfd
  forward := by
    intro e fd h
    rw [hs.table, Registry.get_cli_table] at h
    cases hget : r.get e with
    | none => rw [hget] at h; cases h
    | some k =>
        rw [hget] at h
        cases k with
        | tcp fd' => cases h; exact hs.links e fd hget
        | udp ipaddr port => cases h

/-! ## 5. The steps -/

theorem Worker.ShutsDown.touches {x : Worker} (h : x.ShutsDown) : x.Touches := by
  obtain ⟨c, hc, hfd⟩ := h
  exact ⟨c, hc, SrvCall.touches_of_shutsDown hfd⟩

/-- A worker may take up calls that clash with no other worker's. -/
theorem Alone.update {workers : Nat → Worker} (h : Alone workers) (w : Nat) {x : Worker}
    (hshut : x.ShutsDown → ∀ w', w' ≠ w → (workers w').conn = x.conn → ¬ (workers w').Touches)
    (htouch : x.Touches → ∀ w', w' ≠ w → (workers w').conn = x.conn →
      ¬ (workers w').ShutsDown) : Alone (Function.update workers w x) := by
  intro a b ha hb hconn
  by_cases haw : a = w
  · subst haw
    by_cases hba : b = a
    · exact hba
    · rw [Function.update_self] at ha hconn
      rw [Function.update_of_ne hba] at hb hconn
      exact absurd hb (hshut ha b hba hconn)
  · rw [Function.update_of_ne haw] at ha hconn
    by_cases hbw : b = w
    · subst hbw
      rw [Function.update_self] at hb hconn
      exact absurd ha (htouch hb a haw hconn.symm)
    · rw [Function.update_of_ne hbw] at hb hconn
      exact h a b ha hb hconn

theorem Alone.update_quiet {workers : Nat → Worker} (h : Alone workers) (w : Nat) {x : Worker}
    (hx : ∀ c ∈ x.calls, c.touches = false) : Alone (Function.update workers w x) := by
  have hnot : ¬ x.Touches := by
    rintro ⟨c, hc, htouch⟩
    rw [hx c hc] at htouch
    cases htouch
  exact h.update w (fun hshut => absurd hshut.touches hnot) fun htouch => absurd htouch hnot

/-- Making the first of its calls leaves a worker with fewer to clash with. -/
theorem Alone.update_tail {workers : Nat → Worker} (h : Alone workers) {w : Nat} {c : SrvCall}
    {calls : List SrvCall} (hw : (workers w).calls = c :: calls) :
    Alone (Function.update workers w { workers w with calls := calls }) := by
  have hmem : ∀ c' ∈ calls, c' ∈ (workers w).calls := fun c' hc' =>
    hw ▸ List.mem_cons_of_mem c hc'
  apply h.update w
  · rintro ⟨c', hc', hfd⟩ w' hne hconn htouch
    exact hne (h w w' ⟨c', hmem c' hc', hfd⟩ htouch hconn)
  · rintro ⟨c', hc', hfd⟩ w' hne hconn hshut
    exact hne (h w' w hshut ⟨c', hmem c' hc', hfd⟩ hconn.symm).symm

/-- The worker that moved is in order, and so are the others. -/
theorem workerOk_update {t : SrvState} {r : Registry} {workers : Nat → Worker} {w : Nat}
    {x : Worker} (ht : t.workers = Function.update workers w x)
    (hx : WorkerOk t r x.conn x.calls)
    (hothers : ∀ w', w' ≠ w → WorkerOk t r (workers w').conn (workers w').calls) (w' : Nat) :
    WorkerOk t r (t.workers w').conn (t.workers w').calls := by
  rw [ht]
  by_cases hw : w' = w
  · subst hw
    rw [Function.update_self]
    exact hx
  · rw [Function.update_of_ne hw]
    exact hothers w' hw

theorem quiet_processAcceptTcpLink (newfd : Int32) :
    ∀ c ∈ processAcceptTcpLink newfd, c.touches = false := by
  unfold processAcceptTcpLink
  by_cases hfd : checkFd newfd = true
  · rw [if_pos hfd]
    simp [SrvCall.touches, SrvCall.shutsDown]
  · rw [if_neg hfd]
    simp

theorem quiet_recvUdpCliMsg (serverEndid : EndId) (ipaddr : UInt32) (port : UInt16)
    (ret : RecvRet) : ∀ c ∈ (recvUdpCliMsg serverEndid ipaddr port ret).1,
      c.touches = false := by
  cases ret with
  | error => simp [recvUdpCliMsg]
  | eof => simp [recvUdpCliMsg]
  | data c =>
      simp only [recvUdpCliMsg, handleUdpMsg]
      split <;> simp [SrvCall.touches, SrvCall.shutsDown]

theorem shutsDown_handleTcpMsg (serverEndid : EndId) (fd : Int32) (m : LcMsgPackage) :
    ∀ c ∈ handleTcpMsg serverEndid fd m, c.shutsDown = none := by
  unfold handleTcpMsg
  split <;> simp [SrvCall.shutsDown]

/-- After a receive a worker registers the endid it received, or touches nothing. -/
theorem workerOk_handleTcpMsg {t : SrvState} {r : Registry} {conn : Conn}
    (serverEndid : EndId) {fd : Int32} {m : LcMsgPackage} (hfd : t.fds fd = some conn)
    (hsaved : m.msgType = LcMsgType.SAVE_CLI_INFO.code → (conn, m.srcid) ∈ t.saved) :
    WorkerOk t r conn (handleTcpMsg serverEndid fd m) := by
  unfold handleTcpMsg
  by_cases hsave : m.msgType = LcMsgType.SAVE_CLI_INFO.code
  · rw [if_pos hsave]
    exact .registering hfd (hsaved hsave)
  · rw [if_neg hsave]
    exact .quiet (by simp [SrvCall.touches, SrvCall.shutsDown])

theorem Inv.accept {s : SrvState} {r : Registry} (hs : Inv s r) (w : Nat) {newfd : Int32}
    (hfree : s.fds newfd = none) :
    Inv (({ s with
        fds := Function.update s.fds newfd (some s.accepted)
        accepted := s.accepted + 1 } : SrvState).setWorker w
      { conn := s.accepted, calls := processAcceptTcpLink newfd }) r := by
  have hkeep : ∀ fd conn, s.fds fd = some conn →
      Function.update s.fds newfd (some s.accepted) fd = some conn := by
    intro fd conn hfd
    have hne : fd ≠ newfd := by
      intro heq
      subst heq
      rw [hfree] at hfd
      cases hfd
    rw [Function.update_of_ne hne, hfd]
  have hcases : ∀ fd conn, Function.update s.fds newfd (some s.accepted) fd = some conn →
      (fd = newfd ∧ conn = s.accepted) ∨ (fd ≠ newfd ∧ s.fds fd = some conn) := by
    intro fd conn hfd
    by_cases hne : fd = newfd
    · rw [hne, Function.update_self] at hfd
      exact Or.inl ⟨hne, (Option.some.inj hfd).symm⟩
    · rw [Function.update_of_ne hne] at hfd
      exact Or.inr ⟨hne, hfd⟩
  refine ⟨hs.table, ?_, ?_, ?_, ?_, hs.alone.update_quiet w (quiet_processAcceptTcpLink newfd)⟩
  · intro e fd he
    rcases hs.links e fd he with ⟨conn, hconn, hsaved⟩
    exact ⟨conn, hkeep fd conn hconn, hsaved⟩
  · intro fd conn hfd
    rcases hcases fd conn hfd with ⟨-, rfl⟩ | ⟨-, hfd⟩
    · exact Nat.lt_succ_self _
    · exact Nat.lt_succ_of_lt (hs.fresh fd conn hfd)
  · intro fd fd' conn hfd hfd'
    rcases hcases fd conn hfd with ⟨hn, hc⟩ | ⟨-, hfd⟩ <;>
      rcases hcases fd' conn hfd' with ⟨hn', hc'⟩ | ⟨-, hfd'⟩
    · exact hn.trans hn'.symm
    · exact absurd (hs.fresh fd' conn hfd') (hc ▸ Nat.lt_irrefl _)
    · exact absurd (hs.fresh fd conn hfd) (hc' ▸ Nat.lt_irrefl _)
    · exact hs.inj fd fd' conn hfd hfd'
  · exact workerOk_update rfl (.quiet (quiet_processAcceptTcpLink newfd)) fun w' _ =>
      (hs.worker w').mono (fun fd hfd => hkeep fd _ hfd) (fun _ h => h) (fun h => h)
        fun _ _ _ h => h

theorem Inv.recvTcp {s : SrvState} {r : Registry} (hs : Inv s r) (serverEndid : EndId)
    {w : Nat} {fd : Int32} {ret : RecvRet} {conn : Conn} (hfd : s.fds fd = some conn)
    (hopen : ¬ (ret ≠ .error ∧ ret ≠ .eof ∧ conn ∈ s.ended))
    (hG : NoOverlap s (.recvTcp w fd ret)) :
    Inv (({ s with
        saved := (savedEndid ret).map (conn, ·) ++ s.saved
        ended := if ret = .eof then conn :: s.ended else s.ended } : SrvState).setWorker w
      { conn := conn, calls := (recvTcpCliMsg serverEndid fd ret).1 }) r := by
  have hended : ∀ c ∈ s.ended, c ∈ if ret = .eof then conn :: s.ended else s.ended := by
    intro c hc
    by_cases heof : ret = .eof
    · rw [if_pos heof]
      exact List.mem_cons_of_mem conn hc
    · rw [if_neg heof]
      exact hc
  refine ⟨hs.table, ?_, hs.fresh, hs.inj, ?_, ?_⟩
  · intro e fd' he
    rcases hs.links e fd' he with ⟨conn', hconn, hsaved⟩
    exact ⟨conn', hconn, List.mem_append_right _ hsaved⟩
  · refine workerOk_update rfl ?_ fun w' _ => (hs.worker w').mono (fun _ h => h)
      (fun _ h => List.mem_append_right _ h) (hended _) fun _ _ _ h => h
    cases ret with
    | error => exact .quiet (by simp [recvTcpCliMsg])
    | eof => exact .ended hfd (by simp [SrvState.setWorker])
    | data c =>
        refine workerOk_handleTcpMsg serverEndid hfd ?_
        intro hsave
        simp [savedEndid, hsave, SrvState.setWorker]
  · cases ret with
    | error => exact hs.alone.update_quiet w (by simp [recvTcpCliMsg])
    | eof =>
        apply hs.alone.update w (fun _ w' _ hconn => hG conn hfd w' hconn)
        exact fun _ w' _ hconn hshut => hG conn hfd w' hconn hshut.touches
    | data c =>
        -- a connection being shut down has ended, so nothing is received on it
        apply hs.alone.update w
        · rintro ⟨c', hc', hshut⟩
          rw [shutsDown_handleTcpMsg serverEndid fd _ c' hc'] at hshut
          cases hshut
        · rintro - w' - hconn ⟨c', hc', hshut⟩
          rcases Option.isSome_iff_exists.mp hshut with ⟨fd', hfd'⟩
          have hended := ((hs.worker w').shutdown hc' hfd').2
          rw [hconn] at hended
          exact hopen ⟨by simp, by simp, hended⟩

theorem Inv.relink {s : SrvState} {r r' : Registry} (hs : Inv s r) {w : Nat} {c : SrvCall}
    {calls : List SrvCall} (hw : (s.workers w).calls = c :: calls)
    (hlinks : ∀ e fd, r'.get e = some (.tcp fd) →
      ∃ conn, s.fds fd = some conn ∧ (conn, e) ∈ s.saved)
    (hok : WorkerOk s r' (s.workers w).conn calls)
    (hrow : ∀ w', w' ≠ w → ∀ fd, s.fds fd = some (s.workers w').conn →
      .close fd ∈ (s.workers w').calls → NoRow r fd → NoRow r' fd) :
    Inv (({ s with table := r'.table } : SrvState).setWorker w
      { s.workers w with calls := calls }) r' := by
  refine ⟨rfl, hlinks, hs.fresh, hs.inj, ?_, hs.alone.update_tail hw⟩
  refine workerOk_update rfl (hok.mono (fun _ h => h) (fun _ h => h) (fun h => h)
    fun _ _ _ h => h) fun w' hne => ?_
  exact (hs.worker w').mono (fun _ h => h) (fun _ h => h) (fun h => h)
    fun fd hfd hclose hr => hrow w' hne fd hfd hclose hr

/-- A call that leaves the descriptors and the table alone. -/
theorem Inv.skip {s : SrvState} {r : Registry} (hs : Inv s r) {w : Nat} {c : SrvCall}
    {calls : List SrvCall} (hw : (s.workers w).calls = c :: calls)
    (hok : WorkerOk s r (s.workers w).conn calls) :
    Inv (s.setWorker w { s.workers w with calls := calls }) r := by
  have h := hs.relink hw hs.links hok fun _ _ _ _ _ h => h
  rw [← hs.table] at h
  exact h

theorem Inv.addUdp {s : SrvState} {r : Registry} (hs : Inv s r) {w : Nat} {calls : List SrvCall}
    {e : EndId} {ipaddr : UInt32} {port : UInt16}
    (hw : (s.workers w).calls = .addUdpCliToDatabase e ipaddr port :: calls)
    (hquiet : ∀ c ∈ calls, c.touches = false) :
    ∃ r', Inv ((runCall s (.addUdpCliToDatabase e ipaddr port)).setWorker w
      { s.workers w with calls := calls }) r' := by
  by_cases he : e ∈ r.keys
  · refine ⟨r, ?_⟩
    have h := hs.skip hw (.quiet hquiet)
    simp only [runCall, hs.table, Registry.add_udp_table, if_pos he]
    rw [← hs.table]
    exact h
  · refine ⟨r.set e (.udp ipaddr port), ?_⟩
    simp only [runCall, hs.table, Registry.add_udp_table, if_neg he]
    refine hs.relink hw ?_ (.quiet hquiet) ?_
    · intro e' fd hget
      rw [Lib.Assoc.get_set] at hget
      split at hget
      · cases hget
      · exact hs.links e' fd hget
    · intro w' _ fd _ _ hr e' hget
      rw [Lib.Assoc.get_set] at hget
      split at hget
      · cases hget
      · exact hr e' hget

theorem Inv.addTcp {s : SrvState} {r : Registry} (hs : Inv s r) {w : Nat} {e : EndId}
    {fd : Int32} {m : LcMsgPackage}
    (hw : (s.workers w).calls = [.addTcpCliToDatabase e fd, .sendMsgByTcp m fd])
    (hfd : s.fds fd = some (s.workers w).conn) (hsaved : ((s.workers w).conn, e) ∈ s.saved) :
    Inv ((runCall s (.addTcpCliToDatabase e fd)).setWorker w
      { s.workers w with calls := [.sendMsgByTcp m fd] }) (r.set e (.tcp fd)) := by
  simp only [runCall, hs.table, Registry.add_tcp_table]
  refine hs.relink hw ?_ (.quiet (by simp [SrvCall.touches, SrvCall.shutsDown])) ?_
  · intro e' fd' hget
    rw [Lib.Assoc.get_set] at hget
    split at hget
    · rename_i he
      cases hget
      exact ⟨_, hfd, he ▸ hsaved⟩
    · exact hs.links e' fd' hget
  · -- nobody is about to close the descriptor that is registered here
    intro w' hne fd' hfd' hclose hr e' hget
    rw [Lib.Assoc.get_set] at hget
    split at hget
    · cases hget
      have hconn := Option.some.inj (hfd'.symm.trans hfd)
      exact hne (hs.alone w' w ⟨_, hclose, rfl⟩ ⟨_, hw ▸ List.mem_cons_self, rfl⟩ hconn.symm).symm
    · exact hr e' hget

theorem Inv.delTcp {s : SrvState} {r : Registry} (hs : Inv s r) {w : Nat} {fd : Int32}
    (hw : (s.workers w).calls = [.delTcpCliFromDatabaseByFd fd, .close fd])
    (hfd : s.fds fd = some (s.workers w).conn) (hended : (s.workers w).conn ∈ s.ended) :
    Inv ((runCall s (.delTcpCliFromDatabaseByFd fd)).setWorker w
      { s.workers w with calls := [.close fd] }) (r.dropVal (.tcp fd)) := by
  have hget : ∀ e fd', (r.dropVal (.tcp fd)).get e = some (.tcp fd') →
      fd' ≠ fd ∧ r.get e = some (.tcp fd') := by
    intro e fd' h
    rw [Lib.Assoc.get_dropVal] at h
    split at h
    · cases h
    · rename_i hne
      refine ⟨?_, h⟩
      intro heq
      subst heq
      exact hne h
  simp only [runCall, hs.table, Registry.del_tcp_table]
  refine hs.relink hw (fun e fd' h => hs.links e fd' (hget e fd' h).2) ?_ ?_
  · exact .unregistered hfd hended fun e h => (hget e fd h).1 rfl
  · exact fun w' _ fd' _ _ hr e h => hr e (hget e fd' h).2

/-- The close finds no row with its descriptor and no other worker that relies on
    it. -/
theorem Inv.close {s : SrvState} {r : Registry} (hs : Inv s r) {w : Nat} {fd : Int32}
    (hw : (s.workers w).calls = [.close fd]) (hfd : s.fds fd = some (s.workers w).conn)
    (hrow : NoRow r fd) :
    Inv ((runCall s (.close fd)).setWorker w { s.workers w with calls := [] }) r := by
  have hother : ∀ fd' conn, s.fds fd' = some conn → fd' ≠ fd →
      Function.update s.fds fd none fd' = some conn := fun fd' conn h hne => by
    rw [Function.update_of_ne hne, h]
  have hback : ∀ fd' conn, Function.update s.fds fd none fd' = some conn →
      s.fds fd' = some conn := by
    intro fd' conn h
    by_cases hne : fd' = fd
    · rw [hne, Function.update_self] at h
      cases h
    · rwa [Function.update_of_ne hne] at h
  refine ⟨hs.table, ?_, fun fd' conn h => hs.fresh fd' conn (hback fd' conn h),
    fun a b conn ha hb => hs.inj a b conn (hback a conn ha) (hback b conn hb), ?_,
    hs.alone.update_tail hw⟩
  · intro e fd' hget
    rcases hs.links e fd' hget with ⟨conn, hconn, hsaved⟩
    refine ⟨conn, hother fd' conn hconn ?_, hsaved⟩
    intro heq
    subst heq
    exact hrow e hget
  · apply workerOk_update rfl (.quiet (by simp))
    intro w' hne
    by_cases htouch : (s.workers w').Touches
    · refine (hs.worker w').mono (fun fd' hfd' => hother fd' _ hfd' ?_) (fun _ h => h)
        (fun h => h) fun _ _ _ h => h
      intro heq
      subst heq
      have hconn := Option.some.inj (hfd'.symm.trans hfd)
      exact hne (hs.alone w w' ⟨_, hw ▸ List.mem_cons_self, rfl⟩ htouch hconn)
    · apply WorkerOk.quiet
      intro c hc
      by_contra hc'
      exact htouch ⟨c, hc, by simpa using hc'⟩

theorem Inv.call {s : SrvState} {r : Registry} (hs : Inv s r) {w : Nat} {c : SrvCall}
    {calls : List SrvCall} (hw : (s.workers w).calls = c :: calls) :
    ∃ r', Inv ((runCall s c).setWorker w { s.workers w with calls := calls }) r' := by
  have hok := hs.worker w
  rw [hw] at hok
  cases hok with
  | quiet hquiet =>
      have hc := hquiet c List.mem_cons_self
      have hrest : ∀ c' ∈ calls, c'.touches = false := fun c' h =>
        hquiet c' (List.mem_cons_of_mem c h)
      have hskip := hs.skip hw (.quiet hrest)
      cases c with
      | addUdpCliToDatabase e ipaddr port => exact hs.addUdp hw hrest
      | addTcpCliToDatabase e fd => cases hc
      | delFdFromSrvEpoll fd => cases hc
      | delTcpCliFromDatabaseByFd fd => cases hc
      | close fd => cases hc
      | addFdToSrvEpoll fd => exact ⟨r, hskip⟩
      | sendMsgByTcp m fd => exact ⟨r, hskip⟩
      | sendMsgByUdp m ipaddr port => exact ⟨r, hskip⟩
      | enSrvMsgQueue m => exact ⟨r, hskip⟩
  | registering hfd hsaved => exact ⟨_, hs.addTcp hw hfd hsaved⟩
  | ended hfd hended => exact ⟨r, hs.skip hw (.unwatched hfd hended)⟩
  | unwatched hfd hended => exact ⟨_, hs.delTcp hw hfd hended⟩
  | unregistered hfd hended hrow => exact ⟨r, hs.close hw hfd hrow⟩

/-- Every step without an overlap keeps the invariant. -/
theorem inv_step (serverEndid : EndId) (s : SrvState) (ev : SrvEvent) (t : SrvState)
    (hs : ∃ r, Inv s r) (hG : NoOverlap s ev) (hstep : srvStep serverEndid s ev = some t) :
    ∃ r, Inv t r := by
  obtain ⟨r, hs⟩ := hs
  cases ev with
  | accept w newfd =>
      rcases Option.ite_none_left_eq_some.mp hstep with ⟨-, haccept⟩
      by_cases hneg : newfd < 0
      · rw [if_pos hneg, Option.some.injEq] at haccept
        exact ⟨r, haccept ▸ hs⟩
      · simp only [hneg, if_false, Option.ite_none_left_eq_some, Option.some.injEq] at haccept
        rcases haccept with ⟨hfree, rfl⟩
        exact ⟨r, hs.accept w (by simpa using hfree)⟩
  | recvTcp w fd ret =>
      rcases Option.ite_none_left_eq_some.mp hstep with ⟨-, hrecv⟩
      split at hrecv
      · simp only [Option.ite_none_right_eq_some, Option.some.injEq] at hrecv
        exact ⟨r, hrecv.2 ▸ hs⟩
      · rename_i conn hfd
        simp only [Option.ite_none_left_eq_some, Option.some.injEq] at hrecv
        rcases hrecv with ⟨hopen, rfl⟩
        exact ⟨r, hs.recvTcp serverEndid hfd hopen hG⟩
  | recvUdp w ipaddr port ret =>
      simp only [srvStep, Option.ite_none_left_eq_some, Option.some.injEq] at hstep
      rcases hstep with ⟨-, rfl⟩
      have hquiet := quiet_recvUdpCliMsg serverEndid ipaddr port ret
      refine ⟨r, hs.table, hs.links, hs.fresh, hs.inj, ?_, hs.alone.update_quiet w hquiet⟩
      exact workerOk_update rfl (.quiet hquiet) fun w' _ => (hs.worker w').mono (fun _ h => h)
        (fun _ h => h) (fun h => h) fun _ _ _ h => h
  | call w =>
      simp only [srvStep] at hstep
      split at hstep
      · cases hstep
      · rename_i c calls hw
        cases hstep
        exact hs.call hw

/-! ## 6. Exactly without an overlap -/

theorem srvStep_call (serverEndid : EndId) {s : SrvState} {w : Nat} {c : SrvCall}
    {calls : List SrvCall} (hw : (s.workers w).calls = c :: calls) :
    srvStep serverEndid s (.call w) =
      some ((runCall s c).setWorker w { s.workers w with calls := calls }) := by
  simp only [srvStep, hw]

@[simp] theorem setWorker_self (s : SrvState) (w : Nat) (x : Worker) :
    (s.setWorker w x).workers w = x := by simp [SrvState.setWorker]

@[simp] theorem setWorker_of_ne (s : SrvState) {w w' : Nat} (x : Worker) (h : w' ≠ w) :
    (s.setWorker w x).workers w' = s.workers w' := by simp [SrvState.setWorker, h]

@[simp] theorem runCall_workers (s : SrvState) (c : SrvCall) :
    (runCall s c).workers = s.workers := by cases c <;> rfl

/-- Two workers shut the same connection down: the first to close leaves the other
    with a descriptor that means nothing. -/
theorem breaks_of_two_shutdowns (serverEndid : EndId) {t : SrvState} {w w' : Nat} {fd : Int32}
    (hne : w' ≠ w) (hw : (t.workers w).calls =
      [.delFdFromSrvEpoll fd, .delTcpCliFromDatabaseByFd fd, .close fd])
    (hw' : .close fd ∈ (t.workers w').calls) :
    ¬ Always (srvStep serverEndid) Owned t [.call w, .call w, .call w] := by
  intro h
  have h1 := h.2 _ (srvStep_call serverEndid hw)
  have h2 := h1.2 _ (srvStep_call serverEndid (by simp only [setWorker_self]; rfl))
  have h3 := h2.2 _ (srvStep_call serverEndid (by simp only [setWorker_self]; rfl))
  have hbad := (h3.head.shutdown w' (.close fd) (by simpa [hne] using hw') fd rfl).1
  simp [SrvState.setWorker, runCall] at hbad

/-- A registration that is carried out between the `DELETE` and the `close` of a
    shutdown leaves a row without a connection. -/
theorem breaks_of_late_registration (serverEndid : EndId) {t : SrvState} {r : Registry}
    (ht : t.table = r.table) {w w' : Nat} {e : EndId} {fd : Int32} {m : LcMsgPackage}
    (hne : w' ≠ w) (hw : (t.workers w).calls =
      [.delFdFromSrvEpoll fd, .delTcpCliFromDatabaseByFd fd, .close fd])
    (hw' : (t.workers w').calls = [.addTcpCliToDatabase e fd, .sendMsgByTcp m fd]) :
    ¬ Always (srvStep serverEndid) Owned t [.call w, .call w, .call w', .call w] := by
  intro h
  have h1 := h.2 _ (srvStep_call serverEndid hw)
  have h2 := h1.2 _ (srvStep_call serverEndid (by simp only [setWorker_self]; rfl))
  have h3 := h2.2 _ (srvStep_call serverEndid (w := w')
    (show _ = SrvCall.addTcpCliToDatabase e fd :: [.sendMsgByTcp m fd] by simp [hne, hw']))
  have h4 := h3.2 _ (srvStep_call serverEndid (w := w)
    (show _ = SrvCall.close fd :: [] by simp [hne.symm]))
  obtain ⟨conn, hconn, -⟩ := h4.head.forward e fd (by
    simp only [SrvState.setWorker, runCall, ht, Registry.del_tcp_table, Registry.add_tcp_table,
      Registry.get_cli_table]
    simp [Link.handle])
  simp [SrvState.setWorker, runCall] at hconn

/-- An overlap can be continued, by calls already begun, to a state in which the
    table or a shutdown is about the wrong connection. -/
theorem overlap_breaks (serverEndid : EndId) (s : SrvState) (ev : SrvEvent) (t : SrvState)
    (hs : ∃ r, Inv s r) (hno : ¬ NoOverlap s ev) (hstep : srvStep serverEndid s ev = some t) :
    ∃ fs, (∀ f ∈ fs, ∃ w, f = SrvEvent.call w) ∧ ¬ Always (srvStep serverEndid) Owned t fs := by
  obtain ⟨r, hs⟩ := hs
  match ev with
  | .recvTcp w fd .eof =>
      simp only [NoOverlap, not_forall, not_not] at hno
      obtain ⟨conn, hfd, w', hconn, htouch⟩ := hno
      simp only [srvStep, hfd] at hstep
      split at hstep
      · cases hstep
      rename_i hidle
      simp only [ne_eq, not_true_eq_false, false_and, and_false, if_false, Option.some.injEq]
        at hstep
      have hne : w' ≠ w := by
        intro heq
        subst heq
        obtain ⟨c, hc, -⟩ := htouch
        rw [not_not.mp hidle] at hc
        cases hc
      have hw : (t.workers w).calls =
          [.delFdFromSrvEpoll fd, .delTcpCliFromDatabaseByFd fd, .close fd] := by
        rw [← hstep, setWorker_self]
        rfl
      have hw' : t.workers w' = s.workers w' := by
        rw [← hstep, setWorker_of_ne _ _ hne]
      have hcalls : ∀ ws : List Nat, ∀ f ∈ ws.map SrvEvent.call, ∃ w, f = SrvEvent.call w := by
        intro ws f hf
        rcases List.mem_map.mp hf with ⟨a, -, rfl⟩
        exact ⟨a, rfl⟩
      -- the other worker is registering the connection or shutting it down
      have hok := hs.worker w'
      rw [hconn] at hok
      generalize hcs : (s.workers w').calls = calls at hok
      cases hok with
      | quiet hquiet =>
          obtain ⟨c, hc, htrue⟩ := htouch
          rw [hcs] at hc
          rw [hquiet c hc] at htrue
          cases htrue
      | registering hfd' =>
          obtain rfl := hs.inj _ _ conn hfd hfd'
          refine ⟨[w, w, w', w].map SrvEvent.call, hcalls _, ?_⟩
          have htable : t.table = r.table := by
            rw [← hstep]
            exact hs.table
          apply breaks_of_late_registration serverEndid htable hne hw
          rw [hw', hcs]
      | ended hfd' =>
          obtain rfl := hs.inj _ _ conn hfd hfd'
          refine ⟨[w, w, w].map SrvEvent.call, hcalls _, ?_⟩
          apply breaks_of_two_shutdowns serverEndid hne hw
          simp [hw', hcs]
      | unwatched hfd' =>
          obtain rfl := hs.inj _ _ conn hfd hfd'
          refine ⟨[w, w, w].map SrvEvent.call, hcalls _, ?_⟩
          apply breaks_of_two_shutdowns serverEndid hne hw
          simp [hw', hcs]
      | unregistered hfd' =>
          obtain rfl := hs.inj _ _ conn hfd hfd'
          refine ⟨[w, w, w].map SrvEvent.call, hcalls _, ?_⟩
          apply breaks_of_two_shutdowns serverEndid hne hw
          simp [hw', hcs]
  | .accept .. => exact absurd trivial hno
  | .recvTcp _ _ .error => exact absurd trivial hno
  | .recvTcp _ _ (.data _) => exact absurd trivial hno
  | .recvUdp .. => exact absurd trivial hno
  | .call _ => exact absurd trivial hno

theorem newSrv_inv : Inv newSrv Lib.Assoc.empty where
  table := rfl
  links := fun e fd h => by cases h
  fresh := fun fd conn h => by cases h
  inj := fun fd fd' conn h => by cases h
  worker := fun w => .quiet (by simp [newSrv])
  alone := fun w w' h => by
    obtain ⟨c, hc, -⟩ := h
    cases hc

/-- Whatever order the workers finish the calls they have begun in, from any point
    of the run on, every row, every shutdown and every lookup is about the right
    connection, if and only if `recv` never returns 0 on a connection that another worker
    is still registering or shutting down. -/
theorem ownership_iff_no_overlap (serverEndid : EndId) (evs : List SrvEvent) (s : SrvState)
    (hrun : exec (srvStep serverEndid) newSrv evs = some s) :
    (∀ pre, pre <+: evs → ∀ fs, (∀ f ∈ fs, ∃ w, f = SrvEvent.call w) →
        Always (srvStep serverEndid) Owned newSrv (pre ++ fs)) ↔
      Along (srvStep serverEndid) NoOverlap newSrv evs := by
  refine always_continued_iff_along (J := fun s => ∃ r, Inv s r) (inv_step serverEndid)
    (fun s ⟨r, hs⟩ => hs.owned) ?_ (overlap_breaks serverEndid) ⟨_, newSrv_inv⟩ hrun
  rintro s f ⟨w, rfl⟩
  trivial

/-- The receive of a whole registration of `endid`. -/
def registration (endid : EndId) : Chunk sizeofLcMsgPackage :=
  let m := LcMsgPackage.setSrcid (Buf.zero sizeofLcMsgPackage) endid
  ⟨m.bytes, by simp [m.size, sizeofLcMsgPackage], Nat.le_of_eq m.size⟩

/-- Client 7 registers and hangs up at once; worker 1 writes the row after worker 2
    deleted it, and the next client is given the number of the closed descriptor. -/
def reusedDescriptor : List SrvEvent :=
  [.accept 0 5, .call 0, .recvTcp 1 5 (.data (registration 7)), .recvTcp 2 5 .eof,
   .call 2, .call 2, .call 1, .call 2, .accept 3 5]

/-- A message for client 7 now goes to a connection on which 7 never registered. -/
theorem forwards_to_another_client :
    ∃ s, exec (srvStep 1) newSrv reusedDescriptor = some s ∧
      getCliByEndid s.table 7 .UNSET = .TCP_LINK 5 ∧ s.fds 5 = some 1 ∧ (1, 7) ∉ s.saved ∧
      ¬ Owned s := by
  have hrun : (exec (srvStep 1) newSrv reusedDescriptor).any (fun s =>
      getCliByEndid s.table 7 .UNSET = .TCP_LINK 5 ∧ s.fds 5 = some 1 ∧ (1, 7) ∉ s.saved) =
      true := by decide +kernel
  rcases (Option.any_eq_true _ _).mp hrun with ⟨s, hs, h⟩
  rcases of_decide_eq_true h with ⟨hget, hfd, hsaved⟩
  refine ⟨s, hs, hget, hfd, hsaved, ?_⟩
  intro howned
  rcases howned.forward 7 5 hget with ⟨conn, hconn, hmem⟩
  rw [hfd, Option.some.injEq] at hconn
  exact hsaved (hconn ▸ hmem)

/-- One client after the other on the same descriptor. -/
def oneAfterTheOther : List SrvEvent :=
  [.accept 0 5, .call 0, .recvTcp 1 5 .eof, .call 1, .call 1, .call 1, .accept 3 5]

theorem owned_one_after_the_other :
    Always (srvStep 1) Owned newSrv oneAfterTheOther := by
  obtain ⟨s, hs⟩ : ∃ s, exec (srvStep 1) newSrv oneAfterTheOther = some s := ⟨_, rfl⟩
  have halong : Along (srvStep 1) NoOverlap newSrv oneAfterTheOther := by
    simp only [oneAfterTheOther, Along, NoOverlap, true_and, implies_true, and_true]
    rintro t ht u hu conn - w - ⟨c, hc, -⟩
    obtain rfl := Option.some.inj (ht.symm.trans rfl)
    obtain rfl := Option.some.inj (hu.symm.trans rfl)
    by_cases hw : w = 0
    · simp [hw] at hc
    · simp [SrvState.setWorker, runCall, newSrv] at hc
  have h := (ownership_iff_no_overlap 1 oneAfterTheOther s hs).mpr halong oneAfterTheOther
    (List.prefix_refl _) [] (by simp)
  simpa using h

end SocketPractice.Socket
