import SocketPractice.Lib.EdgeTriggered
import SocketPractice.SocketTcp.ServerEpoll

/-!
# Edge-triggered readiness (`server_epoll.c`)

`ProcessEpoll` waits for events and passes each to `ProcessEventsByFd`, which makes one
`accept` or one `recv` of it.  The descriptors are watched with `EPOLLET`: arrivals that
no report separates are reported together, once, and then all but one of them stay.

The kernel is seen through the calls the handlers make.  A connection can be sent
messages before it is accepted, and these are reported when it is watched.  Messages
come whole, and a peer does not hang up.
-/

namespace SocketPractice.SocketTcp

open Lib.Bytes Lib.Runs Lib.EdgeTriggered

/-! ## 1. The kernel -/

/-- A socket the server reads; connections are numbered as they come. -/
inductive Sock where
  | listen
  | stdin
  | conn (c : Nat)
deriving DecidableEq, Repr

/-- The unread connections of `listen` are its backlog. -/
structure Kernel where
  ports : Ports Sock
  accepted : Nat
  /-- The connection that a descriptor belongs to. -/
  connOf : Int32 → Option Nat

def Kernel.sockOf (serverFd : ServerFd) (k : Kernel) (fd : Int32) : Option Sock :=
  if fd = serverFd.fd then some .listen
  else if fd = STDIN_FILENO then some .stdin
  else (k.connOf fd).map .conn

/-- The connection exists: it was accepted or is in the backlog. -/
def Kernel.exists (k : Kernel) : Sock → Bool
  | .conn c => c < k.accepted + k.ports.unread .listen
  | _ => true

def IsWhole : RecvRet sizeofMsgBuf → Prop
  | .data c => c.bytes.length = sizeofMsgBuf
  | _ => False

instance (r : RecvRet sizeofMsgBuf) : Decidable (IsWhole r) := by
  unfold IsWhole
  split <;> infer_instance

/-- The first connection of the backlog is given a descriptor. -/
def Kernel.accept (k : Kernel) (fd : Int32) : Kernel :=
  { ports := k.ports.read .listen
    accepted := k.accepted + 1
    connOf := Function.update k.connOf fd (some k.accepted) }

def Kernel.read (k : Kernel) (sock : Sock) : Kernel := { k with ports := k.ports.read sock }

def Kernel.watch (k : Kernel) (c : Nat) : Kernel := { k with ports := k.ports.watch (.conn c) }

/-- The kernel after a call; `none` if the call blocks or would not return this. -/
def kernelCall (k : Kernel) : SrvCall → Option Kernel
  | .accept fd =>
      if fd ≠ -1 ∧ 0 < k.ports.unread .listen then some (k.accept fd) else none
  | .addEpollByFd fd => (k.connOf fd).map k.watch
  | .read _ => if 0 < k.ports.unread .stdin then some (k.read .stdin) else none
  | .recv fd r =>
      (k.connOf fd).bind fun c =>
        if IsWhole r ∧ 0 < k.ports.unread (.conn c) then some (k.read (.conn c)) else none
  | _ => some k

/-! ## 2. The loop -/

def MAXEVENTS : Nat := 200

/-- The thread in `ProcessEpoll`; `events` are what is left of `epEventsArr`. -/
structure EpollState where
  srv : SrvState
  kernel : Kernel
  events : List Int32

inductive EpollEvent where
  | arrive (k : Sock)
  | epollWait (fds : List Int32)
  | process (k : Answers)

/-- `epoll_wait` is called when the events are dealt with; it reports ready sockets. -/
def epollStep (serverFd : ServerFd) (s : EpollState) : EpollEvent → Option EpollState
  | .arrive k =>
      if s.kernel.exists k then
        some { s with kernel := { s.kernel with ports := s.kernel.ports.arrive k } }
      else none
  | .epollWait fds =>
      if s.events = [] ∧ fds.length ≤ MAXEVENTS ∧ (fds.map (s.kernel.sockOf serverFd)).Nodup ∧
          fds.all (fun fd => (s.kernel.sockOf serverFd fd).any s.kernel.ports.edge) = true then
        let ports := s.kernel.ports.report (fds.filterMap (s.kernel.sockOf serverFd))
        some { s with kernel := { s.kernel with ports := ports }, events := fds }
      else none
  | .process k =>
      match s.events with
      | [] => none
      | fd :: events =>
          if Possible serverFd s.srv ⟨fd, k⟩ then
            let handled := processEventsByFd serverFd s.srv fd k
            (exec kernelCall s.kernel handled.2.1).map fun kernel =>
              { srv := handled.1, kernel := kernel, events := events }
          else none

def newKernel : Kernel :=
  { ports := Ports.new fun k => match k with
      | .conn _ => false
      | _ => true
    accepted := 0, connOf := fun _ => none }

/-- The server after `InitEpoll`. -/
def newEpoll : EpollState := { srv := newSrv, kernel := newKernel, events := [] }

/-- No event is pending, and those that were reported are handled. -/
structure Quiescent (s : EpollState) : Prop where
  edge : ∀ k, s.kernel.ports.edge k = false
  events : s.events = []

structure Drained (s : EpollState) : Prop where
  backlog : s.kernel.ports.unread .listen = 0
  clients : ∀ c, s.kernel.ports.unread (.conn c) = 0

/-- Nothing arrives at the listening socket or at a client socket while an earlier
    arrival there is unreported. -/
def Reported (s : EpollState) : EpollEvent → Prop
  | .arrive k => k ≠ .stdin → s.kernel.ports.pending k = false
  | _ => True

instance (s : EpollState) (e : EpollEvent) : Decidable (Reported s e) := by
  unfold Reported
  split <;> infer_instance

/-! ## 3. What the handlers do to the kernel -/

section Kernel

variable {k k' : Kernel} {serverFd : ServerFd} {fd : Int32}

/-- The calls that read nothing and watch nothing. -/
def NoRead : SrvCall → Prop
  | .accept _ => False
  | .addEpollByFd _ => False
  | .read _ => False
  | .recv _ _ => False
  | _ => True

theorem exec_kernelCall_of_noRead {calls : List SrvCall} (h : ∀ call ∈ calls, NoRead call)
    (k : Kernel) : exec kernelCall k calls = some k := by
  induction calls with
  | nil => rfl
  | cons call calls ih =>
      obtain ⟨hcall, hcalls⟩ := List.forall_mem_cons.mp h
      have hkeep : kernelCall k call = some k := by
        cases call <;> first | rfl | exact absurd hcall id
      rw [exec_cons, hkeep]
      exact ih hcalls

theorem kernelCall_merged {call : SrvCall} (h : kernelCall k call = some k') :
    k'.ports.merged = k.ports.merged := by
  cases call with
  | accept fd =>
      simp only [kernelCall, Option.ite_none_right_eq_some, Option.some.injEq] at h
      obtain ⟨-, rfl⟩ := h
      rfl
  | addEpollByFd fd =>
      obtain ⟨c, -, rfl⟩ := Option.map_eq_some_iff.mp h
      rfl
  | read r =>
      simp only [kernelCall, Option.ite_none_right_eq_some, Option.some.injEq] at h
      obtain ⟨-, rfl⟩ := h
      rfl
  | recv fd r =>
      obtain ⟨c, -, hc⟩ := Option.bind_eq_some_iff.mp h
      simp only [Option.ite_none_right_eq_some, Option.some.injEq] at hc
      obtain ⟨-, rfl⟩ := hc
      rfl
  | _ =>
      obtain rfl := Option.some.inj h
      rfl

theorem exec_kernelCall_merged {calls : List SrvCall}
    (h : exec kernelCall k calls = some k') : k'.ports.merged = k.ports.merged := by
  apply exec_invariant (I := fun t : Kernel => t.ports.merged = k.ports.merged) ?_ rfl h
  intro s call t hs hstep
  exact (kernelCall_merged hstep).trans hs

/-- An event of the listening socket: a connection is accepted and watched. -/
theorem exec_kernelCall_accept {s : SrvState} {a : Answers}
    (h : exec kernelCall k (processEventsByFd serverFd s serverFd.fd a).2.1 = some k') :
    a.accept ≠ -1 ∧ k' = (k.accept a.accept).watch k.accepted := by
  rw [processEventsByFd, if_pos rfl] at h
  by_cases hacc : a.accept = -1
  · simp [acceptNewClient, hacc, exec_cons, kernelCall] at h
  · refine ⟨hacc, ?_⟩
    simp only [acceptNewClient, if_neg hacc] at h
    obtain ⟨k₁, hk₁, hrest⟩ := exec_cons_eq_some.mp h
    simp only [kernelCall, Option.ite_none_right_eq_some, Option.some.injEq] at hk₁
    obtain ⟨-, rfl⟩ := hk₁
    simpa [exec_cons, kernelCall, Kernel.accept] using hrest.symm

theorem exec_kernelCall_stdin {s : SrvState} {a : Answers}
    (h : exec kernelCall k (processEventsByFd serverFd s STDIN_FILENO a).2.1 = some k') :
    k' = k.read .stdin := by
  rw [processEventsByFd, if_neg (Ne.symm serverFd.ne_stdin), if_pos rfl] at h
  have hcalls : ∃ r rest, (broadcastAllClient s a).2.1 = .read r :: rest ∧
      ∀ call ∈ rest, NoRead call := by
    unfold broadcastAllClient
    cases a.read with
    | none => exact ⟨none, [], rfl, by simp⟩
    | some typed =>
        refine ⟨some typed, _, rfl, ?_⟩
        intro call hcall
        obtain ⟨fd, m, rfl⟩ := mem_sendMsgAllClient hcall
        trivial
  obtain ⟨r, rest, hcalls, hrest⟩ := hcalls
  simp only [hcalls] at h
  obtain ⟨k₁, hk₁, hexec⟩ := exec_cons_eq_some.mp h
  rw [exec_kernelCall_of_noRead hrest] at hexec
  simp only [kernelCall, Option.ite_none_right_eq_some, Option.some.injEq] at hk₁
  obtain ⟨-, rfl⟩ := hk₁
  exact (Option.some.inj hexec).symm

/-- An event of a client: one message is received. -/
theorem exec_kernelCall_client {s : SrvState} {a : Answers} (hclient : IsClient serverFd s fd)
    (h : exec kernelCall k (processEventsByFd serverFd s fd a).2.1 = some k') :
    a.recv ≠ .eof ∧ ∃ c, k.connOf fd = some c ∧ k' = k.read (.conn c) := by
  rw [processEventsByFd_client hclient] at h
  obtain ⟨call, hcalls, hcall⟩ := clientMsgEnQueue_calls a hclient.2.2
  simp only [hcalls] at h
  obtain ⟨k₁, hk₁, hexec⟩ := exec_cons_eq_some.mp h
  obtain ⟨c, hc, hread⟩ := Option.bind_eq_some_iff.mp hk₁
  simp only [Option.ite_none_right_eq_some, Option.some.injEq] at hread
  obtain ⟨⟨hwhole, -⟩, rfl⟩ := hread
  have hdata : ∃ chunk, a.recv = .data chunk := by
    cases hrecv : a.recv with
    | data chunk => exact ⟨chunk, rfl⟩
    | error => simp [hrecv, IsWhole] at hwhole
    | eof => simp [hrecv, IsWhole] at hwhole
  obtain ⟨chunk, hrecv⟩ := hdata
  have hrest : ∀ call' ∈ call.toList, NoRead call' := by
    intro call' hcall'
    rw [hrecv] at hcall
    simp only at hcall
    split at hcall
    · obtain ⟨m, rfl, -⟩ := hcall
      rw [List.mem_singleton.mp hcall']
      trivial
    · subst hcall
      rw [List.mem_singleton.mp hcall']
      trivial
  rw [exec_kernelCall_of_noRead hrest] at hexec
  exact ⟨by rw [hrecv]; simp, c, hc, (Option.some.inj hexec).symm⟩

end Kernel

/-! ## 4. The invariant -/

/-- The sockets of the events in hand. -/
def EpollState.reads (serverFd : ServerFd) (s : EpollState) : List Sock :=
  s.events.filterMap (s.kernel.sockOf serverFd)

structure EpollInv (serverFd : ServerFd) (s : EpollState) : Prop where
  account : Account s.kernel.ports (s.reads serverFd)
  known : ∀ fd ∈ s.events, (s.kernel.sockOf serverFd fd).isSome
  table : ∀ fd c, s.kernel.connOf fd = some c → fd ∈ fds s.srv.cliInfoManager
  listen : s.kernel.ports.watched .listen = true
  accepted : ∀ c, s.kernel.ports.watched (.conn c) = true ↔ c < s.kernel.accepted
  absent : ∀ c, s.kernel.accepted + s.kernel.ports.unread .listen ≤ c →
    s.kernel.ports.unread (.conn c) = 0

section Step

variable {serverFd : ServerFd} {s t : EpollState}

theorem EpollInv.arrive (h : EpollInv serverFd s) {k : Sock} (hk : s.kernel.exists k = true) :
    EpollInv serverFd
      { s with kernel := { s.kernel with ports := s.kernel.ports.arrive k } } := by
  refine { h with account := h.account.arrive k, absent := ?_ }
  intro c hc
  simp only [Ports.unread_arrive] at hc ⊢
  have hne : Sock.conn c ≠ k := by
    intro heq
    subst heq
    simp only [Kernel.exists, decide_eq_true_eq] at hk
    rw [if_neg (by simp)] at hc
    omega
  rw [if_neg hne]
  apply h.absent c
  refine Nat.le_trans (Nat.add_le_add_left ?_ _) hc
  split
  · rename_i hlisten
    rw [hlisten]
    exact Nat.le_succ _
  · exact Nat.le_refl _

theorem EpollInv.report (h : EpollInv serverFd s) {fds : List Int32} (hnil : s.events = [])
    (hnodup : (fds.map (s.kernel.sockOf serverFd)).Nodup)
    (hedge : ∀ fd ∈ fds, (s.kernel.sockOf serverFd fd).any s.kernel.ports.edge = true) :
    EpollInv serverFd { s with
      kernel := { s.kernel with
        ports := s.kernel.ports.report (fds.filterMap (s.kernel.sockOf serverFd)) }
      events := fds } := by
  refine { h with account := ?_, known := ?_ }
  · have hreads : s.reads serverFd = [] := by
      rw [EpollState.reads, hnil, List.filterMap_nil]
    have hacc := h.account
    rw [hreads] at hacc
    have hnodup' : (fds.filterMap (s.kernel.sockOf serverFd)).Nodup := by
      have hmap : fds.filterMap (s.kernel.sockOf serverFd) =
          (fds.map (s.kernel.sockOf serverFd)).filterMap id := by
        rw [List.filterMap_map]
        rfl
      rw [hmap]
      apply hnodup.filterMap
      rintro a b k hka hkb
      exact (Option.mem_def.mp hka).trans (Option.mem_def.mp hkb).symm
    have hready : ∀ k ∈ fds.filterMap (s.kernel.sockOf serverFd), s.kernel.ports.edge k = true := by
      intro k hk
      obtain ⟨fd, hfd, hsock⟩ := List.mem_filterMap.mp hk
      have hany := hedge fd hfd
      rwa [hsock, Option.any_some] at hany
    have hacc' := hacc.report hnodup' hready
    rwa [Multiset.coe_nil, add_zero] at hacc'
  · intro fd hfd
    obtain ⟨k, hk, -⟩ := (Option.any_eq_true _ _).mp (hedge fd hfd)
    exact Option.isSome_iff_exists.mpr ⟨k, hk⟩

/-- A read leaves everything but the account as it is. -/
theorem EpollInv.read (h : EpollInv serverFd s) {fd : Int32} {events : List Int32} {k : Sock}
    (hevents : s.events = fd :: events) (hsock : s.kernel.sockOf serverFd fd = some k)
    (hk : k ≠ .listen) {srv : SrvState} (hfds : fds srv.cliInfoManager = fds s.srv.cliInfoManager) :
    EpollInv serverFd { srv := srv, kernel := s.kernel.read k, events := events } := by
  have hreads : s.reads serverFd = k :: events.filterMap (s.kernel.sockOf serverFd) := by
    rw [EpollState.reads, hevents, List.filterMap_cons, hsock]
  have hacc := h.account
  rw [hreads, ← Multiset.cons_coe] at hacc
  have hlisten : (s.kernel.ports.read k).unread .listen = s.kernel.ports.unread .listen := by
    rw [Ports.unread_read, if_neg (Ne.symm hk)]
  refine { account := hacc.read, known := ?_, table := ?_, listen := h.listen,
           accepted := h.accepted, absent := ?_ }
  · exact fun fd' hfd' => h.known fd' (hevents ▸ List.mem_cons_of_mem fd hfd')
  · intro fd' c hc
    rw [hfds]
    exact h.table fd' c hc
  · intro c hc
    have hzero := h.absent c (by rw [← hlisten]; exact hc)
    show (s.kernel.ports.read k).unread (.conn c) = 0
    rw [Ports.unread_read]
    split
    · rename_i heq
      rw [← heq, hzero]
    · exact hzero

/-- What is accepted is watched at once, under a descriptor that was not in use. -/
theorem EpollInv.accept (h : EpollInv serverFd s) {events : List Int32} {a : Int32}
    (hevents : s.events = serverFd.fd :: events) (hstdin : a ≠ STDIN_FILENO)
    (hserver : a ≠ serverFd.fd) (hnew : a ∉ fds s.srv.cliInfoManager) {srv : SrvState}
    (hfds : fds srv.cliInfoManager = a :: fds s.srv.cliInfoManager) :
    EpollInv serverFd
      { srv := srv, kernel := (s.kernel.accept a).watch s.kernel.accepted, events := events } := by
  have hfresh : s.kernel.connOf a = none := by
    rw [Option.eq_none_iff_forall_ne_some]
    exact fun c hc => hnew (h.table a c hc)
  have hevent : a ∉ events := by
    intro hmem
    have hsome := h.known a (hevents ▸ List.mem_cons_of_mem _ hmem)
    simp [Kernel.sockOf, hstdin, hserver, hfresh] at hsome
  -- the new descriptor is none of those in hand
  have hsame : ∀ fd ∈ events, ((s.kernel.accept a).watch s.kernel.accepted).sockOf serverFd fd =
      s.kernel.sockOf serverFd fd := by
    intro fd hfd
    have hne : fd ≠ a := fun heq => hevent (heq ▸ hfd)
    simp only [Kernel.sockOf, Kernel.watch, Kernel.accept, Function.update_of_ne hne]
  have hreads : s.reads serverFd = .listen :: events.filterMap (s.kernel.sockOf serverFd) := by
    rw [EpollState.reads, hevents, List.filterMap_cons]
    simp [Kernel.sockOf]
  have hacc := h.account
  rw [hreads, ← Multiset.cons_coe] at hacc
  have hpos := hacc.ready
  have hunwatched : (s.kernel.ports.read .listen).watched (.conn s.kernel.accepted) = false := by
    rw [← Bool.not_eq_true]
    exact fun hw => Nat.lt_irrefl _ ((h.accepted _).mp hw)
  refine { account := ?_, known := ?_, table := ?_, listen := ?_, accepted := ?_, absent := ?_ }
  · rw [EpollState.reads, List.filterMap_congr hsame]
    exact hacc.read.watch hunwatched
  · intro fd hfd
    rw [hsame fd hfd]
    exact h.known fd (hevents ▸ List.mem_cons_of_mem _ hfd)
  · intro fd c hc
    rw [hfds]
    by_cases heq : fd = a
    · exact heq ▸ List.mem_cons_self
    · simp only [Kernel.watch, Kernel.accept, Function.update_of_ne heq] at hc
      exact List.mem_cons_of_mem _ (h.table fd c hc)
  · simp only [Kernel.watch, Ports.watched_watch]
    exact h.listen
  · intro c
    have hold := h.accepted c
    simp only [Kernel.watch, Kernel.accept, Ports.watched_watch]
    by_cases heq : c = s.kernel.accepted
    · simp [heq]
    · rw [if_neg (by simpa using heq)]
      exact hold.trans (by omega)
  · intro c hc
    simp only [Kernel.watch, Kernel.accept, Ports.unread_watch, Ports.unread_read, if_true]
      at hc ⊢
    rw [if_neg (by simp)]
    exact h.absent c (by omega)

theorem EpollInv.process (h : EpollInv serverFd s) {k : Answers}
    (hstep : epollStep serverFd s (.process k) = some t) : EpollInv serverFd t := by
  rcases hevents : s.events with _ | ⟨fd, events⟩
  · simp [epollStep, hevents] at hstep
  simp only [epollStep, hevents, Option.ite_none_right_eq_some] at hstep
  obtain ⟨hpossible, hstep⟩ := hstep
  obtain ⟨kernel, hexec, rfl⟩ := Option.map_eq_some_iff.mp hstep
  have hfds := fds_processEventsByFd serverFd s.srv ⟨fd, k⟩
  simp only [openAfter] at hfds
  by_cases hserver : fd = serverFd.fd
  · subst hserver
    obtain ⟨hacc, rfl⟩ := exec_kernelCall_accept hexec
    rw [if_pos rfl, if_neg hacc] at hfds
    obtain ⟨hstdin, hserver, hnew⟩ := hpossible rfl
    exact h.accept hevents hstdin hserver hnew hfds
  · rw [if_neg hserver] at hfds
    by_cases hstdin : fd = STDIN_FILENO
    · subst hstdin
      obtain rfl := exec_kernelCall_stdin hexec
      rw [if_pos rfl] at hfds
      refine h.read hevents ?_ (by simp) hfds
      rw [Kernel.sockOf, if_neg hserver, if_pos rfl]
    · have hsome := h.known fd (hevents ▸ List.mem_cons_self)
      rw [Kernel.sockOf, if_neg hserver, if_neg hstdin, Option.isSome_map] at hsome
      obtain ⟨c, hc⟩ := Option.isSome_iff_exists.mp hsome
      obtain ⟨heof, c', hc', rfl⟩ :=
        exec_kernelCall_client ⟨hserver, hstdin, h.table fd c hc⟩ hexec
      rw [if_neg hstdin, if_neg heof] at hfds
      refine h.read hevents ?_ (by simp) hfds
      rw [Kernel.sockOf, if_neg hserver, if_neg hstdin, hc']
      rfl

theorem epollInv_step (serverFd : ServerFd) (s : EpollState) (e : EpollEvent) (t : EpollState)
    (h : EpollInv serverFd s) (hstep : epollStep serverFd s e = some t) :
    EpollInv serverFd t := by
  cases e with
  | arrive k =>
      simp only [epollStep, Option.ite_none_right_eq_some, Option.some.injEq] at hstep
      obtain ⟨hk, rfl⟩ := hstep
      exact h.arrive hk
  | epollWait fds =>
      simp only [epollStep, Option.ite_none_right_eq_some, Option.some.injEq] at hstep
      obtain ⟨⟨hnil, -, hnodup, hedge⟩, rfl⟩ := hstep
      exact h.report hnil hnodup (List.all_eq_true.mp hedge)
  | process k => exact h.process hstep

theorem newEpoll_inv (serverFd : ServerFd) : EpollInv serverFd newEpoll where
  account := Account.new _
  known := fun fd hfd => absurd hfd List.not_mem_nil
  table := fun fd c hc => by cases hc
  listen := rfl
  accepted := fun c => by simp [newEpoll, newKernel, Ports.new]
  absent := fun c _ => rfl

/-- What the handler of an event reads is there: neither `accept` nor `recv` blocks. -/
theorem EpollInv.ready (h : EpollInv serverFd s) {fd : Int32} {events : List Int32}
    (hevents : s.events = fd :: events) :
    ∃ k, s.kernel.sockOf serverFd fd = some k ∧ 0 < s.kernel.ports.unread k := by
  obtain ⟨k, hk⟩ := Option.isSome_iff_exists.mp (h.known fd (hevents ▸ List.mem_cons_self))
  have hacc := h.account
  rw [EpollState.reads, hevents, List.filterMap_cons, hk, ← Multiset.cons_coe] at hacc
  exact ⟨k, hk, hacc.ready⟩

/-! ## 5. Runs -/

/-- Only an arrival merges anything. -/
theorem merged_step (serverFd : ServerFd) (s : EpollState) (e : EpollEvent) (t : EpollState)
    (hstep : epollStep serverFd s e = some t) :
    (∀ k, k ≠ .stdin → t.kernel.ports.merged k = 0) ↔
      (∀ k, k ≠ .stdin → s.kernel.ports.merged k = 0) ∧ Reported s e := by
  cases e with
  | arrive k =>
      simp only [epollStep, Option.ite_none_right_eq_some, Option.some.injEq] at hstep
      obtain ⟨-, rfl⟩ := hstep
      exact merged_arrive_iff s.kernel.ports k (· ≠ .stdin)
  | epollWait fds =>
      simp only [epollStep, Option.ite_none_right_eq_some, Option.some.injEq] at hstep
      obtain ⟨-, rfl⟩ := hstep
      exact (and_iff_left trivial).symm
  | process k =>
      rcases hevents : s.events with _ | ⟨fd, events⟩
      · simp [epollStep, hevents] at hstep
      · simp only [epollStep, hevents, Option.ite_none_right_eq_some] at hstep
        obtain ⟨-, hstep⟩ := hstep
        obtain ⟨kernel, hexec, rfl⟩ := Option.map_eq_some_iff.mp hstep
        simp only [exec_kernelCall_merged hexec]
        exact (and_iff_left trivial).symm

theorem EpollInv.drained_iff (h : EpollInv serverFd s) (hq : Quiescent s) :
    Drained s ↔ ∀ k, k ≠ .stdin → s.kernel.ports.merged k = 0 := by
  have hacc : Account s.kernel.ports 0 := by
    have hacc := h.account
    rwa [EpollState.reads, hq.events] at hacc
  have hlisten := hacc.unread_eq_merged hq.edge h.listen
  constructor
  · rintro ⟨hbacklog, hclients⟩ k hk
    have hbal := hacc.balance k
    cases k with
    | listen => exact hlisten ▸ hbacklog
    | stdin => exact absurd rfl hk
    | conn c =>
        rw [hclients c] at hbal
        omega
  · intro hmerged
    have hbacklog : s.kernel.ports.unread .listen = 0 := hlisten.trans (hmerged _ (by simp))
    refine ⟨hbacklog, ?_⟩
    intro c
    by_cases hc : c < s.kernel.accepted
    · rw [hacc.unread_eq_merged hq.edge ((h.accepted c).mpr hc)]
      exact hmerged _ (by simp)
    · apply h.absent c
      omega

/-- When no event is pending and all are handled, no connection and no message is left
    exactly if, all along, nothing arrived at a socket with an arrival not yet reported. -/
theorem epoll_drained_iff_reported (serverFd : ServerFd) (evs : List EpollEvent) (s : EpollState)
    (hrun : exec (epollStep serverFd) newEpoll evs = some s) (hquiet : Quiescent s) :
    Drained s ↔ Along (epollStep serverFd) Reported newEpoll evs := by
  have hinv := exec_invariant (epollInv_step serverFd) (newEpoll_inv serverFd) hrun
  rw [hinv.drained_iff hquiet,
    exec_iff_along (I := fun s => ∀ k, k ≠ .stdin → s.kernel.ports.merged k = 0)
      (merged_step serverFd) hrun]
  exact and_iff_right fun _ _ => rfl

/-- Only the sockets of accepted connections have to be looked at. -/
theorem EpollInv.quiescent (h : EpollInv serverFd s) (hevents : s.events = [])
    (hlisten : s.kernel.ports.edge .listen = false) (hstdin : s.kernel.ports.edge .stdin = false)
    (hconns : ∀ c < s.kernel.accepted, s.kernel.ports.edge (.conn c) = false) : Quiescent s := by
  refine ⟨?_, hevents⟩
  intro k
  cases k with
  | listen => exact hlisten
  | stdin => exact hstdin
  | conn c =>
      rw [← Bool.not_eq_true]
      intro hedge
      have hc := (h.accepted c).mp (h.account.edge_watched _ hedge)
      rw [hconns c hc] at hedge
      cases hedge

def wholeMsg : Answers := (recvEvent 5 (MsgBuf.chunk (Buf.zero sizeofMsgBuf))).answers

/-- Two messages of a client before `epoll_wait` is called again. -/
def twoMessages : List EpollEvent :=
  [.arrive .listen, .epollWait [3], .process (acceptEvent 5).answers, .arrive (.conn 0),
   .arrive (.conn 0), .epollWait [5], .process wholeMsg]

/-- What is left of a run: the events, and of one connection the ready list and what
    is unread. -/
def EpollState.left (s : EpollState) : List Int32 × Nat × List Bool × Nat :=
  (s.events, s.kernel.accepted,
    [s.kernel.ports.edge .listen, s.kernel.ports.edge .stdin, s.kernel.ports.edge (.conn 0)],
    s.kernel.ports.unread (.conn 0))

theorem message_left_unread :
    ∃ s, exec (epollStep listening) newEpoll twoMessages = some s ∧ Quiescent s ∧
      ¬ Drained s := by
  have hrun : (exec (epollStep listening) newEpoll twoMessages).map EpollState.left =
      some ([], 1, [false, false, false], 1) := by
    decide +kernel
  obtain ⟨s, hs, hleft⟩ := Option.map_eq_some_iff.mp hrun
  simp only [EpollState.left, Prod.mk.injEq, List.cons.injEq] at hleft
  obtain ⟨hevents, haccepted, ⟨hlisten, hstdin, hconn, -⟩, hunread⟩ := hleft
  have hinv := exec_invariant (epollInv_step listening) (newEpoll_inv listening) hs
  refine ⟨s, hs, hinv.quiescent hevents hlisten hstdin ?_, ?_⟩
  · intro c hc
    obtain rfl : c = 0 := by omega
    exact hconn
  · intro h
    rw [h.clients 0] at hunread
    cases hunread

/-- Each message is reported before the next one comes. -/
def messageByMessage : List EpollEvent :=
  [.arrive .listen, .epollWait [3], .process (acceptEvent 5).answers, .arrive (.conn 0),
   .epollWait [5], .arrive (.conn 0), .process wholeMsg, .epollWait [5],
   .process wholeMsg]

theorem epoll_drained_messageByMessage :
    ∃ s, exec (epollStep listening) newEpoll messageByMessage = some s ∧ Quiescent s ∧
      Drained s := by
  have hrun : (exec (epollStep listening) newEpoll messageByMessage).map EpollState.left =
      some ([], 1, [false, false, false], 0) := by
    decide +kernel
  obtain ⟨s, hs, hleft⟩ := Option.map_eq_some_iff.mp hrun
  simp only [EpollState.left, Prod.mk.injEq, List.cons.injEq] at hleft
  obtain ⟨hevents, haccepted, ⟨hlisten, hstdin, hconn, -⟩, -⟩ := hleft
  have hinv := exec_invariant (epollInv_step listening) (newEpoll_inv listening) hs
  have hquiet : Quiescent s := by
    apply hinv.quiescent hevents hlisten hstdin
    intro c hc
    obtain rfl : c = 0 := by omega
    exact hconn
  refine ⟨s, hs, hquiet, ?_⟩
  apply (epoll_drained_iff_reported listening messageByMessage s hs hquiet).mpr
  decide +kernel

end Step

end SocketPractice.SocketTcp
