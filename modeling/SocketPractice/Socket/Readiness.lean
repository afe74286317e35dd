import SocketPractice.Lib.EdgeTriggered
import SocketPractice.Lib.Runs
import SocketPractice.Lib.Threads

/-!
# Edge-triggered readiness (`server_epoll.c`)

Every descriptor is watched with `EPOLLET`: arrivals since the last report are
reported together, once.  `server_epoll_thread` makes one task of each report, and
a task makes one `accept`, `recv` or `recvfrom`.  So one arrival of several that
share a report is read, and the others stay until something new arrives.

The model has the three kinds of sockets with the number of arrivals not read, the
ready list of the kernel, the events the epoll thread has in hand, the task queue
of the pool and the positions of its workers.  A connection can be sent messages
before it is accepted, and before it is watched.
-/

namespace SocketPractice.Socket

open Lib.EdgeTriggered Lib.Runs Lib.Threads

/-! ## 1. The server's sockets -/

/-- A socket the epoll thread watches; connections are numbered as they come. -/
inductive Sock where
  | listen
  | udp
  | conn (c : Nat)
deriving DecidableEq, Repr

/-- `LC_MAXEVENTS`. -/
def LC_MAXEVENTS : Nat := 100

/-- Where a pool worker is in a task of the epoll thread. -/
inductive TaskPc where
  | idle
  /-- Before the `accept`, `recv` or `recvfrom`. -/
  | reading (k : Sock)
  /-- Before `add_fd_to_srv_epoll` for the new connection. -/
  | adding (c : Nat)
  /-- In the rest of the task, which reads no socket. -/
  | finishing
deriving DecidableEq, Repr

/-- The arrivals at a port are connections that are not accepted, or datagrams or whole
    messages that are not read. -/
structure ReadyState (n : Nat) where
  ports : Ports Sock
  accepted : Nat
  /-- The events that `epoll_wait` returned and the thread has not dealt with. -/
  events : List Sock
  tasks : List Sock
  workers : Fin n → TaskPc

inductive ReadyEvent (n : Nat) where
  | arrive (k : Sock)
  | epollWait (ks : List Sock)
  | addTask
  | take (w : Fin n)
  | read (w : Fin n)
  | watch (w : Fin n)
  | finish (w : Fin n)
deriving DecidableEq

section Step

variable {n : Nat}

def ReadyState.setWorker (s : ReadyState n) (w : Fin n) (pc : TaskPc) : ReadyState n :=
  { s with workers := Function.update s.workers w pc }

/-- The connection exists: it was accepted or is in the backlog. -/
def ReadyState.exists (s : ReadyState n) : Sock → Bool
  | .conn c => c < s.accepted + s.ports.unread .listen
  | _ => true

def readyStep (s : ReadyState n) : ReadyEvent n → Option (ReadyState n)
  | .arrive k =>
      if s.exists k then some { s with ports := s.ports.arrive k } else none
  | .epollWait ks =>
      if s.events = [] ∧ ks.Nodup ∧ ks.length ≤ LC_MAXEVENTS ∧
          ∀ k ∈ ks, s.ports.edge k = true then
        some { s with ports := s.ports.report ks, events := ks }
      else none
  | .addTask =>
      match s.events with
      | [] => none
      | k :: events => some { s with events := events, tasks := s.tasks ++ [k] }
  | .take w =>
      match s.workers w, s.tasks with
      | .idle, k :: tasks => some { s.setWorker w (.reading k) with tasks := tasks }
      | _, _ => none
  | .read w =>
      match s.workers w with
      | .reading k =>
          -- the descriptors are blocking
          if s.ports.unread k = 0 then none
          else
            let t := { s with ports := s.ports.read k }
            match k with
            | .listen => some { t.setWorker w (.adding s.accepted) with
                accepted := s.accepted + 1 }
            | _ => some (t.setWorker w .finishing)
      | _ => none
  | .watch w =>
      match s.workers w with
      | .adding c => some { s.setWorker w .finishing with ports := s.ports.watch (.conn c) }
      | _ => none
  | .finish w =>
      match s.workers w with
      | .finishing => some (s.setWorker w .idle)
      | _ => none

/-- The server after `init_server_tcp` and `init_server_udp`. -/
def newReady (n : Nat) : ReadyState n :=
  { ports := Ports.new fun k => match k with
      | .conn _ => false
      | _ => true
    accepted := 0, events := [], tasks := [], workers := fun _ => .idle }

/-! ## 2. Quiet and drained -/

/-- No event is pending and no task is queued or running. -/
structure Quiescent (s : ReadyState n) : Prop where
  edge : ∀ k, s.ports.edge k = false
  events : s.events = []
  tasks : s.tasks = []
  workers : ∀ w, s.workers w = .idle

def Drained (s : ReadyState n) : Prop := ∀ k, s.ports.unread k = 0

/-- Nothing arrives at a socket while an earlier arrival there is unreported. -/
def Reported (s : ReadyState n) : ReadyEvent n → Prop
  | .arrive k => s.ports.pending k = false
  | _ => True

/-! ## 3. The sockets and the reads that are owed -/

def TaskPc.reads : TaskPc → Multiset Sock
  | .reading k => {k}
  | _ => 0

/-- The reads that are bound to happen. -/
def ReadyState.reads (s : ReadyState n) : Multiset Sock :=
  s.events + s.tasks + held TaskPc.reads s.workers

/-- The account of the ports; the connections that were accepted are watched or are being
    added, and no others. -/
structure ReadyInv (s : ReadyState n) : Prop where
  account : Account s.ports s.reads
  listen : s.ports.watched .listen = true
  udp : s.ports.watched .udp = true
  accepted : ∀ c, c < s.accepted →
    s.ports.watched (.conn c) = true ∨ ∃ w, s.workers w = .adding c
  fresh : ∀ c, s.accepted ≤ c → s.ports.watched (.conn c) = false
  absent : ∀ c, s.accepted + s.ports.unread .listen ≤ c → s.ports.unread (.conn c) = 0
  adding : ∀ w c, s.workers w = .adding c → c < s.accepted ∧ s.ports.watched (.conn c) = false
  addingInj : ∀ w w' c, s.workers w = .adding c → s.workers w' = .adding c → w = w'

variable {s : ReadyState n}

theorem ReadyInv.arrive (h : ReadyInv s) {k : Sock} (hk : s.exists k = true) :
    ReadyInv { s with ports := s.ports.arrive k } := by
  refine { h with account := h.account.arrive k, absent := ?_ }
  intro c hc
  simp only [Ports.unread_arrive] at hc ⊢
  have hne : Sock.conn c ≠ k := by
    intro heq
    subst heq
    simp only [ReadyState.exists, decide_eq_true_eq] at hk
    rw [if_neg (by simp)] at hc
    omega
  rw [if_neg hne]
  refine h.absent c (Nat.le_trans (Nat.add_le_add_left ?_ _) hc)
  split
  · rename_i hl
    rw [hl]
    exact Nat.le_succ _
  · exact Nat.le_refl _

theorem ReadyInv.epollWait (h : ReadyInv s) {ks : List Sock} (hnil : s.events = [])
    (hnodup : ks.Nodup) (hedge : ∀ k ∈ ks, s.ports.edge k = true) :
    ReadyInv { s with ports := s.ports.report ks, events := ks } := by
  have hreads : ReadyState.reads { s with ports := s.ports.report ks, events := ks } =
      ks + s.reads := by
    simp only [ReadyState.reads, hnil, Multiset.coe_nil, zero_add, add_assoc]
  refine { h with account := ?_ }
  rw [hreads]
  exact h.account.report hnodup hedge

/-- A step that changes none of the sockets and the connections being added, and moves no
    read out of sight. -/
theorem ReadyInv.move (h : ReadyInv s) {t : ReadyState n} (hports : t.ports = s.ports)
    (haccepted : t.accepted = s.accepted) (hreads : t.reads = s.reads)
    (hadding : ∀ w c, t.workers w = .adding c ↔ s.workers w = .adding c) : ReadyInv t := by
  constructor
  · rw [hports, hreads]
    exact h.account
  · rw [hports]
    exact h.listen
  · rw [hports]
    exact h.udp
  · rw [haccepted, hports]
    simp only [hadding]
    exact h.accepted
  · rw [haccepted, hports]
    exact h.fresh
  · rw [haccepted, hports]
    exact h.absent
  · rw [haccepted, hports]
    simp only [hadding]
    exact h.adding
  · simp only [hadding]
    exact h.addingInj

/-- Whether a worker is adding a connection is not changed by the move of a worker
    that was not and will not be. -/
theorem adding_setWorker_iff {w : Fin n} {pc : TaskPc} (hpc : ∀ c, pc ≠ .adding c)
    (hold : ∀ c, s.workers w ≠ .adding c) (v : Fin n) (c : Nat) :
    (s.setWorker w pc).workers v = .adding c ↔ s.workers v = .adding c := by
  by_cases hv : v = w
  · subst hv
    simp [ReadyState.setWorker, hpc c, hold c]
  · simp [ReadyState.setWorker, hv]

theorem ReadyInv.addTask (h : ReadyInv s) {k : Sock} {events : List Sock}
    (hevents : s.events = k :: events) :
    ReadyInv { s with events := events, tasks := s.tasks ++ [k] } := by
  refine h.move rfl rfl ?_ fun _ _ => Iff.rfl
  simp only [ReadyState.reads, hevents, ← Multiset.coe_add, ← Multiset.cons_coe,
    ← Multiset.singleton_add, Multiset.coe_nil, add_zero]
  ac_rfl

theorem ReadyInv.take (h : ReadyInv s) {w : Fin n} {k : Sock} {tasks : List Sock}
    (hpc : s.workers w = .idle) (htasks : s.tasks = k :: tasks) :
    ReadyInv { s.setWorker w (.reading k) with tasks := tasks } := by
  refine h.move rfl rfl ?_
    (adding_setWorker_iff (by rintro c ⟨⟩) (by rw [hpc]; rintro c ⟨⟩))
  have hheld := held_update TaskPc.reads s.workers w (.reading k)
  simp only [hpc, TaskPc.reads, add_zero] at hheld
  simp only [ReadyState.reads, ReadyState.setWorker, htasks, hheld, ← Multiset.cons_coe,
    ← Multiset.singleton_add]
  ac_rfl

theorem ReadyInv.finish (h : ReadyInv s) {w : Fin n} (hpc : s.workers w = .finishing) :
    ReadyInv (s.setWorker w .idle) := by
  refine h.move rfl rfl ?_
    (adding_setWorker_iff (by rintro c ⟨⟩) (by rw [hpc]; rintro c ⟨⟩))
  simp only [ReadyState.reads, ReadyState.setWorker]
  rw [held_update_same (by rw [hpc]; rfl)]

/-- A worker that reads owes one read less. -/
theorem reads_reading {w : Fin n} {k : Sock} {pc : TaskPc} (hpc : s.workers w = .reading k)
    (hnew : pc.reads = 0) : s.reads = k ::ₘ ReadyState.reads (s.setWorker w pc) := by
  have hheld := held_update TaskPc.reads s.workers w pc
  rw [hpc, hnew, add_zero, show TaskPc.reads (.reading k) = {k} from rfl] at hheld
  simp only [ReadyState.reads, ReadyState.setWorker, ← hheld, ← Multiset.singleton_add]
  ac_rfl

theorem ReadyInv.readConn (h : ReadyInv s) {w : Fin n} {k : Sock}
    (hpc : s.workers w = .reading k) (hk : k ≠ .listen) (hpos : s.ports.unread k ≠ 0) :
    ReadyInv ({ s with ports := s.ports.read k }.setWorker w .finishing) := by
  have hadding : ∀ v c, (s.setWorker w .finishing).workers v = .adding c ↔
      s.workers v = .adding c :=
    adding_setWorker_iff (by rintro c ⟨⟩) (by rw [hpc]; rintro c ⟨⟩)
  have haccount := h.account
  rw [reads_reading hpc (show TaskPc.finishing.reads = 0 from rfl)] at haccount
  refine { h with
    account := haccount.read, accepted := ?_, absent := ?_, adding := ?_, addingInj := ?_ }
  · exact fun c hc => (h.accepted c hc).imp_right fun ⟨v, hv⟩ => ⟨v, (hadding v c).mpr hv⟩
  · intro c hc
    have hc' : s.accepted + (s.ports.read k).unread .listen ≤ c := hc
    rw [Ports.unread_read, if_neg hk.symm] at hc'
    have hzero := h.absent c hc'
    have hne : Sock.conn c ≠ k := by
      intro heq
      subst heq
      exact hpos hzero
    show (s.ports.read k).unread (.conn c) = 0
    rw [Ports.unread_read, if_neg hne]
    exact hzero
  · exact fun v c hv => h.adding v c ((hadding v c).mp hv)
  · exact fun v v' c hv hv' => h.addingInj v v' c ((hadding v c).mp hv) ((hadding v' c).mp hv')

theorem ReadyInv.readListen (h : ReadyInv s) {w : Fin n}
    (hpc : s.workers w = .reading .listen) :
    ReadyInv { ({ s with ports := s.ports.read .listen } : ReadyState n).setWorker w
      (.adding s.accepted) with accepted := s.accepted + 1 } := by
  have hadding : ∀ v c, Function.update s.workers w (.adding s.accepted) v = .adding c ↔
      (v = w ∧ c = s.accepted) ∨ (v ≠ w ∧ s.workers v = .adding c) := by
    intro v c
    by_cases hv : v = w
    · subst hv
      simp [eq_comm]
    · simp [hv]
  have hlt : ∀ v c, s.workers v = .adding c → c < s.accepted := fun v c hv => (h.adding v c hv).1
  have haccount := h.account
  rw [reads_reading hpc (show (TaskPc.adding s.accepted).reads = 0 from rfl)] at haccount
  refine { h with
    account := haccount.read, accepted := ?_, fresh := ?_, absent := ?_, adding := ?_,
    addingInj := ?_ }
  · intro c hc
    by_cases heq : c = s.accepted
    · exact Or.inr ⟨w, (hadding w c).mpr (Or.inl ⟨rfl, heq⟩)⟩
    · refine (h.accepted c ?_).imp_right fun ⟨v, hv⟩ => ⟨v, (hadding v c).mpr (Or.inr ⟨?_, hv⟩)⟩
      · exact Nat.lt_of_le_of_ne (Nat.le_of_lt_succ hc) heq
      · intro heq
        subst heq
        rw [hpc] at hv
        cases hv
  · exact fun c hc => h.fresh c (Nat.le_of_succ_le hc)
  · intro c hc
    have hc' : s.accepted + 1 + (s.ports.read .listen).unread .listen ≤ c := hc
    rw [Ports.unread_read, if_pos rfl] at hc'
    show (s.ports.read .listen).unread (.conn c) = 0
    rw [Ports.unread_read, if_neg (by simp)]
    exact h.absent c (by omega)
  · intro v c hv
    rcases (hadding v c).mp hv with ⟨-, rfl⟩ | ⟨-, hv⟩
    · exact ⟨Nat.lt_succ_self _, h.fresh _ (Nat.le_refl _)⟩
    · exact ⟨Nat.lt_succ_of_lt (hlt v c hv), (h.adding v c hv).2⟩
  · intro v v' c hv hv'
    rcases (hadding v c).mp hv with ⟨hw, hc⟩ | ⟨-, hv⟩ <;>
      rcases (hadding v' c).mp hv' with ⟨hw', hc'⟩ | ⟨-, hv'⟩
    · exact hw.trans hw'.symm
    · exact absurd (hlt v' c hv') (hc ▸ Nat.lt_irrefl _)
    · exact absurd (hlt v c hv) (hc' ▸ Nat.lt_irrefl _)
    · exact h.addingInj v v' c hv hv'

/-- A new connection that already has messages is reported at once. -/
theorem ReadyInv.watch (h : ReadyInv s) {w : Fin n} {c : Nat} (hpc : s.workers w = .adding c) :
    ReadyInv { s.setWorker w .finishing with ports := s.ports.watch (.conn c) } := by
  rcases h.adding w c hpc with ⟨hlt, hunwatched⟩
  have hadding : ∀ v d, Function.update s.workers w .finishing v = .adding d ↔
      v ≠ w ∧ s.workers v = .adding d := by
    intro v d
    by_cases hv : v = w
    · subst hv
      simp
    · simp [hv]
  have hwatched : ∀ k, s.ports.watched k = true →
      (s.ports.watch (.conn c)).watched k = true := by
    intro k hk
    rw [Ports.watched_watch]
    split
    · rfl
    · exact hk
  have hconn : ∀ d, d ≠ c → (s.ports.watch (.conn c)).watched (.conn d) =
      s.ports.watched (.conn d) := by
    intro d hd
    rw [Ports.watched_watch, if_neg (by simpa using hd)]
  have hreads : ReadyState.reads (s.setWorker w .finishing) = s.reads := by
    simp only [ReadyState.reads, ReadyState.setWorker]
    rw [held_update_same (by rw [hpc]; rfl)]
  refine { h with
    account := ?_, listen := hwatched _ h.listen, udp := hwatched _ h.udp,
    accepted := fun d hd => ?_, fresh := fun d hd => ?_, adding := fun v d hv => ?_,
    addingInj := fun v v' d hv hv' => ?_ }
  · have haccount := h.account.watch hunwatched
    rwa [← hreads] at haccount
  · by_cases hd' : d = c
    · subst hd'
      left
      show (s.ports.watch (.conn d)).watched (.conn d) = true
      rw [Ports.watched_watch, if_pos rfl]
    · refine (h.accepted d hd).imp (hwatched _) fun ⟨v, hv⟩ => ⟨v, (hadding v d).mpr ⟨?_, hv⟩⟩
      intro heq
      subst heq
      rw [hpc] at hv
      cases hv
      exact hd' rfl
  · have hne : d ≠ c := by
      intro heq
      subst heq
      exact absurd hlt (Nat.not_lt.mpr hd)
    exact (hconn d hne).trans (h.fresh d hd)
  · rcases (hadding v d).mp hv with ⟨hv', hold⟩
    have hne : d ≠ c := by
      intro heq
      subst heq
      exact hv' (h.addingInj v w d hold hpc)
    exact ⟨(h.adding v d hold).1, (hconn d hne).trans (h.adding v d hold).2⟩
  · exact h.addingInj v v' d ((hadding v d).mp hv).2 ((hadding v' d).mp hv').2

/-! ## 4. Runs -/

theorem readyStep_cases {e : ReadyEvent n} {t : ReadyState n} (hstep : readyStep s e = some t) :
    (∃ k, e = .arrive k ∧ s.exists k = true ∧ t = { s with ports := s.ports.arrive k }) ∨
    (∃ ks, e = .epollWait ks ∧ s.events = [] ∧ ks.Nodup ∧ (∀ k ∈ ks, s.ports.edge k = true) ∧
      t = { s with ports := s.ports.report ks, events := ks }) ∨
    (∃ k events, e = .addTask ∧ s.events = k :: events ∧
      t = { s with events := events, tasks := s.tasks ++ [k] }) ∨
    (∃ w k tasks, e = .take w ∧ s.workers w = .idle ∧ s.tasks = k :: tasks ∧
      t = { s.setWorker w (.reading k) with tasks := tasks }) ∨
    (∃ w, e = .read w ∧ s.workers w = .reading .listen ∧
      t = { ({ s with ports := s.ports.read .listen } : ReadyState n).setWorker w
        (.adding s.accepted) with accepted := s.accepted + 1 }) ∨
    (∃ w k, e = .read w ∧ s.workers w = .reading k ∧ k ≠ .listen ∧ s.ports.unread k ≠ 0 ∧
      t = ({ s with ports := s.ports.read k } : ReadyState n).setWorker w .finishing) ∨
    (∃ w c, e = .watch w ∧ s.workers w = .adding c ∧
      t = { s.setWorker w .finishing with ports := s.ports.watch (.conn c) }) ∨
    (∃ w, e = .finish w ∧ s.workers w = .finishing ∧ t = s.setWorker w .idle) := by
  cases e with
  | arrive k =>
      simp only [readyStep, Option.ite_none_right_eq_some, Option.some.injEq] at hstep
      obtain ⟨hk, rfl⟩ := hstep
      exact Or.inl ⟨k, rfl, hk, rfl⟩
  | epollWait ks =>
      simp only [readyStep, Option.ite_none_right_eq_some, Option.some.injEq] at hstep
      obtain ⟨⟨hnil, hnodup, -, hedge⟩, rfl⟩ := hstep
      exact Or.inr (Or.inl ⟨ks, rfl, hnil, hnodup, hedge, rfl⟩)
  | addTask =>
      rcases hevents : s.events with _ | ⟨k, events⟩
      · simp [readyStep, hevents] at hstep
      · simp only [readyStep, hevents, Option.some.injEq] at hstep
        exact Or.inr (Or.inr (Or.inl ⟨k, events, rfl, rfl, hstep.symm⟩))
  | take w =>
      simp only [readyStep] at hstep
      split at hstep
      · rename_i k tasks hpc htasks
        exact Or.inr (Or.inr (Or.inr (Or.inl
          ⟨w, k, tasks, rfl, hpc, htasks, (Option.some.inj hstep).symm⟩)))
      · exact absurd hstep (by simp)
  | read w =>
      simp only [readyStep] at hstep
      split at hstep
      · rename_i k hpc
        simp only [Option.ite_none_left_eq_some] at hstep
        obtain ⟨hpos, hstep⟩ := hstep
        rcases k with _ | _ | c
        · exact Or.inr (Or.inr (Or.inr (Or.inr (Or.inl
            ⟨w, rfl, hpc, (Option.some.inj hstep).symm⟩))))
        all_goals
          exact Or.inr (Or.inr (Or.inr (Or.inr (Or.inr (Or.inl
            ⟨w, _, rfl, hpc, by simp, hpos, (Option.some.inj hstep).symm⟩)))))
      · exact absurd hstep (by simp)
  | watch w =>
      simp only [readyStep] at hstep
      split at hstep
      · rename_i c hpc
        exact Or.inr (Or.inr (Or.inr (Or.inr (Or.inr (Or.inr (Or.inl
          ⟨w, c, rfl, hpc, (Option.some.inj hstep).symm⟩))))))
      · exact absurd hstep (by simp)
  | finish w =>
      simp only [readyStep] at hstep
      split at hstep
      · rename_i hpc
        exact Or.inr (Or.inr (Or.inr (Or.inr (Or.inr (Or.inr (Or.inr
          ⟨w, rfl, hpc, (Option.some.inj hstep).symm⟩))))))
      · exact absurd hstep (by simp)

theorem readyInv_step (s : ReadyState n) (e : ReadyEvent n) (t : ReadyState n) (h : ReadyInv s)
    (hstep : readyStep s e = some t) : ReadyInv t := by
  rcases readyStep_cases hstep with ⟨k, -, hk, rfl⟩ | ⟨ks, -, hnil, hnodup, hedge, rfl⟩ |
    ⟨k, events, -, hevents, rfl⟩ | ⟨w, k, tasks, -, hpc, htasks, rfl⟩ | ⟨w, -, hpc, rfl⟩ |
    ⟨w, k, -, hpc, hk, hpos, rfl⟩ | ⟨w, c, -, hpc, rfl⟩ | ⟨w, -, hpc, rfl⟩
  · exact h.arrive hk
  · exact h.epollWait hnil hnodup hedge
  · exact h.addTask hevents
  · exact h.take hpc htasks
  · exact h.readListen hpc
  · exact h.readConn hpc hk hpos
  · exact h.watch hpc
  · exact h.finish hpc

theorem newReady_inv : ReadyInv (newReady n) where
  account := by
    have hreads : (newReady n).reads = 0 := by
      simp [newReady, ReadyState.reads, held, TaskPc.reads]
    rw [hreads]
    exact Account.new _
  listen := rfl
  udp := rfl
  accepted := fun c hc => absurd hc (Nat.not_lt_zero c)
  fresh := fun c _ => rfl
  absent := fun c _ => rfl
  adding := fun w c hc => by cases hc
  addingInj := fun w w' c hc => by cases hc

/-- An arrival is merged into a pending report or it is not; nothing undoes it. -/
theorem merged_step (s : ReadyState n) (e : ReadyEvent n) (t : ReadyState n)
    (hstep : readyStep s e = some t) :
    (∀ k, t.ports.merged k = 0) ↔ (∀ k, s.ports.merged k = 0) ∧ Reported s e := by
  have hsame : t.ports.merged = s.ports.merged → Reported s e →
      ((∀ k, t.ports.merged k = 0) ↔ (∀ k, s.ports.merged k = 0) ∧ Reported s e) := by
    intro heq hrep
    rw [heq]
    exact (and_iff_left hrep).symm
  rcases readyStep_cases hstep with ⟨k, rfl, -, rfl⟩ | ⟨ks, rfl, -, -, -, rfl⟩ |
    ⟨k, events, rfl, -, rfl⟩ | ⟨w, k, tasks, rfl, -, -, rfl⟩ | ⟨w, rfl, -, rfl⟩ |
    ⟨w, k, rfl, -, -, -, rfl⟩ | ⟨w, c, rfl, -, rfl⟩ | ⟨w, rfl, -, rfl⟩
  · simpa [Reported] using merged_arrive_iff s.ports k fun _ => True
  all_goals exact hsame rfl trivial

/-- In a quiet state what is unread is what was merged. -/
theorem ReadyInv.drained_iff (h : ReadyInv s) (hq : Quiescent s) :
    Drained s ↔ ∀ k, s.ports.merged k = 0 := by
  have hreads : s.reads = 0 := by
    have hheld : held TaskPc.reads s.workers = 0 := by
      apply Finset.sum_eq_zero
      intro w _
      rw [hq.workers w]
      rfl
    simp [ReadyState.reads, hq.events, hq.tasks, hheld]
  have haccount := h.account
  rw [hreads] at haccount
  constructor
  · intro hdrained k
    have hbal := haccount.balance k
    rw [hdrained k] at hbal
    omega
  · intro hmerged k
    have hzero : ∀ k, s.ports.watched k = true → s.ports.unread k = 0 := fun k hk =>
      (haccount.unread_eq_merged hq.edge hk).trans (hmerged k)
    cases k with
    | listen => exact hzero _ h.listen
    | udp => exact hzero _ h.udp
    | conn c =>
        by_cases hc : c < s.accepted
        · rcases h.accepted c hc with hw | ⟨w, hw⟩
          · exact hzero _ hw
          · rw [hq.workers w] at hw
            cases hw
        · apply h.absent c
          rw [hzero _ h.listen]
          exact Nat.not_lt.mp hc

/-- When everything has come to rest, nothing is left unread exactly if, all along,
    nothing arrived at a socket with an arrival not yet reported. -/
theorem drained_iff_reported (n : Nat) (evs : List (ReadyEvent n)) (s : ReadyState n)
    (hrun : exec readyStep (newReady n) evs = some s) (hquiet : Quiescent s) :
    Drained s ↔ Along readyStep Reported (newReady n) evs := by
  have hinv := exec_invariant readyInv_step newReady_inv hrun
  rw [hinv.drained_iff hquiet,
    exec_iff_along (I := fun s => ∀ k, s.ports.merged k = 0) merged_step hrun]
  exact and_iff_right fun _ => rfl

/-- Two connections before the first report: one is accepted, the other is left. -/
def twoConnections : List (ReadyEvent 1) :=
  [.arrive .listen, .arrive .listen, .epollWait [.listen], .addTask, .take 0, .read 0, .watch 0,
   .finish 0]

theorem connection_left_unaccepted :
    ∃ s, exec readyStep (newReady 1) twoConnections = some s ∧ Quiescent s ∧ ¬ Drained s := by
  refine ⟨_, rfl, ⟨?_, rfl, rfl, ?_⟩, fun h => ?_⟩
  · rintro (_ | _ | _ | c) <;> rfl
  · intro w
    obtain rfl : w = 0 := Subsingleton.elim _ _
    rfl
  · cases h .listen

/-- A connection that is reported before the next one comes. -/
def oneConnection : List (ReadyEvent 1) :=
  [.arrive .listen, .epollWait [.listen], .addTask, .take 0, .read 0, .watch 0, .finish 0]

theorem drained_oneConnection :
    ∃ s, exec readyStep (newReady 1) oneConnection = some s ∧ Quiescent s ∧ Drained s := by
  obtain ⟨s, hs, hquiet⟩ : ∃ s, exec readyStep (newReady 1) oneConnection = some s ∧
      Quiescent s := by
    refine ⟨_, rfl, ⟨?_, rfl, rfl, ?_⟩⟩
    · rintro (_ | _ | _ | c) <;> rfl
    · intro w
      obtain rfl : w = 0 := Subsingleton.elim _ _
      rfl
  refine ⟨s, hs, hquiet, (drained_iff_reported 1 oneConnection s hs hquiet).mpr ?_⟩
  simp only [oneConnection, Along, Reported, implies_true, and_true]
  rfl

end Step

end SocketPractice.Socket
