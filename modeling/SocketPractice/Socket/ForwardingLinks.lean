import SocketPractice.Socket.Forwarding

/-!
# Over which connection a message is forwarded (`server_socket.c`)

What a lookup finds is a descriptor number, and until the send it may come to mean another
connection.  A forward goes over a connection on which its destination has registered if
no connection gets a number that is still named: by a row of the table, by a task that is
about to enter one, or by a task that is about to send.
-/

namespace SocketPractice.Socket.Forwarding

open Lib.Bytes Lib.Links Lib.Runs Lib.Sql Common

/-! ## 1. Registrations and their connections -/

/-- If the descriptor of the link is open, `e` has registered on its connection. -/
def OnOwn (fds : Int32 → Option Conn) (saved : List (EndId × Int32 × Conn)) (e : EndId) :
    Link → Prop
  | .tcp fd => ∀ conn, fds fd = some conn → (e, fd, conn) ∈ saved
  | .udp _ _ => True

/-- The link in a handle. -/
def linkOf : SocketHandle → Option Link
  | .UNSET => none
  | .TCP_LINK fd => some (.tcp fd)
  | .UDP_LINK addr => some (.udp addr.sinAddr addr.sinPort)

theorem linkOf_handle (link : Option Link) : linkOf (Link.handle link) = link := by
  rcases link with _ | _ | _ <;> rfl

/-- The links that a task enters into the table or sends over, each with the endid. -/
def Task.names : Task → List (EndId × Link)
  | .send socket m => ((linkOf socket).map fun link => (m.destid, link)).toList
  | task => task.enters

/-- The kernel gives a new connection no descriptor number that a row of the table still has,
    or a task that enters it there or sends over it. -/
def NotNamed (s : Server) : Event → Prop
  | .accept newfd => (∀ row ∈ s.table, cliInfo.get row "fd" ≠ some newfd.toInt) ∧
      ∀ n ∈ s.tasks.flatMap Task.names, n.2 ≠ .tcp newfd
  | _ => True

instance (s : Server) (e : Event) : Decidable (NotNamed s e) := by
  unfold NotNamed
  split <;> infer_instance

/-- A forward went over a connection on which its destination has registered, if its
    descriptor was open. -/
def Forward.OnOwn (saved : List (EndId × Int32 × Conn)) (f : Forward) : Prop :=
  ∀ fd conn, f.link = .tcp fd → f.conn = some conn → (f.msg.destid, fd, conn) ∈ saved

structure OwnLinks (s : Server) : Prop where
  table : Enters (OnOwn s.fds s.saved) s.table
  tasks : ∀ task ∈ s.tasks, ∀ n ∈ task.names, OnOwn s.fds s.saved n.1 n.2
  forwarded : ∀ f ∈ Forwarding.forwarded s, f.OnOwn s.saved

/-! ## 2. The steps -/

section Own

variable {endid : EndId} {s t : Server}

theorem OnOwn.mono {fds fds' : Int32 → Option Conn} {saved saved' : List (EndId × Int32 × Conn)}
    {e : EndId} {link : Link} (h : OnOwn fds saved e link)
    (hfds : ∀ fd conn, link = .tcp fd → fds' fd = some conn → fds fd = some conn)
    (hsaved : ∀ r ∈ saved, r ∈ saved') : OnOwn fds' saved' e link := by
  cases link with
  | tcp fd => exact fun conn hconn => hsaved _ (h conn (hfds fd conn rfl hconn))
  | udp ipaddr port => trivial

/-- Descriptors are closed and registrations come in. -/
theorem OwnLinks.mono (h : OwnLinks s) {fds : Int32 → Option Conn}
    {saved : List (EndId × Int32 × Conn)} (hfds : ∀ fd conn, fds fd = some conn →
      s.fds fd = some conn) (hsaved : ∀ r ∈ s.saved, r ∈ saved) :
    OwnLinks { s with
      fds := fds
      saved := saved } where
  table := h.table.mono fun _ _ hk => hk.mono (fun fd conn _ => hfds fd conn) hsaved
  tasks := fun task htask n hn =>
    (h.tasks task htask n hn).mono (fun fd conn _ => hfds fd conn) hsaved
  forwarded := fun f hf fd conn hlink hconn => hsaved _ (h.forwarded f hf fd conn hlink hconn)

theorem OwnLinks.add (h : OwnLinks s) {task : Task}
    (htask : ∀ n ∈ task.names, OnOwn s.fds s.saved n.1 n.2) : OwnLinks (s.addTask task) where
  table := h.table
  tasks := by
    intro t' ht'
    rcases List.mem_append.mp ht' with ht' | ht'
    · exact h.tasks t' ht'
    · exact List.mem_singleton.mp ht' ▸ htask
  forwarded := h.forwarded

theorem names_calls (cs : List SrvCall) :
    (Task.calls cs).names = cs.filterMap enteredBy := rfl

/-- A new connection. -/
theorem OwnLinks.accept (h : OwnLinks s) {newfd : Int32} (hnot : NotNamed s (.accept newfd))
    (conn : Conn) (accepted : Conn) :
    OwnLinks { s with
      fds := Function.update s.fds newfd (some conn)
      accepted := accepted } := by
  obtain ⟨hrows, htasks⟩ := hnot
  have hkeep : ∀ {e : EndId} {link : Link}, link ≠ .tcp newfd → OnOwn s.fds s.saved e link →
      OnOwn (Function.update s.fds newfd (some conn)) s.saved e link := by
    intro e link hne hown
    apply hown.mono _ fun r hr => hr
    intro fd conn' hlink hconn
    subst hlink
    rwa [Function.update_of_ne fun heq => hne (congrArg Link.tcp heq)] at hconn
  constructor
  · obtain ⟨r, hr, hget⟩ := h.table
    refine ⟨r, hr, fun e k hk => hkeep ?_ (hget e k hk)⟩
    rintro rfl
    have hrow : Registry.row (e, .tcp newfd) ∈ s.table := by
      rw [hr]
      exact List.mem_map_of_mem ((r.get_eq_some_iff e _).mp hk)
    exact hrows _ hrow rfl
  · intro task htask n hn
    exact hkeep (htasks n (List.mem_flatMap.mpr ⟨task, htask, hn⟩)) (h.tasks task htask n hn)
  · exact h.forwarded

theorem savedEndid_registered (fd : Int32) (conn : Conn) (r : RecvRet) :
    ∀ n ∈ registered (.recvTcp fd r), n.2 = .tcp fd ∧
      (n.1, fd, conn) ∈ (savedEndid r).map (·, fd, conn) := by
  intro n hn
  cases r with
  | error => cases hn
  | eof => cases hn
  | data c =>
      by_cases hsave : IsSaveCliInfo ((Buf.zero sizeofLcMsgPackage).recv c)
      · have hcode : LcMsgPackage.msgType ((Buf.zero sizeofLcMsgPackage).recv c) =
            LcMsgType.SAVE_CLI_INFO.code := hsave
        simp only [registered, msgOf, Option.toList_some, List.filter_cons, hsave, decide_true,
          if_true, List.filter_nil, List.map_cons, List.map_nil, List.mem_singleton] at hn
        simp [hn, savedEndid, hcode]
      · simp [registered, msgOf, hsave] at hn

/-- One step of a worker. -/
theorem OwnLinks.work (net : Net) {k : Nat} {node : Addr} {task : Task} (h : OwnLinks s)
    (htask : s.tasks[k]? = some task) {s' : Server} {rest : Option Task}
    (hrun : runTask net { s with tasks := s.tasks.eraseIdx k } node task = (s', rest)) :
    OwnLinks { s' with tasks := s'.tasks ++ rest.toList } := by
  have hnames := h.tasks task (List.mem_of_getElem? htask)
  -- a step that leaves the descriptors, the table and the forwards as they are
  have hstay : ∀ (s' : Server) {rest : Option Task}, s'.fds = s.fds → s'.saved = s.saved →
      s'.table = s.table → s'.tasks = s.tasks.eraseIdx k →
      (∀ f ∈ Forwarding.forwarded s', f.OnOwn s.saved) →
      (∀ t ∈ rest.toList, ∀ n ∈ t.names, OnOwn s.fds s.saved n.1 n.2) →
      OwnLinks { s' with tasks := s'.tasks ++ rest.toList } := by
    intro s' rest hfds hsaved htable htasks hforwarded hrest
    constructor
    · show Enters (OnOwn s'.fds s'.saved) s'.table
      rw [hfds, hsaved, htable]
      exact h.table
    · show ∀ t ∈ s'.tasks ++ rest.toList, ∀ n ∈ t.names, OnOwn s'.fds s'.saved n.1 n.2
      rw [hfds, hsaved, htasks]
      intro t ht
      rcases List.mem_append.mp ht with ht | ht
      · exact h.tasks t (List.mem_of_mem_eraseIdx ht)
      · exact hrest t ht
    · show ∀ f ∈ Forwarding.forwarded s', f.OnOwn s'.saved
      rw [hsaved]
      exact hforwarded
  have hone : ∀ {t' : Task}, (∀ n ∈ t'.names, OnOwn s.fds s.saved n.1 n.2) →
      ∀ t ∈ (some t').toList, ∀ n ∈ t.names, OnOwn s.fds s.saved n.1 n.2 := by
    intro t' ht' t ht
    rw [Option.toList_some, List.mem_singleton] at ht
    exact ht ▸ ht'
  let s₀ : Server := { s with tasks := s.tasks.eraseIdx k }
  cases task with
  | calls cs =>
      cases cs with
      | nil =>
          cases hrun
          exact hstay s₀ rfl rfl rfl rfl h.forwarded nofun
      | cons c cs =>
          have hrest : ∀ n ∈ (Task.calls cs).names, OnOwn s.fds s.saved n.1 n.2 :=
            fun n hn => hnames n (enters_calls hn)
          cases c with
          | close fd =>
              cases hrun
              have hclosed := @OwnLinks.mono (s₀.addTask (.calls cs)) ?_
                (Function.update s.fds fd none) s.saved ?_ fun r hr => hr
              · exact hclosed
              · exact hstay s₀ rfl rfl rfl rfl h.forwarded
                  (hone hrest)
              · intro fd' conn hconn
                by_cases hfd : fd' = fd
                · rw [hfd, Function.update_self] at hconn
                  cases hconn
                · rwa [Function.update_of_ne hfd] at hconn
          | addTcpCliToDatabase e fd =>
              cases hrun
              have hbase := hstay s₀ rfl rfl rfl rfl h.forwarded
                (hone hrest)
              exact { hbase with
                table := h.table.addTcp (hnames (e, .tcp fd) List.mem_cons_self) }
          | addUdpCliToDatabase e ipaddr port =>
              cases hrun
              have hbase := hstay s₀ rfl rfl rfl rfl h.forwarded
                (hone hrest)
              exact { hbase with table := h.table.addUdp trivial }
          | delTcpCliFromDatabaseByFd fd =>
              cases hrun
              have hbase := hstay s₀ rfl rfl rfl rfl h.forwarded
                (hone hrest)
              exact { hbase with table := h.table.delTcp fd }
          | enSrvMsgQueue m =>
              cases hrun
              exact hstay s₀ rfl rfl rfl rfl h.forwarded (hone hrest)
          | sendMsgByTcp m fd =>
              cases hrun
              refine hstay _ rfl rfl rfl rfl ?_ (hone hrest)
              intro f hf
              apply h.forwarded f
              simpa [Forwarding.forwarded, runCall, Server.send, forwardOf] using hf
          | sendMsgByUdp m ipaddr port =>
              cases hrun
              refine hstay _ rfl rfl rfl rfl ?_ (hone hrest)
              intro f hf
              apply h.forwarded f
              simpa [Forwarding.forwarded, runCall, Server.send, forwardOf] using hf
          | addFdToSrvEpoll fd =>
              cases hrun
              exact hstay s₀ rfl rfl rfl rfl h.forwarded (hone hrest)
          | delFdFromSrvEpoll fd =>
              cases hrun
              exact hstay s₀ rfl rfl rfl rfl h.forwarded (hone hrest)
  | enqueue pc m cs =>
      cases pc with
      | locked =>
          cases hrun
          have hsame : ∃ heap queued faulted, enSrvMsgQueue s₀ node m = { s₀ with
              heap := heap
              queued := queued
              faulted := faulted } := by
            unfold enSrvMsgQueue
            split <;> exact ⟨_, _, _, rfl⟩
          obtain ⟨heap, queued, faulted, heq⟩ := hsame
          show OwnLinks { enSrvMsgQueue s₀ node m with
            tasks := (enSrvMsgQueue s₀ node m).tasks ++ (some (Task.calls cs)).toList }
          rw [heq]
          exact hstay ({ s₀ with
            heap := heap
            queued := queued
            faulted := faulted }) rfl rfl rfl rfl h.forwarded (hone hnames)
      | test =>
          cases hrun
          exact hstay s₀ rfl rfl rfl rfl h.forwarded (hone hnames)
      | initTest =>
          cases hrun
          exact hstay s₀ rfl rfl rfl rfl h.forwarded (hone hnames)
      | initLocked =>
          cases hrun
          exact hstay (initSrvMsgQueue s₀ node) rfl rfl rfl rfl h.forwarded (hone hnames)
  | forward m =>
      cases hrun
      refine hstay s₀ rfl rfl rfl rfl h.forwarded (hone ?_)
      obtain ⟨r, hr, hget⟩ := h.table
      intro n hn
      have hlink : getCliByEndid s.table m.destid .UNSET = Link.handle (r.get m.destid) := by
        rw [hr]
        exact Registry.get_cli_table r m.destid
      simp only [Task.names] at hn
      change n ∈ ((linkOf (getCliByEndid s.table m.destid .UNSET)).map _).toList at hn
      rw [hlink, linkOf_handle, Option.mem_toList, Option.map_eq_some_iff] at hn
      obtain ⟨link, hfound, rfl⟩ := hn
      exact hget m.destid link hfound
  | send socket m =>
      cases hrun
      cases socket with
      | UNSET => exact hstay (sendCliMsg net s₀ m .UNSET) rfl rfl rfl rfl h.forwarded nofun
      | TCP_LINK fd =>
          refine hstay (sendCliMsg net s₀ m (.TCP_LINK fd)) rfl rfl rfl rfl ?_ nofun
          intro f hf
          have hf' : f ∈ Forwarding.forwarded s ++ [⟨.tcp fd, m, s.fds fd⟩] := by
            simpa [Forwarding.forwarded, sendCliMsg, Server.send, forwardOf, connOf] using hf
          rcases List.mem_append.mp hf' with hf' | hf'
          · exact h.forwarded f hf'
          · rw [List.mem_singleton.mp hf']
            intro fd' conn hlink hconn
            cases hlink
            exact hnames (m.destid, .tcp fd) List.mem_cons_self conn hconn
      | UDP_LINK addr =>
          refine hstay (sendCliMsg net s₀ m (.UDP_LINK addr)) rfl rfl rfl rfl ?_ nofun
          intro f hf
          have hf' : f ∈ Forwarding.forwarded s ++
              [⟨.udp addr.sinAddr addr.sinPort, m, none⟩] := by
            simpa [Forwarding.forwarded, sendCliMsg, Server.send, forwardOf, connOf] using hf
          rcases List.mem_append.mp hf' with hf' | hf'
          · exact h.forwarded f hf'
          · rw [List.mem_singleton.mp hf']
            exact fun fd conn hlink _ => by cases hlink
  | display m =>
      cases hrun
      exact hstay ({ s₀ with shown := s.shown ++ [m] }) rfl rfl rfl rfl h.forwarded nofun
  | broadcast m =>
      cases hrun
      refine hstay _ rfl rfl rfl rfl ?_ nofun
      intro f hf
      apply h.forwarded f
      simpa only [Forwarding.forwarded, List.filterMap_append, filterMap_broadcast,
        List.append_nil] using hf

theorem OwnLinks.msgProcess (h : OwnLinks s) (endid : EndId) (node : Addr) :
    OwnLinks (socketMsgProcessThread endid s node) := by
  unfold socketMsgProcessThread
  split
  · split <;> exact ⟨h.table, h.tasks, h.forwarded⟩
  · rename_i pc _ _
    cases pc <;> exact ⟨h.table, h.tasks, h.forwarded⟩
  · rename_i m _
    have hadd := @OwnLinks.add _ h (if m.destid = endid then .display m else .forward m) ?_
    · exact ⟨hadd.table, hadd.tasks, hadd.forwarded⟩
    · split <;> nofun

theorem OwnLinks.step {e : Event} (h : OwnLinks s) (hnot : NotNamed s e)
    (hstep : Forwarding.step endid s e = some t) : OwnLinks t := by
  obtain ⟨-, hstep⟩ := Option.ite_none_left_eq_some.mp hstep
  cases e with
  | accept newfd =>
      simp only at hstep
      split at hstep
      · obtain rfl := Option.some.inj hstep
        exact h
      · obtain ⟨-, hstep⟩ := Option.ite_none_left_eq_some.mp hstep
        obtain rfl := Option.some.inj hstep
        apply (h.accept hnot s.accepted (s.accepted + 1)).add
        rw [names_calls, (accept_calls newfd).1]
        nofun
  | recvTcp fd r =>
      simp only at hstep
      split at hstep
      · obtain ⟨-, hstep⟩ := Option.ite_none_right_eq_some.mp hstep
        obtain rfl := Option.some.inj hstep
        exact h
      · rename_i conn hconn
        obtain rfl := Option.some.inj hstep
        have hmore := @OwnLinks.mono _ h s.fds ((savedEndid r).map (·, fd, conn) ++ s.saved)
          (fun _ _ hc => hc) fun n hn => List.mem_append_right _ hn
        apply hmore.add
        rw [names_calls, (recvTcp_calls endid fd r).1]
        intro n hn
        obtain ⟨hlink, hsaved⟩ := savedEndid_registered fd conn r n hn
        rw [hlink]
        intro conn' hconn'
        obtain rfl := Option.some.inj (hconn.symm.trans hconn')
        exact List.mem_append_left _ hsaved
  | recvUdp ipaddr port r =>
      obtain rfl := Option.some.inj hstep
      apply h.add
      rw [names_calls, (recvUdp_calls endid ipaddr port r).1]
      intro n hn
      have hlink : n.2 = .udp ipaddr port := by
        obtain ⟨m, -, rfl⟩ := List.mem_map.mp hn
        rfl
      rw [hlink]
      trivial
  | readStdin msgPack =>
      obtain rfl := Option.some.inj hstep
      exact h.add nofun
  | work k node net =>
      obtain ⟨-, hstep⟩ := Option.ite_none_right_eq_some.mp hstep
      obtain ⟨task, htask, rfl⟩ := Option.map_eq_some_iff.mp hstep
      exact h.work net htask (Prod.mk.eta).symm
  | msgProcess node =>
      obtain ⟨-, hstep⟩ := Option.ite_none_right_eq_some.mp hstep
      obtain rfl := Option.some.inj hstep
      exact h.msgProcess endid node

theorem start_ownLinks : OwnLinks start where
  table := ⟨.empty, rfl, fun e k hk => by cases hk⟩
  tasks := fun task htask => by cases htask
  forwarded := fun f hf => by cases hf

theorem run_ownLinks {evs : List Event} (hrun : exec (step endid) start evs = some s)
    (hnot : Along (step endid) NotNamed start evs) : OwnLinks s :=
  (always_of_invariant_along (J := OwnLinks) (fun _ _ _ h hG hstep => h.step hG hstep)
    start_ownLinks hnot).last hrun

end Own

/-! ## 3. Whole runs -/

end SocketPractice.Socket.Forwarding
