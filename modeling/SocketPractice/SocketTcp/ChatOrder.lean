import SocketPractice.SocketTcp.ChatSystem

/-!
# Messages keep their order (`socket_tcp`)

As long as receives and sends are whole, messages do not change their order on the way: a
server with one thread for the connections and one queue hands on what a client sends as the
client sent it.  What a client receives from another is then what that one sent to it, in
this order, each message at most once; and it is all of it if no send fails and nothing is on
its way any more.  All of this is about the time up to the first race of the server's two
threads, which use the queue and the table of clients without a lock.
-/

namespace SocketPractice.SocketTcp.Chat

open Lib.Bytes Lib.Runs Lib.Frames

/-! ## 1. The invariant -/

def isProcessMsg (m : MsgBuf) : Bool := m.msgType = MsgType.PROCESS_MSG.code

def fromSomeClient (m : MsgBuf) : Bool := m.srcEndID ≠ SERVER_ENDID

/-- The messages that were put into the queue so far, and those that were relayed. -/
def queuedSoFar (s : TcpSrv) : List MsgBuf := queued s.run.calls

/-- The messages in the queue, and the one that was taken off it and not processed yet. -/
def TcpChat.waiting {ι : Type} (u : TcpChat ι) : List MsgBuf := u.process.hand ++ u.srv.queue

/-- The sends that the epoll thread has still to make. -/
def EpollPc.sends : EpollPc → List (Int32 × MsgBuf × Nat)
  | .waiting => []
  | .handling _ sends => sends

/-- A send of the server on its own account, whole. -/
structure OwnSend (s : Int32 × MsgBuf × Nat) : Prop where
  src : s.2.1.srcEndID = SERVER_ENDID
  whole : AllOrNothing s.2.2

def relayedSoFar (s : TcpSrv) : List MsgBuf := s.run.calls.filterMap relayOf

section Invariant

variable {ι : Type} {exact : Prop} {p : Parties ι} {u v : TcpChat ι}
  {up up' down down' : ι → List MsgBuf} {debug : Bool} {serverFd : ServerFd}

/-- The table names the connections and, where a client is registered, the client whose
    connection it is. -/
structure TableOk (p : Parties ι) (conn : Int32 → Option ι) (mgr : CliInfoManager) : Prop where
  nodup : (fds mgr).Nodup
  stdin : STDIN_FILENO ∉ fds mgr
  opened : ∀ fd, fd ∈ fds mgr ↔ ∃ i, conn fd = some i
  registered : ∀ pos ∈ mgr, pos.cliEndid = SERVER_ENDID ∨
    ∃ i, conn pos.fd = some i ∧ pos.cliEndid = p.endId i

/-- `up` and `down` are the messages on the streams.  The stages of the way from a client to a
    client are flows: from the sends of the one to the queue, from there to the sends of
    `ProcessMsg`, and from these to what the other has received. -/
structure ChatInv (exact : Prop) (p : Parties ι) (u : TcpChat ι) (up down : ι → List MsgBuf) :
    Prop where
  toServer : ∀ i, u.toServer i = framed (up i)
  toClient : ∀ i, u.toClient i = framed (down i)
  clients : ∀ i, Filled (p.endId i) (u.clients i)
  senders : ∀ i, ∀ m ∈ up i, m.srcEndID = p.endId i ∧
    (isProcessMsg m = true ∨ m.msgType = MsgType.SAVE_CLI_INFO.code)
  table : TableOk p u.conn u.srv.run.srv.cliInfoManager
  authors : ∀ m ∈ queuedSoFar u.srv, ∃ i, IsFrom (p.endId i) m
  pending : ∀ m ∈ u.waiting, m ∈ queuedSoFar u.srv
  ownSends : ∀ s ∈ u.epoll.sends, OwnSend s
  fromClients : ∀ i, Flow exact
    ((queuedSoFar u.srv).filter (cameFrom (p.endId i)) ++ (up i).filter isProcessMsg)
    ((u.clients i).sent.map Prod.snd)
  through : ∀ j, Flow (exact ∧ u.srv.fault = false)
    ((relayedSoFar u.srv ++ u.waiting).filter (goesTo (p.endId j)))
    ((queuedSoFar u.srv).filter (goesTo (p.endId j)))
  toClients : ∀ j, Flow exact ((u.got j ++ down j).filter fromSomeClient)
    ((relayedSoFar u.srv).filter (goesTo (p.endId j)))

theorem filter_fromClient (p : Parties ι) (i : ι) (ms : List MsgBuf) :
    (ms.filter fromSomeClient).filter (cameFrom (p.endId i)) =
      ms.filter (cameFrom (p.endId i)) := by
  rw [List.filter_filter]
  apply List.filter_congr
  intro m _
  by_cases hm : m.srcEndID = p.endId i
  · simp [cameFrom, fromSomeClient, hm, p.ne_server i]
  · simp [cameFrom, hm]

theorem filter_swap (a b : EndID) (ms : List MsgBuf) :
    (ms.filter (goesTo b)).filter (cameFrom a) = (ms.filter (cameFrom a)).filter (goesTo b) := by
  rw [List.filter_filter, List.filter_filter]
  simp only [Bool.and_comm]

/-- What a client receives from another is what that one sent to it, up to losses. -/
theorem ChatInv.received_from (h : ChatInv exact p u up down) (i j : ι) :
    ((u.got j).filter (cameFrom (p.endId i))).Sublist
      (((u.clients i).sent.map Prod.snd).filter (goesTo (p.endId j))) := by
  have hgot : ((u.got j).filter fromSomeClient).Sublist
      ((relayedSoFar u.srv).filter (goesTo (p.endId j))) :=
    ((List.sublist_append_left _ _).filter _).trans (h.toClients j).1
  have hrelayed : ((relayedSoFar u.srv).filter (goesTo (p.endId j))).Sublist
      ((queuedSoFar u.srv).filter (goesTo (p.endId j))) :=
    ((List.sublist_append_left _ _).filter _).trans (h.through j).1
  have hqueued : ((queuedSoFar u.srv).filter (cameFrom (p.endId i))).Sublist
      ((u.clients i).sent.map Prod.snd) :=
    (List.sublist_append_left _ _).trans (h.fromClients i).1
  have hfrom := (hgot.trans hrelayed).filter (cameFrom (p.endId i))
  rw [filter_fromClient, filter_swap] at hfrom
  exact hfrom.trans (hqueued.filter _)

/-- Without losses, and with nothing on the way, it is all of that. -/
theorem ChatInv.received_all (h : ChatInv True p u up down) (hfault : u.srv.fault = false)
    {i j : ι} (hup : u.toServer i = []) (hwaiting : u.waiting = []) (hdown : u.toClient j = []) :
    (u.got j).filter (cameFrom (p.endId i)) =
      ((u.clients i).sent.map Prod.snd).filter (goesTo (p.endId j)) := by
  have hfree : ∀ {ms : List MsgBuf}, framed ms = [] → ms = [] := by
    intro ms hms
    rcases ms with _ | ⟨m, ms⟩
    · rfl
    · have hpos : 0 < sizeofMsgBuf := by decide
      have hlen := congrArg List.length hms
      rw [framed_cons, List.length_append, m.size, List.length_nil] at hlen
      omega
  have hup' : up i = [] := hfree ((h.toServer i).symm.trans hup)
  have hdown' : down j = [] := hfree ((h.toClient j).symm.trans hdown)
  have hfrom := (h.fromClients i).2 trivial
  have hthrough := (h.through j).2 ⟨trivial, hfault⟩
  have hto := (h.toClients j).2 trivial
  rw [hup', List.filter_nil, List.append_nil] at hfrom
  rw [hwaiting, List.append_nil] at hthrough
  rw [hdown', List.append_nil] at hto
  rw [← filter_fromClient, hto, hthrough, filter_swap, hfrom]

/-! ## 2. The steps -/

theorem mem_saveOneCliInfoByFd {fd : Int32} {m : MsgBuf} {mgr : CliInfoManager}
    {pos : CliInfoNode} (h : pos ∈ (saveOneCliInfoByFd fd m mgr).1) :
    pos ∈ mgr ∨ pos.fd = fd ∧ pos.cliEndid = m.srcEndID := by
  induction mgr with
  | nil => cases h
  | cons first rest ih =>
      rw [saveOneCliInfoByFd] at h
      by_cases hfd : first.fd = fd
      · rw [if_neg (not_not.mpr hfd)] at h
        rcases List.mem_cons.mp h with rfl | h
        · exact Or.inr ⟨hfd, rfl⟩
        · exact Or.inl (List.mem_cons_of_mem _ h)
      · rw [if_pos hfd] at h
        rcases List.mem_cons.mp h with rfl | h
        · exact Or.inl List.mem_cons_self
        · rcases ih h with hmem | hnew
          · exact Or.inl (List.mem_cons_of_mem _ hmem)
          · exact Or.inr hnew

section Table

variable {conn : Int32 → Option ι} {mgr : CliInfoManager} {fd : Int32} {i : ι}

theorem TableOk.save (h : TableOk p conn mgr) (hconn : conn fd = some i) {m : MsgBuf}
    (hsrc : m.srcEndID = p.endId i) : TableOk p conn (saveOneCliInfoByFd fd m mgr).1 where
  nodup := by
    rw [fds_saveOneCliInfoByFd]
    exact h.nodup
  stdin := by
    rw [fds_saveOneCliInfoByFd]
    exact h.stdin
  opened := by
    rw [fds_saveOneCliInfoByFd]
    exact h.opened
  registered := by
    intro pos hpos
    rcases mem_saveOneCliInfoByFd hpos with hpos | ⟨hfd, hid⟩
    · exact h.registered pos hpos
    · exact Or.inr ⟨i, hfd ▸ hconn, hid.trans hsrc⟩

theorem TableOk.del (h : TableOk p conn mgr) (fd : Int32) :
    TableOk p (Function.update conn fd none) (delFromCliInfoByFd fd mgr).1 where
  nodup := by
    rw [fds_delFromCliInfoByFd]
    exact h.nodup.erase fd
  stdin := by
    rw [fds_delFromCliInfoByFd]
    exact fun hmem => h.stdin (List.mem_of_mem_erase hmem)
  opened := by
    intro fd'
    rw [fds_delFromCliInfoByFd, h.nodup.mem_erase_iff]
    by_cases hfd : fd' = fd
    · subst hfd
      simp
    · rw [Function.update_of_ne hfd, h.opened fd']
      exact and_iff_right hfd
  registered := by
    intro pos hpos
    have hmem : pos ∈ mgr := by
      rw [delFromCliInfoByFd_eq_removeFirst] at hpos
      exact List.mem_of_mem_eraseP hpos
    have hfd : pos.fd ≠ fd := by
      have hfds : pos.fd ∈ fds (delFromCliInfoByFd fd mgr).1 := List.mem_map_of_mem hpos
      rw [fds_delFromCliInfoByFd] at hfds
      exact (h.nodup.mem_erase_iff.mp hfds).1
    rw [Function.update_of_ne hfd]
    exact h.registered pos hmem

theorem TableOk.add (h : TableOk p conn mgr) (hnew : fd ∉ fds mgr) (hstdin : fd ≠ STDIN_FILENO)
    (i : ι) : TableOk p (Function.update conn fd (some i)) (addToCliInfo fd mgr) where
  nodup := by
    rw [fds_addToCliInfo, List.nodup_cons]
    exact ⟨hnew, h.nodup⟩
  stdin := by
    rw [fds_addToCliInfo, List.mem_cons, not_or]
    exact ⟨Ne.symm hstdin, h.stdin⟩
  opened := by
    intro fd'
    rw [fds_addToCliInfo, List.mem_cons]
    by_cases hfd : fd' = fd
    · subst hfd
      simp
    · rw [Function.update_of_ne hfd, h.opened fd']
      exact or_iff_right hfd
  registered := by
    intro pos hpos
    rcases List.mem_cons.mp hpos with rfl | hpos
    · exact Or.inl rfl
    · have hfd : pos.fd ≠ fd := fun heq => hnew (heq ▸ List.mem_map_of_mem hpos)
      rw [Function.update_of_ne hfd]
      exact h.registered pos hpos

end Table

section Steps

variable [DecidableEq ι]

theorem framed_update {streams : ι → List UInt8} {frames : ι → List MsgBuf}
    (h : ∀ i, streams i = framed (frames i)) (i : ι) {stream : List UInt8} {ms : List MsgBuf}
    (hi : stream = framed ms) (j : ι) :
    Function.update streams i stream j = framed (Function.update frames i ms j) := by
  by_cases hj : j = i
  · subst hj
    rw [Function.update_self, Function.update_self, hi]
  · rw [Function.update_of_ne hj, Function.update_of_ne hj, h j]

/-- What a whole receive of a client takes off its stream. -/
theorem receive_framed {ms : List MsgBuf} {s t : CliState} {e : CliEvent} {rest : List UInt8}
    (hwhole : IsBlock (receive e)) (hstep : cliStep s e = some t)
    (hrest : takeOff (framed ms) (receive e) = some rest) :
    ∃ ms', rest = framed ms' ∧ ms = received e t ++ ms' := by
  rcases he : receive e with _ | _ | c
  · rw [he] at hrest
    obtain rfl := Option.some.inj hrest
    exact ⟨ms, rfl, by rw [received, he]; rfl⟩
  · rw [he] at hrest
    obtain rfl := Option.some.inj hrest
    exact ⟨ms, rfl, by rw [received, he]; rfl⟩
  · rw [he] at hwhole hrest
    obtain ⟨m, ms', rfl, hm, rfl⟩ := takeOff_framed hwhole hrest
    exact ⟨ms', rfl, by rw [received_eq hstep he hm]; rfl⟩

/-- A step of a client, with the sends it makes. -/
theorem ChatInv.client (h : ChatInv exact p u up down) {i : ι} {e : CliEvent} {taken : Nat}
    (hwhole : (ChatEvent.client i e taken).Whole)
    (hexact : exact → (ChatEvent.client i e taken).Sends)
    (hstep : clientMove u i e taken = some v) :
    ∃ up' down', ChatInv exact p v up' down' := by
  obtain ⟨c, hc, hstep⟩ := Option.bind_eq_some_iff.mp hstep
  obtain ⟨rest, hrest, hv⟩ := Option.bind_eq_some_iff.mp hstep
  obtain rfl := Option.some.inj hv
  obtain ⟨hreceive, htaken⟩ := hwhole
  obtain ⟨hfilled, new, hsent, hnew⟩ := filled_step (h.clients i) hc
  rw [h.toClient i] at hrest
  obtain ⟨ms', rfl, hms⟩ := receive_framed hreceive hc hrest
  let sends : List (MsgBuf × Nat) := (new.map Prod.snd).map fun m => (m, taken)
  have hsends : ∀ s ∈ sends, s.2 = 0 ∨ s.2 = sizeofMsgBuf := by
    intro s hs
    obtain ⟨m, -, rfl⟩ := List.mem_map.mp hs
    exact htaken
  have hfst : sends.map Prod.fst = new.map Prod.snd := by
    simp [sends]
  have hmem : ∀ m ∈ delivered sends, IsFrom (p.endId i) m := by
    intro m hm
    have hm' := (delivered_sublist sends).subset hm
    rw [hfst] at hm'
    obtain ⟨q, hq, rfl⟩ := List.mem_map.mp hm'
    exact hnew q hq
  have hflow : Flow exact (delivered sends) (new.map Prod.snd) := by
    refine ⟨hfst ▸ delivered_sublist sends, ?_⟩
    intro he
    rw [← hfst]
    apply delivered_of_pos
    intro s hs
    obtain ⟨m, -, rfl⟩ := List.mem_map.mp hs
    have htook : taken = sizeofMsgBuf := hexact he
    exact htook ▸ (by decide : sizeofMsgBuf ≠ 0)
  refine ⟨Function.update up i (up i ++ delivered sends), Function.update down i ms', ?_⟩
  constructor
  · apply framed_update h.toServer
    rw [newSent_eq hsent, h.toServer i, framed_append, onto_eq_framed hsends]
  · exact framed_update h.toClient i rfl
  · exact (Function.forall_update_iff _ fun j x => Filled (p.endId j) x).mpr
      ⟨hfilled, fun j _ => h.clients j⟩
  · refine (Function.forall_update_iff _ fun j (x : List MsgBuf) => ∀ m ∈ x,
      m.srcEndID = p.endId j ∧ (isProcessMsg m = true ∨ m.msgType = MsgType.SAVE_CLI_INFO.code)).mpr
      ⟨?_, fun j _ => h.senders j⟩
    intro m hm
    rcases List.mem_append.mp hm with hm | hm
    · exact h.senders i m hm
    · exact ⟨(hmem m hm).src, Or.inl (by simp [isProcessMsg, (hmem m hm).type])⟩
  · exact h.table
  · exact h.authors
  · exact h.pending
  · exact h.ownSends
  · intro j
    by_cases hj : j = i
    · subst hj
      have hall : (delivered sends).filter isProcessMsg = delivered sends := by
        apply List.filter_eq_self.mpr
        intro m hm
        simp [isProcessMsg, (hmem m hm).type]
      have hflow' := (h.fromClients j).append hflow
      simp only [Function.update_self, hsent, List.map_append, List.filter_append, hall]
      rwa [List.append_assoc] at hflow'
    · simp only [Function.update_of_ne hj]
      exact h.fromClients j
  · exact h.through
  · intro j
    by_cases hj : j = i
    · subst hj
      have hto := h.toClients j
      rw [hms] at hto
      simp only [Function.update_self]
      rwa [List.append_assoc]
    · simp only [Function.update_of_ne hj]
      exact h.toClients j

theorem newCalls_eq {s t : TcpSrv} {new : List SrvCall} (h : t.run.calls = s.run.calls ++ new) :
    newCalls s t = new := by
  rw [newCalls, h, List.drop_left]

theorem sendsTo_whole {conn : Int32 → Option ι} {send : Int32 → Int} {calls : List SrvCall}
    (hsend : ∀ fd, AllOrNothing (send fd).toNat) {j : ι} :
    ∀ s ∈ sendsTo conn send calls j, s.2 = 0 ∨ s.2 = sizeofMsgBuf := by
  intro s hs
  obtain ⟨⟨fd, m⟩, -, heq⟩ := List.mem_filterMap.mp hs
  simp only [Option.ite_none_right_eq_some, Option.some.injEq] at heq
  obtain ⟨-, rfl⟩ := heq
  exact hsend fd

/-- The streams to the clients after some calls of the server. -/
theorem ChatInv.goOn_toClient (h : ChatInv exact p u up down) {send : Int32 → Int} {t : TcpSrv}
    {new : List SrvCall} (hnew : t.run.calls = u.srv.run.calls ++ new)
    (hsend : ∀ fd, AllOrNothing (send fd).toNat) (j : ι) :
    (u.goOn send t).toClient j = framed (down j ++ delivered (sendsTo u.conn send new j)) := by
  rw [framed_append, ← onto_eq_framed (sendsTo_whole hsend), ← h.toClient j,
    ← newCalls_eq hnew]
  rfl

/-- The sends of the epoll thread. -/
theorem ownSend_sendsOf {send : Int32 → Int} {calls : List SrvCall}
    (h : ∀ call ∈ calls, OwnAccount call) (hsend : ∀ fd, AllOrNothing (send fd).toNat) :
    ∀ s ∈ sendsOf send calls, OwnSend s := by
  intro s hs
  obtain ⟨⟨fd, m⟩, hmem, rfl⟩ := List.mem_map.mp hs
  obtain ⟨call, hcall, hm⟩ := List.mem_filterMap.mp hmem
  exact ⟨(h call hcall).2 fd m hm, hsend fd⟩

/-- A message that is relayed goes to the client it is for, and to no other. -/
theorem ChatInv.relayed_to (h : ChatInv exact p u up down) {m : MsgBuf} {pos : CliInfoNode}
    {send : Int32 → Int} (hdest : m.destEndID ≠ getServerEndId)
    (hpos : getOneCliInfoByEndID m.destEndID u.srv.run.srv.cliInfoManager = some pos) (j : ι) :
    sendsTo u.conn send [.sendCliMsg pos.fd m] j =
      if goesTo (p.endId j) m then [(m, (send pos.fd).toNat)] else [] := by
  rw [getOneCliInfoByEndID] at hpos
  obtain ⟨hmem, hkey⟩ := Lib.Keyed.mem_of_first hpos
  rcases h.table.registered pos hmem with hzero | ⟨i, hconn, hid⟩
  · exact absurd (hkey.symm.trans hzero) hdest
  · have hiff : u.conn pos.fd = some j ↔ m.destEndID = p.endId j := by
      rw [hconn, Option.some.injEq, ← hkey, hid]
      exact ⟨fun heq => congrArg p.endId heq, fun heq => p.inj heq⟩
    by_cases hj : m.destEndID = p.endId j
    · simp [sendsTo, sendOf, goesTo, hj, hiff.mpr hj]
    · simp [sendsTo, sendOf, goesTo, hj, mt hiff.mp hj]

/-- A turn of `ProcessCliMsg` that takes a message and does something with it. -/
theorem ChatInv.relay (h : ChatInv exact p u up down) {k : TxAnswers} {m : MsgBuf}
    {queue : List MsgBuf} {calls : List SrvCall} {srv : TcpSrv}
    (hsend : ∀ fd, AllOrNothing (k.send fd).toNat)
    (hexact : exact → ∀ fd, k.send fd = sizeofMsgBuf) (hidle : u.process = .idle)
    (hqueue : u.srv.queue = m :: queue)
    (hsrv : srv.run.srv = u.srv.run.srv) (hcalls : srv.run.calls = u.srv.run.calls ++ calls)
    (hrest : srv.queue = queue) (hfault : srv.fault = u.srv.fault)
    (hqueued : queued calls = [])
    (hwhat : (∀ j, goesTo (p.endId j) m = false) ∧ calls.filterMap sendOf = [] ∧
        calls.filterMap relayOf = [] ∨
      ∃ pos : CliInfoNode, calls = [.sendCliMsg pos.fd m] ∧ ∀ j,
        sendsTo u.conn k.send calls j =
          if goesTo (p.endId j) m then [(m, (k.send pos.fd).toNat)] else []) :
    ∃ up' down', ChatInv exact p (u.goOn k.send srv) up' down' := by
  refine ⟨up, fun j => down j ++ delivered (sendsTo u.conn k.send calls j), ?_⟩
  have hqueuedSoFar : queuedSoFar srv = queuedSoFar u.srv := by
    rw [queuedSoFar, queuedSoFar, hcalls, queued, List.filterMap_append]
    exact (congrArg _ hqueued).trans (List.append_nil _)
  have hrelayedSoFar : relayedSoFar srv = relayedSoFar u.srv ++ calls.filterMap relayOf := by
    rw [relayedSoFar, relayedSoFar, hcalls, List.filterMap_append]
  have hbefore : u.waiting = m :: queue := by
    rw [TcpChat.waiting, hidle, hqueue]
    rfl
  have hafter : (u.goOn k.send srv).waiting = queue := by
    show u.process.hand ++ srv.queue = queue
    rw [hidle, hrest]
    rfl
  obtain ⟨a, hauthor⟩ := h.authors m (h.pending m (by rw [hbefore]; exact List.mem_cons_self))
  constructor
  · exact h.toServer
  · exact h.goOn_toClient hcalls hsend
  · exact h.clients
  · exact h.senders
  · show TableOk p u.conn srv.run.srv.cliInfoManager
    rw [hsrv]
    exact h.table
  · show ∀ m ∈ queuedSoFar srv, ∃ i, IsFrom (p.endId i) m
    rw [hqueuedSoFar]
    exact h.authors
  · show ∀ m ∈ (u.goOn k.send srv).waiting, m ∈ queuedSoFar srv
    rw [hqueuedSoFar, hafter]
    exact fun m' hm' => h.pending m' (by rw [hbefore]; exact List.mem_cons_of_mem m hm')
  · exact h.ownSends
  · show ∀ i, Flow exact
      ((queuedSoFar srv).filter (cameFrom (p.endId i)) ++ (up i).filter isProcessMsg) _
    rw [hqueuedSoFar]
    exact h.fromClients
  · show ∀ j, Flow (exact ∧ srv.fault = false)
      ((relayedSoFar srv ++ (u.goOn k.send srv).waiting).filter _) ((queuedSoFar srv).filter _)
    intro j
    have hthrough := h.through j
    rw [hfault, hqueuedSoFar, hafter, hrelayedSoFar]
    rw [hbefore] at hthrough
    rcases hwhat with ⟨hto, -, hrelay⟩ | ⟨pos, rfl, -⟩
    · rw [hrelay, List.append_nil]
      rwa [List.filter_append, List.filter_cons, hto j, if_neg Bool.false_ne_true,
        ← List.filter_append] at hthrough
    · rw [show List.filterMap relayOf [SrvCall.sendCliMsg pos.fd m] = [m] from rfl,
        List.append_assoc]
      exact hthrough
  · show ∀ j, Flow exact ((u.got j ++ (down j ++ _)).filter fromSomeClient)
      ((relayedSoFar srv).filter _)
    intro j
    have hto := h.toClients j
    rw [hrelayedSoFar, ← List.append_assoc, List.filter_append (u.got j ++ down j),
      List.filter_append (relayedSoFar u.srv)]
    apply hto.append
    rcases hwhat with ⟨-, hnone, hrelay⟩ | ⟨pos, rfl, hsends⟩
    · rw [hrelay, sendsTo, hnone]
      exact Flow.refl []
    · rw [hsends j]
      have hclient : fromSomeClient m = true := by
        simp [fromSomeClient, hauthor.src, p.ne_server a]
      cases hj : goesTo (p.endId j) m with
      | false => simpa [relayOf, hj, delivered] using Flow.refl []
      | true =>
          have hflow : Flow exact (delivered [(m, (k.send pos.fd).toNat)]) [m] := by
            refine ⟨delivered_sublist _, ?_⟩
            intro he
            apply delivered_of_pos
            intro s hs
            rw [List.mem_singleton.mp hs, hexact he pos.fd]
            exact (by decide : sizeofMsgBuf ≠ 0)
          have hkept := hflow.filter fromSomeClient
          simpa [relayOf, hj, hclient] using hkept

omit [DecidableEq ι] in
/-- A message moves from the queue into the hands of the thread, or back. -/
theorem ChatInv.move (h : ChatInv exact p u up down) {queue : List MsgBuf} {process : ProcessPc}
    (hsame : process.hand ++ queue = u.waiting) :
    ChatInv exact p { u with
      srv := { u.srv with queue := queue }
      process := process } up down where
  toServer := h.toServer
  toClient := h.toClient
  clients := h.clients
  senders := h.senders
  table := h.table
  authors := h.authors
  pending := by
    show ∀ m ∈ process.hand ++ queue, m ∈ queuedSoFar u.srv
    rw [hsame]
    exact h.pending
  ownSends := h.ownSends
  fromClients := h.fromClients
  through := by
    show ∀ j, Flow (exact ∧ u.srv.fault = false)
      ((relayedSoFar u.srv ++ (process.hand ++ queue)).filter _) ((queuedSoFar u.srv).filter _)
    rw [hsame]
    exact h.through
  toClients := h.toClients

/-- `ProcessMsg` with the message that was put back. -/
theorem ChatInv.process (h : ChatInv exact p u up down) {k : TxAnswers} {m : MsgBuf}
    {queue : List MsgBuf} {srv : TcpSrv} (hidle : u.process = .idle)
    (hqueue : u.srv.queue = m :: queue) (hwhole : ∀ fd, AllOrNothing (k.send fd).toNat)
    (hexact : exact → ∀ fd, k.send fd = sizeofMsgBuf)
    (hstep : tcpStep debug serverFd u.srv (.process k) = some srv) :
    ∃ up' down', ChatInv exact p (u.goOn k.send srv) up' down' := by
  have hfault : u.srv.fault = false := by
    by_contra hne
    rw [tcpStep, if_pos (by simpa using hne)] at hstep
    cases hstep
  simp only [tcpStep, hfault, Bool.false_eq_true, if_false, Option.some.injEq] at hstep
  subst hstep
  have hwaiting : u.waiting = m :: queue := by
    rw [TcpChat.waiting, hidle, hqueue]
    rfl
  obtain ⟨a, hauthor⟩ := h.authors m (h.pending m (by rw [hwaiting]; exact List.mem_cons_self))
  rcases hret : processMsg debug k u.srv.run.srv.cliInfoManager m with _ | ⟨calls, s32Ret⟩
  · -- a node that is not there is used, and the process is gone
    have hsrv : processCliMsg debug k u.srv = { u.srv with queue := queue, fault := true } := by
      simp [processCliMsg, hqueue, hret]
    have hrest : (u.goOn k.send (processCliMsg debug k u.srv)).waiting = queue := by
      rw [hsrv]
      show u.process.hand ++ queue = queue
      rw [hidle]
      rfl
    refine ⟨up, down, ?_⟩
    constructor
    · exact h.toServer
    · intro j
      simp [hsrv, TcpChat.goOn, newCalls, sendsTo, onto, h.toClient j]
    · exact h.clients
    · exact h.senders
    · rw [hsrv]
      exact h.table
    · rw [hsrv]
      exact h.authors
    · rw [hrest, hsrv]
      exact fun m' hm' => h.pending m' (by rw [hwaiting]; exact List.mem_cons_of_mem m hm')
    · exact h.ownSends
    · rw [hsrv]
      exact h.fromClients
    · intro j
      have hthrough := h.through j
      rw [hwaiting] at hthrough
      rw [hrest, hsrv]
      refine ⟨List.Sublist.trans ?_ hthrough.1, fun he => absurd he.2 (by simp [TcpChat.goOn])⟩
      exact ((List.Sublist.refl _).append (List.sublist_cons_self m queue)).filter _
    · rw [hsrv]
      exact h.toClients
  · have hsrv : processCliMsg debug k u.srv = { u.srv with
        run := { u.srv.run with calls := u.srv.run.calls ++ calls }
        queue := queue
        returns := u.srv.returns ++
          [(decide (IsDest u.srv.run.srv.cliInfoManager m.destEndID), s32Ret)] } := by
      simp [processCliMsg, hqueue, hret]
    rw [hsrv]
    by_cases hdest : m.destEndID = getServerEndId
    · obtain ⟨hsends, hrelays, hqueued⟩ := processMsg_own hdest hret
      refine h.relay hwhole hexact hidle hqueue rfl rfl rfl rfl hqueued
        (Or.inl ⟨?_, hsends, hrelays⟩)
      intro j
      simpa [goesTo, hdest] using fun heq : getServerEndId = p.endId j => p.ne_server j heq.symm
    · obtain ⟨pos, hpos, rfl⟩ := processMsg_relays hauthor.type hdest hret
      exact h.relay hwhole hexact hidle hqueue rfl rfl rfl rfl rfl
        (Or.inr ⟨pos, rfl, h.relayed_to hdest hpos⟩)

/-! ### Events of the epoll thread -/

/-- The server after an event. -/
def afterEvent (serverFd : ServerFd) (s : TcpSrv) (e : SrvEvent) : TcpSrv :=
  { s with
    run := s.run.handle serverFd e
    queue := s.queue ++ enqueues serverFd s.run.srv e }

theorem tcpStep_epoll {s t : TcpSrv} {e : SrvEvent}
    (hstep : tcpStep debug serverFd s (.epoll e) = some t) :
    s.fault = false ∧ Possible serverFd s.run.srv e ∧ t = afterEvent serverFd s e := by
  have hfault : s.fault = false := by
    by_contra hne
    rw [tcpStep, if_pos (by simpa using hne)] at hstep
    cases hstep
  rw [tcpStep, if_neg (by simp [hfault])] at hstep
  obtain ⟨run, hrun, rfl⟩ := Option.map_eq_some_iff.mp hstep
  obtain ⟨hpossible, rfl⟩ := srvStep_eq_some.mp hrun
  rw [(epoll_calls serverFd s.run.srv e).2]
  exact ⟨hfault, hpossible, rfl⟩

/-- The epoll thread in an event. -/
def TcpChat.inEvent (serverFd : ServerFd) (u : TcpChat ι) (e : SrvEvent) : TcpChat ι :=
  { u with
    srv := afterEvent serverFd u.srv e
    epoll := .handling (changes serverFd u.srv.run.srv e)
      (sendsOf e.answers.send (newCalls u.srv (afterEvent serverFd u.srv e))) }

omit [DecidableEq ι] in
/-- An event: what it queues is what it takes off the streams, apart from registrations. -/
theorem ChatInv.event (h : ChatInv exact p u up down) {e : SrvEvent} {conn : Int32 → Option ι}
    {toServer : ι → List UInt8} {accepted : List ι}
    (hsend : ∀ fd, AllOrNothing (e.answers.send fd).toNat)
    (htable : TableOk p conn
      (processEventsByFd serverFd u.srv.run.srv e.fd e.answers).1.cliInfoManager)
    (hup : ∀ i, toServer i = framed (up' i)) (hsub : ∀ i, ∀ m ∈ up' i, m ∈ up i)
    (hauthors : ∀ m ∈ enqueues serverFd u.srv.run.srv e, ∃ i, IsFrom (p.endId i) m)
    (hflow : ∀ i, (enqueues serverFd u.srv.run.srv e).filter (cameFrom (p.endId i)) ++
      (up' i).filter isProcessMsg = (up i).filter isProcessMsg) :
    ∃ up' down', ChatInv exact p
      { u.inEvent serverFd e with
        conn := conn
        toServer := toServer
        accepted := accepted } up' down' := by
  obtain ⟨hown, hqueued⟩ := epoll_calls serverFd u.srv.run.srv e
  let calls := (processEventsByFd serverFd u.srv.run.srv e.fd e.answers).2.1
  have hcalls : (afterEvent serverFd u.srv e).run.calls = u.srv.run.calls ++ calls := rfl
  have hqueuedSoFar : queuedSoFar (afterEvent serverFd u.srv e) =
      queuedSoFar u.srv ++ enqueues serverFd u.srv.run.srv e := by
    rw [queuedSoFar, hcalls, queued, List.filterMap_append]
    exact congrArg _ hqueued
  have hrelayedSoFar : relayedSoFar (afterEvent serverFd u.srv e) = relayedSoFar u.srv := by
    rw [relayedSoFar, hcalls, List.filterMap_append,
      List.filterMap_eq_nil_iff.mpr fun call hcall => (hown call hcall).1, List.append_nil]
    rfl
  have hwaiting : u.process.hand ++ (afterEvent serverFd u.srv e).queue =
      u.waiting ++ enqueues serverFd u.srv.run.srv e := (List.append_assoc ..).symm
  refine ⟨up', down, ?_⟩
  constructor
  · exact hup
  · exact h.toClient
  · exact h.clients
  · exact fun i m hm => h.senders i m (hsub i m hm)
  · exact htable
  · show ∀ m ∈ queuedSoFar (afterEvent serverFd u.srv e), ∃ i, IsFrom (p.endId i) m
    rw [hqueuedSoFar]
    intro m hm
    rcases List.mem_append.mp hm with hm | hm
    · exact h.authors m hm
    · exact hauthors m hm
  · show ∀ m ∈ u.process.hand ++ (afterEvent serverFd u.srv e).queue,
      m ∈ queuedSoFar (afterEvent serverFd u.srv e)
    rw [hqueuedSoFar, hwaiting]
    intro m hm
    rcases List.mem_append.mp hm with hm | hm
    · exact List.mem_append_left _ (h.pending m hm)
    · exact List.mem_append_right _ hm
  · show ∀ s ∈ sendsOf e.answers.send (newCalls u.srv (afterEvent serverFd u.srv e)), OwnSend s
    rw [newCalls_eq hcalls]
    exact ownSend_sendsOf hown hsend
  · show ∀ i, Flow exact ((queuedSoFar (afterEvent serverFd u.srv e)).filter _ ++ _) _
    intro i
    rw [hqueuedSoFar, List.filter_append, List.append_assoc, hflow i]
    exact h.fromClients i
  · show ∀ j, Flow (exact ∧ u.srv.fault = false)
      ((relayedSoFar (afterEvent serverFd u.srv e) ++
        (u.process.hand ++ (afterEvent serverFd u.srv e).queue)).filter _)
      ((queuedSoFar (afterEvent serverFd u.srv e)).filter _)
    intro j
    have hthrough := (h.through j).append
      (Flow.refl ((enqueues serverFd u.srv.run.srv e).filter (goesTo (p.endId j))))
    rw [hqueuedSoFar, hrelayedSoFar, hwaiting, ← List.append_assoc, List.filter_append _
      (enqueues serverFd u.srv.run.srv e), List.filter_append (queuedSoFar u.srv)]
    exact hthrough
  · show ∀ j, Flow exact ((u.got j ++ down j).filter fromSomeClient)
      ((relayedSoFar (afterEvent serverFd u.srv e)).filter _)
    rw [hrelayedSoFar]
    exact h.toClients

theorem enqueues_of_not_client {s : SrvState} {e : SrvEvent} (h : ¬ IsClient serverFd s e.fd) :
    enqueues serverFd s e = [] := by
  rw [enqueues, if_neg h]

theorem table_of_not_client {s : SrvState} {e : SrvEvent} (h : ¬ IsClient serverFd s e.fd) :
    (processEventsByFd serverFd s e.fd e.answers).1.cliInfoManager =
      if e.fd = serverFd.fd ∧ e.answers.accept ≠ -1 then
        addToCliInfo e.answers.accept s.cliInfoManager
      else s.cliInfoManager := by
  rw [cliInfoManager_processEventsByFd]
  simp [registers, Disconnects, h]

/-- The connections are accepted, and the streams stay as they are. -/
theorem ChatInv.accept (h : ChatInv exact p u up down) {e : SrvEvent} {i : ι}
    (hwhole : (ChatEvent.server (.event e i)).Whole) (hserver : e.fd = serverFd.fd)
    (hstep : beginEvent debug serverFd u e i = some v) :
    ∃ up' down', ChatInv exact p v up' down' := by
  obtain ⟨srv, hsrv, hv⟩ := Option.bind_eq_some_iff.mp hstep
  obtain ⟨-, hpossible, rfl⟩ := tcpStep_epoll hsrv
  have hclient : ¬ IsClient serverFd u.srv.run.srv e.fd := fun hc => hc.1 hserver
  have htable := table_of_not_client hclient
  have hsame := enqueues_of_not_client hclient
  have hevent := fun conn accepted htable => @ChatInv.event ι exact p u up up down serverFd h e
    conn u.toServer accepted hwhole.2 htable h.toServer (fun _ _ hm => hm)
    (by simp [hsame]) (by simp [hsame])
  simp only [hserver, if_true] at hv
  split at hv
  · rename_i hacc
    obtain rfl := Option.some.inj hv
    apply hevent u.conn u.accepted
    rw [htable, if_neg (fun hboth => hboth.2 hacc)]
    exact h.table
  · rename_i hacc
    split at hv
    · cases hv
    · obtain rfl := Option.some.inj hv
      obtain ⟨hstdin, -, hnew⟩ := hpossible hserver
      apply hevent
      rw [htable, if_pos ⟨hserver, hacc⟩]
      exact h.table.add hnew hstdin i

omit [DecidableEq ι] in
/-- An event of a descriptor that is no connection, such as a line typed at the server. -/
theorem ChatInv.noClient (h : ChatInv exact p u up down) {e : SrvEvent} {i : ι}
    (hwhole : (ChatEvent.server (.event e i)).Whole) (hserver : e.fd ≠ serverFd.fd)
    (hconn : u.conn e.fd = none) :
    ∃ up' down', ChatInv exact p (u.inEvent serverFd e) up' down' := by
  have hclient : ¬ IsClient serverFd u.srv.run.srv e.fd := by
    intro hc
    obtain ⟨j, hj⟩ := (h.table.opened e.fd).mp hc.2.2
    rw [hconn] at hj
    cases hj
  have hsame := enqueues_of_not_client hclient
  apply @ChatInv.event ι exact p u up up down serverFd h e u.conn u.toServer u.accepted hwhole.2
    _ h.toServer (fun _ _ hm => hm) (by simp [hsame]) (by simp [hsame])
  rw [table_of_not_client hclient, if_neg (fun hboth => hserver hboth.1)]
  exact h.table

/-- A connection is received from, or it has ended. -/
theorem ChatInv.fromClient (h : ChatInv exact p u up down) {e : SrvEvent} {i j : ι}
    {rest : List UInt8} (hwhole : (ChatEvent.server (.event e i)).Whole)
    (hserver : e.fd ≠ serverFd.fd)
    (hconn : u.conn e.fd = some j) (hrest : takeOff (u.toServer j) e.answers.recv = some rest) :
    ∃ up' down', ChatInv exact p
      { u.inEvent serverFd e with
        conn := if e.answers.recv = .eof then Function.update u.conn e.fd none else u.conn
        toServer := Function.update u.toServer j rest } up' down' := by
  have hfd : e.fd ∈ fds u.srv.run.srv.cliInfoManager := (h.table.opened e.fd).mpr ⟨j, hconn⟩
  have hclient : IsClient serverFd u.srv.run.srv e.fd :=
    ⟨hserver, fun heq => h.table.stdin (heq ▸ hfd), hfd⟩
  have htable := cliInfoManager_processEventsByFd serverFd u.srv.run.srv e
  obtain ⟨hreceive, hsend⟩ := hwhole
  rcases hrecv : e.answers.recv with _ | _ | c
  · -- the receive failed
    have henq : enqueues serverFd u.srv.run.srv e = [] := by
      rw [enqueues, if_pos hclient, hrecv]
    rw [hrecv] at hrest
    obtain rfl := Option.some.inj hrest
    rw [if_neg (by simp), Function.update_eq_self]
    refine h.event hsend ?_ h.toServer (fun _ _ hm => hm) (by simp [henq]) (by simp [henq])
    rw [htable]
    simpa [registers, Disconnects, hclient, hrecv, hserver] using h.table
  · -- the client has closed its connection
    have henq : enqueues serverFd u.srv.run.srv e = [] := by
      rw [enqueues, if_pos hclient, hrecv]
    rw [hrecv] at hrest
    obtain rfl := Option.some.inj hrest
    rw [if_pos rfl, Function.update_eq_self]
    refine h.event hsend ?_ h.toServer (fun _ _ hm => hm) (by simp [henq]) (by simp [henq])
    rw [htable]
    have hdel := h.table.del e.fd
    rw [delFromCliInfoByFd_eq_removeFirst] at hdel
    simpa [registers, Disconnects, hclient, hrecv] using hdel
  · rw [hrecv, h.toServer j] at hrest
    rw [hrecv] at hreceive
    obtain ⟨m, ms, hup, hm, rfl⟩ := takeOff_framed hreceive hrest
    have hbuf : u.srv.run.srv.rxBuf.recv c = m := Buf.recv_of_whole u.srv.run.srv.rxBuf hm
    obtain ⟨hsrc, htype⟩ := h.senders j m (by rw [hup]; exact List.mem_cons_self)
    have hsub : ∀ i, ∀ m' ∈ Function.update up j ms i, m' ∈ up i := by
      refine (Function.forall_update_iff _ fun i (x : List MsgBuf) => ∀ m' ∈ x, m' ∈ up i).mpr
        ⟨fun m' hm' => ?_, fun i _ m' hm' => hm'⟩
      rw [hup]
      exact List.mem_cons_of_mem m hm'
    rw [if_neg (by simp)]
    by_cases hsave : MsgBuf.msgType m = MsgType.SAVE_CLI_INFO.code
    · -- a registration is entered
      have henq : enqueues serverFd u.srv.run.srv e = [] := by
        rw [enqueues, if_pos hclient, hrecv]
        simp only [hbuf, hsave, if_true]
      have hnot : isProcessMsg m = false := by
        simp [isProcessMsg, hsave, MsgType.code]
      refine h.event hsend ?_ (framed_update h.toServer j rfl) hsub (by simp [henq]) ?_
      · rw [htable]
        have hput := h.table.save hconn hsrc
        rw [saveOneCliInfoByFd_eq_put, hsrc] at hput
        simpa [registers, hclient, hrecv, hbuf, hsave, hsrc] using hput
      · intro i
        rw [henq, List.filter_nil, List.nil_append]
        by_cases hi : i = j
        · subst hi
          rw [Function.update_self, hup, List.filter_cons, hnot, if_neg Bool.false_ne_true]
        · rw [Function.update_of_ne hi]
    · -- everything else goes to the queue
      have henq : enqueues serverFd u.srv.run.srv e = [m] := by
        rw [enqueues, if_pos hclient, hrecv]
        simp only [hbuf, hsave, if_false]
      have hmsg : isProcessMsg m = true := htype.resolve_right hsave
      have hfrom : IsFrom (p.endId j) m := ⟨by simpa [isProcessMsg] using hmsg, hsrc⟩
      refine h.event hsend ?_ (framed_update h.toServer j rfl) hsub ?_ ?_
      · rw [htable]
        simpa [registers, Disconnects, hclient, hrecv, hbuf, hsave, hserver] using h.table
      · rw [henq]
        intro m' hm'
        rw [List.mem_singleton.mp hm']
        exact ⟨j, hfrom⟩
      · intro i
        rw [henq]
        by_cases hi : i = j
        · subst hi
          rw [Function.update_self, hup]
          simp [cameFrom, hsrc, hmsg]
        · have hne : p.endId j ≠ p.endId i := fun heq => hi (p.inj heq).symm
          rw [Function.update_of_ne hi]
          simp [cameFrom, hsrc, hne]

theorem ChatInv.beginEvent (h : ChatInv exact p u up down) {e : SrvEvent} {i : ι}
    (hwhole : (ChatEvent.server (.event e i)).Whole)
    (hstep : beginEvent debug serverFd u e i = some v) :
    ∃ up' down', ChatInv exact p v up' down' := by
  by_cases hserver : e.fd = serverFd.fd
  · exact h.accept hwhole hserver hstep
  · obtain ⟨srv, hsrv, hv⟩ := Option.bind_eq_some_iff.mp hstep
    obtain ⟨-, -, rfl⟩ := tcpStep_epoll hsrv
    simp only [hserver, if_false] at hv
    split at hv
    · rename_i hconn
      obtain rfl := Option.some.inj hv
      exact h.noClient hwhole hserver hconn
    · rename_i j hconn
      obtain ⟨rest, hrest, hv⟩ := Option.bind_eq_some_iff.mp hv
      obtain rfl := Option.some.inj hv
      exact h.fromClient hwhole hserver hconn hrest

/-- A send of the epoll thread is nothing from a client. -/
theorem ChatInv.send (h : ChatInv exact p u up down) {shared : Option Shared} {fd : Int32}
    {m : MsgBuf} {taken : Nat} {sends : List (Int32 × MsgBuf × Nat)}
    (hepoll : u.epoll = .handling shared ((fd, m, taken) :: sends)) :
    ∃ up' down', ChatInv exact p { u with
      epoll := .handling shared sends
      toClient := u.afterSend fd m taken } up' down' := by
  have hown : ∀ s ∈ (fd, m, taken) :: sends, OwnSend s := by
    have hsends := h.ownSends
    rwa [hepoll] at hsends
  obtain ⟨hsrc, hwhole⟩ := hown _ List.mem_cons_self
  have hrest : ∀ s ∈ sends, OwnSend s := fun s hs => hown s (List.mem_cons_of_mem _ hs)
  unfold TcpChat.afterSend
  cases u.conn fd with
  | none => exact ⟨up, down, { h with ownSends := hrest }⟩
  | some j =>
      have honto : onto [(m, taken)] = framed (delivered [(m, taken)]) := by
        apply onto_eq_framed
        intro s hs
        rw [List.mem_singleton.mp hs]
        exact hwhole
      refine ⟨up, Function.update down j (down j ++ delivered [(m, taken)]),
        { h with ownSends := hrest, toClient := ?_, toClients := ?_ }⟩
      · apply framed_update h.toClient
        rw [h.toClient j, honto, framed_append]
      · intro i
        by_cases hi : i = j
        · subst hi
          have hnone : (delivered [(m, taken)]).filter fromSomeClient = [] := by
            rw [List.filter_eq_nil_iff]
            intro m' hm'
            have hmem := (delivered_sublist _).subset hm'
            rw [List.map_singleton, List.mem_singleton] at hmem
            simp [fromSomeClient, hmem, hsrc]
          rw [Function.update_self, ← List.append_assoc, List.filter_append, hnone,
            List.append_nil]
          exact h.toClients i
        · rw [Function.update_of_ne hi]
          exact h.toClients i

/-- A step of one of the server's threads. -/
theorem ChatInv.server (h : ChatInv exact p u up down) {e : ServerMove ι}
    (hwhole : (ChatEvent.server e).Whole) (hexact : exact → (ChatEvent.server e).Sends)
    (hstep : serverMove debug serverFd u e = some v) :
    ∃ up' down', ChatInv exact p v up' down' := by
  obtain ⟨-, hstep⟩ := Option.ite_none_left_eq_some.mp hstep
  split at hstep
  case h_1 => exact h.beginEvent hwhole hstep
  case h_2 hepoll _ =>
    obtain rfl := Option.some.inj hstep
    exact h.send hepoll
  case h_3 =>
    obtain rfl := Option.some.inj hstep
    exact ⟨up, down, { h with ownSends := by rintro s ⟨⟩ }⟩
  case h_4 hprocess _ =>
    obtain rfl := Option.some.inj hstep
    refine ⟨up, down, h.move ?_⟩
    rw [TcpChat.waiting, hprocess]
    cases u.srv.queue <;> rfl
  case h_5 hprocess _ =>
    obtain rfl := Option.some.inj hstep
    exact ⟨up, down, h.move (by rw [TcpChat.waiting, hprocess]; rfl)⟩
  case h_6 hprocess _ =>
    obtain rfl := Option.some.inj hstep
    exact ⟨up, down, h.move (by rw [TcpChat.waiting, hprocess]; rfl)⟩
  case h_7 hprocess _ =>
    obtain rfl := Option.some.inj hstep
    exact ⟨up, down, h.move (by rw [TcpChat.waiting, hprocess]; rfl)⟩
  case h_8 m hprocess _ =>
    obtain ⟨srv, hsrv, hv⟩ := Option.bind_eq_some_iff.mp hstep
    obtain rfl := Option.some.inj hv
    have hback : ChatInv exact p (u.putBack m) up down :=
      h.move (by rw [TcpChat.waiting, hprocess]; rfl)
    exact hback.process rfl rfl hwhole hexact hsrv
  case h_9 => cases hstep

end Steps

end Invariant

/-! ## 3. Runs -/

theorem newChat_inv {ι : Type} (exact : Prop) (p : Parties ι) :
    ChatInv exact p (newChat p) (fun i => [(newCli (p.endId i)).txBuf]) fun _ => [] where
  toServer _ := rfl
  toClient _ := rfl
  clients i := .of_early rfl rfl rfl
  senders := by
    intro i m hm
    rw [List.mem_singleton.mp hm]
    refine ⟨?_, Or.inr ?_⟩
    · exact (srcEndID_setDestEndID _ _).trans (srcEndID_setSrcEndID _ _)
    · exact (msgType_setDestEndID _ _).trans
        ((msgType_setSrcEndID _ _).trans (msgType_setMsgType _ _))
  table := by
    constructor
    · exact List.nodup_nil
    · exact List.not_mem_nil
    · simp [newChat, newTcpSrv, newRun, newSrv, fds]
    · simp [newChat, newTcpSrv, newRun, newSrv]
  authors := by
    intro m hm
    cases hm
  pending := by
    intro m hm
    cases hm
  ownSends := by
    intro s hs
    cases hs
  fromClients := by
    intro i
    have htype : (newCli (p.endId i)).txBuf.msgType = MsgType.SAVE_CLI_INFO.code :=
      (msgType_setDestEndID _ _).trans
        ((msgType_setSrcEndID _ _).trans (msgType_setMsgType _ _))
    have hnot : isProcessMsg (newCli (p.endId i)).txBuf = false := by
      simp [isProcessMsg, htype, MsgType.code]
    rw [List.filter_cons, hnot, if_neg Bool.false_ne_true]
    exact Flow.refl []
  through _ := Flow.refl []
  toClients _ := Flow.refl []

section Runs

variable {ι : Type} [DecidableEq ι] {debug : Bool} {serverFd : ServerFd} {p : Parties ι}
  {evs : List (ChatEvent ι)} {u : TcpChat ι}

theorem chatInv_run {exact : Prop} (hwhole : ∀ e ∈ evs, e.Whole)
    (hexact : exact → ∀ e ∈ evs, e.Sends)
    (hrun : exec (chatStep debug serverFd) (newChat p) evs = some u) :
    ∃ up down, ChatInv exact p u up down := by
  have hF : ∀ e ∈ evs, e.Whole ∧ (exact → e.Sends) := fun e he => ⟨hwhole e he, fun h =>
    hexact h e he⟩
  apply exec_invariant_of_forall _ ⟨_, _, newChat_inv exact p⟩ hF hrun
  rintro s e t ⟨hwhole, hexact⟩ ⟨up, down, h⟩ hstep
  obtain ⟨-, hstep⟩ := Option.ite_none_left_eq_some.mp hstep
  cases e with
  | client i e taken => exact h.client hwhole hexact hstep
  | server e => exact h.server hwhole hexact hstep

/-- The clients 7 and 8. -/
def twoClients : Parties Bool where
  endId second := if second then 8 else 7
  inj := by
    intro a b
    cases a <;> cases b <;> decide
  ne_server := by decide

def hello : MsgBuf :=
  (((MsgBuf.setMsgType (Buf.zero sizeofMsgBuf) .PROCESS_MSG).setSrcEndID 7).setDestEndID 8).setMsg
    hiStr.bytes hiStr.le

/-- The server's answer to the second registration. -/
def secondAnswer : MsgBuf :=
  txMsg (txMsg (Buf.zero sizeofMsgBuf) .SAVE_CLI_INFO 7) .SAVE_CLI_INFO 8

/-- An event of the epoll thread, with as many sends. -/
def eventOf (e : SrvEvent) (i : Bool) (sends : Nat) : List (ChatEvent Bool) :=
  .server (.event e i) :: List.replicate sends (.server .send) ++ [.server .eventEnd]

/-- The turn of the loop that relays a message. -/
def turn : List (ChatEvent Bool) :=
  [.server .dequeue, .server .dequeueEnd, .server .processBegin, .server (.process allSent)]

/-- Both register, and the first one sends a line to the other. -/
def lineToOther : List (ChatEvent Bool) :=
  eventOf (acceptEvent 5) false 0 ++ eventOf (recvEvent 5 (newCli 7).txBuf.chunk) false 1 ++
  eventOf (acceptEvent 6) true 0 ++ eventOf (recvEvent 6 (newCli 8).txBuf.chunk) true 1 ++
  ([txToOtherCli 8, .ui, .read (some hiStr), .ui, .ui, .ui, .ui, .ui, .ui].map fun e =>
    .client false e sizeofMsgBuf) ++
  eventOf (recvEvent 5 hello.chunk) false 0 ++ turn ++
  ([.rx, .recv (.data secondAnswer.chunk), .rx, .rx, .recv (.data hello.chunk)].map fun e =>
    .client true e sizeofMsgBuf)

theorem lineToOther_whole : ∀ e ∈ lineToOther, e.Whole ∧ e.Sends := by
  have hsend : AllOrNothing sizeofMsgBuf := Or.inr rfl
  simp [lineToOther, eventOf, turn, ChatEvent.Whole, ChatEvent.Sends, receive, IsBlock,
    acceptEvent, recvEvent, allSent, MsgBuf.chunk, Buf.size, hsend, txToOtherCli]

theorem lineToOther_run :
    ∃ u, exec (chatStep false listening) (newChat twoClients) lineToOther = some u ∧
      u.got true = [secondAnswer, hello] ∧ u.srv.fault = false ∧
      u.toServer false = [] ∧ u.waiting = [] ∧ u.toClient true = [] := by
  have hrun : (exec (chatStep false listening) (newChat twoClients) lineToOther).any
      (fun u => decide (u.got true = [secondAnswer, hello] ∧ u.srv.fault = false ∧
        u.toServer false = [] ∧ u.waiting = [] ∧ u.toClient true = [])) = true := by
    decide +kernel
  obtain ⟨u, hu, hgot⟩ := (Option.any_eq_true _ _).mp hrun
  exact ⟨u, hu, of_decide_eq_true hgot⟩

end Runs

end SocketPractice.SocketTcp.Chat
