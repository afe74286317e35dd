import SocketPractice.SocketTcp.ServerEpoll

/-!
# What one client's messages leave for another

`ClientMsgEnQueue` receives into `RX_BUF` without clearing it, and
`SendInitInfoToCliByFd` sends `TX_BUF` without setting its `msg`.  So two runs in
which a connection is accepted and receives the same may enqueue different messages
for it and acknowledge it differently.  They never do exactly if it receives whole
messages only, none of them a registration.
-/

namespace SocketPractice.SocketTcp

open Lib.Bytes Lib.Runs

/-! ## 1. Without residue -/

/-- Data received is one whole message, and not a registration. -/
def CliInput.Plain : CliInput → Prop
  | .received (.data c) => ∃ m, c.whole = some m ∧ MsgBuf.msgType m ≠ MsgType.SAVE_CLI_INFO.code
  | _ => True

def CliInput.message : CliInput → Option MsgBuf
  | .received (.data c) => c.whole
  | _ => none

/-- From plain inputs follow exactly their messages, and no acknowledgement. -/
def Clean (fd : Int32) (calls : List SrvCall) : Prop :=
  (∀ i ∈ inputs fd calls, i.Plain) →
    enqueued fd calls = (inputs fd calls).filterMap CliInput.message ∧ acked fd calls = []

theorem Clean.append {fd : Int32} {as bs : List SrvCall} (ha : Clean fd as) (hb : Clean fd bs) :
    Clean fd (as ++ bs) := by
  intro h
  rw [inputs_append] at h
  have ha := ha fun i hi => h i (List.mem_append_left _ hi)
  have hb := hb fun i hi => h i (List.mem_append_right _ hi)
  simp [ha, hb]

theorem clean_clientMsgEnQueue {s : SrvState} {fd' : Int32} (k : Answers)
    (hopen : fd' ∈ fds s.cliInfoManager) (fd : Int32) :
    Clean fd (clientMsgEnQueue s fd' k).2.1 := by
  intro hplain
  rw [inputs_clientMsgEnQueue k fd hopen] at hplain ⊢
  rcases clientMsgEnQueue_calls k hopen with ⟨call, hcalls, hcall⟩
  rw [hcalls]
  by_cases hfd : fd' = fd
  · subst hfd
    rw [if_pos rfl] at hplain ⊢
    have hplain := hplain _ (List.mem_singleton_self _)
    cases hrecv : k.recv with
    | error =>
        simp only [hrecv] at hcall
        subst hcall
        exact ⟨rfl, rfl⟩
    | eof =>
        simp only [hrecv] at hcall
        subst hcall
        exact ⟨rfl, rfl⟩
    | data c =>
        rw [hrecv] at hplain
        obtain ⟨m, hm, htype⟩ := hplain
        simp only [hrecv, Buf.recv_of_whole _ hm, if_neg htype] at hcall
        subst hcall
        simp [enqueued, acked, CliInput.message, hm]
  · rw [if_neg hfd]
    rcases call with _ | call
    · exact ⟨rfl, rfl⟩
    · split at hcall
      · cases hcall
      · cases hcall
        exact ⟨rfl, rfl⟩
      · split at hcall
        · obtain ⟨m, hm, -⟩ := hcall
          cases hm
          simp [enqueued, acked, hfd]
        · cases hcall
          simp [enqueued, acked, hfd]

theorem clean_processEventsByFd (serverFd : ServerFd) (s : SrvState) (e : SrvEvent) (fd : Int32) :
    Clean fd (processEventsByFd serverFd s e.fd e.answers).2.1 := by
  by_cases hclient : IsClient serverFd s e.fd
  · rw [processEventsByFd_client hclient]
    exact clean_clientMsgEnQueue e.answers hclient.2.2 fd
  · intro _
    unfold processEventsByFd
    by_cases hserver : e.fd = serverFd.fd
    · rw [if_pos hserver]
      by_cases hacc : e.answers.accept = -1 <;> by_cases hfd : e.answers.accept = fd <;>
        simp_all [acceptNewClient, inputs, enqueued, acked, CliInput.ofCall, CliInput.message]
    · rw [if_neg hserver]
      by_cases hstdin : e.fd = STDIN_FILENO
      · rw [if_pos hstdin]
        rcases broadcastAllClient_calls s e.answers fd with ⟨hin, henq, hack⟩
        simp [hin, henq, hack]
      · rw [if_neg hstdin, if_neg]
        · exact ⟨rfl, rfl⟩
        · rw [isSome_getOneCliInfoByFd]
          exact fun hopen => hclient ⟨hserver, hstdin, hopen⟩

/-- In every run, plain inputs of a connection alone decide what is enqueued for it. -/
theorem clean_run {serverFd : ServerFd} {evs : List SrvEvent} {r : SrvRun}
    (hrun : exec (srvStep serverFd) newRun evs = some r) (fd : Int32) : Clean fd r.calls := by
  refine exec_invariant (I := fun r => Clean fd r.calls) ?_ (fun _ => ⟨rfl, rfl⟩) hrun
  intro s e t h hstep
  rcases srvStep_eq_some.mp hstep with ⟨-, rfl⟩
  exact h.append (clean_processEventsByFd serverFd s.srv e fd)

/-! ## 2. Runs that a connection cannot tell apart -/

/-- The same connections are open, and `fd` has seen the same. -/
def SameTo (fd : Int32) (r r' : SrvRun) : Prop :=
  fds r.srv.cliInfoManager = fds r'.srv.cliInfoManager ∧ inputs fd r.calls = inputs fd r'.calls

theorem SameTo.step {serverFd : ServerFd} {fd : Int32} (r r' : SrvRun) (e : SrvEvent)
    (t : SrvRun) (h : SameTo fd r r') (hstep : srvStep serverFd r e = some t) :
    ∃ t', srvStep serverFd r' e = some t' ∧ SameTo fd t t' := by
  obtain ⟨hfds, hin⟩ := h
  rcases srvStep_eq_some.mp hstep with ⟨hposs, rfl⟩
  have hposs' : Possible serverFd r'.srv e := by
    rw [Possible, ← hfds]
    exact hposs
  refine ⟨_, srvStep_eq_some.mpr ⟨hposs', rfl⟩, ?_, ?_⟩
  · simp only [SrvRun.handle, fds_processEventsByFd, hfds]
  · simp only [SrvRun.handle, inputs_append, inputs_processEventsByFd, hfds, hin]

/-! ## 3. The residue -/

/-- A state whose buffers end differently. -/
structure Differs (s s' : SrvState) : Prop where
  header : s.rxBuf.bytes.take 4 = s'.rxBuf.bytes.take 4
  rx : s.rxBuf.bytes.getLast? ≠ s'.rxBuf.bytes.getLast?
  tx : s.txBuf.msg ≠ s'.txBuf.msg

/-- The two ways to differ in one message of `fd`. -/
def OneDiffers (fd : Int32) (as bs : List SrvCall) : Prop :=
  ∃ m m', m ≠ m' ∧ (enqueued fd as = [m] ∧ enqueued fd bs = [m'] ∨
    acked fd as = [m] ∧ acked fd bs = [m'])

/-- What is received short is enqueued with the end of `RX_BUF` behind it, and a
    registration is acknowledged with the `msg` of `TX_BUF`. -/
theorem oneDiffers_of_not_plain {s s' : SrvState} {fd : Int32} {k : Answers}
    (hdiff : Differs s s') (hopen : fd ∈ fds s.cliInfoManager)
    (hopen' : fd ∈ fds s'.cliInfoManager) (hplain : ¬ (CliInput.received k.recv).Plain) :
    OneDiffers fd (clientMsgEnQueue s fd k).2.1 (clientMsgEnQueue s' fd k).2.1 := by
  rcases clientMsgEnQueue_calls k hopen with ⟨call, hcalls, hcall⟩
  rcases clientMsgEnQueue_calls k hopen' with ⟨call', hcalls', hcall'⟩
  rw [hcalls, hcalls']
  cases hrecv : k.recv with
  | error =>
      rw [hrecv] at hplain
      exact absurd trivial hplain
  | eof =>
      rw [hrecv] at hplain
      exact absurd trivial hplain
  | data c =>
      simp only [hrecv] at hcall hcall' hplain
      have htype : MsgBuf.msgType (s.rxBuf.recv c) = MsgBuf.msgType (s'.rxBuf.recv c) :=
        MsgBuf.msgType_congr (Buf.take_recv_congr c hdiff.header)
      by_cases hsave : MsgBuf.msgType (s.rxBuf.recv c) = MsgType.SAVE_CLI_INFO.code
      · rw [if_pos hsave] at hcall
        rw [if_pos (htype.symm.trans hsave)] at hcall'
        obtain ⟨m, rfl, hm⟩ := hcall
        obtain ⟨m', rfl, hm'⟩ := hcall'
        refine ⟨m, m', fun heq => hdiff.tx ?_, Or.inr ?_⟩
        · rw [← hm, heq, hm']
        · simp [acked]
      · rw [if_neg hsave] at hcall
        rw [if_neg (fun h => hsave (htype.trans h))] at hcall'
        subst hcall
        subst hcall'
        have hshort : c.bytes.length < sizeofMsgBuf := by
          apply Chunk.length_lt_of_whole
          rcases hw : c.whole with _ | m
          · rfl
          · rw [Buf.recv_of_whole _ hw] at hsave
            exact absurd ⟨m, hw, hsave⟩ hplain
        refine ⟨s.rxBuf.recv c, s'.rxBuf.recv c, fun heq => hdiff.rx ?_, Or.inl ⟨?_, ?_⟩⟩
        · rw [← Buf.getLast?_recv s.rxBuf hshort, heq, Buf.getLast?_recv s'.rxBuf hshort]
        · simp [enqueued]
        · simp [enqueued]

/-! ## 4. A broadcast in between -/

theorem exists_byte_ne (a b : Option UInt8) : ∃ y : UInt8, a ≠ some y ∧ b ≠ some y := by
  by_cases h0 : a ≠ some 0 ∧ b ≠ some 0
  · exact ⟨0, h0⟩
  · by_cases h1 : a ≠ some 1 ∧ b ≠ some 1
    · exact ⟨1, h1⟩
    · refine ⟨2, ?_⟩
      grind

def lineOf (y : UInt8) : Typed := ⟨List.replicate MAX_MSG_LEN y, by simp⟩

/-- The line is typed at the terminal of the server. -/
def typedEvent (y : UInt8) : SrvEvent :=
  { fd := STDIN_FILENO
    answers := { accept := -1, read := some (lineOf y), recv := .error, send := fun _ => -1 } }

theorem getLast?_lineOf (y : UInt8) : (lineOf y).bytes.getLast? = some y := by
  rw [lineOf, List.getLast?_replicate, if_neg (by decide)]

/-- There is a broadcast that leaves other bytes in both buffers. -/
theorem exists_broadcast (serverFd : ServerFd) (r : SrvRun) {fd : Int32}
    (hopen : fd ∈ fds r.srv.cliInfoManager) :
    ∃ e r', srvStep serverFd r e = some r' ∧ SameTo fd r r' ∧ Differs r.srv r'.srv ∧
      enqueued fd r'.calls = enqueued fd r.calls ∧ acked fd r'.calls = acked fd r.calls := by
  rcases exists_byte_ne r.srv.rxBuf.bytes.getLast? r.srv.txBuf.bytes.getLast? with ⟨y, hrx, htx⟩
  have hne : (typedEvent y).fd ≠ serverFd.fd := Ne.symm serverFd.ne_stdin
  have hbroad : r.handle serverFd (typedEvent y) =
      { srv := (broadcastAllClient r.srv (typedEvent y).answers).1
        calls := r.calls ++ (broadcastAllClient r.srv (typedEvent y).answers).2.1 } := by
    rw [SrvRun.handle, processEventsByFd, if_neg hne]
    rfl
  rcases broadcastAllClient_calls r.srv (typedEvent y).answers fd with ⟨hin, henq, hack⟩
  refine ⟨typedEvent y, _, srvStep_eq_some.mpr ⟨fun h => absurd h hne, hbroad⟩, ⟨rfl, ?_⟩, ?_, ?_,
    ?_⟩
  · rw [inputs_append, hin, List.append_nil]
  · have hfull : (lineOf y).bytes.length = MAX_MSG_LEN := List.length_replicate
    obtain ⟨hheader, hrxmsg, htxmsg⟩ := broadcastAllClient_full (s := r.srv)
      (k := (typedEvent y).answers) rfl hfull
    refine ⟨hheader.symm, ?_, ?_⟩
    · rw [← MsgBuf.getLast?_msg (broadcastAllClient _ _).1.rxBuf, hrxmsg, getLast?_lineOf]
      exact hrx
    · rw [htxmsg (by rintro hnil; rw [hnil] at hopen; cases hopen)]
      intro heq
      rw [← MsgBuf.getLast?_msg, heq, getLast?_lineOf] at htx
      exact htx rfl
  · rw [enqueued_append, henq, List.append_nil]
  · rw [acked_append, hack, List.append_nil]

/-! ## 5. Pairs of runs -/

/-- Only a receive from `fd` itself is not plain. -/
theorem inputsOf_not_plain {serverFd : ServerFd} {s : SrvState} {e : SrvEvent} {fd : Int32}
    {i : CliInput} (hi : i ∈ inputsOf serverFd (fds s.cliInfoManager) e fd)
    (hplain : ¬ i.Plain) :
    e.fd = fd ∧ IsClient serverFd s fd ∧ i = .received e.answers.recv := by
  unfold inputsOf at hi
  by_cases hserver : e.fd = serverFd.fd
  · rw [if_pos hserver] at hi
    split at hi
    · rw [List.mem_singleton.mp hi] at hplain
      exact absurd trivial hplain
    · cases hi
  · rw [if_neg hserver] at hi
    by_cases hstdin : e.fd = STDIN_FILENO
    · rw [if_pos hstdin] at hi
      cases hi
    · rw [if_neg hstdin] at hi
      split at hi
      · rename_i hopen
        obtain ⟨hmem, rfl⟩ := hopen
        exact ⟨rfl, ⟨hserver, hstdin, hmem⟩, List.mem_singleton.mp hi⟩
      · cases hi

theorem append_singleton_ne {α : Type} {as bs cs : List α} {x y : α} (h : x ≠ y) :
    as ++ [x] ++ bs ≠ as ++ [y] ++ cs := by
  intro heq
  rw [List.append_assoc, List.append_assoc] at heq
  exact h (List.cons.inj (List.append_cancel_left heq)).1

/-- Calls after which `fd` differs in one message stay different. -/
theorem OneDiffers.ne {fd : Int32} {as as' bs cs ds es : List SrvCall}
    (h : OneDiffers fd bs cs) (henq : enqueued fd as' = enqueued fd as)
    (hack : acked fd as' = acked fd as) :
    ¬ (enqueued fd (as' ++ cs ++ es) = enqueued fd (as ++ bs ++ ds) ∧
      acked fd (as' ++ cs ++ es) = acked fd (as ++ bs ++ ds)) := by
  obtain ⟨m, m', hne, ⟨hb, hc⟩ | ⟨hb, hc⟩⟩ := h
  · rintro ⟨heq, -⟩
    simp only [enqueued_append, henq, hb, hc] at heq
    exact append_singleton_ne (Ne.symm hne) heq
  · rintro ⟨-, heq⟩
    simp only [acked_append, hack, hb, hc] at heq
    exact append_singleton_ne (Ne.symm hne) heq

/-- What is enqueued and acknowledged for a connection is the same in every other run
    in which the connection sees the same, if and only if it receives whole messages
    only, and no registration among them. -/
theorem no_residue_iff_plain (serverFd : ServerFd) (fd : Int32) (evs : List SrvEvent)
    (r : SrvRun) (hrun : exec (srvStep serverFd) newRun evs = some r) :
    (∀ evs' r', exec (srvStep serverFd) newRun evs' = some r' →
        inputs fd r'.calls = inputs fd r.calls →
        enqueued fd r'.calls = enqueued fd r.calls ∧ acked fd r'.calls = acked fd r.calls) ↔
      ∀ i ∈ inputs fd r.calls, i.Plain := by
  constructor
  · intro hsame
    apply Classical.byContradiction
    intro hnot
    obtain ⟨pre, e, post, u, v, rfl, hpre, hu, hstep, hv, hpost⟩ := exists_step_of_lost
      (I := fun r => ∀ i ∈ inputs fd r.calls, i.Plain) (fun i hi => by cases hi) hnot hrun
    rcases srvStep_eq_some.mp hstep with ⟨-, rfl⟩
    -- the first input that is not plain comes with this step
    obtain ⟨rfl, hclient, hplain⟩ : e.fd = fd ∧ IsClient serverFd u.srv fd ∧
        ¬ (CliInput.received e.answers.recv).Plain := by
      simp only [not_forall] at hv
      obtain ⟨i, hi, hplain⟩ := hv
      rw [SrvRun.handle, inputs_append, inputs_processEventsByFd] at hi
      have hnew := (List.mem_append.mp hi).resolve_left fun hold => hplain (hu i hold)
      rcases inputsOf_not_plain hnew hplain with ⟨hfd, hclient, rfl⟩
      exact ⟨hfd, hclient, hplain⟩
    -- a broadcast before it changes what it leads to
    obtain ⟨b, u', hb, hsim, hdiff, henq, hack⟩ :=
      exists_broadcast serverFd u hclient.2.2
    have hclient' : IsClient serverFd u'.srv e.fd :=
      ⟨hclient.1, hclient.2.1, hsim.1 ▸ hclient.2.2⟩
    rcases SameTo.step _ _ _ _ hsim hstep with ⟨v', hv', hsim'⟩
    rcases exec_simulation SameTo.step hsim' hpost with ⟨r', hr', hsim''⟩
    rcases srvStep_eq_some.mp hv' with ⟨-, rfl⟩
    rcases exec_calls hpost with ⟨rest, hrest⟩
    rcases exec_calls hr' with ⟨rest', hrest'⟩
    have hrun' : exec (srvStep serverFd) newRun (pre ++ b :: e :: post) = some r' :=
      exec_append_eq_some.mpr ⟨u, hpre, exec_cons_eq_some.mpr ⟨u', hb,
        exec_cons_eq_some.mpr ⟨_, hv', hr'⟩⟩⟩
    have hboth := hsame _ r' hrun' hsim''.2.symm
    rw [hrest, hrest', SrvRun.handle, SrvRun.handle, processEventsByFd_client hclient,
      processEventsByFd_client hclient'] at hboth
    exact (oneDiffers_of_not_plain hdiff hclient.2.2 hclient'.2.2 hplain).ne henq hack hboth
  · intro hplain evs' r' hrun' hin
    rcases clean_run hrun fd hplain with ⟨henq, hack⟩
    rcases clean_run hrun' fd (hin ▸ hplain) with ⟨henq', hack'⟩
    exact ⟨by rw [henq, henq', hin], by rw [hack, hack']⟩

/-! ## 6. Two runs -/

/-- The three integers of a message, without the rest. -/
def headerOnly : Chunk sizeofMsgBuf :=
  ⟨List.replicate 12 0, by simp, by simp only [List.length_replicate]; decide⟩

/-- Connection 5 sends a header; another client has or has not sent something before. -/
def aloneRun : List SrvEvent := [acceptEvent 5, recvEvent 5 headerOnly]
def sharedRun : List SrvEvent :=
  [acceptEvent 5, acceptEvent 6, recvEvent 6 serverMsg.chunk, recvEvent 5 headerOnly]

/-- The `A`s of connection 6 are enqueued as a message of connection 5. -/
theorem residue_of_another_client :
    ∃ r r', exec (srvStep listening) newRun aloneRun = some r ∧
      exec (srvStep listening) newRun sharedRun = some r' ∧
      inputs 5 r'.calls = inputs 5 r.calls ∧ enqueued 5 r'.calls ≠ enqueued 5 r.calls := by
  have hruns : (exec (srvStep listening) newRun aloneRun).any (fun r =>
      (exec (srvStep listening) newRun sharedRun).any fun r' =>
        decide (inputs 5 r'.calls = inputs 5 r.calls ∧
          enqueued 5 r'.calls ≠ enqueued 5 r.calls)) = true := by
    decide +kernel
  rcases (Option.any_eq_true _ _).mp hruns with ⟨r, hr, hruns⟩
  rcases (Option.any_eq_true _ _).mp hruns with ⟨r', hr', hruns⟩
  exact ⟨r, r', hr, hr', of_decide_eq_true hruns⟩

def plainRun : List SrvEvent := [acceptEvent 5, recvEvent 5 serverMsg.chunk]

theorem no_residue_plainRun :
    ∃ r, exec (srvStep listening) newRun plainRun = some r ∧
      ∀ evs' r', exec (srvStep listening) newRun evs' = some r' →
        inputs 5 r'.calls = inputs 5 r.calls →
        enqueued 5 r'.calls = enqueued 5 r.calls ∧ acked 5 r'.calls = acked 5 r.calls := by
  obtain ⟨r, hr⟩ : ∃ r, exec (srvStep listening) newRun plainRun = some r := ⟨_, rfl⟩
  refine ⟨r, hr, (no_residue_iff_plain listening 5 plainRun r hr).mpr ?_⟩
  have hin : (exec (srvStep listening) newRun plainRun).any (fun r =>
      decide (inputs 5 r.calls = [.accepted, .received (.data serverMsg.chunk)])) = true := by
    decide +kernel
  rw [hr, Option.any_some, decide_eq_true_eq] at hin
  rw [hin]
  intro i hi
  rcases List.mem_pair.mp hi with rfl | rfl
  · trivial
  · exact ⟨_, dif_pos (by decide +kernel), by decide +kernel⟩

end SocketPractice.SocketTcp
