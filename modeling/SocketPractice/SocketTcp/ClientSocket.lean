import SocketPractice.Lib.CString
import SocketPractice.Lib.Runs
import SocketPractice.SocketTcp.PreProcess

/-!
# The client's two threads (`client_socket.c`)

The thread of the user interface reads what the user types into `RX_BUF`, looks
for `!!quit` there, copies the message to `TX_BUF` and sends it.  The receive
thread clears and fills the same `RX_BUF` with what the server sends.  A step is
one statement of one thread; a `read` or `recv` is one step when it returns.

The user interface sends what was typed, and leaves its loop when it should, in
every way its thread can run on from any point, if and only if at each of its
reads and at each write of the receive thread in between `RX_BUF` goes on showing
what was typed.
-/

namespace SocketPractice.SocketTcp

open Lib.Bytes Lib.CString Lib.Runs

/-! ## 1. The code -/

def quitStr : List UInt8 := [33, 33, 113, 117, 105, 116]

/-- Where the user interface is in `TxToServer` or `TxToOtherCli`. -/
inductive UiPc where
  | menu
  | clear
  | read
  | test
  | setMsgType
  | setSrcEndID
  | setDestEndID
  | copy
  | send
deriving DecidableEq, Repr

/-- Where the receive thread is in `RxFromServer`. -/
inductive RxPc where
  | clear
  | recv
  | test
  | enqueue
deriving DecidableEq, Repr

structure CliState where
  rxBuf : MsgBuf
  txBuf : MsgBuf
  endId : EndID
  /-- The destination: `SERVER_ENDID` in `TxToServer`, `endIdTmp` in
      `TxToOtherCli`. -/
  dest : EndID
  ui : UiPc
  rx : RxPc
  initCliInfo : Bool
  /-- The messages passed to `EnMsgLinkQueue`. -/
  enqueued : List MsgBuf
  /-- What the last `read` returned. -/
  typed : Typed
  /-- The searches for `!!quit`: what had been typed, and whether the loop ended. -/
  tests : List (Typed × Bool)
  /-- The messages sent, each with what had been typed. -/
  sent : List (Typed × MsgBuf)

/-- `ui` and `rx` are the next statements of the threads; `read` and `recv` carry
    what the call returned. -/
inductive CliEvent where
  | enter (dest : EndID)
  | ui
  | read (r : Option Typed)
  | rx
  | recv (r : RecvRet sizeofMsgBuf)
deriving DecidableEq

/-- `TxToServer` and `TxToOtherCli` start the same loop with different
    destinations. -/
def txToServer : CliEvent := .enter SERVER_ENDID
def txToOtherCli (endIdTmp : EndID) : CliEvent := .enter endIdTmp

/-- `SafeStrcasestr(GetMsgBuf(RX_BUF)->msg, "!!quit")`: behind `msg` the search
    runs on into `TX_BUF`. -/
def findsQuit (rxBuf txBuf : MsgBuf) : Bool :=
  strcasestr (rxBuf.msg ++ txBuf.bytes) quitStr

/-- The next statement of the user interface. -/
def uiStep (s : CliState) : Option CliState :=
  match s.ui with
  | .menu => none
  | .clear => some { s with rxBuf := s.rxBuf.clearMsg, ui := .read }
  | .read => none
  | .test =>
      let found := findsQuit s.rxBuf s.txBuf
      some { s with
        tests := s.tests ++ [(s.typed, found)], ui := if found then .menu else .setMsgType }
  | .setMsgType => some { s with txBuf := s.txBuf.setMsgType .PROCESS_MSG, ui := .setSrcEndID }
  | .setSrcEndID => some { s with txBuf := s.txBuf.setSrcEndID s.endId, ui := .setDestEndID }
  | .setDestEndID => some { s with txBuf := s.txBuf.setDestEndID s.dest, ui := .copy }
  | .copy => some { s with
      txBuf := s.txBuf.setMsg s.rxBuf.msg (Nat.le_of_eq s.rxBuf.length_msg), ui := .send }
  | .send => some { s with sent := s.sent ++ [(s.typed, s.txBuf)], ui := .clear }

/-- The next statement of `RxFromServer`. -/
def rxStep (s : CliState) : Option CliState :=
  match s.rx with
  | .clear => some { s with rxBuf := s.rxBuf.clearMsg, rx := .recv }
  | .recv => none
  | .test =>
      if s.rxBuf.msgType = MsgType.SAVE_CLI_INFO.code then
        some { s with initCliInfo := true, rx := .clear }
      else some { s with rx := .enqueue }
  | .enqueue => some { s with enqueued := s.enqueued ++ [s.rxBuf], rx := .clear }

def cliStep (s : CliState) : CliEvent → Option CliState
  | .enter dest => if s.ui = .menu then some { s with dest := dest, ui := .clear } else none
  | .ui => uiStep s
  | .read r =>
      if s.ui = .read then
        match r with
        | none => some { s with ui := .clear }
        | some typed => some { s with
            rxBuf := s.rxBuf.setMsg typed.bytes typed.le, typed := typed, ui := .test }
      else none
  | .rx => rxStep s
  | .recv r =>
      if s.rx = .recv then
        match r with
        | .data c => some { s with rxBuf := s.rxBuf.recv c, rx := .test }
        | _ => some { s with rx := .clear }
      else none

/-- What `InitCliInfoToServer` leaves in `TX_BUF`. -/
def initCliInfoToServer (txBuf : MsgBuf) (endId : EndID) : MsgBuf :=
  ((txBuf.setMsgType .SAVE_CLI_INFO).setSrcEndID endId).setDestEndID SERVER_ENDID

/-- The client when the receive thread enters its loop. -/
def newCli (endId : EndID) : CliState :=
  { rxBuf := Buf.zero sizeofMsgBuf, txBuf := initCliInfoToServer (Buf.zero sizeofMsgBuf) endId,
    endId := endId, dest := SERVER_ENDID, ui := .menu, rx := .clear, initCliInfo := false,
    enqueued := [], typed := ⟨[], Nat.zero_le _⟩, tests := [], sent := [] }

/-! ## 2. What the user interface should do -/

def Typed.padded (t : Typed) : List UInt8 :=
  t.bytes ++ List.replicate (MAX_MSG_LEN - t.bytes.length) 0

/-- The loop ended exactly where `!!quit` was typed, and every message sent carries
    what was typed. -/
structure Faithful (s : CliState) : Prop where
  tests : ∀ p ∈ s.tests, p.2 = containsCase p.1.bytes quitStr
  sent : ∀ p ∈ s.sent, p.2.msg = p.1.padded

/-- A message that shows what was typed: `!!quit` is found in it if it was typed,
    and otherwise it is what was typed followed by zeros. -/
def Shows (t : Typed) (msg : List UInt8) : Prop :=
  if containsCase t.bytes quitStr then strcasestr msg quitStr = true else msg = t.padded

instance (t : Typed) (msg : List UInt8) : Decidable (Shows t msg) := by
  unfold Shows
  infer_instance

/-- From the `read` to the `memcpy` the user interface relies on `RX_BUF`. -/
def UiPc.relies : UiPc → Bool
  | .test => true
  | .setMsgType => true
  | .setSrcEndID => true
  | .setDestEndID => true
  | .copy => true
  | _ => false

/-- What is written to `RX_BUF`, by the `read` itself or by the receive thread
    while the user interface relies on it, shows what was typed. -/
def Undisturbed (s : CliState) : CliEvent → Prop
  | .read (some typed) => Shows typed (typed.bytes ++ s.rxBuf.msg.drop typed.bytes.length)
  | .rx => s.ui.relies = true → s.rx = .clear → Shows s.typed zeroMsg
  | .recv (.data c) => s.ui.relies = true → Shows s.typed (MsgBuf.msg (s.rxBuf.recv c))
  | _ => True

instance (s : CliState) (e : CliEvent) : Decidable (Undisturbed s e) := by
  unfold Undisturbed
  split <;> infer_instance

/-! ## 3. The search -/

/-- The first bytes of `TX_BUF`: a message type that is 0 or 1. -/
def HeaderOk (txBuf : MsgBuf) : Prop :=
  ∃ b : UInt8, (b = 0 ∨ b = 1) ∧ txBuf.bytes.take 2 = [b, 0]

/-- The search never finds anything that reaches into `TX_BUF`. -/
theorem findsQuit_eq (rxBuf : MsgBuf) {txBuf : MsgBuf} (h : HeaderOk txBuf) :
    findsQuit rxBuf txBuf = strcasestr rxBuf.msg quitStr := by
  obtain ⟨b, hb, htake⟩ := h
  have hbytes : txBuf.bytes = b :: 0 :: txBuf.bytes.drop 2 := by
    conv_lhs => rw [← List.take_append_drop 2 txBuf.bytes, htake]
    rfl
  rw [findsQuit, hbytes]
  apply strcasestr_append _ _ (by decide)
  rcases hb with rfl | rfl <;> decide

theorem findsQuit_padded {t : Typed} (h : strcasestr t.padded quitStr = true) :
    containsCase t.bytes quitStr = true := by
  rw [strcasestr, Typed.padded, cString_append_zeros] at h
  exact containsCase_of_strcasestr h

/-- On a message that shows what was typed the search answers for what was typed. -/
theorem Shows.search {t : Typed} {msg : List UInt8} (h : Shows t msg) :
    strcasestr msg quitStr = containsCase t.bytes quitStr := by
  unfold Shows at h
  cases hquit : containsCase t.bytes quitStr with
  | true => simpa [hquit] using h
  | false =>
      simp only [hquit, Bool.false_eq_true, if_false] at h
      rcases hfound : strcasestr msg quitStr with _ | _
      · rfl
      · rw [h] at hfound
        rw [findsQuit_padded hfound] at hquit
        cases hquit

theorem shows_iff_of_not_quit {t : Typed} {msg : List UInt8}
    (h : containsCase t.bytes quitStr = false) : Shows t msg ↔ msg = t.padded := by
  simp [Shows, h]

/-! ## 4. The invariant -/

structure CliInv (s : CliState) : Prop where
  faithful : Faithful s
  header : HeaderOk s.txBuf
  shows : s.ui.relies = true → Shows s.typed s.rxBuf.msg
  notQuit : s.ui.relies = true → s.ui ≠ .test → containsCase s.typed.bytes quitStr = false
  copied : s.ui = .send → s.txBuf.msg = s.typed.padded

theorem Faithful.tested {s : CliState} (h : Faithful s) {t : Typed} {found : Bool} {ui : UiPc}
    (hfound : found = containsCase t.bytes quitStr) :
    Faithful { s with tests := s.tests ++ [(t, found)], ui := ui } where
  tests := by
    intro p hp
    rcases List.mem_append.mp hp with hp | hp
    · exact h.tests p hp
    · rw [List.mem_singleton.mp hp]
      exact hfound
  sent := h.sent

theorem headerOk_of_take {b b' : MsgBuf} (h : HeaderOk b)
    (htake : b'.bytes.take 2 = b.bytes.take 2) : HeaderOk b' := by
  obtain ⟨x, hx, hb⟩ := h
  exact ⟨x, hx, htake.trans hb⟩

/-- Outside its read and its send the user interface relies on nothing. -/
theorem CliInv.of_idle {s : CliState} (hfaithful : Faithful s) (hheader : HeaderOk s.txBuf)
    (hrelies : s.ui.relies = false) (hsend : s.ui ≠ .send) : CliInv s where
  faithful := hfaithful
  header := hheader
  shows := by
    intro h
    exact absurd h (by simp [hrelies])
  notQuit := by
    intro h
    exact absurd h (by simp [hrelies])
  copied := by
    intro h
    exact absurd h hsend

/-- The statements between the search and the `memcpy` write to the header only. -/
theorem CliInv.prepare {s : CliState} (h : CliInv s) {txBuf : MsgBuf} {ui : UiPc}
    (hrelies : s.ui.relies = true) (htest : s.ui ≠ .test) (hsend : ui ≠ .send)
    (hheader : HeaderOk txBuf) : CliInv { s with txBuf := txBuf, ui := ui } where
  faithful := ⟨h.faithful.tests, h.faithful.sent⟩
  header := hheader
  shows := fun _ => h.shows hrelies
  notQuit := fun _ _ => h.notQuit hrelies htest
  copied := by
    intro hui
    exact absurd hui hsend

/-- Every statement of the user interface keeps the invariant. -/
theorem CliInv.ui {s t : CliState} (h : CliInv s) (hstep : uiStep s = some t) : CliInv t := by
  unfold uiStep at hstep
  split at hstep
  case h_1 => cases hstep
  case h_2 =>
    cases hstep
    exact CliInv.of_idle ⟨h.faithful.tests, h.faithful.sent⟩ h.header rfl (by simp)
  case h_3 => cases hstep
  case h_4 hui =>
    have hshows := h.shows (by rw [hui]; rfl)
    have hfound : findsQuit s.rxBuf s.txBuf = containsCase s.typed.bytes quitStr :=
      (findsQuit_eq s.rxBuf h.header).trans hshows.search
    cases hstep
    refine ⟨h.faithful.tested hfound, h.header, fun _ => hshows, fun hrelies _ => ?_, ?_⟩
    · rw [← hfound]
      rcases hf : findsQuit s.rxBuf s.txBuf with _ | _
      · rfl
      · simp [hf, UiPc.relies] at hrelies
    · intro hsend
      simp only at hsend
      split at hsend <;> cases hsend
  case h_5 hui =>
    cases hstep
    exact h.prepare (by rw [hui]; rfl) (by simp [hui]) (by simp) ⟨0, Or.inl rfl, rfl⟩
  case h_6 hui =>
    cases hstep
    apply h.prepare (by rw [hui]; rfl) (by simp [hui]) (by simp)
    exact headerOk_of_take h.header (Buf.take_put32_of_le _ _ (by decide) (by decide))
  case h_7 hui =>
    cases hstep
    apply h.prepare (by rw [hui]; rfl) (by simp [hui]) (by simp)
    exact headerOk_of_take h.header (Buf.take_put32_of_le _ _ (by decide) (by decide))
  case h_8 hui =>
    -- nothing was found, so what is copied is what was typed, followed by zeros
    have hquit := h.notQuit (by rw [hui]; rfl) (by simp [hui])
    have hmsg := (shows_iff_of_not_quit hquit).mp (h.shows (by rw [hui]; rfl))
    have htake := s.txBuf.take_setMsg (Nat.le_of_eq s.rxBuf.length_msg) (show 2 ≤ 12 by decide)
    cases hstep
    refine ⟨⟨h.faithful.tests, h.faithful.sent⟩, headerOk_of_take h.header htake,
      fun h => absurd h (by simp [UiPc.relies]), fun h => absurd h (by simp [UiPc.relies]),
      ?_⟩
    intro _
    exact (s.txBuf.msg_setMsg_full s.rxBuf.length_msg).trans hmsg
  case h_9 hui =>
    have hmsg := h.copied hui
    cases hstep
    refine CliInv.of_idle ⟨h.faithful.tests, ?_⟩ h.header rfl (by simp)
    intro p hp
    rcases List.mem_append.mp hp with hp | hp
    · exact h.faithful.sent p hp
    · rw [List.mem_singleton.mp hp]
      exact hmsg

/-- The receive thread keeps the invariant if what it leaves in `RX_BUF` shows what
    was typed when it matters. -/
theorem CliInv.rx {s t : CliState} (h : CliInv s) (htypes : t.typed = s.typed)
    (hui : t.ui = s.ui) (htx : t.txBuf = s.txBuf) (htests : t.tests = s.tests)
    (hsent : t.sent = s.sent) (hshows : s.ui.relies = true → Shows s.typed t.rxBuf.msg) :
    CliInv t := by
  refine ⟨⟨?_, ?_⟩, ?_, ?_, ?_, ?_⟩
  · rw [htests]
    exact h.faithful.tests
  · rw [hsent]
    exact h.faithful.sent
  · rw [htx]
    exact h.header
  · rw [hui, htypes]
    exact hshows
  · rw [hui, htypes]
    exact h.notQuit
  · rw [hui, htx, htypes]
    exact h.copied

theorem cliInv_step (s : CliState) (e : CliEvent) (t : CliState) (h : CliInv s)
    (hG : Undisturbed s e) (hstep : cliStep s e = some t) : CliInv t := by
  cases e with
  | enter dest =>
      simp only [cliStep, Option.ite_none_right_eq_some, Option.some.injEq] at hstep
      obtain ⟨-, rfl⟩ := hstep
      exact CliInv.of_idle ⟨h.faithful.tests, h.faithful.sent⟩ h.header rfl (by simp)
  | ui => exact h.ui hstep
  | read r =>
      simp only [cliStep, Option.ite_none_right_eq_some] at hstep
      obtain ⟨-, hstep⟩ := hstep
      rcases r with _ | typed
      · obtain rfl := Option.some.inj hstep
        exact CliInv.of_idle ⟨h.faithful.tests, h.faithful.sent⟩ h.header rfl (by simp)
      · obtain rfl := Option.some.inj hstep
        refine ⟨⟨h.faithful.tests, h.faithful.sent⟩, h.header, fun _ => ?_,
          fun _ hne => absurd rfl hne, fun h => absurd h (by simp)⟩
        rw [MsgBuf.msg_setMsg]
        exact hG
  | rx =>
      simp only [cliStep, rxStep] at hstep
      split at hstep
      case h_1 hrx =>
        cases hstep
        refine h.rx rfl rfl rfl rfl rfl ?_
        intro hrelies
        rw [MsgBuf.msg_clearMsg]
        exact hG hrelies hrx
      case h_2 => cases hstep
      case h_3 =>
        split at hstep <;> cases hstep <;> exact h.rx rfl rfl rfl rfl rfl h.shows
      case h_4 =>
        cases hstep
        exact h.rx rfl rfl rfl rfl rfl h.shows
  | recv r =>
      rcases Option.ite_none_right_eq_some.mp hstep with ⟨-, hrecv⟩
      rcases r with _ | _ | c
      · obtain rfl := Option.some.inj hrecv
        exact h.rx rfl rfl rfl rfl rfl h.shows
      · obtain rfl := Option.some.inj hrecv
        exact h.rx rfl rfl rfl rfl rfl h.shows
      · obtain rfl := Option.some.inj hrecv
        exact h.rx rfl rfl rfl rfl rfl hG

/-! ## 5. Disturbances -/

/-- The user interface, running on alone, sends something else or misses where to
    end. -/
def Breaks (s : CliState) : Prop :=
  ∃ k, ¬ Always cliStep Faithful s (List.replicate k .ui)

theorem Breaks.of_step {s t : CliState} (hstep : uiStep s = some t) (h : Breaks t) :
    Breaks s := by
  obtain ⟨k, hk⟩ := h
  exact ⟨k + 1, fun hall => hk (hall.2 t hstep)⟩

theorem Breaks.of_not_faithful {s : CliState} (h : ¬ Faithful s) : Breaks s :=
  ⟨0, h⟩

/-- What is not what was typed gets copied and sent. -/
theorem breaks_of_msg_ne {s : CliState} (hrelies : s.ui.relies = true) (htest : s.ui ≠ .test)
    (hne : s.rxBuf.msg ≠ s.typed.padded) : Breaks s := by
  have hsend : ∀ s : CliState, s.ui = .send → s.txBuf.msg ≠ s.typed.padded → Breaks s := by
    intro s hui hne
    refine Breaks.of_step (by rw [uiStep, hui]) (Breaks.of_not_faithful fun h => ?_)
    apply hne
    exact h.sent (s.typed, s.txBuf) (by simp)
  have hcopy : ∀ s : CliState, s.ui = .copy → s.rxBuf.msg ≠ s.typed.padded → Breaks s := by
    intro s hui hne
    refine Breaks.of_step (by rw [uiStep, hui]) (hsend _ rfl ?_)
    rw [MsgBuf.msg_setMsg_full _ s.rxBuf.length_msg]
    exact hne
  have hdest : ∀ s : CliState, s.ui = .setDestEndID → s.rxBuf.msg ≠ s.typed.padded →
      Breaks s := by
    intro s hui hne
    refine Breaks.of_step (by rw [uiStep, hui]) (hcopy _ rfl ?_)
    exact hne
  have hsrc : ∀ s : CliState, s.ui = .setSrcEndID → s.rxBuf.msg ≠ s.typed.padded →
      Breaks s := by
    intro s hui hne
    refine Breaks.of_step (by rw [uiStep, hui]) (hdest _ rfl ?_)
    exact hne
  cases hui : s.ui with
  | test => exact absurd hui htest
  | setMsgType =>
      refine Breaks.of_step (by rw [uiStep, hui]) (hsrc _ rfl ?_)
      exact hne
  | setSrcEndID => exact hsrc s hui hne
  | setDestEndID => exact hdest s hui hne
  | copy => exact hcopy s hui hne
  | _ => simp [hui, UiPc.relies] at hrelies

/-- Whatever `RX_BUF` shows instead of what was typed does damage. -/
theorem breaks_of_not_shows {s : CliState} (hheader : HeaderOk s.txBuf)
    (hrelies : s.ui.relies = true)
    (hquit : s.ui ≠ .test → containsCase s.typed.bytes quitStr = false)
    (hno : ¬ Shows s.typed s.rxBuf.msg) : Breaks s := by
  by_cases htest : s.ui = .test
  · have hstep : uiStep s = some { s with
        tests := s.tests ++ [(s.typed, findsQuit s.rxBuf s.txBuf)]
        ui := if findsQuit s.rxBuf s.txBuf then .menu else .setMsgType } := by
      rw [uiStep, htest]
    by_cases hright : findsQuit s.rxBuf s.txBuf = containsCase s.typed.bytes quitStr
    · -- the search is right, so `!!quit` was not typed and the message is sent
      have hfound := findsQuit_eq s.rxBuf hheader
      cases hq : containsCase s.typed.bytes quitStr with
      | true => exact absurd (by simpa [Shows, hq] using hfound.symm.trans (hright.trans hq)) hno
      | false =>
          rw [shows_iff_of_not_quit hq] at hno
          rw [hright, hq] at hstep
          exact Breaks.of_step hstep (breaks_of_msg_ne rfl (by simp) hno)
    · refine Breaks.of_step hstep (Breaks.of_not_faithful fun h => hright ?_)
      apply h.tests (s.typed, findsQuit s.rxBuf s.txBuf)
      simp
  · rw [shows_iff_of_not_quit (hquit htest)] at hno
    exact breaks_of_msg_ne hrelies htest hno

theorem disturbance_breaks (s : CliState) (e : CliEvent) (t : CliState) (h : CliInv s)
    (hno : ¬ Undisturbed s e) (hstep : cliStep s e = some t) :
    ∃ fs, (∀ f ∈ fs, f = CliEvent.ui) ∧ ¬ Always cliStep Faithful t fs := by
  suffices hbreaks : Breaks t by
    obtain ⟨k, hk⟩ := hbreaks
    exact ⟨List.replicate k .ui, fun f hf => List.eq_of_mem_replicate hf, hk⟩
  match e with
  | .read (some typed) =>
      simp only [cliStep] at hstep
      split at hstep
      · cases hstep
        refine breaks_of_not_shows h.header rfl (fun hne => absurd rfl hne) ?_
        rw [MsgBuf.msg_setMsg]
        exact hno
      · cases hstep
  | .rx =>
      simp only [Undisturbed, Classical.not_imp] at hno
      obtain ⟨hrelies, hrx, hno⟩ := hno
      simp only [cliStep, rxStep, hrx] at hstep
      cases hstep
      refine breaks_of_not_shows h.header hrelies (h.notQuit hrelies) ?_
      rw [MsgBuf.msg_clearMsg]
      exact hno
  | .recv (.data c) =>
      simp only [Undisturbed, Classical.not_imp] at hno
      simp only [cliStep] at hstep
      split at hstep
      · cases hstep
        exact breaks_of_not_shows h.header hno.1 (h.notQuit hno.1) hno.2
      · cases hstep
  | .enter _ => exact absurd trivial hno
  | .ui => exact absurd trivial hno
  | .read none => exact absurd trivial hno
  | .recv .error => exact absurd trivial hno
  | .recv .eof => exact absurd trivial hno

/-! ## 6. Runs -/

theorem newCli_inv (endId : EndID) : CliInv (newCli endId) := by
  apply CliInv.of_idle ⟨by simp [newCli], by simp [newCli]⟩ _ rfl (by simp [newCli])
  refine ⟨1, Or.inr rfl, ?_⟩
  rw [show (newCli endId).txBuf = initCliInfoToServer (Buf.zero sizeofMsgBuf) endId from rfl,
    initCliInfoToServer, MsgBuf.setDestEndID, MsgBuf.setSrcEndID,
    Buf.take_put32_of_le _ _ _ (by decide), Buf.take_put32_of_le _ _ _ (by decide)]
  rfl

/-- Wherever the receive thread has come to, the user interface sends what is typed
    and ends where `!!quit` is typed, in all it does from there on, if and only if
    the reads and the writes in between leave in `RX_BUF` what was typed. -/
theorem payload_intact_iff_undisturbed (endId : EndID) (evs : List CliEvent) (s : CliState)
    (hrun : exec cliStep (newCli endId) evs = some s) :
    (∀ pre, pre <+: evs → ∀ fs, (∀ f ∈ fs, f = CliEvent.ui) →
        Always cliStep Faithful (newCli endId) (pre ++ fs)) ↔
      Along cliStep Undisturbed (newCli endId) evs := by
  refine always_continued_iff_along (J := CliInv) cliInv_step (fun s h => h.faithful) ?_
    disturbance_breaks (newCli_inv endId) hrun
  intro s f hf
  subst hf
  trivial

def hiStr : Typed := ⟨[104, 105, 10], by decide⟩

/-- A message of `A`s arrives between the `memset` and the end of the `read`. -/
def arrivesInBetween : List CliEvent :=
  [txToServer, .ui, .rx, .recv (.data serverMsg.chunk), .read (some hiStr), .ui, .ui, .ui, .ui, .ui,
    .ui]

/-- `"hi\n"` goes out with the other client's `A`s behind it. -/
theorem server_bytes_sent_back :
    ∃ s, exec cliStep (newCli 7) arrivesInBetween = some s ∧ ¬ Faithful s := by
  have hrun : (exec cliStep (newCli 7) arrivesInBetween).any
      (fun s => s.sent.any fun p => !decide (p.2.msg = p.1.padded)) = true := by
    decide +kernel
  rcases (Option.any_eq_true _ _).mp hrun with ⟨s, hs, hsent⟩
  rcases List.any_eq_true.mp hsent with ⟨p, hp, hne⟩
  exact ⟨s, hs, fun h => of_decide_eq_false (Bool.not_eq_true' _ ▸ hne) (h.sent p hp)⟩

def arrivesAfterwards : List CliEvent :=
  [txToServer, .ui, .rx, .read (some hiStr), .ui, .ui, .ui, .ui, .ui, .recv (.data serverMsg.chunk),
    .ui]

theorem payload_intact_afterwards :
    ∃ s, exec cliStep (newCli 7) arrivesAfterwards = some s ∧
      ∀ pre, pre <+: arrivesAfterwards → ∀ fs, (∀ f ∈ fs, f = CliEvent.ui) →
        Always cliStep Faithful (newCli 7) (pre ++ fs) := by
  obtain ⟨s, hs⟩ : ∃ s, exec cliStep (newCli 7) arrivesAfterwards = some s := ⟨_, rfl⟩
  exact ⟨s, hs, (payload_intact_iff_undisturbed 7 _ s hs).mpr (by decide +kernel)⟩

end SocketPractice.SocketTcp
