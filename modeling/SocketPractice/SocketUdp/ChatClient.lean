import SocketPractice.Lib.Runs
import SocketPractice.SocketUdp.ClientInterface

/-!
# A client and its user

The start of the client and the loop that reads lines, put together: from the menu the user
gets into one of the two functions of the table, types lines there, and is back in the menu
after one with `zkquit`.  A round takes the words, the copy and the search of the loop in
`ClientUdp`.

A step adds tasks to the pool or runs one of them.  Added are registrations and the messages
of typed lines, and lines are typed only by a client that has seen its flag set.
-/

namespace SocketPractice.SocketUdp.Chat

open Lib.Bytes Lib.CString Lib.Runs
open ClientInterface (Client Interface Shown)

/-! ## 1. A client whose user types -/

/-- One of the two functions while it reads lines. -/
structure Typing where
  destEndID : EndID
  TxBuf : LcMsg

structure ChatClient where
  client : Client
  typing : Option Typing

/-- What the function is for: `SendMsgToOtherClient` asks for a number, and has zero if
    `scanf` stores none. -/
def remoteEndID (scanf : Option EndID) : Interface → EndID
  | .SendMsgToServer => SETVER_ENDID
  | .SendMsgToOtherClient => scanf.getD 0

/-- The program takes a step of its own, a function of the table is entered, or a `read` of
    it returns; `behind` are the bytes behind its buffer. -/
inductive ClientEvent where
  | program (e : ClientInterface.Event)
  | enter (scanf : Option EndID) (TxBuf : LcMsg)
  | read (r : ReadRet) (behind : List UInt8)

/-- A round of the loop of `SendMsgToServer` and `SendMsgToOtherClient` after its `read`. -/
def readStep (lcEndID : EndID) (c : Client) (typing : Typing) (behind : List UInt8) :
    ReadRet → Option ChatClient
  | .error => some ⟨c, some typing⟩
  | .eof => some ⟨c, some typing⟩
  | .data line =>
      let rx := (Buf.zero LCMSG_DATA_MAXLEN).recv line
      if strcasestr (rx.bytes ++ behind) quitWord then
        (ClientInterface.step lcEndID c .ret).map fun c => ⟨c, none⟩
      else
        let TxBuf := copyData (initTxBuf lcEndID typing.TxBuf typing.destEndID) rx
        some ⟨c.addTask (.SendMsgBufToServer TxBuf), some { typing with TxBuf := TxBuf }⟩

/-- Datagrams come off the wire only, and a function of the table returns when its loop
    ends. -/
def clientStep (lcEndID : EndID) (c : ChatClient) : ClientEvent → Option ChatClient
  | .program .ret => none
  | .program (.recvfrom (.data _)) => none
  | .program e => (ClientInterface.step lcEndID c.client e).map fun t => { c with client := t }
  | .enter scanf TxBuf =>
      match c.client.ui, c.typing with
      | .calling f, none => some { c with typing := some ⟨remoteEndID scanf f, TxBuf⟩ }
      | _, _ => none
  | .read r behind =>
      match c.typing with
      | some typing => readStep lcEndID c.client typing behind r
      | none => none

/-- The line that the step sends on its way, with the one it is for. -/
def typedLine (c : ChatClient) : ClientEvent → Option (EndID × Line)
  | .read (.data line) behind =>
      match c.typing with
      | some typing =>
          if strcasestr (Line.padded line ++ behind) quitWord then none
          else some (typing.destEndID, line)
      | none => none
  | _ => none

/-! ## 2. A round of the loop -/

section Loop

variable (lcEndID : EndID) {f : Interface}

theorem readStep_quits {c : Client} (hui : c.ui = .calling f) (typing : Typing) {line : Line}
    {behind : List UInt8}
    (h : strcasestr (line.padded ++ behind) quitWord = true) :
    readStep lcEndID c typing behind (.data line) = some ⟨{ c with ui := .menu }, none⟩ := by
  simp only [readStep, bytes_recv_zero, h, if_true, ClientInterface.step, hui, Option.map_some]

theorem readStep_line (c : Client) (typing : Typing) {line : Line} {behind : List UInt8}
    (h : strcasestr (line.padded ++ behind) quitWord = false) :
    readStep lcEndID c typing behind (.data line) =
      some ⟨c.addTask (.SendMsgBufToServer
          (lineMsg lcEndID typing.destEndID typing.TxBuf line)),
        some ⟨typing.destEndID, lineMsg lcEndID typing.destEndID typing.TxBuf line⟩⟩ := by
  simp only [readStep, bytes_recv_zero, h, Bool.false_eq_true, if_false]
  rfl

end Loop

/-! ## 3. Messages and their three words -/

/-- The words as `InitClientInfoToServer` and `PorcessUdpMsg` set them. -/
abbrev header (b : LcMsg) (t : MsgType) (src dest : EndID) : LcMsg :=
  LcMsg.setDestEndID (LcMsg.setSrcEndID (LcMsg.setMsgType b t) src) dest

section Header

variable (b : LcMsg) (t : MsgType) (src dest : EndID)

theorem msgType_header : LcMsg.msgType (header b t src dest) = t.code := by
  have htake : (header b t src dest).bytes.take 4 = (LcMsg.setMsgType b t).bytes.take 4 := by
    rw [header, LcMsg.setDestEndID, LcMsg.setSrcEndID, Buf.take_put32_of_le _ _ _ (by decide),
      Buf.take_put32_of_le _ _ _ (by decide)]
  rw [LcMsg.msgType, Buf.get32_congr htake]
  exact Buf.get32_put32 _ _ _

theorem srcEndID_header : LcMsg.srcEndID (header b t src dest) = src := by
  have htake : (header b t src dest).bytes.take 8 =
      (LcMsg.setSrcEndID (LcMsg.setMsgType b t) src).bytes.take 8 := by
    rw [header, LcMsg.setDestEndID, Buf.take_put32_of_le _ _ _ (by decide)]
  rw [LcMsg.srcEndID, Buf.get32_congr htake, LcMsg.setSrcEndID, Buf.get32_put32]
  exact Int32.toInt32_toUInt32 src

theorem destEndID_header : LcMsg.destEndID (header b t src dest) = dest := by
  rw [LcMsg.destEndID, header, LcMsg.setDestEndID, Buf.get32_put32]
  exact Int32.toInt32_toUInt32 dest

end Header

/-- The checksum is behind everything that a message says. -/
theorem setCheckSum_words (m : LcMsg) :
    LcMsg.msgType (setCheckSum m) = LcMsg.msgType m ∧
      LcMsg.srcEndID (setCheckSum m) = LcMsg.srcEndID m ∧
      LcMsg.destEndID (setCheckSum m) = LcMsg.destEndID m ∧
      LcMsg.data (setCheckSum m) = LcMsg.data m := by
  have htake : ∀ k ≤ sizeofMsg, (setCheckSum m).bytes.take k = m.bytes.take k :=
    fun k hk => Buf.take_write_of_le _ _ hk
  have hslice : ∀ b : LcMsg, LcMsg.data b = (b.bytes.take sizeofMsg).drop 12 := by
    intro b
    rw [LcMsg.data, Buf.slice, List.drop_take]
    rfl
  refine ⟨?_, ?_, ?_, ?_⟩
  · rw [LcMsg.msgType, LcMsg.msgType, Buf.get32_congr (htake 4 (by decide))]
  · rw [LcMsg.srcEndID, LcMsg.srcEndID, Buf.get32_congr (htake 8 (by decide))]
  · rw [LcMsg.destEndID, LcMsg.destEndID, Buf.get32_congr (htake 12 (by decide))]
  · rw [hslice, hslice, htake sizeofMsg (Nat.le_refl _)]

theorem carries_setCheckSum {id dest : EndID} {line : Line} {m : LcMsg}
    (h : Carries id dest line (.SendMsgBufToServer m)) :
    Carries id dest line (.SendMsgBufToServer (setCheckSum m)) := by
  obtain ⟨htype, hsrc, hdest, hdata⟩ := h
  obtain ⟨htype', hsrc', hdest', hdata'⟩ := setCheckSum_words m
  exact ⟨htype'.trans htype, hsrc'.trans hsrc, hdest'.trans hdest, hdata'.trans hdata⟩

/-- A registration of the client with this number. -/
def IsRegistration (lcEndID : EndID) (m : LcMsg) : Prop :=
  LcMsg.msgType m = MsgType.SaveCliInfo.code ∧ LcMsg.srcEndID m = lcEndID ∧
    LcMsg.destEndID m = SETVER_ENDID

theorem IsRegistration.setCheckSum {id : EndID} {m : LcMsg} (h : IsRegistration id m) :
    IsRegistration id (setCheckSum m) := by
  obtain ⟨htype, hsrc, hdest⟩ := h
  obtain ⟨htype', hsrc', hdest', -⟩ := setCheckSum_words m
  exact ⟨htype'.trans htype, hsrc'.trans hsrc, hdest'.trans hdest⟩

/-! ## 4. What a step of a client does

Others see of a client its flag, its tasks, what it has sent and the messages on its
screen. -/

def Shown.message : Shown → Option LcMsg
  | .str _ => none
  | .msgBuf m => some m

/-- The messages on the screen, in their order. -/
def messages (c : Client) : List LcMsg := c.shown.filterMap Shown.message

structure SameButTasks (c t : Client) : Prop where
  flag : t.boolInitCliInfo = c.boolInitCliInfo
  sent : t.sent = c.sent
  messages : messages t = messages c

/-- The tasks that a step adds: none, a registration, or the message of the typed line. -/
def Adds (lcEndID : EndID) (typed : Option (EndID × Line)) (new : List ClientTask) : Prop :=
  match typed with
  | some (dest, line) =>
      ∃ m, new = [.SendMsgBufToServer m] ∧ Carries lcEndID dest line (.SendMsgBufToServer m)
  | none => new = [] ∨ ∃ m, new = [.SendMsgBufToServer m] ∧ IsRegistration lcEndID m

section Client

variable {lcEndID : EndID}

@[simp] theorem messages_display (c : Client) (s : String) :
    messages (c.display s) = messages c := by
  rw [messages, Client.display, List.filterMap_append]
  exact List.append_nil _

/-- Another message is on the screen, whatever else has changed. -/
theorem messages_show {c : Client} {flag : Bool} {ui : ClientInterface.UiAt} {tmp : Bool}
    {sw : Int32} {RxBuf : LcMsg} {tasks : List ClientTask} {sent : List LcMsg} (m : LcMsg) :
    messages ⟨flag, ui, tmp, sw, RxBuf, tasks, sent, c.shown ++ [.msgBuf m]⟩ =
      messages c ++ [m] := by
  rw [messages, List.filterMap_append]
  rfl

theorem processServerMsg_ack {c : Client} {m : LcMsg}
    (h : LcMsg.msgType m = MsgType.SaveCliInfo.code) :
    ClientInterface.processServerMsg c m = { c with boolInitCliInfo := true } := if_pos h

theorem processServerMsg_data {c : Client} {m : LcMsg}
    (h : LcMsg.msgType m = MsgType.DataMsg.code) :
    ClientInterface.processServerMsg c m = { c with shown := c.shown ++ [.msgBuf m] } := by
  have hne : LcMsg.msgType m ≠ MsgType.SaveCliInfo.code := by
    rw [h]
    decide
  rw [ClientInterface.processServerMsg, if_neg hne, if_pos h]

theorem processServerMsg_same (c : Client) (m : LcMsg) :
    (ClientInterface.processServerMsg c m).tasks = c.tasks ∧
      (ClientInterface.processServerMsg c m).sent = c.sent := by
  unfold ClientInterface.processServerMsg
  split
  · exact ⟨rfl, rfl⟩
  · split
    · exact ⟨rfl, rfl⟩
    · exact ⟨rfl, rfl⟩

theorem isRegistration_initClientInfo (TxBuf : LcMsg) :
    IsRegistration lcEndID (header TxBuf .SaveCliInfo lcEndID SETVER_ENDID) :=
  ⟨msgType_header _ _ _ _, srcEndID_header _ _ _ _, destEndID_header _ _ _ _⟩

theorem uiStep_cases {c t : Client} {TxBuf : LcMsg}
    (hstep : ClientInterface.uiStep lcEndID c TxBuf = some t) :
    SameButTasks c t ∧ ∃ new, t.tasks = c.tasks ++ new ∧ Adds lcEndID none new := by
  cases hui : c.ui with
  | attempt Index =>
      simp only [ClientInterface.uiStep, hui] at hstep
      split at hstep
      · cases hstep
        exact ⟨⟨rfl, rfl, rfl⟩, [], (List.append_nil _).symm, .inl rfl⟩
      · cases hstep
        exact ⟨⟨rfl, rfl, rfl⟩, [], (List.append_nil _).symm, .inl rfl⟩
  | copied Index =>
      simp only [ClientInterface.uiStep, hui] at hstep
      split at hstep
      · cases hstep
        exact ⟨⟨rfl, rfl, messages_display c _⟩, _, rfl,
          .inr ⟨_, rfl, isRegistration_initClientInfo TxBuf⟩⟩
      · cases hstep
        exact ⟨⟨rfl, rfl, rfl⟩, [], (List.append_nil _).symm, .inl rfl⟩
  | errorLoop =>
      simp only [ClientInterface.uiStep, hui] at hstep
      split at hstep
      · cases hstep
        exact ⟨⟨rfl, rfl, messages_display c _⟩, [], (List.append_nil _).symm, .inl rfl⟩
      · cases hstep
        exact ⟨⟨rfl, rfl, rfl⟩, [], (List.append_nil _).symm, .inl rfl⟩
  | menu => simp [ClientInterface.uiStep, hui] at hstep
  | calling f => simp [ClientInterface.uiStep, hui] at hstep
  | outside => simp [ClientInterface.uiStep, hui] at hstep

theorem menuStep_cases {c t : Client} {scanf : Option Int32}
    (hstep : ClientInterface.menuStep c scanf = some t) :
    SameButTasks c t ∧ t.tasks = c.tasks := by
  cases hui : c.ui with
  | menu =>
      simp only [ClientInterface.menuStep, hui] at hstep
      split at hstep
      · cases hstep
        refine ⟨⟨rfl, rfl, ?_⟩, rfl⟩
        simp [messages, Client.display, Shown.message]
      · cases hstep
        refine ⟨⟨rfl, rfl, ?_⟩, rfl⟩
        simp [messages, Client.display, Shown.message]
  | attempt Index => simp [ClientInterface.menuStep, hui] at hstep
  | copied Index => simp [ClientInterface.menuStep, hui] at hstep
  | errorLoop => simp [ClientInterface.menuStep, hui] at hstep
  | calling f => simp [ClientInterface.menuStep, hui] at hstep
  | outside => simp [ClientInterface.menuStep, hui] at hstep

theorem readStep_cases {c : Client} {typing : Typing} {behind : List UInt8} {r : ReadRet}
    {t : ChatClient} (hstep : readStep lcEndID c typing behind r = some t) :
    SameButTasks c t.client ∧ ∃ new, t.client.tasks = c.tasks ++ new ∧
      Adds lcEndID (typedLine ⟨c, some typing⟩ (.read r behind)) new := by
  cases r with
  | error =>
      cases hstep
      exact ⟨⟨rfl, rfl, rfl⟩, [], (List.append_nil _).symm, .inl rfl⟩
  | eof =>
      cases hstep
      exact ⟨⟨rfl, rfl, rfl⟩, [], (List.append_nil _).symm, .inl rfl⟩
  | data line =>
      cases hfound : strcasestr (Line.padded line ++ behind) quitWord with
      | true =>
          simp only [readStep, bytes_recv_zero, hfound, if_true] at hstep
          obtain ⟨t', hret, rfl⟩ := Option.map_eq_some_iff.mp hstep
          cases hui : c.ui <;> simp only [ClientInterface.step, hui, reduceCtorEq] at hret
          cases hret
          refine ⟨⟨rfl, rfl, rfl⟩, [], (List.append_nil _).symm, ?_⟩
          simp [typedLine, hfound, Adds]
      | false =>
          rw [readStep_line lcEndID c typing hfound] at hstep
          cases hstep
          refine ⟨⟨rfl, rfl, rfl⟩, _, rfl, ?_⟩
          simp only [typedLine, hfound, Bool.false_eq_true, if_false, Adds]
          exact ⟨_, rfl, carries_lineMsg _ _ _ _⟩

/-- The pool carries out a task. -/
def Works : ClientEvent → Prop
  | .program (.work _ _) => True
  | _ => False

/-- A step adds tasks, or runs one of them; only the latter changes anything else. -/
theorem clientStep_cases {c t : ChatClient} {e : ClientEvent}
    (hstep : clientStep lcEndID c e = some t) :
    (¬ Works e ∧ SameButTasks c.client t.client ∧
      ∃ new, t.client.tasks = c.client.tasks ++ new ∧ Adds lcEndID (typedLine c e) new) ∨
    ∃ k sendto task, e = .program (.work k sendto) ∧ c.client.tasks[k]? = some task ∧
      t.client = ClientInterface.runTask { c.client with tasks := c.client.tasks.eraseIdx k }
        sendto task := by
  cases e with
  | program e =>
      cases e with
      | ui TxBuf =>
          obtain ⟨t', hui, rfl⟩ := Option.map_eq_some_iff.mp hstep
          exact .inl ⟨id, uiStep_cases hui⟩
      | choose scanf =>
          obtain ⟨t', hmenu, rfl⟩ := Option.map_eq_some_iff.mp hstep
          obtain ⟨hsame, htasks⟩ := menuStep_cases hmenu
          exact .inl ⟨id, hsame, [], htasks.trans (List.append_nil _).symm, .inl rfl⟩
      | ret => cases hstep
      | recvfrom r =>
          cases r with
          | error =>
              cases hstep
              exact .inl ⟨id, ⟨rfl, rfl, rfl⟩, [], (List.append_nil _).symm, .inl rfl⟩
          | eof =>
              cases hstep
              exact .inl ⟨id, ⟨rfl, rfl, rfl⟩, [], (List.append_nil _).symm, .inl rfl⟩
          | data chunk => cases hstep
      | work k sendto =>
          obtain ⟨t', hwork, rfl⟩ := Option.map_eq_some_iff.mp hstep
          obtain ⟨task, htask, rfl⟩ := Option.map_eq_some_iff.mp hwork
          exact .inr ⟨k, sendto, task, rfl, htask, rfl⟩
  | enter scanf TxBuf =>
      simp only [clientStep] at hstep
      split at hstep
      · cases hstep
        exact .inl ⟨id, ⟨rfl, rfl, rfl⟩, [], (List.append_nil _).symm, .inl rfl⟩
      · cases hstep
  | read r behind =>
      rcases c with ⟨c, typing⟩
      cases typing with
      | none => cases hstep
      | some typing => exact .inl ⟨id, readStep_cases hstep⟩

/-- What a client knows about its flag: a copy that is set is not ahead of it, and there is
    no way to the menu, or on from there, without it. -/
structure Started (c : ChatClient) : Prop where
  copy : c.client.boolTmp = true → c.client.boolInitCliInfo = true
  past : c.client.ui = .menu ∨ (∃ f, c.client.ui = .calling f) ∨ c.client.ui = .outside →
    c.client.boolInitCliInfo = true
  typing : c.typing.isSome → ∃ f, c.client.ui = .calling f

theorem started_start (RxBuf : LcMsg) : Started ⟨ClientInterface.start RxBuf, none⟩ where
  copy h := absurd h Bool.false_ne_true
  past h := by simp [ClientInterface.start] at h
  typing h := absurd h Bool.false_ne_true

theorem runTask_ui (c : Client) (sendto : Bool) (task : ClientTask) :
    (ClientInterface.runTask c sendto task).ui = c.ui ∧
      (ClientInterface.runTask c sendto task).boolTmp = c.boolTmp ∧
      (c.boolInitCliInfo = true →
        (ClientInterface.runTask c sendto task).boolInitCliInfo = true) := by
  cases task with
  | ProcessServerMsg m =>
      simp only [ClientInterface.runTask, ClientInterface.processServerMsg]
      split
      · exact ⟨rfl, rfl, fun _ => rfl⟩
      · split
        · exact ⟨rfl, rfl, id⟩
        · exact ⟨rfl, rfl, id⟩
  | SendMsgBufToServer m =>
      cases sendto with
      | true => exact ⟨rfl, rfl, id⟩
      | false => exact ⟨rfl, rfl, id⟩

/-- Lines are typed behind the menu. -/
theorem Started.flag_of_typedLine {c : ChatClient} {e : ClientEvent} {l : EndID × Line}
    (h : Started c) (hl : typedLine c e = some l) : c.client.boolInitCliInfo = true := by
  unfold typedLine at hl
  split at hl
  · split at hl
    · rename_i htyping
      exact h.past (.inr (.inl (h.typing (by rw [htyping]; rfl))))
    · cases hl
  · cases hl

theorem Started.not_typing {c : Client} {typing : Option Typing} (h : Started ⟨c, typing⟩)
    (hui : ∀ f, c.ui ≠ .calling f) : ¬ typing.isSome := by
  intro hsome
  obtain ⟨f, hf⟩ := h.typing hsome
  exact hui f hf

theorem Started.uiStep {c t : Client} {typing : Option Typing} {TxBuf : LcMsg}
    (h : Started ⟨c, typing⟩) (hstep : ClientInterface.uiStep lcEndID c TxBuf = some t) :
    Started ⟨t, typing⟩ := by
  cases hui : c.ui with
  | attempt Index =>
      simp only [ClientInterface.uiStep, hui] at hstep
      have hnone := h.not_typing (by simp [hui])
      split at hstep
      · cases hstep
        exact ⟨id, by simp, fun hsome => absurd hsome hnone⟩
      · cases hstep
        exact ⟨id, by simp, fun hsome => absurd hsome hnone⟩
  | copied Index =>
      simp only [ClientInterface.uiStep, hui] at hstep
      have hnone := h.not_typing (by simp [hui])
      split at hstep
      · cases hstep
        exact ⟨h.copy, by simp, fun hsome => absurd hsome hnone⟩
      · cases hstep
        exact ⟨h.copy, by simp, fun hsome => absurd hsome hnone⟩
  | errorLoop =>
      simp only [ClientInterface.uiStep, hui] at hstep
      have hnone := h.not_typing (by simp [hui])
      split at hstep
      · cases hstep
        exact ⟨h.copy, by simp [Client.display, hui], fun hsome => absurd hsome hnone⟩
      · rename_i htmp
        cases hstep
        exact ⟨h.copy, fun _ => h.copy (by simpa using htmp), fun hsome => absurd hsome hnone⟩
  | menu => simp [ClientInterface.uiStep, hui] at hstep
  | calling f => simp [ClientInterface.uiStep, hui] at hstep
  | outside => simp [ClientInterface.uiStep, hui] at hstep

theorem Started.menuStep {c t : Client} {typing : Option Typing} {scanf : Option Int32}
    (h : Started ⟨c, typing⟩) (hstep : ClientInterface.menuStep c scanf = some t) :
    Started ⟨t, typing⟩ := by
  cases hui : c.ui with
  | menu =>
      have hflag : c.boolInitCliInfo = true := h.past (.inl hui)
      have hnone := h.not_typing (by simp [hui])
      simp only [ClientInterface.menuStep, hui] at hstep
      split at hstep
      · cases hstep
        exact ⟨fun _ => hflag, fun _ => hflag, fun hsome => absurd hsome hnone⟩
      · cases hstep
        exact ⟨fun _ => hflag, fun _ => hflag, fun hsome => absurd hsome hnone⟩
  | attempt Index => simp [ClientInterface.menuStep, hui] at hstep
  | copied Index => simp [ClientInterface.menuStep, hui] at hstep
  | errorLoop => simp [ClientInterface.menuStep, hui] at hstep
  | calling f => simp [ClientInterface.menuStep, hui] at hstep
  | outside => simp [ClientInterface.menuStep, hui] at hstep

theorem Started.readStep {c : Client} {typing : Typing} {behind : List UInt8} {r : ReadRet}
    {t : ChatClient} (h : Started ⟨c, some typing⟩)
    (hstep : readStep lcEndID c typing behind r = some t) : Started t := by
  obtain ⟨f, hui⟩ := h.typing rfl
  have hui : c.ui = .calling f := hui
  cases r with
  | error =>
      cases hstep
      exact h
  | eof =>
      cases hstep
      exact h
  | data line =>
      cases hfound : strcasestr (Line.padded line ++ behind) quitWord with
      | true =>
          rw [readStep_quits lcEndID hui typing hfound] at hstep
          cases hstep
          have hflag : c.boolInitCliInfo = true := h.past (.inr (.inl ⟨f, hui⟩))
          exact ⟨fun _ => hflag, fun _ => hflag, fun hsome => by cases hsome⟩
      | false =>
          rw [readStep_line lcEndID c typing hfound] at hstep
          cases hstep
          exact ⟨h.copy, h.past, fun _ => ⟨f, hui⟩⟩

theorem Started.step {c t : ChatClient} {e : ClientEvent} (h : Started c)
    (hstep : clientStep lcEndID c e = some t) : Started t := by
  rcases c with ⟨c, typing⟩
  cases e with
  | program e =>
      cases e with
      | ui TxBuf =>
          obtain ⟨t', hui, rfl⟩ := Option.map_eq_some_iff.mp hstep
          exact h.uiStep hui
      | choose scanf =>
          obtain ⟨t', hmenu, rfl⟩ := Option.map_eq_some_iff.mp hstep
          exact h.menuStep hmenu
      | ret => cases hstep
      | recvfrom r =>
          cases r with
          | error =>
              cases hstep
              exact h
          | eof =>
              cases hstep
              exact h
          | data chunk => cases hstep
      | work k sendto =>
          obtain ⟨t', hwork, rfl⟩ := Option.map_eq_some_iff.mp hstep
          obtain ⟨task, -, rfl⟩ := Option.map_eq_some_iff.mp hwork
          obtain ⟨hui, htmp, hflag⟩ :=
            runTask_ui { c with tasks := c.tasks.eraseIdx k } sendto task
          refine ⟨fun hcopy => hflag (h.copy (htmp ▸ hcopy)), ?_, ?_⟩
          · rw [hui]
            intro hpast
            exact hflag (h.past hpast)
          · rw [hui]
            exact h.typing
  | enter scanf TxBuf =>
      simp only [clientStep] at hstep
      split at hstep
      · rename_i f hui
        cases hstep
        exact ⟨h.copy, h.past, fun _ => ⟨_, hui⟩⟩
      · cases hstep
  | read r behind =>
      cases typing with
      | none => cases hstep
      | some typing => exact h.readStep hstep

end Client

end SocketPractice.SocketUdp.Chat
