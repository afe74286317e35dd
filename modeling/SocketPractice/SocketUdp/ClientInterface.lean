import SocketPractice.Lib.Runs
import SocketPractice.SocketUdp.ClientUdp

/-!
# The start of the client (`client_interface.c`)

`ClientInterface` looks at the flag `boolInitCliInfo` five times and registers with the
server as long as it is not set; `ProcessServerMsg` sets it when the answer of the server
comes in.  After the fifth time the flag is copied once more, and if it is still not set
the thread complains every second until it is.

What that last loop tests is the copy, not the flag.  The copy is not made again, so an
answer that is handled after it comes too late: the thread stays in the loop for good.

A critical section is one step here; each of them reads or writes the flag once.
-/

namespace SocketPractice.SocketUdp.ClientInterface

open Lib.Bytes Lib.Runs

/-! ## 1. The code -/

/-- The functions of the table `InterfaceLevel1`. -/
inductive Interface where
  | SendMsgToServer
  | SendMsgToOtherClient
deriving DecidableEq

def interfaceLevel1 : List Interface := [.SendMsgToServer, .SendMsgToOtherClient]

/-- Where `ClientInterface` is: `attempt` is before the test of `Index++ < 5`, `copied`
    behind the critical section of that round, and `outside` a call through an entry that
    the table does not have. -/
inductive UiAt where
  | attempt (Index : Nat)
  | copied (Index : Nat)
  | errorLoop
  | menu
  | calling (f : Interface)
  | outside
deriving DecidableEq

/-- A line on the screen, without the `LCID(%d)--->` that each begins with. -/
inductive Shown where
  | str (s : String)
  | msgBuf (m : LcMsg)
deriving DecidableEq

structure Client where
  boolInitCliInfo : Bool
  ui : UiAt
  boolTmp : Bool
  sw : Int32
  RxBuf : LcMsg
  /-- What the client's pool has still to do. -/
  tasks : List ClientTask
  sent : List LcMsg
  shown : List Shown

def Client.display (c : Client) (s : String) : Client := { c with shown := c.shown ++ [.str s] }

def Client.addTask (c : Client) (task : ClientTask) : Client :=
  { c with tasks := c.tasks ++ [task] }

/-- `TxBuf` is what `malloc` found. -/
def initClientInfoToServer (lcEndID : EndID) (c : Client) (TxBuf : LcMsg) : Client :=
  c.addTask (.SendMsgBufToServer (LcMsg.setDestEndID
    (LcMsg.setSrcEndID (LcMsg.setMsgType TxBuf .SaveCliInfo) lcEndID) SETVER_ENDID))

/-- The next step of `ClientInterface` up to the menu. -/
def uiStep (lcEndID : EndID) (c : Client) (TxBuf : LcMsg) : Option Client :=
  match c.ui with
  | .attempt Index =>
      if Index < 5 then some { c with boolTmp := c.boolInitCliInfo, ui := .copied (Index + 1) }
      else some { c with boolTmp := c.boolInitCliInfo, ui := .errorLoop }
  | .copied Index =>
      if !c.boolTmp then
        some { initClientInfoToServer lcEndID (c.display "being InitClientInfoToServer") TxBuf with
          ui := .attempt Index }
      else some { c with ui := .attempt Index }
  | .errorLoop =>
      if !c.boolTmp then some (c.display "InitClientInfoToServer error")
      else some { c with ui := .menu }
  | _ => none

/-- `InterfaceLevel1[sw]()`. -/
def callInterface (sw : Int32) : UiAt :=
  if sw < (0 : Int32) then .outside else (interfaceLevel1[sw.toInt.toNat]?).elim .outside .calling

/-- One round of the menu; `scanf` stores a number or leaves `sw` as it is.  Only the upper
    bound of `sw` is checked. -/
def menuStep (c : Client) (scanf : Option Int32) : Option Client :=
  match c.ui with
  | .menu =>
      let c := (c.display "0.发送消息给server").display "1.发送消息给其他client"
      let sw := scanf.getD c.sw
      if (2 : Int32) ≤ sw then
        let usage := "!!!sw error->usage:sw < 2"
        some { ((c.display usage).display usage).display usage with sw := sw }
      else some { c with sw := sw, ui := callInterface sw }
  | _ => none

/-- `ProcessServerMsg`. -/
def processServerMsg (c : Client) (msgBuf : LcMsg) : Client :=
  if LcMsg.msgType msgBuf = MsgType.SaveCliInfo.code then { c with boolInitCliInfo := true }
  else if LcMsg.msgType msgBuf = MsgType.DataMsg.code then
    { c with shown := c.shown ++ [.msgBuf msgBuf] }
  else c

/-- `SendMsgBufToServer`; `sendto` says whether the call of that name succeeds. -/
def sendMsgBufToServer (c : Client) (TxBuf : LcMsg) (sendto : Bool) : Client :=
  if sendto then { c with sent := c.sent ++ [setCheckSum TxBuf] } else c

def runTask (c : Client) (sendto : Bool) : ClientTask → Client
  | .ProcessServerMsg msgBuf => processServerMsg c msgBuf
  | .SendMsgBufToServer TxBuf => sendMsgBufToServer c TxBuf sendto

/-- One round of `RecvServerMsgThread`. -/
def recvServerMsg (c : Client) : RecvRet sizeofLcMsg → Client
  | .error => c
  | .eof => c
  | .data chunk =>
      let RxBuf := c.RxBuf.recv chunk
      { c.addTask (.ProcessServerMsg RxBuf) with RxBuf := RxBuf }

/-- The pool may carry out its tasks in any order: its workers overtake each other. -/
inductive Event where
  | ui (TxBuf : LcMsg)
  | choose (scanf : Option Int32)
  | ret
  | recvfrom (r : RecvRet sizeofLcMsg)
  | work (k : Nat) (sendto : Bool)

def step (lcEndID : EndID) (c : Client) : Event → Option Client
  | .ui TxBuf => uiStep lcEndID c TxBuf
  | .choose scanf => menuStep c scanf
  | .ret =>
      match c.ui with
      | .calling _ => some { c with ui := .menu }
      | _ => none
  | .recvfrom r => some (recvServerMsg c r)
  | .work k sendto =>
      (c.tasks[k]?).map fun task => runTask { c with tasks := c.tasks.eraseIdx k } sendto task

/-- The client as its threads start; `RxBuf` is what `malloc` found. -/
def start (RxBuf : LcMsg) : Client :=
  { boolInitCliInfo := false, ui := .attempt 0, boolTmp := false, sw := 0, RxBuf := RxBuf
    tasks := [], sent := [], shown := [] }

/-! ## 2. What the error loop should do -/

/-- In the error loop with the flag set the next step leads to the menu. -/
def LeavesOnFlag (lcEndID : EndID) (c : Client) : Prop :=
  c.ui = .errorLoop → c.boolInitCliInfo = true →
    ∀ TxBuf, (uiStep lcEndID c TxBuf).map Client.ui = some .menu

/-- The copy that the error loop tests was made before the flag was set. -/
def Client.CopiedFalse (c : Client) : Prop := c.ui = .errorLoop ∧ c.boolTmp = false

instance (c : Client) : Decidable c.CopiedFalse := inferInstanceAs (Decidable (_ ∧ _))

/-- The task that handles an answer to the registration. -/
def isAck : ClientTask → Bool
  | .ProcessServerMsg msgBuf => LcMsg.msgType msgBuf = MsgType.SaveCliInfo.code
  | .SendMsgBufToServer _ => false

/-- No answer is handled after the last copy of the flag if that copy is not set. -/
def AckInTime (c : Client) : Event → Prop
  | .work k _ => c.CopiedFalse → (c.tasks[k]?).all (fun task => !isAck task) = true
  | _ => True

instance decidableAckInTime (c : Client) : (e : Event) → Decidable (AckInTime c e)
  | .ui _ => isTrue trivial
  | .choose _ => isTrue trivial
  | .ret => isTrue trivial
  | .recvfrom _ => isTrue trivial
  | .work _ _ => inferInstanceAs (Decidable (_ → _))

/-! ## 3. What each step does to the flag and its copy -/

section Steps

variable {lcEndID : EndID} {c t : Client}

/-- The test of the error loop is on the copy. -/
theorem leavesOnFlag_iff :
    LeavesOnFlag lcEndID c ↔ (c.CopiedFalse → c.boolInitCliInfo = false) := by
  constructor
  · intro h ⟨hui, htmp⟩
    cases hflag : c.boolInitCliInfo with
    | false => rfl
    | true =>
        have hmenu := h hui hflag c.RxBuf
        simp [uiStep, hui, htmp, Client.display] at hmenu
  · intro h hui hflag TxBuf
    cases htmp : c.boolTmp with
    | false => exact absurd (h ⟨hui, htmp⟩) (by simp [hflag])
    | true => simp [uiStep, hui, htmp]

/-- The flag is not touched by `ClientInterface`, and a copy that is not set was made in
    this step or is the one that was there. -/
theorem uiStep_copied {TxBuf : LcMsg} (hstep : uiStep lcEndID c TxBuf = some t) :
    t.boolInitCliInfo = c.boolInitCliInfo ∧
      (t.CopiedFalse → t.boolInitCliInfo = false ∨ c.CopiedFalse) := by
  cases hui : c.ui with
  | attempt Index =>
      simp only [uiStep, hui] at hstep
      split at hstep
      · cases hstep
        exact ⟨rfl, fun h => absurd h.1 (by simp)⟩
      · cases hstep
        exact ⟨rfl, fun h => .inl h.2⟩
  | copied Index =>
      simp only [uiStep, hui] at hstep
      split at hstep
      · cases hstep
        exact ⟨rfl, fun h => absurd h.1 (by simp)⟩
      · cases hstep
        exact ⟨rfl, fun h => absurd h.1 (by simp)⟩
  | errorLoop =>
      simp only [uiStep, hui] at hstep
      split at hstep
      · cases hstep
        exact ⟨rfl, fun h => .inr h⟩
      · cases hstep
        exact ⟨rfl, fun h => absurd h.1 (by simp)⟩
  | menu => simp [uiStep, hui] at hstep
  | calling f => simp [uiStep, hui] at hstep
  | outside => simp [uiStep, hui] at hstep

theorem callInterface_ne_errorLoop (sw : Int32) : callInterface sw ≠ .errorLoop := by
  rw [callInterface]
  split
  · exact UiAt.noConfusion
  · cases interfaceLevel1[sw.toInt.toNat]? with
    | none => exact UiAt.noConfusion
    | some f => exact UiAt.noConfusion

/-- The menu does not lead back. -/
theorem menuStep_copied {scanf : Option Int32} (hstep : menuStep c scanf = some t) :
    ¬ t.CopiedFalse := by
  cases hui : c.ui with
  | menu =>
      simp only [menuStep, hui] at hstep
      split at hstep
      · cases hstep
        exact fun h => absurd (hui.symm.trans h.1) (by simp)
      · cases hstep
        exact fun h => callInterface_ne_errorLoop _ h.1
  | attempt Index => simp [menuStep, hui] at hstep
  | copied Index => simp [menuStep, hui] at hstep
  | errorLoop => simp [menuStep, hui] at hstep
  | calling f => simp [menuStep, hui] at hstep
  | outside => simp [menuStep, hui] at hstep

/-- A task leaves `ClientInterface` and its copy alone, and sets the flag if it is an
    answer. -/
theorem runTask_copied (c : Client) (sendto : Bool) (task : ClientTask) :
    ((runTask c sendto task).CopiedFalse ↔ c.CopiedFalse) ∧
      (runTask c sendto task).boolInitCliInfo = (c.boolInitCliInfo || isAck task) := by
  cases task with
  | ProcessServerMsg msgBuf =>
      by_cases hack : LcMsg.msgType msgBuf = MsgType.SaveCliInfo.code
      · simp [runTask, processServerMsg, isAck, hack, Client.CopiedFalse]
      · by_cases hdata : LcMsg.msgType msgBuf = MsgType.DataMsg.code
        · simp [runTask, processServerMsg, isAck, hdata, Client.CopiedFalse, MsgType.code]
        · simp [runTask, processServerMsg, isAck, hack, hdata]
  | SendMsgBufToServer TxBuf =>
      cases sendto with
      | true => simp [runTask, sendMsgBufToServer, isAck, Client.CopiedFalse]
      | false => simp [runTask, sendMsgBufToServer, isAck]

/-! ## 4. Runs -/

/-- The error loop works as it should after a step exactly if the step is not an answer
    behind the last copy. -/
theorem step_leavesOnFlag_iff {e : Event} (h : LeavesOnFlag lcEndID c)
    (hstep : step lcEndID c e = some t) : LeavesOnFlag lcEndID t ↔ AckInTime c e := by
  rw [leavesOnFlag_iff] at h ⊢
  cases e with
  | ui TxBuf =>
      obtain ⟨hflag, hcopy⟩ := uiStep_copied hstep
      refine iff_of_true (fun ht => ?_) trivial
      rcases hcopy ht with hfalse | hc
      · exact hfalse
      · exact hflag.trans (h hc)
  | choose scanf =>
      exact iff_of_true (fun ht => absurd ht (menuStep_copied hstep)) trivial
  | ret =>
      cases hui : c.ui <;> simp only [step, hui, reduceCtorEq] at hstep
      cases hstep
      exact iff_of_true (fun ht => absurd ht.1 (by simp)) trivial
  | recvfrom r =>
      cases hstep
      refine iff_of_true ?_ trivial
      cases r with
      | error => exact h
      | eof => exact h
      | data chunk => exact h
  | work k sendto =>
      cases htask : c.tasks[k]? with
      | none => simp [step, htask] at hstep
      | some task =>
          simp only [step, htask, Option.map_some, Option.some.injEq] at hstep
          obtain ⟨hcopy, hflag⟩ := runTask_copied { c with tasks := c.tasks.eraseIdx k } sendto task
          rw [hstep] at hcopy hflag
          have hsame : t.CopiedFalse ↔ c.CopiedFalse := hcopy
          rw [hsame, hflag]
          simp only [AckInTime, htask, Option.all_some, Bool.or_eq_false_iff,
            Bool.not_eq_true']
          exact forall_congr' fun hc => and_iff_right (h hc)

/-- In every run, the error loop leads to the menu in each state in which the flag is set
    exactly if no answer is handled after the last copy of the flag, when that copy is not
    set. -/
theorem error_loop_left_iff {RxBuf : LcMsg} {es : List Event}
    (hrun : exec (step lcEndID) (start RxBuf) es = some t) :
    Always (step lcEndID) (LeavesOnFlag lcEndID) (start RxBuf) es ↔
      Along (step lcEndID) AckInTime (start RxBuf) es :=
  always_iff_along (J := fun _ => True) (fun _ _ _ _ _ => trivial)
    (fun _ _ _ _ h hstep => step_leavesOnFlag_iff h hstep) trivial
    (fun hui _ => absurd hui (by simp [start])) hrun

end Steps

def zeros : LcMsg := Buf.zero sizeofLcMsg

/-- The answer of the server: the registration, sent back. -/
def ack : Chunk sizeofLcMsg :=
  ⟨(LcMsg.setMsgType zeros .SaveCliInfo).bytes, by rw [Buf.size]; decide,
    by rw [Buf.size]⟩

/-- An attempt, its registration sent. -/
def attemptOnce : List Event := [.ui zeros, .ui zeros, .work 0 true]

/-- The answer is handled after the third attempt: two more rounds, the last copy, the
    menu. -/
def ackBetween : List Event :=
  attemptOnce ++ attemptOnce ++ attemptOnce ++
    [.recvfrom (.data ack), .work 0 true, .ui zeros, .ui zeros, .ui zeros, .ui zeros, .ui zeros,
      .ui zeros, .choose (some 0)]

theorem error_loop_left_after_third :
    Always (step 7) (LeavesOnFlag 7) (start zeros) ackBetween := by
  have hrun : ∃ t, exec (step 7) (start zeros) ackBetween = some t :=
    Option.isSome_iff_exists.mp (by decide +kernel)
  obtain ⟨t, ht⟩ := hrun
  exact (error_loop_left_iff ht).mpr (by decide +kernel)

/-- Five attempts and the last copy, then the answer. -/
def ackLate : List Event :=
  attemptOnce ++ attemptOnce ++ attemptOnce ++ attemptOnce ++ attemptOnce ++
    [.ui zeros, .recvfrom (.data ack), .work 0 true]

/-- The flag is set and the loop goes on. -/
theorem late_answer_ignored :
    ¬ Always (step 7) (LeavesOnFlag 7) (start zeros) ackLate := by
  intro h
  have hrun : (exec (step 7) (start zeros) ackLate).map
      (fun t => (t.ui, t.boolInitCliInfo, (uiStep 7 t zeros).map Client.ui)) =
        some (.errorLoop, true, some .errorLoop) := by decide +kernel
  obtain ⟨t, ht, hlast⟩ := Option.map_eq_some_iff.mp hrun
  simp only [Prod.mk.injEq] at hlast
  obtain ⟨hui, hflag, hnext⟩ := hlast
  have hmenu := (Always.last h ht) hui hflag zeros
  rw [hnext] at hmenu
  cases hmenu

end SocketPractice.SocketUdp.ClientInterface
