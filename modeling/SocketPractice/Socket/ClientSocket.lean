import SocketPractice.Lib.CString
import SocketPractice.Socket.SockMsg

/-!
# Sending what the user types (`client_socket.c`)

`send_msg_to_server` and `send_msg_to_other_cli` read line after line into the data of
one message and hand the message on, until a line with `zkquit`.  The message is zeroed
once, before the loop; a `read` overwrites the first bytes of the data only, so behind a
line stands whatever the lines before it left there.  The pool gets a copy of the message,
so later lines do not reach it.

What is handed on is what was typed, and the loop ends where it should, if and only if
every line overwrites the one before it and `zkquit` is not typed behind a zero byte.
-/

namespace SocketPractice.Socket

open Lib.Bytes Lib.CString

/-! ## 1. The code -/

/-- `socket_type_t` of the client. -/
inductive SocketType where
  | UNSET
  | TCP_LINK
  | UDP_LINK
deriving DecidableEq, Repr

/-- The cast to `lc_msg_type_t`, which goes by the value. -/
def SocketType.msgType : SocketType → LcMsgType
  | .UNSET => .SAVE_CLI_INFO
  | .TCP_LINK => .TCP_DATA
  | .UDP_LINK => .UDP_DATA

/-- A task of the client's pool, with the copy that it has as its argument. -/
inductive ClientTask where
  | sendMsgByTcp (msgbuf : LcMsgPackage)
  | sendMsgByUdp (msgbuf : LcMsgPackage)
  | completeInitClientInfo
  | dispalyMsgPackage (msgbuf : LcMsgPackage)
deriving DecidableEq

/-- The task that `send_msg_by_socket` adds to the pool. -/
def sendMsgBySocket (socketType : SocketType) (msgbuf : LcMsgPackage) : List ClientTask :=
  if socketType = .TCP_LINK then [.sendMsgByTcp msgbuf]
  else if socketType = .UDP_LINK then [.sendMsgByUdp msgbuf]
  else []

/-- What a `read` of the standard input returns. -/
abbrev ReadRet := Lib.Bytes.RecvRet MSG_DATA_LEN

/-- A line as one `read` stores it. -/
abbrev Line := Chunk MSG_DATA_LEN

/-- `zkquit`. -/
def quitWord : List UInt8 := [122, 107, 113, 117, 105, 116]

namespace LcMsgPackage

/-- `read(STDIN_FILENO, msgbuf.msg.data, sizeof(msgbuf.msg.data))`. -/
def readData (m : LcMsgPackage) (line : Line) : LcMsgPackage :=
  m.write 12 line.bytes (Nat.le_trans (Nat.add_le_add_left line.le 12) (by decide))

/-- `lc_strcasestr((char*)msgbuf.msg.data, "zkquit")`: behind the data the search runs on
    to the end of the message. -/
def findsQuit (m : LcMsgPackage) : Bool := strcasestr (m.bytes.drop 12) quitWord

end LcMsgPackage

/-- What the loop has done: the messages passed to `send_msg_by_socket`, the tasks added
    by it, and, if the loop ended, the reads that come after it. -/
structure SendLoop where
  handed : List LcMsgPackage
  tasks : List ClientTask
  left : Option (List ReadRet)

/-- The loop of both functions, on what its reads return. -/
def sendLoop (socketType : SocketType) (msgbuf : LcMsgPackage) : List ReadRet → SendLoop
  | [] => { handed := [], tasks := [], left := none }
  | .error :: reads => sendLoop socketType msgbuf reads
  | .eof :: reads => sendLoop socketType msgbuf reads
  | .data line :: reads =>
      let msgbuf := msgbuf.readData line
      if msgbuf.findsQuit then { handed := [], tasks := [], left := some reads }
      else
        let loop := sendLoop socketType msgbuf reads
        { loop with
          handed := msgbuf :: loop.handed
          tasks := sendMsgBySocket socketType msgbuf ++ loop.tasks }

def sendMsgToServer (socketType : SocketType) (endid serverEndid : EndId)
    (reads : List ReadRet) : SendLoop :=
  let msgbuf := Buf.zero sizeofLcMsgPackage
  let msgbuf := LcMsgPackage.setMsgType msgbuf socketType.msgType
  let msgbuf := LcMsgPackage.setSrcid msgbuf endid
  let msgbuf := LcMsgPackage.setDestid msgbuf serverEndid
  sendLoop socketType msgbuf reads

/-- `destid` is what the user entered for the endid. -/
def sendMsgToOtherCli (socketType : SocketType) (endid destid : EndId)
    (reads : List ReadRet) : SendLoop :=
  let msgbuf := Buf.zero sizeofLcMsgPackage
  let msgbuf := LcMsgPackage.setMsgType msgbuf socketType.msgType
  let msgbuf := LcMsgPackage.setSrcid msgbuf endid
  let msgbuf := LcMsgPackage.setDestid msgbuf destid
  sendLoop socketType msgbuf reads

/-! ## 2. What the loop should do -/

def Line.padded (line : Line) : List UInt8 :=
  line.bytes ++ List.replicate (MSG_DATA_LEN - line.bytes.length) 0

def Line.quits (line : Line) : Bool := containsCase line.bytes quitWord

/-- The lines before the first that contains `zkquit`, and what is read after that one. -/
def typedLines : List ReadRet → List Line × Option (List ReadRet)
  | [] => ([], none)
  | .error :: reads => typedLines reads
  | .eof :: reads => typedLines reads
  | .data line :: reads =>
      if Line.quits line then ([], some reads)
      else
        let (lines, left) := typedLines reads
        (line :: lines, left)

/-- Every message handed on carries its own line, and the loop ends at the first line
    with `zkquit`. -/
structure SendsTyped (reads : List ReadRet) (loop : SendLoop) : Prop where
  handed : loop.handed.map LcMsgPackage.data = (typedLines reads).1.map Line.padded
  left : loop.left = (typedLines reads).2

/-- Up to the first line that contains `zkquit`, every line overwrites what is not zero in
    the one before it; and that line has no zero byte before its `zkquit`. -/
def LinesOverwrite (before : List UInt8) : List ReadRet → Prop
  | [] => True
  | .error :: reads => LinesOverwrite before reads
  | .eof :: reads => LinesOverwrite before reads
  | .data line :: reads =>
      if Line.quits line then strcasestr line.bytes quitWord = true
      else (∀ b ∈ before.drop line.bytes.length, b = 0) ∧ LinesOverwrite line.bytes reads

/-! ## 3. One line after the other -/

section Loop

variable {m : LcMsgPackage} {before : List UInt8}

/-- The data shows the line with these bytes, and nothing but zeros behind it. -/
structure ShowsLine (m : LcMsgPackage) (before : List UInt8) : Prop where
  le : before.length ≤ MSG_DATA_LEN
  drop : m.bytes.drop 12 = before ++ List.replicate (516 - before.length) 0

theorem drop_readData (m : LcMsgPackage) (line : Line) :
    (m.readData line).bytes.drop 12 =
      line.bytes ++ (m.bytes.drop 12).drop line.bytes.length := by
  rw [LcMsgPackage.readData, Buf.drop_write_self, List.drop_drop]

theorem data_eq (m : LcMsgPackage) : m.data = (m.bytes.drop 12).take MSG_DATA_LEN := rfl

theorem ShowsLine.data {line : Line} (h : ShowsLine m line.bytes) : m.data = line.padded := by
  have hlen : MSG_DATA_LEN - line.bytes.length ≤ 516 - line.bytes.length :=
    Nat.sub_le_sub_right (by decide) _
  rw [data_eq, h.drop, Line.padded, List.take_append, List.take_of_length_le line.le,
    List.take_replicate, Nat.min_eq_left hlen]

/-- A line that overwrites the one before it is shown. -/
theorem ShowsLine.readData (h : ShowsLine m before) {line : Line}
    (hzero : ∀ b ∈ before.drop line.bytes.length, b = 0) :
    ShowsLine (m.readData line) line.bytes := by
  refine ⟨line.le, ?_⟩
  have hlen : ((m.bytes.drop 12).drop line.bytes.length).length = 516 - line.bytes.length := by
    have hsize := m.size
    rw [List.length_drop, List.length_drop, hsize]
    rfl
  rw [drop_readData]
  congr 1
  apply List.eq_replicate_iff.mpr
  refine ⟨hlen, ?_⟩
  intro b hb
  rw [h.drop, List.drop_append] at hb
  rcases List.mem_append.mp hb with hb | hb
  · exact hzero b hb
  · exact List.eq_of_mem_replicate (List.mem_of_mem_drop hb)

/-- A line that does not leaves something else in the data. -/
theorem ShowsLine.data_ne (h : ShowsLine m before) {line : Line}
    (hnot : ¬ ∀ b ∈ before.drop line.bytes.length, b = 0) :
    (m.readData line).data ≠ line.padded := by
  intro heq
  apply hnot
  intro b hb
  rw [data_eq, drop_readData, Line.padded, List.take_append,
    List.take_of_length_le line.le] at heq
  have htail := List.append_cancel_left heq
  rw [h.drop, List.drop_append, List.take_append] at htail
  have hlen : (before.drop line.bytes.length).length ≤ MSG_DATA_LEN - line.bytes.length := by
    rw [List.length_drop]
    exact Nat.sub_le_sub_right h.le _
  have hmem : b ∈ List.replicate (MSG_DATA_LEN - line.bytes.length) (0 : UInt8) := by
    rw [← htail, List.take_of_length_le hlen]
    exact List.mem_append_left _ hb
  exact List.eq_of_mem_replicate hmem

theorem findsQuit_of_quits (m : LcMsgPackage) {line : Line} (hquits : line.quits = true) :
    (m.readData line).findsQuit = strcasestr line.bytes quitWord := by
  rw [LcMsgPackage.findsQuit, drop_readData]
  exact strcasestr_append_of_contains _ hquits

theorem findsQuit_of_shows {line : Line} (h : ShowsLine m line.bytes)
    (hquits : line.quits = false) : m.findsQuit = false := by
  rw [LcMsgPackage.findsQuit, h.drop, strcasestr, cString_append_zeros]
  cases hfound : containsCase (cString line.bytes) quitWord with
  | false => rfl
  | true =>
      have hcontains := containsCase_of_strcasestr hfound
      rw [← hquits]
      exact hcontains.symm

/-- The loop from a message that shows the line before. -/
theorem sendLoop_iff (h : ShowsLine m before) (socketType : SocketType)
    (reads : List ReadRet) :
    SendsTyped reads (sendLoop socketType m reads) ↔ LinesOverwrite before reads := by
  induction reads generalizing m before with
  | nil => exact ⟨fun _ => trivial, fun _ => ⟨rfl, rfl⟩⟩
  | cons r reads ih =>
      cases r with
      | error =>
          have hrest := ih h
          exact ⟨fun hs => hrest.mp ⟨hs.handed, hs.left⟩,
            fun hl => ⟨(hrest.mpr hl).handed, (hrest.mpr hl).left⟩⟩
      | eof =>
          have hrest := ih h
          exact ⟨fun hs => hrest.mp ⟨hs.handed, hs.left⟩,
            fun hl => ⟨(hrest.mpr hl).handed, (hrest.mpr hl).left⟩⟩
      | data line =>
          cases hquits : Line.quits line with
          | true =>
              simp only [LinesOverwrite, hquits, if_true, sendLoop, findsQuit_of_quits m hquits]
              cases hfound : strcasestr line.bytes quitWord with
              | true =>
                  simp only [if_true, iff_true]
                  constructor
                  · simp [typedLines, hquits]
                  · simp [typedLines, hquits]
              | false =>
                  simp only [Bool.false_eq_true, if_false, iff_false]
                  intro hs
                  have hhanded := hs.handed
                  simp [typedLines, hquits] at hhanded
          | false =>
              simp only [LinesOverwrite, hquits, Bool.false_eq_true, if_false]
              by_cases hzero : ∀ b ∈ before.drop line.bytes.length, b = 0
              · have hshows := h.readData hzero
                have hrest := ih hshows
                simp only [← hrest, sendLoop, findsQuit_of_shows hshows hquits,
                  Bool.false_eq_true, if_false]
                constructor
                · intro hs
                  have hhanded := hs.handed
                  have hleft := hs.left
                  simp only [typedLines, hquits, Bool.false_eq_true, if_false,
                    List.map_cons, List.cons.injEq] at hhanded hleft
                  exact ⟨hzero, hhanded.2, hleft⟩
                · rintro ⟨-, hs⟩
                  constructor
                  · simp only [typedLines, hquits, Bool.false_eq_true, if_false, List.map_cons,
                      hshows.data, hs.handed]
                  · simp only [typedLines, hquits, Bool.false_eq_true, if_false, hs.left]
              · simp only [hzero, false_and, iff_false]
                intro hs
                have hhanded := hs.handed
                simp only [typedLines, hquits, Bool.false_eq_true, if_false, List.map_cons,
                  sendLoop] at hhanded
                by_cases hfound : (m.readData line).findsQuit = true
                · simp [hfound] at hhanded
                · simp only [if_neg hfound, List.map_cons, List.cons.injEq] at hhanded
                  exact h.data_ne hzero hhanded.1

theorem showsLine_header (t : LcMsgType) (srcid destid : EndId) :
    ShowsLine (LcMsgPackage.setDestid (LcMsgPackage.setSrcid (LcMsgPackage.setMsgType
      (Buf.zero sizeofLcMsgPackage) t) srcid) destid) [] := by
  refine ⟨Nat.zero_le _, ?_⟩
  rw [LcMsgPackage.setDestid, LcMsgPackage.setSrcid, LcMsgPackage.setMsgType,
    Buf.drop_put32_of_le _ _ _ (by decide), Buf.drop_put32_of_le _ _ _ (by decide),
    Buf.drop_put32_of_le _ _ _ (by decide)]
  rfl

/-- Both functions send what is typed, line by line, and end at the first line with
    `zkquit`, if and only if the lines overwrite each other and `zkquit` is not typed
    behind a zero byte. -/
theorem sends_typed_iff_overwrite (socketType : SocketType) (endid serverEndid destid : EndId)
    (reads : List ReadRet) :
    (SendsTyped reads (sendMsgToServer socketType endid serverEndid reads) ↔
        LinesOverwrite [] reads) ∧
      (SendsTyped reads (sendMsgToOtherCli socketType endid destid reads) ↔
        LinesOverwrite [] reads) := by
  constructor
  · exact sendLoop_iff (showsLine_header _ _ _) socketType reads
  · exact sendLoop_iff (showsLine_header _ _ _) socketType reads

end Loop

def helloLine : Line := ⟨[104, 101, 108, 108, 111, 10], by decide, by decide⟩

def hiLine : Line := ⟨[104, 105, 10], by decide, by decide⟩

/-- After `"hello\n"` the line `"hi\n"` goes out as `"hi\nlo\n"`. -/
theorem short_line_after_long :
    ¬ SendsTyped [.data helloLine, .data hiLine]
      (sendMsgToServer .TCP_LINK 7 1 [.data helloLine, .data hiLine]) := by
  intro h
  have hhanded := h.handed
  revert hhanded
  decide +kernel

end SocketPractice.Socket
