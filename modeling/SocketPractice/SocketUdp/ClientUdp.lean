import SocketPractice.Lib.CString
import SocketPractice.SocketUdp.LcMsg

/-!
# What the client sends and receives (`client_udp.c`)

`SendMsgToServer` and `SendMsgToOtherClient` read line after line into a buffer of 256
bytes, put each into a message and give the pool a copy, until a line with `zkquit`.  The
buffer is zeroed before every `read` and the data of the message is copied as a whole, so a
line leaves nothing behind for the next.

`strcasestr` takes a string.  A line that fills the buffer with bytes other than zero is
none: the search, which looks for the end of the string first, goes on behind the buffer.
And a `zkquit` behind a zero byte is not in the string.
-/

namespace SocketPractice.SocketUdp

open Lib.Bytes Lib.CString

/-! ## 1. The code -/

/-- A task of the client's pool, with the copy that is its argument. -/
inductive ClientTask where
  | ProcessServerMsg (msgBuf : LcMsg)
  | SendMsgBufToServer (TxBuf : LcMsg)
deriving DecidableEq

/-- `InitTxBuf`, with the identity of the client from `GetModulesManager`. -/
def initTxBuf (lcEndID : EndID) (TxBuf : LcMsg) (destEndID : EndID) : LcMsg :=
  (LcMsg.setDestEndID (LcMsg.setSrcEndID (LcMsg.setMsgType TxBuf .DataMsg) lcEndID)
    destEndID).write 12 (List.replicate LCMSG_DATA_MAXLEN 0)
      (by rw [List.length_replicate]; decide)

/-- The buffer of the lines. -/
abbrev RxData := Buf LCMSG_DATA_MAXLEN

abbrev ReadRet := RecvRet LCMSG_DATA_MAXLEN

/-- A line as one `read` stores it. -/
abbrev Line := Chunk LCMSG_DATA_MAXLEN

/-- `zkquit`. -/
def quitWord : List UInt8 := [122, 107, 113, 117, 105, 116]

/-- `memcpy(TxBuf->msg.data, RxData, LCMSG_DATA_MAXLEN)`. -/
def copyData (TxBuf : LcMsg) (rx : RxData) : LcMsg :=
  TxBuf.write 12 rx.bytes (by rw [rx.size]; decide)

/-- Whether the string that starts in the buffer ends in it. -/
def isString (rx : RxData) : Bool := rx.bytes.contains 0

/-- What a loop has done: the tasks it added, the reads that come after it if it ended, and
    whether a search has gone on behind the buffer. -/
structure SendLoop where
  tasks : List ClientTask
  left : Option (List ReadRet)
  outside : Bool

/-- The loop of both functions on what its reads return; `behind k` are the bytes behind
    the buffer at the `k`-th search. -/
def sendLoop (lcEndID destEndID : EndID) (TxBuf : LcMsg) (behind : Nat → List UInt8) :
    List ReadRet → SendLoop
  | [] => { tasks := [], left := none, outside := false }
  | .error :: reads => sendLoop lcEndID destEndID TxBuf behind reads
  | .eof :: reads => sendLoop lcEndID destEndID TxBuf behind reads
  | .data line :: reads =>
      let rx := (Buf.zero LCMSG_DATA_MAXLEN).recv line
      if strcasestr (rx.bytes ++ behind 0) quitWord then
        { tasks := [], left := some reads, outside := !isString rx }
      else
        let TxBuf := copyData (initTxBuf lcEndID TxBuf destEndID) rx
        let loop := sendLoop lcEndID destEndID TxBuf (fun k => behind (k + 1)) reads
        { loop with
          tasks := .SendMsgBufToServer TxBuf :: loop.tasks
          outside := !isString rx || loop.outside }

/-- `TxBuf` is what `malloc` found. -/
def sendMsgToServer (lcEndID : EndID) (TxBuf : LcMsg) (behind : Nat → List UInt8)
    (reads : List ReadRet) : SendLoop :=
  sendLoop lcEndID SETVER_ENDID TxBuf behind reads

/-- `remoteEndID` is what the user entered. -/
def sendMsgToOtherClient (lcEndID remoteEndID : EndID) (TxBuf : LcMsg)
    (behind : Nat → List UInt8) (reads : List ReadRet) : SendLoop :=
  sendLoop lcEndID remoteEndID TxBuf behind reads

/-! ## 2. What the loop should do -/

def Line.padded (line : Line) : List UInt8 :=
  line.bytes ++ List.replicate (LCMSG_DATA_MAXLEN - line.bytes.length) 0

def Line.quits (line : Line) : Bool := containsCase line.bytes quitWord

/-- The lines before the first that contains `zkquit`, and what is read after that one. -/
def typedLines : List ReadRet → List Line × Option (List ReadRet)
  | [] => ([], none)
  | .error :: reads => typedLines reads
  | .eof :: reads => typedLines reads
  | .data line :: reads =>
      if Line.quits line then ([], some reads)
      else
        let (lines, left) := typedLines reads
        (line :: lines, left)

/-- The task sends a data message from this client to the chosen one with the line and
    zeros. -/
def Carries (lcEndID destEndID : EndID) (line : Line) : ClientTask → Prop
  | .SendMsgBufToServer m =>
      LcMsg.msgType m = MsgType.DataMsg.code ∧ LcMsg.srcEndID m = lcEndID ∧
        LcMsg.destEndID m = destEndID ∧ LcMsg.data m = line.padded
  | .ProcessServerMsg _ => False

/-- One task for each line before the first with `zkquit`, then the end, and no search
    behind the buffer. -/
structure SendsTyped (lcEndID destEndID : EndID) (reads : List ReadRet) (loop : SendLoop) :
    Prop where
  tasks : List.Forall₂ (Carries lcEndID destEndID) (typedLines reads).1 loop.tasks
  left : loop.left = (typedLines reads).2
  inside : loop.outside = false

/-- Up to the first line that contains `zkquit` every line ends before the buffer does or
    has a zero byte; and that line has none before its `zkquit`. -/
def LinesEnd : List ReadRet → Prop
  | [] => True
  | .error :: reads => LinesEnd reads
  | .eof :: reads => LinesEnd reads
  | .data line :: reads =>
      0 ∈ Line.padded line ∧
        if Line.quits line then strcasestr line.bytes quitWord = true else LinesEnd reads

/-! ## 3. One line after the other -/

theorem bytes_recv_zero (line : Line) :
    ((Buf.zero LCMSG_DATA_MAXLEN).recv line).bytes = line.padded := by
  rw [Buf.recv_bytes, Buf.zero, List.drop_replicate, Line.padded]

theorem isString_recv_zero (line : Line) :
    isString ((Buf.zero LCMSG_DATA_MAXLEN).recv line) = decide (0 ∈ line.padded) := by
  rw [isString, bytes_recv_zero, List.contains_eq_mem]

/-- A line that contains `zkquit` ends the loop unless a zero precedes it. -/
theorem finds_of_quits {line : Line} (hquits : line.quits = true) (behind : List UInt8) :
    strcasestr (line.padded ++ behind) quitWord = strcasestr line.bytes quitWord := by
  rw [Line.padded, List.append_assoc]
  exact strcasestr_append_of_contains _ hquits

theorem finds_of_not_quits {line : Line} (hquits : line.quits = false)
    (hzero : 0 ∈ line.padded) (behind : List UInt8) :
    strcasestr (line.padded ++ behind) quitWord = false := by
  rw [strcasestr_append_of_mem hzero, Line.padded, strcasestr, cString_append_zeros]
  cases hfound : containsCase (cString line.bytes) quitWord with
  | false => rfl
  | true =>
      have hcontains := containsCase_of_strcasestr hfound
      rw [← hquits]
      exact hcontains.symm

/-! ## 4. The message -/

section Message

variable (lcEndID destEndID : EndID) (TxBuf : LcMsg) (line : Line)

/-- The message that the pool gets a copy of. -/
def lineMsg : LcMsg :=
  copyData (initTxBuf lcEndID TxBuf destEndID) ((Buf.zero LCMSG_DATA_MAXLEN).recv line)

/-- The two writes to the data leave the three words before it. -/
theorem take_lineMsg :
    (lineMsg lcEndID destEndID TxBuf line).bytes.take 12 =
      (LcMsg.setDestEndID (LcMsg.setSrcEndID (LcMsg.setMsgType TxBuf .DataMsg) lcEndID)
        destEndID).bytes.take 12 := by
  rw [lineMsg, copyData, Buf.take_write_of_le _ _ (Nat.le_refl 12), initTxBuf,
    Buf.take_write_of_le _ _ (Nat.le_refl 12)]

theorem take_lineMsg_of_le {k : Nat} (hk : k ≤ 12) :
    (lineMsg lcEndID destEndID TxBuf line).bytes.take k =
      (LcMsg.setDestEndID (LcMsg.setSrcEndID (LcMsg.setMsgType TxBuf .DataMsg) lcEndID)
        destEndID).bytes.take k := by
  have h := congrArg (List.take k) (take_lineMsg lcEndID destEndID TxBuf line)
  rwa [List.take_take, List.take_take, Nat.min_eq_left hk] at h

theorem msgType_lineMsg :
    LcMsg.msgType (lineMsg lcEndID destEndID TxBuf line) = MsgType.DataMsg.code := by
  have htake : (lineMsg lcEndID destEndID TxBuf line).bytes.take 4 =
      (LcMsg.setMsgType TxBuf .DataMsg).bytes.take 4 := by
    rw [take_lineMsg_of_le _ _ _ _ (by decide), LcMsg.setDestEndID, LcMsg.setSrcEndID,
      Buf.take_put32_of_le _ _ _ (by decide), Buf.take_put32_of_le _ _ _ (by decide)]
  rw [LcMsg.msgType, Buf.get32_congr htake]
  exact Buf.get32_put32 _ _ _

theorem srcEndID_lineMsg :
    LcMsg.srcEndID (lineMsg lcEndID destEndID TxBuf line) = lcEndID := by
  have htake : (lineMsg lcEndID destEndID TxBuf line).bytes.take 8 =
      (LcMsg.setSrcEndID (LcMsg.setMsgType TxBuf .DataMsg) lcEndID).bytes.take 8 := by
    rw [take_lineMsg_of_le _ _ _ _ (by decide), LcMsg.setDestEndID,
      Buf.take_put32_of_le _ _ _ (by decide)]
  rw [LcMsg.srcEndID, Buf.get32_congr htake, LcMsg.setSrcEndID, Buf.get32_put32]
  exact Int32.toInt32_toUInt32 lcEndID

theorem destEndID_lineMsg :
    LcMsg.destEndID (lineMsg lcEndID destEndID TxBuf line) = destEndID := by
  rw [LcMsg.destEndID, Buf.get32_congr (take_lineMsg lcEndID destEndID TxBuf line),
    LcMsg.setDestEndID, Buf.get32_put32]
  exact Int32.toInt32_toUInt32 destEndID

theorem data_lineMsg : LcMsg.data (lineMsg lcEndID destEndID TxBuf line) = line.padded := by
  have hlen : line.padded.length = LCMSG_DATA_MAXLEN := by
    rw [← bytes_recv_zero]
    exact Buf.size _
  rw [LcMsg.data, Buf.slice, lineMsg, copyData, Buf.drop_write_self, bytes_recv_zero,
    List.take_left' hlen]

/-- Whatever was in the message before, it carries the line. -/
theorem carries_lineMsg :
    Carries lcEndID destEndID line (.SendMsgBufToServer (lineMsg lcEndID destEndID TxBuf line)) :=
  ⟨msgType_lineMsg _ _ _ _, srcEndID_lineMsg _ _ _ _, destEndID_lineMsg _ _ _ _,
    data_lineMsg _ _ _ _⟩

end Message

/-! ## 5. The loop -/

section Loop

variable {lcEndID destEndID : EndID} {TxBuf : LcMsg} {behind : Nat → List UInt8}
  {line : Line} {reads : List ReadRet}

/-- The round of a line that the search finds `zkquit` at. -/
theorem sendLoop_found
    (h : strcasestr (line.padded ++ behind 0) quitWord = true) :
    sendLoop lcEndID destEndID TxBuf behind (.data line :: reads) =
      { tasks := [], left := some reads, outside := !decide (0 ∈ line.padded) } := by
  rw [sendLoop]
  simp only [bytes_recv_zero, isString_recv_zero, h, if_true]

/-- The round of a line that it does not find `zkquit` at. -/
theorem sendLoop_not_found
    (h : strcasestr (line.padded ++ behind 0) quitWord = false) :
    sendLoop lcEndID destEndID TxBuf behind (.data line :: reads) =
      let loop := sendLoop lcEndID destEndID (lineMsg lcEndID destEndID TxBuf line)
        (fun k => behind (k + 1)) reads
      { loop with
        tasks := .SendMsgBufToServer (lineMsg lcEndID destEndID TxBuf line) :: loop.tasks
        outside := !decide (0 ∈ line.padded) || loop.outside } := by
  rw [sendLoop]
  simp only [bytes_recv_zero, isString_recv_zero, h, Bool.false_eq_true, if_false]
  rfl

/-- Only the typed lines matter. -/
theorem sendsTyped_congr {reads' : List ReadRet} {loop : SendLoop}
    (h : typedLines reads' = typedLines reads) :
    SendsTyped lcEndID destEndID reads' loop ↔ SendsTyped lcEndID destEndID reads loop := by
  constructor
  · intro hs
    exact ⟨h ▸ hs.tasks, h ▸ hs.left, hs.inside⟩
  · intro hs
    exact ⟨h ▸ hs.tasks, h ▸ hs.left, hs.inside⟩

/-- A search behind the buffer is not made up for. -/
theorem outside_of_full (hfull : 0 ∉ line.padded) :
    (sendLoop lcEndID destEndID TxBuf behind (.data line :: reads)).outside = true := by
  cases hfound : strcasestr (line.padded ++ behind 0) quitWord with
  | true => simp [sendLoop_found hfound, hfull]
  | false => simp [sendLoop_not_found hfound, hfull]

theorem sendLoop_iff (lcEndID destEndID : EndID) (reads : List ReadRet) :
    ∀ (TxBuf : LcMsg) (behind : Nat → List UInt8),
      SendsTyped lcEndID destEndID reads (sendLoop lcEndID destEndID TxBuf behind reads) ↔
        LinesEnd reads := by
  induction reads with
  | nil => exact fun _ _ => ⟨fun _ => trivial, fun _ => ⟨.nil, rfl, rfl⟩⟩
  | cons r reads ih =>
      intro TxBuf behind
      cases r with
      | error =>
          have hlines : typedLines (.error :: reads) = typedLines reads := rfl
          exact (sendsTyped_congr hlines).trans (ih TxBuf behind)
      | eof =>
          have hlines : typedLines (.eof :: reads) = typedLines reads := rfl
          exact (sendsTyped_congr hlines).trans (ih TxBuf behind)
      | data line =>
          by_cases hzero : 0 ∈ Line.padded line
          swap
          · -- a full line: the search does not stop in the buffer
            refine iff_of_false (fun hs => ?_) (fun hl => hzero hl.1)
            have hinside := hs.inside
            rw [outside_of_full hzero] at hinside
            cases hinside
          cases hquits : Line.quits line with
          | true =>
              simp only [LinesEnd, hzero, hquits, if_true, true_and]
              have hfinds := finds_of_quits hquits (behind 0)
              cases hfound : strcasestr line.bytes quitWord with
              | true =>
                  rw [sendLoop_found (hfinds.trans hfound)]
                  refine iff_of_true ⟨?_, ?_, ?_⟩ rfl
                  · simp [typedLines, hquits]
                  · simp [typedLines, hquits]
                  · simp [hzero]
              | false =>
                  rw [sendLoop_not_found (hfinds.trans hfound)]
                  refine iff_of_false (fun hs => ?_) Bool.false_ne_true
                  have htasks := hs.tasks
                  simp only [typedLines, hquits, if_true] at htasks
                  cases htasks
          | false =>
              simp only [LinesEnd, hzero, hquits, true_and, Bool.false_eq_true, if_false]
              rw [sendLoop_not_found (finds_of_not_quits hquits hzero (behind 0)),
                ← ih (lineMsg lcEndID destEndID TxBuf line) fun k => behind (k + 1)]
              constructor
              · intro hs
                have htasks := hs.tasks
                have hleft := hs.left
                have hinside := hs.inside
                simp only [typedLines, hquits, Bool.false_eq_true, if_false,
                  List.forall₂_cons] at htasks hleft
                simp only [hzero, decide_true, Bool.not_true, Bool.false_or] at hinside
                exact ⟨htasks.2, hleft, hinside⟩
              · intro hs
                constructor
                · simp only [typedLines, hquits, Bool.false_eq_true, if_false, List.forall₂_cons]
                  exact ⟨carries_lineMsg _ _ _ _, hs.tasks⟩
                · simp only [typedLines, hquits, Bool.false_eq_true, if_false, hs.left]
                · simp [hzero, hs.inside]

/-- Both functions send what is typed, end at the first line with `zkquit` and search
    inside the buffer, exactly if up to that line every line leaves a zero in the buffer
    and that line has none before its `zkquit`. -/
theorem udp_sends_typed_iff (lcEndID remoteEndID : EndID) (TxBuf : LcMsg)
    (behind : Nat → List UInt8) (reads : List ReadRet) :
    (SendsTyped lcEndID SETVER_ENDID reads (sendMsgToServer lcEndID TxBuf behind reads) ↔
        LinesEnd reads) ∧
      (SendsTyped lcEndID remoteEndID reads
          (sendMsgToOtherClient lcEndID remoteEndID TxBuf behind reads) ↔ LinesEnd reads) := by
  constructor
  · exact sendLoop_iff lcEndID SETVER_ENDID reads TxBuf behind
  · exact sendLoop_iff lcEndID remoteEndID reads TxBuf behind

end Loop

def fullLine : Line :=
  ⟨List.replicate LCMSG_DATA_MAXLEN 97, by rw [List.length_replicate]; decide,
    by rw [List.length_replicate]⟩

/-- A line of 256 letters: the search goes on behind the buffer. -/
theorem full_line_searched_outside :
    ¬ SendsTyped 7 SETVER_ENDID [.data fullLine]
      (sendMsgToServer 7 (Buf.zero sizeofLcMsg) (fun _ => [0]) [.data fullLine]) := by
  intro h
  have hinside := h.inside
  revert hinside
  decide +kernel

end SocketPractice.SocketUdp
