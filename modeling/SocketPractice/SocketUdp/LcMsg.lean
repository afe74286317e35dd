import SocketPractice.Lib.Bytes

/-!
# Messages of the `socket_udp` programs (`lcmsg.c`)

`LcMsg` is a union of the message struct, three integers and 256 bytes, and of a byte
array that is one byte longer.  That byte is the checksum; with the alignment of the
integers the union takes 272 bytes, and these are what is sent, received and copied.
-/

namespace SocketPractice.SocketUdp

open Lib.Bytes

/-! ## 1. The code -/

/-- `EndID`, a `pid_t`. -/
abbrev EndID := Int32

def SETVER_ENDID : EndID := 0

inductive MsgType where
  | UnknowMsgType
  | SaveCliInfo
  | DataMsg
deriving DecidableEq, Repr

def MsgType.code : MsgType → UInt32
  | .UnknowMsgType => 0
  | .SaveCliInfo => 1
  | .DataMsg => 2

def LCMSG_DATA_MAXLEN : Nat := 256

/-- `sizeof(struct __LcMsg)`. -/
def sizeofMsg : Nat := 12 + LCMSG_DATA_MAXLEN

/-- `sizeof(LcMsg)`. -/
def sizeofLcMsg : Nat := 272

abbrev LcMsg := Buf sizeofLcMsg

namespace LcMsg

/-- Any 32-bit value can come off the wire. -/
def msgType (m : LcMsg) : UInt32 := m.get32 0
def srcEndID (m : LcMsg) : EndID := (m.get32 4).toInt32
def destEndID (m : LcMsg) : EndID := (m.get32 8).toInt32
def data (m : LcMsg) : List UInt8 := m.slice 12 LCMSG_DATA_MAXLEN

def setMsgType (m : LcMsg) (t : MsgType) : LcMsg := m.put32 0 t.code (by decide)
def setSrcEndID (m : LcMsg) (id : EndID) : LcMsg := m.put32 4 id.toUInt32 (by decide)
def setDestEndID (m : LcMsg) (id : EndID) : LcMsg := m.put32 8 id.toUInt32 (by decide)

end LcMsg

/-- The loop of `SetCheckSum` and `CheckCheckSum` over `tmp`; `sum` is an unsigned
    char, so each addition is modulo 256. -/
def sumBytes (tmp : List UInt8) : UInt8 := tmp.foldl (fun sum b => sum + b) 0

/-- The sum over the message struct. -/
def checkSum (m : LcMsg) : UInt8 := sumBytes (m.bytes.take sizeofMsg)

def setCheckSum (m : LcMsg) : LcMsg :=
  m.write sizeofMsg [checkSum m] (show sizeofMsg + 1 ≤ sizeofLcMsg by decide)

def checkCheckSum (m : LcMsg) : Bool := checkSum m = m.bytes.getD sizeofMsg 0

/-! ## 2. What the checksum says -/

theorem sumBytes_append (as bs : List UInt8) :
    sumBytes (as ++ bs) = sumBytes as + sumBytes bs := by
  have key : ∀ (bs : List UInt8) (a : UInt8),
      bs.foldl (fun sum b => sum + b) a = a + sumBytes bs := by
    intro bs
    induction bs with
    | nil => simp [sumBytes]
    | cons b bs ih =>
        intro a
        have hsum : sumBytes (b :: bs) = b + sumBytes bs := by
          rw [sumBytes, List.foldl_cons, UInt8.zero_add]
          exact ih b
        rw [List.foldl_cons, ih, hsum, UInt8.add_assoc]
  rw [sumBytes, List.foldl_append, key]
  rfl

theorem sumBytes_zeros (n : Nat) : sumBytes (List.replicate n 0) = 0 := by
  induction n with
  | zero => rfl
  | succ n ih =>
      rw [List.replicate_succ', sumBytes_append, ih]
      rfl

/-- The checksum byte lies behind the bytes that are summed. -/
theorem checkSum_setCheckSum (m : LcMsg) : checkSum (setCheckSum m) = checkSum m := by
  unfold checkSum setCheckSum
  rw [Buf.take_write_of_le _ _ (Nat.le_refl _)]

/-- Whatever the message, `SetCheckSum` makes it one that `CheckCheckSum` accepts. -/
theorem checkCheckSum_setCheckSum (m : LcMsg) : checkCheckSum (setCheckSum m) = true := by
  have hbyte : (setCheckSum m).bytes.getD sizeofMsg 0 = checkSum m := by
    rw [List.getD_eq_getElem?_getD, ← Nat.add_zero sizeofMsg, ← List.getElem?_drop, setCheckSum,
      Buf.drop_write_self]
    rfl
  rw [checkCheckSum, checkSum_setCheckSum, hbyte]
  exact decide_eq_true rfl

/-! ## 3. One wrong byte -/

/-- Of the bytes that the checksum is over and the checksum itself, exactly one is
    another. -/
def DiffersInOneByte (m m' : LcMsg) : Prop :=
  ∃ i < sizeofMsg + 1, m'.bytes.getD i 0 ≠ m.bytes.getD i 0 ∧
    ∀ j < sizeofMsg + 1, j ≠ i → m'.bytes.getD j 0 = m.bytes.getD j 0

/-- Two lists that differ in one byte have different sums. -/
theorem sumBytes_ne (before after : List UInt8) {b b' : UInt8} (h : b' ≠ b) :
    sumBytes (before ++ b' :: after) ≠ sumBytes (before ++ b :: after) := by
  intro hsum
  apply h
  have hcons : ∀ c : UInt8, sumBytes (c :: after) = c + sumBytes after := by
    intro c
    rw [← List.singleton_append, sumBytes_append]
    congr 1
    exact UInt8.zero_add c
  rw [sumBytes_append, sumBytes_append, hcons, hcons] at hsum
  have hrest := (UInt8.add_right_inj _).mp hsum
  exact (UInt8.add_left_inj _).mp hrest

theorem length_bytes (m : LcMsg) : m.bytes.length = 272 := m.size

/-- The bytes of the struct, cut at one of them. -/
theorem take_sizeofMsg_eq (m : LcMsg) {i : Nat} (hi : i < sizeofMsg) :
    m.bytes.take sizeofMsg = (m.bytes.take sizeofMsg).take i ++
      m.bytes.getD i 0 :: (m.bytes.take sizeofMsg).drop (i + 1) := by
  have hlen : i < (m.bytes.take sizeofMsg).length := by
    rw [List.length_take, length_bytes]
    exact Nat.lt_min.mpr ⟨hi, Nat.lt_trans hi (by decide)⟩
  have hbyte : (m.bytes.take sizeofMsg)[i] = m.bytes.getD i 0 := by
    rw [List.getElem_take, List.getD_eq_getElem?_getD, List.getElem?_eq_getElem]
    rfl
  rw [← hbyte, List.getElem_cons_drop, List.take_append_drop]

theorem getElem?_take_sizeofMsg (m : LcMsg) {j : Nat} (hj : j < sizeofMsg) :
    (m.bytes.take sizeofMsg)[j]? = some (m.bytes.getD j 0) := by
  have hlen : j < m.bytes.length := by
    rw [length_bytes]
    exact Nat.lt_trans hj (by decide)
  rw [List.getElem?_take_of_lt hj, List.getD_eq_getElem?_getD, List.getElem?_eq_getElem hlen]
  rfl

/-- The struct is the same when each of its bytes is. -/
theorem take_sizeofMsg_congr {m m' : LcMsg}
    (h : ∀ j < sizeofMsg, m'.bytes.getD j 0 = m.bytes.getD j 0) :
    m'.bytes.take sizeofMsg = m.bytes.take sizeofMsg := by
  apply List.ext_getElem?
  intro j
  by_cases hj : j < sizeofMsg
  · rw [getElem?_take_sizeofMsg m' hj, getElem?_take_sizeofMsg m hj, h j hj]
  · rw [List.getElem?_take_eq_none (Nat.not_lt.mp hj),
        List.getElem?_take_eq_none (Nat.not_lt.mp hj)]

/-- A wrong byte in the struct changes the sum. -/
theorem checkSum_ne {m m' : LcMsg} {i : Nat} (hi : i < sizeofMsg)
    (hne : m'.bytes.getD i 0 ≠ m.bytes.getD i 0)
    (hsame : ∀ j < sizeofMsg + 1, j ≠ i → m'.bytes.getD j 0 = m.bytes.getD j 0) :
    checkSum m' ≠ checkSum m := by
  have hbefore : (m'.bytes.take sizeofMsg).take i = (m.bytes.take sizeofMsg).take i := by
    apply List.ext_getElem?
    intro j
    by_cases hj : j < i
    · have hjs : j < sizeofMsg := Nat.lt_trans hj hi
      rw [List.getElem?_take_of_lt hj, List.getElem?_take_of_lt hj,
        getElem?_take_sizeofMsg m' hjs, getElem?_take_sizeofMsg m hjs,
        hsame j (Nat.lt_succ_of_lt hjs) (Nat.ne_of_lt hj)]
    · rw [List.getElem?_take_eq_none (Nat.not_lt.mp hj),
        List.getElem?_take_eq_none (Nat.not_lt.mp hj)]
  have hafter : (m'.bytes.take sizeofMsg).drop (i + 1) =
      (m.bytes.take sizeofMsg).drop (i + 1) := by
    apply List.ext_getElem?
    intro j
    rw [List.getElem?_drop, List.getElem?_drop]
    by_cases hj : i + 1 + j < sizeofMsg
    · rw [getElem?_take_sizeofMsg m' hj, getElem?_take_sizeofMsg m hj,
        hsame _ (Nat.lt_succ_of_lt hj) (by omega)]
    · rw [List.getElem?_take_eq_none (Nat.not_lt.mp hj),
        List.getElem?_take_eq_none (Nat.not_lt.mp hj)]
  unfold checkSum
  rw [take_sizeofMsg_eq m' hi, take_sizeofMsg_eq m hi, hbefore, hafter]
  exact sumBytes_ne _ _ hne

/-- `SetCheckSum` leaves the struct alone and makes a message that `CheckCheckSum` accepts,
    and one that arrives with one byte wrong, wherever it is, is refused. -/
theorem checkCheckSum_detects_one_byte (m m' : LcMsg) :
    (setCheckSum m).bytes.take sizeofMsg = m.bytes.take sizeofMsg ∧
      checkCheckSum (setCheckSum m) = true ∧
      (DiffersInOneByte (setCheckSum m) m' → checkCheckSum m' = false) := by
  refine ⟨Buf.take_write_of_le _ _ (Nat.le_refl _), checkCheckSum_setCheckSum m, ?_⟩
  rintro ⟨i, hi, hne, hsame⟩
  have hok : checkSum (setCheckSum m) = (setCheckSum m).bytes.getD sizeofMsg 0 :=
    of_decide_eq_true (checkCheckSum_setCheckSum m)
  apply decide_eq_false
  intro hsum
  rcases Nat.lt_or_eq_of_le (Nat.le_of_lt_succ hi) with hi' | rfl
  · -- the byte is one of the struct, and the checksum is the old one
    apply checkSum_ne hi' hne hsame
    rw [hsum, hok]
    exact hsame sizeofMsg (Nat.lt_succ_self _) (Ne.symm (Nat.ne_of_lt hi'))
  · -- the byte is the checksum, and the sum is the old one
    have htake := take_sizeofMsg_congr
      fun j hj => hsame j (Nat.lt_succ_of_lt hj) (Nat.ne_of_lt hj)
    have hold : checkSum m' = checkSum (setCheckSum m) := by
      unfold checkSum
      rw [htake]
    apply hne
    rw [← hsum, hold, hok]

/-- Another byte in one place makes such a message. -/
theorem differsInOneByte_write (m : LcMsg) {i : Nat} (hi : i < sizeofMsg + 1) {b : UInt8}
    (hb : b ≠ m.bytes.getD i 0) (h : i + [b].length ≤ sizeofLcMsg) :
    DiffersInOneByte m (m.write i [b] h) := by
  have htake := Buf.take_write_of_le m h (Nat.le_refl i)
  have hdrop := Buf.drop_write_self m h
  have hbyte : ∀ j, (m.write i [b] h).bytes[j]? = if j = i then some b else m.bytes[j]? := by
    intro j
    rcases Nat.lt_trichotomy j i with hlt | rfl | hgt
    · rw [if_neg (Nat.ne_of_lt hlt), ← List.getElem?_take_of_lt hlt, htake,
        List.getElem?_take_of_lt hlt]
    · have hhead : ((m.write j [b] h).bytes.drop j)[0]? = some b := by
        rw [hdrop]
        rfl
      rw [List.getElem?_drop, Nat.add_zero] at hhead
      rw [if_pos rfl, hhead]
    · obtain ⟨k, rfl⟩ := Nat.exists_eq_add_of_lt hgt
      rw [if_neg (Nat.ne_of_gt hgt), Nat.add_assoc, ← List.getElem?_drop, hdrop,
        List.singleton_append, List.getElem?_cons_succ, List.getElem?_drop, List.length_singleton,
        Nat.add_right_comm, Nat.add_assoc]
  refine ⟨i, hi, ?_, ?_⟩
  · rw [List.getD_eq_getElem?_getD, hbyte, if_pos rfl]
    exact hb
  · intro j _ hne
    rw [List.getD_eq_getElem?_getD, hbyte, if_neg hne, ← List.getD_eq_getElem?_getD]

/-- An empty message whose thirteenth byte arrives as a one. -/
theorem checkCheckSum_detects_one_byte_in_empty :
    checkCheckSum (setCheckSum (Buf.zero sizeofLcMsg)) = true ∧
      checkCheckSum ((setCheckSum (Buf.zero sizeofLcMsg)).write 12 [1] (by decide)) = false := by
  have h := checkCheckSum_detects_one_byte (Buf.zero sizeofLcMsg)
    ((setCheckSum (Buf.zero sizeofLcMsg)).write 12 [1] (by decide))
  exact ⟨h.2.1, h.2.2 (differsInOneByte_write _ (by decide) (by decide +kernel) _)⟩

end SocketPractice.SocketUdp
