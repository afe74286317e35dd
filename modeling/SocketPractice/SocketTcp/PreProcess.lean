import SocketPractice.Lib.Bytes

/-!
# Messages of the `socket_tcp` programs (`pre_process.h`)

`MsgBuf` is three integers and 1024 bytes, without padding.  Each program has two
of them in one block, `RX_BUF` and behind it `TX_BUF`, which `GetMsgBuf` hands out
to every caller and every thread.
-/

namespace SocketPractice.SocketTcp

open Lib.Bytes

/-- `EndID`, a `pid_t`. -/
abbrev EndID := Int32

def SERVER_ENDID : EndID := 0

def MAX_MSG_LEN : Nat := 1024

/-- What a `read` from the terminal of at most `MAX_MSG_LEN` bytes returned. -/
structure Typed where
  bytes : List UInt8
  le : bytes.length ≤ MAX_MSG_LEN
deriving DecidableEq

inductive MsgType where
  | PROCESS_MSG
  | SAVE_CLI_INFO
  | OTHER_MSGTYPE
deriving DecidableEq, Repr

def MsgType.code : MsgType → UInt32
  | .PROCESS_MSG => 0
  | .SAVE_CLI_INFO => 1
  | .OTHER_MSGTYPE => 2

/-- `sizeof(MsgBuf)`. -/
def sizeofMsgBuf : Nat := 1036

abbrev MsgBuf := Buf sizeofMsgBuf

namespace MsgBuf

/-- Any 32-bit value can come off the wire. -/
def msgType (b : MsgBuf) : UInt32 := b.get32 0
def srcEndID (b : MsgBuf) : EndID := (b.get32 4).toInt32
def destEndID (b : MsgBuf) : EndID := (b.get32 8).toInt32

/-- The bytes of `msg`, up to the end of the structure. -/
def msg (b : MsgBuf) : List UInt8 := b.bytes.drop 12

def setMsgType (b : MsgBuf) (t : MsgType) : MsgBuf := b.put32 0 t.code (by decide)
def setSrcEndID (b : MsgBuf) (id : EndID) : MsgBuf := b.put32 4 id.toUInt32 (by decide)
def setDestEndID (b : MsgBuf) (id : EndID) : MsgBuf := b.put32 8 id.toUInt32 (by decide)

/-- Store bytes at the start of `msg`, as `read`, `memset` and `memcpy` do. -/
def setMsg (b : MsgBuf) (bytes : List UInt8) (h : bytes.length ≤ MAX_MSG_LEN) : MsgBuf :=
  b.write 12 bytes (by simp only [sizeofMsgBuf, MAX_MSG_LEN] at *; omega)

theorem length_msg (b : MsgBuf) : b.msg.length = MAX_MSG_LEN := by
  have := b.size
  simp only [msg, List.length_drop, sizeofMsgBuf, MAX_MSG_LEN] at *
  omega

@[simp] theorem msg_setMsgType (b : MsgBuf) (t : MsgType) : (b.setMsgType t).msg = b.msg :=
  Buf.drop_put32_of_le b _ _ (by decide)

@[simp] theorem msg_setSrcEndID (b : MsgBuf) (id : EndID) : (b.setSrcEndID id).msg = b.msg :=
  Buf.drop_put32_of_le b _ _ (by decide)

@[simp] theorem msg_setDestEndID (b : MsgBuf) (id : EndID) : (b.setDestEndID id).msg = b.msg :=
  Buf.drop_put32_of_le b _ _ (by decide)

theorem take_setMsg (b : MsgBuf) {bytes : List UInt8} (h : bytes.length ≤ MAX_MSG_LEN) {k : Nat}
    (hk : k ≤ 12) : (b.setMsg bytes h).bytes.take k = b.bytes.take k :=
  b.take_write_of_le _ hk

theorem msgType_congr {a b : MsgBuf} (h : a.bytes.take 4 = b.bytes.take 4) :
    a.msgType = b.msgType := Buf.get32_congr h

/-- The last byte of the structure is the last one of `msg`. -/
theorem getLast?_msg (b : MsgBuf) : b.msg.getLast? = b.bytes.getLast? := by
  rw [msg, List.getLast?_drop, if_neg (by rw [b.size]; decide)]

/-- The new bytes, and behind them what was there. -/
theorem msg_setMsg (b : MsgBuf) {bytes : List UInt8} (h : bytes.length ≤ MAX_MSG_LEN) :
    (b.setMsg bytes h).msg = bytes ++ b.msg.drop bytes.length := by
  rw [msg, setMsg, Buf.drop_write_self, msg, List.drop_drop]

theorem msg_setMsg_full (b : MsgBuf) {bytes : List UInt8} (h : bytes.length = MAX_MSG_LEN) :
    (b.setMsg bytes (Nat.le_of_eq h)).msg = bytes := by
  rw [msg_setMsg, List.drop_of_length_le (Nat.le_of_eq (b.length_msg.trans h.symm)),
    List.append_nil]

end MsgBuf

/-- `memset(msg, 0, MAX_MSG_LEN)`. -/
def zeroMsg : List UInt8 := List.replicate MAX_MSG_LEN 0

@[simp] theorem length_zeroMsg : zeroMsg.length = MAX_MSG_LEN := by simp [zeroMsg]

def MsgBuf.clearMsg (b : MsgBuf) : MsgBuf := b.setMsg zeroMsg (by simp)

@[simp] theorem MsgBuf.msg_clearMsg (b : MsgBuf) : b.clearMsg.msg = zeroMsg :=
  b.msg_setMsg_full length_zeroMsg

def MsgBuf.chunk (b : MsgBuf) : Chunk sizeofMsgBuf where
  bytes := b.bytes
  pos := by rw [b.size]; decide
  le := Nat.le_of_eq b.size

/-- A message for the server, of 1024 `A`s. -/
def serverMsg : MsgBuf :=
  MsgBuf.setMsg (Buf.zero sizeofMsgBuf) (List.replicate MAX_MSG_LEN 65)
    (Nat.le_of_eq List.length_replicate)

end SocketPractice.SocketTcp
