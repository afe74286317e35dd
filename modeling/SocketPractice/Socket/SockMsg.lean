import SocketPractice.Lib.Bytes

/-!
# Messages of the `socket` programs (`sock_msg.h`, `pre_modules.h`)

`lc_msg_package_t` is a union of the message struct and a byte array that is one
byte longer; with the alignment of its integers it takes 528 bytes.  A value is
kept as these bytes, since that is what `send`, `recv` and the copies through the
queues move; the struct's fields are read at their offsets.
-/

namespace SocketPractice.Socket

open Lib.Bytes

def STDERR_FILENO : Int32 := 2

/-- `CHECK_FD` of `pre_modules.h`. -/
def checkFd (fd : Int32) : Bool := fd > STDERR_FILENO

/-- `endid_t`, a `pid_t`. -/
abbrev EndId := Int32

/-- `lc_msg_type_t`. -/
inductive LcMsgType where
  | SAVE_CLI_INFO
  | TCP_DATA
  | UDP_DATA
  | SRV_BROADCAST
deriving DecidableEq, Repr

def LcMsgType.code : LcMsgType → UInt32
  | .SAVE_CLI_INFO => 0
  | .TCP_DATA => 1
  | .UDP_DATA => 2
  | .SRV_BROADCAST => 3

def MSG_DATA_LEN : Nat := 512

/-- `sizeof(lc_msg_package_t)`: 12 bytes of integers, the data, the extra byte of
    `buf` and three bytes of padding. -/
def sizeofLcMsgPackage : Nat := 528

abbrev LcMsgPackage := Buf sizeofLcMsgPackage

namespace LcMsgPackage

/-- The field as it came off the wire: any 32-bit value, not only a member of the
    enumeration. -/
def msgType (m : LcMsgPackage) : UInt32 := m.get32 0
def srcid (m : LcMsgPackage) : EndId := (m.get32 4).toInt32
def destid (m : LcMsgPackage) : EndId := (m.get32 8).toInt32
def data (m : LcMsgPackage) : List UInt8 := m.slice 12 MSG_DATA_LEN

def setMsgType (m : LcMsgPackage) (t : LcMsgType) : LcMsgPackage := m.put32 0 t.code (by decide)
def setSrcid (m : LcMsgPackage) (id : EndId) : LcMsgPackage :=
  m.put32 4 id.toUInt32 (by decide)
def setDestid (m : LcMsgPackage) (id : EndId) : LcMsgPackage :=
  m.put32 8 id.toUInt32 (by decide)

end LcMsgPackage

end SocketPractice.Socket
