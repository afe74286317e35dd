import Mathlib.Data.List.Basic

/-!
# Fixed-size byte buffers

A `Buf n` is a block of exactly `n` bytes, and a `Chunk n` is what one successful
receive into such a block delivers: at least one byte and at most `n`.  Both carry
their length as a field, so a copy never has to be checked for overrun.  Integers
are read and written in little-endian order.
-/

namespace Lib.Bytes

structure Buf (n : Nat) where
  bytes : List UInt8
  size : bytes.length = n
deriving DecidableEq

/-- What one successful receive into `n` bytes of space stores. -/
structure Chunk (n : Nat) where
  bytes : List UInt8
  pos : 0 < bytes.length
  le : bytes.length ≤ n
deriving DecidableEq

/-- What a receive into `n` bytes returns: an error, 0, or a positive count with the
    bytes. -/
inductive RecvRet (n : Nat) where
  | error
  | eof
  | data (c : Chunk n)
deriving DecidableEq

@[ext] theorem Buf.ext {n : Nat} {a b : Buf n} (h : a.bytes = b.bytes) : a = b := by
  cases a
  cases b
  cases h
  rfl

def le32 (v : UInt32) : List UInt8 :=
  [v.toUInt8, (v >>> 8).toUInt8, (v >>> 16).toUInt8, (v >>> 24).toUInt8]

def ofLe32 (a b c d : UInt8) : UInt32 :=
  a.toUInt32 ||| (b.toUInt32 <<< 8) ||| (c.toUInt32 <<< 16) ||| (d.toUInt32 <<< 24)

@[simp] theorem length_le32 (v : UInt32) : (le32 v).length = 4 := rfl

theorem ofLe32_le32 (v : UInt32) :
    ofLe32 v.toUInt8 (v >>> 8).toUInt8 (v >>> 16).toUInt8 (v >>> 24).toUInt8 = v := by
  apply UInt32.toBitVec_inj.mp
  apply BitVec.eq_of_getLsbD_eq
  intro i hi
  have h8 : (8#32 % 32).toNat = 8 := by decide
  have h16 : (16#32 % 32).toNat = 16 := by decide
  have h24 : (24#32 % 32).toNat = 24 := by decide
  simp only [ofLe32, UInt32.toBitVec_or, UInt32.toBitVec_shiftLeft, UInt8.toBitVec_toUInt32,
    UInt32.toBitVec_toUInt8, UInt32.toBitVec_shiftRight, UInt32.toBitVec_ofNat,
    BitVec.shiftLeft_eq', BitVec.ushiftRight_eq', h8, h16, h24, BitVec.getLsbD_or,
    BitVec.getLsbD_shiftLeft, BitVec.getLsbD_setWidth, BitVec.getLsbD_ushiftRight, hi,
    decide_true, Bool.true_and]
  -- the byte that the bit is in
  have hbyte : i < 8 ∨ (8 ≤ i ∧ i < 16) ∨ (16 ≤ i ∧ i < 24) ∨ 24 ≤ i := by omega
  rcases hbyte with h | h | h | h
  · grind
  · grind
  · grind
  · grind

namespace Buf

variable {n : Nat}

def zero (n : Nat) : Buf n := ⟨List.replicate n 0, by simp⟩

def write (b : Buf n) (off : Nat) (src : List UInt8) (h : off + src.length ≤ n) : Buf n :=
  ⟨b.bytes.take off ++ src ++ b.bytes.drop (off + src.length), by
    have := b.size
    simp
    omega⟩

def slice (b : Buf n) (off len : Nat) : List UInt8 := (b.bytes.drop off).take len

def get32 (b : Buf n) (off : Nat) : UInt32 :=
  ofLe32 (b.bytes.getD off 0) (b.bytes.getD (off + 1) 0) (b.bytes.getD (off + 2) 0)
    (b.bytes.getD (off + 3) 0)

def put32 (b : Buf n) (off : Nat) (v : UInt32) (h : off + 4 ≤ n) : Buf n :=
  b.write off (le32 v) h

/-- Store a received chunk at the start, as `recv` into the whole buffer does. -/
def recv (b : Buf n) (c : Chunk n) : Buf n := b.write 0 c.bytes (by simpa using c.le)

theorem write_bytes (b : Buf n) (off : Nat) (src : List UInt8) (h : off + src.length ≤ n) :
    (b.write off src h).bytes =
      b.bytes.take off ++ src ++ b.bytes.drop (off + src.length) := rfl

/-- A write in the middle of known bytes. -/
theorem write_append (b : Buf n) (off : Nat) (src : List UInt8) {before old after : List UInt8}
    (h : off + src.length ≤ n) (hb : b.bytes = before ++ old ++ after)
    (hoff : before.length = off) (hold : old.length = src.length) :
    (b.write off src h).bytes = before ++ src ++ after := by
  have hlen : (before ++ old).length = off + src.length := by
    rw [List.length_append, hoff, hold]
  rw [write_bytes, hb, List.drop_left' hlen, List.append_assoc before old after,
    List.take_left' hoff]

/-- A write does not reach the bytes behind it. -/
theorem drop_write_of_le (b : Buf n) {off k : Nat} {src : List UInt8} (h : off + src.length ≤ n)
    (hk : off + src.length ≤ k) : (b.write off src h).bytes.drop k = b.bytes.drop k := by
  have hoff : (b.bytes.take off).length = off := by
    have := b.size
    rw [List.length_take]
    omega
  obtain ⟨d, rfl⟩ := Nat.exists_eq_add_of_le hk
  have hlen : (b.bytes.take off ++ src).length = off + src.length := by
    rw [List.length_append, hoff]
  rw [write_bytes, ← List.drop_drop, List.drop_left' hlen, List.drop_drop]

/-- From its start on, a write shows the new bytes and then the old ones. -/
theorem drop_write_self (b : Buf n) {off : Nat} {src : List UInt8} (h : off + src.length ≤ n) :
    (b.write off src h).bytes.drop off = src ++ b.bytes.drop (off + src.length) := by
  have hoff : (b.bytes.take off).length = off := by
    have := b.size
    rw [List.length_take]
    omega
  rw [write_bytes, List.append_assoc, List.drop_left' hoff]

theorem take_write_of_le (b : Buf n) {off k : Nat} {src : List UInt8} (h : off + src.length ≤ n)
    (hk : k ≤ off) : (b.write off src h).bytes.take k = b.bytes.take k := by
  have hoff : k ≤ (b.bytes.take off).length := by
    have := b.size
    rw [List.length_take]
    omega
  rw [write_bytes, List.append_assoc, List.take_append_of_le_length hoff, List.take_take,
    Nat.min_eq_left hk]

theorem drop_put32_of_le (b : Buf n) {off k : Nat} (v : UInt32) (h : off + 4 ≤ n)
    (hk : off + 4 ≤ k) : (b.put32 off v h).bytes.drop k = b.bytes.drop k :=
  b.drop_write_of_le (show off + (le32 v).length ≤ n from h) hk

theorem take_put32_of_le (b : Buf n) {off k : Nat} (v : UInt32) (h : off + 4 ≤ n)
    (hk : k ≤ off) : (b.put32 off v h).bytes.take k = b.bytes.take k :=
  b.take_write_of_le (show off + (le32 v).length ≤ n from h) hk

/-- What a receive leaves: the new bytes, then the old ones that it did not reach. -/
theorem recv_bytes (b : Buf n) (c : Chunk n) :
    (b.recv c).bytes = c.bytes ++ b.bytes.drop c.bytes.length := by
  simp [recv, write_bytes]

theorem recv_full (b : Buf n) (c : Chunk n) (hc : c.bytes.length = n) :
    (b.recv c).bytes = c.bytes := by
  rw [recv_bytes, List.drop_of_length_le (Nat.le_of_eq (b.size.trans hc.symm)), List.append_nil]

/-- Buffers that agree on their first bytes still do after the same receive. -/
theorem take_recv_congr {a b : Buf n} (c : Chunk n) {k : Nat}
    (h : a.bytes.take k = b.bytes.take k) :
    (a.recv c).bytes.take k = (b.recv c).bytes.take k := by
  rw [recv_bytes, recv_bytes, List.take_append, List.take_append, ← List.drop_take,
    ← List.drop_take, h]

/-- A receive that does not fill the buffer does not reach its last byte. -/
theorem getLast?_recv (b : Buf n) {c : Chunk n} (h : c.bytes.length < n) :
    (b.recv c).bytes.getLast? = b.bytes.getLast? := by
  have hlen : ¬ b.bytes.length ≤ c.bytes.length := by
    have := b.size
    omega
  have hdrop : (b.bytes.drop c.bytes.length).getLast? = b.bytes.getLast? := by
    rw [List.getLast?_drop, if_neg hlen]
  rw [recv_bytes, List.getLast?_append, hdrop]
  cases hlast : b.bytes.getLast? with
  | some x => rfl
  | none =>
      rw [List.getLast?_eq_none_iff] at hlast
      rw [hlast] at hlen
      exact absurd (Nat.zero_le _) hlen

theorem get32_put32 (b : Buf n) {off : Nat} (v : UInt32) (h : off + 4 ≤ n) :
    (b.put32 off v h).get32 off = v := by
  have hdrop : (b.put32 off v h).bytes.drop off = le32 v ++ b.bytes.drop (off + 4) :=
    b.drop_write_self (show off + (le32 v).length ≤ n from h)
  have hbyte : ∀ i, (b.put32 off v h).bytes.getD (off + i) 0 =
      (le32 v ++ b.bytes.drop (off + 4)).getD i 0 := by
    intro i
    rw [← hdrop, List.getD_eq_getElem?_getD, List.getD_eq_getElem?_getD, List.getElem?_drop]
  have hfirst := hbyte 0
  rw [Nat.add_zero] at hfirst
  rw [get32, hfirst, hbyte 1, hbyte 2, hbyte 3]
  exact ofLe32_le32 v

/-- The second of two writes to a place is the one that counts. -/
theorem put32_put32 (b : Buf n) {off : Nat} (v w : UInt32) (h : off + 4 ≤ n) :
    (b.put32 off v h).put32 off w h = b.put32 off w h := by
  have htake : (b.put32 off v h).bytes.take off = b.bytes.take off :=
    b.take_put32_of_le v h (Nat.le_refl off)
  have hdrop : (b.put32 off v h).bytes.drop (off + 4) = b.bytes.drop (off + 4) :=
    b.drop_put32_of_le v h (Nat.le_refl (off + 4))
  apply Buf.ext
  have hw : ∀ c : Buf n, (c.put32 off w h).bytes =
      c.bytes.take off ++ le32 w ++ c.bytes.drop (off + 4) := fun _ => rfl
  rw [hw, hw, htake, hdrop]

theorem get32_congr {a b : Buf n} {off : Nat}
    (h : a.bytes.take (off + 4) = b.bytes.take (off + 4)) : a.get32 off = b.get32 off := by
  have hbyte : ∀ i, i < off + 4 → a.bytes.getD i 0 = b.bytes.getD i 0 := by
    intro i hi
    rw [List.getD_eq_getElem?_getD, List.getD_eq_getElem?_getD, ← List.getElem?_take_of_lt hi, h,
      List.getElem?_take_of_lt hi]
  rw [get32, get32, hbyte off (by omega), hbyte (off + 1) (by omega), hbyte (off + 2) (by omega),
    hbyte (off + 3) (by omega)]

@[simp] theorem length_slice (b : Buf n) {off len : Nat} (h : off + len ≤ n) :
    (b.slice off len).length = len := by
  have := b.size
  simp [slice]
  omega

end Buf

def Chunk.whole {n : Nat} (c : Chunk n) : Option (Buf n) :=
  if h : c.bytes.length = n then some ⟨c.bytes, h⟩ else none

theorem Buf.recv_of_whole {n : Nat} {c : Chunk n} {m : Buf n} (b : Buf n)
    (h : c.whole = some m) : b.recv c = m := by
  unfold Chunk.whole at h
  split at h
  · rename_i hc
    cases h
    exact Buf.ext (b.recv_full c hc)
  · cases h

theorem Chunk.length_lt_of_whole {n : Nat} {c : Chunk n} (h : c.whole = none) :
    c.bytes.length < n := by
  unfold Chunk.whole at h
  split at h
  · cases h
  · exact Nat.lt_of_le_of_ne c.le (by assumption)

/-! ## Cutting a stream -/

/-- Blocks of one size are determined by their concatenation. -/
theorem eq_of_flatten_eq {n : Nat} (hn : 0 < n) {xs ys : List (List UInt8)}
    (hx : ∀ x ∈ xs, x.length = n) (hy : ∀ y ∈ ys, y.length = n)
    (h : xs.flatten = ys.flatten) : xs = ys := by
  induction xs generalizing ys with
  | nil =>
      rcases ys with _ | ⟨y, ys⟩
      · rfl
      · have hlen := congrArg List.length h
        have := hy y (by simp)
        simp only [List.flatten_nil, List.flatten_cons, List.length_append,
          List.length_nil] at hlen
        omega
  | cons x xs ih =>
      rcases ys with _ | ⟨y, ys⟩
      · have hlen := congrArg List.length h
        have := hx x (by simp)
        simp only [List.flatten_nil, List.flatten_cons, List.length_append,
          List.length_nil] at hlen
        omega
      · have hxy : x.length = y.length := (hx x (by simp)).trans (hy y (by simp)).symm
        obtain ⟨heq, hrest⟩ := List.append_inj h hxy
        rw [heq, ih (fun z hz => hx z (by simp [hz])) (fun z hz => hy z (by simp [hz])) hrest]

theorem length_flatten_bytes {n : Nat} (bs : List (Buf n)) :
    (bs.map Buf.bytes).flatten.length = n * bs.length := by
  induction bs with
  | nil => rfl
  | cons b bs ih =>
      rw [List.map_cons, List.flatten_cons, List.length_append, ih, b.size, List.length_cons,
        Nat.mul_succ, Nat.add_comm]

theorem length_flatten_le {n : Nat} {xs : List (List UInt8)} (hle : ∀ x ∈ xs, x.length ≤ n) :
    xs.flatten.length ≤ n * xs.length := by
  induction xs with
  | nil => simp
  | cons x xs ih =>
      have h1 := hle x (by simp)
      have h2 := ih fun w hw => hle w (by simp [hw])
      simp only [List.flatten_cons, List.length_append, List.length_cons, Nat.mul_add]
      omega

/-- `k` pieces of at most `n` bytes hold `n * k` bytes only if each is full. -/
theorem all_full_of_length {n : Nat} {xs : List (List UInt8)}
    (hle : ∀ x ∈ xs, x.length ≤ n) (hsum : n * xs.length ≤ xs.flatten.length) :
    ∀ x ∈ xs, x.length = n := by
  induction xs with
  | nil => simp
  | cons x xs ih =>
      have h1 := hle x (by simp)
      have h2 := length_flatten_le fun z hz => hle z (List.mem_cons_of_mem x hz)
      simp only [List.flatten_cons, List.length_append, List.length_cons, Nat.mul_add] at hsum
      intro z hz
      rcases List.mem_cons.mp hz with rfl | hz
      · omega
      · exact ih (fun w hw => hle w (by simp [hw])) (by omega) z hz

end Lib.Bytes
