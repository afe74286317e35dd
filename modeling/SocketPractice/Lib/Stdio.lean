import SocketPractice.Lib.Memory

/-!
# Streams and files

The open streams of a program, with what each of them is open for.  `NULL` and a stream
that is closed may not be used: what is done with a stream is an `Option`.

A disk holds a text for each file.  What is printed to a stream waits in its buffer, until a
flush writes it: at the end of the file if the stream is open for appending, and else where
the stream has got to.  That is the end of the file too, as long as no other stream writes
to it.
-/

namespace Lib.Stdio

open Lib.Memory

/-! ## 1. The streams that are open -/

abbrev Streams (φ : Type) := Store φ

variable {φ : Type}

namespace Streams

/-- `fopen` returned `answer`: a new stream, or `NULL`. -/
def fopen (m : Streams φ) (file : φ) (answer : Ptr) : Streams φ := Store.malloc m answer file

/-- `freopen` closes the stream first, and leaves it closed if the file cannot be
    opened. -/
def freopen (m : Streams φ) (file : φ) (fp : Ptr) (opened : Bool) : Option (Streams φ) :=
  fp.bind fun a => (m a).map fun _ => Function.update m a (if opened then some file else none)

/-- What `fprintf` and `fflush` need. -/
def write (m : Streams φ) (fp : Ptr) : Option Unit := (Store.load m fp).map fun _ => ()

def fclose (m : Streams φ) (fp : Ptr) : Option (Streams φ) :=
  fp.bind fun a => (m a).map fun _ => Function.update m a none

variable {m : Streams φ} {a : Addr} {file old : φ}

@[simp] theorem fopen_some : fopen m file (some a) = Function.update m a (some file) := rfl

@[simp] theorem fopen_none : fopen m file none = m := rfl

@[simp] theorem freopen_none (opened : Bool) : freopen m file none opened = none := rfl

theorem freopen_eq (h : m a = some old) (opened : Bool) :
    freopen m file (some a) opened =
      some (Function.update m a (if opened then some file else none)) := by
  simp [freopen, h]

/-- A stream that is opened again for its own file. -/
theorem freopen_same (h : m a = some file) : freopen m file (some a) true = some m := by
  rw [freopen_eq h, if_pos rfl, ← h, Function.update_eq_self]

@[simp] theorem write_none : write m none = none := rfl

@[simp] theorem write_some : write m (some a) = (m a).map fun _ => () := rfl

theorem fclose_eq (h : m a = some old) :
    fclose m (some a) = some (Function.update m a none) := by
  simp [fclose, h]

end Streams

/-! ## 2. The files behind them -/

abbrev Disk (φ : Type) := φ → List Char

structure Stream (φ : Type) where
  file : φ
  append : Bool
  pos : Nat
  buffer : List Char
deriving DecidableEq

/-- A text with `new` written over it from `pos` on; a gap is filled with zeros. -/
def overwrite (old : List Char) (pos : Nat) (new : List Char) : List Char :=
  (old ++ List.replicate (pos - old.length) (Char.ofNat 0)).take pos ++ new ++
    old.drop (pos + new.length)

theorem overwrite_length (old new : List Char) : overwrite old old.length new = old ++ new := by
  simp [overwrite]

namespace Stream

/-- `fopen(file, "a+")`; the standard leaves open where `ftell` sees the stream at first. -/
def openAppend (file : φ) (start : Nat) : Stream φ := ⟨file, true, start, []⟩

/-- What `fopen` and `freopen` make of a file that they empty. -/
def openEmptied (file : φ) : Stream φ := ⟨file, false, 0, []⟩

def fprintf (st : Stream φ) (text : List Char) : Stream φ :=
  { st with buffer := st.buffer ++ text }

/-- The text of the file after `fflush`; a flush of nothing writes nothing. -/
def flushed (st : Stream φ) (old : List Char) : List Char :=
  if st.append ∨ st.buffer = [] then old ++ st.buffer else overwrite old st.pos st.buffer

/-- The stream after `fflush`; a flush of nothing moves nothing. -/
def fflush (st : Stream φ) (old : List Char) : Stream φ :=
  if st.buffer = [] then st
  else { st with
    pos := (if st.append then old.length else st.pos) + st.buffer.length
    buffer := [] }

/-- Where the next character will stand. -/
def ftell (st : Stream φ) (old : List Char) : Nat :=
  (if st.append ∧ st.buffer ≠ [] then old.length else st.pos) + st.buffer.length

/-- The stream writes at the end of its file. -/
def AtEnd (st : Stream φ) (old : List Char) : Prop := st.append = true ∨ st.pos = old.length

/-- Once its buffer is flushed, `ftell` sees the stream at the end of its file. -/
def Settled (st : Stream φ) (old : List Char) : Prop := st.buffer ≠ [] ∨ st.pos = old.length

variable {st : Stream φ} {old text : List Char}

@[simp] theorem fprintf_file : (st.fprintf text).file = st.file := rfl

@[simp] theorem fprintf_buffer : (st.fprintf text).buffer = st.buffer ++ text := rfl

@[simp] theorem fflush_file : (st.fflush old).file = st.file := by
  rw [fflush]
  split <;> rfl

@[simp] theorem fflush_buffer : (st.fflush old).buffer = [] := by
  rw [fflush]
  split
  · assumption
  · rfl

theorem AtEnd.fprintf (h : st.AtEnd old) (text : List Char) : (st.fprintf text).AtEnd old := h

/-- Nothing that is in the file already is overwritten. -/
theorem AtEnd.flushed_eq (h : st.AtEnd old) : st.flushed old = old ++ st.buffer := by
  rw [flushed]
  split
  · rfl
  · rename_i hwrite
    rw [h.resolve_left fun happend => hwrite (.inl happend), overwrite_length]

theorem AtEnd.fflush (h : st.AtEnd old) : (st.fflush old).AtEnd (st.flushed old) := by
  rw [h.flushed_eq, Stream.fflush]
  split
  · rename_i hempty
    rwa [hempty, List.append_nil]
  · rcases h with happend | hpos
    · exact .inl happend
    · refine .inr ?_
      show (if st.append then old.length else st.pos) + st.buffer.length = _
      rw [List.length_append, hpos, ite_self]

theorem Settled.fprintf (h : st.Settled old) (text : List Char) :
    (st.fprintf text).Settled old := by
  rcases h with hbuffer | hpos
  · exact .inl (List.append_ne_nil_of_left_ne_nil hbuffer text)
  · exact .inr hpos

/-- A flush of something leaves the stream at the end of the file, and so does one of nothing
    if it stood there. -/
theorem AtEnd.fflush_pos (h : st.AtEnd old) (hsettled : st.Settled old) :
    (st.fflush old).pos = (st.flushed old).length := by
  rw [h.flushed_eq, Stream.fflush]
  by_cases hempty : st.buffer = []
  · rw [if_pos hempty, hempty, List.append_nil]
    exact hsettled.resolve_left fun hne => hne hempty
  · rw [if_neg hempty, List.length_append]
    rcases h with happend | hpos
    · simp [happend]
    · simp [hpos]

theorem ftell_of_empty (hempty : st.buffer = []) : st.ftell old = st.pos := by
  simp [ftell, hempty]

end Stream

end Lib.Stdio
