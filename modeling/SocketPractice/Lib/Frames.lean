import SocketPractice.Lib.Bytes

/-!
# Frames on a byte stream

A stream takes bytes at one end and gives them out at the other, in pieces of any size.  Who
puts blocks of one size on it, and takes off as many bytes each time, gets the blocks back.

A flow compares what has come out of a stage with what has gone in: nothing is added, doubled
or put in another order, and nothing is lost either where the stage is exact.
-/

namespace Lib.Frames

open Lib.Bytes

/-! ## 1. Frames -/

section Frames

variable {n : Nat}

def framed (ms : List (Buf n)) : List UInt8 := (ms.map Buf.bytes).flatten

@[simp] theorem framed_nil : framed ([] : List (Buf n)) = [] := rfl

@[simp] theorem framed_cons (m : Buf n) (ms : List (Buf n)) :
    framed (m :: ms) = m.bytes ++ framed ms := rfl

@[simp] theorem framed_append (ms ms' : List (Buf n)) :
    framed (ms ++ ms') = framed ms ++ framed ms' := by
  rw [framed, framed, framed, List.map_append, List.flatten_append]

/-- What a receive leaves on the stream. -/
def takeOff (stream : List UInt8) : RecvRet n → Option (List UInt8)
  | .data c => if c.bytes <+: stream then some (stream.drop c.bytes.length) else none
  | _ => some stream

/-- The receive got a whole block, if it got anything. -/
def IsBlock : RecvRet n → Prop
  | .data c => c.bytes.length = n
  | _ => True

instance : DecidablePred (IsBlock (n := n))
  | .data c => inferInstanceAs (Decidable (c.bytes.length = n))
  | .error => isTrue trivial
  | .eof => isTrue trivial

/-- A whole receive gets the first frame. -/
theorem takeOff_framed {ms : List (Buf n)} {c : Chunk n} {rest : List UInt8}
    (hwhole : IsBlock (.data c)) (h : takeOff (framed ms) (.data c) = some rest) :
    ∃ m ms', ms = m :: ms' ∧ c.whole = some m ∧ rest = framed ms' := by
  simp only [takeOff, Option.ite_none_right_eq_some, Option.some.injEq] at h
  obtain ⟨⟨behind, hbehind⟩, rfl⟩ := h
  have hlen : c.bytes.length = n := hwhole
  cases ms with
  | nil =>
      have hpos := c.pos
      have hnil := congrArg List.length hbehind
      rw [framed_nil, List.length_append, List.length_nil] at hnil
      omega
  | cons m ms' =>
      have hsame : c.bytes.length = m.bytes.length := hlen.trans m.size.symm
      obtain ⟨hbytes, -⟩ := List.append_inj hbehind hsame
      refine ⟨m, ms', rfl, ?_, ?_⟩
      · rw [Chunk.whole, dif_pos hlen]
        exact congrArg some (Buf.ext hbytes)
      · rw [framed_cons, hsame, List.drop_left]

/-- What some sends put on the stream: each comes with how many bytes of its block it took. -/
def onto (sends : List (Buf n × Nat)) : List UInt8 := sends.flatMap fun s => s.1.bytes.take s.2

/-- The blocks of the sends that took something. -/
def delivered (sends : List (Buf n × Nat)) : List (Buf n) :=
  (sends.filter fun s => s.2 ≠ 0).map Prod.fst

theorem onto_eq_framed {sends : List (Buf n × Nat)} (h : ∀ s ∈ sends, s.2 = 0 ∨ s.2 = n) :
    onto sends = framed (delivered sends) := by
  induction sends with
  | nil => rfl
  | cons s sends ih =>
      obtain ⟨hs, hsends⟩ := List.forall_mem_cons.mp h
      have hrest : onto (s :: sends) = s.1.bytes.take s.2 ++ framed (delivered sends) := by
        rw [← ih hsends]
        rfl
      rw [hrest]
      by_cases hzero : s.2 = 0
      · simp [delivered, hzero]
      · have hall : s.1.bytes.length ≤ s.2 :=
          Nat.le_of_eq (s.1.size.trans (hs.resolve_left hzero).symm)
        rw [List.take_of_length_le hall]
        simp [delivered, hzero]

theorem delivered_sublist (sends : List (Buf n × Nat)) :
    (delivered sends).Sublist (sends.map Prod.fst) :=
  List.filter_sublist.map Prod.fst

theorem delivered_of_pos {sends : List (Buf n × Nat)} (h : ∀ s ∈ sends, s.2 ≠ 0) :
    delivered sends = sends.map Prod.fst := by
  rw [delivered, List.filter_eq_self.mpr (by simpa using h)]

end Frames

/-! ## 2. Flows -/

section Flows

variable {α : Type} {exact : Prop} {xs ys xs' ys' : List α}

/-- `xs` came out where `ys` went in. -/
def Flow (exact : Prop) (xs ys : List α) : Prop := xs.Sublist ys ∧ (exact → xs = ys)

theorem Flow.refl (xs : List α) : Flow exact xs xs := ⟨List.Sublist.refl xs, fun _ => rfl⟩

theorem Flow.append (h : Flow exact xs ys) (h' : Flow exact xs' ys') :
    Flow exact (xs ++ xs') (ys ++ ys') :=
  ⟨h.1.append h'.1, fun he => congrArg₂ (· ++ ·) (h.2 he) (h'.2 he)⟩

theorem Flow.filter (h : Flow exact xs ys) (keep : α → Bool) :
    Flow exact (xs.filter keep) (ys.filter keep) :=
  ⟨h.1.filter keep, fun he => congrArg (List.filter keep) (h.2 he)⟩

end Flows

end Lib.Frames
