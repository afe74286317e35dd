import SocketPractice.Common.ListQueue
import SocketPractice.Lib.Fifo
import SocketPractice.Lib.Runs
import SocketPractice.Socket.SockMsg

/-!
# The message queue (`msg_queue.c`)

`en_msg_to_queue` links the new node in with `list_add`, and `de_msg_from_queue`
takes the node after the head.  The queue is therefore a stack: the results of any
sequence of calls are those of `Lib.Fifo.lifo`, and they are those of a first-in
first-out queue exactly as long as no dequeue finds two messages outstanding.

The queue copies a message as a whole and looks at nothing in it, so its code is
generic here.  In a sequence of calls every message is queued with the number of
its enqueue, which tells apart two messages with the same bytes.
-/

namespace SocketPractice.Socket

open Lib.Bytes Lib.Links Lib.Runs Lib.Fifo Common

/-! ## 1. The code -/

section Code

variable {μ : Type}

/-- `init_msg_queue`, with `queue` the address `malloc` returned. -/
def initMsgQueue (h : Heap μ) (queue : Addr) : Heap μ := initListHead h queue

def enMsgToQueue (h : Heap μ) (node : Addr) (msgQueue : Option Addr) (msgPackage : Option μ) :
    Option (Heap μ × QueueRet) :=
  enToQueue listAdd h node msgQueue msgPackage

def deMsgFromQueue (h : Heap μ) (msgQueue : Option Addr) (want : Bool) :
    Option (Heap μ × QueueRet × Option μ) :=
  deFromQueue h msgQueue want

end Code

/-! ## 2. Sequences of calls -/

/-- A message with its history: the number of the call that enqueued it. -/
structure Sent where
  id : Nat
  msg : LcMsgPackage
deriving DecidableEq

/-- A call, with the address `malloc` returns in it. -/
inductive MsgQueueCall where
  | en (msg : LcMsgPackage) (node : Addr)
  | de
deriving DecidableEq

/-- What a call returned: its code and the message it copied out, or `none` when
    it touched memory that is not allocated. -/
abbrev MsgQueueRet := Option (QueueRet × Option Sent)

structure MsgQueueState where
  heap : Heap Sent
  queue : Addr
  nextId : Nat
  results : List MsgQueueRet

/-- One call.  It is enabled when the address it was given is one `malloc` can
    return, that is, not in use. -/
def msgQueueStep (s : MsgQueueState) : MsgQueueCall → Option MsgQueueState
  | .en msg node =>
      if s.heap node = none then
        match enMsgToQueue s.heap node (some s.queue) (some ⟨s.nextId, msg⟩) with
        | some (h, ret) => some { s with
            heap := h, nextId := s.nextId + 1, results := s.results ++ [some (ret, none)] }
        | none => some { s with results := s.results ++ [none] }
      else none
  | .de =>
      match deMsgFromQueue s.heap (some s.queue) true with
      | some (h, ret, msg) => some { s with heap := h, results := s.results ++ [some (ret, msg)] }
      | none => some { s with results := s.results ++ [none] }

def newMsgQueue (queue : Addr) : MsgQueueState :=
  { heap := initMsgQueue Heap.empty queue, queue := queue, nextId := 0, results := [] }

/-! ## 3. The queue is a stack -/

/-- The abstract calls behind the calls of the code, the first enqueue having the
    number `n`. -/
def sent (n : Nat) : List MsgQueueCall → List (Call Sent)
  | [] => []
  | .en msg _ :: calls => .put ⟨n, msg⟩ :: sent (n + 1) calls
  | .de :: calls => .take :: sent n calls

theorem le_id_of_mem_puts {n : Nat} {calls : List MsgQueueCall} {m : Sent}
    (hm : m ∈ puts (sent n calls)) : n ≤ m.id := by
  induction calls generalizing n with
  | nil => simp [sent, puts] at hm
  | cons c calls ih =>
      cases c with
      | en msg node =>
          rcases List.mem_cons.mp hm with hm | hm
          · subst hm
            exact Nat.le_refl n
          · exact Nat.le_of_succ_le (ih hm)
      | de => exact ih hm

/-- The enqueued messages are pairwise different, whatever their bytes. -/
theorem nodup_puts_sent (n : Nat) (calls : List MsgQueueCall) :
    (puts (sent n calls)).Nodup := by
  induction calls generalizing n with
  | nil => exact List.nodup_nil
  | cons c calls ih =>
      cases c with
      | en msg node =>
          apply List.nodup_cons.mpr
          constructor
          · intro hmem
            apply Nat.not_succ_le_self n
            exact le_id_of_mem_puts hmem
          · exact ih (n + 1)
      | de => exact ih n

/-- The code's way of reporting an abstract result. -/
def msgQueueRet : Result Sent → MsgQueueRet
  | .stored => some (.QUEUE_SUCCESS, none)
  | .got msg => some (.QUEUE_SUCCESS, some msg)
  | .empty => some (.QUEUE_EMPTY, none)

/-- From a queue that holds `msgs` in list order, the calls return what a stack
    with these messages returns. -/
theorem msg_queue_lifo {s t : MsgQueueState} {msgs : List Sent} {calls : List MsgQueueCall}
    (hh : Holds s.heap s.queue msgs) (hrun : exec msgQueueStep s calls = some t) :
    t.results = s.results ++ (lifo msgs (sent s.nextId calls)).map msgQueueRet := by
  induction calls generalizing s msgs with
  | nil =>
      simp only [exec_nil, Option.some.injEq] at hrun
      subst hrun
      cases msgs <;> simp [sent, lifo]
  | cons c calls ih =>
      rcases exec_cons_eq_some.mp hrun with ⟨u, hu, hrest⟩
      cases c with
      | en msg node =>
          simp only [msgQueueStep] at hu
          by_cases hfresh : s.heap node = none
          · rcases enToQueue_listAdd hh hfresh ⟨s.nextId, msg⟩ with ⟨h', heq, hh', -⟩
            rw [if_pos hfresh] at hu
            simp only [enMsgToQueue, heq, Option.some.injEq] at hu
            subst hu
            rw [ih hh' hrest]
            cases msgs <;> simp [sent, lifo, msgQueueRet]
          · rw [if_neg hfresh] at hu
            cases hu
      | de =>
          rcases msgs with _ | ⟨msg, msgs⟩
          · simp only [msgQueueStep, deMsgFromQueue, deFromQueue_nil hh,
              Option.some.injEq] at hu
            subst hu
            rw [ih (s := { s with results := s.results ++ [some (.QUEUE_EMPTY, none)] })
              hh hrest]
            simp [sent, lifo, msgQueueRet]
          · rcases deFromQueue_cons hh true with ⟨h', node, heq, hh', -, -⟩
            simp only [msgQueueStep, deMsgFromQueue, heq, if_true, Option.some.injEq] at hu
            subst hu
            rw [ih hh' hrest]
            simp [sent, lifo, msgQueueRet]

theorem newMsgQueue_holds (queue : Addr) :
    Holds (newMsgQueue queue).heap (newMsgQueue queue).queue [] :=
  ⟨[], initListHead_circular _ _, rfl⟩

theorem msgQueueRet_injective : Function.Injective msgQueueRet := by
  intro a b heq
  cases a <;> cases b <;> simp_all [msgQueueRet]

/-! ## 4. When it is first-in first-out -/

/-- The calls return what a first-in first-out queue returns if and only if no
    `de_msg_from_queue` is made while two or more messages are outstanding. -/
theorem msg_queue_fifo_iff_at_most_one (queue : Addr) (calls : List MsgQueueCall)
    (s : MsgQueueState) (hrun : exec msgQueueStep (newMsgQueue queue) calls = some s) :
    s.results = (fifo [] (sent 0 calls)).map msgQueueRet ↔ AtMostOne 0 (sent 0 calls) := by
  have hlifo : s.results = (lifo [] (sent 0 calls)).map msgQueueRet :=
    msg_queue_lifo (newMsgQueue_holds queue) hrun
  constructor
  · intro hfifo
    have hsame := List.map_injective_iff.mpr msgQueueRet_injective (hlifo.symm.trans hfifo)
    exact atMostOne_of_lifo_eq_fifo (q := []) (nodup_puts_sent 0 calls) hsame
  · intro hone
    rw [hlifo]
    exact congrArg (List.map msgQueueRet) (lifo_eq_fifo (q := []) hone)

def msgFrom (id : EndId) : LcMsgPackage := LcMsgPackage.setSrcid (Buf.zero sizeofLcMsgPackage) id

/-- Two enqueues and a dequeue: the newer message comes out first. -/
theorem msg_queue_not_fifo :
    ∃ s, exec msgQueueStep (newMsgQueue 1)
        [.en (msgFrom 1) 2, .en (msgFrom 2) 3, .de] = some s ∧
      s.results ≠ (fifo [] (sent 0 [.en (msgFrom 1) 2, .en (msgFrom 2) 3, .de])).map
        msgQueueRet := by
  obtain ⟨s, hs⟩ : ∃ s, exec msgQueueStep (newMsgQueue 1)
      [.en (msgFrom 1) 2, .en (msgFrom 2) 3, .de] = some s := ⟨_, rfl⟩
  refine ⟨s, hs, ?_⟩
  rw [msg_queue_lifo (newMsgQueue_holds 1) hs]
  decide +kernel

theorem msg_queue_fifo_one_outstanding :
    ∃ s, exec msgQueueStep (newMsgQueue 1) [.en (msgFrom 1) 2, .de, .en (msgFrom 2) 3] = some s ∧
      s.results = (fifo [] (sent 0 [.en (msgFrom 1) 2, .de, .en (msgFrom 2) 3])).map
        msgQueueRet := by
  obtain ⟨s, hs⟩ : ∃ s, exec msgQueueStep (newMsgQueue 1)
      [.en (msgFrom 1) 2, .de, .en (msgFrom 2) 3] = some s := ⟨_, rfl⟩
  exact ⟨s, hs, (msg_queue_fifo_iff_at_most_one 1 _ s hs).mpr (by decide)⟩

end SocketPractice.Socket
