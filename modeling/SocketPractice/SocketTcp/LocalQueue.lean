import SocketPractice.SocketTcp.PreProcess
import SocketPractice.LibQueue.LinkQueue

/-!
# The message queue between two threads (`local_queue.c`)

The epoll thread of the server enqueues the messages it receives
(`ClientMsgEnQueue`), and the thread `SrvProMsg` dequeues them (`ProcessCliMsg`).
No lock is taken around `EnLinkQueue` and `DeLinkQueue`.  The producer writes at
the rear and the consumer at the front, and the node without data keeps the two
ends apart; but before it copies the message the producer also tests
`front->data`, and `front` is the node that the consumer is taking away.

A step is one C statement of one thread.
-/

namespace SocketPractice.SocketTcp

open Lib.Memory Lib.Raw Lib.Bytes Lib.Runs LibQueue LibQueue.LinkMemory

/-! ## 1. The two threads, statement by statement -/

/-- Where the producer is in `EnLinkQueue`: before the statement that is named. -/
inductive EnPc where
  | idle
  | testSize (data : Block)
  | mallocNode (data : Block)
  | testNode (data : Block) (linkNode : Ptr)
  | clearData (data : Block) (linkNode : Ptr)
  | clearNext (data : Block) (linkNode : Ptr)
  | testRear (data : Block) (linkNode : Ptr)
  | mallocData (data : Block) (linkNode : Ptr)
  | testData (data : Block) (linkNode : Ptr)
  /-- `if (data != NULL && linkQueue->front->data != NULL)`. -/
  | testFront (data : Block) (linkNode : Ptr)
  | copy (data : Block) (linkNode : Ptr)
  | setNext (data : Block) (linkNode : Ptr)
  | setRear (data : Block) (linkNode : Ptr)
  | ret (r : QueueRetValue)
deriving DecidableEq

/-- The statement at `pc`; `p` is what `malloc` returns in it. -/
def enStmt (m : LinkMemory) (linkQueue : Ptr) (dataSize : Nat) (p : Ptr) :
    EnPc → Option (LinkMemory × EnPc)
  | .idle => return (m, .idle)
  | .testSize data => do
      let q ← m.queues.load linkQueue
      return (m, if q.dataSize ≠ dataSize then .ret .RET_ERROR else .mallocNode data)
  | .mallocNode data => return (m.mallocNode p, .testNode data p)
  | .testNode data linkNode =>
      return (m, if linkNode = none then .ret .RET_ERROR else .clearData data linkNode)
  | .clearData data linkNode => return (← m.setData linkNode none, .clearNext data linkNode)
  | .clearNext data linkNode => return (← m.setNext linkNode none, .testRear data linkNode)
  | .testRear data linkNode => do
      let rear ← m.rear? linkQueue
      return (m, if rear.data = none then .mallocData data linkNode
        else .testFront data linkNode)
  | .mallocData data linkNode => do
      let q ← m.queues.load linkQueue
      let m := { m with blocks := m.blocks.malloc p (uninit q.dataSize) }
      return (← m.setData q.rear p, .testData data linkNode)
  | .testData data linkNode => do
      let rear ← m.rear? linkQueue
      return (m, if rear.data = none then .ret .RET_ERROR else .testFront data linkNode)
  | .testFront data linkNode =>
      return (m, if ← enTestFront m linkQueue (some data) then .copy data linkNode
        else .setNext data linkNode)
  | .copy data linkNode => return (← enCopy m linkQueue (some data), .setNext data linkNode)
  | .setNext data linkNode => do
      let q ← m.queues.load linkQueue
      return (← m.setNext q.rear linkNode, .setRear data linkNode)
  | .setRear _ linkNode => return (← m.setRear linkQueue linkNode, .ret .QUEUE_SUCCESS)
  | .ret _ => return (m, .idle)

/-- Where the consumer is in `DeLinkQueue`, with the caller's buffer and `tmp`. -/
inductive DePc where
  | idle
  | testSize (data : Block)
  | testEmpty (data : Block)
  | loadTmp (data : Block)
  | testData (data : Block) (tmp : Ptr)
  | copy (data : Block) (tmp : Ptr)
  | freeData (data : Block) (tmp : Ptr)
  | clearData (data : Block) (tmp : Ptr)
  | clearNext (data : Block) (tmp : Ptr)
  | freeFront (data : Block) (tmp : Ptr)
  | setFront (data : Block) (tmp : Ptr)
  | ret (r : QueueRetValue) (data : Block)
deriving DecidableEq

/-- The statement at `pc`. -/
def deStmt (m : LinkMemory) (linkQueue : Ptr) (dataSize : Nat) : DePc → Option (LinkMemory × DePc)
  | .idle => return (m, .idle)
  | .testSize data => do
      let q ← m.queues.load linkQueue
      return (m, if q.dataSize ≠ dataSize then .ret .RET_ERROR data else .testEmpty data)
  | .testEmpty data => do
      let q ← m.queues.load linkQueue
      return (m, if q.front = q.rear then .ret .QUEUE_EMPTY data else .loadTmp data)
  | .loadTmp data => return (m, .testData data (← m.front? linkQueue).next)
  | .testData data tmp => do
      let front ← m.front? linkQueue
      return (m, if front.data = none then .freeData data tmp else .copy data tmp)
  | .copy data tmp => return (m, .freeData (← deCopy m linkQueue (some data)) tmp)
  | .freeData data tmp => return (← deFreeData m linkQueue, .clearData data tmp)
  | .clearData data tmp => do
      let q ← m.queues.load linkQueue
      return (← m.setData q.front none, .clearNext data tmp)
  | .clearNext data tmp => do
      let q ← m.queues.load linkQueue
      return (← m.setNext q.front none, .freeFront data tmp)
  | .freeFront data tmp => return (← deFreeFront m linkQueue, .setFront data tmp)
  | .setFront data tmp => return (← m.setFront linkQueue tmp, .ret .QUEUE_SUCCESS data)
  | .ret _ _ => return (m, .idle)

/-! ## 2. The statements without a pause -/

/-- A call of `EnLinkQueue` that no other thread interrupts, in at most `k` statements,
    with what its two `malloc` return. -/
def enAlone (linkQueue : Ptr) (dataSize : Nat) (linkNode newData : Ptr) :
    Nat → LinkMemory → EnPc → Option (LinkMemory × QueueRetValue)
  | _, m, .ret r => some (m, r)
  | 0, _, _ => none
  | k + 1, m, .mallocNode data => (enStmt m linkQueue dataSize linkNode (.mallocNode data)).bind
      fun r => enAlone linkQueue dataSize linkNode newData k r.1 r.2
  | k + 1, m, pc => (enStmt m linkQueue dataSize newData pc).bind
      fun r => enAlone linkQueue dataSize linkNode newData k r.1 r.2

def deAlone (linkQueue : Ptr) (dataSize : Nat) :
    Nat → LinkMemory → DePc → Option (LinkMemory × QueueRetValue × Option Block)
  | _, m, .ret r data => some (m, r, some data)
  | 0, _, _ => none
  | k + 1, m, pc => (deStmt m linkQueue dataSize pc).bind
      fun r => deAlone linkQueue dataSize k r.1 r.2

section Alone

variable {linkQueue newData linkNode : Ptr} {dataSize : Nat}

theorem enAlone_step {k : Nat} {m m' : LinkMemory} {pc pc' : EnPc}
    (h : enStmt m linkQueue dataSize newData pc = some (m', pc'))
    (hpc : ∀ r data, pc ≠ .ret r ∧ pc ≠ .mallocNode data) :
    enAlone linkQueue dataSize linkNode newData (k + 1) m pc =
      enAlone linkQueue dataSize linkNode newData k m' pc' := by
  rw [enAlone, h]
  · rfl
  · exact fun r => (hpc r (uninit 0)).1
  · exact fun data => (hpc .RET_ERROR data).2

theorem enAlone_testFront (k : Nat) (m : LinkMemory) (data : Block) :
    enAlone linkQueue dataSize linkNode newData (k + 4) m (.testFront data linkNode) = do
      let m ← if ← enTestFront m linkQueue (some data) then enCopy m linkQueue (some data)
        else pure m
      let m ← m.setNext (← m.queues.load linkQueue).rear linkNode
      let m ← m.setRear linkQueue linkNode
      return (m, .QUEUE_SUCCESS) := by
  rcases htest : enTestFront m linkQueue (some data) with _ | _ | _
  · simp [enAlone, enStmt, htest]
  · simp [enAlone, enStmt, htest, Option.bind_assoc]
  · simp [enAlone, enStmt, htest, Option.bind_assoc]

theorem enAlone_testRear (m : LinkMemory) (data : Block) :
    enAlone linkQueue dataSize linkNode newData 7 m (.testRear data linkNode) = do
      let (m, filled) ← enFillRear m linkQueue newData
      if !filled then
        return (m, .RET_ERROR)
      let m ← if ← enTestFront m linkQueue (some data) then enCopy m linkQueue (some data)
        else pure m
      let m ← m.setNext (← m.queues.load linkQueue).rear linkNode
      let m ← m.setRear linkQueue linkNode
      return (m, .QUEUE_SUCCESS) := by
  rcases hrear : m.rear? linkQueue with _ | rear
  · simp [enAlone, enStmt, enFillRear, hrear]
  by_cases hdata : rear.data = none
  · rcases hq : m.queues.load linkQueue with _ | q
    · simp [enAlone, enStmt, enFillRear, hrear, hdata, hq]
    rcases hset : { m with blocks := m.blocks.malloc newData (uninit q.dataSize) }.setData q.rear
      newData with _ | m₁
    · simp [enAlone, enStmt, enFillRear, hrear, hdata, hq, hset]
    rcases hrear₁ : m₁.rear? linkQueue with _ | rear₁
    · simp [enAlone, enStmt, enFillRear, hrear, hdata, hq, hset, hrear₁]
    by_cases hdata₁ : rear₁.data = none
    · simp [enAlone, enStmt, enFillRear, hrear, hdata, hq, hset, hrear₁, hdata₁]
    · have h₁ : enStmt m linkQueue dataSize newData (.testRear data linkNode) =
          some (m, .mallocData data linkNode) := by simp [enStmt, hrear, hdata]
      have h₂ : enStmt m linkQueue dataSize newData (.mallocData data linkNode) =
          some (m₁, .testData data linkNode) := by simp [enStmt, hq, hset]
      have h₃ : enStmt m₁ linkQueue dataSize newData (.testData data linkNode) =
          some (m₁, .testFront data linkNode) := by simp [enStmt, hrear₁, hdata₁]
      rw [enAlone_step h₁ (by simp), enAlone_step h₂ (by simp), enAlone_step h₃ (by simp),
        enAlone_testFront 0]
      simp [enFillRear, hrear, hdata, hq, hset, hrear₁, hdata₁]
  · have h₁ : enStmt m linkQueue dataSize newData (.testRear data linkNode) =
        some (m, .testFront data linkNode) := by simp [enStmt, hrear, hdata]
    rw [enAlone_step h₁ (by simp), enAlone_testFront 2]
    simp [enFillRear, hrear, hdata]

/-- The statements of `EnLinkQueue` without a pause are `EnLinkQueue`. -/
theorem enAlone_eq (m : LinkMemory) (data : Block) :
    enAlone linkQueue dataSize linkNode newData 12 m (.testSize data) =
      enLinkQueue m linkQueue (some data) dataSize linkNode newData := by
  rcases hq : m.queues.load linkQueue with _ | q
  · simp [enAlone, enStmt, enLinkQueue, hq]
  by_cases hn : q.dataSize = dataSize
  swap
  · simp [enAlone, enStmt, enLinkQueue, hq, hn]
  rcases linkNode with _ | a
  · simp [enAlone, enStmt, enLinkQueue, hq, hn, mallocNode, Store.malloc]
  rcases hset : (m.mallocNode (some a)).setData (some a) none with _ | m₁
  · simp [enAlone, enStmt, enLinkQueue, hq, hn, hset]
  rcases hnext : m₁.setNext (some a) none with _ | m₂
  · simp [enAlone, enStmt, enLinkQueue, hq, hn, hset, hnext]
  · have h₁ : enStmt m linkQueue dataSize newData (.testSize data) =
        some (m, .mallocNode data) := by simp [enStmt, hq, hn]
    have h₂ : enAlone linkQueue dataSize (some a) newData 11 m (.mallocNode data) =
        enAlone linkQueue dataSize (some a) newData 10 (m.mallocNode (some a))
          (.testNode data (some a)) := rfl
    have h₃ : enStmt (m.mallocNode (some a)) linkQueue dataSize newData
        (.testNode data (some a)) = some (m.mallocNode (some a), .clearData data (some a)) := rfl
    have h₄ : enStmt (m.mallocNode (some a)) linkQueue dataSize newData
        (.clearData data (some a)) = some (m₁, .clearNext data (some a)) := by
      simp [enStmt, hset]
    have h₅ : enStmt m₁ linkQueue dataSize newData (.clearNext data (some a)) =
        some (m₂, .testRear data (some a)) := by simp [enStmt, hnext]
    rw [enAlone_step h₁ (by simp), h₂, enAlone_step h₃ (by simp),
      enAlone_step h₄ (by simp), enAlone_step h₅ (by simp), enAlone_testRear]
    simp [enLinkQueue, hq, hn, hset, hnext]

theorem deAlone_step {k : Nat} {m m' : LinkMemory} {pc pc' : DePc}
    (h : deStmt m linkQueue dataSize pc = some (m', pc')) (hret : ∀ r data, pc ≠ .ret r data) :
    deAlone linkQueue dataSize (k + 1) m pc = deAlone linkQueue dataSize k m' pc' := by
  rw [deAlone, h]
  · rfl
  · exact fun r data => hret r data

theorem deAlone_freeData (k : Nat) {m : LinkMemory} {q : LinkQueue}
    (hq : m.queues.load linkQueue = some q) (data : Block) (tmp : Ptr) :
    deAlone linkQueue dataSize (k + 5) m (.freeData data tmp) = do
      let m ← deFreeData m linkQueue
      let m ← m.setData q.front none
      let m ← m.setNext q.front none
      let m ← deFreeFront m linkQueue
      let m ← m.setFront linkQueue tmp
      return (m, .QUEUE_SUCCESS, some data) := by
  rcases h₁ : deFreeData m linkQueue with _ | m₁
  · simp [deAlone, deStmt, h₁]
  have hq₁ : m₁.queues.load linkQueue = some q := by rw [deFreeData_queues h₁, hq]
  rcases h₂ : m₁.setData q.front none with _ | m₂
  · simp [deAlone, deStmt, h₁, hq₁, h₂]
  have hq₂ : m₂.queues.load linkQueue = some q := by rw [setData_queues h₂, hq₁]
  rcases h₃ : m₂.setNext q.front none with _ | m₃
  · simp [deAlone, deStmt, h₁, hq₁, h₂, hq₂, h₃]
  rcases h₄ : deFreeFront m₃ linkQueue with _ | m₄
  · simp [deAlone, deStmt, h₁, hq₁, h₂, hq₂, h₃, h₄]
  rcases h₅ : m₄.setFront linkQueue tmp with _ | m₅
  · simp [deAlone, deStmt, h₁, hq₁, h₂, hq₂, h₃, h₄, h₅]
  · simp [deAlone, deStmt, h₁, hq₁, h₂, hq₂, h₃, h₄, h₅]

/-- The statements of `DeLinkQueue` without a pause are `DeLinkQueue`. -/
theorem deAlone_eq (m : LinkMemory) (data : Block) :
    deAlone linkQueue dataSize 10 m (.testSize data) =
      deLinkQueue m linkQueue (some data) dataSize := by
  rcases hq : m.queues.load linkQueue with _ | q
  · simp [deAlone, deStmt, deLinkQueue, hq]
  by_cases hn : q.dataSize = dataSize
  swap
  · simp [deAlone, deStmt, deLinkQueue, hq, hn]
  by_cases hempty : q.front = q.rear
  · simp [deAlone, deStmt, deLinkQueue, hq, hn, hempty]
  rcases hfront : m.front? linkQueue with _ | front
  · simp [deAlone, deStmt, deLinkQueue, hq, hn, hempty, hfront]
  have h₁ : deStmt m linkQueue dataSize (.testSize data) = some (m, .testEmpty data) := by
    simp [deStmt, hq, hn]
  have h₂ : deStmt m linkQueue dataSize (.testEmpty data) = some (m, .loadTmp data) := by
    simp [deStmt, hq, hempty]
  have h₃ : deStmt m linkQueue dataSize (.loadTmp data) =
      some (m, .testData data front.next) := by simp [deStmt, hfront]
  rw [deAlone_step h₁ (by simp), deAlone_step h₂ (by simp), deAlone_step h₃ (by simp)]
  by_cases hdata : front.data = none
  · have h₄ : deStmt m linkQueue dataSize (.testData data front.next) =
        some (m, .freeData data front.next) := by simp [deStmt, hfront, hdata]
    rw [deAlone_step h₄ (by simp), deAlone_freeData 1 hq]
    simp [deLinkQueue, hq, hn, hempty, hfront, hdata]
  · have h₄ : deStmt m linkQueue dataSize (.testData data front.next) =
        some (m, .copy data front.next) := by simp [deStmt, hfront, hdata]
    rw [deAlone_step h₄ (by simp)]
    rcases hcopy : deCopy m linkQueue (some data) with _ | data'
    · simp [deAlone, deStmt, deLinkQueue, hq, hn, hempty, hfront, hdata, hcopy]
    · have h₅ : deStmt m linkQueue dataSize (.copy data front.next) =
          some (m, .freeData data' front.next) := by simp [deStmt, hcopy]
      rw [deAlone_step h₅ (by simp), deAlone_freeData 0 hq]
      simp [deLinkQueue, hq, hn, hempty, hfront, hdata, hcopy]

end Alone

/-- The message that becomes visible with the statement. -/
def EnPc.puts : EnPc → List Block
  | .setRear data _ => [data]
  | _ => []

/-- The message that is returned with the statement. -/
def DePc.gets : DePc → List Block
  | .ret .QUEUE_SUCCESS data => [data]
  | _ => []

/-! ## 3. The system -/

structure LocalState where
  mem : LinkMemory
  /-- The static pointer of `local_queue.c`. -/
  linkQueue : Ptr
  en : EnPc
  de : DePc
  /-- The messages that `EnMsgLinkQueue` put in: from `linkQueue->rear = linkNode` on
      the call succeeds. -/
  enqueued : List Block
  /-- The messages that `DeMsgLinkQueue` returned with `QUEUE_SUCCESS`. -/
  dequeued : List Block
  /-- Memory that is not allocated was accessed. -/
  fault : Bool

def MsgBuf.block (b : MsgBuf) : Block := b.bytes.map some

inductive LocalEvent where
  /-- The epoll thread calls `EnMsgLinkQueue(msgBuf)`. -/
  | enMsg (msgBuf : MsgBuf)
  /-- Its next statement, with what `malloc` returns in it. -/
  | en (p : Ptr)
  /-- The thread `SrvProMsg` calls `DeMsgLinkQueue` with a buffer that holds `data`. -/
  | deMsg (data : Block)
  /-- Its next statement. -/
  | de

/-- `malloc` returns an address that is not in use, or `NULL`. -/
def Fresh {α : Type} (m : Store α) (p : Ptr) : Prop := ∀ a, p = some a → m a = none

instance {α : Type} (m : Store α) (p : Ptr) : Decidable (Fresh m p) :=
  match p with
  | none => isTrue (by simp [Fresh])
  | some a =>
      match h : m a with
      | none => isTrue (by simp [Fresh, h])
      | some _ => isFalse (by simp [Fresh, h])

def localStep (s : LocalState) : LocalEvent → Option LocalState
  | .enMsg msgBuf => if s.en = .idle then some { s with en := .testSize msgBuf.block } else none
  | .en p =>
      if s.en ≠ .idle ∧ Fresh s.mem.nodes p ∧ Fresh s.mem.blocks p then
        match enStmt s.mem s.linkQueue sizeofMsgBuf p s.en with
        | none => some { s with fault := true, en := .idle }
        | some (m, pc) => some { s with
            mem := m
            en := pc
            enqueued := s.enqueued ++ s.en.puts }
      else none
  | .deMsg data =>
      if s.de = .idle ∧ data.length = sizeofMsgBuf then some { s with de := .testSize data }
      else none
  | .de =>
      if s.de ≠ .idle then
        match deStmt s.mem s.linkQueue sizeofMsgBuf s.de with
        | none => some { s with fault := true, de := .idle }
        | some (m, pc) => some { s with
            mem := m
            de := pc
            dequeued := s.dequeued ++ s.de.gets }
      else none

/-- Both threads outside the queue that `InitLinkQueue` returned. -/
def newLocal (m : LinkMemory) (linkQueue : Ptr) : LocalState :=
  { mem := m, linkQueue := linkQueue, en := .idle, de := .idle, enqueued := [], dequeued := [],
    fault := false }

/-- No step accessed freed memory, and what was dequeued are the first messages that
    were enqueued, in order. -/
structure InOrder (s : LocalState) : Prop where
  sound : s.fault = false
  order : s.dequeued <+: s.enqueued

/-- The consumer has overwritten `front->data` and not yet moved `front`. -/
def DePc.takingFront : DePc → Bool
  | .clearNext _ _ | .freeFront _ _ | .setFront _ _ => true
  | _ => false

/-- The next statement of the producer is the test of `front->data`. -/
def EnPc.testsFront : EnPc → Bool
  | .testFront _ _ => true
  | _ => false

/-- The producer does not test `front->data` while the consumer takes `front` away. -/
def TestApart (s : LocalState) : LocalEvent → Prop
  | .en _ => s.en.testsFront = true → s.de.takingFront = false
  | _ => True

instance (s : LocalState) (e : LocalEvent) : Decidable (TestApart s e) :=
  match e with
  | .en _ => inferInstanceAs (Decidable (_ → _))
  | .enMsg _ | .deMsg _ | .de => isTrue trivial

end SocketPractice.SocketTcp
