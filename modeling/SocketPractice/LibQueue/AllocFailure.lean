import SocketPractice.LibQueue.SeqQueue

/-!
# When there is no memory

Three functions allocate two objects each.  `EnLinkQueue` tests both results and returns
`RET_ERROR`, but the node it has by then is forgotten when there is no payload for the last
one.  `InitLinkQueue` tests both and only logs the failure, and then writes through the
pointer.  `InitSeqQueue` does not test the first, and returns `NULL` when the second fails
without freeing the first.

So a call is all or nothing exactly if it gets what it asks for, or does not ask; and
`EnLinkQueue` also if it does not even get the first.
-/

namespace SocketPractice.LibQueue

open Lib.CInt Lib.Memory Lib.Raw Lib.Fifo Lib.Runs

/-! ## 1. All or nothing -/

/-- The same objects are there, and what was a queue is one with the same contents. -/
structure LinkMemory.Unchanged (m m' : LinkMemory) : Prop where
  nodes : m'.nodes.live = m.nodes.live
  blocks : m'.blocks.live = m.blocks.live
  queues : m'.queues.live = m.queues.live
  contents : ∀ linkQueue dataSize items, Represents m linkQueue dataSize items →
    Represents m' linkQueue dataSize items

structure SeqMemory.Unchanged (m m' : SeqMemory) : Prop where
  queues : m'.queues.live = m.queues.live
  blocks : m'.blocks.live = m.blocks.live
  contents : ∀ seqQueue dataSize cnt front items, SeqRing m seqQueue dataSize cnt front items →
    SeqRing m' seqQueue dataSize cnt front items

/-- `InitLinkQueue` returns an empty queue, or `NULL` and nothing has changed. -/
def InitLinkAtomic (m : LinkMemory) (dataSize : Nat) (linkNode linkQueue : Ptr) : Prop :=
  ∃ m' ret, initLinkQueue m dataSize linkNode linkQueue = some (m', ret) ∧
    (Represents m' ret dataSize [] ∨ ret = none ∧ m.Unchanged m')

/-- On a queue of `items`, `EnLinkQueue` adds one, or returns `RET_ERROR` and nothing has
    changed. -/
def EnLinkAtomic (m : LinkMemory) (linkQueue : Ptr) (queueSize : Nat) (items : List Block)
    (data : Option Block) (dataSize : Nat) (linkNode newData : Ptr) : Prop :=
  ∃ m' ret, enLinkQueue m linkQueue data dataSize linkNode newData = some (m', ret) ∧
    (ret = .QUEUE_SUCCESS ∧ (∃ item, Represents m' linkQueue queueSize (items ++ [item])) ∨
      ret = .RET_ERROR ∧ m.Unchanged m')

/-- At `seqQueue` there is a queue with both positions at the start and all its bytes. -/
def SeqMade (m : SeqMemory) (seqQueue : Ptr) (queueLen : Int) (dataSize : Nat) : Prop :=
  ∃ queuePtr b, m.queues.load seqQueue = some ⟨0, 0, dataSize, addInt queueLen 1, queuePtr⟩ ∧
    m.blocks.load queuePtr = some b ∧ b.length = toSize (addInt queueLen 1) * dataSize

/-- `InitSeqQueue` returns a new queue, or `NULL` and nothing has changed. -/
def InitSeqAtomic (m : SeqMemory) (queueLen : Int) (dataSize : Nat) (seqQueue queuePtr : Ptr) :
    Prop :=
  ∃ m' ret, initSeqQueue m queueLen dataSize seqQueue queuePtr = some (m', ret) ∧
    (SeqMade m' ret queueLen dataSize ∨ ret = none ∧ m.Unchanged m')

/-! ## 2. Which failures do harm -/

/-- A size of zero is refused before anything is allocated; else both allocations
    succeed. -/
def InitLinkAllocates (dataSize : Nat) (linkNode linkQueue : Ptr) : Prop :=
  dataSize = 0 ∨ linkNode ≠ none ∧ linkQueue ≠ none

/-- Another size than the queue's is refused; else already the first allocation fails, or
    the second succeeds. -/
def EnLinkAllocates (queueSize dataSize : Nat) (linkNode newData : Ptr) : Prop :=
  dataSize ≠ queueSize ∨ linkNode = none ∨ newData ≠ none

/-- Both allocations succeed. -/
def InitSeqAllocates (queueLen : Int) (dataSize : Nat) (seqQueue queuePtr : Ptr) : Prop :=
  seqQueue ≠ none ∧ calloc (toSize (addInt queueLen 1)) dataSize queuePtr ≠ none

/-! ## 3. The two functions that make a queue -/

theorem LinkMemory.Unchanged.refl (m : LinkMemory) : m.Unchanged m :=
  ⟨rfl, rfl, rfl, fun _ _ _ h => h⟩

theorem initLink_atomic_iff (m : LinkMemory) (dataSize : Nat) (linkNode linkQueue : Ptr) :
    InitLinkAtomic m dataSize linkNode linkQueue ↔
      InitLinkAllocates dataSize linkNode linkQueue := by
  by_cases hsize : dataSize = 0
  · refine iff_of_true ⟨m, none, ?_, .inr ⟨rfl, .refl m⟩⟩ (.inl hsize)
    simp [initLinkQueue, hsize]
  rcases linkNode with _ | node
  · refine iff_of_false ?_ (by simp [InitLinkAllocates, hsize])
    rintro ⟨m', ret, hinit, -⟩
    simp [initLinkQueue, hsize, LinkMemory.mallocNode, LinkMemory.setData, Store.malloc] at hinit
  rcases linkQueue with _ | l
  · refine iff_of_false ?_ (by simp [InitLinkAllocates, hsize])
    rintro ⟨m', ret, hinit, -⟩
    simp [initLinkQueue, hsize, LinkMemory.mallocNode, LinkMemory.setData, LinkMemory.setNext,
      Store.malloc, Store.store] at hinit
  · have hinit := initLinkQueue_eq m hsize node l
    exact iff_of_true ⟨_, _, hinit, .inl (initLinkQueue_empty hinit)⟩ (by simp [InitLinkAllocates])

section InitSeq

variable (m : SeqMemory) {queueLen : Int} {dataSize : Nat} (l : Addr) {queuePtr : Ptr}

theorem initSeqQueue_eq {p : Addr}
    (hblock : calloc (toSize (addInt queueLen 1)) dataSize queuePtr = some p) :
    initSeqQueue m queueLen dataSize (some l) queuePtr =
      some (⟨Function.update m.queues l (some ⟨0, 0, dataSize, addInt queueLen 1, some p⟩),
          Function.update m.blocks p (some (zeroed (toSize (addInt queueLen 1) * dataSize)))⟩,
        some l) := by
  simp [initSeqQueue, hblock, Store.store]

/-- The queue object is there, and nobody knows of it. -/
theorem initSeqQueue_leaks
    (hblock : calloc (toSize (addInt queueLen 1)) dataSize queuePtr = none) :
    initSeqQueue m queueLen dataSize (some l) queuePtr =
      some (⟨Function.update m.queues l (some ⟨0, 0, dataSize, addInt queueLen 1, none⟩),
        m.blocks⟩, none) := by
  simp [initSeqQueue, hblock, Store.store, Store.malloc]

end InitSeq

theorem initSeq_atomic_iff {m : SeqMemory} (queueLen : Int) (dataSize : Nat)
    {seqQueue : Ptr} (hfresh : m.queues.mayReturn seqQueue = true) (queuePtr : Ptr) :
    InitSeqAtomic m queueLen dataSize seqQueue queuePtr ↔
      InitSeqAllocates queueLen dataSize seqQueue queuePtr := by
  rcases seqQueue with _ | l
  · refine iff_of_false ?_ (by simp [InitSeqAllocates])
    rintro ⟨m', ret, hinit, -⟩
    simp [initSeqQueue, Store.store] at hinit
  cases hblock : calloc (toSize (addInt queueLen 1)) dataSize queuePtr with
  | none =>
      refine iff_of_false ?_ (by simp [InitSeqAllocates, hblock])
      rintro ⟨m', ret, hinit, hret⟩
      rw [initSeqQueue_leaks m l hblock, Option.some.injEq, Prod.mk.injEq] at hinit
      obtain ⟨rfl, rfl⟩ := hinit
      rcases hret with ⟨p, b, hqueue, -⟩ | ⟨-, hsame⟩
      · cases hqueue
      · exact Store.live_update_ne (Store.mayReturn_some.mp hfresh) hsame.queues
  | some p =>
      refine iff_of_true ⟨_, _, initSeqQueue_eq m l hblock, .inl ?_⟩
        (by simp [InitSeqAllocates, hblock])
      exact ⟨some p, _, Function.update_self .., Function.update_self .., length_zeroed⟩

/-! ## 4. The enqueue -/

section Enqueue

variable {m : LinkMemory} {l : Addr} {queueSize dataSize : Nat} {items : List Block}

/-- What the queue gets: the caller's bytes, or what `malloc` has left. -/
def payload (data : Option Block) (dataSize : Nat) : Block :=
  data.elim (uninit dataSize) (List.take dataSize)

/-- The caller's argument is `NULL` or as long as the caller says. -/
def hasSize (data : Option Block) (dataSize : Nat) : Bool := data.all fun b => dataSize ≤ b.length

/-- An object more does not matter to the queues. -/
theorem Represents.mallocNode (h : Represents m (some l) queueSize items) {node : Addr}
    (hnode : m.nodes node = none) :
    Represents (m.mallocNode (some node)) (some l) queueSize items := by
  obtain ⟨q, xs, rear, bs, hq, rfl, hchain⟩ := h
  have hrear : rear ≠ node := (Store.ne_of_none_of_some hnode hchain.last).symm
  have hother : ∀ x, x ≠ node → (m.mallocNode (some node)).nodes x = m.nodes x :=
    fun x hx => Function.update_of_ne hx _ _
  refine ⟨q, xs, rear, bs, hq, rfl, ?_, hchain.rear_eq, ?_⟩
  · refine hchain.items.congr (fun x hx => hother x ?_) fun _ _ => rfl
    rintro rfl
    exact hchain.items.not_mem_of_none hnode hx
  · rw [hother rear hrear, hchain.last]

/-- With no payload for the last node, the new node is all that has changed. -/
theorem Represents.enLinkQueue_leaks (h : Represents m (some l) queueSize items) {node : Addr}
    (hnode : m.nodes node = none) (data : Option Block) :
    LibQueue.enLinkQueue m (some l) data queueSize (some node) none =
      some (m.mallocNode (some node), .RET_ERROR) := by
  obtain ⟨q, xs, rear, bs, hq, rfl, hchain⟩ := h
  have hne : rear ≠ node := (Store.ne_of_none_of_some hnode hchain.last).symm
  have hlast : Function.update m.nodes node (some ⟨none, none⟩) rear = some ⟨none, none⟩ := by
    rw [Function.update_of_ne hne, hchain.last]
  have hq' : m.queues l = some q := hq
  have hsame := Function.update_eq_self rear (Function.update m.nodes node (some ⟨none, none⟩))
  rw [hlast] at hsame
  simp [LibQueue.enLinkQueue, hq', LinkMemory.mallocNode, LinkMemory.setData, LinkMemory.setNext,
    Store.store, Store.malloc, enFillRear, LinkMemory.rear?, hchain.rear_eq, hlast, hsame]

/-- The ways in which a call of `EnLinkQueue` ends: with a new item, with nothing done, or
    with a node too many. -/
inductive EnLinkEnds (m : LinkMemory) (l : Addr) (queueSize : Nat) (items : List Block)
    (data : Option Block) (dataSize : Nat) (linkNode newData : Ptr) : Prop where
  | added (m' : LinkMemory) (hdata : newData ≠ none) (hsize : dataSize = queueSize)
      (hcall : LibQueue.enLinkQueue m (some l) data dataSize linkNode newData =
        some (m', .QUEUE_SUCCESS))
      (hitems : Represents m' (some l) queueSize (items ++ [payload data dataSize]))
  | refused (hwhy : dataSize ≠ queueSize ∨ linkNode = none)
      (hcall : LibQueue.enLinkQueue m (some l) data dataSize linkNode newData =
        some (m, .RET_ERROR))
  | leaked (node : Addr) (hnode : linkNode = some node) (hfresh : m.nodes node = none)
      (hdata : newData = none) (hsize : dataSize = queueSize)
      (hcall : LibQueue.enLinkQueue m (some l) data dataSize linkNode newData =
        some (m.mallocNode (some node), .RET_ERROR))

theorem Represents.enLinkEnds (h : Represents m (some l) queueSize items) {data : Option Block}
    (hdata : hasSize data dataSize = true) {linkNode newData : Ptr}
    (hnode : m.nodes.mayReturn linkNode = true) (hblock : m.blocks.mayReturn newData = true) :
    EnLinkEnds m l queueSize items data dataSize linkNode newData := by
  by_cases hsize : dataSize = queueSize
  swap
  · exact .refused (.inl hsize) (enLinkQueue_other h hsize data linkNode newData)
  subst hsize
  rcases linkNode with _ | node
  · obtain ⟨q, -, -, -, hq, rfl, -⟩ := h
    exact .refused (.inr rfl) (by simp [LibQueue.enLinkQueue, hq])
  have hfresh := Store.mayReturn_some.mp hnode
  rcases newData with _ | blk
  · exact .leaked node rfl hfresh rfl rfl (h.enLinkQueue_leaks hfresh data)
  have hblk := Store.mayReturn_some.mp hblock
  rcases data with _ | bytes
  · obtain ⟨m', hcall, hitems⟩ := h.enLinkQueue_null hfresh hblk
    exact .added m' (Option.some_ne_none blk) rfl hcall hitems
  · have hlen : dataSize ≤ bytes.length := by simpa [hasSize] using hdata
    obtain ⟨m', hcall, hitems⟩ := h.enLinkQueue hlen hfresh hblk
    exact .added m' (Option.some_ne_none blk) rfl hcall hitems

theorem enLink_atomic_iff (h : Represents m (some l) queueSize items) {data : Option Block}
    (hdata : hasSize data dataSize = true) {linkNode newData : Ptr}
    (hnode : m.nodes.mayReturn linkNode = true) (hblock : m.blocks.mayReturn newData = true) :
    EnLinkAtomic m (some l) queueSize items data dataSize linkNode newData ↔
      EnLinkAllocates queueSize dataSize linkNode newData := by
  cases h.enLinkEnds hdata hnode hblock with
  | added m' hnew hsize hcall hitems =>
      exact iff_of_true ⟨m', _, hcall, .inl ⟨rfl, _, hitems⟩⟩ (.inr (.inr hnew))
  | refused hwhy hcall =>
      refine iff_of_true ⟨m, _, hcall, .inr ⟨rfl, .refl m⟩⟩ ?_
      exact hwhy.imp_right Or.inl
  | leaked node hlink hfresh hnew hsize hcall =>
      refine iff_of_false ?_ (by simp [EnLinkAllocates, hsize, hlink, hnew])
      rintro ⟨m', ret, hcall', hends⟩
      rw [hcall, Option.some.injEq, Prod.mk.injEq] at hcall'
      obtain ⟨rfl, rfl⟩ := hcall'
      rcases hends with ⟨hret, -⟩ | ⟨-, hsame⟩
      · cases hret
      · exact Store.live_update_ne hfresh hsame.nodes

end Enqueue

/-! ## 5. Runs -/

/-- A call, with what `malloc` returns in it; `none` for an argument is `NULL`. -/
inductive LinkCall where
  | en (data : Option Block) (dataSize : Nat) (linkNode newData : Ptr)
  | de (data : Option Block) (dataSize : Nat)

def callStep (s : LinkState) : LinkCall → Option LinkState
  | .en data dataSize linkNode newData =>
      if hasSize data dataSize && s.mem.nodes.mayReturn linkNode &&
          s.mem.blocks.mayReturn newData then
        match enLinkQueue s.mem s.linkQueue data dataSize linkNode newData with
        | none => some { s with fault := true }
        | some (m, ret) => some { s with
            mem := m
            history := if ret = .QUEUE_SUCCESS then s.history.enter (payload data dataSize)
              else s.history }
      else none
  | .de data dataSize =>
      if hasSize data dataSize then
        match deLinkQueue s.mem s.linkQueue data dataSize with
        | none => some { s with fault := true }
        | some (m, ret, _) => some { s with
            mem := m
            history := if ret = .QUEUE_SUCCESS then s.history.leave else s.history }
      else none

/-- Allocations that fail do not damage the queue. -/
theorem linkInv_callStep {n : Nat} {l : Addr} (s : LinkState) (call : LinkCall) (t : LinkState)
    (hs : LinkInv n l s) (hstep : callStep s call = some t) : LinkInv n l t := by
  cases call with
  | en data dataSize linkNode newData =>
      obtain ⟨hl, hsound, hrep⟩ := hs
      simp only [callStep, hl, Option.ite_none_right_eq_some, Bool.and_eq_true] at hstep
      obtain ⟨⟨⟨hdata, hnode⟩, hblock⟩, hstep⟩ := hstep
      cases hrep.enLinkEnds hdata hnode hblock with
      | added m' hnew hsize hcall hitems =>
          rw [hcall] at hstep
          obtain rfl := Option.some.inj hstep
          exact ⟨rfl, hsound, by simpa using hitems⟩
      | refused hwhy hcall =>
          rw [hcall] at hstep
          obtain rfl := Option.some.inj hstep
          exact ⟨rfl, hsound, hrep⟩
      | leaked node hlink hfresh hnew hsize hcall =>
          rw [hcall] at hstep
          obtain rfl := Option.some.inj hstep
          exact ⟨rfl, hsound, hrep.mallocNode hfresh⟩
  | de data dataSize =>
      simp only [callStep, Option.ite_none_right_eq_some] at hstep
      obtain ⟨hdata, hstep⟩ := hstep
      by_cases hsize : dataSize = n
      · subst hsize
        obtain ⟨m, ret, out, hcall, hinv⟩ := hs.deLinkQueue data <| by
          rintro buf rfl
          simpa [hasSize] using hdata
        rw [hcall] at hstep
        obtain rfl := Option.some.inj hstep
        exact hinv
      · obtain ⟨hl, hsound, hrep⟩ := hs
        rw [hl, deLinkQueue_other hrep hsize] at hstep
        obtain rfl := Option.some.inj hstep
        exact ⟨rfl, hsound, hrep⟩

/-- The two functions that make a queue, in any memory, and `EnLinkQueue`, after any calls
    on a linked queue with whatever allocations, are all or nothing exactly if the
    allocations that they need succeed; `EnLinkQueue` also if the first one fails. -/
theorem alloc_failure_atomic_iff (link : LinkMemory) (seq : SeqMemory) {m₀ m : LinkMemory}
    {queueSize : Nat} {firstNode firstQueue : Ptr} {l : Addr} {calls : List LinkCall}
    {s : LinkState}
    (hinit : initLinkQueue m₀ queueSize firstNode firstQueue = some (m, some l))
    (hrun : exec callStep (newLink m (some l)) calls = some s) :
    (∀ dataSize linkNode linkQueue, InitLinkAtomic link dataSize linkNode linkQueue ↔
      InitLinkAllocates dataSize linkNode linkQueue) ∧
    (s.fault = false ∧ ∀ data dataSize linkNode newData,
      hasSize data dataSize = true → s.mem.nodes.mayReturn linkNode = true →
      s.mem.blocks.mayReturn newData = true →
      (EnLinkAtomic s.mem s.linkQueue queueSize s.history.outstanding data dataSize linkNode
          newData ↔ EnLinkAllocates queueSize dataSize linkNode newData)) ∧
    (∀ queueLen dataSize seqQueue queuePtr, seq.queues.mayReturn seqQueue = true →
      (InitSeqAtomic seq queueLen dataSize seqQueue queuePtr ↔
        InitSeqAllocates queueLen dataSize seqQueue queuePtr)) := by
  have hnew : LinkInv queueSize l (newLink m (some l)) := ⟨rfl, rfl, initLinkQueue_empty hinit⟩
  obtain ⟨hl, hsound, hrep⟩ := exec_invariant linkInv_callStep hnew hrun
  refine ⟨initLink_atomic_iff link, ⟨hsound, ?_⟩, ?_⟩
  · intro data dataSize linkNode newData hdata hnode hblock
    rw [hl]
    exact enLink_atomic_iff hrep hdata hnode hblock
  · intro queueLen dataSize seqQueue queuePtr hfresh
    exact initSeq_atomic_iff queueLen dataSize hfresh queuePtr

/-- The second enqueue does not get its payload. -/
def secondFails : List LinkCall :=
  [.en (some [some 1]) 1 (some 3) (some 4), .en none 1 (some 5) none]

/-- The third, which gets both, adds its item. -/
theorem alloc_failure_atomic_third : ∃ m s,
    initLinkQueue LinkMemory.empty 1 (some 1) (some 2) = some (m, some 2) ∧
      exec callStep (newLink m (some 2)) secondFails = some s ∧
      s.history.outstanding = [[some 1]] ∧
      InitLinkAtomic s.mem 1 (some 6) (some 7) ∧
      EnLinkAtomic s.mem s.linkQueue 1 s.history.outstanding (some [some 2]) 1 (some 6) (some 7) ∧
      InitSeqAtomic SeqMemory.empty 1 1 (some 1) (some 2) := by
  obtain ⟨m, hinit, s, hrun, hout, hnode, hblock⟩ : ∃ m,
      initLinkQueue LinkMemory.empty 1 (some 1) (some 2) = some (m, some 2) ∧
        ∃ s, exec callStep (newLink m (some 2)) secondFails = some s ∧
          s.history.outstanding = [[some 1]] ∧ s.mem.nodes.mayReturn (some 6) = true ∧
          s.mem.blocks.mayReturn (some 7) = true :=
    ⟨_, rfl, _, rfl, rfl, rfl, rfl⟩
  obtain ⟨hinits, ⟨-, hcalls⟩, hseqs⟩ := alloc_failure_atomic_iff s.mem SeqMemory.empty hinit hrun
  refine ⟨m, s, hinit, hrun, hout, ?_, ?_, ?_⟩
  · exact (hinits 1 (some 6) (some 7)).mpr (.inr (by simp))
  · exact (hcalls (some [some 2]) 1 (some 6) (some 7) rfl hnode hblock).mpr (.inr (.inr (by simp)))
  · exact (hseqs 1 1 (some 1) (some 2) rfl).mpr (by simp only [InitSeqAllocates]; decide)

/-- A write through `NULL` in each of the functions that make a queue, and on a new queue an
    enqueue that returns `RET_ERROR` and leaves a node. -/
theorem alloc_failure_harms :
    ¬ InitLinkAtomic LinkMemory.empty 1 none (some 2) ∧
      ¬ InitSeqAtomic SeqMemory.empty 1 1 none (some 2) ∧
      ∃ m, initLinkQueue LinkMemory.empty 1 (some 1) (some 2) = some (m, some 2) ∧
        ¬ EnLinkAtomic m (some 2) 1 [] (some [some 1]) 1 (some 3) none := by
  refine ⟨?_, ?_, _, rfl, ?_⟩
  · rintro ⟨m', ret, hinit, -⟩
    cases hinit
  · rintro ⟨m', ret, hinit, -⟩
    cases hinit
  · rintro ⟨m', ret, hcall, hends⟩
    cases hcall
    rcases hends with ⟨hret, -⟩ | ⟨-, hsame⟩
    · cases hret
    · exact absurd (congrFun hsame.nodes 3) (by decide)

end SocketPractice.LibQueue
