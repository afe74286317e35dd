import SocketPractice.Lib.While
import SocketPractice.LibQueue.AllocFailure

/-!
# The end of a linked queue

What the queue has allocated is at every time its own object, the nodes from `front` to
`rear` and the payloads of all nodes but the last: the memory without those is the memory
from before `InitLinkQueue`.  `DestoryLinkQueue` dequeues until `front` is `rear`, and
that node has no payload to be freed with it.  A second `free` of the same object, or an
access to one that has been freed, would be a fault.
-/

namespace SocketPractice.LibQueue

open Lib.Memory Lib.Raw Lib.Fifo Lib.Runs Lib.While LinkMemory

/-! ## 1. The code -/

/-- `linkQueue->front != linkQueue->rear`. -/
def destoryTest (linkQueue : Ptr) (m : LinkMemory) : Outcome Bool := do
  let q ← ofOption (m.queues.load linkQueue)
  return q.front ≠ q.rear

/-- `DeLinkQueue(linkQueue, NULL, linkQueue->dataSize)`, whose return value is not looked
    at. -/
def destoryRound (linkQueue : Ptr) (m : LinkMemory) : Outcome LinkMemory := do
  let q ← ofOption (m.queues.load linkQueue)
  let (m, _) ← ofOption (deLinkQueue m linkQueue none q.dataSize)
  return m

/-- The last component is the caller's pointer on return. -/
def destoryLinkQueue (fuel : Nat) (m : LinkMemory) (linkQueue : Ptr) :
    Outcome (LinkMemory × QueueRetValue × Ptr) := do
  if linkQueue = none then
    return (m, .RET_ERROR, linkQueue)
  let m ← whileLoop (destoryTest linkQueue) (destoryRound linkQueue) fuel m
  let m ← ofOption (deFreeFront m linkQueue)
  let queues ← ofOption (m.queues.free linkQueue)
  return ({ m with queues }, .QUEUE_SUCCESS, none)

/-! ## 2. What a queue has allocated -/

/-- The queue at `l` holds `items`, and the memory without the objects of the queue is
    `m₀`. -/
def Allocates (m₀ m : LinkMemory) (l : Addr) (dataSize : Nat) (items : List Block) : Prop :=
  ∃ q xs rear bs, m.queues l = some q ∧ q.dataSize = dataSize ∧
    LinkChain m q xs rear bs items ∧ m.nodes.clear (xs ++ [rear]) = m₀.nodes ∧
    m.blocks.clear bs = m₀.blocks ∧ m.queues.clear [l] = m₀.queues

namespace Allocates

variable {m₀ m : LinkMemory} {l : Addr} {n : Nat} {items : List Block}

theorem enqueued {q : LinkQueue} {xs bs : List Addr} {rear node blk : Addr} {item : Block}
    (hchain : LinkChain m q xs rear bs items) (hnodes : m.nodes.clear (xs ++ [rear]) = m₀.nodes)
    (hblocks : m.blocks.clear bs = m₀.blocks) (hqueues : m.queues.clear [l] = m₀.queues)
    (hnode : m.nodes node = none) (hblk : m.blocks blk = none)
    (hsize : item.length = q.dataSize) :
    Allocates m₀
      { nodes := Function.update (Function.update m.nodes node (some ⟨none, none⟩)) rear
          (some ⟨some blk, some node⟩)
        blocks := Function.update m.blocks blk (some item)
        queues := Function.update m.queues l (some { q with rear := some node }) }
      l q.dataSize (items ++ [item]) := by
  refine ⟨_, xs ++ [rear], node, bs ++ [blk], Function.update_self .., rfl,
    hchain.snoc hnode hblk hsize _, ?_, ?_, ?_⟩
  · have hmem : rear ∈ xs ++ [rear] ++ [node] := by simp
    rw [Store.clear_update_of_mem hmem, Store.clear_malloc hnode, hnodes]
  · rw [Store.clear_malloc hblk, hblocks]
  · rw [Store.clear_update_of_mem (by simp), hqueues]

/-- A new payload and a new node become the queue's. -/
theorem enLinkQueue (h : Allocates m₀ m l n items) {data : Option Block}
    (hdata : hasSize data n = true) {node blk : Addr} (hnode : m.nodes node = none)
    (hblk : m.blocks blk = none) :
    ∃ m', enLinkQueue m (some l) data n (some node) (some blk) = some (m', .QUEUE_SUCCESS) ∧
      Allocates m₀ m' l n (items ++ [payload data n]) := by
  obtain ⟨q, xs, rear, bs, hq, rfl, hchain, hnodes, hblocks, hqueues⟩ := h
  rcases data with _ | bytes
  · exact ⟨_, enLinkQueue_null_eq hq hchain.rear_eq hchain.last hnode,
      enqueued hchain hnodes hblocks hqueues hnode hblk length_uninit⟩
  · have hlen : q.dataSize ≤ bytes.length := by simpa [hasSize] using hdata
    have hsize : (bytes.take q.dataSize).length = q.dataSize := by simp [hlen]
    exact ⟨_, enLinkQueue_eq hq hchain.rear_eq hchain.last hchain.front_cases hnode hlen,
      enqueued hchain hnodes hblocks hqueues hnode hblk hsize⟩

theorem deLinkQueue_nil (h : Allocates m₀ m l n []) (data : Option Block) :
    LibQueue.deLinkQueue m (some l) data n = some (m, .QUEUE_EMPTY, data) := by
  obtain ⟨q, xs, rear, bs, hq, rfl, hchain, -⟩ := h
  exact Represents.deLinkQueue_nil ⟨q, xs, rear, bs, hq, rfl, hchain⟩ data

/-- The first node and its payload are freed, with a buffer for the bytes or without. -/
theorem deLinkQueue_cons {item : Block} (h : Allocates m₀ m l n (item :: items))
    {data : Option Block} (hdata : hasSize data n = true) :
    ∃ m' out, LibQueue.deLinkQueue m (some l) data n = some (m', .QUEUE_SUCCESS, out) ∧
      Allocates m₀ m' l n items := by
  obtain ⟨q, xs, rear, bs, hq, rfl, hchain, hnodes, hblocks, hqueues⟩ := h
  obtain ⟨f, b, next, xs, bs, rfl, rfl, hne, hfront, hf, hb, hitem, hrest⟩ := hchain.uncons
  have hafter : Allocates m₀
      { nodes := Function.update m.nodes f none
        blocks := Function.update m.blocks b none
        queues := Function.update m.queues l (some { q with front := next }) }
      l q.dataSize items := by
    refine ⟨_, xs, rear, bs, Function.update_self .., rfl, hrest _, ?_, ?_, ?_⟩
    · rw [Store.clear_free]
      exact hnodes
    · rw [Store.clear_free]
      exact hblocks
    · rw [Store.clear_update_of_mem (by simp), hqueues]
  rcases data with _ | buf
  · exact ⟨_, _, deLinkQueue_null_eq hq hne hfront hf hb, hafter⟩
  · have hlen : q.dataSize ≤ buf.length := by simpa [hasSize] using hdata
    exact ⟨_, _, deLinkQueue_eq hq hne hfront hf hb hitem hlen, hafter⟩

end Allocates

/-- A new queue has its own object and one node. -/
theorem initLinkQueue_allocates {m₀ : LinkMemory} {n : Nat} (hn : 0 < n) {node l : Addr}
    (hnode : m₀.nodes node = none) (hqueue : m₀.queues l = none) :
    ∃ m, initLinkQueue m₀ n (some node) (some l) = some (m, some l) ∧
      Allocates m₀ m l n [] := by
  refine ⟨_, initLinkQueue_eq m₀ (Nat.ne_of_gt hn) node l, ⟨some node, some node, n⟩, [], node,
    [], Function.update_self .., rfl, ⟨?_, rfl, Function.update_self ..⟩, ?_, ?_, ?_⟩
  · constructor <;> simp [PtrPath]
  · exact (Store.clear_malloc hnode []).trans Store.clear_nil
  · exact Store.clear_nil
  · exact (Store.clear_malloc hqueue []).trans Store.clear_nil

/-! ## 3. `DestoryLinkQueue` -/

section Destory

variable {m₀ m : LinkMemory} {l : Addr} {n : Nat} {items : List Block}

theorem destoryTest_eq (h : Allocates m₀ m l n items) :
    destoryTest (some l) m = .ok (decide (items ≠ [])) := by
  obtain ⟨q, xs, rear, bs, hq, rfl, hchain, -⟩ := h
  have hiff : q.front ≠ q.rear ↔ items ≠ [] := by
    rw [hchain.rear_eq, Ne, hchain.items.start_eq_rear_iff]
  rw [← decide_eq_decide.mpr hiff]
  simp only [destoryTest, Store.load_some, hq, ofOption]
  rfl

theorem destoryRound_cons {item : Block} (h : Allocates m₀ m l n (item :: items)) :
    Returns (destoryRound (some l) m) fun m' => Allocates m₀ m' l n items := by
  obtain ⟨m', out, hcall, hrest⟩ := h.deLinkQueue_cons (rfl : hasSize none n = true)
  obtain ⟨q, -, -, -, hq, rfl, -⟩ := h
  refine ⟨m', ?_, hrest⟩
  simp only [destoryRound, Store.load_some, hq, ofOption]
  exact congrArg (fun r => ofOption r >>= fun x => pure x.1) hcall

/-- Every round takes one item out, and the rounds end with none. -/
theorem destoryLoop_returns (h : Allocates m₀ m l n items) {fuel : Nat}
    (hfuel : items.length < fuel) :
    Returns (whileLoop (destoryTest (some l)) (destoryRound (some l)) fuel m)
      fun m' => Allocates m₀ m' l n [] := by
  induction items generalizing m fuel with
  | nil =>
      obtain ⟨fuel, rfl⟩ : ∃ k, fuel = k + 1 := ⟨fuel - 1, by omega⟩
      rw [whileLoop_of_false (destoryTest_eq h)]
      exact returns_ok h
  | cons item items ih =>
      obtain ⟨fuel, rfl⟩ : ∃ k, fuel = k + 1 := ⟨fuel - 1, by omega⟩
      obtain ⟨m', hround, hrest⟩ := destoryRound_cons h
      rw [whileLoop_of_true (destoryTest_eq h) hround]
      exact ih hrest (Nat.lt_of_succ_lt_succ hfuel)

/-- The last node and the queue's object are what is left of the queue. -/
theorem destoryLinkQueue_eq (h : Allocates m₀ m l n items) {fuel : Nat}
    (hfuel : items.length < fuel) :
    destoryLinkQueue fuel m (some l) = .ok (m₀, .QUEUE_SUCCESS, none) := by
  obtain ⟨m', hloop, hend⟩ := destoryLoop_returns h hfuel
  obtain ⟨q, xs, rear, bs, hq, -, hchain, hnodes, hblocks, hqueues⟩ := hend
  obtain ⟨rfl, rfl, hfront⟩ := hchain.items.eq_nil
  have hfree : deFreeFront m' (some l) = some { m' with nodes := m₀.nodes } := by
    rw [← hnodes, List.nil_append, Store.clear_singleton]
    simp [deFreeFront, hq, hfront, Store.free_eq hchain.last]
  have hqueue : m'.queues.free (some l) = some m₀.queues := by
    rw [← hqueues, Store.clear_singleton, Store.free_eq hq]
  rw [Store.clear_nil] at hblocks
  simp only [destoryLinkQueue, reduceCtorEq, if_false]
  rw [hloop]
  simp only [bind, Except.bind, hfree, ofOption, hqueue, hblocks]
  rfl

end Destory

/-! ## 4. Whole lives -/

/-- A call with the queue's element size in which the allocations succeed. -/
inductive LinkUse where
  | en (data : Option Block) (linkNode newData : Addr)
  | de (data : Option Block)

def LinkUse.call (dataSize : Nat) : LinkUse → LinkCall
  | .en data linkNode newData => .en data dataSize (some linkNode) (some newData)
  | .de data => .de data dataSize

def useStep (dataSize : Nat) (s : LinkState) (use : LinkUse) : Option LinkState :=
  callStep s (use.call dataSize)

/-- The queue is all that has been allocated since `m₀`. -/
structure ReleaseInv (m₀ : LinkMemory) (dataSize : Nat) (l : Addr) (s : LinkState) : Prop where
  linkQueue_eq : s.linkQueue = some l
  sound : s.fault = false
  allocates : Allocates m₀ s.mem l dataSize s.history.outstanding

theorem releaseInv_step {m₀ : LinkMemory} {n : Nat} {l : Addr} (s : LinkState) (use : LinkUse)
    (t : LinkState) (hs : ReleaseInv m₀ n l s) (hstep : useStep n s use = some t) :
    ReleaseInv m₀ n l t := by
  obtain ⟨hl, hsound, halloc⟩ := hs
  cases use with
  | en data node blk =>
      simp only [useStep, LinkUse.call, callStep, hl, Option.ite_none_right_eq_some,
        Bool.and_eq_true, Store.mayReturn_some] at hstep
      obtain ⟨⟨⟨hdata, hnode⟩, hblk⟩, hstep⟩ := hstep
      obtain ⟨m', hcall, hitems⟩ := halloc.enLinkQueue hdata hnode hblk
      rw [hcall] at hstep
      obtain rfl := Option.some.inj hstep
      exact ⟨rfl, hsound, by simpa using hitems⟩
  | de data =>
      simp only [useStep, LinkUse.call, callStep, hl, Option.ite_none_right_eq_some] at hstep
      obtain ⟨hdata, hstep⟩ := hstep
      rcases hout : s.history.outstanding with _ | ⟨item, rest⟩
      · rw [hout] at halloc
        rw [halloc.deLinkQueue_nil] at hstep
        obtain rfl := Option.some.inj hstep
        exact ⟨rfl, hsound, by simpa [hout] using halloc⟩
      · rw [hout] at halloc
        obtain ⟨m', out, hcall, hrest⟩ := halloc.deLinkQueue_cons hdata
        rw [hcall] at hstep
        obtain rfl := Option.some.inj hstep
        exact ⟨rfl, hsound, by simpa [hout] using hrest⟩

/-- After any calls on a new queue `DestoryLinkQueue` ends, with the caller's pointer `NULL`
    and the memory as it was before there was the queue. -/
theorem link_queue_releases {m₀ : LinkMemory} {dataSize : Nat} (hpos : 0 < dataSize)
    {linkNode linkQueue : Addr} (hnode : m₀.nodes linkNode = none)
    (hqueue : m₀.queues linkQueue = none) :
    ∃ m, initLinkQueue m₀ dataSize (some linkNode) (some linkQueue) =
        some (m, some linkQueue) ∧
      ∀ uses s, exec (useStep dataSize) (newLink m (some linkQueue)) uses = some s →
        s.fault = false ∧ ∃ enough, ∀ fuel, enough ≤ fuel →
          destoryLinkQueue fuel s.mem s.linkQueue = .ok (m₀, .QUEUE_SUCCESS, none) := by
  obtain ⟨m, hinit, hnew⟩ := initLinkQueue_allocates hpos hnode hqueue
  refine ⟨m, hinit, ?_⟩
  intro uses s hrun
  have hinv : ReleaseInv m₀ dataSize linkQueue (newLink m (some linkQueue)) := ⟨rfl, rfl, hnew⟩
  obtain ⟨hl, hsound, halloc⟩ := exec_invariant releaseInv_step hinv hrun
  refine ⟨hsound, s.history.outstanding.length + 1, ?_⟩
  intro fuel hfuel
  rw [hl]
  exact destoryLinkQueue_eq halloc hfuel

/-- Elements with and without data, of which one is taken out. -/
def threeUses : List LinkUse :=
  [.en (some [some 1]) 3 4, .en none 5 6, .de none]

theorem link_queue_releases_threeUses : ∃ m s,
    initLinkQueue LinkMemory.empty 1 (some 1) (some 2) = some (m, some 2) ∧
      exec (useStep 1) (newLink m (some 2)) threeUses = some s ∧
      s.history.outstanding = [[none]] ∧ ∃ enough, ∀ fuel, enough ≤ fuel →
        destoryLinkQueue fuel s.mem s.linkQueue =
          .ok (LinkMemory.empty, .QUEUE_SUCCESS, none) := by
  obtain ⟨m, hinit, s, hrun, hout⟩ : ∃ m,
      initLinkQueue LinkMemory.empty 1 (some 1) (some 2) = some (m, some 2) ∧
        ∃ s, exec (useStep 1) (newLink m (some 2)) threeUses = some s ∧
          s.history.outstanding = [[none]] :=
    ⟨_, rfl, _, rfl, rfl⟩
  have hnode : LinkMemory.empty.nodes 1 = none := rfl
  have hqueue : LinkMemory.empty.queues 2 = none := rfl
  obtain ⟨m', hinit', hlife⟩ := link_queue_releases Nat.one_pos hnode hqueue
  rw [hinit, Option.some.injEq, Prod.mk.injEq] at hinit'
  obtain ⟨rfl, -⟩ := hinit'
  exact ⟨m, s, hinit, hrun, hout, (hlife threeUses s hrun).2⟩

end SocketPractice.LibQueue
