import SocketPractice.Lib.Memory
import SocketPractice.Lib.Raw
import SocketPractice.Lib.Fifo
import SocketPractice.Lib.Runs

/-!
# The linked queue (`link_queue.c`)

The queue always ends in a node without data.  An enqueue hangs the payload on
that node and a new empty node behind it; a dequeue takes the first node away,
unless it is the last one.  The copy of an enqueue goes to the last node but is
guarded by a test of the first: in a queue of one node the two are the same node,
which has just been given its payload, and in a longer one the first node has had
a payload since it was last.
-/

namespace SocketPractice.LibQueue

open Lib.Memory Lib.Raw Lib.Fifo Lib.Runs

/-- `QUEUE_RET_VALUE` and `RET_ERROR`. -/
inductive QueueRetValue where
  | RET_ERROR
  | QUEUE_SUCCESS
  | QUEUE_FULL
  | QUEUE_EMPTY
deriving DecidableEq, Repr

/-! ## 1. The code -/

structure LinkNode where
  data : Ptr
  next : Ptr
deriving DecidableEq

structure LinkQueue where
  front : Ptr
  rear : Ptr
  dataSize : Nat
deriving DecidableEq

/-- The heap objects of the library: nodes, payloads and the queues themselves. -/
structure LinkMemory where
  nodes : Store LinkNode
  blocks : Store Block
  queues : Store LinkQueue

namespace LinkMemory

def empty : LinkMemory := ⟨fun _ => none, fun _ => none, fun _ => none⟩

/-- `malloc(sizeof(LinkNode))`.  The code assigns both pointers at once. -/
def mallocNode (m : LinkMemory) (p : Ptr) : LinkMemory :=
  { m with nodes := m.nodes.malloc p ⟨none, none⟩ }

def setData (m : LinkMemory) (p v : Ptr) : Option LinkMemory := do
  let x ← m.nodes.load p
  return { m with nodes := ← m.nodes.store p { x with data := v } }

def setNext (m : LinkMemory) (p v : Ptr) : Option LinkMemory := do
  let x ← m.nodes.load p
  return { m with nodes := ← m.nodes.store p { x with next := v } }

def setFront (m : LinkMemory) (linkQueue v : Ptr) : Option LinkMemory := do
  let q ← m.queues.load linkQueue
  return { m with queues := ← m.queues.store linkQueue { q with front := v } }

def setRear (m : LinkMemory) (linkQueue v : Ptr) : Option LinkMemory := do
  let q ← m.queues.load linkQueue
  return { m with queues := ← m.queues.store linkQueue { q with rear := v } }

/-- The node that `linkQueue->front` points to. -/
def front? (m : LinkMemory) (linkQueue : Ptr) : Option LinkNode := do
  m.nodes.load (← m.queues.load linkQueue).front

/-- The node that `linkQueue->rear` points to. -/
def rear? (m : LinkMemory) (linkQueue : Ptr) : Option LinkNode := do
  m.nodes.load (← m.queues.load linkQueue).rear

def next? (m : LinkMemory) (p : Addr) : Option Ptr := (m.nodes p).map LinkNode.next

def data? (m : LinkMemory) (p : Addr) : Option Ptr := (m.nodes p).map LinkNode.data

end LinkMemory

/-- Of the two allocations neither result is tested before it is used. -/
def initLinkQueue (m : LinkMemory) (dataSize : Nat) (linkNode linkQueue : Ptr) :
    Option (LinkMemory × Ptr) := do
  if dataSize ≤ 0 then
    return (m, none)
  let m ← (m.mallocNode linkNode).setData linkNode none
  let m ← m.setNext linkNode none
  let queues := m.queues.malloc linkQueue ⟨none, none, 0⟩
  return ({ m with queues := ← queues.store linkQueue ⟨linkNode, linkNode, dataSize⟩ }, linkQueue)

/-- `linkQueue->rear->data = malloc(..)` where it is `NULL`; whether there is a
    payload then. -/
def enFillRear (m : LinkMemory) (linkQueue newData : Ptr) : Option (LinkMemory × Bool) := do
  let rear ← m.rear? linkQueue
  if rear.data = none then
    let q ← m.queues.load linkQueue
    let m ← { m with blocks := m.blocks.malloc newData (uninit q.dataSize) }.setData q.rear newData
    return (m, (← m.rear? linkQueue).data.isSome)
  return (m, true)

/-- The test `data != NULL && linkQueue->front->data != NULL`. -/
def enTestFront (m : LinkMemory) (linkQueue : Ptr) (data : Option Block) : Option Bool := do
  if data = none then
    return false
  return (← m.front? linkQueue).data.isSome

/-- `memcpy(linkQueue->rear->data, data, linkQueue->dataSize)`. -/
def enCopy (m : LinkMemory) (linkQueue : Ptr) (data : Option Block) : Option LinkMemory := do
  let q ← m.queues.load linkQueue
  let rear ← m.rear? linkQueue
  let dst ← m.blocks.load rear.data
  let dst ← memcpy dst 0 (← data) 0 q.dataSize
  return { m with blocks := ← m.blocks.store rear.data dst }

def enLinkQueue (m : LinkMemory) (linkQueue : Ptr) (data : Option Block) (dataSize : Nat)
    (linkNode newData : Ptr) : Option (LinkMemory × QueueRetValue) := do
  if (← m.queues.load linkQueue).dataSize ≠ dataSize then
    return (m, .RET_ERROR)
  if linkNode = none then
    return (m, .RET_ERROR)
  let m ← (m.mallocNode linkNode).setData linkNode none
  let m ← m.setNext linkNode none
  let (m, filled) ← enFillRear m linkQueue newData
  if !filled then
    return (m, .RET_ERROR)
  let m ← if ← enTestFront m linkQueue data then enCopy m linkQueue data else pure m
  let m ← m.setNext (← m.queues.load linkQueue).rear linkNode
  let m ← m.setRear linkQueue linkNode
  return (m, .QUEUE_SUCCESS)

/-- `memcpy(data, linkQueue->front->data, linkQueue->dataSize)`: the caller's
    buffer afterwards. -/
def deCopy (m : LinkMemory) (linkQueue : Ptr) (data : Option Block) : Option Block := do
  let q ← m.queues.load linkQueue
  let src ← m.blocks.load (← m.front? linkQueue).data
  memcpy (← data) 0 src 0 q.dataSize

/-- `free(linkQueue->front->data)`. -/
def deFreeData (m : LinkMemory) (linkQueue : Ptr) : Option LinkMemory := do
  return { m with blocks := ← m.blocks.free (← m.front? linkQueue).data }

/-- `free(linkQueue->front)`. -/
def deFreeFront (m : LinkMemory) (linkQueue : Ptr) : Option LinkMemory := do
  return { m with nodes := ← m.nodes.free (← m.queues.load linkQueue).front }

/-- The last component is the caller's buffer on return. -/
def deLinkQueue (m : LinkMemory) (linkQueue : Ptr) (data : Option Block) (dataSize : Nat) :
    Option (LinkMemory × QueueRetValue × Option Block) := do
  let q ← m.queues.load linkQueue
  if q.dataSize ≠ dataSize then
    return (m, .RET_ERROR, data)
  if q.front = q.rear then
    return (m, .QUEUE_EMPTY, data)
  let front ← m.front? linkQueue
  let tmp := front.next
  let data ← if data ≠ none ∧ front.data ≠ none then (deCopy m linkQueue data).map some
    else pure data
  let m ← deFreeData m linkQueue
  let m ← m.setData q.front none
  let m ← m.setNext q.front none
  let m ← deFreeFront m linkQueue
  let m ← m.setFront linkQueue tmp
  return (m, .QUEUE_SUCCESS, data)

/-! ## 2. What the pointer writes do -/

namespace LinkMemory

variable {m : LinkMemory} {p : Addr} {x : LinkNode} {q : LinkQueue}

theorem setData_eq (h : m.nodes p = some x) (v : Ptr) :
    m.setData (some p) v =
      some { m with nodes := Function.update m.nodes p (some { x with data := v }) } := by
  simp [setData, h, Store.store_eq h]

theorem setNext_eq (h : m.nodes p = some x) (v : Ptr) :
    m.setNext (some p) v =
      some { m with nodes := Function.update m.nodes p (some { x with next := v }) } := by
  simp [setNext, h, Store.store_eq h]

theorem setFront_eq (h : m.queues p = some q) (v : Ptr) :
    m.setFront (some p) v =
      some { m with queues := Function.update m.queues p (some { q with front := v }) } := by
  simp [setFront, h, Store.store_eq h]

theorem setRear_eq (h : m.queues p = some q) (v : Ptr) :
    m.setRear (some p) v =
      some { m with queues := Function.update m.queues p (some { q with rear := v }) } := by
  simp [setRear, h, Store.store_eq h]

theorem next?_eq (h : m.nodes p = some x) : m.next? p = some x.next := by
  simp [next?, h]

theorem data?_eq (h : m.nodes p = some x) : m.data? p = some x.data := by
  simp [data?, h]

theorem setData_queues {m m' : LinkMemory} {p v : Ptr} (h : m.setData p v = some m') :
    m'.queues = m.queues := by
  simp only [setData, Option.bind_eq_bind, Option.bind_eq_some_iff] at h
  obtain ⟨x, -, nodes, -, h⟩ := h
  cases h
  rfl

theorem exists_of_data? {d : Ptr} (h : m.data? p = some d) :
    ∃ x, m.nodes p = some x ∧ x.data = d := by
  simpa [data?] using h

end LinkMemory

open LinkMemory

theorem deFreeData_queues {m m' : LinkMemory} {linkQueue : Ptr}
    (h : deFreeData m linkQueue = some m') : m'.queues = m.queues := by
  simp only [deFreeData, Option.bind_eq_bind, Option.bind_eq_some_iff] at h
  obtain ⟨x, -, nodes, -, h⟩ := h
  cases h
  rfl

/-! ## 3. The representation -/

/-- From `start` the nodes `xs` lead to `rear`; they carry the payloads `bs`, which
    hold `items` of `n` bytes each. -/
structure LinkItems (m : LinkMemory) (n : Nat) (start : Ptr) (xs : List Addr) (rear : Addr)
    (bs : List Addr) (items : List Block) : Prop where
  path : PtrPath m.next? start xs (some rear)
  nodup : (xs ++ [rear]).Nodup
  data : xs.map m.data? = bs.map fun b => some (some b)
  blocks_nodup : bs.Nodup
  blocks : bs.map m.blocks = items.map some
  size : ∀ item ∈ items, item.length = n

/-- The items of the whole queue: from `front` to `rear`, which carries no payload. -/
structure LinkChain (m : LinkMemory) (q : LinkQueue) (xs : List Addr) (rear : Addr)
    (bs : List Addr) (items : List Block) : Prop where
  items : LinkItems m q.dataSize q.front xs rear bs items
  rear_eq : q.rear = some rear
  last : m.nodes rear = some ⟨none, none⟩

/-- The queue object at `linkQueue` holds `items`, each of `dataSize` bytes. -/
def Represents (m : LinkMemory) (linkQueue : Ptr) (dataSize : Nat) (items : List Block) : Prop :=
  ∃ q xs rear bs, m.queues.load linkQueue = some q ∧ q.dataSize = dataSize ∧
    LinkChain m q xs rear bs items

namespace LinkItems

variable {m m' : LinkMemory} {n : Nat} {start : Ptr} {xs bs : List Addr} {rear : Addr}
  {items : List Block}

theorem allocated (h : LinkItems m n start xs rear bs items) : ∀ x ∈ xs, (m.nodes x).isSome := by
  intro x hx
  have hmem : m.data? x ∈ bs.map fun b => some (some b) := h.data ▸ List.mem_map_of_mem hx
  obtain ⟨b, -, hb⟩ := List.mem_map.mp hmem
  obtain ⟨y, hy, -⟩ := exists_of_data? hb.symm
  rw [hy]
  rfl

theorem blocks_allocated (h : LinkItems m n start xs rear bs items) :
    ∀ b ∈ bs, (m.blocks b).isSome := by
  intro b hb
  have hmem : m.blocks b ∈ items.map some := h.blocks ▸ List.mem_map_of_mem hb
  obtain ⟨item, -, hitem⟩ := List.mem_map.mp hmem
  rw [← hitem]
  rfl

theorem not_mem_of_none (h : LinkItems m n start xs rear bs items) {x : Addr}
    (hx : m.nodes x = none) : x ∉ xs := by
  intro hmem
  have := h.allocated x hmem
  rw [hx] at this
  exact absurd this (by simp)

theorem not_mem_blocks_of_none (h : LinkItems m n start xs rear bs items) {b : Addr}
    (hb : m.blocks b = none) : b ∉ bs := by
  intro hmem
  have := h.blocks_allocated b hmem
  rw [hb] at this
  exact absurd this (by simp)

/-- What happens elsewhere does not matter. -/
theorem congr (h : LinkItems m n start xs rear bs items)
    (hnodes : ∀ x ∈ xs, m'.nodes x = m.nodes x) (hblocks : ∀ b ∈ bs, m'.blocks b = m.blocks b) :
    LinkItems m' n start xs rear bs items := by
  refine ⟨?_, h.nodup, ?_, h.blocks_nodup, ?_, h.size⟩
  · exact h.path.congr fun x hx => by simp [next?, hnodes x hx]
  · rw [← h.data]
    exact List.map_congr_left fun x hx => by simp [data?, hnodes x hx]
  · rw [List.map_congr_left hblocks, h.blocks]

/-- `rear` with a payload and a node behind it is one more item. -/
theorem snoc (h : LinkItems m n start xs rear bs items) {node blk : Addr} {item : Block}
    (hrear : m.nodes rear = some ⟨some blk, some node⟩) (hblk : m.blocks blk = some item)
    (hsize : item.length = n) (hnode : node ∉ xs ++ [rear]) (hnot : blk ∉ bs) :
    LinkItems m n start (xs ++ [rear]) node (bs ++ [blk]) (items ++ [item]) := by
  constructor
  · exact h.path.snoc (next?_eq hrear)
  · exact List.nodup_append.mpr ⟨h.nodup, List.nodup_singleton _, by
      rintro x hx y hy rfl
      rw [List.mem_singleton.mp hy] at hx
      exact hnode hx⟩
  · rw [List.map_append, List.map_append, h.data]
    simp [data?_eq hrear]
  · exact List.nodup_append.mpr ⟨h.blocks_nodup, List.nodup_singleton _, by
      rintro b hb y hy rfl
      rw [List.mem_singleton.mp hy] at hb
      exact hnot hb⟩
  · rw [List.map_append, List.map_append, h.blocks]
    simp [hblk]
  · intro i hi
    rcases List.mem_append.mp hi with hi | hi
    · exact h.size i hi
    · rw [List.mem_singleton.mp hi]
      exact hsize

/-- The first item, in its own node and its own payload, and the items behind it. -/
theorem uncons {item : Block} (h : LinkItems m n start xs rear bs (item :: items)) :
    ∃ f next b xs' bs', xs = f :: xs' ∧ bs = b :: bs' ∧ start = some f ∧
      m.nodes f = some ⟨some b, next⟩ ∧ m.blocks b = some item ∧ item.length = n ∧
      LinkItems m n next xs' rear bs' items := by
  rcases bs with _ | ⟨b, bs⟩
  · exact absurd h.blocks (by simp)
  rcases xs with _ | ⟨f, xs⟩
  · exact absurd h.data (by simp)
  obtain ⟨hb, hbs⟩ := List.cons.inj h.blocks
  obtain ⟨hdata, hxs⟩ := List.cons.inj h.data
  obtain ⟨⟨d, next⟩, hf, rfl⟩ := exists_of_data? hdata
  obtain ⟨hstart, p, hp, hpath⟩ := h.path
  obtain rfl : p = next := by simpa [hp] using next?_eq hf
  refine ⟨f, p, b, xs, bs, rfl, rfl, hstart, hf, hb, h.size item (by simp), hpath, ?_, hxs, ?_,
    hbs, ?_⟩
  · exact (List.nodup_cons.mp h.nodup).2
  · exact (List.nodup_cons.mp h.blocks_nodup).2
  · exact fun i hi => h.size i (List.mem_cons_of_mem item hi)

theorem eq_nil (h : LinkItems m n start xs rear bs []) : xs = [] ∧ bs = [] ∧ start = some rear := by
  obtain rfl : bs = [] := by simpa using h.blocks
  obtain rfl : xs = [] := by simpa using h.data
  exact ⟨rfl, rfl, h.path⟩

/-- The items are none exactly when the first node is the last. -/
theorem start_eq_rear_iff (h : LinkItems m n start xs rear bs items) :
    start = some rear ↔ items = [] := by
  constructor
  · intro hstart
    rcases items with _ | ⟨item, items⟩
    · rfl
    · obtain ⟨f, -, -, xs', -, rfl, -, hf, -⟩ := h.uncons
      obtain rfl : f = rear := by simpa [hf] using hstart
      have := h.nodup
      simp at this
  · rintro rfl
    exact h.eq_nil.2.2

end LinkItems

/-! ## 4. The two operations -/

section Operations

variable {m : LinkMemory} {l : Addr} {q : LinkQueue}

/-- The guard of the copy is true whenever the last node has a payload by then. -/
theorem enTestFront_eq {data : Block} {f : Addr} {x : LinkNode} (hq : m.queues l = some q)
    (hf : q.front = some f) (hx : m.nodes f = some x) (hdata : x.data.isSome) :
    enTestFront m (some l) (some data) = some true := by
  simp [enTestFront, front?, hq, hf, hx, hdata]

theorem enLinkQueue_eq {node blk rear : Addr} {data : Block} (hq : m.queues l = some q)
    (hrear : q.rear = some rear) (hlast : m.nodes rear = some ⟨none, none⟩)
    (hfront : q.front = some rear ∨
      ∃ f x, q.front = some f ∧ f ≠ rear ∧ m.nodes f = some x ∧ x.data.isSome)
    (hnode : m.nodes node = none) (hlen : q.dataSize ≤ data.length) :
    enLinkQueue m (some l) (some data) q.dataSize (some node) (some blk) =
      some ({ nodes := Function.update (Function.update m.nodes node (some ⟨none, none⟩)) rear
                (some ⟨some blk, some node⟩)
              blocks := Function.update m.blocks blk (some (data.take q.dataSize))
              queues := Function.update m.queues l (some { q with rear := some node }) },
        .QUEUE_SUCCESS) := by
  have hne : rear ≠ node := (Store.ne_of_none_of_some hnode hlast).symm
  -- the memory in which the guard of the copy is evaluated
  have htest : enTestFront
      { nodes := Function.update (Function.update m.nodes node (some ⟨none, none⟩)) rear
          (some ⟨some blk, none⟩)
        blocks := Function.update m.blocks blk (some (uninit q.dataSize))
        queues := m.queues } (some l) (some data) = some true := by
    rcases hfront with hf | ⟨f, x, hf, hfr, hx, hdata⟩
    · exact enTestFront_eq hq hf (Function.update_self ..) rfl
    · have hfn : f ≠ node := (Store.ne_of_none_of_some hnode hx).symm
      exact enTestFront_eq hq hf (by simpa [hfr, hfn] using hx) hdata
  simp [enLinkQueue, hq, mallocNode, setData, setNext, Store.store, enFillRear, rear?, hrear,
    htest, enCopy, setRear, hlast, hne, memcpy_whole, hlen]

/-- Without data nothing is copied: the payload stays as `malloc` left it. -/
theorem enLinkQueue_null_eq {node blk rear : Addr} (hq : m.queues l = some q)
    (hrear : q.rear = some rear) (hlast : m.nodes rear = some ⟨none, none⟩)
    (hnode : m.nodes node = none) :
    enLinkQueue m (some l) none q.dataSize (some node) (some blk) =
      some ({ nodes := Function.update (Function.update m.nodes node (some ⟨none, none⟩)) rear
                (some ⟨some blk, some node⟩)
              blocks := Function.update m.blocks blk (some (uninit q.dataSize))
              queues := Function.update m.queues l (some { q with rear := some node }) },
        .QUEUE_SUCCESS) := by
  have hne : rear ≠ node := (Store.ne_of_none_of_some hnode hlast).symm
  simp [enLinkQueue, hq, mallocNode, setData, setNext, Store.store, enFillRear, rear?, hrear,
    enTestFront, setRear, hlast, hne]

theorem deLinkQueue_eq {f b : Addr} {next : Ptr} {item buf : Block} (hq : m.queues l = some q)
    (hne : q.front ≠ q.rear) (hfront : q.front = some f) (hf : m.nodes f = some ⟨some b, next⟩)
    (hb : m.blocks b = some item) (hitem : item.length = q.dataSize)
    (hlen : q.dataSize ≤ buf.length) :
    deLinkQueue m (some l) (some buf) q.dataSize =
      some ({ nodes := Function.update m.nodes f none
              blocks := Function.update m.blocks b none
              queues := Function.update m.queues l (some { q with front := next }) },
        .QUEUE_SUCCESS, some (item ++ buf.drop q.dataSize)) := by
  have hcopy : memcpy buf 0 item 0 q.dataSize = some (item ++ buf.drop q.dataSize) := by
    have htake : item.take q.dataSize = item := List.take_of_length_le (by omega)
    rw [memcpy_eq (by omega) (by omega), slice_zero, htake]
    simp
  rw [hfront] at hne
  simp [deLinkQueue, hq, hne, hfront, front?, hf, deCopy, hb, hcopy, deFreeData,
    setData, setNext, Store.store, deFreeFront, Store.free, setFront]

theorem deLinkQueue_null_eq {f b : Addr} {next : Ptr} {item : Block} (hq : m.queues l = some q)
    (hne : q.front ≠ q.rear) (hfront : q.front = some f) (hf : m.nodes f = some ⟨some b, next⟩)
    (hb : m.blocks b = some item) :
    deLinkQueue m (some l) none q.dataSize =
      some ({ nodes := Function.update m.nodes f none
              blocks := Function.update m.blocks b none
              queues := Function.update m.queues l (some { q with front := next }) },
        .QUEUE_SUCCESS, none) := by
  rw [hfront] at hne
  simp [deLinkQueue, hq, hne, hfront, front?, hf, hb, deFreeData,
    setData, setNext, Store.store, deFreeFront, Store.free, setFront]

/-- A call with another size is refused before anything is done. -/
theorem enLinkQueue_other {m : LinkMemory} {linkQueue : Ptr} {n k : Nat} {items : List Block}
    (h : Represents m linkQueue n items) (hk : k ≠ n) (data : Option Block)
    (linkNode newData : Ptr) :
    enLinkQueue m linkQueue data k linkNode newData = some (m, .RET_ERROR) := by
  obtain ⟨q, -, -, -, hq, rfl, -⟩ := h
  simp [enLinkQueue, hq, hk.symm]

theorem deLinkQueue_other {m : LinkMemory} {linkQueue : Ptr} {n k : Nat} {items : List Block}
    (h : Represents m linkQueue n items) (hk : k ≠ n) (data : Option Block) :
    deLinkQueue m linkQueue data k = some (m, .RET_ERROR, data) := by
  obtain ⟨q, -, -, -, hq, rfl, -⟩ := h
  simp [deLinkQueue, hq, hk.symm]

end Operations

section Represents

variable {m : LinkMemory} {l : Addr} {n : Nat} {items : List Block}

/-- `front` is the last node, or another one that has a payload. -/
theorem LinkChain.front_cases {q : LinkQueue} {xs bs : List Addr} {rear : Addr}
    (h : LinkChain m q xs rear bs items) :
    q.front = some rear ∨
      ∃ f x, q.front = some f ∧ f ≠ rear ∧ m.nodes f = some x ∧ x.data.isSome := by
  rcases items with _ | ⟨item, items⟩
  · exact .inl h.items.eq_nil.2.2
  · right
    obtain ⟨f, next, b, xs', bs', rfl, rfl, hfront, hf, -⟩ := h.items.uncons
    refine ⟨f, _, hfront, ?_, hf, rfl⟩
    rintro rfl
    have := h.items.nodup
    simp at this

/-- The payload on the last node and a node behind it are one more item. -/
theorem LinkChain.snoc {q : LinkQueue} {xs bs : List Addr} {rear : Addr}
    (h : LinkChain m q xs rear bs items) {node blk : Addr} (hnode : m.nodes node = none)
    (hblk : m.blocks blk = none) {item : Block} (hsize : item.length = q.dataSize)
    (queues : Store LinkQueue) :
    LinkChain
      { nodes := Function.update (Function.update m.nodes node (some ⟨none, none⟩)) rear
          (some ⟨some blk, some node⟩)
        blocks := Function.update m.blocks blk (some item)
        queues := queues }
      { q with rear := some node } (xs ++ [rear]) node (bs ++ [blk]) (items ++ [item]) := by
  have hnr : node ≠ rear := Store.ne_of_none_of_some hnode h.last
  have hnx : node ∉ xs := h.items.not_mem_of_none hnode
  have hbx : blk ∉ bs := h.items.not_mem_blocks_of_none hblk
  have hrx : rear ∉ xs := by
    have := h.items.nodup
    simp only [List.nodup_append, List.mem_singleton] at this
    exact fun hmem => this.2.2 rear hmem rear rfl rfl
  constructor
  · refine (h.items.congr ?_ ?_).snoc (Function.update_self ..) (Function.update_self ..)
      hsize (by simp [hnx, hnr]) hbx
    · intro x hx
      have hxr : x ≠ rear := fun heq => hrx (heq ▸ hx)
      have hxn : x ≠ node := fun heq => hnx (heq ▸ hx)
      simp [hxr, hxn]
    · intro b hb
      have hbb : b ≠ blk := fun heq => hbx (heq ▸ hb)
      simp [hbb]
  · rfl
  · simp [hnr]

theorem LinkChain.enqueued {q : LinkQueue} {xs bs : List Addr} {rear : Addr}
    (h : LinkChain m q xs rear bs items) {node blk : Addr} (hnode : m.nodes node = none)
    (hblk : m.blocks blk = none) {item : Block} (hsize : item.length = q.dataSize) :
    Represents
      { nodes := Function.update (Function.update m.nodes node (some ⟨none, none⟩)) rear
          (some ⟨some blk, some node⟩)
        blocks := Function.update m.blocks blk (some item)
        queues := Function.update m.queues l (some { q with rear := some node }) }
      (some l) q.dataSize (items ++ [item]) :=
  ⟨_, xs ++ [rear], node, bs ++ [blk], Function.update_self .., rfl,
    h.snoc hnode hblk hsize _⟩

/-- `EnLinkQueue` puts the first `dataSize` bytes of the data behind the others. -/
theorem Represents.enLinkQueue (h : Represents m (some l) n items) {data : Block}
    (hlen : n ≤ data.length) {node blk : Addr} (hnode : m.nodes node = none)
    (hblk : m.blocks blk = none) :
    ∃ m', enLinkQueue m (some l) (some data) n (some node) (some blk) =
        some (m', .QUEUE_SUCCESS) ∧ Represents m' (some l) n (items ++ [data.take n]) := by
  obtain ⟨q, xs, rear, bs, hq, rfl, hchain⟩ := h
  have hsize : (data.take q.dataSize).length = q.dataSize := by simp [hlen]
  exact ⟨_, enLinkQueue_eq hq hchain.rear_eq hchain.last hchain.front_cases hnode hlen,
    hchain.enqueued hnode hblk hsize⟩

/-- Without data it puts a payload there that is not initialised. -/
theorem Represents.enLinkQueue_null (h : Represents m (some l) n items) {node blk : Addr}
    (hnode : m.nodes node = none) (hblk : m.blocks blk = none) :
    ∃ m', LibQueue.enLinkQueue m (some l) none n (some node) (some blk) =
        some (m', .QUEUE_SUCCESS) ∧ Represents m' (some l) n (items ++ [uninit n]) := by
  obtain ⟨q, xs, rear, bs, hq, rfl, hchain⟩ := h
  exact ⟨_, enLinkQueue_null_eq hq hchain.rear_eq hchain.last hnode,
    hchain.enqueued hnode hblk length_uninit⟩

theorem Represents.deLinkQueue_nil (h : Represents m (some l) n []) (data : Option Block) :
    deLinkQueue m (some l) data n = some (m, .QUEUE_EMPTY, data) := by
  obtain ⟨q, xs, rear, bs, hq, rfl, hchain⟩ := h
  have hfront : q.front = q.rear := by
    rw [hchain.rear_eq]
    exact hchain.items.eq_nil.2.2
  simp only [Store.load_some] at hq
  simp [deLinkQueue, hq, hfront]

/-- The oldest item is in the first node, and with the first node and its payload away there
    is one item less. -/
theorem LinkChain.uncons {q : LinkQueue} {xs bs : List Addr} {rear : Addr} {item : Block}
    (h : LinkChain m q xs rear bs (item :: items)) :
    ∃ f b next xs' bs', xs = f :: xs' ∧ bs = b :: bs' ∧ q.front ≠ q.rear ∧ q.front = some f ∧
      m.nodes f = some ⟨some b, next⟩ ∧ m.blocks b = some item ∧ item.length = q.dataSize ∧
      ∀ queues, LinkChain
        { nodes := Function.update m.nodes f none
          blocks := Function.update m.blocks b none
          queues := queues }
        { q with front := next } xs' rear bs' items := by
  have hne : q.front ≠ q.rear := by
    rw [h.rear_eq, Ne, h.items.start_eq_rear_iff]
    simp
  have hnodup := h.items.nodup
  have hbnodup := h.items.blocks_nodup
  obtain ⟨f, next, b, xs, bs, rfl, rfl, hfront, hf, hb, hitem, hrest⟩ := h.items.uncons
  obtain ⟨hfx, -⟩ := List.nodup_cons.mp hnodup
  obtain ⟨hbx, -⟩ := List.nodup_cons.mp hbnodup
  refine ⟨f, b, next, xs, bs, rfl, rfl, hne, hfront, hf, hb, hitem, fun queues => ?_⟩
  refine ⟨hrest.congr ?_ ?_, h.rear_eq, ?_⟩
  · intro x hx
    have hxf : x ≠ f := fun heq => hfx (by simp [← heq, hx])
    simp [hxf]
  · intro c hc
    have hcb : c ≠ b := fun heq => hbx (heq ▸ hc)
    simp [hcb]
  · have hrf : rear ≠ f := fun heq => hfx (by simp [heq])
    simpa [hrf] using h.last

theorem Represents.uncons {item : Block} (h : Represents m (some l) n (item :: items)) :
    ∃ q f b next, m.queues l = some q ∧ q.dataSize = n ∧ q.front ≠ q.rear ∧ q.front = some f ∧
      m.nodes f = some ⟨some b, next⟩ ∧ m.blocks b = some item ∧ item.length = n ∧
      Represents
        { nodes := Function.update m.nodes f none
          blocks := Function.update m.blocks b none
          queues := Function.update m.queues l (some { q with front := next }) }
        (some l) n items := by
  obtain ⟨q, xs, rear, bs, hq, rfl, hchain⟩ := h
  obtain ⟨f, b, next, xs', bs', -, -, hne, hfront, hf, hb, hitem, hrest⟩ := hchain.uncons
  exact ⟨q, f, b, next, hq, rfl, hne, hfront, hf, hb, hitem, _, xs', rear, bs',
    Function.update_self .., rfl, hrest _⟩

/-- `DeLinkQueue` copies the oldest item out, over the start of the caller's
    buffer, and takes it away. -/
theorem Represents.deLinkQueue_cons {item : Block} (h : Represents m (some l) n (item :: items))
    {buf : Block} (hlen : n ≤ buf.length) :
    ∃ m', deLinkQueue m (some l) (some buf) n =
        some (m', .QUEUE_SUCCESS, some (item ++ buf.drop n)) ∧
      Represents m' (some l) n items := by
  obtain ⟨q, f, b, next, hq, rfl, hne, hfront, hf, hb, hitem, hrest⟩ := h.uncons
  exact ⟨_, deLinkQueue_eq hq hne hfront hf hb hitem hlen, hrest⟩

/-- Without a buffer it only takes it away. -/
theorem Represents.deLinkQueue_null {item : Block} (h : Represents m (some l) n (item :: items)) :
    ∃ m', deLinkQueue m (some l) none n = some (m', .QUEUE_SUCCESS, none) ∧
      Represents m' (some l) n items := by
  obtain ⟨q, f, b, next, hq, rfl, hne, hfront, hf, hb, -, hrest⟩ := h.uncons
  exact ⟨_, deLinkQueue_null_eq hq hne hfront hf hb, hrest⟩

/-- With a size and both allocations there is a queue. -/
theorem initLinkQueue_eq (m : LinkMemory) {n : Nat} (hn : n ≠ 0) (node lq : Addr) :
    initLinkQueue m n (some node) (some lq) =
      some ({ m with
        nodes := Function.update m.nodes node (some ⟨none, none⟩)
        queues := Function.update m.queues lq (some ⟨some node, some node, n⟩) }, some lq) := by
  simp [initLinkQueue, hn, mallocNode, setData, setNext, Store.store]

/-- `InitLinkQueue` gives an empty queue whenever it gives a queue at all. -/
theorem initLinkQueue_empty {m m' : LinkMemory} {linkNode linkQueue : Ptr}
    (hinit : initLinkQueue m n linkNode linkQueue = some (m', some l)) :
    Represents m' (some l) n [] := by
  by_cases hn : n = 0
  · simp [initLinkQueue, hn] at hinit
  rcases linkNode with _ | node
  · simp [initLinkQueue, hn, mallocNode, setData, Store.malloc] at hinit
  rcases linkQueue with _ | lq
  · simp [initLinkQueue, hn, mallocNode, setData, setNext, Store.malloc, Store.store] at hinit
  rw [initLinkQueue_eq m hn] at hinit
  obtain ⟨rfl, rfl⟩ : _ ∧ lq = l := by simpa using hinit
  refine ⟨_, [], node, [], Function.update_self .., rfl, ?_, rfl, Function.update_self ..⟩
  constructor <;> simp [PtrPath]

end Represents

/-! ## 5. Runs -/

structure LinkState where
  mem : LinkMemory
  linkQueue : Ptr
  /-- What the calls that returned `QUEUE_SUCCESS` put in, and how much they took out. -/
  history : History Block
  /-- A call accessed memory that is not there. -/
  fault : Bool

/-- The state before the first call, on the queue that `InitLinkQueue` returned. -/
def newLink (m : LinkMemory) (linkQueue : Ptr) : LinkState :=
  ⟨m, linkQueue, History.empty, false⟩

/-- A call, with what `malloc` returns in it. -/
inductive LinkEvent where
  | en (data : Block) (linkNode newData : Addr)
  | de (data : Block)

/-- The calls with the element size `dataSize`, a data argument of at least that
    many bytes, and successful allocations. -/
def linkStep (dataSize : Nat) (s : LinkState) : LinkEvent → Option LinkState
  | .en data linkNode newData =>
      if dataSize ≤ data.length ∧ s.mem.nodes linkNode = none ∧ s.mem.blocks newData = none then
        match enLinkQueue s.mem s.linkQueue (some data) dataSize (some linkNode)
            (some newData) with
        | none => some { s with fault := true }
        | some (m, ret) => some { s with
            mem := m
            history := if ret = .QUEUE_SUCCESS then s.history.enter (data.take dataSize)
              else s.history }
      else none
  | .de data =>
      if dataSize ≤ data.length then
        match deLinkQueue s.mem s.linkQueue (some data) dataSize with
        | none => some { s with fault := true }
        | some (m, ret, _) => some { s with
            mem := m
            history := if ret = .QUEUE_SUCCESS then s.history.leave else s.history }
      else none

/-- What the next call finds and does when `items` are outstanding. -/
structure LinkFifo (dataSize : Nat) (m : LinkMemory) (linkQueue : Ptr) (items : List Block) :
    Prop where
  represents : Represents m linkQueue dataSize items
  enqueue : ∀ data linkNode newData, dataSize ≤ data.length → m.nodes linkNode = none →
    m.blocks newData = none → ∃ m', enLinkQueue m linkQueue (some data) dataSize (some linkNode)
      (some newData) = some (m', .QUEUE_SUCCESS)
  empty : items = [] → ∀ data,
    deLinkQueue m linkQueue data dataSize = some (m, .QUEUE_EMPTY, data)
  dequeue : ∀ item rest, items = item :: rest → ∀ data : Block, dataSize ≤ data.length →
    ∃ m', deLinkQueue m linkQueue (some data) dataSize =
      some (m', .QUEUE_SUCCESS, some (item ++ data.drop dataSize))

theorem Represents.linkFifo {m : LinkMemory} {l : Addr} {n : Nat} {items : List Block}
    (h : Represents m (some l) n items) : LinkFifo n m (some l) items := by
  constructor
  · exact h
  · intro data linkNode newData hlen hnode hblk
    obtain ⟨m', heq, -⟩ := h.enLinkQueue hlen hnode hblk
    exact ⟨m', heq⟩
  · rintro rfl data
    exact h.deLinkQueue_nil data
  · rintro item rest rfl data hlen
    obtain ⟨m', heq, -⟩ := h.deLinkQueue_cons hlen
    exact ⟨m', heq⟩

/-- The queue holds what is outstanding. -/
structure LinkInv (dataSize : Nat) (l : Addr) (s : LinkState) : Prop where
  linkQueue_eq : s.linkQueue = some l
  sound : s.fault = false
  represents : Represents s.mem (some l) dataSize s.history.outstanding

/-- `DeLinkQueue`, with a buffer or without, takes the oldest item out if there is one. -/
theorem LinkInv.deLinkQueue {n : Nat} {l : Addr} {s : LinkState} (h : LinkInv n l s)
    (data : Option Block) (hlen : ∀ buf, data = some buf → n ≤ buf.length) :
    ∃ m ret out, deLinkQueue s.mem s.linkQueue data n = some (m, ret, out) ∧
      LinkInv n l { s with
        mem := m
        history := if ret = .QUEUE_SUCCESS then s.history.leave else s.history } := by
  obtain ⟨hl, hsound, hrep⟩ := h
  rw [hl]
  rcases hout : s.history.outstanding with _ | ⟨item, rest⟩
  · rw [hout] at hrep
    exact ⟨_, _, _, hrep.deLinkQueue_nil data, rfl, hsound, by simpa [hout] using hrep⟩
  rw [hout] at hrep
  rcases data with _ | buf
  · obtain ⟨m, hcall, hrest⟩ := hrep.deLinkQueue_null
    exact ⟨m, _, _, hcall, rfl, hsound, by simpa [hout] using hrest⟩
  · obtain ⟨m, hcall, hrest⟩ := hrep.deLinkQueue_cons (hlen buf rfl)
    exact ⟨m, _, _, hcall, rfl, hsound, by simpa [hout] using hrest⟩

theorem linkInv_step {n : Nat} {l : Addr} (s : LinkState) (e : LinkEvent) (u : LinkState)
    (hs : LinkInv n l s) (hstep : linkStep n s e = some u) : LinkInv n l u := by
  cases e with
  | en data linkNode newData =>
      obtain ⟨hl, hsound, hrep⟩ := hs
      simp only [linkStep, Option.ite_none_right_eq_some] at hstep
      obtain ⟨⟨hlen, hnode, hblk⟩, hstep⟩ := hstep
      obtain ⟨m', heq, hrep'⟩ := hrep.enLinkQueue hlen hnode hblk
      rw [hl, heq] at hstep
      obtain rfl := Option.some.inj hstep
      exact ⟨rfl, hsound, by simpa using hrep'⟩
  | de data =>
      simp only [linkStep, Option.ite_none_right_eq_some] at hstep
      obtain ⟨hlen, hstep⟩ := hstep
      obtain ⟨m, ret, out, heq, hinv⟩ := hs.deLinkQueue (some data) <| by
        rintro buf ⟨⟩
        exact hlen
      rw [heq] at hstep
      obtain rfl := Option.some.inj hstep
      exact hinv

/-- In every state of every run on a queue from `InitLinkQueue` the queue represents
    what is outstanding, and the next call behaves as on a FIFO queue of that. -/
theorem link_queue_fifo {m m' : LinkMemory} {dataSize : Nat} {linkNode linkQueue : Ptr}
    {l : Addr} (hinit : initLinkQueue m dataSize linkNode linkQueue = some (m', some l))
    (evs : List LinkEvent) (s : LinkState)
    (hrun : exec (linkStep dataSize) (newLink m' (some l)) evs = some s) :
    s.fault = false ∧ LinkFifo dataSize s.mem s.linkQueue s.history.outstanding := by
  have hnew : LinkInv dataSize l (newLink m' (some l)) := ⟨rfl, rfl, initLinkQueue_empty hinit⟩
  have hinv := exec_invariant linkInv_step hnew hrun
  exact ⟨hinv.sound, hinv.linkQueue_eq ▸ hinv.represents.linkFifo⟩

/-- Two enqueues and a dequeue of elements of two bytes. -/
def twoIn : List LinkEvent :=
  [.en [some 1, some 2] 3 4, .en [some 7, some 8] 5 6, .de [none, none, some 9]]

theorem link_queue_fifo_twoIn : ∃ m' l s,
    initLinkQueue LinkMemory.empty 2 (some 1) (some 2) = some (m', some l) ∧
      exec (linkStep 2) (newLink m' (some l)) twoIn = some s ∧
      s.history.outstanding = [[some 7, some 8]] ∧
      LinkFifo 2 s.mem s.linkQueue s.history.outstanding := by
  obtain ⟨m', l, hinit, s, hrun, hout⟩ : ∃ m' l,
      initLinkQueue LinkMemory.empty 2 (some 1) (some 2) = some (m', some l) ∧
        ∃ s, exec (linkStep 2) (newLink m' (some l)) twoIn = some s ∧
          s.history.outstanding = [[some 7, some 8]] :=
    ⟨_, _, rfl, _, rfl, rfl⟩
  exact ⟨m', l, s, hinit, hrun, hout, (link_queue_fifo hinit twoIn s hrun).2⟩

end SocketPractice.LibQueue
