import SocketPractice.SocketTcp.LocalQueue

/-!
# When the message queue needs no lock

Every node and every payload of the queue belongs to one of the two threads or to
the messages in between, and each thread touches only what is its own; the one
exception is the producer's test of `front->data`.  As long as that test does not
fall between `front->data = NULL` and `front = tmp` of the consumer, the messages
come out in order and no freed node is touched.  A test that does fall there reads
a freed node, or finds no payload and leaves the message uncopied: then the message
comes out as whatever the fresh payload held.
-/

namespace SocketPractice.SocketTcp

open Lib.Memory Lib.Raw Lib.Bytes Lib.Runs LibQueue LibQueue.LinkMemory

/-! ## 1. Who owns what

The nodes and payloads of the queue are divided between the producer, the consumer
and the items in between.  The node `rear` is the producer's; the node `front` is the
consumer's from the time on at which the consumer has found that it is not `rear`. -/

/-- A division of the queue. -/
structure Shares where
  queue : LinkQueue
  /-- Where the items in between begin. -/
  start : Ptr
  xs : List Addr
  bs : List Addr
  rear : Addr
  rearNode : LinkNode
  enNodes : List (Addr × LinkNode)
  enBlocks : List (Addr × Block)
  deNodes : List (Addr × LinkNode)
  deBlocks : List (Addr × Block)

/-- The bytes are those of a message. -/
def IsMsg (data : Block) : Prop := ∃ msgBuf : MsgBuf, data = msgBuf.block

theorem IsMsg.length {data : Block} (h : IsMsg data) : data.length = sizeofMsgBuf := by
  obtain ⟨msgBuf, rfl⟩ := h
  simp [MsgBuf.block, msgBuf.size]

/-- Fresh memory is no message. -/
theorem IsMsg.ne_uninit {data : Block} (h : IsMsg data) : data ≠ uninit sizeofMsgBuf := by
  obtain ⟨msgBuf, rfl⟩ := h
  intro heq
  have hmem : none ∈ msgBuf.block := by
    rw [heq]
    exact List.mem_replicate.mpr ⟨by decide, rfl⟩
  simp [MsgBuf.block] at hmem

/-- What the producer owns at each statement. -/
def EnOwns (rearNode : LinkNode) (nodes : List (Addr × LinkNode))
    (blocks : List (Addr × Block)) : EnPc → Prop
  | .idle | .ret _ => rearNode = ⟨none, none⟩ ∧ nodes = [] ∧ blocks = []
  | .testSize data | .mallocNode data =>
      IsMsg data ∧ rearNode = ⟨none, none⟩ ∧ nodes = [] ∧ blocks = []
  | .testNode data linkNode => IsMsg data ∧ rearNode = ⟨none, none⟩ ∧
      nodes.map Prod.fst = linkNode.toList ∧ blocks = []
  | .clearData data linkNode => IsMsg data ∧ rearNode = ⟨none, none⟩ ∧
      (∃ node x, linkNode = some node ∧ nodes = [(node, x)]) ∧ blocks = []
  | .clearNext data linkNode => IsMsg data ∧ rearNode = ⟨none, none⟩ ∧
      (∃ node next, linkNode = some node ∧ nodes = [(node, ⟨none, next⟩)]) ∧ blocks = []
  | .testRear data linkNode | .mallocData data linkNode =>
      IsMsg data ∧ rearNode = ⟨none, none⟩ ∧
      (∃ node, linkNode = some node ∧ nodes = [(node, ⟨none, none⟩)]) ∧ blocks = []
  | .testData data linkNode => IsMsg data ∧
      (∃ node, linkNode = some node ∧ nodes = [(node, ⟨none, none⟩)]) ∧
      (rearNode = ⟨none, none⟩ ∧ blocks = [] ∨
        ∃ blk, rearNode = ⟨some blk, none⟩ ∧ blocks = [(blk, uninit sizeofMsgBuf)])
  | .testFront data linkNode | .copy data linkNode => IsMsg data ∧
      (∃ node, linkNode = some node ∧ nodes = [(node, ⟨none, none⟩)]) ∧
      ∃ blk, rearNode = ⟨some blk, none⟩ ∧ blocks = [(blk, uninit sizeofMsgBuf)]
  | .setNext data linkNode => IsMsg data ∧
      (∃ node, linkNode = some node ∧ nodes = [(node, ⟨none, none⟩)]) ∧
      ∃ blk, rearNode = ⟨some blk, none⟩ ∧ blocks = [(blk, data)]
  | .setRear data linkNode => IsMsg data ∧
      ∃ node, linkNode = some node ∧ nodes = [(node, ⟨none, none⟩)] ∧
      ∃ blk, rearNode = ⟨some blk, some node⟩ ∧ blocks = [(blk, data)]

/-- What the consumer owns at each statement; `held` is the message that it has taken
    and not yet returned. -/
def DeOwns (front start : Ptr) (items : List Block) (nodes : List (Addr × LinkNode))
    (blocks : List (Addr × Block)) (held : List Block) : DePc → Prop
  | .idle => front = start ∧ nodes = [] ∧ blocks = [] ∧ held = []
  | .testSize data | .testEmpty data =>
      data.length = sizeofMsgBuf ∧ front = start ∧ nodes = [] ∧ blocks = [] ∧ held = []
  | .loadTmp data => data.length = sizeofMsgBuf ∧ items ≠ [] ∧
      front = start ∧ nodes = [] ∧ blocks = [] ∧ held = []
  | .testData data tmp | .copy data tmp => data.length = sizeofMsgBuf ∧ tmp = start ∧
      ∃ f b item, front = some f ∧ nodes = [(f, ⟨some b, tmp⟩)] ∧ blocks = [(b, item)] ∧
        item.length = sizeofMsgBuf ∧ held = [item]
  | .freeData data tmp => tmp = start ∧
      ∃ f b, front = some f ∧ nodes = [(f, ⟨some b, tmp⟩)] ∧ blocks = [(b, data)] ∧ held = [data]
  | .clearData data tmp => tmp = start ∧
      ∃ f b, front = some f ∧ nodes = [(f, ⟨some b, tmp⟩)] ∧ blocks = [] ∧ held = [data]
  | .clearNext data tmp | .freeFront data tmp => tmp = start ∧
      ∃ f next, front = some f ∧ nodes = [(f, ⟨none, next⟩)] ∧ blocks = [] ∧ held = [data]
  | .setFront data tmp => tmp = start ∧ nodes = [] ∧ blocks = [] ∧ held = [data]
  | .ret .QUEUE_SUCCESS data => front = start ∧ nodes = [] ∧ blocks = [] ∧ held = [data]
  | .ret _ _ => front = start ∧ nodes = [] ∧ blocks = [] ∧ held = []

/-- The memory is divided as `v` says, with `items` between the two threads. -/
structure Divided (v : Shares) (m : LinkMemory) (l : Addr) (items : List Block) : Prop where
  queue : m.queues l = some v.queue
  dataSize_eq : v.queue.dataSize = sizeofMsgBuf
  rear_eq : v.queue.rear = some v.rear
  chain : LinkItems m sizeofMsgBuf v.start v.xs v.rear v.bs items
  rearNode : m.nodes v.rear = some v.rearNode
  enNodes : ∀ p ∈ v.enNodes, m.nodes p.1 = some p.2
  deNodes : ∀ p ∈ v.deNodes, m.nodes p.1 = some p.2
  enBlocks : ∀ p ∈ v.enBlocks, m.blocks p.1 = some p.2
  deBlocks : ∀ p ∈ v.deBlocks, m.blocks p.1 = some p.2
  nodup : (v.deNodes.map Prod.fst ++ (v.xs ++ [v.rear]) ++ v.enNodes.map Prod.fst).Nodup
  blocks_nodup : (v.deBlocks.map Prod.fst ++ v.bs ++ v.enBlocks.map Prod.fst).Nodup

namespace Divided

variable {v : Shares} {m : LinkMemory} {l : Addr} {items : List Block}

/-- Everything of the division is allocated, so a fresh node is outside it. -/
theorem fresh_node (h : Divided v m l items) {a : Addr} (ha : m.nodes a = none) :
    a ∉ v.deNodes.map Prod.fst ++ (v.xs ++ [v.rear]) := by
  intro hmem
  have hlive : (m.nodes a).isSome := by
    rcases List.mem_append.mp hmem with hde | hmem
    · obtain ⟨p, hp, rfl⟩ := List.mem_map.mp hde
      rw [h.deNodes p hp]
      rfl
    · rcases List.mem_append.mp hmem with hxs | hrear
      · exact h.chain.allocated a hxs
      · rw [List.mem_singleton.mp hrear, h.rearNode]
        rfl
  rw [ha] at hlive
  exact absurd hlive (by simp)

theorem fresh_block (h : Divided v m l items) {b : Addr} (hb : m.blocks b = none) :
    b ∉ v.deBlocks.map Prod.fst ++ v.bs := by
  intro hmem
  have hlive : (m.blocks b).isSome := by
    rcases List.mem_append.mp hmem with hde | hbs
    · obtain ⟨p, hp, rfl⟩ := List.mem_map.mp hde
      rw [h.deBlocks p hp]
      rfl
    · exact h.chain.blocks_allocated b hbs
  rw [hb] at hlive
  exact absurd hlive (by simp)

/-- The producer writes a node of its own, which may be a new one. -/
theorem putEnNode (h : Divided v m l items) {a : Addr} (x : LinkNode)
    (ha : a ∉ v.deNodes.map Prod.fst ++ (v.xs ++ [v.rear])) :
    Divided { v with enNodes := [(a, x)] }
      { m with nodes := Function.update m.nodes a (some x) } l items := by
  have hout : ∀ y, y ∈ v.deNodes.map Prod.fst ++ (v.xs ++ [v.rear]) →
      Function.update m.nodes a (some x) y = m.nodes y := by
    intro y hy
    apply Function.update_of_ne
    rintro rfl
    exact ha hy
  refine { h with chain := ?_, rearNode := ?_, enNodes := ?_, deNodes := ?_, nodup := ?_ }
  · exact h.chain.congr (fun y hy => hout y (by simp [hy])) fun _ _ => rfl
  · exact (hout v.rear (by simp)).trans h.rearNode
  · simp
  · exact fun p hp => (hout p.1 (by simp; left; exact ⟨p.2, hp⟩)).trans (h.deNodes p hp)
  · have hleft := (List.nodup_append.mp h.nodup).1
    simp only [List.map_cons, List.map_nil]
    refine List.nodup_append.mpr ⟨hleft, List.nodup_singleton a, ?_⟩
    rintro y hy z hz rfl
    rw [List.mem_singleton.mp hz] at hy
    exact ha hy

/-- The producer writes the last node. -/
theorem putRear (h : Divided v m l items) (x : LinkNode) :
    Divided { v with rearNode := x }
      { m with nodes := Function.update m.nodes v.rear (some x) } l items := by
  have hnd := h.nodup
  simp only [List.nodup_append, List.mem_append, List.mem_singleton] at hnd
  refine { h with chain := ?_, rearNode := ?_, enNodes := ?_, deNodes := ?_ }
  · refine h.chain.congr (fun y hy => ?_) fun _ _ => rfl
    apply Function.update_of_ne
    grind
  · simp
  · intro p hp
    rw [← h.enNodes p hp]
    apply Function.update_of_ne
    grind
  · intro p hp
    rw [← h.deNodes p hp]
    apply Function.update_of_ne
    grind

/-- A node that the producer gives up stays allocated, outside the queue. -/
theorem leaveEnNode (h : Divided v m l items) : Divided { v with enNodes := [] } m l items := by
  refine { h with enNodes := by simp, nodup := ?_ }
  have hleft := (List.nodup_append.mp h.nodup).1
  simpa using hleft

/-- The producer writes a payload of its own, which may be a new one. -/
theorem putEnBlock (h : Divided v m l items) {b : Addr} (d : Block)
    (hb : b ∉ v.deBlocks.map Prod.fst ++ v.bs) :
    Divided { v with enBlocks := [(b, d)] }
      { m with blocks := Function.update m.blocks b (some d) } l items := by
  have hout : ∀ c, c ∈ v.deBlocks.map Prod.fst ++ v.bs →
      Function.update m.blocks b (some d) c = m.blocks c := by
    intro c hc
    apply Function.update_of_ne
    rintro rfl
    exact hb hc
  refine { h with chain := ?_, enBlocks := ?_, deBlocks := ?_, blocks_nodup := ?_ }
  · exact h.chain.congr (fun _ _ => rfl) fun c hc => hout c (by simp [hc])
  · simp
  · exact fun p hp => (hout p.1 (by simp; left; exact ⟨p.2, hp⟩)).trans (h.deBlocks p hp)
  · have hleft := (List.nodup_append.mp h.blocks_nodup).1
    simp only [List.map_cons, List.map_nil]
    refine List.nodup_append.mpr ⟨hleft, List.nodup_singleton b, ?_⟩
    rintro y hy z hz rfl
    rw [List.mem_singleton.mp hz] at hy
    exact hb hy

/-- The consumer writes its node or, with `none`, frees it. -/
theorem putDeNode (h : Divided v m l items) {f : Addr} {x : LinkNode}
    (hf : v.deNodes = [(f, x)]) (y : Option LinkNode) :
    Divided { v with deNodes := y.toList.map fun y => (f, y) }
      { m with nodes := Function.update m.nodes f y } l items := by
  have hnd : (f :: (v.xs ++ [v.rear] ++ v.enNodes.map Prod.fst)).Nodup := by
    simpa [hf] using h.nodup
  have hnot := (List.nodup_cons.mp hnd).1
  simp only [List.mem_append, List.mem_singleton, not_or] at hnot
  obtain ⟨⟨hfx, hfr⟩, hfe⟩ := hnot
  refine { h with chain := ?_, rearNode := ?_, enNodes := ?_, deNodes := ?_, nodup := ?_ }
  · refine h.chain.congr (fun z hz => ?_) fun _ _ => rfl
    apply Function.update_of_ne
    rintro rfl
    exact hfx hz
  · rw [← h.rearNode]
    exact Function.update_of_ne (Ne.symm hfr) ..
  · intro p hp
    rw [← h.enNodes p hp]
    apply Function.update_of_ne
    rintro rfl
    exact hfe (List.mem_map_of_mem hp)
  · rcases y with _ | y
    · simp
    · simp
  · rcases y with _ | y
    · exact (List.nodup_cons.mp hnd).2
    · exact hnd

theorem freeDeBlock (h : Divided v m l items) {b : Addr} {d : Block}
    (hb : v.deBlocks = [(b, d)]) :
    Divided { v with deBlocks := [] } { m with blocks := Function.update m.blocks b none } l
      items := by
  have hnd : (b :: (v.bs ++ v.enBlocks.map Prod.fst)).Nodup := by
    simpa [hb] using h.blocks_nodup
  have hnot := (List.nodup_cons.mp hnd).1
  simp only [List.mem_append, not_or] at hnot
  obtain ⟨hbx, hbe⟩ := hnot
  refine { h with
    chain := ?_, enBlocks := ?_, deBlocks := by simp, blocks_nodup := (List.nodup_cons.mp hnd).2 }
  · refine h.chain.congr (fun _ _ => rfl) fun c hc => ?_
    apply Function.update_of_ne
    rintro rfl
    exact hbx hc
  · intro p hp
    rw [← h.enBlocks p hp]
    apply Function.update_of_ne
    rintro rfl
    exact hbe (List.mem_map_of_mem hp)

theorem setFront (h : Divided v m l items) (front : Ptr) :
    Divided { v with queue := { v.queue with front := front } }
      { m with queues := Function.update m.queues l (some { v.queue with front := front }) } l
      items :=
  { h with
    queue := Function.update_self ..
    chain := h.chain.congr (fun _ _ => rfl) fun _ _ => rfl }

/-- With a payload and a node behind it the last node becomes an item, and the node
    behind it the last one. -/
theorem setRear (h : Divided v m l items) {node blk : Addr} {data : Block}
    (hrear : v.rearNode = ⟨some blk, some node⟩) (hnode : v.enNodes = [(node, ⟨none, none⟩)])
    (hblk : v.enBlocks = [(blk, data)]) (hdata : data.length = sizeofMsgBuf) :
    Divided { v with
        queue := { v.queue with rear := some node }, xs := v.xs ++ [v.rear], rear := node
        rearNode := ⟨none, none⟩, bs := v.bs ++ [blk], enNodes := [], enBlocks := [] }
      { m with queues := Function.update m.queues l (some { v.queue with rear := some node }) } l
      (items ++ [data]) := by
  have hnd := h.nodup
  have hbnd := h.blocks_nodup
  simp only [hnode, hblk, List.map_cons, List.map_nil] at hnd hbnd
  have hlast : m.nodes node = some ⟨none, none⟩ := h.enNodes (node, _) (by simp [hnode])
  have hfull : m.blocks blk = some data := h.enBlocks (blk, _) (by simp [hblk])
  have hchain : LinkItems m sizeofMsgBuf v.start (v.xs ++ [v.rear]) node (v.bs ++ [blk])
      (items ++ [data]) := by
    refine h.chain.snoc (hrear ▸ h.rearNode) hfull hdata ?_ ?_
    · intro hmem
      exact (List.nodup_append.mp hnd).2.2 node (List.mem_append_right _ hmem) node
        List.mem_cons_self rfl
    · intro hmem
      exact (List.nodup_append.mp hbnd).2.2 blk (List.mem_append_right _ hmem) blk
        List.mem_cons_self rfl
  refine { h with
    queue := Function.update_self .., rear_eq := rfl, rearNode := hlast, enNodes := by simp
    chain := hchain.congr (fun _ _ => rfl) fun _ _ => rfl
    enBlocks := by simp, nodup := ?_, blocks_nodup := ?_ }
  · simpa [List.append_assoc] using hnd
  · simpa [List.append_assoc] using hbnd

/-- The first item becomes the consumer's. -/
theorem take (h : Divided v m l (item :: items)) (hnodes : v.deNodes = [])
    (hblocks : v.deBlocks = []) :
    ∃ f b next xs bs, v.start = some f ∧ item.length = sizeofMsgBuf ∧
      Divided { v with
        start := next, xs := xs, bs := bs, deNodes := [(f, ⟨some b, next⟩)]
        deBlocks := [(b, item)] } m l items := by
  obtain ⟨f, next, b, xs, bs, hxs, hbs, hstart, hf, hb, hitem, hrest⟩ := h.chain.uncons
  refine ⟨f, b, next, xs, bs, hstart, hitem, { h with
    chain := hrest, deNodes := by simp [hf], deBlocks := by simp [hb], nodup := ?_,
    blocks_nodup := ?_ }⟩
  · simpa [hnodes, hxs] using h.nodup
  · simpa [hblocks, hbs] using h.blocks_nodup

/-- As long as the consumer has not begun to take the front node away, that node has a
    payload when the last one has. -/
theorem front_filled (h : Divided v m l items) {de : DePc} {held : List Block}
    (hde : DeOwns v.queue.front v.start items v.deNodes v.deBlocks held de)
    (hapart : de.takingFront = false) (hrear : v.rearNode.data.isSome) :
    ∃ f x, v.queue.front = some f ∧ m.nodes f = some x ∧ x.data.isSome := by
  -- where the consumer holds no node, the front is the first item or the last node
  have hwhole : v.queue.front = v.start →
      ∃ f x, v.queue.front = some f ∧ m.nodes f = some x ∧ x.data.isSome := by
    intro hfront
    rcases items with _ | ⟨item, items⟩
    · exact ⟨v.rear, v.rearNode, hfront.trans h.chain.eq_nil.2.2, h.rearNode, hrear⟩
    · obtain ⟨f, next, b, -, -, -, -, hstart, hf, -⟩ := h.chain.uncons
      exact ⟨f, _, hfront.trans hstart, hf, rfl⟩
  have hsplit : ∀ f b next, v.queue.front = some f → v.deNodes = [(f, ⟨some b, next⟩)] →
      ∃ f x, v.queue.front = some f ∧ m.nodes f = some x ∧ x.data.isSome := by
    intro f b next hfront hnodes
    exact ⟨f, _, hfront, h.deNodes (f, ⟨some b, next⟩) (by simp [hnodes]), rfl⟩
  cases de with
  | idle => exact hwhole hde.1
  | testSize data => exact hwhole hde.2.1
  | testEmpty data => exact hwhole hde.2.1
  | loadTmp data => exact hwhole hde.2.2.1
  | testData data tmp =>
      obtain ⟨-, -, f, b, item, hfront, hnodes, -⟩ := hde
      exact hsplit f b tmp hfront hnodes
  | copy data tmp =>
      obtain ⟨-, -, f, b, item, hfront, hnodes, -⟩ := hde
      exact hsplit f b tmp hfront hnodes
  | freeData data tmp =>
      obtain ⟨-, f, b, hfront, hnodes, -⟩ := hde
      exact hsplit f b tmp hfront hnodes
  | clearData data tmp =>
      obtain ⟨-, f, b, hfront, hnodes, -⟩ := hde
      exact hsplit f b tmp hfront hnodes
  | clearNext data tmp => exact absurd hapart (by simp [DePc.takingFront])
  | freeFront data tmp => exact absurd hapart (by simp [DePc.takingFront])
  | setFront data tmp => exact absurd hapart (by simp [DePc.takingFront])
  | ret r data =>
      rcases r with _ | _ | _ | _
      all_goals exact hwhole hde.1

end Divided

/-! ## 2. One statement -/

/-- A division of the memory that fits the positions of the two threads. -/
structure Shared (v : Shares) (m : LinkMemory) (l : Addr) (en : EnPc) (de : DePc)
    (held items : List Block) : Prop where
  divided : Divided v m l items
  en : EnOwns v.rearNode v.enNodes v.enBlocks en
  de : DeOwns v.queue.front v.start items v.deNodes v.deBlocks held de

theorem DeOwns.append {front start : Ptr} {items held : List Block}
    {nodes : List (Addr × LinkNode)} {blocks : List (Addr × Block)} {de : DePc}
    (h : DeOwns front start items nodes blocks held de) (more : List Block) :
    DeOwns front start (items ++ more) nodes blocks held de := by
  cases de with
  | loadTmp data => exact ⟨h.1, by simp [h.2.1], h.2.2⟩
  | ret r data =>
      rcases r with _ | _ | _ | _
      all_goals exact h
  | _ => exact h

/-- A statement that leaves the items alone. -/
theorem Divided.shared {v : Shares} {m : LinkMemory} {l : Addr} {en : EnPc} {de : DePc}
    {held items : List Block} (h : Divided v m l items)
    (hen : EnOwns v.rearNode v.enNodes v.enBlocks en)
    (hde : DeOwns v.queue.front v.start items v.deNodes v.deBlocks held de) :
    Shared v m l en de held (items ++ []) := by
  rw [List.append_nil]
  exact ⟨h, hen, hde⟩

theorem enStmt_shared {v : Shares} {m : LinkMemory} {l : Addr} {en : EnPc} {de : DePc}
    {held items : List Block} (h : Shared v m l en de held items)
    (hapart : en.testsFront = true → de.takingFront = false) {p : Ptr}
    (hnode : Fresh m.nodes p) (hblk : Fresh m.blocks p) :
    ∃ v' m' en', enStmt m (some l) sizeofMsgBuf p en = some (m', en') ∧
      Shared v' m' l en' de held (items ++ en.puts) := by
  obtain ⟨hdiv, hen, hde⟩ := h
  have hq := hdiv.queue
  have hn := hdiv.dataSize_eq
  have hr := hdiv.rear_eq
  have hrear := hdiv.rearNode
  -- the node that the producer has allocated is its own
  have hown : ∀ {a : Addr} {x : LinkNode}, v.enNodes = [(a, x)] →
      m.nodes a = some x ∧ a ∉ v.deNodes.map Prod.fst ++ (v.xs ++ [v.rear]) := by
    intro a x ha
    refine ⟨hdiv.enNodes (a, x) (by simp [ha]), ?_⟩
    intro hmem
    exact (List.nodup_append.mp hdiv.nodup).2.2 a hmem a (by simp [ha]) rfl
  cases en with
  | idle => exact ⟨v, m, .idle, rfl, hdiv.shared hen hde⟩
  | testSize data =>
      exact ⟨v, m, .mallocNode data, by simp [enStmt, hq, hn], hdiv.shared hen hde⟩
  | mallocNode data =>
      obtain ⟨hdata, hrn, hnodes, hblocks⟩ := hen
      rcases p with _ | a
      · refine ⟨v, m, .testNode data none, rfl, hdiv.shared ?_ hde⟩
        exact ⟨hdata, hrn, by simp [hnodes], hblocks⟩
      · have hput := hdiv.putEnNode ⟨none, none⟩ (hdiv.fresh_node (hnode a rfl))
        refine ⟨_, _, .testNode data (some a), rfl, hput.shared ?_ hde⟩
        exact ⟨hdata, hrn, rfl, hblocks⟩
  | testNode data linkNode =>
      obtain ⟨hdata, hrn, hnodes, hblocks⟩ := hen
      rcases linkNode with _ | a
      · refine ⟨v, m, .ret .RET_ERROR, rfl, hdiv.shared ?_ hde⟩
        exact ⟨hrn, by simpa using hnodes, hblocks⟩
      · refine ⟨v, m, .clearData data (some a), rfl, hdiv.shared ?_ hde⟩
        obtain ⟨⟨b, x⟩, hx, rfl⟩ : ∃ p, v.enNodes = [p] ∧ p.1 = a := by
          simpa [List.map_eq_singleton_iff] using hnodes
        exact ⟨hdata, hrn, ⟨b, x, rfl, hx⟩, hblocks⟩
  | clearData data linkNode =>
      obtain ⟨hdata, hrn, ⟨a, x, rfl, hx⟩, hblocks⟩ := hen
      obtain ⟨ha, hout⟩ := hown hx
      have hput := hdiv.putEnNode { x with data := none } hout
      refine ⟨_, _, .clearNext data (some a), by simp [enStmt, setData_eq ha], hput.shared ?_ hde⟩
      exact ⟨hdata, hrn, ⟨a, x.next, rfl, rfl⟩, hblocks⟩
  | clearNext data linkNode =>
      obtain ⟨hdata, hrn, ⟨a, next, rfl, hx⟩, hblocks⟩ := hen
      obtain ⟨ha, hout⟩ := hown hx
      have hput := hdiv.putEnNode ⟨none, none⟩ hout
      refine ⟨_, _, .testRear data (some a), by simp [enStmt, LinkMemory.setNext_eq ha],
        hput.shared ?_ hde⟩
      exact ⟨hdata, hrn, ⟨a, rfl, rfl⟩, hblocks⟩
  | testRear data linkNode =>
      have hempty : m.nodes v.rear = some ⟨none, none⟩ := hen.2.1 ▸ hrear
      exact ⟨v, m, .mallocData data linkNode, by simp [enStmt, rear?, hq, hr, hempty],
        hdiv.shared hen hde⟩
  | mallocData data linkNode =>
      obtain ⟨hdata, hrn, hnodes, hblocks⟩ := hen
      have hempty : m.nodes v.rear = some ⟨none, none⟩ := hrn ▸ hrear
      rcases p with _ | b
      · have hput := hdiv.putRear ⟨none, none⟩
        refine ⟨_, _, .testData data linkNode, ?_,
          hput.shared ⟨hdata, hnodes, .inl ⟨rfl, hblocks⟩⟩ hde⟩
        simp [enStmt, hq, hr, setData, Store.malloc, hempty, Store.store]
      · have hput := (hdiv.putEnBlock (uninit sizeofMsgBuf)
          (hdiv.fresh_block (hblk b rfl))).putRear ⟨some b, none⟩
        refine ⟨_, _, .testData data linkNode, ?_,
          hput.shared ⟨hdata, hnodes, .inr ⟨b, rfl, rfl⟩⟩ hde⟩
        simp [enStmt, hq, hr, hn, setData, Store.malloc, hempty, Store.store]
  | testData data linkNode =>
      obtain ⟨hdata, hnodes, hcase⟩ := hen
      rcases hcase with ⟨hrn, hblocks⟩ | ⟨b, hrn, hblocks⟩
      · refine ⟨_, m, .ret .RET_ERROR, by simp [enStmt, rear?, hq, hr, hrear, hrn],
          hdiv.leaveEnNode.shared ?_ hde⟩
        exact ⟨hrn, rfl, hblocks⟩
      · refine ⟨v, m, .testFront data linkNode, by simp [enStmt, rear?, hq, hr, hrear, hrn],
          hdiv.shared ?_ hde⟩
        exact ⟨hdata, hnodes, b, hrn, hblocks⟩
  | testFront data linkNode =>
      obtain ⟨b, hrn, -⟩ := hen.2.2
      obtain ⟨f, x, hf, hx, hfilled⟩ := hdiv.front_filled hde (hapart rfl)
        (by rw [hrn]; rfl)
      refine ⟨v, m, .copy data linkNode, ?_, hdiv.shared hen hde⟩
      simp [enStmt, enTestFront_eq hq hf hx hfilled]
  | copy data linkNode =>
      obtain ⟨hdata, hnodes, b, hrn, hblocks⟩ := hen
      have hb : m.blocks b = some (uninit sizeofMsgBuf) :=
        hdiv.enBlocks (b, uninit sizeofMsgBuf) (by simp [hblocks])
      have hout : b ∉ v.deBlocks.map Prod.fst ++ v.bs := by
        intro hmem
        exact (List.nodup_append.mp hdiv.blocks_nodup).2.2 b hmem b (by simp [hblocks]) rfl
      have hcopy : memcpy (uninit sizeofMsgBuf) 0 data 0 sizeofMsgBuf = some data := by
        have hlen := hdata.length
        rw [memcpy_whole length_uninit (by omega), List.take_of_length_le (by omega)]
      have hput := hdiv.putEnBlock data hout
      refine ⟨_, _, .setNext data linkNode, ?_, hput.shared ⟨hdata, hnodes, b, hrn, rfl⟩ hde⟩
      simp [enStmt, enCopy, rear?, hq, hr, hn, hrear, hrn, hb, hcopy, Store.store_eq hb]
  | setNext data linkNode =>
      obtain ⟨hdata, ⟨a, rfl, hnodes⟩, b, hrn, hblocks⟩ := hen
      have hput := hdiv.putRear ⟨some b, some a⟩
      refine ⟨_, _, .setRear data (some a), ?_,
        hput.shared ⟨hdata, a, rfl, hnodes, b, rfl, hblocks⟩ hde⟩
      simp [enStmt, hq, hr, LinkMemory.setNext_eq hrear, hrn]
  | setRear data linkNode =>
      obtain ⟨hdata, a, rfl, hnodes, b, hrn, hblocks⟩ := hen
      have hset := hdiv.setRear hrn hnodes hblocks hdata.length
      refine ⟨_, _, .ret .QUEUE_SUCCESS, by simp [enStmt, LinkMemory.setRear_eq hq],
        hset, ⟨rfl, rfl, rfl⟩, hde.append [data]⟩
  | ret r => exact ⟨v, m, .idle, rfl, hdiv.shared hen hde⟩

/-- How much the consumer has to do until it has returned the next of `items`, or
    found that there is none. -/
def DePc.left (items : List Block) : DePc → Nat
  | .idle => if items = [] then 0 else 3
  | .testSize _ => if items = [] then 6 else 2
  | .testEmpty _ => if items = [] then 5 else 1
  | .loadTmp _ => 0
  | .testData _ _ => 11
  | .copy _ _ => 10
  | .freeData _ _ => 9
  | .clearData _ _ => 8
  | .clearNext _ _ => 7
  | .freeFront _ _ => 6
  | .setFront _ _ => 5
  | .ret _ _ => 4

/-- The consumer's statements leave the producer alone; what they take is `held` until
    it is returned. -/
theorem deStmt_shared {v : Shares} {m : LinkMemory} {l : Addr} {en : EnPc} {de : DePc}
    {held items : List Block} (h : Shared v m l en de held items) :
    ∃ v' m' de' held' items', deStmt m (some l) sizeofMsgBuf de = some (m', de') ∧
      Shared v' m' l en de' held' items' ∧ held ++ items = de.gets ++ held' ++ items' ∧
      (de ≠ .idle → 12 * items'.length + de'.left items' < 12 * items.length + de.left items) := by
  obtain ⟨hdiv, hen, hde⟩ := h
  have hq := hdiv.queue
  have hn := hdiv.dataSize_eq
  cases de with
  | idle => exact ⟨v, m, .idle, held, items, rfl, ⟨hdiv, hen, hde⟩, rfl,
        by simp [DePc.left]⟩
  | testSize data =>
      exact ⟨v, m, .testEmpty data, held, items, by simp [deStmt, hq, hn], ⟨hdiv, hen, hde⟩, rfl,
          by simp only [DePc.left]; grind⟩
  | testEmpty data =>
      obtain ⟨hdata, hfront, hnodes, hblocks, rfl⟩ := hde
      by_cases hempty : items = []
      · refine ⟨v, m, .ret .QUEUE_EMPTY data, [], items, ?_, ⟨hdiv, hen, ?_⟩, rfl,
          by simp [DePc.left, hempty]⟩
        · have : v.queue.front = v.queue.rear := by
            rw [hfront, hdiv.rear_eq, hdiv.chain.start_eq_rear_iff]
            exact hempty
          simp [deStmt, hq, this]
        · exact ⟨hfront, hnodes, hblocks, rfl⟩
      · refine ⟨v, m, .loadTmp data, [], items, ?_, ⟨hdiv, hen, ?_⟩, rfl,
          by simp [DePc.left, hempty]⟩
        · have : v.queue.front ≠ v.queue.rear := by
            rw [hfront, hdiv.rear_eq, Ne, hdiv.chain.start_eq_rear_iff]
            exact hempty
          simp [deStmt, hq, this]
        · exact ⟨hdata, hempty, hfront, hnodes, hblocks, rfl⟩
  | loadTmp data =>
      obtain ⟨hdata, hne, hfront, hnodes, hblocks, rfl⟩ := hde
      rcases items with _ | ⟨item, items⟩
      · exact absurd rfl hne
      · obtain ⟨f, b, next, xs, bs, hstart, hitem, htake⟩ := hdiv.take hnodes hblocks
        have hf : m.nodes f = some ⟨some b, next⟩ := htake.deNodes (f, _) (by simp)
        refine ⟨_, m, .testData data next, [item], items, ?_, ⟨htake, hen, ?_⟩, rfl,
          by simp only [DePc.left, List.length_cons]; omega⟩
        · simp [deStmt, front?, hq, hfront, hstart, hf]
        · exact ⟨hdata, rfl, f, b, item, hfront.trans hstart, rfl, rfl, hitem, rfl⟩
  | testData data tmp =>
      obtain ⟨f, b, item, hfront, hnodes, -⟩ := hde.2.2
      have hf : m.nodes f = some ⟨some b, tmp⟩ := hdiv.deNodes (f, _) (by simp [hnodes])
      exact ⟨v, m, .copy data tmp, held, items, by simp [deStmt, front?, hq, hfront, hf],
        ⟨hdiv, hen, hde⟩, rfl,
          by simp [DePc.left]⟩
  | copy data tmp =>
      obtain ⟨hdata, htmp, f, b, item, hfront, hnodes, hblocks, hitem, rfl⟩ := hde
      have hf : m.nodes f = some ⟨some b, tmp⟩ := hdiv.deNodes (f, _) (by simp [hnodes])
      have hb : m.blocks b = some item := hdiv.deBlocks (b, item) (by simp [hblocks])
      have hcopy : memcpy data 0 item 0 sizeofMsgBuf = some item := by
        rw [memcpy_whole hdata (by omega), List.take_of_length_le (by omega)]
      refine ⟨v, m, .freeData item tmp, [item], items, ?_, ⟨hdiv, hen, ?_⟩, rfl,
          by simp [DePc.left]⟩
      · simp [deStmt, deCopy, front?, hq, hn, hfront, hf, hb, hcopy]
      · exact ⟨htmp, f, b, hfront, hnodes, hblocks, rfl⟩
  | freeData data tmp =>
      obtain ⟨htmp, f, b, hfront, hnodes, hblocks, rfl⟩ := hde
      have hf : m.nodes f = some ⟨some b, tmp⟩ := hdiv.deNodes (f, _) (by simp [hnodes])
      have hb : m.blocks b = some data := hdiv.deBlocks (b, data) (by simp [hblocks])
      refine ⟨_, _, .clearData data tmp, [data], items, ?_,
        ⟨hdiv.freeDeBlock hblocks, hen, ?_⟩, rfl,
          by simp [DePc.left]⟩
      · simp [deStmt, deFreeData, front?, hq, hfront, hf, Store.free_eq hb]
      · exact ⟨htmp, f, b, hfront, hnodes, rfl, rfl⟩
  | clearData data tmp =>
      obtain ⟨htmp, f, b, hfront, hnodes, hblocks, rfl⟩ := hde
      have hf : m.nodes f = some ⟨some b, tmp⟩ := hdiv.deNodes (f, _) (by simp [hnodes])
      refine ⟨_, _, .clearNext data tmp, [data], items, ?_,
        ⟨hdiv.putDeNode hnodes (some ⟨none, tmp⟩), hen, ?_⟩, rfl,
          by simp [DePc.left]⟩
      · simp [deStmt, hq, hfront, setData_eq hf]
      · exact ⟨htmp, f, _, hfront, rfl, hblocks, rfl⟩
  | clearNext data tmp =>
      obtain ⟨htmp, f, next, hfront, hnodes, hblocks, rfl⟩ := hde
      have hf : m.nodes f = some ⟨none, next⟩ := hdiv.deNodes (f, _) (by simp [hnodes])
      refine ⟨_, _, .freeFront data tmp, [data], items, ?_,
        ⟨hdiv.putDeNode hnodes (some ⟨none, none⟩), hen, ?_⟩, rfl,
          by simp [DePc.left]⟩
      · simp [deStmt, hq, hfront, LinkMemory.setNext_eq hf]
      · exact ⟨htmp, f, _, hfront, rfl, hblocks, rfl⟩
  | freeFront data tmp =>
      obtain ⟨htmp, f, next, hfront, hnodes, hblocks, rfl⟩ := hde
      have hf : m.nodes f = some ⟨none, next⟩ := hdiv.deNodes (f, _) (by simp [hnodes])
      refine ⟨_, _, .setFront data tmp, [data], items, ?_,
        ⟨hdiv.putDeNode hnodes none, hen, ?_⟩, rfl,
          by simp [DePc.left]⟩
      · simp [deStmt, deFreeFront, hq, hfront, Store.free_eq hf]
      · exact ⟨htmp, rfl, hblocks, rfl⟩
  | setFront data tmp =>
      obtain ⟨rfl, hnodes, hblocks, rfl⟩ := hde
      refine ⟨_, _, .ret .QUEUE_SUCCESS data, [data], items, ?_,
        ⟨hdiv.setFront v.start, hen, ?_⟩, rfl,
          by simp [DePc.left]⟩
      · simp [deStmt, LinkMemory.setFront_eq hq]
      · exact ⟨rfl, hnodes, hblocks, rfl⟩
  | ret r data =>
      rcases r with _ | _ | _ | _
      · obtain ⟨hfront, hnodes, hblocks, rfl⟩ := hde
        exact ⟨v, m, .idle, [], items, rfl, ⟨hdiv, hen, hfront, hnodes, hblocks, rfl⟩, rfl,
          by simp only [DePc.left]; grind⟩
      · obtain ⟨hfront, hnodes, hblocks, rfl⟩ := hde
        exact ⟨v, m, .idle, [], items, rfl, ⟨hdiv, hen, hfront, hnodes, hblocks, rfl⟩, rfl,
          by simp only [DePc.left]; grind⟩
      · obtain ⟨hfront, hnodes, hblocks, rfl⟩ := hde
        exact ⟨v, m, .idle, [], items, rfl, ⟨hdiv, hen, hfront, hnodes, hblocks, rfl⟩, rfl,
          by simp only [DePc.left]; grind⟩
      · obtain ⟨hfront, hnodes, hblocks, rfl⟩ := hde
        exact ⟨v, m, .idle, [], items, rfl, ⟨hdiv, hen, hfront, hnodes, hblocks, rfl⟩, rfl,
          by simp only [DePc.left]; grind⟩

/-! ## 3. The front node after it was freed -/

/-- The node that the producer will link in, once it has passed the test. -/
def EnPc.passed : EnPc → Ptr
  | .copy _ linkNode | .setNext _ linkNode | .setRear _ linkNode => linkNode
  | _ => none

/-- The consumer has freed `front` and not yet moved the pointer. -/
def DePc.freedFront : DePc → Bool
  | .setFront _ _ => true
  | _ => false

theorem DePc.takingFront_of_freed (de : DePc) (h : de.freedFront = true) :
    de.takingFront = true := by
  cases de with
  | setFront data tmp => rfl
  | _ => exact absurd h (by simp [DePc.freedFront])

/-- `front` points to a node that was freed: there is nothing with a payload there. -/
def Dangling (m : LinkMemory) (l : Addr) (en : EnPc) : Prop :=
  ∃ q f, m.queues l = some q ∧ q.front = some f ∧ q.rear ≠ some f ∧
    (∀ x, m.nodes f = some x → x.data = none) ∧ en.passed ≠ some f

/-- All that a statement of the producer other than the test can do to the places that
    the consumer looks at. -/
structure Writes (v : Shares) (m m' : LinkMemory) (l : Addr) (en en' : EnPc) : Prop where
  queue : ∃ q, m'.queues l = some q ∧ q.front = v.queue.front ∧
    (q.rear = v.queue.rear ∨ q.rear = en.passed)
  nodes : ∀ y, m'.nodes y = m.nodes y ∨ y = v.rear ∨ ∀ x, m'.nodes y = some x → x.data = none
  passed : en'.passed = en.passed ∨ en'.passed = none

theorem Writes.nodes_update {v : Shares} {m : LinkMemory} {a : Addr} {x : LinkNode}
    (ha : a = v.rear ∨ x.data = none) (y : Addr) :
    Function.update m.nodes a (some x) y = m.nodes y ∨ y = v.rear ∨
      ∀ z, Function.update m.nodes a (some x) y = some z → z.data = none := by
  by_cases hy : y = a
  · right
    subst hy
    rcases ha with ha | ha
    · exact .inl ha
    · right
      intro z hz
      rw [Function.update_self] at hz
      exact Option.some.inj hz ▸ ha
  · exact .inl (Function.update_of_ne hy ..)

theorem enCopy_frame {m m' : LinkMemory} {linkQueue : Ptr} {data : Option Block}
    (h : enCopy m linkQueue data = some m') : m'.nodes = m.nodes ∧ m'.queues = m.queues := by
  simp only [enCopy, Option.bind_eq_bind, Option.bind_eq_some_iff] at h
  obtain ⟨q, hq, rear, hrear, dst, hdst, src, hsrc, dst', hcopy, blocks, hblocks, h⟩ := h
  cases h
  exact ⟨rfl, rfl⟩

theorem enStmt_writes {v : Shares} {m m' : LinkMemory} {l : Addr} {en en' : EnPc}
    {items : List Block} {p : Ptr} (hdiv : Divided v m l items)
    (hen : EnOwns v.rearNode v.enNodes v.enBlocks en)
    (hapart : en.testsFront = false)
    (heq : enStmt m (some l) sizeofMsgBuf p en = some (m', en')) : Writes v m m' l en en' := by
  have hq := hdiv.queue
  have hr := hdiv.rear_eq
  have hrear := hdiv.rearNode
  have hsame : ∀ {en' : EnPc}, en'.passed = en.passed ∨ en'.passed = none →
      Writes v m m l en en' := fun hpassed =>
    ⟨⟨_, hq, rfl, .inl rfl⟩, fun y => .inl rfl, hpassed⟩
  have hput : ∀ {a : Addr} {x : LinkNode} {blocks : Store Block} {en' : EnPc},
      a = v.rear ∨ x.data = none → en'.passed = en.passed ∨ en'.passed = none →
      Writes v m ⟨Function.update m.nodes a (some x), blocks, m.queues⟩ l en en' :=
    fun ha hpassed => ⟨⟨_, hq, rfl, .inl rfl⟩, Writes.nodes_update ha, hpassed⟩
  cases en with
  | idle =>
      obtain ⟨rfl, rfl⟩ : m = m' ∧ EnPc.idle = en' := by simpa [enStmt] using heq
      exact hsame (.inl rfl)
  | testSize data =>
      obtain ⟨rfl, rfl⟩ : m = m' ∧ EnPc.mallocNode data = en' := by
        simpa [enStmt, hq, hdiv.dataSize_eq] using heq
      exact hsame (.inl rfl)
  | mallocNode data =>
      obtain ⟨rfl, rfl⟩ : m.mallocNode p = m' ∧ EnPc.testNode data p = en' := by
        simpa [enStmt] using heq
      rcases p with _ | a
      · exact hsame (.inl rfl)
      · exact hput (.inr rfl) (.inl rfl)
  | testNode data linkNode =>
      simp only [enStmt, Option.pure_def, Option.some.injEq, Prod.mk.injEq] at heq
      obtain ⟨rfl, rfl⟩ := heq
      apply hsame
      split <;> exact .inl rfl
  | clearData data linkNode =>
      obtain ⟨-, -, ⟨a, x, rfl, hx⟩, -⟩ := hen
      have ha : m.nodes a = some x := hdiv.enNodes (a, x) (by simp [hx])
      simp [enStmt, setData_eq ha] at heq
      obtain ⟨rfl, rfl⟩ := heq
      exact hput (.inr rfl) (.inl rfl)
  | clearNext data linkNode =>
      obtain ⟨-, -, ⟨a, next, rfl, hx⟩, -⟩ := hen
      have ha : m.nodes a = some ⟨none, next⟩ := hdiv.enNodes (a, _) (by simp [hx])
      simp [enStmt, LinkMemory.setNext_eq ha] at heq
      obtain ⟨rfl, rfl⟩ := heq
      exact hput (.inr rfl) (.inl rfl)
  | testRear data linkNode =>
      simp [enStmt, rear?, hq, hr, hrear] at heq
      obtain ⟨rfl, rfl⟩ := heq
      apply hsame
      split <;> exact .inl rfl
  | mallocData data linkNode =>
      simp [enStmt, hq, hr, setData, hrear, Store.store] at heq
      obtain ⟨rfl, rfl⟩ := heq
      exact hput (.inl rfl) (.inl rfl)
  | testData data linkNode =>
      simp [enStmt, rear?, hq, hr, hrear] at heq
      obtain ⟨rfl, rfl⟩ := heq
      apply hsame
      split <;> exact .inl rfl
  | testFront data linkNode => exact absurd hapart (by simp [EnPc.testsFront])
  | copy data linkNode =>
      obtain ⟨m₁, hcopy, hpair⟩ := Option.bind_eq_some_iff.mp heq
      obtain ⟨rfl, rfl⟩ := Prod.mk.inj (Option.some.inj hpair)
      obtain ⟨hnodes, hqueues⟩ := enCopy_frame hcopy
      exact ⟨⟨_, by rw [hqueues, hq], rfl, .inl rfl⟩, fun y => .inl (by rw [hnodes]), .inl rfl⟩
  | setNext data linkNode =>
      simp [enStmt, hq, hr, LinkMemory.setNext_eq hrear] at heq
      obtain ⟨rfl, rfl⟩ := heq
      exact hput (.inl rfl) (.inl rfl)
  | setRear data linkNode =>
      simp [enStmt, LinkMemory.setRear_eq hq] at heq
      obtain ⟨rfl, rfl⟩ := heq
      exact ⟨⟨_, Function.update_self .., rfl, .inr rfl⟩, fun y => .inl rfl, .inr rfl⟩
  | ret r =>
      obtain ⟨rfl, rfl⟩ : m = m' ∧ EnPc.idle = en' := by simpa [enStmt] using heq
      exact hsame (.inl rfl)

/-- While `front` dangles, `EnLinkQueue` may reuse the node that was freed, but only for
    a node without payload. -/
theorem Dangling.of_writes {v : Shares} {m m' : LinkMemory} {l : Addr} {en en' : EnPc}
    {items : List Block} (hd : Dangling m l en) (hdiv : Divided v m l items)
    (hw : Writes v m m' l en en') : Dangling m' l en' := by
  obtain ⟨q, f, hq, hfront, hrearf, hempty, hpassed⟩ := hd
  obtain rfl : q = v.queue := Option.some.inj (hq.symm.trans hdiv.queue)
  obtain ⟨q', hq', hfront', hrear'⟩ := hw.queue
  refine ⟨q', f, hq', hfront'.trans hfront, ?_, ?_, ?_⟩
  · rcases hrear' with hr | hr
    · rw [hr]
      exact hrearf
    · rw [hr]
      exact hpassed
  · rcases hw.nodes f with hsame | hfr | hnone
    · rw [hsame]
      exact hempty
    · exact absurd (hfr ▸ hdiv.rear_eq) hrearf
    · exact hnone
  · rcases hw.passed with hp | hp
    · rw [hp]
      exact hpassed
    · simp [hp]

theorem deStmt_freedFront {m m' : LinkMemory} {l : Addr} {de de' : DePc}
    (heq : deStmt m (some l) sizeofMsgBuf de = some (m', de')) (hde : de'.freedFront = true) :
    ∃ data tmp, de = .freeFront data tmp ∧ deFreeFront m (some l) = some m' := by
  cases de with
  | freeFront data tmp =>
      obtain ⟨m₁, hfree, hpair⟩ := Option.bind_eq_some_iff.mp heq
      obtain ⟨rfl, -⟩ := Prod.mk.inj (Option.some.inj hpair)
      exact ⟨data, tmp, rfl, hfree⟩
  | _ =>
      exfalso
      simp only [deStmt, Option.bind_eq_bind, Option.pure_def, Option.bind_eq_some_iff,
        Option.some.injEq, Prod.mk.injEq] at heq
      grind [DePc.freedFront]

/-- `front` dangles from the time on at which the consumer frees it. -/
theorem deStmt_dangling {v : Shares} {m m' : LinkMemory} {l : Addr} {en : EnPc} {de de' : DePc}
    {held items : List Block} (h : Shared v m l en de held items)
    (heq : deStmt m (some l) sizeofMsgBuf de = some (m', de')) (hde : de'.freedFront = true) :
    Dangling m' l en := by
  obtain ⟨data, tmp, rfl, hfree⟩ := deStmt_freedFront heq hde
  obtain ⟨hdiv, hen, -, f, next, hfront, hnodes, -⟩ := h
  have hf : m.nodes f = some ⟨none, next⟩ := hdiv.deNodes (f, _) (by simp [hnodes])
  simp [deFreeFront, hdiv.queue, hfront, Store.free_eq hf] at hfree
  subst hfree
  have hnd : (f :: (v.xs ++ [v.rear] ++ v.enNodes.map Prod.fst)).Nodup := by
    simpa [hnodes] using hdiv.nodup
  have hnot := (List.nodup_cons.mp hnd).1
  simp only [List.mem_append, List.mem_singleton, not_or] at hnot
  refine ⟨v.queue, f, hdiv.queue, hfront, ?_, by simp, ?_⟩
  · rw [hdiv.rear_eq]
    simpa using Ne.symm hnot.1.2
  · intro hpassed
    have hmem : f ∈ v.enNodes.map Prod.fst := by
      cases en with
      | copy data linkNode =>
          obtain ⟨-, ⟨a, rfl, hx⟩, -⟩ := hen
          simpa [hx] using (Option.some.inj hpassed).symm
      | setNext data linkNode =>
          obtain ⟨-, ⟨a, rfl, hx⟩, -⟩ := hen
          simpa [hx] using (Option.some.inj hpassed).symm
      | setRear data linkNode =>
          obtain ⟨-, a, rfl, hx, -⟩ := hen
          simpa [hx] using (Option.some.inj hpassed).symm
      | _ => exact absurd hpassed (by simp [EnPc.passed])
    exact hnot.2 hmem

/-! ## 4. Runs that keep the test apart -/

/-- What was enqueued is what was dequeued, what the consumer holds and what lies in
    between. -/
structure LocalInv (l : Addr) (s : LocalState) : Prop where
  linkQueue_eq : s.linkQueue = some l
  sound : s.fault = false
  shared : ∃ v held items, Shared v s.mem l s.en s.de held items ∧
    s.enqueued = s.dequeued ++ held ++ items
  dangling : s.de.freedFront = true → Dangling s.mem l s.en

theorem LocalInv.inOrder {l : Addr} {s : LocalState} (h : LocalInv l s) : InOrder s := by
  obtain ⟨-, hsound, ⟨v, held, items, -, hacct⟩, -⟩ := h
  refine ⟨hsound, held ++ items, ?_⟩
  rw [hacct, List.append_assoc]

theorem localInv_step {l : Addr} (s : LocalState) (e : LocalEvent) (t : LocalState)
    (hs : LocalInv l s) (hapart : TestApart s e) (hstep : localStep s e = some t) :
    LocalInv l t := by
  obtain ⟨hl, hsound, ⟨v, held, items, hshared, hacct⟩, hdang⟩ := hs
  cases e with
  | enMsg msgBuf =>
      simp only [localStep, Option.ite_none_right_eq_some, Option.some.injEq] at hstep
      obtain ⟨hidle, rfl⟩ := hstep
      have hen := hshared.en
      rw [hidle] at hen
      refine ⟨hl, hsound, ⟨v, held, items, ⟨hshared.divided, ⟨⟨msgBuf, rfl⟩, hen⟩, hshared.de⟩,
        hacct⟩, ?_⟩
      intro hfreed
      obtain ⟨q, f, hq, hfront, hrear, hempty, -⟩ := hdang hfreed
      exact ⟨q, f, hq, hfront, hrear, hempty, by simp [EnPc.passed]⟩
  | en p =>
      simp only [localStep, Option.ite_none_right_eq_some] at hstep
      obtain ⟨⟨-, hnode, hblk⟩, hstep⟩ := hstep
      obtain ⟨v', m', en', heq, hshared'⟩ := enStmt_shared hshared hapart hnode hblk
      rw [hl, heq] at hstep
      obtain rfl := Option.some.inj hstep
      refine ⟨rfl, hsound, ⟨v', held, items ++ s.en.puts, hshared', by simp [hacct]⟩, ?_⟩
      intro hfreed
      have hno : s.en.testsFront = false := by
        by_contra htests
        have hnot := hapart (by simpa using htests)
        rw [s.de.takingFront_of_freed hfreed] at hnot
        exact absurd hnot (by decide)
      exact (hdang hfreed).of_writes hshared.divided
        (enStmt_writes hshared.divided hshared.en hno heq)
  | deMsg data =>
      simp only [localStep, Option.ite_none_right_eq_some, Option.some.injEq] at hstep
      obtain ⟨⟨hidle, hlen⟩, rfl⟩ := hstep
      have hde := hshared.de
      rw [hidle] at hde
      exact ⟨hl, hsound, ⟨v, held, items, ⟨hshared.divided, hshared.en, hlen, hde⟩, hacct⟩,
        by simp [DePc.freedFront]⟩
  | de =>
      simp only [localStep, Option.ite_none_right_eq_some] at hstep
      obtain ⟨-, hstep⟩ := hstep
      obtain ⟨v', m', de', held', items', heq, hshared', hout, -⟩ := deStmt_shared hshared
      rw [hl, heq] at hstep
      obtain rfl := Option.some.inj hstep
      refine ⟨rfl, hsound, ⟨v', held', items', hshared', ?_⟩, deStmt_dangling hshared heq⟩
      rw [hacct, List.append_assoc, hout]
      simp

/-! ## 5. What a test in the wrong place does -/

/-- The steps of the thread `SrvProMsg`. -/
def LocalEvent.ofConsumer : LocalEvent → Prop
  | .deMsg _ | .de => True
  | _ => False

theorem testApart_of_consumer (s : LocalState) (e : LocalEvent) (he : e.ofConsumer) :
    TestApart s e := by
  cases e with
  | enMsg msgBuf => exact he.elim
  | en p => exact he.elim
  | deMsg data => trivial
  | de => trivial

/-- Left alone, the consumer returns everything that lies before `rear`. -/
theorem drained {l : Addr} {v : Shares} {s : LocalState} {held items : List Block}
    (hl : s.linkQueue = some l) (h : Shared v s.mem l s.en s.de held items) :
    ∃ fs t, (∀ f ∈ fs, f.ofConsumer) ∧ exec localStep s fs = some t ∧
      t.enqueued = s.enqueued ∧ t.dequeued = s.dequeued ++ held ++ items := by
  induction hk : 12 * items.length + s.de.left items using Nat.strongRecOn
    generalizing v s held items with
  | ind k ih =>
    by_cases hidle : s.de = .idle
    · have hde := h.de
      rw [hidle] at hde
      obtain ⟨hfront, hnodes, hblocks, rfl⟩ := hde
      rcases items with _ | ⟨item, items⟩
      · exact ⟨[], s, by simp, rfl, rfl, by simp⟩
      · -- the next call
        let buf := uninit sizeofMsgBuf
        have hcall : localStep s (.deMsg buf) = some { s with de := .testSize buf } :=
          if_pos ⟨hidle, length_uninit⟩
        have hshared : Shared v s.mem l s.en (.testSize buf) [] (item :: items) :=
          ⟨h.divided, h.en, length_uninit, hfront, hnodes, hblocks, rfl⟩
        have hless :
            12 * (item :: items).length + (DePc.testSize buf).left (item :: items) < k := by
          rw [← hk, hidle]
          simp [DePc.left]
        obtain ⟨fs, t, hfs, hrun, hen, hde⟩ :=
          ih _ hless (s := { s with de := .testSize buf }) hl hshared rfl
        refine ⟨.deMsg buf :: fs, t, ?_, exec_cons_eq_some.mpr ⟨_, hcall, hrun⟩, hen, hde⟩
        intro f hf
        rcases List.mem_cons.mp hf with rfl | hf
        · trivial
        · exact hfs f hf
    · obtain ⟨v', m', de', held', items', heq, hshared', hout, hless⟩ := deStmt_shared h
      have hstep : localStep s .de = some { s with
          mem := m', de := de', dequeued := s.dequeued ++ s.de.gets } := by
        simp [localStep, hidle, hl, heq]
      obtain ⟨fs, t, hfs, hrun, hen, hde⟩ :=
        ih _ (hk ▸ hless hidle) (s := { s with
          mem := m', de := de', dequeued := s.dequeued ++ s.de.gets }) hl hshared' rfl
      refine ⟨.de :: fs, t, ?_, exec_cons_eq_some.mpr ⟨_, hstep, hrun⟩, hen, ?_⟩
      · intro f hf
        rcases List.mem_cons.mp hf with rfl | hf
        · trivial
        · exact hfs f hf
      · rw [hde]
        simp [List.append_assoc] at hout ⊢
        exact hout.symm

/-- With the node `front` being taken away the test finds no payload, if it finds a
    node at all. -/
theorem enTestFront_taking {v : Shares} {m : LinkMemory} {l : Addr} {en : EnPc} {de : DePc}
    {held items : List Block} (h : Shared v m l en de held items)
    (hdang : de.freedFront = true → Dangling m l en) (htaking : de.takingFront = true)
    (data : Block) :
    enTestFront m (some l) (some data) = none ∨
      enTestFront m (some l) (some data) = some false := by
  obtain ⟨hdiv, -, hde⟩ := h
  have hq := hdiv.queue
  have hnode : ∀ f next, v.queue.front = some f → v.deNodes = [(f, ⟨none, next⟩)] →
      enTestFront m (some l) (some data) = some false := by
    intro f next hfront hnodes
    have hf : m.nodes f = some ⟨none, next⟩ := hdiv.deNodes (f, _) (by simp [hnodes])
    simp [enTestFront, front?, hq, hfront, hf]
  cases de with
  | clearNext data tmp =>
      obtain ⟨-, f, next, hfront, hnodes, -⟩ := hde
      exact .inr (hnode f next hfront hnodes)
  | freeFront data tmp =>
      obtain ⟨-, f, next, hfront, hnodes, -⟩ := hde
      exact .inr (hnode f next hfront hnodes)
  | setFront data tmp =>
      obtain ⟨q, f, hq', hfront, -, hempty, -⟩ := hdang rfl
      rcases hf : m.nodes f with _ | x
      · left
        simp [enTestFront, front?, hq', hfront, hf]
      · right
        simp [enTestFront, front?, hq', hfront, hf, hempty x hf]
  | _ => exact absurd htaking (by simp [DePc.takingFront])

/-- A message that was not copied is linked in all the same, with whatever its payload
    holds. -/
theorem Divided.linkUncopied {v : Shares} {m : LinkMemory} {l : Addr} {items : List Block}
    {a b : Addr} {d : Block} (h : Divided v m l items) (hrn : v.rearNode = ⟨some b, none⟩)
    (hnodes : v.enNodes = [(a, ⟨none, none⟩)]) (hblocks : v.enBlocks = [(b, d)])
    (hd : d.length = sizeofMsgBuf) (data : Block) {de : DePc} {held : List Block}
    (hde : DeOwns v.queue.front v.start items v.deNodes v.deBlocks held de) :
    ∃ v' m₁ m₂,
      enStmt m (some l) sizeofMsgBuf none (.setNext data (some a)) =
        some (m₁, .setRear data (some a)) ∧
      enStmt m₁ (some l) sizeofMsgBuf none (.setRear data (some a)) =
        some (m₂, .ret .QUEUE_SUCCESS) ∧
      Shared v' m₂ l (.ret .QUEUE_SUCCESS) de held (items ++ [d]) := by
  have hput := h.putRear ⟨some b, some a⟩
  have hset := hput.setRear rfl hnodes hblocks hd
  have hnext : enStmt m (some l) sizeofMsgBuf none (.setNext data (some a)) =
      some ({ m with nodes := Function.update m.nodes v.rear (some ⟨some b, some a⟩) },
        .setRear data (some a)) := by
    simp [enStmt, h.queue, h.rear_eq, LinkMemory.setNext_eq h.rearNode, hrn]
  have hrear := LinkMemory.setRear_eq hput.queue (some a)
  exact ⟨_, _, _, hnext, by simp only [enStmt, hrear]; rfl, hset, ⟨rfl, rfl, rfl⟩,
    hde.append [d]⟩

theorem localInv_break {l : Addr} (s : LocalState) (e : LocalEvent) (t : LocalState)
    (hs : LocalInv l s) (hapart : ¬ TestApart s e) (hstep : localStep s e = some t) :
    ∃ fs, Along localStep TestApart t fs ∧ ¬ Always localStep InOrder t fs := by
  obtain ⟨hl, hsound, ⟨v, held, items, hshared, hacct⟩, hdang⟩ := hs
  cases e with
  | enMsg msgBuf => exact absurd trivial hapart
  | deMsg data => exact absurd trivial hapart
  | de => exact absurd trivial hapart
  | en p =>
      obtain ⟨htests, htaking⟩ : s.en.testsFront = true ∧ s.de.takingFront = true := by
        simpa [TestApart] using hapart
      obtain ⟨data, linkNode, hpc⟩ : ∃ data linkNode, s.en = .testFront data linkNode := by
        cases hen : s.en with
        | testFront data linkNode => exact ⟨data, linkNode, rfl⟩
        | _ => simp [hen, EnPc.testsFront] at htests
      have hen := hshared.en
      rw [hpc] at hen
      obtain ⟨hdata, ⟨a, rfl, hnodes⟩, b, hrn, hblocks⟩ := hen
      simp only [localStep, Option.ite_none_right_eq_some] at hstep
      obtain ⟨-, hstep⟩ := hstep
      rcases enTestFront_taking hshared hdang htaking data with htest | htest
      · -- the freed node is read
        simp [hpc, hl, enStmt, htest] at hstep
        subst hstep
        exact ⟨[], trivial, fun h => absurd h.sound (by simp)⟩
      · simp [hpc, hl, enStmt, htest, EnPc.puts] at hstep
        subst hstep
        obtain ⟨v', m₁, m₂, hnext, hrear, hshared'⟩ := hshared.divided.linkUncopied hrn hnodes
          hblocks length_uninit data hshared.de
        let t : LocalState := { s with linkQueue := some l, en := .setNext data (some a) }
        let t₁ : LocalState := { t with mem := m₁, en := .setRear data (some a) }
        let t₂ : LocalState :=
          { t₁ with mem := m₂, en := .ret .QUEUE_SUCCESS, enqueued := s.enqueued ++ [data] }
        have ht₁ : localStep t (.en none) = some t₁ := by
          simp [localStep, t, t₁, hnext, Fresh, EnPc.puts]
        have ht₂ : localStep t₁ (.en none) = some t₂ := by
          simp [localStep, t, t₁, t₂, hrear, Fresh, EnPc.puts]
        -- the consumer returns all messages, the last of them uncopied
        obtain ⟨fs, w, hfs, hrun, hen, hde⟩ := drained (s := t₂) rfl hshared'
        refine ⟨.en none :: .en none :: fs, ?_, ?_⟩
        · refine ⟨fun htest => by simp [EnPc.testsFront] at htest, ?_⟩
          intro u hu
          obtain rfl : t₁ = u := Option.some.inj (ht₁.symm.trans hu)
          refine ⟨fun htest => by simp [t₁, EnPc.testsFront] at htest, ?_⟩
          intro _ _
          exact along_of_free testApart_of_consumer hfs
        · intro hall
          have hw := hall.last (exec_cons_eq_some.mpr ⟨_, ht₁, exec_cons_eq_some.mpr
            ⟨_, ht₂, hrun⟩⟩)
          have hlen : w.dequeued.length = w.enqueued.length := by
            rw [hde, hen]
            simp [t₂, t₁, t, hacct]
          have heq : w.dequeued = w.enqueued := hw.order.eq_of_length hlen
          rw [hde, hen] at heq
          simp only [t₂, t₁, t, hacct, List.append_assoc, List.append_cancel_left_eq,
            List.cons.injEq, and_true] at heq
          exact hdata.ne_uninit heq.symm

/-! ## 6. Exactness -/

/-- A run of the two threads on the queue that `InitLinkQueue` returned.  From every
    state that it passes through, all runs that keep the test apart return the messages
    in order and touch no freed node, if and only if the run keeps the test apart
    itself. -/
theorem local_queue_in_order_iff {m m' : LinkMemory} {linkNode linkQueue : Ptr} {l : Addr}
    (hinit : initLinkQueue m sizeofMsgBuf linkNode linkQueue = some (m', some l))
    (evs : List LocalEvent) (s : LocalState)
    (hrun : exec localStep (newLocal m' (some l)) evs = some s) :
    (∀ pre t, pre <+: evs → exec localStep (newLocal m' (some l)) pre = some t →
      ∀ fs, Along localStep TestApart t fs → Always localStep InOrder t fs) ↔
    Along localStep TestApart (newLocal m' (some l)) evs := by
  refine always_continued_along_iff_along (J := LocalInv l) localInv_step
    (fun _ h => h.inOrder) localInv_break ?_ hrun
  obtain ⟨q, xs, rear, bs, hq, hn, hitems, hrear, hlast⟩ := initLinkQueue_empty hinit
  refine ⟨rfl, rfl, ⟨⟨q, q.front, xs, bs, rear, ⟨none, none⟩, [], [], [], []⟩, [], [],
    ⟨?_, ⟨rfl, rfl, rfl⟩, rfl, rfl, rfl, rfl⟩, rfl⟩, by simp [newLocal, DePc.freedFront]⟩
  exact {
    queue := hq, dataSize_eq := hn, rear_eq := hrear, chain := hn ▸ hitems, rearNode := hlast
    enNodes := by simp, deNodes := by simp, enBlocks := by simp, deBlocks := by simp
    nodup := by simpa using hitems.nodup, blocks_nodup := by simpa using hitems.blocks_nodup }

/-- A call of `EnMsgLinkQueue` up to the test of `front->data`. -/
def enToTest (msgBuf : MsgBuf) (linkNode newData : Addr) : List LocalEvent :=
  [.enMsg msgBuf, .en none, .en (some linkNode), .en none, .en none, .en none, .en none,
   .en (some newData), .en none]

/-- The rest of the call. -/
def enFromTest : List LocalEvent := List.replicate 5 (.en none)

/-- A call of `DeMsgLinkQueue` up to `front = tmp`. -/
def deToFront : List LocalEvent := .deMsg (uninit sizeofMsgBuf) :: List.replicate 9 .de

/-- One message in and out, one thread after the other. -/
def inAndOut : List LocalEvent :=
  enToTest serverMsg 3 4 ++ enFromTest ++ deToFront ++ [.de, .de]

/-- The consumer has freed the only node with a message; before it moves `front` the
    producer tests `front->data` for the next message. -/
def testWhileTaking : List LocalEvent :=
  enToTest serverMsg 3 4 ++ enFromTest ++ enToTest serverMsg 5 6 ++ deToFront ++ [.en none]

/-- The queue that `InitLinkQueue` makes of the addresses 1 and 2. -/
def firstQueue : LinkMemory :=
  { LinkMemory.empty with
    nodes := Function.update LinkMemory.empty.nodes 1 (some ⟨none, none⟩)
    queues := Function.update LinkMemory.empty.queues 2
      (some ⟨some 1, some 1, sizeofMsgBuf⟩) }

theorem initLinkQueue_firstQueue :
    initLinkQueue LinkMemory.empty sizeofMsgBuf (some 1) (some 2) = some (firstQueue, some 2) :=
  initLinkQueue_eq LinkMemory.empty (by decide) 1 2

theorem local_queue_in_order_inAndOut : ∃ s,
    initLinkQueue LinkMemory.empty sizeofMsgBuf (some 1) (some 2) = some (firstQueue, some 2) ∧
      exec localStep (newLocal firstQueue (some 2)) inAndOut = some s ∧
      Always localStep InOrder (newLocal firstQueue (some 2)) inAndOut := by
  have hruns : (exec localStep (newLocal firstQueue (some 2)) inAndOut).isSome := by
    decide +kernel
  have hapart : Along localStep TestApart (newLocal firstQueue (some 2)) inAndOut := by
    decide +kernel
  obtain ⟨s, hrun⟩ := Option.isSome_iff_exists.mp hruns
  refine ⟨s, initLinkQueue_firstQueue, hrun, ?_⟩
  exact (local_queue_in_order_iff initLinkQueue_firstQueue inAndOut s hrun).mpr hapart [] _
    List.nil_prefix rfl inAndOut hapart

/-- The producer reads the node that the consumer has freed. -/
theorem local_queue_reads_freed_node : ∃ s,
    initLinkQueue LinkMemory.empty sizeofMsgBuf (some 1) (some 2) = some (firstQueue, some 2) ∧
      exec localStep (newLocal firstQueue (some 2)) testWhileTaking = some s ∧ ¬ InOrder s := by
  have hfault : (exec localStep (newLocal firstQueue (some 2)) testWhileTaking).map
      LocalState.fault = some true := by
    decide +kernel
  obtain ⟨s, hrun, hs⟩ := Option.map_eq_some_iff.mp hfault
  refine ⟨s, initLinkQueue_firstQueue, hrun, ?_⟩
  intro h
  rw [h.sound] at hs
  exact absurd hs (by decide)

end SocketPractice.SocketTcp
