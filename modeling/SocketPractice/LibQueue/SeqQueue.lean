import SocketPractice.Lib.CInt
import SocketPractice.Lib.Ring
import SocketPractice.LibQueue.LinkQueue

/-!
# The sequential queue (`seq_queue.c`)

A ring of `queueLen + 1` slots of `dataSize` bytes in one block.  The positions
are C integers, the byte offsets are products of type `size_t`, and the block is
as large as `calloc` could make it; while the queue is in use none of the three
ever wraps around.
-/

namespace SocketPractice.LibQueue

open Lib.CInt Lib.Memory Lib.Raw Lib.Fifo Lib.Runs Lib.Ring

/-! ## 1. The code -/

/-- The size limit of the allocator. -/
def PTRDIFF_MAX : Nat := 9223372036854775807

/-- The remainder of two `int`; by zero it is undefined. -/
def modInt (a b : Int) : Option Int := if b = 0 then none else some (a.tmod b)

/-- The conversion of an `int` to `size_t`. -/
def toSize (a : Int) : Nat := (a % 2 ^ 64).toNat

/-- The product of two `size_t`. -/
def mulSize (a b : Nat) : Nat := a * b % 2 ^ 64

structure SeqQueue where
  front : Int
  rear : Int
  dataSize : Nat
  nodeCnt : Int
  queuePtr : Ptr
deriving DecidableEq

structure SeqMemory where
  queues : Store SeqQueue
  blocks : Store Block

def SeqMemory.empty : SeqMemory := ⟨fun _ => none, fun _ => none⟩

/-- What `calloc(nmemb, size)` returns where the allocator could give `p`. -/
def calloc (nmemb size : Nat) (p : Ptr) : Ptr := if nmemb * size ≤ PTRDIFF_MAX then p else none

/-- The result of the first allocation is not tested.  `front` and `rear` are set
    last; nothing reads them before. -/
def initSeqQueue (m : SeqMemory) (queueLen : Int) (dataSize : Nat) (seqQueue queuePtr : Ptr) :
    Option (SeqMemory × Ptr) := do
  let nodeCnt := addInt queueLen 1
  let queuePtr := calloc (toSize nodeCnt) dataSize queuePtr
  let q : SeqQueue := ⟨0, 0, dataSize, nodeCnt, queuePtr⟩
  let queues ← (m.queues.malloc seqQueue q).store seqQueue q
  let blocks := m.blocks.malloc queuePtr (zeroed (toSize nodeCnt * dataSize))
  if queuePtr = none then
    return (⟨queues, blocks⟩, none)
  return (⟨queues, blocks⟩, seqQueue)

/-- The argument `dataSize` is compared with the queue's, and a difference is logged;
    the copy is of the queue's size. -/
def enSeqQueue (m : SeqMemory) (seqQueue : Ptr) (data : Option Block) (_dataSize : Nat) :
    Option (SeqMemory × QueueRetValue) := do
  let q ← m.queues.load seqQueue
  if (← modInt (addInt q.rear 1) q.nodeCnt) = q.front then
    return (m, .QUEUE_FULL)
  let dst ← m.blocks.load q.queuePtr
  let dst ← memcpy dst (mulSize (toSize q.rear) q.dataSize) (← data) 0 q.dataSize
  let blocks ← m.blocks.store q.queuePtr dst
  let rear ← modInt (addInt q.rear 1) q.nodeCnt
  let queues ← m.queues.store seqQueue { q with rear := rear }
  return (⟨queues, blocks⟩, .QUEUE_SUCCESS)

/-- The last component is the caller's buffer on return.  `dataSize` is used as in
    `enSeqQueue`. -/
def deSeqQueue (m : SeqMemory) (seqQueue : Ptr) (data : Option Block) (_dataSize : Nat) :
    Option (SeqMemory × QueueRetValue × Option Block) := do
  let q ← m.queues.load seqQueue
  if q.front = q.rear then
    return (m, .QUEUE_EMPTY, data)
  let src ← m.blocks.load q.queuePtr
  let data ← memcpy (← data) 0 src (mulSize (toSize q.front) q.dataSize) q.dataSize
  let front ← modInt (addInt q.front 1) q.nodeCnt
  let queues ← m.queues.store seqQueue { q with front := front }
  return ({ m with queues }, .QUEUE_SUCCESS, some data)

/-! ## 2. Arithmetic without wrap-around -/

theorem addInt_one {a : Nat} (ha : (a : Int) < INT_MAX) : addInt a 1 = ((a + 1 : Nat) : Int) := by
  unfold INT_MAX at ha
  rw [addInt_eq (by omega) (by unfold INT_MAX; omega)]
  rfl

theorem modInt_succ {a cnt : Nat} (hcnt : 0 < cnt) :
    modInt ((a + 1 : Nat) : Int) cnt = some (((a + 1) % cnt : Nat) : Int) := by
  have hne : (cnt : Int) ≠ 0 := by omega
  rw [modInt, if_neg hne, Int.ofNat_tmod]

theorem toSize_natCast {a : Nat} (ha : (a : Int) ≤ INT_MAX) : toSize a = a := by
  unfold INT_MAX at ha
  unfold toSize
  omega

theorem mulSize_eq {a b : Nat} (h : a * b ≤ PTRDIFF_MAX) : mulSize a b = a * b := by
  unfold PTRDIFF_MAX at h
  apply Nat.mod_eq_of_lt
  omega

/-- A slot lies inside the block. -/
theorem slot_bytes_le {i cnt n : Nat} (hi : i < cnt) : i * n + n ≤ cnt * n := by
  rw [← Nat.succ_mul]
  exact Nat.mul_le_mul_right n hi

/-- Two different slots do not overlap. -/
theorem slot_bytes_disjoint {i j n : Nat} (hij : i ≠ j) :
    i * n + n ≤ j * n ∨ j * n + n ≤ i * n := by
  rcases Nat.lt_or_gt_of_ne hij with h | h
  · exact .inl (slot_bytes_le h)
  · exact .inr (slot_bytes_le h)

/-! ## 3. The representation -/

/-- The bytes of the slot `i`. -/
def SeqMemory.slot? (m : SeqMemory) (seqQueue : Ptr) (i : Nat) : Option Block := do
  let q ← m.queues.load seqQueue
  let b ← m.blocks.load q.queuePtr
  return slice b (i * q.dataSize) q.dataSize

/-- A ring of `cnt` slots holds `items` from the slot `front` on. -/
structure SeqRing (m : SeqMemory) (seqQueue : Ptr) (dataSize cnt front : Nat)
    (items : List Block) : Prop where
  cnt_le : (cnt : Int) ≤ INT_MAX
  bytes_le : cnt * dataSize ≤ PTRDIFF_MAX
  front_lt : front < cnt
  length_lt : items.length < cnt
  queue : ∃ l p b, seqQueue = some l ∧
    m.queues l = some ⟨front, (slot cnt front items.length : Nat), dataSize, cnt, some p⟩ ∧
    m.blocks p = some b ∧ b.length = cnt * dataSize
  slots : ∀ k, k < items.length → m.slot? seqQueue (slot cnt front k) = items[k]?

namespace SeqRing

variable {m : SeqMemory} {seqQueue : Ptr} {dataSize cnt front : Nat} {items : List Block}

theorem int_lt (h : SeqRing m seqQueue dataSize cnt front items) {i : Nat} (hi : i < cnt) :
    (i : Int) < INT_MAX := by
  have := h.cnt_le
  omega

theorem mul_le (h : SeqRing m seqQueue dataSize cnt front items) {i : Nat} (hi : i < cnt) :
    i * dataSize ≤ PTRDIFF_MAX :=
  (Nat.mul_le_mul_right dataSize (Nat.le_of_lt hi)).trans h.bytes_le

/-- The position after a slot, as the code computes it. -/
theorem next_eq (h : SeqRing m seqQueue dataSize cnt front items) (k : Nat) :
    modInt (addInt (slot cnt front k : Nat) 1) cnt =
      some ((slot cnt front (k + 1) : Nat) : Int) := by
  have hlt : slot cnt front k < cnt := slot_lt h.front_lt
  have hpos : 0 < cnt := by omega
  rw [addInt_one (h.int_lt hlt), modInt_succ hpos, slot_succ]

/-- The byte offset of a slot, as the code computes it. -/
theorem offset_eq (h : SeqRing m seqQueue dataSize cnt front items) {i : Nat} (hi : i < cnt) :
    mulSize (toSize (i : Int)) dataSize = i * dataSize := by
  rw [toSize_natCast (Int.le_of_lt (h.int_lt hi)), mulSize_eq (h.mul_le hi)]

theorem full_iff (h : SeqRing m seqQueue dataSize cnt front items) :
    ((slot cnt front (items.length + 1) : Nat) : Int) = front ↔ items.length + 1 = cnt := by
  rw [Int.natCast_inj]
  exact slot_succ_eq_front_iff h.front_lt h.length_lt

theorem empty_iff (h : SeqRing m seqQueue dataSize cnt front items) :
    (front : Int) = (slot cnt front items.length : Nat) ↔ items.length = 0 := by
  rw [Int.natCast_inj, eq_comm]
  exact slot_eq_front_iff h.front_lt h.length_lt

/-- A full ring refuses the call and is not changed. -/
theorem enSeqQueue_full (h : SeqRing m seqQueue dataSize cnt front items)
    (hfull : items.length + 1 = cnt) (data : Option Block) (n : Nat) :
    enSeqQueue m seqQueue data n = some (m, .QUEUE_FULL) := by
  obtain ⟨l, p, b, rfl, hq, -, -⟩ := h.queue
  simp [enSeqQueue, hq, h.next_eq, h.full_iff.mpr hfull]

/-- The element goes into the slot behind the others, and no other slot changes. -/
theorem enSeqQueue (h : SeqRing m seqQueue dataSize cnt front items)
    (hroom : items.length + 1 < cnt) {data : Block} (hlen : dataSize ≤ data.length) (n : Nat) :
    ∃ m', enSeqQueue m seqQueue (some data) n = some (m', .QUEUE_SUCCESS) ∧
      (∀ i, i ≠ slot cnt front items.length → m'.slot? seqQueue i = m.slot? seqQueue i) ∧
      SeqRing m' seqQueue dataSize cnt front (items ++ [data.take dataSize]) := by
  obtain ⟨l, p, b, rfl, hq, hp, hb⟩ := h.queue
  have hrear : slot cnt front items.length < cnt := slot_lt h.front_lt
  have hin := slot_bytes_le (n := dataSize) hrear
  have hnot : ¬ ((slot cnt front (items.length + 1) : Nat) : Int) = front := by
    rw [h.full_iff]
    omega
  obtain ⟨b', hcopy⟩ : ∃ b', memcpy b (slot cnt front items.length * dataSize) data 0 dataSize
      = some b' := ⟨_, memcpy_eq (by omega) (by omega)⟩
  refine ⟨⟨Function.update m.queues l
      (some ⟨front, (slot cnt front (items.length + 1) : Nat), dataSize, cnt, some p⟩),
    Function.update m.blocks p (some b')⟩, ?_, ?_⟩
  · simp [LibQueue.enSeqQueue, hq, h.next_eq, hnot, hp, h.offset_eq hrear, hcopy, Store.store]
  have hother : ∀ i, i ≠ slot cnt front items.length →
      SeqMemory.slot? ⟨Function.update m.queues l
        (some ⟨front, (slot cnt front (items.length + 1) : Nat), dataSize, cnt, some p⟩),
        Function.update m.blocks p (some b')⟩ (some l) i = m.slot? (some l) i := by
    intro i hi
    have hkeep := slice_memcpy_of_disjoint hcopy (slot_bytes_disjoint hi)
    simp [SeqMemory.slot?, hq, hp, hkeep]
  refine ⟨hother, h.cnt_le, h.bytes_le, h.front_lt, by simpa using hroom, ?_, ?_⟩
  · refine ⟨l, p, b', rfl, by simp, by simp, ?_⟩
    rw [length_memcpy hcopy, hb]
  · intro k hk
    rcases Nat.lt_or_ge k items.length with hold | hnew
    · have hne : slot cnt front k ≠ slot cnt front items.length := by
        intro heq
        have := slot_injective (by omega) h.length_lt heq
        omega
      rw [hother _ hne, h.slots k hold, List.getElem?_append_left hold]
    · obtain rfl : k = items.length := by
        simp at hk
        omega
      have hself := slice_memcpy_self hcopy
      simp [SeqMemory.slot?, hself]

theorem deSeqQueue_nil (h : SeqRing m seqQueue dataSize cnt front []) (data : Option Block)
    (n : Nat) : deSeqQueue m seqQueue data n = some (m, .QUEUE_EMPTY, data) := by
  obtain ⟨l, p, b, rfl, hq, -, -⟩ := h.queue
  simp [deSeqQueue, hq, h.front_lt]

/-- The element of the first slot is copied out, over the start of the caller's
    buffer, and the ring begins one slot later. -/
theorem deSeqQueue_cons {item : Block} (h : SeqRing m seqQueue dataSize cnt front (item :: items))
    {data : Block} (hlen : dataSize ≤ data.length) (n : Nat) :
    ∃ m', deSeqQueue m seqQueue (some data) n =
        some (m', .QUEUE_SUCCESS, some (item ++ data.drop dataSize)) ∧
      SeqRing m' seqQueue dataSize cnt (slot cnt front 1) items := by
  obtain ⟨l, p, b, rfl, hq, hp, hb⟩ := h.queue
  have hlen' : items.length + 1 < cnt := h.length_lt
  have hin := slot_bytes_le (n := dataSize) h.front_lt
  have hnot : ¬ (front : Int) = (slot cnt front (item :: items).length : Nat) := by
    rw [h.empty_iff]
    simp
  have hitem : slice b (front * dataSize) dataSize = item := by
    simpa [SeqMemory.slot?, hq, hp, h.front_lt] using h.slots 0 (by simp)
  have hcopy : memcpy data 0 b (front * dataSize) dataSize
      = some (item ++ data.drop dataSize) := by
    rw [memcpy_eq (by omega) (by omega), hitem]
    simp
  have hnext : modInt (addInt front 1) cnt = some ((slot cnt front 1 : Nat) : Int) := by
    have := h.next_eq 0
    rwa [slot_zero h.front_lt] at this
  refine ⟨⟨Function.update m.queues l
      (some ⟨(slot cnt front 1 : Nat), (slot cnt front (items.length + 1) : Nat), dataSize, cnt,
        some p⟩), m.blocks⟩, ?_, h.cnt_le, h.bytes_le, slot_lt h.front_lt, by omega, ?_, ?_⟩
  · simp only [List.length_cons] at hq hnot
    simp [deSeqQueue, hq, hnot, hp, h.offset_eq h.front_lt, hcopy, hnext, Store.store]
  · exact ⟨l, p, b, rfl, by simp [slot_next], hp, hb⟩
  · intro k hk
    have hold := h.slots (k + 1) (by simpa using hk)
    rw [slot_next]
    simpa [SeqMemory.slot?, hq, hp] using hold

end SeqRing

/-- `InitSeqQueue` gives an empty ring whenever it gives a queue at all. -/
theorem initSeqQueue_ring {m m' : SeqMemory} {queueLen : Int} {dataSize : Nat}
    {seqQueue queuePtr : Ptr} {l : Addr} (hpos : 0 ≤ queueLen) (hmax : queueLen < INT_MAX)
    (hinit : initSeqQueue m queueLen dataSize seqQueue queuePtr = some (m', some l)) :
    SeqRing m' (some l) dataSize (queueLen.toNat + 1) 0 [] := by
  obtain ⟨len, rfl⟩ := Int.eq_ofNat_of_zero_le hpos
  have hcnt : addInt (len : Int) 1 = ((len + 1 : Nat) : Int) := addInt_one hmax
  have hle : ((len + 1 : Nat) : Int) ≤ INT_MAX := by omega
  simp only [initSeqQueue, hcnt, toSize_natCast hle] at hinit
  rcases seqQueue with _ | l'
  · simp [Store.store] at hinit
  · by_cases hbytes : (len + 1) * dataSize ≤ PTRDIFF_MAX
    · rcases queuePtr with _ | p
      · simp [calloc, Store.store] at hinit
      · simp [calloc, hbytes, Store.store] at hinit
        obtain ⟨rfl, rfl⟩ := hinit
        refine ⟨hle, hbytes, Nat.succ_pos len, Nat.succ_pos len, ?_, by simp⟩
        exact ⟨l', p, _, rfl, by simp, Function.update_self .., by simp⟩
    · simp [calloc, hbytes, Store.store] at hinit

/-- A queue with `INT_MAX` as its length is too large to allocate. -/
theorem initSeqQueue_lt_max {m m' : SeqMemory} {queueLen : Int} {dataSize : Nat}
    {seqQueue queuePtr : Ptr} {l : Addr} (hle : queueLen ≤ INT_MAX) (hsize : dataSize ≠ 0)
    (hinit : initSeqQueue m queueLen dataSize seqQueue queuePtr = some (m', some l)) :
    queueLen < INT_MAX := by
  rcases Int.lt_or_eq_of_le hle with hlt | rfl
  · exact hlt
  · exfalso
    have hcnt : toSize (addInt INT_MAX 1) = 18446744071562067968 := by decide
    have hbytes : ¬ 18446744071562067968 * dataSize ≤ PTRDIFF_MAX := by
      unfold PTRDIFF_MAX
      omega
    rcases seqQueue with _ | l'
    · simp [initSeqQueue, Store.store] at hinit
    · simp [initSeqQueue, hcnt, calloc, hbytes, Store.store] at hinit

/-! ## 4. Runs -/

structure SeqState where
  mem : SeqMemory
  seqQueue : Ptr
  /-- What the calls that returned `QUEUE_SUCCESS` put in, and how much they took out. -/
  history : History Block
  /-- A call accessed memory that is not there, or took a remainder by zero. -/
  fault : Bool

def newSeq (m : SeqMemory) (seqQueue : Ptr) : SeqState := ⟨m, seqQueue, History.empty, false⟩

inductive SeqEvent where
  | en (data : Block)
  | de (data : Block)

/-- The calls with the element size `dataSize` and a data argument of at least that
    many bytes. -/
def seqStep (dataSize : Nat) (s : SeqState) : SeqEvent → Option SeqState
  | .en data =>
      if dataSize ≤ data.length then
        match enSeqQueue s.mem s.seqQueue (some data) dataSize with
        | none => some { s with fault := true }
        | some (m, ret) => some { s with
            mem := m
            history := if ret = .QUEUE_SUCCESS then s.history.enter (data.take dataSize)
              else s.history }
      else none
  | .de data =>
      if dataSize ≤ data.length then
        match deSeqQueue s.mem s.seqQueue (some data) dataSize with
        | none => some { s with fault := true }
        | some (m, ret, _) => some { s with
            mem := m
            history := if ret = .QUEUE_SUCCESS then s.history.leave else s.history }
      else none

/-- What the next call finds and does when `items` are outstanding in a queue of
    capacity `queueLen`. -/
structure SeqFifo (dataSize queueLen : Nat) (m : SeqMemory) (seqQueue : Ptr)
    (items : List Block) : Prop where
  positions : ∃ q, m.queues.load seqQueue = some q ∧ q.nodeCnt = queueLen + 1 ∧
    0 ≤ q.front ∧ q.front < q.nodeCnt ∧ 0 ≤ q.rear ∧ q.rear < q.nodeCnt
  capacity : items.length ≤ queueLen
  full : items.length = queueLen → ∀ data,
    enSeqQueue m seqQueue data dataSize = some (m, .QUEUE_FULL)
  enqueue : items.length < queueLen → ∀ data : Block, dataSize ≤ data.length →
    ∃ m', enSeqQueue m seqQueue (some data) dataSize = some (m', .QUEUE_SUCCESS) ∧
      ∃ q, m.queues.load seqQueue = some q ∧ ∀ k, k < items.length →
        m'.slot? seqQueue (slot (queueLen + 1) q.front.toNat k) =
            m.slot? seqQueue (slot (queueLen + 1) q.front.toNat k) ∧
          m.slot? seqQueue (slot (queueLen + 1) q.front.toNat k) = items[k]?
  empty : items = [] → ∀ data,
    deSeqQueue m seqQueue data dataSize = some (m, .QUEUE_EMPTY, data)
  dequeue : ∀ item rest, items = item :: rest → ∀ data : Block, dataSize ≤ data.length →
    ∃ m', deSeqQueue m seqQueue (some data) dataSize =
      some (m', .QUEUE_SUCCESS, some (item ++ data.drop dataSize))

theorem SeqRing.seqFifo {m : SeqMemory} {seqQueue : Ptr} {n queueLen front : Nat}
    {items : List Block} (h : SeqRing m seqQueue n (queueLen + 1) front items) :
    SeqFifo n queueLen m seqQueue items := by
  obtain ⟨l, p, b, rfl, hq, -, -⟩ := h.queue
  have hlen := h.length_lt
  constructor
  · have hfront := h.front_lt
    have hrear : slot (queueLen + 1) front items.length < queueLen + 1 := slot_lt hfront
    refine ⟨_, hq, ?_, ?_, ?_, ?_, ?_⟩
    all_goals
      push_cast
      omega
  · omega
  · intro hfull data
    exact h.enSeqQueue_full (by omega) data n
  · intro hroom data hdata
    obtain ⟨m', heq, hother, -⟩ := h.enSeqQueue (by omega) hdata n
    refine ⟨m', heq, _, hq, fun k hk => ⟨hother _ ?_, h.slots k hk⟩⟩
    intro heq
    have := slot_injective (by omega) hlen heq
    omega
  · rintro rfl data
    exact h.deSeqQueue_nil data n
  · rintro item rest rfl data hdata
    obtain ⟨m', heq, -⟩ := h.deSeqQueue_cons hdata n
    exact ⟨m', heq⟩

/-- The ring holds what is outstanding. -/
structure SeqInv (dataSize queueLen : Nat) (s : SeqState) : Prop where
  sound : s.fault = false
  ring : ∃ front, SeqRing s.mem s.seqQueue dataSize (queueLen + 1) front s.history.outstanding

theorem seqInv_step {n queueLen : Nat} (s : SeqState) (e : SeqEvent) (u : SeqState)
    (hs : SeqInv n queueLen s) (hstep : seqStep n s e = some u) : SeqInv n queueLen u := by
  obtain ⟨hsound, front, hring⟩ := hs
  cases e with
  | en data =>
      simp only [seqStep, Option.ite_none_right_eq_some] at hstep
      obtain ⟨hdata, hstep⟩ := hstep
      rcases Nat.lt_or_ge s.history.outstanding.length queueLen with hroom | hfull
      · obtain ⟨m', heq, -, hring'⟩ := hring.enSeqQueue (by omega) hdata n
        rw [heq] at hstep
        obtain rfl := Option.some.inj hstep
        exact ⟨hsound, front, by simpa using hring'⟩
      · have hlen := hring.length_lt
        rw [hring.enSeqQueue_full (by omega)] at hstep
        obtain rfl := Option.some.inj hstep
        exact ⟨hsound, front, by simpa using hring⟩
  | de data =>
      simp only [seqStep, Option.ite_none_right_eq_some] at hstep
      obtain ⟨hdata, hstep⟩ := hstep
      rcases hout : s.history.outstanding with _ | ⟨item, rest⟩
      · rw [hout] at hring
        rw [hring.deSeqQueue_nil] at hstep
        obtain rfl := Option.some.inj hstep
        exact ⟨hsound, front, by simpa [hout] using hring⟩
      · rw [hout] at hring
        obtain ⟨m', heq, hring'⟩ := hring.deSeqQueue_cons hdata n
        rw [heq] at hstep
        obtain rfl := Option.some.inj hstep
        exact ⟨hsound, slot (queueLen + 1) front 1, by simpa [hout] using hring'⟩

/-- In every state of every run on a queue from `InitSeqQueue` the next call behaves
    as on a FIFO queue of capacity `queueLen` of what is outstanding. -/
theorem seq_queue_bounded_fifo {m m' : SeqMemory} {queueLen : Int} {dataSize : Nat}
    {seqQueue queuePtr : Ptr} {l : Addr} (hpos : 0 ≤ queueLen) (hmax : queueLen < INT_MAX)
    (hinit : initSeqQueue m queueLen dataSize seqQueue queuePtr = some (m', some l))
    (evs : List SeqEvent) (s : SeqState)
    (hrun : exec (seqStep dataSize) (newSeq m' (some l)) evs = some s) :
    s.fault = false ∧
      SeqFifo dataSize queueLen.toNat s.mem s.seqQueue s.history.outstanding := by
  have hnew : SeqInv dataSize queueLen.toNat (newSeq m' (some l)) :=
    ⟨rfl, 0, initSeqQueue_ring hpos hmax hinit⟩
  obtain ⟨hsound, front, hring⟩ := exec_invariant seqInv_step hnew hrun
  exact ⟨hsound, hring.seqFifo⟩

/-- A ring of capacity 1: the second enqueue is refused, and the ring wraps around. -/
def oneSlot : List SeqEvent :=
  [.en [some 1], .en [some 2], .de [none], .en [some 3]]

theorem seq_queue_bounded_fifo_oneSlot : ∃ m' l s,
    initSeqQueue SeqMemory.empty 1 1 (some 1) (some 2) = some (m', some l) ∧
      exec (seqStep 1) (newSeq m' (some l)) oneSlot = some s ∧
      s.history.outstanding = [[some 3]] ∧
      SeqFifo 1 1 s.mem s.seqQueue s.history.outstanding := by
  obtain ⟨m', l, hinit, s, hrun, hout⟩ : ∃ m' l,
      initSeqQueue SeqMemory.empty 1 1 (some 1) (some 2) = some (m', some l) ∧
        ∃ s, exec (seqStep 1) (newSeq m' (some l)) oneSlot = some s ∧
          s.history.outstanding = [[some 3]] :=
    ⟨_, _, rfl, _, rfl, rfl⟩
  exact ⟨m', l, s, hinit, hrun, hout,
    (seq_queue_bounded_fifo (by decide) (by decide) hinit oneSlot s hrun).2⟩

end SocketPractice.LibQueue
