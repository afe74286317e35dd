import SocketPractice.LibQueue.AllocFailure

/-!
# The arithmetic of the sequential queue, for every length

`InitSeqQueue` does not look at its arguments.  Whether a queue comes out of a
length that is negative or too large is left to `calloc`: a negative number of
slots is converted to a huge one, and only slots of no bytes fit.  The positions
then stay below the absolute value of the number of slots, because the remainder
of C takes the sign of what is divided.  The one length that gives a queue and is
not safe is `-1`, whose number of slots is 0.
-/

namespace SocketPractice.LibQueue

open Lib.CInt Lib.Memory Lib.Raw Lib.Fifo Lib.Runs

/-! ## 1. Positions of any sign -/

def INT_MIN : Int := -2147483648

theorem addInt_mem (a b : Int) : INT_MIN ≤ addInt a b ∧ addInt a b ≤ INT_MAX := by
  unfold INT_MIN INT_MAX addInt toInt
  have hle := Int.le_bmod (x := a + b) (m := 2 ^ 32) (by decide)
  have hlt := Int.bmod_lt (x := a + b) (m := 2 ^ 32) (by decide)
  omega

/-- A position of a ring whose number of slots may be negative. -/
def IsPosition (cnt i : Int) : Prop := 0 ≤ i ∧ i < cnt.natAbs

theorem isPosition_zero {cnt : Int} (hcnt : cnt ≠ 0) : IsPosition cnt 0 :=
  ⟨Int.le_refl 0, by omega⟩

theorem isPosition_tmod {cnt a : Int} (hcnt : cnt ≠ 0) (ha : 0 ≤ a) :
    IsPosition cnt (a.tmod cnt) := by
  refine ⟨Int.tmod_nonneg cnt ha, ?_⟩
  rcases Int.lt_or_gt_of_ne hcnt with hneg | hpos
  · have hlt := Int.tmod_lt_of_pos a (Int.neg_pos.mpr hneg)
    rw [Int.tmod_neg] at hlt
    omega
  · have hlt := Int.tmod_lt_of_pos a hpos
    omega

/-- The next position is one again.  The addition wraps around at most if there are
    `INT_MIN` slots, and the sum is then a multiple of their number. -/
theorem isPosition_next {cnt i : Int} (hcnt : cnt ≠ 0) (hmin : INT_MIN ≤ cnt)
    (hmax : cnt ≤ INT_MAX) (hi : IsPosition cnt i) :
    ∃ j, modInt (addInt i 1) cnt = some j ∧ IsPosition cnt j := by
  obtain ⟨hnonneg, hlt⟩ := hi
  refine ⟨_, if_neg hcnt, ?_⟩
  by_cases hwrap : i < INT_MAX
  · have hsum : addInt i 1 = i + 1 := by
      unfold INT_MAX at hwrap
      exact addInt_eq (by omega) (by unfold INT_MAX; omega)
    rw [hsum]
    exact isPosition_tmod hcnt (by omega)
  · obtain ⟨rfl, rfl⟩ : i = INT_MAX ∧ cnt = INT_MIN := by
      unfold INT_MIN INT_MAX at *
      omega
    have hself : (addInt INT_MAX 1).tmod INT_MIN = 0 := by decide
    rw [hself]
    exact isPosition_zero hcnt

/-! ## 2. The bytes of a slot -/

/-- The allocator gave a block for `cnt` slots of `n` bytes. -/
def Allocated (cnt : Int) (n : Nat) : Prop := toSize cnt * n ≤ PTRDIFF_MAX

theorem toSize_of_nonneg {a : Int} (hnonneg : 0 ≤ a) (hmax : a ≤ INT_MAX) :
    toSize a = a.toNat := by
  unfold INT_MAX at hmax
  unfold toSize
  omega

/-- Only slots of no bytes fit into memory a negative number of times. -/
theorem Allocated.pos_or_zero {cnt : Int} {n : Nat} (h : Allocated cnt n) (hcnt : cnt ≠ 0)
    (hmin : INT_MIN ≤ cnt) : 0 < cnt ∨ n = 0 := by
  rcases Int.lt_or_gt_of_ne hcnt with hneg | hpos
  · right
    have hhuge : PTRDIFF_MAX < toSize cnt := by
      unfold INT_MIN at hmin
      unfold PTRDIFF_MAX toSize
      omega
    rcases Nat.eq_zero_or_pos n with hzero | hpos
    · exact hzero
    · exact absurd (h.trans_lt hhuge) (Nat.not_lt.mpr (Nat.le_mul_of_pos_right _ hpos))
  · exact .inl hpos

/-- The bytes that the code computes for a position lie in the block. -/
theorem Allocated.slot_inside {cnt i : Int} {n : Nat} (h : Allocated cnt n) (hcnt : cnt ≠ 0)
    (hmin : INT_MIN ≤ cnt) (hmax : cnt ≤ INT_MAX) (hi : IsPosition cnt i) :
    mulSize (toSize i) n + n ≤ toSize cnt * n := by
  rcases h.pos_or_zero hcnt hmin with hpos | rfl
  · obtain ⟨hnonneg, hlt⟩ := hi
    unfold Allocated at h
    rw [toSize_of_nonneg hpos.le hmax] at h ⊢
    rw [toSize_of_nonneg hnonneg (by omega)]
    have hslot : i.toNat * n + n ≤ cnt.toNat * n := slot_bytes_le (by omega)
    rw [mulSize_eq (by omega)]
    exact hslot
  · simp [mulSize]

/-! ## 3. Calls -/

/-- A call, with the caller's buffer and the element size that the caller states. -/
inductive SeqCall where
  | en (data : Block) (dataSize : Nat)
  | de (data : Block) (dataSize : Nat)

/-- The caller's buffer has at least the `n` bytes that a queue with elements of that size
    copies. -/
def seqCallStep (n : Nat) (s : SeqState) : SeqCall → Option SeqState
  | .en data dataSize =>
      if n ≤ data.length then
        match enSeqQueue s.mem s.seqQueue (some data) dataSize with
        | none => some { s with fault := true }
        | some (m, ret) => some { s with
            mem := m
            history := if ret = .QUEUE_SUCCESS then s.history.enter (data.take n)
              else s.history }
      else none
  | .de data dataSize =>
      if n ≤ data.length then
        match deSeqQueue s.mem s.seqQueue (some data) dataSize with
        | none => some { s with fault := true }
        | some (m, ret, _) => some { s with
            mem := m
            history := if ret = .QUEUE_SUCCESS then s.history.leave else s.history }
      else none

/-- The two slots that a call may touch lie in `[0, nodeCnt * dataSize)`, which is the
    block behind `queuePtr`. -/
def SlotsInside (m : SeqMemory) (seqQueue : Ptr) : Prop :=
  ∃ q b, m.queues.load seqQueue = some q ∧ m.blocks.load q.queuePtr = some b ∧
    b.length = toSize q.nodeCnt * q.dataSize ∧
    mulSize (toSize q.front) q.dataSize + q.dataSize ≤ b.length ∧
    mulSize (toSize q.rear) q.dataSize + q.dataSize ≤ b.length

/-- No remainder by zero and no byte outside the block so far, nor in the copy of the
    next call. -/
def ArithSafe (s : SeqState) : Prop := s.fault = false ∧ SlotsInside s.mem s.seqQueue

/-- The queue has `cnt` slots, whatever its sign, and the positions are two of them. -/
structure SeqArith (m : SeqMemory) (seqQueue : Ptr) (n : Nat) (cnt : Int) : Prop where
  cnt_ne : cnt ≠ 0
  cnt_min : INT_MIN ≤ cnt
  cnt_max : cnt ≤ INT_MAX
  allocated : Allocated cnt n
  queue : ∃ l p b front rear, seqQueue = some l ∧
    m.queues l = some ⟨front, rear, n, cnt, some p⟩ ∧ IsPosition cnt front ∧
    IsPosition cnt rear ∧ m.blocks p = some b ∧ b.length = toSize cnt * n

namespace SeqArith

variable {m : SeqMemory} {seqQueue : Ptr} {n : Nat} {cnt : Int}

theorem next (h : SeqArith m seqQueue n cnt) {i : Int} (hi : IsPosition cnt i) :
    ∃ j, modInt (addInt i 1) cnt = some j ∧ IsPosition cnt j :=
  isPosition_next h.cnt_ne h.cnt_min h.cnt_max hi

theorem slot_inside (h : SeqArith m seqQueue n cnt) {i : Int} (hi : IsPosition cnt i) :
    mulSize (toSize i) n + n ≤ toSize cnt * n :=
  h.allocated.slot_inside h.cnt_ne h.cnt_min h.cnt_max hi

theorem slotsInside (h : SeqArith m seqQueue n cnt) : SlotsInside m seqQueue := by
  obtain ⟨l, p, b, front, rear, rfl, hq, hfront, hrear, hb, hlen⟩ := h.queue
  refine ⟨_, b, hq, hb, hlen, ?_, ?_⟩
  · rw [hlen]
    exact h.slot_inside hfront
  · rw [hlen]
    exact h.slot_inside hrear

theorem enSeqQueue (h : SeqArith m seqQueue n cnt) {data : Block} (hdata : n ≤ data.length)
    (dataSize : Nat) : ∃ m' ret, enSeqQueue m seqQueue (some data) dataSize = some (m', ret) ∧
      SeqArith m' seqQueue n cnt := by
  obtain ⟨l, p, b, front, rear, rfl, hq, hfront, hrear, hb, hlen⟩ := h.queue
  obtain ⟨rear', hnext, hrear'⟩ := h.next hrear
  have hin := h.slot_inside hrear
  by_cases hfull : rear' = front
  · exact ⟨m, .QUEUE_FULL, by simp [LibQueue.enSeqQueue, hq, hnext, hfull], h⟩
  obtain ⟨b', hcopy⟩ : ∃ b', memcpy b (mulSize (toSize rear) n) data 0 n = some b' :=
    ⟨_, memcpy_eq (by omega) (by omega)⟩
  refine ⟨⟨Function.update m.queues l (some ⟨front, rear', n, cnt, some p⟩),
    Function.update m.blocks p (some b')⟩, .QUEUE_SUCCESS, ?_, ?_⟩
  · simp [LibQueue.enSeqQueue, hq, hnext, hfull, hb, hcopy, Store.store]
  · refine ⟨h.cnt_ne, h.cnt_min, h.cnt_max, h.allocated, l, p, b', front, rear', rfl, by simp,
      hfront, hrear', by simp, ?_⟩
    rw [length_memcpy hcopy, hlen]

theorem deSeqQueue (h : SeqArith m seqQueue n cnt) {data : Block} (hdata : n ≤ data.length)
    (dataSize : Nat) :
    ∃ m' ret out, deSeqQueue m seqQueue (some data) dataSize = some (m', ret, out) ∧
      SeqArith m' seqQueue n cnt := by
  obtain ⟨l, p, b, front, rear, rfl, hq, hfront, hrear, hb, hlen⟩ := h.queue
  obtain ⟨front', hnext, hfront'⟩ := h.next hfront
  have hin := h.slot_inside hfront
  by_cases hempty : front = rear
  · exact ⟨m, .QUEUE_EMPTY, some data, by simp [LibQueue.deSeqQueue, hq, hempty], h⟩
  obtain ⟨out, hcopy⟩ : ∃ out, memcpy data 0 b (mulSize (toSize front) n) n = some out :=
    ⟨_, memcpy_eq (by omega) (by omega)⟩
  refine ⟨⟨Function.update m.queues l (some ⟨front', rear, n, cnt, some p⟩), m.blocks⟩,
    .QUEUE_SUCCESS, some out, ?_, ?_⟩
  · simp [LibQueue.deSeqQueue, hq, hnext, hempty, hb, hcopy, Store.store]
  · exact ⟨h.cnt_ne, h.cnt_min, h.cnt_max, h.allocated, l, p, b, front', rear, rfl, by simp,
      hfront', hrear, hb, hlen⟩

end SeqArith

def SeqArithInv (n : Nat) (cnt : Int) (s : SeqState) : Prop :=
  s.fault = false ∧ SeqArith s.mem s.seqQueue n cnt

theorem seqArithInv_step {n : Nat} {cnt : Int} (s : SeqState) (call : SeqCall) (t : SeqState)
    (hs : SeqArithInv n cnt s) (hstep : seqCallStep n s call = some t) : SeqArithInv n cnt t := by
  obtain ⟨hsound, harith⟩ := hs
  cases call with
  | en data dataSize =>
      simp only [seqCallStep, Option.ite_none_right_eq_some] at hstep
      obtain ⟨hdata, hstep⟩ := hstep
      obtain ⟨m', ret, hcall, harith'⟩ := harith.enSeqQueue hdata dataSize
      rw [hcall] at hstep
      obtain rfl := Option.some.inj hstep
      exact ⟨hsound, harith'⟩
  | de data dataSize =>
      simp only [seqCallStep, Option.ite_none_right_eq_some] at hstep
      obtain ⟨hdata, hstep⟩ := hstep
      obtain ⟨m', ret, out, hcall, harith'⟩ := harith.deSeqQueue hdata dataSize
      rw [hcall] at hstep
      obtain rfl := Option.some.inj hstep
      exact ⟨hsound, harith'⟩

/-! ## 4. What `InitSeqQueue` admits -/

/-- The queue that a successful `InitSeqQueue` returns, its slots counted with wrap-around. -/
theorem initSeqQueue_inv {m m' : SeqMemory} {queueLen : Int} {dataSize : Nat}
    {seqQueue queuePtr : Ptr} {l : Addr}
    (hinit : initSeqQueue m queueLen dataSize seqQueue queuePtr = some (m', some l)) :
    ∃ p, seqQueue = some l ∧ Allocated (addInt queueLen 1) dataSize ∧
      m'.queues l = some ⟨0, 0, dataSize, addInt queueLen 1, some p⟩ ∧
      m'.blocks p = some (zeroed (toSize (addInt queueLen 1) * dataSize)) := by
  rcases seqQueue with _ | a
  · simp [initSeqQueue, Store.store] at hinit
  cases hblock : calloc (toSize (addInt queueLen 1)) dataSize queuePtr with
  | none =>
      rw [initSeqQueue_leaks m a hblock] at hinit
      simp at hinit
  | some p =>
      rw [initSeqQueue_eq m a hblock, Option.some.injEq, Prod.mk.injEq, Option.some.injEq] at hinit
      obtain ⟨rfl, rfl⟩ := hinit
      have hfits : Allocated (addInt queueLen 1) dataSize := by
        unfold calloc at hblock
        split at hblock
        · assumption
        · cases hblock
      exact ⟨p, rfl, hfits, Function.update_self .., Function.update_self ..⟩

theorem addInt_one_eq_zero_iff {queueLen : Int} (hmin : INT_MIN ≤ queueLen)
    (hmax : queueLen ≤ INT_MAX) : addInt queueLen 1 = 0 ↔ queueLen = -1 := by
  unfold INT_MIN at hmin
  unfold INT_MAX at hmax
  have hle := Int.le_bmod (x := queueLen + 1) (m := 2 ^ 32) (by decide)
  have hlt := Int.bmod_lt (x := queueLen + 1) (m := 2 ^ 32) (by decide)
  have hdvd := Int.dvd_bmod_sub_self (x := queueLen + 1) (m := 2 ^ 32)
  unfold addInt toInt
  omega

/-- With no slots the first enqueue takes a remainder by zero. -/
theorem enSeqQueue_of_no_slots {m : SeqMemory} {l : Addr} {q : SeqQueue}
    (hq : m.queues l = some q) (hcnt : q.nodeCnt = 0) (data : Option Block) (dataSize : Nat) :
    enSeqQueue m (some l) data dataSize = none := by
  simp [enSeqQueue, hq, hcnt, modInt]

/-- For every length that `InitSeqQueue` makes a queue of, all calls on the queue are
    safe exactly if the length is not `-1`. -/
theorem seq_arith_safe_iff {m m' : SeqMemory} {queueLen : Int} {dataSize : Nat}
    {seqQueue queuePtr : Ptr} {l : Addr} (hmin : INT_MIN ≤ queueLen) (hmax : queueLen ≤ INT_MAX)
    (hinit : initSeqQueue m queueLen dataSize seqQueue queuePtr = some (m', some l)) :
    (∀ calls s, exec (seqCallStep dataSize) (newSeq m' (some l)) calls = some s → ArithSafe s) ↔
      queueLen ≠ -1 := by
  obtain ⟨p, rfl, hfits, hq, hb⟩ := initSeqQueue_inv hinit
  rw [ne_eq, ← addInt_one_eq_zero_iff hmin hmax]
  constructor
  · intro hsafe hzero
    have hen := enSeqQueue_of_no_slots hq hzero (some (zeroed dataSize)) dataSize
    have hbad := hsafe [.en (zeroed dataSize) dataSize] { newSeq m' (some l) with fault := true }
      (by simp [exec, seqCallStep, newSeq, hen])
    exact Bool.noConfusion hbad.1
  · intro hne calls s hrun
    obtain ⟨hcntmin, hcntmax⟩ := addInt_mem queueLen 1
    have harith : SeqArith m' (some l) dataSize (addInt queueLen 1) :=
      ⟨hne, hcntmin, hcntmax, hfits, l, p, _, 0, 0, rfl, hq, isPosition_zero hne,
        isPosition_zero hne, hb, length_zeroed⟩
    have hnew : SeqArithInv dataSize (addInt queueLen 1) (newSeq m' (some l)) := ⟨rfl, harith⟩
    obtain ⟨hsound, hend⟩ := exec_invariant seqArithInv_step hnew hrun
    exact ⟨hsound, hend.slotsInside⟩

/-- The length `INT_MAX`: its `INT_MIN` slots have no bytes, and the calls are safe. -/
theorem seq_arith_safe_max : ∃ m' s,
    initSeqQueue SeqMemory.empty INT_MAX 0 (some 1) (some 2) = some (m', some 1) ∧
      exec (seqCallStep 0) (newSeq m' (some 1)) [.en [] 0, .de [] 0] = some s ∧ ArithSafe s := by
  obtain ⟨m', hinit, s, hrun⟩ : ∃ m',
      initSeqQueue SeqMemory.empty INT_MAX 0 (some 1) (some 2) = some (m', some 1) ∧
        ∃ s, exec (seqCallStep 0) (newSeq m' (some 1)) [.en [] 0, .de [] 0] = some s :=
    ⟨_, rfl, _, rfl⟩
  refine ⟨m', s, hinit, hrun, ?_⟩
  exact (seq_arith_safe_iff (by decide) (by decide) hinit).mpr (by decide) _ s hrun

/-- The length `-1`: a block of no bytes is there, and the first enqueue divides by zero. -/
theorem seq_arith_no_slots : ∃ m' s,
    initSeqQueue SeqMemory.empty (-1) 1 (some 1) (some 2) = some (m', some 1) ∧
      exec (seqCallStep 1) (newSeq m' (some 1)) [.en [some 7] 1] = some s ∧ s.fault = true ∧
      ¬ ArithSafe s := by
  refine ⟨_, _, rfl, rfl, rfl, ?_⟩
  intro hsafe
  exact absurd hsafe.1 (by decide)

end SocketPractice.LibQueue
