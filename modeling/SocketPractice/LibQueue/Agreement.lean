import SocketPractice.LibQueue.SeqQueue

/-!
# The two queues side by side

`LinkQueue` and `SeqQueue` offer the same calls, and a program may use either.
Here every call is made on one queue of each kind, with the same arguments, as
long as no more than `queueLen` elements are outstanding.  With the element size
of the queues they return the same codes and the same bytes.  A call with another
size is refused by `link_queue.c` only: `seq_queue.c` logs the difference and
goes on with the size of the queue.
-/

namespace SocketPractice.LibQueue

open Lib.CInt Lib.Memory Lib.Raw Lib.Fifo Lib.Runs Lib.Ring

/-! ## 1. The system -/

structure BothState where
  link : LinkMemory
  linkQueue : Ptr
  seq : SeqMemory
  seqQueue : Ptr
  /-- What the calls put in and took out, as `link_queue.c` reports it. -/
  history : History Block

/-- A call on both queues, with what `malloc` returns in it. -/
inductive BothEvent where
  | en (data : Block) (dataSize : Nat) (linkNode newData : Addr)
  | de (data : Block) (dataSize : Nat)

/-- The calls on queues with elements of `n` bytes, with a data argument of at least
    the size that the caller gives.  A full queue gets no further element. -/
def bothStep (n queueLen : Nat) (s : BothState) : BothEvent → Option BothState
  | .en data dataSize linkNode newData =>
      if dataSize ≤ data.length ∧ s.link.nodes linkNode = none ∧ s.link.blocks newData = none ∧
          (dataSize = n → s.history.outstanding.length < queueLen) then
        let link := enLinkQueue s.link s.linkQueue (some data) dataSize (some linkNode)
          (some newData)
        let seq := enSeqQueue s.seq s.seqQueue (some data) dataSize
        some { s with
          link := (link.map Prod.fst).getD s.link
          seq := (seq.map Prod.fst).getD s.seq
          history := if link.map Prod.snd = some .QUEUE_SUCCESS then
            s.history.enter (data.take dataSize) else s.history }
      else none
  | .de data dataSize =>
      if dataSize ≤ data.length then
        let link := deLinkQueue s.link s.linkQueue (some data) dataSize
        let seq := deSeqQueue s.seq s.seqQueue (some data) dataSize
        some { s with
          link := (link.map Prod.fst).getD s.link
          seq := (seq.map Prod.fst).getD s.seq
          history := if link.map (fun r => r.2.1) = some .QUEUE_SUCCESS then
            s.history.leave else s.history }
      else none

/-- Both calls return, with the same code and the same bytes in the caller's buffer;
    with a size that is not the queues' both refuse and change nothing. -/
def Agree (n : Nat) (s : BothState) : BothEvent → Prop
  | .en data dataSize linkNode newData => ∃ link seq ret,
      enLinkQueue s.link s.linkQueue (some data) dataSize (some linkNode) (some newData) =
        some (link, ret) ∧
      enSeqQueue s.seq s.seqQueue (some data) dataSize = some (seq, ret) ∧
      (dataSize ≠ n → ret = .RET_ERROR ∧ link = s.link ∧ seq = s.seq)
  | .de data dataSize => ∃ link seq ret out,
      deLinkQueue s.link s.linkQueue (some data) dataSize = some (link, ret, out) ∧
      deSeqQueue s.seq s.seqQueue (some data) dataSize = some (seq, ret, out) ∧
      (dataSize ≠ n → ret = .RET_ERROR ∧ link = s.link ∧ seq = s.seq ∧ out = some data)

/-- The call gives the element size of the queues. -/
def OwnSize (n : Nat) (_ : BothState) : BothEvent → Prop
  | .en _ dataSize _ _ => dataSize = n
  | .de _ dataSize => dataSize = n

instance (n : Nat) (s : BothState) (e : BothEvent) : Decidable (OwnSize n s e) := by
  cases e <;> exact inferInstanceAs (Decidable (_ = n))

/-! ## 2. Calls with another size -/

/-- `EnSeqQueue` has no way to refuse a size. -/
theorem enSeqQueue_ne_error {m m' : SeqMemory} {seqQueue : Ptr} {data : Option Block} {n : Nat}
    {ret : QueueRetValue} (h : enSeqQueue m seqQueue data n = some (m', ret)) :
    ret ≠ .RET_ERROR := by
  simp only [enSeqQueue, Option.bind_eq_bind, Option.bind_eq_some_iff] at h
  obtain ⟨q, -, r, -, h⟩ := h
  split at h
  · rintro rfl
    simp at h
  · simp only [Option.bind_eq_some_iff] at h
    rintro rfl
    simp at h

theorem deSeqQueue_ne_error {m m' : SeqMemory} {seqQueue : Ptr} {data out : Option Block}
    {n : Nat} {ret : QueueRetValue} (h : deSeqQueue m seqQueue data n = some (m', ret, out)) :
    ret ≠ .RET_ERROR := by
  simp only [deSeqQueue, Option.bind_eq_bind, Option.bind_eq_some_iff] at h
  obtain ⟨q, -, h⟩ := h
  split at h
  · rintro rfl
    simp at h
  · simp only [Option.bind_eq_some_iff] at h
    rintro rfl
    simp at h

/-! ## 3. The simulation -/

/-- Both queues hold what is outstanding. -/
structure BothInv (n queueLen : Nat) (s : BothState) : Prop where
  link : ∃ l, s.linkQueue = some l ∧ Represents s.link (some l) n s.history.outstanding
  seq : ∃ front, SeqRing s.seq s.seqQueue n (queueLen + 1) front s.history.outstanding

/-- A call with the size of the queues agrees and keeps the queues equal. -/
theorem bothStep_own {n queueLen : Nat} (s : BothState) (e : BothEvent) (t : BothState)
    (hs : BothInv n queueLen s) (hown : OwnSize n s e) (hstep : bothStep n queueLen s e = some t) :
    Agree n s e ∧ BothInv n queueLen t := by
  obtain ⟨⟨l, hl, hlink⟩, front, hseq⟩ := hs
  cases e with
  | en data dataSize linkNode newData =>
      obtain rfl : dataSize = n := hown
      simp only [bothStep, Option.ite_none_right_eq_some, Option.some.injEq] at hstep
      obtain ⟨⟨hdata, hnode, hblk, hroom⟩, rfl⟩ := hstep
      obtain ⟨link, hen, hlink'⟩ := hlink.enLinkQueue hdata hnode hblk
      have hfree : s.history.outstanding.length + 1 < queueLen + 1 :=
        Nat.succ_lt_succ (hroom trivial)
      obtain ⟨seq, hen', -, hseq'⟩ := hseq.enSeqQueue hfree hdata dataSize
      rw [← hl] at hen
      constructor
      · exact ⟨link, seq, .QUEUE_SUCCESS, hen, hen', fun hne => absurd rfl hne⟩
      · exact ⟨⟨l, hl, by simpa [hen] using hlink'⟩, front, by simpa [hen, hen'] using hseq'⟩
  | de data dataSize =>
      obtain rfl : dataSize = n := hown
      simp only [bothStep, Option.ite_none_right_eq_some, Option.some.injEq] at hstep
      obtain ⟨hdata, rfl⟩ := hstep
      rcases hout : s.history.outstanding with _ | ⟨item, rest⟩
      · rw [hout] at hlink hseq
        have hde := hlink.deLinkQueue_nil (some data)
        have hde' := hseq.deSeqQueue_nil (some data) dataSize
        rw [← hl] at hde
        constructor
        · exact ⟨s.link, s.seq, .QUEUE_EMPTY, some data, hde, hde', fun hne => absurd rfl hne⟩
        · exact ⟨⟨l, hl, by simpa [hde, hout] using hlink⟩, front,
            by simpa [hde, hde', hout] using hseq⟩
      · rw [hout] at hlink hseq
        obtain ⟨link, hde, hlink'⟩ := hlink.deLinkQueue_cons hdata
        obtain ⟨seq, hde', hseq'⟩ := hseq.deSeqQueue_cons hdata dataSize
        rw [← hl] at hde
        constructor
        · exact ⟨link, seq, .QUEUE_SUCCESS, some (item ++ data.drop dataSize), hde, hde',
            fun hne => absurd rfl hne⟩
        · exact ⟨⟨l, hl, by simpa [hde, hout] using hlink'⟩, slot (queueLen + 1) front 1,
            by simpa [hde, hde', hout] using hseq'⟩

/-- Of two queues that are equal, only one refuses another size. -/
theorem not_agree_of_other {n queueLen : Nat} {s : BothState} {e : BothEvent}
    (hs : BothInv n queueLen s) (hother : ¬ OwnSize n s e) : ¬ Agree n s e := by
  obtain ⟨⟨l, hl, hlink⟩, -⟩ := hs
  rw [← hl] at hlink
  cases e with
  | en data dataSize linkNode newData =>
      rintro ⟨link, seq, ret, hen, hen', -⟩
      rw [enLinkQueue_other hlink hother] at hen
      obtain ⟨-, rfl⟩ : s.link = link ∧ .RET_ERROR = ret := by simpa using hen
      exact enSeqQueue_ne_error hen' rfl
  | de data dataSize =>
      rintro ⟨link, seq, ret, out, hde, hde', -⟩
      rw [deLinkQueue_other hlink hother] at hde
      obtain ⟨-, rfl, -⟩ : s.link = link ∧ .RET_ERROR = ret ∧ some data = out := by
        simpa using hde
      exact deSeqQueue_ne_error hde' rfl

/-! ## 4. Runs -/

/-- Two new queues for elements of one size. -/
def newBoth (link : LinkMemory) (linkQueue : Ptr) (seq : SeqMemory) (seqQueue : Ptr) : BothState :=
  ⟨link, linkQueue, seq, seqQueue, History.empty⟩

/-- In a run the two queues agree on every call if and only if every call gives their
    element size. -/
theorem queues_agree_iff_own_size {m₀ m : LinkMemory} {s₀ s₁ : SeqMemory} {n : Nat}
    {queueLen : Int} {linkNode linkQueue seqQueue queuePtr : Ptr} {l r : Addr}
    (hpos : 0 ≤ queueLen) (hint : queueLen ≤ INT_MAX)
    (hlink : initLinkQueue m₀ n linkNode linkQueue = some (m, some l))
    (hseq : initSeqQueue s₀ queueLen n seqQueue queuePtr = some (s₁, some r))
    (evs : List BothEvent) (s : BothState)
    (hrun : exec (bothStep n queueLen.toNat) (newBoth m (some l) s₁ (some r)) evs = some s) :
    Along (bothStep n queueLen.toNat) (Agree n) (newBoth m (some l) s₁ (some r)) evs ↔
      Along (bothStep n queueLen.toNat) (OwnSize n) (newBoth m (some l) s₁ (some r)) evs := by
  apply along_iff_along (J := BothInv n queueLen.toNat) _ _ _ hrun
  · intro s e t hs hown hstep
    exact (bothStep_own s e t hs hown hstep).2
  · intro s e t hs hstep
    constructor
    · intro hagree
      by_contra hother
      exact not_agree_of_other hs hother hagree
    · intro hown
      exact (bothStep_own s e t hs hown hstep).1
  · have hsize : n ≠ 0 := by
      rintro rfl
      simp [initLinkQueue] at hlink
    have hmax := initSeqQueue_lt_max hint hsize hseq
    exact ⟨⟨l, rfl, initLinkQueue_empty hlink⟩, 0, initSeqQueue_ring hpos hmax hseq⟩

/-- One element of two bytes in and out. -/
def ownSize : List BothEvent := [.en [some 1, some 2] 2 3 4, .de [none, none] 2]

theorem queues_agree_ownSize : ∃ m s₁ s,
    initLinkQueue LinkMemory.empty 2 (some 1) (some 2) = some (m, some 2) ∧
      initSeqQueue SeqMemory.empty 1 2 (some 1) (some 2) = some (s₁, some 1) ∧
      exec (bothStep 2 1) (newBoth m (some 2) s₁ (some 1)) ownSize = some s ∧
      Along (bothStep 2 1) (Agree 2) (newBoth m (some 2) s₁ (some 1)) ownSize := by
  obtain ⟨m, hlink, s₁, hseq, s, hrun⟩ : ∃ m,
      initLinkQueue LinkMemory.empty 2 (some 1) (some 2) = some (m, some 2) ∧ ∃ s₁,
        initSeqQueue SeqMemory.empty 1 2 (some 1) (some 2) = some (s₁, some 1) ∧ ∃ s,
          exec (bothStep 2 1) (newBoth m (some 2) s₁ (some 1)) ownSize = some s :=
    ⟨_, rfl, _, rfl, _, rfl⟩
  refine ⟨m, s₁, s, hlink, hseq, hrun, ?_⟩
  apply (queues_agree_iff_own_size (by decide) (by decide) hlink hseq ownSize s hrun).mpr
  exact ⟨rfl, fun t _ => ⟨rfl, fun _ _ => trivial⟩⟩

/-- An element of two bytes is dequeued into a buffer of one byte, with its size. -/
def shorterBuffer : List BothEvent := [.en [some 1, some 2] 2 3 4, .de [none] 1]

/-- `DeLinkQueue` refuses; `DeSeqQueue` writes two bytes into the buffer of one. -/
theorem queues_disagree_shorterBuffer : ∃ m s₁ s,
    initLinkQueue LinkMemory.empty 2 (some 1) (some 2) = some (m, some 2) ∧
      initSeqQueue SeqMemory.empty 1 2 (some 1) (some 2) = some (s₁, some 1) ∧
      exec (bothStep 2 1) (newBoth m (some 2) s₁ (some 1)) shorterBuffer = some s ∧
      ¬ Along (bothStep 2 1) (Agree 2) (newBoth m (some 2) s₁ (some 1)) shorterBuffer := by
  refine ⟨_, _, _, rfl, rfl, rfl, ?_⟩
  intro h
  obtain ⟨link, seq, ret, out, -, hde, -⟩ := (h.2 _ rfl).1
  exact Option.some_ne_none _ (hde.symm.trans rfl)

end SocketPractice.LibQueue
