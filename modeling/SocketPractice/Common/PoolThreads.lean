import Mathlib.Algebra.Ring.Int.Defs
import Mathlib.Algebra.Ring.Nat
import Mathlib.Data.List.Perm.Basic
import Mathlib.Tactic.Common

/-!
# The threads of a pool (`thread_pool.c` of `socket` and `socket_udp`)

Both pools create their workers in a loop that hands `pthread_create` the entry of an
array at the loop's index, and count the calls that succeed.  Both cancel the workers by
taking the first entries of the array, as many as were counted.  The two programs differ
in the bound of the first loop and in what else ends it, which are parameters here.

The index is a signed integer that is compared as an unsigned one.  From the value
2 ^ 31 on it is negative as an index, and the entry is not one of the array.
-/

namespace SocketPractice.Common

/-! ## 1. The two loops -/

/-- `pthread_t`. -/
abbrev Tid := UInt64

/-- What one call of `pthread_create` did.  One that fails leaves the entry undefined,
    and may or may not have written to it. -/
inductive CreateRet where
  | created (tid : Tid)
  | error (stored : Bool)
deriving DecidableEq, Repr

/-- The worker that a call created. -/
def CreateRet.tid : CreateRet → Option Tid
  | .created tid => some tid
  | .error _ => none

/-- Whether a call wrote to the entry. -/
def CreateRet.stores : CreateRet → Bool
  | .created _ => true
  | .error stored => stored

/-- The array and the counter of a pool, and next to them what happened: the workers
    created so far and the indices written to.  An entry is `none` while it holds no
    worker's identifier. -/
structure PoolThreads where
  tids : List (Option Tid)
  cnt : UInt32
  created : List Tid
  writes : List Int
deriving DecidableEq, Repr

def PoolThreads.init (size : UInt32) : PoolThreads :=
  ⟨List.replicate size.toNat none, 0, [], []⟩

/-- The entry at an index, `none` when it lies outside the array. -/
def entryAt (tids : List (Option Tid)) (i : Int) : Option Tid :=
  if 0 ≤ i then (tids[i.toNat]?).join else none

def setEntry (tids : List (Option Tid)) (i : Int) (tid : Option Tid) : List (Option Tid) :=
  if 0 ≤ i then tids.set i.toNat tid else tids

/-- One call of `pthread_create` with the entry at `i`, and the counter after it. -/
def pthreadCreate (p : PoolThreads) (i : Int) : CreateRet → PoolThreads
  | .created tid =>
      { tids := setEntry p.tids i (some tid), cnt := p.cnt + 1
        created := p.created ++ [tid], writes := p.writes ++ [i] }
  | .error true => { p with tids := setEntry p.tids i none, writes := p.writes ++ [i] }
  | .error false => p

theorem tid_of_not_stores {r : CreateRet} (h : ¬ r.stores = true) : r.tid = none := by
  cases r with
  | created tid => exact absurd rfl h
  | error stored => rfl

@[simp] theorem pthreadCreate_cnt (p : PoolThreads) (i : Int) (r : CreateRet) :
    (pthreadCreate p i r).cnt = if r.tid.isSome then p.cnt + 1 else p.cnt := by
  rcases r with _ | (_ | _) <;> rfl

@[simp] theorem pthreadCreate_created (p : PoolThreads) (i : Int) (r : CreateRet) :
    (pthreadCreate p i r).created = p.created ++ r.tid.toList := by
  rcases r with _ | (_ | _)
  · rfl
  · exact (List.append_nil _).symm
  · exact (List.append_nil _).symm

@[simp] theorem pthreadCreate_writes (p : PoolThreads) (i : Int) (r : CreateRet) :
    (pthreadCreate p i r).writes = p.writes ++ if r.stores then [i] else [] := by
  rcases r with _ | (_ | _)
  · rfl
  · exact (List.append_nil _).symm
  · rfl

@[simp] theorem pthreadCreate_tids (p : PoolThreads) (i : Int) (r : CreateRet) :
    (pthreadCreate p i r).tids = if r.stores then setEntry p.tids i r.tid else p.tids := by
  rcases r with _ | (_ | _) <;> rfl

/-- The creating loop: `i` runs while it is below `bound`, unless the counter makes the
    loop `break`; `ret k` is what the call of round `k` does. -/
def createLoop (bound : UInt32) (full : UInt32 → Bool) (ret : Nat → CreateRet) :
    Nat → Int32 → PoolThreads → PoolThreads
  | 0, _, p => p
  | fuel + 1, i, p =>
      if i.toUInt32 < bound then
        if full p.cnt then p
        else
          createLoop bound full ret fuel (i + 1)
            (pthreadCreate p i.toInt (ret i.toUInt32.toNat))
      else p

/-- The cancelling loop; the result is what it hands to `pthread_cancel`. -/
def cancelLoop (tids : List (Option Tid)) (cnt : UInt32) : Nat → Int32 → List (Option Tid)
  | 0, _ => []
  | fuel + 1, i =>
      if i.toUInt32 < cnt then entryAt tids i.toInt :: cancelLoop tids cnt fuel (i + 1) else []

/-! ## 2. The index -/

/-- The loop's index after `k` rounds, as `pthread_create` and `pthread_cancel` see it. -/
def indexAt (k : Nat) : Int := if k < 2 ^ 31 then k else (k : Int) - 2 ^ 32

theorem toInt_eq_indexAt {i : Int32} {k : Nat} (hi : i.toUInt32.toNat = k) :
    i.toInt = indexAt k := by
  subst hi
  have h := BitVec.toInt_eq_toNat_cond i.toBitVec
  unfold indexAt
  split
  · next hlt =>
    rw [if_pos (by change 2 * i.toUInt32.toNat < 2 ^ 32; omega)] at h
    exact h
  · next hge =>
    rw [if_neg (by change ¬ 2 * i.toUInt32.toNat < 2 ^ 32; omega)] at h
    exact h

theorem toNat_succ {i : Int32} {k : Nat} (hi : i.toUInt32.toNat = k) (hk : k + 1 < 2 ^ 32) :
    (i + 1).toUInt32.toNat = k + 1 := by
  have h : (i + 1).toUInt32 = i.toUInt32 + 1 := by
    apply UInt32.toBitVec_inj.mp
    rfl
  rw [h, UInt32.toNat_add, hi]
  exact Nat.mod_eq_of_lt hk

theorem indexAt_of_lt {k : Nat} (hk : k < 2 ^ 31) : indexAt k = k := if_pos hk

theorem indexAt_neg {k : Nat} (hk : ¬ k < 2 ^ 31) (hlt : k < 2 ^ 32) : indexAt k < 0 := by
  rw [indexAt, if_neg hk]
  omega

theorem entryAt_indexAt (tids : List (Option Tid)) {k : Nat} (hlt : k < 2 ^ 32) :
    entryAt tids (indexAt k) = if k < 2 ^ 31 then (tids[k]?).join else none := by
  split
  · next hk =>
    rw [indexAt_of_lt hk, entryAt, if_pos (Int.natCast_nonneg k)]
    rfl
  · next hk => rw [entryAt, if_neg (Int.not_le.mpr (indexAt_neg hk hlt))]

theorem join_getElem?_setEntry (tids : List (Option Tid)) {k : Nat} (hlt : k < 2 ^ 32)
    (tid : Option Tid) (j : Nat) :
    ((setEntry tids (indexAt k) tid)[j]?).join =
      if j = k ∧ k < 2 ^ 31 ∧ k < tids.length then tid else (tids[j]?).join := by
  by_cases hk : k < 2 ^ 31
  · rw [indexAt_of_lt hk, setEntry, if_pos (Int.natCast_nonneg k), Int.toNat_natCast]
    by_cases hj : j = k
    · subst hj
      by_cases hlen : j < tids.length
      · rw [if_pos ⟨rfl, hk, hlen⟩, List.getElem?_set_self hlen]
        rfl
      · rw [if_neg (fun h => hlen h.2.2), List.set_eq_of_length_le (Nat.not_lt.mp hlen)]
    · rw [if_neg (fun h => hj h.1), List.getElem?_set_ne (Ne.symm hj)]
  · rw [if_neg (fun h => hk h.2.1), setEntry,
      if_neg (Int.not_le.mpr (indexAt_neg hk hlt))]

theorem length_setEntry (tids : List (Option Tid)) (i : Int) (tid : Option Tid) :
    (setEntry tids i tid).length = tids.length := by
  unfold setEntry
  split
  · exact List.length_set
  · rfl

/-! ## 3. What the loops leave -/

/-- The calls among the first `n` that created a worker. -/
def createdBefore (ret : Nat → CreateRet) (n : Nat) : Nat :=
  (List.range n).countP fun k => (ret k).tid.isSome

theorem createdBefore_succ (ret : Nat → CreateRet) (n : Nat) :
    createdBefore ret (n + 1) = createdBefore ret n + if (ret n).tid.isSome then 1 else 0 := by
  rw [createdBefore, List.range_succ, List.countP_append, List.countP_singleton]
  rfl

theorem createdBefore_le (ret : Nat → CreateRet) (n : Nat) : createdBefore ret n ≤ n := by
  have h := List.countP_le_length (p := fun k => (ret k).tid.isSome) (l := List.range n)
  rwa [List.length_range] at h

theorem createdBefore_mono (ret : Nat → CreateRet) {m n : Nat} (h : m ≤ n) :
    createdBefore ret m ≤ createdBefore ret n := by
  induction h with
  | refl => exact Nat.le_refl _
  | step _ ih =>
      rw [createdBefore_succ]
      exact Nat.le_add_right_of_le ih

/-- The pool after the calls of the first `n` rounds. -/
structure AfterCalls (size : Nat) (ret : Nat → CreateRet) (n : Nat) (p : PoolThreads) : Prop where
  cnt : p.cnt.toNat = createdBefore ret n
  created : p.created = (List.range n).filterMap fun k => (ret k).tid
  writes : ∀ w, w ∈ p.writes ↔ ∃ k < n, (ret k).stores = true ∧ w = indexAt k
  length : p.tids.length = size
  tids : ∀ j, (p.tids[j]?).join =
    if j < n ∧ j < 2 ^ 31 ∧ j < size then (ret j).tid else none

theorem afterCalls_init (size : UInt32) (ret : Nat → CreateRet) :
    AfterCalls size.toNat ret 0 (PoolThreads.init size) where
  cnt := rfl
  created := rfl
  writes w := by simp [PoolThreads.init]
  length := List.length_replicate
  tids j := by
    rw [if_neg (fun h => Nat.not_lt_zero j h.1), PoolThreads.init, List.getElem?_replicate]
    split <;> rfl

theorem AfterCalls.length_created {size n : Nat} {ret : Nat → CreateRet} {p : PoolThreads}
    (h : AfterCalls size ret n p) : p.created.length = createdBefore ret n := by
  rw [h.created, List.length_filterMap_eq_countP]
  rfl

/-- One call of `pthread_create` takes the facts one round on. -/
theorem AfterCalls.call {size n : Nat} {ret : Nat → CreateRet} {p : PoolThreads}
    (h : AfterCalls size ret n p) (hn : n + 1 < 2 ^ 32) :
    AfterCalls size ret (n + 1) (pthreadCreate p (indexAt n) (ret n)) where
  cnt := by
    rw [pthreadCreate_cnt, createdBefore_succ]
    split
    · have hle := createdBefore_le ret n
      rw [UInt32.toNat_add, h.cnt]
      exact Nat.mod_eq_of_lt (Nat.lt_of_le_of_lt (Nat.succ_le_succ hle) hn)
    · exact h.cnt
  created := by
    rw [pthreadCreate_created, h.created, List.range_succ, List.filterMap_append]
    cases htid : (ret n).tid with
    | none => rw [List.filterMap_cons_none (by exact htid)]; rfl
    | some tid => rw [List.filterMap_cons_some (by exact htid)]; rfl
  writes w := by
    rw [pthreadCreate_writes, List.mem_append, h.writes]
    constructor
    · rintro (⟨k, hk, hstores, rfl⟩ | hw)
      · exact ⟨k, Nat.lt_succ_of_lt hk, hstores, rfl⟩
      · split at hw
        · next hstores => exact ⟨n, Nat.lt_succ_self n, hstores, List.mem_singleton.mp hw⟩
        · cases hw
    · rintro ⟨k, hk, hstores, rfl⟩
      rcases Nat.lt_or_eq_of_le (Nat.le_of_lt_succ hk) with hk' | rfl
      · exact Or.inl ⟨k, hk', hstores, rfl⟩
      · right
        rw [if_pos hstores]
        exact List.mem_singleton_self _
  length := by
    rw [pthreadCreate_tids]
    split
    · rw [length_setEntry, h.length]
    · exact h.length
  tids j := by
    rcases Decidable.em (j = n) with rfl | hj
    · have hold : (p.tids[j]?).join = none := by rw [h.tids, if_neg (fun h => Nat.lt_irrefl j h.1)]
      have hset : ((pthreadCreate p (indexAt j) (ret j)).tids[j]?).join =
          if j < 2 ^ 31 ∧ j < size then (ret j).tid else none := by
        rw [pthreadCreate_tids]
        split
        · rw [join_getElem?_setEntry _ (by omega), h.length, hold]
          split
          · next hin => rw [if_pos hin.2]
          · next hout => rw [if_neg fun hin => hout ⟨rfl, hin⟩]
        · next hstores => rw [hold, tid_of_not_stores hstores, ite_self]
      rw [hset]
      exact if_congr ⟨fun h => ⟨Nat.lt_succ_self j, h⟩, fun h => h.2⟩ rfl rfl
    · have hset : ((pthreadCreate p (indexAt n) (ret n)).tids[j]?).join = (p.tids[j]?).join := by
        rw [pthreadCreate_tids]
        split
        · rw [join_getElem?_setEntry _ (by omega), if_neg fun h => hj h.1]
        · rfl
      rw [hset, h.tids]
      refine if_congr (and_congr_left' ?_) rfl rfl
      omega

/-- The creating loop makes the calls of some number of rounds, and ends because its
    bound is reached or the counter makes it break; fuel for all rounds is enough. -/
theorem afterCalls_createLoop {size : Nat} {bound : UInt32} {full : UInt32 → Bool}
    {ret : Nat → CreateRet} (fuel : Nat) :
    ∀ {k : Nat} {i : Int32} {p : PoolThreads}, i.toUInt32.toNat = k → k ≤ bound.toNat →
      bound.toNat ≤ fuel + k → AfterCalls size ret k p →
      (∀ j < k, full (UInt32.ofNat (createdBefore ret j)) = false) →
      ∃ n, AfterCalls size ret n (createLoop bound full ret fuel i p) ∧ n ≤ bound.toNat ∧
        (∀ j < n, full (UInt32.ofNat (createdBefore ret j)) = false) ∧
        (n < bound.toNat → full (UInt32.ofNat (createdBefore ret n)) = true) := by
  induction fuel with
  | zero =>
      intro k i p hi hk hfuel hp hfull
      exact ⟨k, hp, hk, hfull, fun hlt => absurd hlt (by omega)⟩
  | succ fuel ih =>
      intro k i p hi hk hfuel hp hfull
      have hcnt : UInt32.ofNat (createdBefore ret k) = p.cnt := by
        rw [← hp.cnt]
        exact UInt32.ofNat_toNat
      by_cases hlt : k < bound.toNat
      · have hi' : i.toUInt32 < bound := UInt32.lt_iff_toNat_lt.mpr (hi ▸ hlt)
        rw [createLoop, if_pos hi']
        cases hbreak : full p.cnt with
        | true =>
            rw [if_pos rfl]
            exact ⟨k, hp, hk, hfull, fun _ => by rw [hcnt, hbreak]⟩
        | false =>
            have hbound := bound.toNat_lt
            rw [if_neg Bool.false_ne_true, toInt_eq_indexAt hi, hi]
            refine ih (toNat_succ hi (by omega)) hlt (by omega) (hp.call (by omega)) ?_
            intro j hj
            rcases Nat.lt_or_eq_of_le (Nat.le_of_lt_succ hj) with hj' | rfl
            · exact hfull j hj'
            · rw [hcnt, hbreak]
      · have hi' : ¬ i.toUInt32 < bound := fun h => hlt (hi ▸ UInt32.lt_iff_toNat_lt.mp h)
        rw [createLoop, if_neg hi']
        exact ⟨k, hp, hk, hfull, fun h => absurd h hlt⟩

/-- The loop of a new pool. -/
theorem exists_afterCalls (size bound : UInt32) (full : UInt32 → Bool) (ret : Nat → CreateRet) :
    ∃ n, AfterCalls size.toNat ret n
        (createLoop bound full ret bound.toNat 0 (PoolThreads.init size)) ∧
      n ≤ bound.toNat ∧ (∀ j < n, full (UInt32.ofNat (createdBefore ret j)) = false) ∧
      (n < bound.toNat → full (UInt32.ofNat (createdBefore ret n)) = true) :=
  afterCalls_createLoop bound.toNat rfl (Nat.zero_le _) (Nat.le_refl _)
    (afterCalls_init size ret) fun j hj => absurd hj (Nat.not_lt_zero j)

/-- The cancelling loop takes the first entries of the array, as many as were counted. -/
theorem cancelLoop_eq_map {tids : List (Option Tid)} {cnt : UInt32}
    (hbound : ∀ j, ¬ j < 2 ^ 31 → (tids[j]?).join = none) (fuel : Nat) :
    ∀ {k : Nat} {i : Int32}, i.toUInt32.toNat = k → cnt.toNat ≤ fuel + k → k ≤ cnt.toNat →
      cancelLoop tids cnt fuel i =
        (List.range' k (cnt.toNat - k)).map fun j => (tids[j]?).join := by
  induction fuel with
  | zero =>
      intro k i hi hfuel hk
      have h0 : cnt.toNat - k = 0 := by omega
      rw [h0]
      rfl
  | succ fuel ih =>
      intro k i hi hfuel hk
      by_cases hlt : k < cnt.toNat
      · have hi' : i.toUInt32 < cnt := UInt32.lt_iff_toNat_lt.mpr (hi ▸ hlt)
        have hcnt := cnt.toNat_lt
        have hentry : entryAt tids (indexAt k) = (tids[k]?).join := by
          rw [entryAt_indexAt _ (by omega)]
          split
          · rfl
          · next hk' => rw [hbound k hk']
        have hsub : cnt.toNat - k = cnt.toNat - (k + 1) + 1 := by omega
        rw [cancelLoop, if_pos hi', toInt_eq_indexAt hi, hentry, hsub, List.range'_succ,
          List.map_cons, ih (toNat_succ hi (by omega)) (by omega) hlt]
      · have hi' : ¬ i.toUInt32 < cnt := fun h => hlt (hi ▸ UInt32.lt_iff_toNat_lt.mp h)
        have h0 : cnt.toNat - k = 0 := by omega
        rw [cancelLoop, if_neg hi', h0]
        rfl

/-- The counted entries are inside the array. -/
theorem AfterCalls.take_eq {size n : Nat} {ret : Nat → CreateRet} {p : PoolThreads}
    (h : AfterCalls size ret n p) (hsize : createdBefore ret n ≤ size) :
    p.tids.take p.cnt.toNat = (List.range p.cnt.toNat).map fun j => (p.tids[j]?).join := by
  apply List.ext_getElem?
  intro j
  by_cases hj : j < p.cnt.toNat
  · have hlen : j < p.tids.length := by rw [h.length]; rw [h.cnt] at hj; omega
    rw [List.getElem?_take_of_lt hj, List.getElem?_map, List.getElem?_range hj,
      Option.map_some, List.getElem?_eq_getElem hlen]
    rfl
  · rw [List.getElem?_take_eq_none (Nat.not_lt.mp hj), List.getElem?_eq_none]
    rw [List.length_map, List.length_range]
    exact Nat.not_lt.mp hj

theorem AfterCalls.cancelLoop_eq {size n : Nat} {ret : Nat → CreateRet} {p : PoolThreads}
    (h : AfterCalls size ret n p) :
    cancelLoop p.tids p.cnt p.cnt.toNat 0 =
      (List.range p.cnt.toNat).map fun j => (p.tids[j]?).join := by
  rw [cancelLoop_eq_map ?_ p.cnt.toNat (i := 0) (k := 0) rfl (Nat.le_refl _) (Nat.zero_le _),
    Nat.sub_zero, List.range_eq_range']
  intro j hj
  rw [h.tids, if_neg fun hin => hj hin.2.1]

/-! ## 4. When the two loops match -/

/-- A worker is created only while no call has failed, and at an index that is one. -/
def NoneAfterFailure (ret : Nat → CreateRet) (n : Nat) : Prop :=
  ∀ k < n, (ret k).tid.isSome = true → k < 2 ^ 31 ∧ ∀ j < k, (ret j).tid.isSome = true

theorem createdBefore_eq_self {ret : Nat → CreateRet} {n : Nat}
    (h : ∀ j < n, (ret j).tid.isSome = true) : createdBefore ret n = n := by
  induction n with
  | zero => rfl
  | succ n ih =>
      rw [createdBefore_succ, ih fun j hj => h j (Nat.lt_succ_of_lt hj),
        if_pos (h n (Nat.lt_succ_self n))]

/-- Then the workers are those of the first calls. -/
theorem NoneAfterFailure.isSome_iff {ret : Nat → CreateRet} {n : Nat}
    (h : NoneAfterFailure ret n) {j : Nat} (hj : j < n) :
    (ret j).tid.isSome = true ↔ j < createdBefore ret n := by
  constructor
  · intro hsome
    have hself : createdBefore ret (j + 1) = j + 1 := by
      apply createdBefore_eq_self
      intro i hi
      rcases Nat.lt_or_eq_of_le (Nat.le_of_lt_succ hi) with hi' | rfl
      · exact (h j hj hsome).2 i hi'
      · exact hsome
    have hmono := createdBefore_mono ret hj
    rw [hself] at hmono
    exact hmono
  · intro hlt
    by_contra hnone
    -- no call after the one of round j created a worker
    have hstays : ∀ m, j ≤ m → m ≤ n → createdBefore ret m = createdBefore ret j := by
      intro m hjm
      induction hjm with
      | refl => exact fun _ => rfl
      | @step m hjm ih =>
          intro hm
          have hm' : ¬ (ret m).tid.isSome = true := by
            intro hsome
            rcases Nat.lt_or_eq_of_le hjm with hlt | rfl
            · exact hnone ((h m hm hsome).2 j hlt)
            · exact hnone hsome
          rw [createdBefore_succ, if_neg hm', Nat.add_zero]
          exact ih (Nat.le_of_succ_le hm)
    rw [hstays n (Nat.le_of_lt hj) (Nat.le_refl n)] at hlt
    exact absurd hlt (Nat.not_lt.mpr (createdBefore_le ret j))

/-- An array whose first entries all hold identifiers was filled without a failure in
    between. -/
theorem AfterCalls.noneAfterFailure {size n : Nat} {ret : Nat → CreateRet} {p : PoolThreads}
    (h : AfterCalls size ret n p)
    (hset : ∀ j < createdBefore ret n, (p.tids[j]?).join ≠ none) : NoneAfterFailure ret n := by
  intro k hk hsome
  have hgood : ∀ j ≤ k, j < 2 ^ 31 ∧ (ret j).tid.isSome = true := by
    intro j
    induction j using Nat.strongRecOn with
    | ind j ih =>
        intro hj
        have hself : createdBefore ret j = j := by
          apply createdBefore_eq_self
          exact fun i hi => (ih i hi (Nat.le_of_lt (Nat.lt_of_lt_of_le hi hj))).2
        have hlt : j < createdBefore ret n := by
          have hmono := createdBefore_mono ret hj
          have hnext := createdBefore_mono ret (Nat.succ_le_of_lt hk)
          rw [createdBefore_succ, if_pos hsome] at hnext
          omega
        have hentry := hset j hlt
        rw [h.tids] at hentry
        split at hentry
        · next hin => exact ⟨hin.2.1, Option.isSome_iff_ne_none.mpr hentry⟩
        · exact absurd rfl hentry
  exact ⟨(hgood k (Nat.le_refl k)).1, fun j hj => (hgood j (Nat.le_of_lt hj)).2⟩

theorem AfterCalls.entries_eq {size n : Nat} {ret : Nat → CreateRet} {p : PoolThreads}
    (h : AfterCalls size ret n p) (hsize : createdBefore ret n ≤ size)
    (hret : NoneAfterFailure ret n) :
    ((List.range (createdBefore ret n)).map fun j => (p.tids[j]?).join) =
      p.created.map some := by
  have hle := createdBefore_le ret n
  have hsplit : List.range n = List.range (createdBefore ret n) ++
      (List.range (n - createdBefore ret n)).map (createdBefore ret n + ·) := by
    rw [← List.range_add, Nat.add_sub_cancel' hle]
  have htail : ((List.range (n - createdBefore ret n)).map (createdBefore ret n + ·)).filterMap
      (fun k => (ret k).tid) = [] := by
    apply List.filterMap_eq_nil_iff.mpr
    intro k hk
    obtain ⟨d, hd, rfl⟩ := List.mem_map.mp hk
    have hd' := List.mem_range.mp hd
    have hnot := mt (hret.isSome_iff (j := createdBefore ret n + d) (by omega)).mp (by omega)
    exact Option.not_isSome_iff_eq_none.mp hnot
  rw [h.created, hsplit, List.filterMap_append, htail, List.append_nil, List.map_filterMap]
  rw [← List.filterMap_eq_map]
  apply List.filterMap_congr
  intro j hj
  have hj' := List.mem_range.mp hj
  have hsome := (hret.isSome_iff (Nat.lt_of_lt_of_le hj' hle)).mpr hj'
  have hjn := Nat.lt_of_lt_of_le hj' hle
  have hentry := h.tids j
  rw [if_pos ⟨hjn, (hret j hjn hsome).1, Nat.lt_of_lt_of_le hj' hsize⟩] at hentry
  obtain ⟨tid, htid⟩ := Option.isSome_iff_exists.mp hsome
  simp only [Function.comp_apply, hentry, htid, Option.map_some]

/-- The first entries of the array, as many as were counted, are the created workers,
    when none was created after a failure and only then. -/
theorem AfterCalls.entries_perm_iff {size n : Nat} {ret : Nat → CreateRet} {p : PoolThreads}
    (h : AfterCalls size ret n p) (hsize : createdBefore ret n ≤ size) :
    ((List.range p.cnt.toNat).map fun j => (p.tids[j]?).join).Perm (p.created.map some) ↔
      NoneAfterFailure ret n := by
  rw [h.cnt]
  constructor
  · intro hperm
    apply h.noneAfterFailure
    intro j hj hnone
    have hmem : none ∈ p.created.map some :=
      hperm.mem_iff.mp (List.mem_map.mpr ⟨j, List.mem_range.mpr hj, hnone⟩)
    obtain ⟨tid, -, htid⟩ := List.mem_map.mp hmem
    cases htid
  · intro hret
    rw [h.entries_eq hsize hret]

end SocketPractice.Common
