import SocketPractice.Common.PoolThreads

/-!
# Creating and destroying the `socket_udp` pool (`thread_pool.c`)

`CreateThreadPool` sizes the array by `initThreadsCnt`, runs its loop up to
`maxThreadsCnt` and leaves it as soon as enough workers exist.  A call of
`pthread_create` that fails takes the index one on and the counter not, so that the
calls after it write behind the entries that `DestoryThreadPool` goes through, and in the
end behind the array.
-/

namespace SocketPractice.SocketUdp

open Common

/-! ## 1. The code -/

/-- The two tests of the loop that end it with `break`. -/
def enoughThreads (initThreadsCnt maxThreadsCnt curThreadsCnt : UInt32) : Bool :=
  curThreadsCnt ≥ maxThreadsCnt || curThreadsCnt ≥ initThreadsCnt

/-- `CreateThreadPool`; the entries of `calloc` name no worker. -/
def createThreadPool (initThreadsCnt maxThreadsCnt : UInt32) (ret : Nat → CreateRet) :
    PoolThreads :=
  createLoop maxThreadsCnt (enoughThreads initThreadsCnt maxThreadsCnt) ret
    maxThreadsCnt.toNat 0 (PoolThreads.init initThreadsCnt)

/-- `DestoryThreadPool`, as far as the workers are concerned. -/
def destoryThreadPool (pool : PoolThreads) : List (Option Tid) :=
  cancelLoop pool.tids pool.cnt pool.cnt.toNat 0

def createServerThreadPool (ret : Nat → CreateRet) : PoolThreads := createThreadPool 5 10 ret

/-! ## 2. Which calls are made -/

/-- The call of round `k` is made: the loop gets that far and workers are missing. -/
def CallMade (initThreadsCnt maxThreadsCnt : UInt32) (ret : Nat → CreateRet) (k : Nat) : Prop :=
  k < maxThreadsCnt.toNat ∧ createdBefore ret k < initThreadsCnt.toNat

/-- What the loop leaves, and that it made these calls. -/
theorem createThreadPool_spec (initThreadsCnt maxThreadsCnt : UInt32) (ret : Nat → CreateRet) :
    ∃ n, AfterCalls initThreadsCnt.toNat ret n
        (createThreadPool initThreadsCnt maxThreadsCnt ret) ∧
      (∀ k, k < n ↔ CallMade initThreadsCnt maxThreadsCnt ret k) ∧
      createdBefore ret n ≤ initThreadsCnt.toNat ∧ n ≤ maxThreadsCnt.toNat := by
  obtain ⟨n, hn, hle, hgoes, hends⟩ :=
    exists_afterCalls initThreadsCnt maxThreadsCnt (enoughThreads initThreadsCnt maxThreadsCnt) ret
  have hmax := maxThreadsCnt.toNat_lt
  have hcnt : ∀ k ≤ n, (UInt32.ofNat (createdBefore ret k)).toNat = createdBefore ret k := by
    intro k hk
    have hcb := createdBefore_le ret k
    exact UInt32.toNat_ofNat_of_lt' (show _ < 2 ^ 32 by omega)
  have hgoes' : ∀ k < n, createdBefore ret k < initThreadsCnt.toNat := by
    intro k hk
    have h := (Bool.or_eq_false_iff.mp (hgoes k hk)).2
    have hlt := UInt32.lt_iff_toNat_lt.mp (UInt32.not_le.mp (of_decide_eq_false h))
    rwa [hcnt k (Nat.le_of_lt hk)] at hlt
  refine ⟨n, hn, fun k => ⟨fun hk => ⟨Nat.lt_of_lt_of_le hk hle, hgoes' k hk⟩, ?_⟩, ?_, hle⟩
  · rintro ⟨hkmax, hkinit⟩
    by_contra hk
    have hnmax : n < maxThreadsCnt.toNat := by omega
    have hmono := createdBefore_mono ret (Nat.not_lt.mp hk)
    have hcb := createdBefore_le ret n
    rcases Bool.or_eq_true_iff.mp (hends hnmax) with h | h
    · have hge := UInt32.le_iff_toNat_le.mp (of_decide_eq_true h)
      rw [hcnt n (Nat.le_refl n)] at hge
      omega
    · have hge := UInt32.le_iff_toNat_le.mp (of_decide_eq_true h)
      rw [hcnt n (Nat.le_refl n)] at hge
      omega
  · cases n with
    | zero => exact Nat.zero_le _
    | succ n =>
        have hlast := hgoes' n (Nat.lt_succ_self n)
        rw [createdBefore_succ]
        split <;> omega

/-! ## 3. When creation and destruction match -/

/-- The writes of the creation stay in the array, it makes no more workers than it should,
    the counted entries are the workers, and they are what the destruction cancels. -/
def CreationMatches (initThreadsCnt maxThreadsCnt : UInt32) (pool : PoolThreads) : Prop :=
  (∀ w ∈ pool.writes, 0 ≤ w ∧ w < initThreadsCnt.toNat) ∧
    pool.created.length ≤ min initThreadsCnt.toNat maxThreadsCnt.toNat ∧
    (pool.tids.take pool.cnt.toNat).Perm (pool.created.map some) ∧
    (destoryThreadPool pool).Perm (pool.created.map some)

/-- A call that is made creates a worker only if none failed before it, and one that fails
    and writes does so inside the array. -/
def CallFits (initThreadsCnt : UInt32) (ret : Nat → CreateRet) (k : Nat) : Prop :=
  match ret k with
  | .created _ => k < 2 ^ 31 ∧ ∀ j < k, (ret j).tid.isSome = true
  | .error stored => stored = true → k < 2 ^ 31 ∧ k < initThreadsCnt.toNat

/-- For all counts and all results of `pthread_create`: creation and destruction match when
    each call that is made fits, and only then. -/
theorem creationMatches_iff (initThreadsCnt maxThreadsCnt : UInt32) (ret : Nat → CreateRet) :
    CreationMatches initThreadsCnt maxThreadsCnt
        (createThreadPool initThreadsCnt maxThreadsCnt ret) ↔
      ∀ k, CallMade initThreadsCnt maxThreadsCnt ret k → CallFits initThreadsCnt ret k := by
  obtain ⟨n, hn, hmade, hsize, hle⟩ := createThreadPool_spec initThreadsCnt maxThreadsCnt ret
  have hmax := maxThreadsCnt.toNat_lt
  have hlen : (createThreadPool initThreadsCnt maxThreadsCnt ret).created.length ≤
      min initThreadsCnt.toNat maxThreadsCnt.toNat := by
    have hcb := createdBefore_le ret n
    rw [hn.length_created]
    exact Nat.le_min.mpr ⟨hsize, Nat.le_trans hcb hle⟩
  unfold CreationMatches destoryThreadPool
  rw [hn.take_eq hsize, hn.cancelLoop_eq, hn.entries_perm_iff hsize]
  simp only [← hmade]
  constructor
  · rintro ⟨hwrites, -, hnone, -⟩ k hk
    unfold CallFits
    cases hret : ret k with
    | created tid => exact hnone k hk (by rw [hret]; rfl)
    | error stored =>
        intro hstored
        have hw := hwrites _ ((hn.writes _).mpr ⟨k, hk, by rw [hret]; exact hstored, rfl⟩)
        by_cases hk31 : k < 2 ^ 31
        · rw [indexAt_of_lt hk31] at hw
          exact ⟨hk31, Int.ofNat_lt.mp hw.2⟩
        · have hneg := indexAt_neg hk31 (by omega)
          omega
  · intro hfits
    have hnone : NoneAfterFailure ret n := by
      intro k hk hsome
      have hfit := hfits k hk
      unfold CallFits at hfit
      cases hret : ret k with
      | created tid => rwa [hret] at hfit
      | error stored =>
          rw [hret] at hsome
          cases hsome
    refine ⟨?_, hlen, hnone, hnone⟩
    intro w hw
    obtain ⟨k, hk, hstores, rfl⟩ := (hn.writes w).mp hw
    have hin : k < 2 ^ 31 ∧ k < initThreadsCnt.toNat := by
      have hfit := hfits k hk
      unfold CallFits at hfit
      cases hret : ret k with
      | created tid =>
          rw [hret] at hfit
          exact ⟨hfit.1, by
            have hself := createdBefore_eq_self hfit.2
            have hlt := ((hmade k).mp hk).2
            omega⟩
      | error stored =>
          rw [hret] at hfit hstores
          exact hfit hstores
    rw [indexAt_of_lt hin.1]
    exact ⟨Int.natCast_nonneg k, Int.ofNat_lt.mpr hin.2⟩

/-- The server's pool when its first worker cannot be created: the fifth one is written
    behind the array, and the first entry, which is none, is cancelled. -/
theorem first_worker_fails :
    ¬ CreationMatches 5 10 (createServerThreadPool fun k =>
      if k = 0 then .error false else .created (UInt64.ofNat k)) := by
  unfold CreationMatches
  decide +kernel

end SocketPractice.SocketUdp
