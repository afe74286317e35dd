import SocketPractice.Common.PoolThreads

/-!
# Creating and destroying the `socket` pool (`thread_pool.c`)

`create_thread_pool` goes once through an array of `init_threads_cnt` entries from
`malloc`; `destroy_thread_pool` goes through as many of them as there are workers.  After
a call of `pthread_create` that failed, these are not the entries of the workers.
-/

namespace SocketPractice.Socket

open Common

/-- `create_thread_pool`; it only stores `max_threads_cnt`. -/
def createThreadPool (initThreadsCnt _maxThreadsCnt : UInt32) (ret : Nat → CreateRet) : PoolThreads :=
  createLoop initThreadsCnt (fun _ => false) ret initThreadsCnt.toNat 0
    (PoolThreads.init initThreadsCnt)

/-- `destroy_thread_pool`, as far as the workers are concerned. -/
def destroyThreadPool (pool : PoolThreads) : List (Option Tid) :=
  cancelLoop pool.tids pool.cnt pool.cnt.toNat 0

/-- `create_server_thread_pool`. -/
def createServerThreadPool (ret : Nat → CreateRet) : PoolThreads := createThreadPool 6 10 ret

/-- Every round makes its call. -/
theorem createThreadPool_spec (initThreadsCnt maxThreadsCnt : UInt32) (ret : Nat → CreateRet) :
    AfterCalls initThreadsCnt.toNat ret initThreadsCnt.toNat
      (createThreadPool initThreadsCnt maxThreadsCnt ret) := by
  obtain ⟨n, hn, hle, -, hends⟩ :=
    exists_afterCalls initThreadsCnt initThreadsCnt (fun _ => false) ret
  rcases Nat.lt_or_eq_of_le hle with hlt | rfl
  · exact absurd (hends hlt) Bool.false_ne_true
  · exact hn

/-- What is cancelled are the workers, each once, and no entry without one is. -/
def CancelsWorkers (pool : PoolThreads) : Prop :=
  (destroyThreadPool pool).Perm (pool.created.map some) ∧ none ∉ destroyThreadPool pool

/-- For all counts and all results of `pthread_create`: creation and destruction match when
    no call succeeds after one that failed, and only then. -/
theorem cancelsWorkers_iff (initThreadsCnt maxThreadsCnt : UInt32) (ret : Nat → CreateRet) :
    CancelsWorkers (createThreadPool initThreadsCnt maxThreadsCnt ret) ↔
      NoneAfterFailure ret initThreadsCnt.toNat := by
  have h := createThreadPool_spec initThreadsCnt maxThreadsCnt ret
  have hiff := h.entries_perm_iff (createdBefore_le ret _)
  unfold CancelsWorkers destroyThreadPool
  rw [h.cancelLoop_eq]
  constructor
  · exact fun hcancels => hiff.mp hcancels.1
  · intro hret
    have hperm := hiff.mpr hret
    refine ⟨hperm, ?_⟩
    intro hmem
    obtain ⟨tid, -, htid⟩ := List.mem_map.mp (hperm.mem_iff.mp hmem)
    cases htid

/-- The server's pool when its first worker cannot be created: the entry that was not set
    is cancelled, and the last worker is not. -/
theorem first_pool_thread_fails :
    ¬ CancelsWorkers (createServerThreadPool fun k =>
      if k = 0 then .error false else .created (UInt64.ofNat k)) := by
  unfold CancelsWorkers
  decide +kernel

end SocketPractice.Socket
