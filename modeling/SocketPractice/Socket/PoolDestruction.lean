import SocketPractice.Socket.ThreadPoolInv

/-!
# Tasks that are queued when the pool is destroyed (`thread_pool.c`, `task_queue.c`)

`destroy_thread_pool` drains the queue by dequeueing without a place for the task, so it
never sees the task's argument.  A worker that is done with a task frees the argument when
`arg_size` says that the pool made it; nobody does so for a task that no worker took.
-/

namespace SocketPractice.Socket

open Lib.Links Lib.Runs Lib.Threads Common

variable {n : Nat}

/-! ## 1. The code -/

def destroyTaskQueue (fuel : Nat) (h : Heap Job) (taskQueue : Option Addr) :
    Option (Heap Job × Bool) :=
  destroyQueue (fun ret => ret = .QUEUE_SUCCESS) fuel h taskQueue

/-- `destroy_thread_pool`, as far as the queue is concerned.  The flag says whether it has
    returned: not while another thread has the mutex, and not within too few rounds of
    the loop. -/
def PoolState.destroyThreadPool (s : PoolState n) (fuel : Nat) : Option (PoolState n × Bool) :=
  match s.mutex with
  | some _ => some (s, false)
  | none => do
      let (h, ended) ← destroyTaskQueue fuel s.heap (some s.queue)
      return ({ s with heap := h }, ended)

/-! ## 2. What it frees -/

/-- Of the list, the head and the nodes of the queued tasks are freed, and nothing else. -/
def NodesFreed (s t : PoolState n) (queued : List Job) : Prop :=
  ∃ nodes, Circular s.heap s.queue nodes ∧ nodes.map s.heap.val? = queued.map some ∧
    ∀ x, (t.heap x).isSome = (decide (x ∉ s.queue :: nodes) && (s.heap x).isSome)

/-- Of the arguments, the copies of the queued tasks are freed, and nothing else. -/
def CopiesFreed (s t : PoolState n) (queued : List Job) : Prop :=
  (∀ j ∈ queued, ∀ a, j.block = some a → t.mem a = none) ∧
    ∀ a, (∀ j ∈ queued, j.block ≠ some a) → t.mem a = s.mem a

/-- `destroy_thread_pool` returns, and has then freed what belongs to the queued tasks.
    A second `free` would be a fault. -/
def ReleasesQueued (s : PoolState n) (queued : List Job) : Prop :=
  ∃ rounds, ∀ fuel ≥ rounds, ∃ t, s.destroyThreadPool fuel = some (t, true) ∧
    NodesFreed s t queued ∧ CopiesFreed s t queued

/-- Whatever is queued, it returns, frees the nodes and no argument. -/
theorem destroyThreadPool_spec {s : PoolState n} {queued : List Job}
    (hholds : Holds s.heap s.queue queued) (hfree : s.mutex = none) {fuel : Nat}
    (hfuel : queued.length < fuel) :
    ∃ t, s.destroyThreadPool fuel = some (t, true) ∧ NodesFreed s t queued ∧
      t.mem = s.mem := by
  obtain ⟨nodes, hc, hvals⟩ := hholds
  have hlen : nodes.length = queued.length := by
    have h := congrArg List.length hvals
    rwa [List.length_map, List.length_map] at h
  obtain ⟨h', heq, ha⟩ := destroyQueue_circular (fun ret => ret = .QUEUE_SUCCESS) rfl rfl hc
    (hlen ▸ hfuel)
  refine ⟨{ s with heap := h' }, ?_, ⟨nodes, hc, hvals, ha⟩, rfl⟩
  simp [PoolState.destroyThreadPool, hfree, destroyTaskQueue, heq]

/-- So the copies of the queued tasks are freed when there are none. -/
theorem releasesQueued_iff {s : PoolState n} {queued : List Job} (h : PoolInv s queued)
    (hfree : s.mutex = none) :
    ReleasesQueued s queued ↔ ∀ j ∈ queued, j.block = none := by
  constructor
  · rintro ⟨rounds, hrounds⟩ j hj
    obtain ⟨t, heq, -, hcopies, -⟩ := hrounds (max rounds (queued.length + 1)) (Nat.le_max_left _ _)
    obtain ⟨t', heq', -, hmem⟩ :=
      destroyThreadPool_spec h.holds hfree
        (Nat.lt_of_lt_of_le (Nat.lt_succ_self _) (Nat.le_max_right rounds _))
    rw [heq'] at heq
    cases heq
    cases hblock : j.block with
    | none => rfl
    | some a =>
        -- the queued task owns a copy that is still there
        have hlive := (h.queuedOk j hj a hblock).2.1
        rw [← hmem] at hlive
        exact absurd (hcopies j hj a hblock) hlive
  · intro hnone
    refine ⟨queued.length + 1, fun fuel hfuel => ?_⟩
    obtain ⟨t, heq, hnodes, hmem⟩ := destroyThreadPool_spec h.holds hfree hfuel
    refine ⟨t, heq, hnodes, ?_, fun a _ => by rw [hmem]⟩
    intro j hj a hblock
    rw [hnone j hj] at hblock
    cases hblock

/-- In every state of every run in which no thread is in a section of the pool:
    `destroy_thread_pool` frees all it should when no queued task has a copy of its
    argument, and only then. -/
theorem destroy_releases_queued_iff (n : Nat) (queue : Addr) (mem : Addr → Option (List UInt8))
    (evs : List (PoolEvent n)) :
    Always poolStep (fun s => s.mutex = none → ∃ queued, Holds s.heap s.queue queued ∧
      (ReleasesQueued s queued ↔ ∀ j ∈ queued, j.block = none)) (newPool n queue mem) evs :=
  (always_of_invariant poolInv_step ⟨[], newPool_inv queue mem⟩ evs).mono
    fun _ ⟨queued, h⟩ hfree => ⟨queued, h.holds, releasesQueued_iff h hfree⟩

/-- One `add_task_to_pool_release_arg_mem`, and the pool is destroyed before a worker comes
    to the task: the copy is not freed. -/
theorem queued_copy_leaks :
    ∃ s, exec poolStep (newPool 1 40 fun a => if a = 10 then some [7] else none)
        [.caller 0 (.makeRelease 1 (some 10) 1 20), .caller 0 .lock, .caller 0 (.enQueue 30),
          .caller 0 .count, .caller 0 .broadcast, .caller 0 .unlock] = some s ∧
      s.mutex = none ∧ (∀ w, (s.workers w).running = 0) ∧
      ∀ queued, Holds s.heap s.queue queued → ¬ ReleasesQueued s queued := by
  have hrun : (exec poolStep (newPool 1 40 fun a => if a = 10 then some [7] else none)
      [.caller 0 (.makeRelease 1 (some 10) 1 20), .caller 0 .lock, .caller 0 (.enQueue 30),
        .caller 0 .count, .caller 0 .broadcast, .caller 0 .unlock]).map
      (fun s => (s.mutex, s.enqueued.map Job.block, s.dequeued.map Job.block)) =
        some (none, [some 20], []) := by
    decide +kernel
  obtain ⟨s, hs, hmap⟩ := Option.map_eq_some_iff.mp hrun
  simp only [Prod.mk.injEq] at hmap
  obtain ⟨hfree, henqueued, hdequeued⟩ := hmap
  obtain ⟨queued', h⟩ := exec_invariant poolInv_step ⟨[], newPool_inv 40 _⟩ hs
  refine ⟨s, hs, hfree, fun w => ?_, ?_⟩
  · -- the task of a worker has been dequeued
    have haccount := h.account
    rw [List.map_eq_nil_iff.mp hdequeued] at haccount
    have hle : (s.workers w).running ≤ held WorkerPc.running s.workers + s.finished :=
      le_trans (le_held WorkerPc.running s.workers w) (Multiset.le_add_right _ _)
    rw [← haccount] at hle
    exact Multiset.le_zero.mp hle
  · intro queued hholds hreleases
    obtain rfl := hholds.unique h.holds
    have hnone := (releasesQueued_iff h hfree).mp hreleases
    rw [h.order, List.map_append, hdequeued, List.nil_append] at henqueued
    have hmem : some 20 ∈ queued.map Job.block := henqueued ▸ List.mem_singleton_self _
    obtain ⟨j, hj, hblock⟩ := List.mem_map.mp hmem
    rw [hnone j hj] at hblock
    cases hblock

end SocketPractice.Socket
