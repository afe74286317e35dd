import SocketPractice.Socket.ThreadPool

/-!
# The invariant of the thread pool

Between the accounts of `PoolOk` and the steps of the threads stands an invariant
that also says who owns the mutex, by how much the counter lags behind the queue
while a thread is between its queue operation and its count, and where the copies
of the arguments are: a task that a caller is about to add, that is queued or that
a worker has, owns its block, and the block holds the bytes that were given until
the handler is called.
-/

namespace SocketPractice.Socket

open Lib.Links Lib.Runs Lib.Threads Common

/-! ## 1. The invariant -/

def WorkerPc.inside : WorkerPc → Bool
  | .locked => true
  | .dequeued _ => true
  | .counted _ => true
  | _ => false

def CallerPc.inside : CallerPc → Bool
  | .locked _ => true
  | .enqueued => true
  | .counted => true
  | .signalled => true
  | _ => false

/-- The task that a caller has made and not enqueued. -/
def CallerPc.pending : CallerPc → Option Job
  | .made j => some j
  | .locked j => some j
  | _ => none

/-- A dequeue that is not counted yet. -/
def WorkerPc.uncounted : WorkerPc → UInt32
  | .dequeued _ => 1
  | _ => 0

def CallerPc.uncounted : CallerPc → UInt32
  | .enqueued => 1
  | _ => 0

variable {n : Nat}

/-- By how much the counter is above the length of the queue. -/
def owed (mutex : Option (PoolThread n)) (workers : Fin n → WorkerPc)
    (callers : Nat → CallerPc) : UInt32 :=
  match mutex with
  | none => 0
  | some (.worker w) => (workers w).uncounted
  | some (.caller p) => 0 - (callers p).uncounted

/-- The task owns its copy; with `fresh`, the copy holds the bytes given. -/
def Copy (owner : Addr → Option Nat) (mem : Addr → Option (List UInt8)) (fresh : Prop)
    (j : Job) : Prop :=
  ∀ a, j.block = some a → owner a = some j.id ∧ mem a ≠ none ∧ (fresh → mem a = j.given)

/-- What a caller with a task in hand relies on: its number is new, and it has its
    copy. -/
def CallerPc.Ok (s : PoolState n) (pc : CallerPc) : Prop :=
  ∀ j, pc.pending = some j →
    j.id < s.nextId ∧ j.id ∉ s.enqueued.map Job.id ∧ Copy s.owner s.mem True j

/-- What a worker with a task relies on: its copy, unchanged until it calls the
    handler. -/
def WorkerPc.Ok (s : PoolState n) (pc : WorkerPc) : Prop :=
  ∀ j ∈ pc.running, Copy s.owner s.mem (pc.started = 0) j

def PendingInj (callers : Nat → CallerPc) : Prop :=
  ∀ p p' j j', (callers p).pending = some j → (callers p').pending = some j' →
    j.id = j'.id → p = p'

structure PoolInv (s : PoolState n) (queued : List Job) : Prop where
  sound : s.fault = false
  holds : Holds s.heap s.queue queued
  nodup : (s.enqueued.map Job.id).Nodup
  order : s.enqueued = s.dequeued ++ queued
  account : (s.dequeued : Multiset Job) = held WorkerPc.running s.workers + s.finished
  count : s.curTasksCnt = UInt32.ofNat queued.length + owed s.mutex s.workers s.callers
  called : ((s.calls.map Prod.fst : List Job) : Multiset Job) =
    held WorkerPc.started s.workers + s.finished
  returned : (s.returned : Multiset Job) = held WorkerPc.ended s.workers + s.finished
  seen : ∀ c ∈ s.calls, c.1.release = true → c.2 = c.1.given
  freed : s.freed = s.finished.filter fun j => j.block.isSome
  workersExcl : Excl s.mutex PoolThread.worker WorkerPc.inside s.workers
  callersExcl : Excl s.mutex PoolThread.caller CallerPc.inside s.callers
  idLt : ∀ j ∈ s.enqueued, j.id < s.nextId
  pendingInj : PendingInj s.callers
  callerOk : ∀ p, (s.callers p).Ok s
  queuedOk : ∀ j ∈ queued, Copy s.owner s.mem True j
  workerOk : ∀ w, (s.workers w).Ok s

theorem Job.release_of_block {j : Job} (h : j.block.isSome = true) : j.release = true := by
  rw [Job.size_pos]
  by_contra hsize
  rw [Job.block, if_neg hsize] at h
  cases h

theorem PoolInv.ok {s : PoolState n} {queued : List Job} (h : PoolInv s queued) :
    PoolOk s queued where
  sound := h.sound
  holds := h.holds
  nodup := h.nodup
  order := h.order
  account := by
    rw [h.order, ← Multiset.coe_add, h.account]
    ac_rfl
  count := by
    intro hfree
    rw [h.count, hfree]
    exact UInt32.add_zero _
  called := h.called
  returned := h.returned
  seen := h.seen
  freed := h.freed
  release := by
    intro j hj
    rw [h.freed] at hj
    exact Job.release_of_block (List.mem_filter.mp hj).2

/-! ## 2. Small facts about the positions -/

theorem worker_injective : Function.Injective (PoolThread.worker : Fin n → PoolThread n) :=
  fun _ _ h => by cases h; rfl

theorem caller_injective : Function.Injective (PoolThread.caller : Nat → PoolThread n) :=
  fun _ _ h => by cases h; rfl

theorem owed_setWorker {mutex : Option (PoolThread n)} {workers : Fin n → WorkerPc}
    {callers : Nat → CallerPc} {w : Fin n} {pc : WorkerPc}
    (hpc : pc.uncounted = (workers w).uncounted) :
    owed mutex (Function.update workers w pc) callers = owed mutex workers callers := by
  match mutex with
  | none => rfl
  | some (.caller p) => rfl
  | some (.worker v) =>
      by_cases hv : v = w
      · subst hv
        simp only [owed, Function.update_self, hpc]
      · simp only [owed, Function.update_of_ne hv]

theorem owed_setCaller {mutex : Option (PoolThread n)} {workers : Fin n → WorkerPc}
    {callers : Nat → CallerPc} {p : Nat} {pc : CallerPc}
    (hpc : pc.uncounted = (callers p).uncounted) :
    owed mutex workers (Function.update callers p pc) = owed mutex workers callers := by
  match mutex with
  | none => rfl
  | some (.worker w) => rfl
  | some (.caller q) =>
      by_cases hq : q = p
      · subst hq
        simp only [owed, Function.update_self, hpc]
      · simp only [owed, Function.update_of_ne hq]

namespace WorkerPc

@[simp] theorem wake_running (pc : WorkerPc) : pc.wake.running = pc.running := by
  cases pc <;> rfl

@[simp] theorem wake_started (pc : WorkerPc) : pc.wake.started = pc.started := by
  cases pc <;> rfl

@[simp] theorem wake_ended (pc : WorkerPc) : pc.wake.ended = pc.ended := by
  cases pc <;> rfl

@[simp] theorem wake_inside (pc : WorkerPc) : pc.wake.inside = pc.inside := by
  cases pc <;> rfl

@[simp] theorem wake_uncounted (pc : WorkerPc) : pc.wake.uncounted = pc.uncounted := by
  cases pc <;> rfl

end WorkerPc

theorem Copy.congr {owner owner' : Addr → Option Nat} {mem mem' : Addr → Option (List UInt8)}
    {fresh fresh' : Prop} {j : Job} (h : Copy owner mem fresh j) (hfresh : fresh' → fresh)
    (hkeep : ∀ a, owner a = some j.id → mem a ≠ none → owner' a = owner a ∧ mem' a = mem a) :
    Copy owner' mem' fresh' j := by
  intro a ha
  rcases h a ha with ⟨howner, hmem, hgiven⟩
  rcases hkeep a howner hmem with ⟨h1, h2⟩
  rw [h1, h2]
  exact ⟨howner, hmem, fun hf => hgiven (hfresh hf)⟩

theorem PendingInj.update {callers : Nat → CallerPc} (h : PendingInj callers) {p : Nat}
    {pc : CallerPc} (hpc : ∀ j, pc.pending = some j → (callers p).pending = some j) :
    PendingInj (Function.update callers p pc) := by
  have hback : ∀ q j, (Function.update callers p pc q).pending = some j →
      (callers q).pending = some j := by
    refine (Function.forall_update_iff _ fun q (x : CallerPc) => ∀ j, x.pending = some j →
      (callers q).pending = some j).mpr ⟨hpc, fun q _ j hj => hj⟩
  exact fun q q' j j' hj hj' heq => h q q' j j' (hback q j hj) (hback q' j' hj') heq

/-! ## 3. Steps of a caller -/

section Caller

variable {s : PoolState n} {queued : List Job} {p : Nat}

/-- A caller that makes a task, with or without a block for its copy. -/
theorem PoolInv.make (h : PoolInv s queued) (hpc : (s.callers p) = .idle) {j : Job}
    (hid : j.id = s.nextId) {owner : Addr → Option Nat} {mem : Addr → Option (List UInt8)}
    (hcopy : Copy owner mem True j)
    (hkeep : ∀ a, s.mem a ≠ none → owner a = s.owner a ∧ mem a = s.mem a) :
    PoolInv { s.setCaller p (.made j) with
      owner := owner, mem := mem, nextId := s.nextId + 1 } queued := by
  have hothers : ∀ fresh j', Copy s.owner s.mem fresh j' → Copy owner mem fresh j' :=
    fun fresh j' hc => hc.congr (fun hf => hf) fun a _ ha => hkeep a ha
  refine { h with
    count := ?_, callersExcl := ?_, idLt := ?_, pendingInj := ?_, callerOk := ?_,
    queuedOk := ?_, workerOk := ?_ }
  · exact h.count.trans (congrArg _ (owed_setCaller (by rw [hpc]; rfl)).symm)
  · exact h.callersExcl.stay (by rw [hpc]; rfl)
  · exact fun j' hj' => Nat.lt_succ_of_lt (h.idLt j' hj')
  · intro q q' j1 j2 h1 h2 heq
    simp only [PoolState.setCaller] at h1 h2
    by_cases hq : q = p <;> by_cases hq' : q' = p
    · exact hq.trans hq'.symm
    · subst hq
      rw [Function.update_self] at h1
      rw [Function.update_of_ne hq'] at h2
      cases h1
      exact absurd (h.callerOk q' j2 h2).1 (by omega)
    · subst hq'
      rw [Function.update_self] at h2
      rw [Function.update_of_ne hq] at h1
      cases h2
      exact absurd (h.callerOk q j1 h1).1 (by omega)
    · rw [Function.update_of_ne hq] at h1
      rw [Function.update_of_ne hq'] at h2
      exact h.pendingInj q q' j1 j2 h1 h2 heq
  · refine (Function.forall_update_iff _ fun _ pc => CallerPc.Ok _ pc).mpr ⟨?_, fun q _ => ?_⟩
    · rintro j' ⟨⟩
      refine ⟨hid ▸ Nat.lt_succ_self _, fun hmem => ?_, hcopy⟩
      rcases List.mem_map.mp hmem with ⟨j', hj', heq⟩
      exact absurd (h.idLt j' hj') (by omega)
    · intro j' hj'
      rcases h.callerOk q j' hj' with ⟨hlt, hnew, hc⟩
      exact ⟨Nat.lt_succ_of_lt hlt, hnew, hothers _ _ hc⟩
  · exact fun j' hj' => hothers _ _ (h.queuedOk j' hj')
  · exact fun w j' hj' => hothers _ _ (h.workerOk w j' hj')

/-- A caller that moves on with the task it has in hand, if any. -/
theorem PoolInv.moveCaller (h : PoolInv s queued) {pc : CallerPc}
    (hpending : ∀ j, pc.pending = some j → (s.callers p).pending = some j)
    {mutex : Option (PoolThread n)} {cnt : UInt32}
    (hworkers : Excl mutex PoolThread.worker WorkerPc.inside s.workers)
    (hcallers : Excl mutex PoolThread.caller CallerPc.inside (Function.update s.callers p pc))
    (hcnt : cnt = UInt32.ofNat queued.length +
      owed mutex s.workers (Function.update s.callers p pc)) :
    PoolInv { s.setCaller p pc with mutex := mutex, curTasksCnt := cnt } queued := by
  refine { h with
    count := hcnt, workersExcl := hworkers, callersExcl := hcallers,
    pendingInj := h.pendingInj.update hpending, callerOk := ?_ }
  refine (Function.forall_update_iff _ fun _ x => CallerPc.Ok s x).mpr
    ⟨fun j hj => h.callerOk p j (hpending j hj), fun q _ => h.callerOk q⟩

theorem PoolInv.callerLock (h : PoolInv s queued) {j : Job} (hpc : s.callers p = .made j)
    (hfree : s.mutex = none) :
    PoolInv { s.setCaller p (.locked j) with mutex := some (.caller p) } queued := by
  have hw := h.workersExcl
  have hc := h.callersExcl
  have hcnt := h.count
  rw [hfree] at hw hc hcnt
  refine h.moveCaller (by rw [hpc]; exact fun _ h => h) (hw.of_other (by simp) (by simp))
    (hc.lock caller_injective rfl) (hcnt.trans (congrArg _ ?_))
  simp only [owed, Function.update_self, CallerPc.uncounted, UInt32.sub_zero]

theorem PoolInv.mutex_of_caller (h : PoolInv s queued) (hin : (s.callers p).inside = true) :
    s.mutex = some (.caller p) := (h.callersExcl p).mp hin

theorem PoolInv.enQueue (h : PoolInv s queued) {j : Job} (hpc : s.callers p = .locked j)
    {heap : Heap Job} (hholds : Holds heap s.queue (queued ++ [j])) :
    PoolInv { s.setCaller p .enqueued with heap := heap, enqueued := s.enqueued ++ [j] }
      (queued ++ [j]) := by
  have hmutex := h.mutex_of_caller (p := p) (by rw [hpc]; rfl)
  have hpending : (s.callers p).pending = some j := by rw [hpc]; rfl
  rcases h.callerOk p j hpending with ⟨hlt, hnew, hcopy⟩
  refine { h with
    holds := hholds, nodup := ?_, order := ?_, count := ?_, callersExcl := ?_, idLt := ?_,
    pendingInj := h.pendingInj.update (by rintro j' ⟨⟩), callerOk := ?_, queuedOk := ?_ }
  · rw [List.map_append]
    refine List.nodup_append.mpr ⟨h.nodup, List.nodup_singleton _, ?_⟩
    rintro a ha b hb rfl
    exact hnew (List.mem_singleton.mp hb ▸ ha)
  · simp only [PoolState.setCaller, h.order, List.append_assoc]
  · have hcnt := h.count
    simp only [hmutex, owed, hpc, CallerPc.uncounted] at hcnt
    simp only [PoolState.setCaller, hmutex, owed, Function.update_self, CallerPc.uncounted,
      hcnt, List.length_append, List.length_singleton, UInt32.ofNat_add]
    grind
  · exact h.callersExcl.stay (by rw [hpc]; rfl)
  · intro j' hj'
    rcases List.mem_append.mp hj' with hj' | hj'
    · exact h.idLt j' hj'
    · exact List.mem_singleton.mp hj' ▸ hlt
  · refine (Function.forall_update_iff _ fun _ x => CallerPc.Ok _ x).mpr
      ⟨by rintro j' ⟨⟩, ?_⟩
    intro q hq j' hj'
    rcases h.callerOk q j' hj' with ⟨hlt', hnew', hcopy'⟩
    refine ⟨hlt', ?_, hcopy'⟩
    simp only [List.map_append, List.mem_append, List.map_cons, List.map_nil,
      List.mem_singleton, not_or]
    exact ⟨hnew', fun heq => hq (h.pendingInj q p j' j hj' hpending heq)⟩
  · intro j' hj'
    rcases List.mem_append.mp hj' with hj' | hj'
    · exact h.queuedOk j' hj'
    · exact List.mem_singleton.mp hj' ▸ hcopy

theorem PoolInv.callerCount (h : PoolInv s queued) (hpc : s.callers p = .enqueued) :
    PoolInv { s.setCaller p .counted with curTasksCnt := s.curTasksCnt + 1 } queued := by
  have hmutex := h.mutex_of_caller (p := p) (by rw [hpc]; rfl)
  refine h.moveCaller (by rintro j ⟨⟩) h.workersExcl
    (h.callersExcl.stay (by rw [hpc]; rfl)) ?_
  have hcnt := h.count
  simp only [hmutex, owed, hpc, CallerPc.uncounted] at hcnt
  simp only [PoolState.setCaller, hmutex, owed, Function.update_self, CallerPc.uncounted, hcnt]
  grind

theorem PoolInv.callerUnlock (h : PoolInv s queued) (hpc : s.callers p = .signalled) :
    PoolInv { s.setCaller p .idle with mutex := none } queued := by
  have hmutex := h.mutex_of_caller (p := p) (by rw [hpc]; rfl)
  have hw := h.workersExcl
  have hc := h.callersExcl
  have hcnt := h.count
  rw [hmutex] at hw hc hcnt
  refine h.moveCaller (by rintro j ⟨⟩) (hw.of_other (by simp) (by simp))
    (hc.unlock caller_injective rfl) (hcnt.trans (congrArg _ ?_))
  simp only [owed, hpc, CallerPc.uncounted, UInt32.sub_zero]

/-- A broadcast changes nothing but which workers wait. -/
theorem PoolInv.wakeAll (h : PoolInv s queued) :
    PoolInv { s with workers := fun w => (s.workers w).wake } queued := by
  refine { h with
    account := ?_, count := ?_, called := ?_, returned := ?_, workersExcl := ?_, workerOk := ?_ }
  · rw [held_congr fun w => (s.workers w).wake_running]
    exact h.account
  · refine h.count.trans (congrArg _ ?_)
    match s.mutex with
    | none => rfl
    | some (.caller q) => rfl
    | some (.worker w) => exact (s.workers w).wake_uncounted.symm
  · rw [held_congr fun w => (s.workers w).wake_started]
    exact h.called
  · rw [held_congr fun w => (s.workers w).wake_ended]
    exact h.returned
  · exact h.workersExcl.congr fun w => (s.workers w).wake_inside
  · intro w j hj
    simp only [WorkerPc.wake_running, WorkerPc.wake_started] at hj ⊢
    exact h.workerOk w j hj

theorem PoolInv.broadcast (h : PoolInv s queued) (hpc : s.callers p = .counted) :
    PoolInv { s.setCaller p .signalled with workers := fun w => (s.workers w).wake } queued := by
  have hwake := h.wakeAll
  refine hwake.moveCaller (by rintro j ⟨⟩) hwake.workersExcl
    (hwake.callersExcl.stay (by rw [hpc]; rfl)) (hwake.count.trans (congrArg _ ?_))
  exact (owed_setCaller (by rw [hpc]; rfl)).symm

/-- Every step of an add call keeps the invariant. -/
theorem poolInv_callerStep (h : PoolInv s queued) {e : CallerEvent} {t : PoolState n}
    (hstep : callerStep s p e = some t) : ∃ queued', PoolInv t queued' := by
  cases e with
  | makeUse handler arg =>
      simp only [callerStep] at hstep
      split at hstep
      · rename_i hpc
        cases hstep
        exact ⟨queued, h.make hpc rfl (by simp [Copy]) fun _ _ => ⟨rfl, rfl⟩⟩
      · cases hstep
  | makeRelease handler arg argSize block =>
      simp only [callerStep] at hstep
      split at hstep
      · rename_i hpc
        split at hstep
        · rename_i hsize
          rcases arg with _ | a
          · cases hstep
            exact ⟨queued, h.make hpc rfl (by simp [Copy])
              fun _ _ => ⟨rfl, rfl⟩⟩
          · simp only at hstep
            split at hstep
            · cases hstep
            simp only [Option.ite_none_right_eq_some, Option.some.injEq] at hstep
            rcases hstep with ⟨⟨-, hfree⟩, rfl⟩
            refine ⟨queued, h.make hpc rfl ?_ ?_⟩
            · intro b hb
              simp only [block_releaseArgMem, Option.map_some, Option.some.injEq] at hb
              subst hb
              simp [releaseArgMem, PoolState.setCaller, PoolState.setOwner, PoolState.setMem]
            · intro b hb
              have hne : b ≠ block := by
                intro heq
                subst heq
                exact hb hfree
              exact ⟨Function.update_of_ne hne _ _, Function.update_of_ne hne _ _⟩
        · cases hstep
      · cases hstep
  | lock =>
      simp only [callerStep] at hstep
      split at hstep
      · rename_i hpc hfree
        cases hstep
        exact ⟨queued, h.callerLock hpc hfree⟩
      · cases hstep
  | enQueue node =>
      simp only [callerStep] at hstep
      split at hstep
      · rename_i j hpc
        rcases Option.ite_none_right_eq_some.mp hstep with ⟨hfresh, hen⟩
        rcases enToQueue_listAddTail h.holds hfresh j with ⟨heap, heq, hholds, -⟩
        simp only [enTaskToQueue, heq, Option.some.injEq] at hen
        subst hen
        exact ⟨queued ++ [j], h.enQueue hpc hholds⟩
      · cases hstep
  | count =>
      simp only [callerStep] at hstep
      split at hstep
      · rename_i hpc
        cases hstep
        exact ⟨queued, h.callerCount hpc⟩
      · cases hstep
  | broadcast =>
      simp only [callerStep] at hstep
      split at hstep
      · rename_i hpc
        cases hstep
        exact ⟨queued, h.broadcast hpc⟩
      · cases hstep
  | unlock =>
      simp only [callerStep] at hstep
      split at hstep
      · rename_i hpc
        cases hstep
        exact ⟨queued, h.callerUnlock hpc⟩
      · cases hstep

end Caller

/-! ## 4. Steps of a worker -/

section Worker

variable {s : PoolState n} {queued : List Job} {w : Fin n}

/-- The task of a worker has a number that no caller's task, no queued task and no
    other worker's task has. -/
theorem PoolInv.id_ne (h : PoolInv s queued) {j : Job} (hj : j ∈ (s.workers w).running) :
    (∀ p j', (s.callers p).pending = some j' → j'.id ≠ j.id) ∧
      (∀ j' ∈ queued, j'.id ≠ j.id) ∧
      ∀ v, v ≠ w → ∀ j' ∈ (s.workers v).running, j'.id ≠ j.id := by
  have hheld : held WorkerPc.running s.workers ≤ (s.dequeued : Multiset Job) := by
    rw [h.account]
    exact Multiset.le_add_right _ _
  have hmem : j ∈ s.dequeued :=
    Multiset.mem_coe.mp (Multiset.mem_of_le ((le_held _ _ w).trans hheld) hj)
  have hnodup := h.nodup
  rw [h.order, List.map_append] at hnodup
  rcases List.nodup_append.mp hnodup with ⟨hdeq, -, hdisj⟩
  refine ⟨fun p j' hj' heq => ?_, fun j' hj' heq => ?_, fun v hv j' hj' heq => ?_⟩
  · refine (h.callerOk p j' hj').2.1 (heq ▸ List.mem_map_of_mem ?_)
    rw [h.order]
    exact List.mem_append_left _ hmem
  · exact hdisj _ (List.mem_map_of_mem hmem) _ (List.mem_map_of_mem hj') heq.symm
  · have hle := Multiset.map_le_map ((add_le_held WorkerPc.running s.workers hv).trans hheld)
      (f := Job.id)
    have hids : (Multiset.map Job.id (s.dequeued : Multiset Job)).Nodup := by
      rw [Multiset.map_coe]
      exact hdeq
    have hboth := Multiset.nodup_of_le hle hids
    rw [Multiset.map_add, Multiset.nodup_add] at hboth
    exact Multiset.disjoint_left.mp hboth.2.2 (Multiset.mem_map_of_mem _ hj')
      (heq ▸ Multiset.mem_map_of_mem _ hj)

/-- What happens to the block of one task does not concern the copy of another. -/
theorem Copy.of_ne {owner owner' : Addr → Option Nat} {mem mem' : Addr → Option (List UInt8)}
    {fresh : Prop} {j' : Job} {id : Nat} {a : Addr} (h : Copy owner mem fresh j')
    (hne : j'.id ≠ id) (howner : owner a = some id)
    (hkeep : ∀ b, b ≠ a → owner' b = owner b ∧ mem' b = mem b) : Copy owner' mem' fresh j' := by
  apply h.congr (fun hf => hf)
  intro b hb _
  apply hkeep b
  intro heq
  subst heq
  rw [howner] at hb
  exact hne (Option.some.inj hb).symm

/-- A worker that moves on without a change in the task it has. -/
theorem PoolInv.moveWorker (h : PoolInv s queued) {pc : WorkerPc}
    (hrunning : pc.running = (s.workers w).running)
    (hstarted : pc.started = (s.workers w).started) (hended : pc.ended = (s.workers w).ended)
    {mutex : Option (PoolThread n)} {cnt : UInt32}
    (hworkers : Excl mutex PoolThread.worker WorkerPc.inside (Function.update s.workers w pc))
    (hcallers : Excl mutex PoolThread.caller CallerPc.inside s.callers)
    (hcnt : cnt = UInt32.ofNat queued.length +
      owed mutex (Function.update s.workers w pc) s.callers) :
    PoolInv { s.setWorker w pc with mutex := mutex, curTasksCnt := cnt } queued := by
  refine { h with
    account := ?_, count := hcnt, called := ?_, returned := ?_, workersExcl := hworkers,
    callersExcl := hcallers, workerOk := ?_ }
  · exact h.account.trans (congrArg (· + _) (held_update_same hrunning).symm)
  · exact h.called.trans (congrArg (· + _) (held_update_same hstarted).symm)
  · exact h.returned.trans (congrArg (· + _) (held_update_same hended).symm)
  · refine (Function.forall_update_iff _ fun _ x => WorkerPc.Ok s x).mpr
      ⟨fun j hj => ?_, fun v _ => h.workerOk v⟩
    rw [hrunning] at hj
    rw [hstarted]
    exact h.workerOk w j hj

theorem PoolInv.workerLock (h : PoolInv s queued)
    (hpc : s.workers w = .top ∨ s.workers w = .woken) (hfree : s.mutex = none) :
    PoolInv { s.setWorker w .locked with mutex := some (.worker w) } queued := by
  have hw := h.workersExcl
  have hc := h.callersExcl
  have hcnt := h.count
  rw [hfree] at hw hc hcnt
  have hnone : (s.workers w).running = 0 ∧ (s.workers w).started = 0 ∧
      (s.workers w).ended = 0 := by
    rcases hpc with hpc | hpc <;> rw [hpc] <;> exact ⟨rfl, rfl, rfl⟩
  refine h.moveWorker (show WorkerPc.locked.running = _ from hnone.1.symm) hnone.2.1.symm
    hnone.2.2.symm (hw.lock worker_injective rfl) (hc.of_other (by simp) (by simp))
    (hcnt.trans (congrArg _ ?_))
  simp only [owed, Function.update_self, WorkerPc.uncounted]

theorem PoolInv.mutex_of_worker (h : PoolInv s queued) (hin : (s.workers w).inside = true) :
    s.mutex = some (.worker w) := (h.workersExcl w).mp hin

/-- Nothing to do: the worker waits and gives the mutex up. -/
theorem PoolInv.wait (h : PoolInv s queued) (hpc : s.workers w = .locked) :
    PoolInv { s.setWorker w .waiting with mutex := none } queued := by
  have hmutex := h.mutex_of_worker (w := w) (by rw [hpc]; rfl)
  have hw := h.workersExcl
  have hc := h.callersExcl
  have hcnt := h.count
  rw [hmutex] at hw hc hcnt
  refine h.moveWorker (by rw [hpc]; rfl) (by rw [hpc]; rfl) (by rw [hpc]; rfl)
    (hw.unlock worker_injective rfl) (hc.of_other (by simp) (by simp))
    (hcnt.trans (congrArg _ ?_))
  simp only [owed, hpc, WorkerPc.uncounted]

theorem PoolInv.deQueue {j : Job} (h : PoolInv s (j :: queued)) (hpc : s.workers w = .locked)
    {heap : Heap Job} (hholds : Holds heap s.queue queued) :
    PoolInv { s.setWorker w (.dequeued j) with
      heap := heap, dequeued := s.dequeued ++ [j] } queued := by
  have hmutex := h.mutex_of_worker (w := w) (by rw [hpc]; rfl)
  refine { h with
    holds := hholds, order := ?_, account := ?_, count := ?_, called := ?_, returned := ?_,
    workersExcl := ?_, queuedOk := ?_, workerOk := ?_ }
  · simp only [PoolState.setWorker, h.order, List.append_assoc, List.singleton_append]
  · have hheld := held_update WorkerPc.running s.workers w (.dequeued j)
    simp only [hpc, WorkerPc.running, add_zero] at hheld
    simp only [PoolState.setWorker, ← Multiset.coe_add, h.account, hheld,
      Multiset.coe_singleton]
    ac_rfl
  · have hcnt := h.count
    simp only [hmutex, owed, hpc, WorkerPc.uncounted, List.length_cons, UInt32.ofNat_add]
      at hcnt
    simp only [PoolState.setWorker, hmutex, owed, Function.update_self, WorkerPc.uncounted, hcnt]
    grind
  · exact h.called.trans (congrArg (· + _) (held_update_same (by rw [hpc]; rfl)).symm)
  · exact h.returned.trans (congrArg (· + _) (held_update_same (by rw [hpc]; rfl)).symm)
  · exact h.workersExcl.stay (by rw [hpc]; rfl)
  · exact fun j' hj' => h.queuedOk j' (List.mem_cons_of_mem j hj')
  · refine (Function.forall_update_iff _ fun _ x => WorkerPc.Ok s x).mpr
      ⟨fun j' hj' => ?_, fun v _ => h.workerOk v⟩
    obtain rfl := Multiset.mem_singleton.mp hj'
    exact (h.queuedOk j' List.mem_cons_self).congr (fun _ => trivial) fun _ _ _ => ⟨rfl, rfl⟩

theorem PoolInv.wake (h : PoolInv s queued) (hpc : s.workers w = .waiting) :
    PoolInv (s.setWorker w .woken) queued := by
  refine h.moveWorker (by rw [hpc]; rfl) (by rw [hpc]; rfl) (by rw [hpc]; rfl)
    (h.workersExcl.stay (by rw [hpc]; rfl)) h.callersExcl (h.count.trans (congrArg _ ?_))
  exact (owed_setWorker (by rw [hpc]; rfl)).symm

theorem PoolInv.workerCount (h : PoolInv s queued) {j : Job} (hpc : s.workers w = .dequeued j) :
    PoolInv { s.setWorker w (.counted j) with curTasksCnt := s.curTasksCnt - 1 } queued := by
  have hmutex := h.mutex_of_worker (w := w) (by rw [hpc]; rfl)
  refine h.moveWorker (by rw [hpc]; rfl) (by rw [hpc]; rfl) (by rw [hpc]; rfl)
    (h.workersExcl.stay (by rw [hpc]; rfl)) h.callersExcl ?_
  have hcnt := h.count
  simp only [hmutex, owed, hpc, WorkerPc.uncounted] at hcnt
  simp only [PoolState.setWorker, hmutex, owed, Function.update_self, WorkerPc.uncounted, hcnt]
  grind

theorem PoolInv.workerUnlock (h : PoolInv s queued) {j : Job} (hpc : s.workers w = .counted j) :
    PoolInv { s.setWorker w (.taken j) with mutex := none } queued := by
  have hmutex := h.mutex_of_worker (w := w) (by rw [hpc]; rfl)
  have hw := h.workersExcl
  have hc := h.callersExcl
  have hcnt := h.count
  rw [hmutex] at hw hc hcnt
  refine h.moveWorker (by rw [hpc]; rfl) (by rw [hpc]; rfl) (by rw [hpc]; rfl)
    (hw.unlock worker_injective rfl) (hc.of_other (by simp) (by simp))
    (hcnt.trans (congrArg _ ?_))
  simp only [owed, hpc, WorkerPc.uncounted]

/-- The handler finds at its argument what the add call was given. -/
theorem PoolInv.call (h : PoolInv s queued) {j : Job} (hpc : s.workers w = .taken j) :
    PoolInv { s.setWorker w (.handling j) with
      calls := s.calls ++ [(j, j.task.arg.bind s.mem)] } queued := by
  have hcopy : Copy s.owner s.mem True j := by
    have hok := h.workerOk w j (by rw [hpc]; exact Multiset.mem_singleton_self j)
    exact hok.congr (fun _ => by rw [hpc]; rfl) fun _ _ _ => ⟨rfl, rfl⟩
  refine { h with
    account := ?_, count := ?_, called := ?_, returned := ?_, seen := ?_, workersExcl := ?_,
    workerOk := ?_ }
  · exact h.account.trans (congrArg (· + _) (held_update_same (by rw [hpc]; rfl)).symm)
  · exact h.count.trans (congrArg _ (owed_setWorker (by rw [hpc]; rfl)).symm)
  · have hheld := held_update WorkerPc.started s.workers w (.handling j)
    simp only [hpc, WorkerPc.started, add_zero] at hheld
    simp only [PoolState.setWorker, List.map_append, List.map_cons, List.map_nil,
      ← Multiset.coe_add, h.called, hheld, Multiset.coe_singleton]
    ac_rfl
  · exact h.returned.trans (congrArg (· + _) (held_update_same (by rw [hpc]; rfl)).symm)
  · intro c hc hrelease
    rcases List.mem_append.mp hc with hc | hc
    · exact h.seen c hc hrelease
    obtain rfl := List.mem_singleton.mp hc
    rcases harg : j.task.arg with _ | a
    · exact (j.given_none harg).symm
    · have hblock : j.block = some a := by
        rw [Job.block, if_pos (j.size_pos.mp hrelease), harg]
      exact (hcopy a hblock).2.2 trivial
  · exact h.workersExcl.stay (by rw [hpc]; rfl)
  · refine (Function.forall_update_iff _ fun _ x => WorkerPc.Ok s x).mpr
      ⟨fun j' hj' => ?_, fun v _ => h.workerOk v⟩
    obtain rfl := Multiset.mem_singleton.mp hj'
    exact hcopy.congr (fun _ => trivial) fun _ _ _ => ⟨rfl, rfl⟩

/-- A handler may write to its argument block. -/
theorem PoolInv.write (h : PoolInv s queued) {j : Job} (hpc : s.workers w = .handling j)
    {a : Addr} (ha : j.block = some a) (bytes : List UInt8) :
    PoolInv (s.setMem a (some bytes)) queued := by
  have hj : j ∈ (s.workers w).running := by
    rw [hpc]
    exact Multiset.mem_singleton_self j
  rcases h.workerOk w j hj a ha with ⟨howner, -, -⟩
  rcases h.id_ne hj with ⟨hcallers, hqueued, hworkers⟩
  have hkeep : ∀ b, b ≠ a → s.owner b = s.owner b ∧
      Function.update s.mem a (some bytes) b = s.mem b := fun b hb =>
    ⟨rfl, Function.update_of_ne hb _ _⟩
  refine { h with callerOk := ?_, queuedOk := ?_, workerOk := ?_ }
  · intro p j' hj'
    rcases h.callerOk p j' hj' with ⟨hlt, hnew, hcopy⟩
    exact ⟨hlt, hnew, hcopy.of_ne (hcallers p j' hj') howner hkeep⟩
  · exact fun j' hj' => (h.queuedOk j' hj').of_ne (hqueued j' hj') howner hkeep
  · intro v j' hj'
    by_cases hv : v = w
    · subst hv
      have hj'' : j' ∈ (s.workers v).running := hj'
      rw [hpc] at hj''
      obtain rfl := Multiset.mem_singleton.mp hj''
      intro b hb
      obtain rfl := Option.some.inj (hb.symm.trans ha)
      refine ⟨howner, by simp [PoolState.setMem], ?_⟩
      intro hstarted
      have hstarted' : (s.workers v).started = 0 := hstarted
      rw [hpc] at hstarted'
      exact absurd hstarted' (Multiset.singleton_ne_zero _)
    · exact (h.workerOk v j' hj').of_ne (hworkers v hv j' hj') howner hkeep

theorem PoolInv.ret (h : PoolInv s queued) {j : Job} (hpc : s.workers w = .handling j) :
    PoolInv { s.setWorker w (.returned j) with returned := s.returned ++ [j] } queued := by
  refine { h with
    account := ?_, count := ?_, called := ?_, returned := ?_, workersExcl := ?_,
    workerOk := ?_ }
  · exact h.account.trans (congrArg (· + _) (held_update_same (by rw [hpc]; rfl)).symm)
  · exact h.count.trans (congrArg _ (owed_setWorker (by rw [hpc]; rfl)).symm)
  · exact h.called.trans (congrArg (· + _) (held_update_same (by rw [hpc]; rfl)).symm)
  · have hheld := held_update WorkerPc.ended s.workers w (.returned j)
    simp only [hpc, WorkerPc.ended, add_zero] at hheld
    simp only [PoolState.setWorker, ← Multiset.coe_add, h.returned, hheld,
      Multiset.coe_singleton]
    ac_rfl
  · exact h.workersExcl.stay (by rw [hpc]; rfl)
  · refine (Function.forall_update_iff _ fun _ x => WorkerPc.Ok s x).mpr
      ⟨fun j' hj' => ?_, fun v _ => h.workerOk v⟩
    have hok := h.workerOk w j' (by rw [hpc]; exact hj')
    rw [hpc] at hok
    exact hok

/-- The end of the loop body; `mem` and `owner` are those after the `free`, if
    there is one. -/
theorem PoolInv.finish (h : PoolInv s queued) {j : Job} (hpc : s.workers w = .returned j)
    (mem : Addr → Option (List UInt8)) (owner : Addr → Option Nat)
    (hkeep : ∀ fresh j', j'.id ≠ j.id → Copy s.owner s.mem fresh j' →
      Copy owner mem fresh j') :
    PoolInv { s.setWorker w .top with
      mem := mem, owner := owner, finished := s.finished ++ [j]
      freed := s.freed ++ [j].filter fun j => j.block.isSome } queued := by
  have hj : j ∈ (s.workers w).running := by
    rw [hpc]
    exact Multiset.mem_singleton_self j
  rcases h.id_ne hj with ⟨hcallers, hqueued, hworkers⟩
  have hmove : ∀ items : WorkerPc → Multiset Job, items (.returned j) = {j} → items .top = 0 →
      ∀ xs : List Job, (xs : Multiset Job) = held items s.workers + s.finished →
        (xs : Multiset Job) = held items (Function.update s.workers w .top) +
          (s.finished ++ [j] : List Job) := by
    intro items hjob htop xs hxs
    have hheld := held_update items s.workers w .top
    rw [hpc, hjob, htop, add_zero] at hheld
    rw [hxs, ← hheld, ← Multiset.coe_add, Multiset.coe_singleton]
    ac_rfl
  refine { h with
    account := hmove _ rfl rfl _ h.account, count := ?_, called := hmove _ rfl rfl _ h.called,
    returned := hmove _ rfl rfl _ h.returned, freed := ?_, workersExcl := ?_, callerOk := ?_,
    queuedOk := ?_, workerOk := ?_ }
  · exact h.count.trans (congrArg _ (owed_setWorker (by rw [hpc]; rfl)).symm)
  · simp only [h.freed, List.filter_append]
  · exact h.workersExcl.stay (by rw [hpc]; rfl)
  · intro p j' hj'
    rcases h.callerOk p j' hj' with ⟨hlt, hnew, hcopy⟩
    exact ⟨hlt, hnew, hkeep _ _ (hcallers p j' hj') hcopy⟩
  · exact fun j' hj' => hkeep _ _ (hqueued j' hj') (h.queuedOk j' hj')
  · refine (Function.forall_update_iff _ fun _ x => WorkerPc.Ok _ x).mpr
      ⟨fun j' hj' => absurd hj' (Multiset.notMem_zero j'), ?_⟩
    intro v hv j' hj'
    exact hkeep _ _ (hworkers v hv j' hj') (h.workerOk v j' hj')

/-- Every step of a worker keeps the invariant. -/
theorem poolInv_workerStep (h : PoolInv s queued) {e : WorkerEvent} {t : PoolState n}
    (hstep : workerStep s w e = some t) : ∃ queued', PoolInv t queued' := by
  cases e with
  | lock =>
      simp only [workerStep] at hstep
      split at hstep
      · rename_i hpc hfree
        cases hstep
        exact ⟨queued, h.workerLock (Or.inl hpc) hfree⟩
      · rename_i hpc hfree
        cases hstep
        exact ⟨queued, h.workerLock (Or.inr hpc) hfree⟩
      · cases hstep
  | deQueue =>
      simp only [workerStep] at hstep
      split at hstep
      · rename_i hpc
        rcases queued with _ | ⟨j, queued⟩
        · simp only [deTaskFromQueue, deFromQueue_nil h.holds] at hstep
          cases hstep
          exact ⟨[], h.wait hpc⟩
        · rcases deFromQueue_cons h.holds true with ⟨heap, node, heq, hholds, -, -⟩
          simp only [deTaskFromQueue, heq, if_true] at hstep
          cases hstep
          exact ⟨queued, h.deQueue hpc hholds⟩
      · cases hstep
  | wake =>
      simp only [workerStep] at hstep
      split at hstep
      · rename_i hpc
        cases hstep
        exact ⟨queued, h.wake hpc⟩
      · cases hstep
  | count =>
      simp only [workerStep] at hstep
      split at hstep
      · rename_i hpc
        cases hstep
        exact ⟨queued, h.workerCount hpc⟩
      · cases hstep
  | unlock =>
      simp only [workerStep] at hstep
      split at hstep
      · rename_i hpc
        cases hstep
        exact ⟨queued, h.workerUnlock hpc⟩
      · cases hstep
  | call =>
      simp only [workerStep] at hstep
      split at hstep
      · rename_i hpc
        cases hstep
        exact ⟨queued, h.call hpc⟩
      · cases hstep
  | write bytes =>
      simp only [workerStep] at hstep
      split at hstep
      · rename_i hpc
        rcases Option.map_eq_some_iff.mp hstep with ⟨a, ha, rfl⟩
        exact ⟨queued, h.write hpc ha bytes⟩
      · cases hstep
  | ret =>
      simp only [workerStep] at hstep
      split at hstep
      · rename_i hpc
        cases hstep
        exact ⟨queued, h.ret hpc⟩
      · cases hstep
  | release =>
      simp only [workerStep] at hstep
      split at hstep
      · rename_i j hpc
        split at hstep
        · rename_i hblock
          cases hstep
          have hfinish := h.finish hpc s.mem s.owner fun _ _ _ hc => hc
          simp only [List.filter_cons, hblock, Option.isSome_none, Bool.false_eq_true, if_false,
            List.filter_nil, List.append_nil] at hfinish
          exact ⟨queued, hfinish⟩
        · rename_i a hblock
          cases hstep
          have hj : j ∈ (s.workers w).running := by
            rw [hpc]
            exact Multiset.mem_singleton_self j
          rcases h.workerOk w j hj a hblock with ⟨howner, hmem, -⟩
          have hfault : (s.fault || (s.mem a).isNone) = s.fault := by
            rcases hm : s.mem a with _ | bytes
            · exact absurd hm hmem
            · simp
          have hfinish := h.finish hpc (Function.update s.mem a none)
            (Function.update s.owner a none) fun _ j' hne hc => hc.of_ne hne howner fun b hb =>
              ⟨Function.update_of_ne hb _ _, Function.update_of_ne hb _ _⟩
          simp only [List.filter_cons, hblock, Option.isSome_some, if_true, List.filter_nil]
            at hfinish
          rw [hfault]
          exact ⟨queued, hfinish⟩
      · cases hstep

end Worker

/-! ## 5. Runs -/

/-- What happens to memory that is not a copy of the pool does not concern it. -/
theorem PoolInv.env {s : PoolState n} {queued : List Job} (h : PoolInv s queued) {a : Addr}
    (ha : s.mem a = none ∨ s.owner a = none) (bytes : Option (List UInt8)) :
    PoolInv (s.setMem a bytes) queued := by
  have hothers : ∀ fresh j, Copy s.owner s.mem fresh j →
      Copy s.owner (Function.update s.mem a bytes) fresh j := by
    intro fresh j hc
    refine hc.congr (fun hf => hf) fun b howner hmem => ⟨rfl, Function.update_of_ne ?_ _ _⟩
    intro heq
    subst heq
    rcases ha with ha | ha
    · exact hmem ha
    · rw [ha] at howner
      cases howner
  refine { h with callerOk := ?_, queuedOk := ?_, workerOk := ?_ }
  · intro p j hj
    rcases h.callerOk p j hj with ⟨hlt, hnew, hcopy⟩
    exact ⟨hlt, hnew, hothers _ _ hcopy⟩
  · exact fun j hj => hothers _ _ (h.queuedOk j hj)
  · exact fun w j hj => hothers _ _ (h.workerOk w j hj)

theorem poolInv_step (s : PoolState n) (e : PoolEvent n) (t : PoolState n)
    (hs : ∃ queued, PoolInv s queued) (hstep : poolStep s e = some t) :
    ∃ queued, PoolInv t queued := by
  obtain ⟨queued, h⟩ := hs
  cases e with
  | caller p e => exact poolInv_callerStep h hstep
  | worker w e => exact poolInv_workerStep h hstep
  | env e =>
      refine ⟨queued, ?_⟩
      cases e with
      | alloc a bytes =>
          simp only [poolStep, envStep, Option.ite_none_right_eq_some, Option.some.injEq] at hstep
          rcases hstep with ⟨hfree, rfl⟩
          exact h.env (Or.inl hfree) _
      | write a bytes =>
          simp only [poolStep, envStep, Option.ite_none_right_eq_some, Option.some.injEq] at hstep
          rcases hstep with ⟨⟨-, howner⟩, rfl⟩
          exact h.env (Or.inr howner) _
      | free a =>
          simp only [poolStep, envStep, Option.ite_none_right_eq_some, Option.some.injEq] at hstep
          rcases hstep with ⟨⟨-, howner⟩, rfl⟩
          exact h.env (Or.inr howner) _

theorem newPool_inv (queue : Addr) (mem : Addr → Option (List UInt8)) :
    PoolInv (newPool n queue mem) [] where
  sound := rfl
  holds := ⟨[], initListHead_circular _ _, rfl⟩
  nodup := List.nodup_nil
  order := rfl
  account := by simp [newPool, held, WorkerPc.running]
  count := rfl
  called := by simp [newPool, held, WorkerPc.started]
  returned := by simp [newPool, held, WorkerPc.ended]
  seen := by rintro c ⟨⟩
  freed := rfl
  workersExcl := fun w => by simp [newPool, WorkerPc.inside]
  callersExcl := fun p => by simp [newPool, CallerPc.inside]
  idLt := by rintro j ⟨⟩
  pendingInj := by rintro p p' j j' ⟨⟩
  callerOk := by rintro p j ⟨⟩
  queuedOk := by rintro j ⟨⟩
  workerOk := by rintro w j ⟨⟩

/-- In every state of every run of a pool the accounts are in order. -/
theorem thread_pool_exactly_once (n : Nat) (queue : Addr) (mem : Addr → Option (List UInt8))
    (evs : List (PoolEvent n)) :
    Always poolStep (fun s => ∃ queued, PoolOk s queued) (newPool n queue mem) evs :=
  (always_of_invariant poolInv_step ⟨[], newPool_inv queue mem⟩ evs).mono
    fun _ ⟨queued, h⟩ => ⟨queued, h.ok⟩

end SocketPractice.Socket
