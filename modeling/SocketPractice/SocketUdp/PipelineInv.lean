import SocketPractice.SocketUdp.Pipeline

/-!
# Messages pass the threads in order

Every block belongs to the thread or to the pool that has the pointer to it, and a step
frees or gives away blocks of the thread that takes it.  So the block of a task has the
message that was copied to it until its handler frees it, and the messages in the queue,
in the hand of `SrvMsgProcessThread`, in the pool and handed to tasks are together those
that entered, in the order in which they did.
-/

namespace SocketPractice.SocketUdp

open Lib.Bytes Lib.Links Lib.Runs Common
open Lib.Memory (Store Ptr Owns owns_malloc)

/-! ## 1. Who has what -/

inductive Owner where
  | epoll
  | mover
  | pool
  | worker (w : Nat)
deriving DecidableEq

/-- A task with what is in its block. -/
structure Job where
  handler : Handler
  arg : Addr
  content : Arg
  fits : handler = .SrvMsgProcessTask ↔ ∃ m, content = .lcMsg m

def Job.task (j : Job) : Task := ⟨j.handler, some j.arg⟩

def Job.msg (j : Job) : Option LcMsg :=
  match j.content with
  | .fd _ => none
  | .lcMsg m => some m

theorem Job.handler_ne {j : Job} {fd : Int32} (h : j.content = .fd fd) :
    j.handler ≠ .SrvMsgProcessTask := by
  intro heq
  obtain ⟨m, hm⟩ := j.fits.mp heq
  rw [h] at hm
  cases hm

/-- The messages in the pool, in the order of their tasks. -/
def msgs (jobs : List Job) : List LcMsg := jobs.filterMap Job.msg

theorem msgs_append (as bs : List Job) : msgs (as ++ bs) = msgs as ++ msgs bs :=
  List.filterMap_append

theorem msgs_singleton (j : Job) : msgs [j] = j.msg.toList := by
  cases hj : j.msg <;> simp [msgs, hj]

/-- The pool holds the jobs, each with its own block. -/
structure PoolInv (pool : ThreadPool) (own : Addr → Owner) (jobs : List Job) : Prop where
  queued : pool.Queued (jobs.map Job.task)
  nodup : (jobs.map Job.arg).Nodup
  blocks : ∀ j ∈ jobs, Owns pool.args own .pool j.arg j.content

def EpollInv (args : Store Arg) (own : Addr → Owner) : EpollPc → Prop
  | .waiting => True
  | .adding handler tmp =>
      handler ≠ .SrvMsgProcessTask ∧ ∃ fd, Owns args own .epoll tmp (.fd fd)

/-- `hand` is the message that `SrvMsgProcessThread` has, if it has one. -/
def MoverInv (args : Store Arg) (own : Addr → Owner) (msgBuf : LcMsg) :
    MoverPc → List LcMsg → Prop
  | .receiving, hand => hand = []
  | .copying, hand => hand = [msgBuf]
  | .adding tmp, hand => ∃ m, hand = [m] ∧ Owns args own .mover tmp (.lcMsg m)

/-- The block of a message task has what was handed over with the task. -/
def WorkerInv (args : Store Arg) (own : Addr → Owner) (handed : List Handed) (w : Nat) :
    WorkerPc → Prop
  | .called task n => ∃ j : Job, task = j.task ∧ Owns args own (.worker w) j.arg j.content ∧
      ∀ m, j.content = .lcMsg m → handed[n]? = some ⟨w, some (.lcMsg m)⟩
  | .freeing msgBuf n => ∃ a m, msgBuf = some a ∧ Owns args own (.worker w) a (.lcMsg m) ∧
      handed[n]? = some ⟨w, some (.lcMsg m)⟩
  | _ => True

/-- The messages that entered are those handed to tasks, those in the pool, that of
    `SrvMsgProcessThread` and those in the queue, in this order. -/
structure PipeInv (s : PipeState) (own : Addr → Owner) (jobs : List Job)
    (hand queued : List LcMsg) : Prop where
  ok : s.faulted = false
  queue : s.msgQueue.Queued queued
  pool : PoolInv s.pool own jobs
  epoll : EpollInv s.pool.args own s.epoll
  mover : MoverInv s.pool.args own s.msgBuf s.mover hand
  workers : ∀ w, WorkerInv s.pool.args own s.handed w (s.workers w)
  order : s.entered.map (fun m => some (Arg.lcMsg m)) =
    s.handed.map Handed.block ++
      (msgs jobs ++ hand ++ queued).map fun m => some (Arg.lcMsg m)

/-! ## 2. What is not touched -/

/-- The blocks of `o` stay as they are and remain its own. -/
def Keeps (args : Store Arg) (own : Addr → Owner) (args' : Store Arg) (own' : Addr → Owner)
    (o : Owner) : Prop :=
  ∀ a v, Owns args own o a v → Owns args' own' o a v

section Keeps

variable {args args' : Store Arg} {own own' : Addr → Owner}

theorem EpollInv.keep {pc : EpollPc} (h : EpollInv args own pc)
    (hk : Keeps args own args' own' .epoll) : EpollInv args' own' pc := by
  cases pc with
  | waiting => trivial
  | adding handler tmp =>
      obtain ⟨hh, fd, hfd⟩ := h
      exact ⟨hh, fd, hk _ _ hfd⟩

theorem MoverInv.keep {pc : MoverPc} {msgBuf : LcMsg} {hand : List LcMsg}
    (h : MoverInv args own msgBuf pc hand) (hk : Keeps args own args' own' .mover) :
    MoverInv args' own' msgBuf pc hand := by
  cases pc with
  | receiving => exact h
  | copying => exact h
  | adding tmp =>
      obtain ⟨m, hm, htmp⟩ := h
      exact ⟨m, hm, hk _ _ htmp⟩

/-- More may be handed over meanwhile. -/
theorem WorkerInv.keep {pc : WorkerPc} {handed : List Handed} {w : Nat}
    (h : WorkerInv args own handed w pc) (hk : Keeps args own args' own' (.worker w))
    (more : List Handed) : WorkerInv args' own' (handed ++ more) w pc := by
  have hlater : ∀ (n : Nat) (x : Handed), handed[n]? = some x →
      (handed ++ more)[n]? = some x := by
    intro n x hx
    rw [List.getElem?_append_left (List.getElem?_eq_some_iff.mp hx).1]
    exact hx
  cases pc with
  | called task n =>
      obtain ⟨j, htask, hblock, hmsg⟩ := h
      exact ⟨j, htask, hk _ _ hblock, fun m hm => hlater n _ (hmsg m hm)⟩
  | freeing msgBuf n =>
      obtain ⟨a, m, ha, hblock, hmsg⟩ := h
      exact ⟨a, m, ha, hk _ _ hblock, hlater n _ hmsg⟩
  | waiting => trivial
  | receiving => trivial
  | enqueueing rxBuf => trivial

/-- A new block takes nothing from anybody. -/
theorem keeps_malloc {tmp : Addr} (hfresh : args tmp = none) (v : Arg) (o o' : Owner) :
    Keeps args own (args.malloc (some tmp) v) (Function.update own tmp o') o :=
  fun _ _ h => h.malloc hfresh v o'

/-- Giving a block away or freeing it touches the giver's blocks only. -/
theorem keeps_give {a : Addr} {v : Arg} {o o' : Owner} (ha : Owns args own o' a v)
    (hne : o ≠ o') (o'' : Owner) : Keeps args own args (Function.update own a o'') o :=
  fun _ _ h => h.give (h.ne ha hne) o''

theorem keeps_free {a : Addr} {v : Arg} {o o' : Owner} (ha : Owns args own o' a v)
    (hne : o ≠ o') : Keeps args own (Function.update args a none) own o :=
  fun _ _ h => h.free (h.ne ha hne)

theorem PoolInv.keep {pool pool' : ThreadPool} {jobs : List Job} (h : PoolInv pool own jobs)
    (hqueued : pool'.Queued (jobs.map Job.task)) (hk : Keeps pool.args own pool'.args own' .pool) :
    PoolInv pool' own' jobs :=
  ⟨hqueued, h.nodup, fun j hj => hk _ _ (h.blocks j hj)⟩

end Keeps

/-! ## 3. The pool -/

section Pool

variable {pool : ThreadPool} {own : Addr → Owner} {jobs : List Job}

theorem PoolInv.copy (h : PoolInv pool own jobs) {tmp : Addr} (hfresh : pool.args tmp = none)
    (v : Arg) (o : Owner) : PoolInv (copyArg pool tmp v) (Function.update own tmp o) jobs :=
  h.keep h.queued (keeps_malloc hfresh v .pool o)

/-- The thread that adds a task gives the pool its block. -/
theorem PoolInv.add (h : PoolInv pool own jobs) {o : Owner} (j : Job)
    (hj : Owns pool.args own o j.arg j.content) (ho : Owner.pool ≠ o) {taskNode : Addr}
    (hnode : pool.heap taskNode = none) :
    ∃ pool', addTaskToPool pool taskNode j.handler (some j.arg) = some pool' ∧
      pool'.args = pool.args ∧ PoolInv pool' (Function.update own j.arg .pool) (jobs ++ [j]) := by
  obtain ⟨pool', hadd, hqueued, hargs⟩ := addTaskToPool_spec h.queued hnode j.handler (some j.arg)
  have hne : ∀ k ∈ jobs, k.arg ≠ j.arg := fun k hk => (h.blocks k hk).ne hj ho
  refine ⟨pool', hadd, hargs, ?_, ?_, ?_⟩
  · simpa [Job.task] using hqueued
  · rw [List.map_append, List.nodup_append]
    refine ⟨h.nodup, List.nodup_singleton _, ?_⟩
    rintro a ha b hb rfl
    obtain ⟨k, hk, rfl⟩ := List.mem_map.mp ha
    exact hne k hk (by simpa using hb)
  · intro k hk
    rw [hargs]
    rcases List.mem_append.mp hk with hk | hk
    · exact (h.blocks k hk).give (hne k hk) .pool
    · rw [List.mem_singleton.mp hk]
      exact hj.given .pool

/-- A worker that takes a task is given its block. -/
theorem PoolInv.take {j : Job} (h : PoolInv pool own (j :: jobs)) (w : Nat) :
    ∃ pool', takeTask pool = some (pool', some j.task) ∧ pool'.args = pool.args ∧
      Owns pool'.args (Function.update own j.arg (.worker w)) (.worker w) j.arg j.content ∧
      PoolInv pool' (Function.update own j.arg (.worker w)) jobs := by
  obtain ⟨pool', htake, hqueued, hargs⟩ := takeTask_cons h.queued
  obtain ⟨hnot, hnd⟩ := List.nodup_cons.mp h.nodup
  have hblock := h.blocks j List.mem_cons_self
  refine ⟨pool', htake, hargs, by rw [hargs]; exact hblock.given _, hqueued, hnd, ?_⟩
  intro k hk
  rw [hargs]
  have hne : k.arg ≠ j.arg := fun heq => hnot (heq ▸ List.mem_map_of_mem hk)
  exact (h.blocks k (List.mem_cons_of_mem j hk)).give hne _

/-- A worker frees a block of its own. -/
theorem PoolInv.free (h : PoolInv pool own jobs) {a : Addr} {v : Arg} {w : Nat}
    (ha : Owns pool.args own (.worker w) a v) :
    PoolInv { pool with args := Function.update pool.args a none } own jobs :=
  h.keep h.queued (keeps_free ha (by simp))

end Pool

/-! ## 4. One step of each thread -/

/-- Nothing was lost or taken twice, and every block is where it belongs. -/
def PipeGood (s : PipeState) : Prop := ∃ own jobs hand queued, PipeInv s own jobs hand queued

section Step

variable {s t : PipeState} {own : Addr → Owner} {jobs : List Job} {hand queued : List LcMsg}

theorem handed_keep {pc : WorkerPc} {args args' : Store Arg} {own' : Addr → Owner} {w : Nat}
    (h : WorkerInv args own s.handed w pc) (hk : Keeps args own args' own' (.worker w)) :
    WorkerInv args' own' s.handed w pc := by
  simpa using h.keep hk []

theorem PipeInv.mover_at (h : PipeInv s own jobs hand queued) {pc : MoverPc}
    (hpc : s.mover = pc) : MoverInv s.pool.args own s.msgBuf pc hand := hpc ▸ h.mover

theorem PipeInv.worker_at (h : PipeInv s own jobs hand queued) {w : Nat} {pc : WorkerPc}
    (hpc : s.workers w = pc) : WorkerInv s.pool.args own s.handed w pc := hpc ▸ h.workers w

theorem epollStep_good {l : EpollLabel} (h : PipeInv s own jobs hand queued)
    (hstep : epollStep s l = some t) : PipeGood t := by
  have hepoll := h.epoll
  unfold epollStep at hstep
  cases hpc : s.epoll with
  | waiting =>
      cases l with
      | copy handler fd tmp =>
          simp only [hpc, Option.ite_none_right_eq_some, Option.some.injEq] at hstep
          obtain ⟨⟨hh, hfresh⟩, rfl⟩ := hstep
          refine ⟨Function.update own tmp .epoll, jobs, hand, queued, ?_⟩
          exact
            { ok := h.ok
              queue := h.queue
              pool := h.pool.copy hfresh _ _
              epoll := ⟨hh, fd, owns_malloc _ _ _ _ _⟩
              mover := h.mover.keep (keeps_malloc hfresh _ _ _)
              workers := fun w => handed_keep (h.workers w) (keeps_malloc hfresh _ _ _)
              order := h.order }
      | add taskNode => simp only [hpc] at hstep; cases hstep
  | adding handler tmp =>
      cases l with
      | copy handler' fd tmp' => simp only [hpc] at hstep; cases hstep
      | add taskNode =>
          simp only [hpc, Option.ite_none_right_eq_some, Option.some.injEq] at hstep
          obtain ⟨hnode, rfl⟩ := hstep
          rw [hpc] at hepoll
          obtain ⟨hh, fd, hblock⟩ := hepoll
          have hfits : handler = .SrvMsgProcessTask ↔ ∃ m, Arg.fd fd = .lcMsg m :=
            iff_of_false hh (by simp)
          obtain ⟨pool, hadd, hargs, hpool⟩ :=
            h.pool.add ⟨handler, tmp, .fd fd, hfits⟩ hblock (by simp) hnode
          have hkeep : ∀ o, o ≠ .epoll →
              Keeps s.pool.args own pool.args (Function.update own tmp .pool) o := by
            intro o ho
            rw [hargs]
            exact keeps_give hblock ho .pool
          simp only [hadd, PipeState.orFault]
          refine ⟨Function.update own tmp .pool, jobs ++ [⟨handler, tmp, .fd fd, hfits⟩], hand,
            queued, ?_⟩
          exact
            { ok := h.ok
              queue := h.queue
              pool := hpool
              epoll := trivial
              mover := h.mover.keep (hkeep _ (by simp))
              workers := fun w => handed_keep (h.workers w) (hkeep _ (by simp))
              order := by simpa [msgs_append, msgs_singleton, Job.msg] using h.order }

theorem moverStep_receive (h : PipeInv s own jobs hand queued) (hpc : s.mover = .receiving)
    {queue : Addr} (hstep : moverStep s (.receive queue) = some t) : PipeGood t := by
  simp only [moverStep, hpc, Option.some.injEq] at hstep
  subst hstep
  obtain rfl : hand = [] := h.mover_at hpc
  rcases queued with _ | ⟨m, queued⟩
  · obtain ⟨msgQueue, hde, hqueue⟩ := deSrvMsgQueue_nil h.queue queue
    simp only [hde, PipeState.orFault, if_pos]
    exact ⟨own, jobs, [], [], { h with queue := hqueue, mover := rfl }⟩
  · obtain ⟨msgQueue, hde, hqueue⟩ := deSrvMsgQueue_cons h.queue queue
    simp only [hde, PipeState.orFault]
    rw [if_neg (by simp)]
    refine ⟨own, jobs, [m], queued, ?_⟩
    exact
      { h with
        queue := hqueue
        mover := rfl
        order := by simpa using h.order }

/-- The copy is made before the buffer is used again. -/
theorem moverStep_copy (h : PipeInv s own jobs hand queued) (hpc : s.mover = .copying)
    {tmp : Addr} (hstep : moverStep s (.copy tmp) = some t) : PipeGood t := by
  simp only [moverStep, hpc, Option.ite_none_right_eq_some, Option.some.injEq] at hstep
  obtain ⟨hfresh, rfl⟩ := hstep
  have hhand : hand = [s.msgBuf] := h.mover_at hpc
  refine ⟨Function.update own tmp .mover, jobs, hand, queued, ?_⟩
  exact
    { ok := h.ok
      queue := h.queue
      pool := h.pool.copy hfresh _ _
      epoll := h.epoll.keep (keeps_malloc hfresh _ _ _)
      mover := ⟨s.msgBuf, hhand, owns_malloc _ _ _ _ _⟩
      workers := fun w => handed_keep (h.workers w) (keeps_malloc hfresh _ _ _)
      order := h.order }

theorem moverStep_add (h : PipeInv s own jobs hand queued) {tmp : Addr}
    (hpc : s.mover = .adding tmp) {taskNode : Addr}
    (hstep : moverStep s (.add taskNode) = some t) : PipeGood t := by
  simp only [moverStep, hpc, Option.ite_none_right_eq_some, Option.some.injEq] at hstep
  obtain ⟨hnode, rfl⟩ := hstep
  obtain ⟨m, rfl, hblock⟩ := h.mover_at hpc
  have hfits : Handler.SrvMsgProcessTask = .SrvMsgProcessTask ↔ ∃ m', Arg.lcMsg m = .lcMsg m' :=
    iff_of_true rfl ⟨m, rfl⟩
  obtain ⟨pool, hadd, hargs, hpool⟩ :=
    h.pool.add ⟨.SrvMsgProcessTask, tmp, .lcMsg m, hfits⟩ hblock (by simp) hnode
  have hkeep : ∀ o, o ≠ .mover →
      Keeps s.pool.args own pool.args (Function.update own tmp .pool) o := by
    intro o ho
    rw [hargs]
    exact keeps_give hblock ho .pool
  simp only [hadd, PipeState.orFault]
  refine ⟨Function.update own tmp .pool, jobs ++ [⟨.SrvMsgProcessTask, tmp, .lcMsg m, hfits⟩], [],
    queued, ?_⟩
  exact
    { ok := h.ok
      queue := h.queue
      pool := hpool
      epoll := h.epoll.keep (hkeep _ (by simp))
      mover := rfl
      workers := fun w => handed_keep (h.workers w) (hkeep _ (by simp))
      order := by simpa [msgs_append, msgs_singleton, Job.msg] using h.order }

theorem moverStep_good {l : MoverLabel} (h : PipeInv s own jobs hand queued)
    (hstep : moverStep s l = some t) : PipeGood t := by
  cases hpc : s.mover with
  | receiving =>
      cases l with
      | receive queue => exact moverStep_receive h hpc hstep
      | copy tmp => simp [moverStep, hpc] at hstep
      | add taskNode => simp [moverStep, hpc] at hstep
  | copying =>
      cases l with
      | receive queue => simp [moverStep, hpc] at hstep
      | copy tmp => exact moverStep_copy h hpc hstep
      | add taskNode => simp [moverStep, hpc] at hstep
  | adding tmp =>
      cases l with
      | receive queue => simp [moverStep, hpc] at hstep
      | copy tmp' => simp [moverStep, hpc] at hstep
      | add taskNode => exact moverStep_add h hpc hstep

/-- A worker moves, and no block is touched. -/
theorem PipeInv.setWorker (h : PipeInv s own jobs hand queued) {w : Nat} {pc : WorkerPc}
    (hpc : WorkerInv s.pool.args own s.handed w pc) :
    PipeInv (s.setWorker w pc) own jobs hand queued := by
  refine { h with workers := fun w' => ?_ }
  by_cases hw : w' = w
  · subst hw
    simpa [PipeState.setWorker] using hpc
  · simpa [PipeState.setWorker, hw] using h.workers w'

/-- What is handed over with a job is the message in its block. -/
theorem handOver_task {pool : ThreadPool} {j : Job} (hj : pool.args j.arg = some j.content)
    (w : Nat) :
    handOver pool w j.task = j.msg.toList.map fun m => ⟨w, some (.lcMsg m)⟩ := by
  cases hc : j.content with
  | fd fd => simp [handOver, Job.task, Job.msg, hc, Job.handler_ne hc]
  | lcMsg m =>
      have heq : j.handler = .SrvMsgProcessTask := j.fits.mpr ⟨m, hc⟩
      simp [handOver, Job.task, Job.msg, hc, heq, hj]

theorem workerStep_take (h : PipeInv s own jobs hand queued) {w : Nat}
    (hpc : s.workers w = .waiting) (hstep : workerStep s w .take = some t) : PipeGood t := by
  simp only [workerStep, hpc, Option.some.injEq] at hstep
  subst hstep
  rcases jobs with _ | ⟨j, jobs⟩
  · simp only [takeTask_nil h.pool.queued, PipeState.orFault]
    exact ⟨own, [], hand, queued, h⟩
  · obtain ⟨pool, htake, hargs, hblock, hpool⟩ := h.pool.take w
    have hkeep : ∀ o, o ≠ .pool →
        Keeps s.pool.args own pool.args (Function.update own j.arg (.worker w)) o := by
      intro o ho
      rw [hargs]
      exact keeps_give (h.pool.blocks j List.mem_cons_self) ho _
    have hover := handOver_task hblock.2 w
    simp only [htake, PipeState.orFault, hover]
    refine ⟨Function.update own j.arg (.worker w), jobs, hand, queued, ?_⟩
    exact
      { ok := h.ok
        queue := h.queue
        pool := hpool
        epoll := h.epoll.keep (hkeep _ (by simp))
        mover := h.mover.keep (hkeep _ (by simp))
        workers := by
          intro w'
          by_cases hw : w' = w
          · subst hw
            simp only [PipeState.setWorker, Function.update_self]
            refine ⟨j, rfl, hblock, ?_⟩
            intro m hm
            simp [Job.msg, hm]
          · simp only [PipeState.setWorker, Function.update_of_ne hw]
            exact (h.workers w').keep (hkeep _ (by simp)) _
        order := by
          have hmsgs : msgs (j :: jobs) = j.msg.toList ++ msgs jobs :=
            (msgs_append [j] jobs).trans (by rw [msgs_singleton])
          have horder := h.order
          rw [hmsgs] at horder
          simpa [PipeState.setWorker, Function.comp_def] using horder }

/-- A worker frees its block and goes on to `pc`. -/
theorem PipeInv.freeBlock (h : PipeInv s own jobs hand queued) {w : Nat} {a : Addr} {v : Arg}
    (ha : Owns s.pool.args own (.worker w) a v) {pc : WorkerPc}
    (hpc : ∀ args handed, WorkerInv args own handed w pc) :
    PipeInv ({ s with
      pool := { s.pool with args := Function.update s.pool.args a none } }.setWorker w pc)
      own jobs hand queued := by
  have hkeep : ∀ o, o ≠ .worker w →
      Keeps s.pool.args own (Function.update s.pool.args a none) own o :=
    fun o ho => keeps_free ha ho
  exact
    { ok := h.ok
      queue := h.queue
      pool := h.pool.free ha
      epoll := h.epoll.keep (hkeep _ (by simp))
      mover := h.mover.keep (hkeep _ (by simp))
      workers := by
        intro w'
        by_cases hw : w' = w
        · subst hw
          simp only [PipeState.setWorker, Function.update_self]
          exact hpc _ _
        · simp only [PipeState.setWorker, Function.update_of_ne hw]
          exact handed_keep (h.workers w') (hkeep _ (by simpa using hw))
      order := h.order }

theorem workerStep_start (h : PipeInv s own jobs hand queued) {w : Nat} {task : Task} {n : Nat}
    (hpc : s.workers w = .called task n) (hstep : workerStep s w .start = some t) :
    PipeGood t := by
  simp only [workerStep, hpc, Option.some.injEq] at hstep
  subst hstep
  obtain ⟨j, rfl, hblock, hmsg⟩ := h.worker_at hpc
  have hload : s.pool.args.load j.task.arg = some j.content := hblock.2
  have hfree : s.pool.args.free j.task.arg = some (Function.update s.pool.args j.arg none) :=
    Store.free_eq hblock.2
  cases hc : j.content with
  | fd fd =>
      rw [hc] at hload
      cases hh : j.task.Handler with
      | ProcessStdin =>
          simp only [startHandler, hh, hload, hfree, PipeState.orFault, Option.bind_eq_bind,
            Option.bind_some, Option.pure_def, id_eq]
          exact ⟨own, jobs, hand, queued, h.freeBlock hblock fun _ _ => trivial⟩
      | PorcessUdpMsg =>
          simp only [startHandler, hh, hload, hfree, PipeState.orFault, Option.bind_eq_bind,
            Option.bind_some, Option.pure_def, id_eq]
          exact ⟨own, jobs, hand, queued, h.freeBlock hblock fun _ _ => trivial⟩
      | SrvMsgProcessTask => exact absurd hh (Job.handler_ne hc)
  | lcMsg m =>
      rw [hc] at hload
      have hh : j.task.Handler = .SrvMsgProcessTask := j.fits.mpr ⟨m, hc⟩
      have harg : j.task.arg ≠ none := by simp [Job.task]
      simp only [startHandler, hh, if_neg harg, hload, PipeState.orFault, Option.bind_eq_bind,
        Option.bind_some, Option.pure_def, id_eq]
      by_cases hsrv : IsDataMsg m ∧ LcMsg.destEndID m = SETVER_ENDID
      · rw [if_pos hsrv]
        exact ⟨own, jobs, hand, queued, h.setWorker trivial⟩
      · rw [if_neg hsrv]
        refine ⟨own, jobs, hand, queued, h.setWorker ⟨j.arg, m, rfl, ?_, hmsg m hc⟩⟩
        rw [← hc]
        exact hblock

theorem workerStep_recv (h : PipeInv s own jobs hand queued) {w : Nat}
    (hpc : s.workers w = .receiving) {ret : RecvRet sizeofLcMsg}
    (hstep : workerStep s w (.recv ret) = some t) : PipeGood t := by
  simp only [workerStep, hpc] at hstep
  have hmove : ∀ pc, (∀ args own handed, WorkerInv args own handed w pc) →
      PipeGood (s.setWorker w pc) :=
    fun pc hpc' => ⟨own, jobs, hand, queued, h.setWorker (hpc' _ _ _)⟩
  cases ret with
  | data c =>
      by_cases hdata : ¬ IsSaveCliInfo (rxBuf c) ∧ IsDataMsg (rxBuf c)
      · simp only [if_pos hdata, Option.some.injEq] at hstep
        exact hstep ▸ hmove _ fun _ _ _ => trivial
      · simp only [if_neg hdata, Option.some.injEq] at hstep
        exact hstep ▸ hmove _ fun _ _ _ => trivial
  | error =>
      simp only [Option.some.injEq] at hstep
      exact hstep ▸ hmove _ fun _ _ _ => trivial
  | eof =>
      simp only [Option.some.injEq] at hstep
      exact hstep ▸ hmove _ fun _ _ _ => trivial

theorem workerStep_enqueue (h : PipeInv s own jobs hand queued) {w : Nat} {rxBuf : LcMsg}
    (hpc : s.workers w = .enqueueing rxBuf) {queue node : Addr}
    (hstep : workerStep s w (.enqueue queue node) = some t) : PipeGood t := by
  simp only [workerStep, hpc, Option.ite_none_right_eq_some, Option.some.injEq] at hstep
  obtain ⟨⟨hnode, hne⟩, rfl⟩ := hstep
  obtain ⟨msgQueue, hen, hqueue⟩ := enSrvMsgQueue_spec h.queue hnode hne rxBuf
  simp only [hen, PipeState.orFault]
  have h' : PipeInv { s with msgQueue := msgQueue, entered := s.entered ++ [rxBuf] } own jobs hand
      (queued ++ [rxBuf]) :=
    { h with
      queue := hqueue
      order := by
        rw [List.map_append, h.order]
        simp }
  exact ⟨own, jobs, hand, queued ++ [rxBuf], h'.setWorker trivial⟩

theorem workerStep_free (h : PipeInv s own jobs hand queued) {w : Nat} {msgBuf : Ptr} {n : Nat}
    (hpc : s.workers w = .freeing msgBuf n) (hstep : workerStep s w .free = some t) :
    PipeGood t := by
  simp only [workerStep, hpc, Option.some.injEq] at hstep
  subst hstep
  obtain ⟨a, m, rfl, hblock, -⟩ := h.worker_at hpc
  simp only [Store.free_eq hblock.2, PipeState.orFault]
  exact ⟨own, jobs, hand, queued, h.freeBlock hblock fun _ _ => trivial⟩

theorem workerStep_good {w : Nat} {l : WorkerLabel} (h : PipeInv s own jobs hand queued)
    (hstep : workerStep s w l = some t) : PipeGood t := by
  cases hpc : s.workers w with
  | waiting =>
      cases l with
      | take => exact workerStep_take h hpc hstep
      | _ => simp [workerStep, hpc] at hstep
  | called task n =>
      cases l with
      | start => exact workerStep_start h hpc hstep
      | _ => simp [workerStep, hpc] at hstep
  | receiving =>
      cases l with
      | recv ret => exact workerStep_recv h hpc hstep
      | _ => simp [workerStep, hpc] at hstep
  | enqueueing rxBuf =>
      cases l with
      | enqueue queue node => exact workerStep_enqueue h hpc hstep
      | _ => simp [workerStep, hpc] at hstep
  | freeing msgBuf n =>
      cases l with
      | free => exact workerStep_free h hpc hstep
      | _ => simp [workerStep, hpc] at hstep

theorem pipeStep_good {l : PipeLabel} (h : PipeGood s) (hstep : pipeStep s l = some t) :
    PipeGood t := by
  obtain ⟨own, jobs, hand, queued, h⟩ := h
  simp only [pipeStep, h.ok, Bool.false_eq_true, if_false] at hstep
  cases l with
  | epoll l => exact epollStep_good h hstep
  | mover l => exact moverStep_good h hstep
  | worker w l => exact workerStep_good h hstep

end Step

/-! ## 5. Every run -/

theorem newPipe_good (queue taskQueue : Addr) (msgBuf : LcMsg) :
    PipeGood (newPipe queue taskQueue msgBuf) := by
  refine ⟨fun _ => .pool, [], [], [], ?_⟩
  exact
    { ok := rfl
      queue := ⟨[], initListHead_circular _ _, rfl⟩
      pool := ⟨⟨taskQueue, rfl, [], initListHead_circular _ _, rfl⟩, List.nodup_nil,
        fun j hj => absurd hj List.not_mem_nil⟩
      epoll := trivial
      mover := rfl
      workers := fun _ => trivial
      order := rfl }

/-- The messages of the tasks in the pool, in the order of the tasks. -/
def InPool (pool : ThreadPool) (ms : List LcMsg) : Prop :=
  ∃ jobs, pool.Queued (jobs.map Job.task) ∧ (∀ j ∈ jobs, pool.args j.arg = some j.content) ∧
    msgs jobs = ms

/-- The message that `SrvMsgProcessThread` took and has not passed on. -/
def InHand (s : PipeState) (ms : List LcMsg) : Prop :=
  match s.mover with
  | .receiving => ms = []
  | .copying => ms = [s.msgBuf]
  | .adding tmp => ∃ m, ms = [m] ∧ s.pool.args tmp = some (.lcMsg m)

/-- The argument of the `SrvMsgProcessTask` that a worker runs, and its number. -/
def WorkerPc.message : WorkerPc → Option (Ptr × Nat)
  | .called task n => if task.Handler = .SrvMsgProcessTask then some (task.arg, n) else none
  | .freeing msgBuf n => some (msgBuf, n)
  | _ => none

/-- The messages that entered, in their order, are those handed to tasks and then those
    on the way; a task that runs has the message that was handed over with it. -/
structure ExactlyOnce (s : PipeState) : Prop where
  ok : s.faulted = false
  order : ∃ pool hand queued, InPool s.pool pool ∧ InHand s hand ∧ s.msgQueue.Queued queued ∧
    s.entered.map (fun m => some (Arg.lcMsg m)) = s.handed.map Handed.block ++
      (pool ++ hand ++ queued).map fun m => some (Arg.lcMsg m)
  unchanged : ∀ w arg n, (s.workers w).message = some (arg, n) →
    ∃ m, s.handed[n]? = some ⟨w, some (.lcMsg m)⟩ ∧ s.pool.args.load arg = some (.lcMsg m)

theorem PipeInv.exactlyOnce {s : PipeState} {own : Addr → Owner} {jobs : List Job}
    {hand queued : List LcMsg} (h : PipeInv s own jobs hand queued) : ExactlyOnce s := by
  refine ⟨h.ok, ⟨msgs jobs, hand, queued, ?_, ?_, h.queue, h.order⟩, fun w arg n hw => ?_⟩
  · exact ⟨jobs, h.pool.queued, fun j hj => (h.pool.blocks j hj).2, rfl⟩
  · unfold InHand
    cases hpc : s.mover with
    | receiving => exact h.mover_at hpc
    | copying => exact h.mover_at hpc
    | adding tmp =>
        obtain ⟨m, hm, hblock⟩ := h.mover_at hpc
        exact ⟨m, hm, hblock.2⟩
  · cases hpc : s.workers w with
    | called task n' =>
        rw [hpc] at hw
        simp only [WorkerPc.message, Option.ite_none_right_eq_some, Option.some.injEq,
          Prod.mk.injEq] at hw
        obtain ⟨hh, rfl, rfl⟩ := hw
        obtain ⟨j, rfl, hblock, hmsg⟩ := h.worker_at hpc
        obtain ⟨m, hm⟩ := j.fits.mp hh
        exact ⟨m, hmsg m hm, by rw [← hm]; exact hblock.2⟩
    | freeing msgBuf n' =>
        rw [hpc] at hw
        simp only [WorkerPc.message, Option.some.injEq, Prod.mk.injEq] at hw
        obtain ⟨rfl, rfl⟩ := hw
        obtain ⟨a, m, rfl, hblock, hmsg⟩ := h.worker_at hpc
        exact ⟨m, hmsg, hblock.2⟩
    | waiting => simp [hpc, WorkerPc.message] at hw
    | receiving => simp [hpc, WorkerPc.message] at hw
    | enqueueing rxBuf => simp [hpc, WorkerPc.message] at hw

/-- In every interleaving of the threads each message that `EnSrvMsgQueue` put in is
    handed to one `SrvMsgProcessTask` or on its way to one, unchanged and in the order of
    the calls. -/
theorem server_pipeline_exactly_once (queue taskQueue : Addr) (msgBuf : LcMsg)
    (labels : List PipeLabel) :
    Always pipeStep ExactlyOnce (newPipe queue taskQueue msgBuf) labels :=
  (always_of_invariant (fun _ _ _ hs hstep => pipeStep_good hs hstep)
    (newPipe_good queue taskQueue msgBuf) labels).mono fun _ hs =>
      have ⟨_, _, _, _, h⟩ := hs
      h.exactlyOnce

end SocketPractice.SocketUdp
