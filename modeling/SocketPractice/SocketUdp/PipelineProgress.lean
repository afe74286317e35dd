import SocketPractice.Lib.Accounts
import SocketPractice.Lib.Threads
import SocketPractice.SocketUdp.PipelineMoves

/-!
# Messages get through the threads

While nothing is reported to `ServerEpollThread`, the threads find something to do in a
bounded number of their steps, in whatever order they take them: every other step is a look
into an empty queue.  And when all that they can do is to look into empty queues, each
message that entered was handed to one task, in the order of the calls, and every handler
has returned.

A `recvfrom` returns, with a datagram or without one.  That a worker which waits is woken
for a task is proved of the pool itself.
-/

namespace SocketPractice.SocketUdp

open Lib.Accounts Lib.Links Lib.Runs Lib.Threads Common
open Lib.Memory (Store)

/-! ## 1. What is left to do -/

/-- The steps of the threads themselves: no event is reported. -/
def PipeLabel.Work : PipeLabel → Prop
  | .epoll (.copy _ _ _) => False
  | _ => True

/-- The thread finds its queue empty. -/
def findsEmpty (s : PipeState) : PipeLabel → Bool
  | .mover (.receive queue) =>
      match deSrvMsgQueue s.msgQueue queue true with
      | some (_, .QUEUE_EMPTY, _) => true
      | _ => false
  | .worker _ .take =>
      match takeTask s.pool with
      | some (_, none) => true
      | _ => false
  | _ => false

/-- How many steps this is that find something to do. -/
def finds (s : PipeState) (l : PipeLabel) : Nat := if findsEmpty s l then 0 else 1

/-- The steps that a call of the handler leads to.  `PorcessUdpMsg` may put a message into
    the queue, and six more steps take that to its end. -/
def Handler.rank : Handler → Nat
  | .ProcessStdin => 9
  | .PorcessUdpMsg => 9
  | .SrvMsgProcessTask => 2

def WorkerPc.rank : WorkerPc → Nat
  | .waiting => 0
  | .called task _ => task.Handler.rank
  | .receiving => 8
  | .enqueueing _ => 7
  | .freeing _ _ => 1

def MoverPc.rank : MoverPc → Nat
  | .receiving => 0
  | .copying => 5
  | .adding _ => 4

def EpollPc.rank : EpollPc → Nat
  | .waiting => 0
  | .adding handler _ => handler.rank + 2

/-- What there is to do for the tasks in the pool. -/
def tasksRank : List Task → Nat
  | [] => 0
  | task :: tasks => task.Handler.rank + 1 + tasksRank tasks

/-- The workers from `limit` on wait. -/
def toDo (limit : Nat) (s : PipeState) (tasks : List Task) (queued : Nat) : Nat :=
  s.epoll.rank + s.mover.rank + (∑ w ∈ Finset.range limit, (s.workers w).rank) +
    tasksRank tasks + 6 * queued

/-- The messages for which there is a task in the pool. -/
def msgTasks (tasks : List Task) : Nat :=
  tasks.countP fun task => task.Handler = .SrvMsgProcessTask

def MoverPc.inHand : MoverPc → Nat
  | .receiving => 0
  | .copying => 1
  | .adding _ => 1

/-- Where the messages are that entered. -/
def Counts (s : PipeState) (tasks : List Task) (queued : Nat) : Prop :=
  s.entered.length = s.handed.length + msgTasks tasks + s.mover.inHand + queued

section Left

variable {s t : PipeState} {own : Addr → Owner} {jobs : List Job} {hand queued : List LcMsg}

@[simp] theorem tasksRank_append (tasks : List Task) (task : Task) :
    tasksRank (tasks ++ [task]) = tasksRank tasks + (task.Handler.rank + 1) := by
  induction tasks with
  | nil => exact Nat.add_comm _ _
  | cons task' tasks ih =>
      simp only [List.cons_append, tasksRank, ih]
      omega

@[simp] theorem msgTasks_append (tasks : List Task) (task : Task) :
    msgTasks (tasks ++ [task]) =
      msgTasks tasks + if task.Handler = .SrvMsgProcessTask then 1 else 0 := by
  simp [msgTasks, List.countP_append, List.countP_singleton]

@[simp] theorem msgTasks_cons (task : Task) (tasks : List Task) :
    msgTasks (task :: tasks) =
      msgTasks tasks + if task.Handler = .SrvMsgProcessTask then 1 else 0 := by
  simp [msgTasks, List.countP_cons]

theorem length_handOver (pool : ThreadPool) (w : Nat) (task : Task) :
    (handOver pool w task).length = if task.Handler = .SrvMsgProcessTask then 1 else 0 := by
  unfold handOver
  split <;> rfl

theorem length_msgs (jobs : List Job) : (msgs jobs).length = msgTasks (jobs.map Job.task) := by
  induction jobs with
  | nil => rfl
  | cons j jobs ih =>
      have hsplit : msgs (j :: jobs) = msgs [j] ++ msgs jobs := msgs_append [j] jobs
      rw [hsplit, msgs_singleton, List.length_append, ih, List.map_cons, msgTasks_cons,
        Nat.add_comm]
      congr 1
      cases hc : j.content with
      | fd fd => simp [Job.msg, hc, Job.task, Job.handler_ne hc]
      | lcMsg m => simp [Job.msg, hc, Job.task, j.fits.mpr ⟨m, hc⟩]

theorem MoverInv.length_hand {args : Store Arg} {msgBuf : LcMsg} {pc : MoverPc}
    (h : MoverInv args own msgBuf pc hand) : hand.length = pc.inHand := by
  cases pc with
  | receiving => rw [show hand = [] from h]; rfl
  | copying => rw [show hand = [msgBuf] from h]; rfl
  | adding tmp =>
      obtain ⟨m, rfl, -⟩ := h
      rfl

theorem PipeInv.counts (h : PipeInv s own jobs hand queued) :
    Counts s (jobs.map Job.task) queued.length := by
  have horder := congrArg List.length h.order
  simp only [List.length_append, List.length_map] at horder
  rw [Counts, horder, length_msgs, h.mover.length_hand]
  omega

/-! ## 2. The steps -/

/-- Worker `w` moves to `pc`. -/
theorem sum_setWorker {limit w before after : Nat} {pc : WorkerPc} (hw : w < limit)
    (hbefore : (s.workers w).rank = before) (hafter : pc.rank = after) :
    ∑ w' ∈ Finset.range limit, (Function.update s.workers w pc w').rank + before =
      ∑ w' ∈ Finset.range limit, (s.workers w').rank + after := by
  rw [← hbefore, ← hafter]
  exact sum_update WorkerPc.rank s.workers (Finset.mem_range.mpr hw) pc

/-- A step of a thread does one thing of those that are left, or finds its queue empty. -/
theorem toDo_moves {limit : Nat} {tasks tasks' : List Task} {q q' : Nat} {l : PipeLabel}
    (hmove : Moves s tasks l t tasks') (hl : l.Work) (hw : ∀ w e, l = .worker w e → w < limit)
    (hcount : Counts s tasks q) (hcount' : Counts t tasks' q')
    (hempty : t.mover = .receiving → ∀ queue, l = .mover (.receive queue) →
      findsEmpty s l = true)
    (htake : tasks = [] → ∀ w, l = .worker w .take → findsEmpty s l = true) :
    finds s l + toDo limit t tasks' q' ≤ toDo limit s tasks q := by
  unfold finds
  unfold Counts at hcount hcount'
  unfold toDo
  cases hmove with
  | epollCopy hpc hhandler hfresh => exact hl.elim
  | @epollAdd handler tmp taskNode pool hpc hargs hheap =>
      simp only [hpc, EpollPc.rank, findsEmpty, Bool.false_eq_true, if_false, tasksRank_append,
        msgTasks_append] at hcount hcount' ⊢
      split at hcount' <;> omega
  | @moverReceive queue msgQueue msgBuf pc hpc hpc' hheap =>
      cases pc with
      | receiving =>
          rw [hempty rfl queue rfl]
          simp only [hpc, MoverPc.rank, MoverPc.inHand, if_true] at hcount hcount' ⊢
          omega
      | copying =>
          simp only [hpc, MoverPc.rank, MoverPc.inHand] at hcount hcount' ⊢
          split <;> omega
      | adding tmp => exact absurd rfl (hpc' tmp)
  | moverCopy hpc hfresh =>
      simp only [hpc, MoverPc.rank, MoverPc.inHand, findsEmpty, Bool.false_eq_true, if_false]
        at hcount hcount' ⊢
      omega
  | moverAdd hpc hargs hheap =>
      simp only [hpc, MoverPc.rank, MoverPc.inHand, findsEmpty, Bool.false_eq_true, if_false,
        tasksRank_append, msgTasks_append, Handler.rank, if_true] at hcount hcount' ⊢
      omega
  | idle hpc htasks =>
      rw [htake htasks _ rfl]
      simp only [if_true]
      omega
  | @take w task tasks'' pool hpc htasks hargs hheap =>
      subst htasks
      have hafter : (WorkerPc.called task s.handed.length).rank = task.Handler.rank := rfl
      have hsum := sum_setWorker (hw w _ rfl) (show (s.workers w).rank = 0 by rw [hpc]; rfl) hafter
      simp only [PipeState.setWorker, List.length_append, length_handOver, msgTasks_cons,
        tasksRank] at hcount hcount' ⊢
      split <;> omega
  | @startRead w n task a v pc hpc harg hcontent hpc' =>
      have hafter : pc.rank ≤ 8 := by
        rcases hpc' with ⟨-, rfl⟩ | ⟨-, rfl⟩ <;> simp [WorkerPc.rank]
      have hbefore : (s.workers w).rank = 9 := by
        rw [hpc]
        rcases hpc' with ⟨hhandler, -⟩ | ⟨hhandler, -⟩ <;>
          simp [WorkerPc.rank, hhandler, Handler.rank]
      have hsum := sum_setWorker (hw w _ rfl) hbefore (rfl : pc.rank = pc.rank)
      simp only [PipeState.setWorker, findsEmpty, Bool.false_eq_true, if_false]
        at hcount hcount' ⊢
      omega
  | @startMsg w n task a m hpc hhandler harg hcontent =>
      have hbefore : (s.workers w).rank = 2 := by simp [hpc, WorkerPc.rank, hhandler, Handler.rank]
      generalize hpc' : (if IsDataMsg m ∧ LcMsg.destEndID m = SETVER_ENDID then WorkerPc.waiting
        else .freeing (some a) n) = pc at hcount' ⊢
      have hafter : pc.rank ≤ 1 := by
        rw [← hpc']
        split <;> simp [WorkerPc.rank]
      have hsum := sum_setWorker (hw w _ rfl) hbefore (rfl : pc.rank = pc.rank)
      simp only [PipeState.setWorker, findsEmpty, Bool.false_eq_true, if_false]
        at hcount hcount' ⊢
      omega
  | @recv w ret pc hpc hpc' =>
      have hafter : pc.rank ≤ 7 := by
        rcases hpc' with rfl | ⟨m, rfl⟩ <;> simp [WorkerPc.rank]
      have hsum := sum_setWorker (hw w _ rfl) (show (s.workers w).rank = 8 by rw [hpc]; rfl)
        (rfl : pc.rank = pc.rank)
      simp only [PipeState.setWorker, findsEmpty, Bool.false_eq_true, if_false]
        at hcount hcount' ⊢
      omega
  | @enqueue w rxBuf queue node msgQueue hpc hheap =>
      have hafter : WorkerPc.waiting.rank = 0 := rfl
      have hsum := sum_setWorker (hw w _ rfl) (show (s.workers w).rank = 7 by rw [hpc]; rfl) hafter
      simp only [PipeState.setWorker, findsEmpty, Bool.false_eq_true, if_false,
        List.length_append, List.length_singleton] at hcount hcount' ⊢
      omega
  | @free w n a v hpc hcontent =>
      have hafter : WorkerPc.waiting.rank = 0 := rfl
      have hsum := sum_setWorker (hw w _ rfl) (show (s.workers w).rank = 1 by rw [hpc]; rfl) hafter
      simp only [PipeState.setWorker, findsEmpty, Bool.false_eq_true, if_false]
        at hcount hcount' ⊢
      omega

/-- The queues and the store of blocks use finitely many addresses. -/
structure Finite (s : PipeState) : Prop where
  msgQueue : Store.Bounded s.msgQueue.heap
  pool : Store.Bounded s.pool.heap
  args : Store.Bounded s.pool.args

theorem Finite.moves {tasks tasks' : List Task} {l : PipeLabel} (h : Finite s)
    (hmove : Moves s tasks l t tasks') : Finite t := by
  cases hmove with
  | epollCopy hpc hhandler hfresh => exact ⟨h.msgQueue, h.pool, h.args.update _ _⟩
  | epollAdd hpc hargs hheap => exact ⟨h.msgQueue, hheap h.pool, by rw [hargs]; exact h.args⟩
  | moverReceive hpc hpc' hheap => exact ⟨hheap h.msgQueue, h.pool, h.args⟩
  | moverCopy hpc hfresh => exact ⟨h.msgQueue, h.pool, h.args.update _ _⟩
  | moverAdd hpc hargs hheap => exact ⟨h.msgQueue, hheap h.pool, by rw [hargs]; exact h.args⟩
  | idle hpc htasks => exact h
  | take hpc htasks hargs hheap =>
      exact ⟨h.msgQueue, hheap h.pool, by
        simp only [PipeState.setWorker, hargs]
        exact h.args⟩
  | startRead hpc harg hcontent hpc' => exact ⟨h.msgQueue, h.pool, h.args.update _ _⟩
  | startMsg hpc hhandler harg hcontent => exact ⟨h.msgQueue, h.pool, h.args⟩
  | recv hpc hpc' => exact ⟨h.msgQueue, h.pool, h.args⟩
  | enqueue hpc hheap => exact ⟨hheap h.msgQueue, h.pool, h.args⟩
  | free hpc hcontent => exact ⟨h.msgQueue, h.pool, h.args.update _ _⟩

/-- A worker moves only in its own steps. -/
theorem Moves.others {tasks tasks' : List Task} {l : PipeLabel} {w : Nat}
    (hmove : Moves s tasks l t tasks') (hw : ∀ e, l ≠ .worker w e) :
    t.workers w = s.workers w := by
  have hne : ∀ {w' : Nat} {e : WorkerLabel}, l = .worker w' e → w ≠ w' := by
    rintro w' e rfl rfl
    exact hw e rfl
  cases hmove with
  | take => exact Function.update_of_ne (hne rfl) _ _
  | startRead => exact Function.update_of_ne (hne rfl) _ _
  | startMsg => exact Function.update_of_ne (hne rfl) _ _
  | recv => exact Function.update_of_ne (hne rfl) _ _
  | enqueue => exact Function.update_of_ne (hne rfl) _ _
  | free => exact Function.update_of_ne (hne rfl) _ _
  | _ => rfl

/-- `SrvMsgProcessThread` goes round its loop only if the queue is empty. -/
theorem receive_findsEmpty (h : PipeInv s own jobs hand queued) {queue : Addr}
    (hstep : moverStep s (.receive queue) = some t) (hstay : t.mover = .receiving) :
    findsEmpty s (.mover (.receive queue)) = true := by
  cases queued with
  | nil =>
      obtain ⟨msgQueue, hde, -⟩ := deSrvMsgQueue_nil h.queue queue
      simp [findsEmpty, hde]
  | cons m queued =>
      obtain ⟨msgQueue, hde, -⟩ := deSrvMsgQueue_cons h.queue queue
      cases hpc : s.mover with
      | receiving =>
          simp only [moverStep, hpc, hde, PipeState.orFault, Option.some.injEq] at hstep
          rw [if_neg (by simp)] at hstep
          rw [← hstep] at hstay
          cases hstay
      | copying => simp [moverStep, hpc] at hstep
      | adding tmp => simp [moverStep, hpc] at hstep

/-- The workers with something to do are below the limit, and `m` is what there is to do. -/
def Left (limit m : Nat) (s : PipeState) : Prop :=
  ∃ own jobs hand queued, PipeInv s own jobs hand queued ∧ Finite s ∧
    (∀ w, limit ≤ w → s.workers w = .waiting) ∧ toDo limit s (jobs.map Job.task) queued.length = m

/-- Workers that wait have nothing to do. -/
theorem Left.extend {limit limit' m : Nat} (h : Left limit m s) (hle : limit ≤ limit') :
    Left limit' m s := by
  obtain ⟨own, jobs, hand, queued, hinv, hfinite, hwait, htodo⟩ := h
  refine ⟨own, jobs, hand, queued, hinv, hfinite, fun w hw => hwait w (Nat.le_trans hle hw), ?_⟩
  have hsum : ∑ w ∈ Finset.range limit, (s.workers w).rank =
      ∑ w ∈ Finset.range limit', (s.workers w).rank := by
    apply Finset.sum_subset (Finset.range_mono hle)
    intro w _ hw
    rw [hwait w (by simpa using hw)]
    rfl
  rw [← htodo, toDo, toDo, hsum]

theorem left_step {limit m : Nat} {l : PipeLabel} (h : Left limit m s)
    (hstep : pipeStep s l = some t) :
    ∃ limit' m', Left limit' m' t ∧
      (l.Work → finds s l + m' ≤ m) := by
  -- the worker that takes the step, if one does, comes below the limit
  obtain ⟨limit', hle, hw⟩ : ∃ limit', limit ≤ limit' ∧ ∀ w e, l = .worker w e → w < limit' := by
    cases l with
    | worker w e =>
        refine ⟨max limit (w + 1), Nat.le_max_left _ _, ?_⟩
        rintro w' e' ⟨⟩
        exact Nat.le_max_right _ _
    | epoll e => exact ⟨limit, Nat.le_refl _, fun w e h => by cases h⟩
    | mover e => exact ⟨limit, Nat.le_refl _, fun w e h => by cases h⟩
  obtain ⟨own, jobs, hand, queued, hinv, hfinite, hwait, rfl⟩ := h.extend hle
  obtain ⟨tasks, hmove, hqueued⟩ := pipeStep_moves hinv hstep
  obtain ⟨own', jobs', hand', queued', hinv'⟩ := pipeStep_good ⟨own, jobs, hand, queued, hinv⟩ hstep
  obtain rfl : tasks = jobs'.map Job.task := hqueued.unique hinv'.pool.queued
  refine ⟨limit', _, ⟨own', jobs', hand', queued', hinv', hfinite.moves hmove, ?_, rfl⟩, ?_⟩
  · intro w hle'
    rw [hmove.others fun e he => Nat.not_lt_of_le hle' (hw w e he)]
    exact hwait w hle'
  · intro hl
    apply toDo_moves hmove hl hw hinv.counts hinv'.counts
    · rintro hstay queue rfl
      simp only [pipeStep, hinv.ok, Bool.false_eq_true, if_false] at hstep
      exact receive_findsEmpty hinv hstep hstay
    · rintro hnil w rfl
      have htake := takeTask_nil (hnil ▸ hinv.pool.queued)
      simp [findsEmpty, htake]

/-! ## 3. When nothing can go on -/

/-- All that the threads can do is to look into empty queues. -/
def AtRest (s : PipeState) : Prop :=
  ∀ l t, PipeLabel.Work l → pipeStep s l = some t → findsEmpty s l = true

/-- Each message that entered was handed to one task, in the order of the calls, and all
    handlers have returned. -/
structure AllHanded (s : PipeState) : Prop where
  epoll : s.epoll = .waiting
  mover : s.mover = .receiving
  workers : ∀ w, s.workers w = .waiting
  msgQueue : s.msgQueue.Queued []
  pool : s.pool.Queued []
  handed : s.handed.map Handed.block = s.entered.map fun m => some (.lcMsg m)

theorem AtRest.not_step (hrest : AtRest s) {l : PipeLabel} (hl : l.Work)
    (hfound : findsEmpty s l = false) : pipeStep s l = none := by
  cases hstep : pipeStep s l with
  | none => rfl
  | some t =>
      rw [hrest l t hl hstep] at hfound
      cases hfound

theorem AtRest.epoll (h : PipeInv s own jobs hand queued) (hf : Finite s) (hrest : AtRest s) :
    s.epoll = .waiting := by
  cases hpc : s.epoll with
  | waiting => rfl
  | adding handler tmp =>
      obtain ⟨taskNode, hfree⟩ := hf.pool.exists_free
      have hstep := hrest.not_step (l := .epoll (.add taskNode)) trivial rfl
      simp [pipeStep, h.ok, epollStep, hpc, hfree] at hstep

theorem AtRest.mover (h : PipeInv s own jobs hand queued) (hf : Finite s) (hrest : AtRest s) :
    s.mover = .receiving := by
  cases hpc : s.mover with
  | receiving => rfl
  | copying =>
      obtain ⟨tmp, hfree⟩ := hf.args.exists_free
      have hstep := hrest.not_step (l := .mover (.copy tmp)) trivial rfl
      simp [pipeStep, h.ok, moverStep, hpc, hfree] at hstep
  | adding tmp =>
      obtain ⟨taskNode, hfree⟩ := hf.pool.exists_free
      have hstep := hrest.not_step (l := .mover (.add taskNode)) trivial rfl
      simp [pipeStep, h.ok, moverStep, hpc, hfree] at hstep

theorem AtRest.workers (h : PipeInv s own jobs hand queued) (hf : Finite s) (hrest : AtRest s)
    (w : Nat) : s.workers w = .waiting := by
  cases hpc : s.workers w with
  | waiting => rfl
  | called task n =>
      have hstep := hrest.not_step (l := .worker w .start) trivial rfl
      simp [pipeStep, h.ok, workerStep, hpc] at hstep
  | receiving =>
      have hstep := hrest.not_step (l := .worker w (.recv .error)) trivial rfl
      simp [pipeStep, h.ok, workerStep, hpc] at hstep
  | enqueueing rxBuf =>
      obtain ⟨node, hfree⟩ := hf.msgQueue.exists_free
      have hstep := hrest.not_step (l := .worker w (.enqueue (node + 1) node)) trivial rfl
      simp [pipeStep, h.ok, workerStep, hpc, hfree] at hstep
  | freeing msgBuf n =>
      have hstep := hrest.not_step (l := .worker w .free) trivial rfl
      simp [pipeStep, h.ok, workerStep, hpc] at hstep

/-- A worker could take a task. -/
theorem AtRest.pool (h : PipeInv s own jobs hand queued) (hf : Finite s) (hrest : AtRest s) :
    jobs = [] := by
  cases jobs with
  | nil => rfl
  | cons j jobs =>
      obtain ⟨pool, htake, -⟩ := h.pool.take 0
      have hstep := hrest.not_step (l := .worker 0 .take) trivial (by simp [findsEmpty, htake])
      simp [pipeStep, h.ok, workerStep, hrest.workers h hf 0] at hstep

/-- `SrvMsgProcessThread` could take a message all the way to the pool. -/
theorem AtRest.msgQueue (h : PipeInv s own jobs hand queued) (hf : Finite s)
    (hrest : AtRest s) : queued = [] := by
  cases queued with
  | nil => rfl
  | cons m queued =>
      obtain rfl := hrest.pool h hf
      let srv : ServerUdp := ⟨ListTable.empty, s.msgQueue, s.pool⟩
      have hwaiting : Waiting srv.pool [] := ⟨[], h.pool.queued, List.nodup_nil, rfl⟩
      obtain ⟨tmp, htmp⟩ := hf.args.exists_free
      obtain ⟨taskNode, hnode⟩ := hf.pool.exists_free
      have hunused : Unused srv (.move 0 tmp taskNode) := ⟨htmp, hnode⟩
      obtain ⟨srv', msgBuf, hround, -⟩ :=
        srvMsgProcessThread_spec (s := srv) h.queue hwaiting hunused s.msgBuf
      have hqueue : srv.msgQueue = s.msgQueue := rfl
      have hrun := exec_mover_alone h.ok (hrest.mover h hf) hqueue rfl h.queue hunused hround
      obtain ⟨t, hstep, -⟩ := exec_cons_eq_some.mp hrun
      have hempty := hrest (.mover (.receive 0)) t trivial hstep
      obtain ⟨msgQueue, hde, -⟩ := deSrvMsgQueue_cons h.queue 0
      simp [findsEmpty, hde] at hempty

theorem AtRest.allHanded (h : PipeInv s own jobs hand queued) (hf : Finite s)
    (hrest : AtRest s) : AllHanded s := by
  have hmover := hrest.mover h hf
  obtain rfl := hrest.pool h hf
  obtain rfl := hrest.msgQueue h hf
  obtain rfl : hand = [] := h.mover_at hmover
  refine ⟨hrest.epoll h hf, hmover, hrest.workers h hf, h.queue, h.pool.queued, ?_⟩
  have horder := h.order
  simpa [msgs] using horder.symm

end Left

/-! ## 4. Runs -/

theorem newPipe_left (queue taskQueue : Addr) (msgBuf : LcMsg) :
    ∃ limit m, Left limit m (newPipe queue taskQueue msgBuf) := by
  obtain ⟨own, jobs, hand, queued, h⟩ := newPipe_good queue taskQueue msgBuf
  refine ⟨0, _, own, jobs, hand, queued, h, ⟨?_, ?_, Store.bounded_empty⟩, fun _ _ => rfl, rfl⟩
  · exact Heap.bounded_alloc_empty queue _
  · exact Heap.bounded_alloc_empty taskQueue _

/-- In every state of every run: if no event is reported any more, the threads find
    something to do in a bounded number of steps, in whatever order they take them, and
    where they find nothing more, every message has been handed to its task and all
    handlers have returned. -/
theorem pipeline_finishes {queue taskQueue : Addr} {msgBuf : LcMsg} {labels : List PipeLabel}
    {s : PipeState} (hrun : exec pipeStep (newPipe queue taskQueue msgBuf) labels = some s) :
    ∃ bound, ∀ more t, (∀ l ∈ more, PipeLabel.Work l) → exec pipeStep s more = some t →
      total pipeStep finds s more ≤ bound ∧ (AtRest t → AllHanded t) := by
  have hs : ∃ limit m, Left limit m s := by
    apply exec_invariant (I := fun s => ∃ limit m, Left limit m s) _
      (newPipe_left queue taskQueue msgBuf) hrun
    rintro s l t ⟨limit, m, hleft⟩ hstep
    obtain ⟨limit', m', hleft', -⟩ := left_step hleft hstep
    exact ⟨limit', m', hleft'⟩
  obtain ⟨limit, bound, hleft⟩ := hs
  refine ⟨bound, ?_⟩
  intro more t hmore hrest
  have hrule : ∃ m, (∃ limit, Left limit m t) ∧ total pipeStep finds s more + m ≤ bound := by
    apply total_le _ ⟨limit, hleft⟩ hmore hrest
    rintro m s l t hl ⟨limit, hleft⟩ hstep
    obtain ⟨limit', m', hleft', hle⟩ := left_step hleft hstep
    exact ⟨m', ⟨limit', hleft'⟩, hle hl⟩
  obtain ⟨m, ⟨limit', own, jobs, hand, queued, h, hf, -⟩, hle⟩ := hrule
  exact ⟨Nat.le_of_add_right_le hle, fun hstop => hstop.allHanded h hf⟩

end SocketPractice.SocketUdp
