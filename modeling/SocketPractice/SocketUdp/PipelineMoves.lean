import SocketPractice.SocketUdp.PipelineInv

/-!
# What a step of the threads can do

In a reachable state no step touches memory it must not, so each step is one of the
moves listed here, with what it does to the positions of the threads, to the tasks in
the pool and to the blocks of their arguments; and the queues use finitely many addresses
if they did before.
-/

namespace SocketPractice.SocketUdp

open Lib.Bytes Lib.Links Lib.Runs Common
open Lib.Memory (Store Ptr Owns)

/-- The moves from `s`, where the pool holds `tasks`, with the tasks it holds after. -/
inductive Moves (s : PipeState) (tasks : List Task) :
    PipeLabel → PipeState → List Task → Prop
  | epollCopy {handler : Handler} {fd : Int32} {tmp : Addr} (hpc : s.epoll = .waiting)
      (hhandler : handler ≠ .SrvMsgProcessTask) (hfresh : s.pool.args tmp = none) :
      Moves s tasks (.epoll (.copy handler fd tmp))
        { s with pool := copyArg s.pool tmp (.fd fd), epoll := .adding handler tmp } tasks
  | epollAdd {handler : Handler} {tmp taskNode : Addr} {pool : ThreadPool}
      (hpc : s.epoll = .adding handler tmp) (hargs : pool.args = s.pool.args)
      (hheap : Store.Bounded s.pool.heap → Store.Bounded pool.heap) :
      Moves s tasks (.epoll (.add taskNode)) { s with pool := pool, epoll := .waiting }
        (tasks ++ [⟨handler, some tmp⟩])
  | moverReceive {queue : Addr} {msgQueue : SrvMsgQueue} {msgBuf : LcMsg} {pc : MoverPc}
      (hpc : s.mover = .receiving) (hpc' : ∀ tmp, pc ≠ .adding tmp)
      (hheap : Store.Bounded s.msgQueue.heap → Store.Bounded msgQueue.heap) :
      Moves s tasks (.mover (.receive queue))
        { s with msgQueue := msgQueue, msgBuf := msgBuf, mover := pc } tasks
  | moverCopy {tmp : Addr} (hpc : s.mover = .copying) (hfresh : s.pool.args tmp = none) :
      Moves s tasks (.mover (.copy tmp))
        { s with pool := copyArg s.pool tmp (.lcMsg s.msgBuf), mover := .adding tmp } tasks
  | moverAdd {tmp taskNode : Addr} {pool : ThreadPool} (hpc : s.mover = .adding tmp)
      (hargs : pool.args = s.pool.args)
      (hheap : Store.Bounded s.pool.heap → Store.Bounded pool.heap) :
      Moves s tasks (.mover (.add taskNode)) { s with pool := pool, mover := .receiving }
        (tasks ++ [⟨.SrvMsgProcessTask, some tmp⟩])
  | idle {w : Nat} (hpc : s.workers w = .waiting) (htasks : tasks = []) :
      Moves s tasks (.worker w .take) s tasks
  | take {w : Nat} {task : Task} {tasks' : List Task} {pool : ThreadPool}
      (hpc : s.workers w = .waiting) (htasks : tasks = task :: tasks')
      (hargs : pool.args = s.pool.args)
      (hheap : Store.Bounded s.pool.heap → Store.Bounded pool.heap) :
      Moves s tasks (.worker w .take)
        ({ s with pool := pool, handed := s.handed ++ handOver pool w task }.setWorker w
          (.called task s.handed.length)) tasks'
  | startRead {w n : Nat} {task : Task} {a : Addr} {v : Arg} {pc : WorkerPc}
      (hpc : s.workers w = .called task n) (harg : task.arg = some a)
      (hcontent : s.pool.args a = some v)
      (hpc' : (task.Handler = .ProcessStdin ∧ pc = .waiting) ∨
        (task.Handler = .PorcessUdpMsg ∧ pc = .receiving)) :
      Moves s tasks (.worker w .start)
        ({ s with
          pool := { s.pool with args := Function.update s.pool.args a none } }.setWorker w pc)
        tasks
  | startMsg {w n : Nat} {task : Task} {a : Addr} {m : LcMsg}
      (hpc : s.workers w = .called task n) (hhandler : task.Handler = .SrvMsgProcessTask)
      (harg : task.arg = some a) (hcontent : s.pool.args a = some (.lcMsg m)) :
      Moves s tasks (.worker w .start)
        (s.setWorker w (if IsDataMsg m ∧ LcMsg.destEndID m = SETVER_ENDID then .waiting
          else .freeing (some a) n)) tasks
  | recv {w : Nat} {ret : RecvRet sizeofLcMsg} {pc : WorkerPc} (hpc : s.workers w = .receiving)
      (hpc' : pc = .waiting ∨ ∃ m, pc = .enqueueing m) :
      Moves s tasks (.worker w (.recv ret)) (s.setWorker w pc) tasks
  | enqueue {w : Nat} {rxBuf : LcMsg} {queue node : Addr} {msgQueue : SrvMsgQueue}
      (hpc : s.workers w = .enqueueing rxBuf)
      (hheap : Store.Bounded s.msgQueue.heap → Store.Bounded msgQueue.heap) :
      Moves s tasks (.worker w (.enqueue queue node))
        ({ s with msgQueue := msgQueue, entered := s.entered ++ [rxBuf] }.setWorker w .waiting)
        tasks
  | free {w n : Nat} {a : Addr} {v : Arg} (hpc : s.workers w = .freeing (some a) n)
      (hcontent : s.pool.args a = some v) :
      Moves s tasks (.worker w .free)
        ({ s with
          pool := { s.pool with args := Function.update s.pool.args a none } }.setWorker w
          .waiting) tasks

section Step

variable {s t : PipeState} {own : Addr → Owner} {jobs : List Job} {hand queued : List LcMsg}

/-- A step is a move, and the pool then holds what the move says. -/
def IsMove (s : PipeState) (jobs : List Job) (l : PipeLabel) (t : PipeState) : Prop :=
  ∃ tasks, Moves s (jobs.map Job.task) l t tasks ∧ t.pool.Queued tasks

theorem epollStep_moves {l : EpollLabel} (h : PipeInv s own jobs hand queued)
    (hstep : epollStep s l = some t) : IsMove s jobs (.epoll l) t := by
  unfold epollStep at hstep
  cases hpc : s.epoll with
  | waiting =>
      cases l with
      | copy handler fd tmp =>
          simp only [hpc, Option.ite_none_right_eq_some, Option.some.injEq] at hstep
          obtain ⟨⟨hhandler, hfresh⟩, rfl⟩ := hstep
          exact ⟨_, .epollCopy hpc hhandler hfresh, h.pool.queued⟩
      | add taskNode => simp only [hpc] at hstep; cases hstep
  | adding handler tmp =>
      cases l with
      | copy handler' fd tmp' => simp only [hpc] at hstep; cases hstep
      | add taskNode =>
          simp only [hpc, Option.ite_none_right_eq_some, Option.some.injEq] at hstep
          obtain ⟨hnode, rfl⟩ := hstep
          obtain ⟨pool, hadd, hqueued, hargs⟩ :=
            addTaskToPool_spec h.pool.queued hnode handler (some tmp)
          simp only [hadd, PipeState.orFault]
          exact ⟨_, .epollAdd hpc hargs (addTaskToPool_bounded h.pool.queued hnode hadd), hqueued⟩

theorem moverStep_moves {l : MoverLabel} (h : PipeInv s own jobs hand queued)
    (hstep : moverStep s l = some t) : IsMove s jobs (.mover l) t := by
  unfold moverStep at hstep
  cases hpc : s.mover with
  | receiving =>
      cases l with
      | receive queue =>
          simp only [hpc, Option.some.injEq] at hstep
          subst hstep
          rcases queued with _ | ⟨m, queued⟩
          · obtain ⟨msgQueue, hde, -⟩ := deSrvMsgQueue_nil h.queue queue
            simp only [hde, PipeState.orFault, if_pos]
            refine ⟨_, ?_, h.pool.queued⟩
            have hmove : Moves s (jobs.map Job.task) (.mover (.receive queue))
                { s with msgQueue := msgQueue, msgBuf := s.msgBuf, mover := .receiving }
                (jobs.map Job.task) :=
              .moverReceive hpc (by simp) (deSrvMsgQueue_bounded h.queue hde)
            simpa [hpc] using hmove
          · obtain ⟨msgQueue, hde, -⟩ := deSrvMsgQueue_cons h.queue queue
            simp only [hde, PipeState.orFault]
            rw [if_neg (by simp)]
            exact ⟨_, .moverReceive hpc (by simp) (deSrvMsgQueue_bounded h.queue hde),
              h.pool.queued⟩
      | copy tmp => simp [hpc] at hstep
      | add taskNode => simp [hpc] at hstep
  | copying =>
      cases l with
      | receive queue => simp [hpc] at hstep
      | copy tmp =>
          simp only [hpc, Option.ite_none_right_eq_some, Option.some.injEq] at hstep
          obtain ⟨hfresh, rfl⟩ := hstep
          exact ⟨_, .moverCopy hpc hfresh, h.pool.queued⟩
      | add taskNode => simp [hpc] at hstep
  | adding tmp =>
      cases l with
      | receive queue => simp [hpc] at hstep
      | copy tmp' => simp [hpc] at hstep
      | add taskNode =>
          simp only [hpc, Option.ite_none_right_eq_some, Option.some.injEq] at hstep
          obtain ⟨hnode, rfl⟩ := hstep
          obtain ⟨pool, hadd, hqueued, hargs⟩ :=
            addTaskToPool_spec h.pool.queued hnode .SrvMsgProcessTask (some tmp)
          simp only [hadd, PipeState.orFault]
          exact ⟨_, .moverAdd hpc hargs (addTaskToPool_bounded h.pool.queued hnode hadd), hqueued⟩

theorem take_moves {w : Nat} (h : PipeInv s own jobs hand queued)
    (hpc : s.workers w = .waiting) (hstep : workerStep s w .take = some t) :
    IsMove s jobs (.worker w .take) t := by
  simp only [workerStep, hpc, Option.some.injEq] at hstep
  subst hstep
  rcases jobs with _ | ⟨j, jobs⟩
  · simp only [takeTask_nil h.pool.queued, PipeState.orFault]
    exact ⟨_, .idle hpc rfl, h.pool.queued⟩
  · obtain ⟨pool, htake, hqueued, hargs⟩ := takeTask_cons h.pool.queued
    simp only [htake, PipeState.orFault]
    exact ⟨_, .take hpc rfl hargs (takeTask_bounded h.pool.queued htake), hqueued⟩

theorem start_moves {w n : Nat} {task : Task} (h : PipeInv s own jobs hand queued)
    (hpc : s.workers w = .called task n) (hstep : workerStep s w .start = some t) :
    IsMove s jobs (.worker w .start) t := by
  simp only [workerStep, hpc, Option.some.injEq] at hstep
  subst hstep
  obtain ⟨j, rfl, hblock, -⟩ := h.worker_at hpc
  have hload : s.pool.args.load j.task.arg = some j.content := hblock.2
  have hfree : s.pool.args.free j.task.arg = some (Function.update s.pool.args j.arg none) :=
    Store.free_eq hblock.2
  cases hc : j.content with
  | fd fd =>
      rw [hc] at hload
      cases hh : j.task.Handler with
      | ProcessStdin =>
          simp only [startHandler, hh, hload, hfree, PipeState.orFault, Option.bind_eq_bind,
            Option.bind_some, Option.pure_def, id_eq]
          exact ⟨_, .startRead hpc rfl hblock.2 (Or.inl ⟨hh, rfl⟩), h.pool.queued⟩
      | PorcessUdpMsg =>
          simp only [startHandler, hh, hload, hfree, PipeState.orFault, Option.bind_eq_bind,
            Option.bind_some, Option.pure_def, id_eq]
          exact ⟨_, .startRead hpc rfl hblock.2 (Or.inr ⟨hh, rfl⟩), h.pool.queued⟩
      | SrvMsgProcessTask => exact absurd hh (Job.handler_ne hc)
  | lcMsg m =>
      rw [hc] at hload
      have hh : j.task.Handler = .SrvMsgProcessTask := j.fits.mpr ⟨m, hc⟩
      have harg : j.task.arg ≠ none := by simp [Job.task]
      have hmove : Moves s (jobs.map Job.task) (.worker w .start) _ (jobs.map Job.task) :=
        .startMsg hpc hh rfl (hc ▸ hblock.2)
      simp only [startHandler, hh, if_neg harg, hload, PipeState.orFault, Option.bind_eq_bind,
        Option.bind_some, Option.pure_def, id_eq]
      by_cases hsrv : IsDataMsg m ∧ LcMsg.destEndID m = SETVER_ENDID
      · rw [if_pos hsrv] at hmove ⊢
        exact ⟨_, hmove, h.pool.queued⟩
      · rw [if_neg hsrv] at hmove ⊢
        exact ⟨_, hmove, h.pool.queued⟩

theorem recv_moves {w : Nat} {ret : RecvRet sizeofLcMsg} (h : PipeInv s own jobs hand queued)
    (hpc : s.workers w = .receiving) (hstep : workerStep s w (.recv ret) = some t) :
    IsMove s jobs (.worker w (.recv ret)) t := by
  have hcases : ∃ pc, t = s.setWorker w pc ∧ (pc = .waiting ∨ ∃ m, pc = .enqueueing m) := by
    simp only [workerStep, hpc] at hstep
    cases ret with
    | data c =>
        by_cases hdata : ¬ IsSaveCliInfo (rxBuf c) ∧ IsDataMsg (rxBuf c)
        · simp only [if_pos hdata, Option.some.injEq] at hstep
          exact ⟨_, hstep.symm, Or.inr ⟨_, rfl⟩⟩
        · simp only [if_neg hdata, Option.some.injEq] at hstep
          exact ⟨_, hstep.symm, Or.inl rfl⟩
    | error => exact ⟨_, (Option.some.inj hstep).symm, Or.inl rfl⟩
    | eof => exact ⟨_, (Option.some.inj hstep).symm, Or.inl rfl⟩
  obtain ⟨pc, rfl, hpc'⟩ := hcases
  exact ⟨_, .recv hpc hpc', h.pool.queued⟩

theorem workerStep_moves {w : Nat} {l : WorkerLabel} (h : PipeInv s own jobs hand queued)
    (hstep : workerStep s w l = some t) : IsMove s jobs (.worker w l) t := by
  cases hpc : s.workers w with
  | waiting =>
      cases l with
      | take => exact take_moves h hpc hstep
      | _ => simp [workerStep, hpc] at hstep
  | called task n =>
      cases l with
      | start => exact start_moves h hpc hstep
      | _ => simp [workerStep, hpc] at hstep
  | receiving =>
      cases l with
      | recv ret => exact recv_moves h hpc hstep
      | _ => simp [workerStep, hpc] at hstep
  | enqueueing rxBuf =>
      cases l with
      | enqueue queue node =>
          simp only [workerStep, hpc, Option.ite_none_right_eq_some, Option.some.injEq] at hstep
          obtain ⟨⟨hnode, hne⟩, rfl⟩ := hstep
          obtain ⟨msgQueue, hen, -⟩ := enSrvMsgQueue_spec h.queue hnode hne rxBuf
          simp only [hen, PipeState.orFault]
          exact ⟨_, .enqueue hpc (enSrvMsgQueue_bounded h.queue hnode hne hen), h.pool.queued⟩
      | _ => simp [workerStep, hpc] at hstep
  | freeing msgBuf n =>
      cases l with
      | free =>
          simp only [workerStep, hpc, Option.some.injEq] at hstep
          subst hstep
          obtain ⟨a, m, rfl, hblock, -⟩ := h.worker_at hpc
          simp only [Store.free_eq hblock.2, PipeState.orFault]
          exact ⟨_, .free hpc hblock.2, h.pool.queued⟩
      | _ => simp [workerStep, hpc] at hstep

theorem pipeStep_moves {l : PipeLabel} (h : PipeInv s own jobs hand queued)
    (hstep : pipeStep s l = some t) : IsMove s jobs l t := by
  simp only [pipeStep, h.ok, Bool.false_eq_true, if_false] at hstep
  cases l with
  | epoll l => exact epollStep_moves h hstep
  | mover l => exact moverStep_moves h hstep
  | worker w l => exact workerStep_moves h hstep

end Step

end SocketPractice.SocketUdp
