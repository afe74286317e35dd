import SocketPractice.SocketUdp.PipelineMoves

/-!
# Who frees the argument of a task

The pool does not free the arguments of its tasks, each handler frees its own.  A block
that is allocated should therefore be that of a task which is being added, queued or
run.  `SrvMsgProcessTask` returns early when a data message is for the server itself,
and the block of such a task is left without anybody who would free it.
-/

namespace SocketPractice.SocketUdp

open Lib.Bytes Lib.Links Lib.Runs Common
open Lib.Memory (Store Ptr Owns)

/-! ## 1. Blocks and tasks -/

/-- The argument that the handler a worker runs has yet to free. -/
def WorkerPc.argument : WorkerPc → Ptr
  | .called task _ => task.arg
  | .freeing msgBuf _ => msgBuf
  | _ => none

/-- A task with the block is being added, is in the pool or is run. -/
def HasTask (s : PipeState) (tasks : List Task) (a : Addr) : Prop :=
  (∃ handler, s.epoll = .adding handler a) ∨ s.mover = .adding a ∨
    (∃ task ∈ tasks, task.arg = some a) ∨ ∃ w, (s.workers w).argument = some a

/-- Every block that is allocated belongs to a task. -/
def ArgsHeld (s : PipeState) : Prop :=
  ∃ tasks, s.pool.Queued tasks ∧ ∀ a, s.pool.args a ≠ none → HasTask s tasks a

/-- No task is queued or running. -/
structure NoTask (s : PipeState) : Prop where
  epoll : s.epoll = .waiting
  mover : ∀ tmp, s.mover ≠ .adding tmp
  tasks : s.pool.Queued []
  workers : ∀ w, (s.workers w).argument = none

/-- No block is used or freed that is not allocated, every block that is allocated
    belongs to a task, and where no task is left, no block is. -/
structure FreesArgs (s : PipeState) : Prop where
  ok : s.faulted = false
  held : ArgsHeld s
  none_left : NoTask s → ∀ a, s.pool.args a = none

/-- A block is freed by the worker that runs the task with it. -/
def FreedByHandler (s : PipeState) (l : PipeLabel) : Prop :=
  ∀ t a, pipeStep s l = some t → s.pool.args a ≠ none → t.pool.args a = none →
    ∃ w l', l = .worker w l' ∧ (s.workers w).argument = some a

/-- The task that is started is not a `SrvMsgProcessTask` with a data message for the
    server itself. -/
def NotForServer (s : PipeState) : PipeLabel → Prop
  | .worker w .start =>
      match s.workers w with
      | .called task _ =>
          match task.Handler, s.pool.args.load task.arg with
          | .SrvMsgProcessTask, some (.lcMsg m) =>
              ¬ (IsDataMsg m ∧ LcMsg.destEndID m = SETVER_ENDID)
          | _, _ => True
      | _ => True
  | _ => True

instance (s : PipeState) (l : PipeLabel) : Decidable (NotForServer s l) := by
  unfold NotForServer
  split
  · split
    · split <;> infer_instance
    · infer_instance
  · infer_instance

/-! ## 2. What the moves do to the blocks -/

section Step

variable {s t : PipeState} {tasks tasks' : List Task} {a : Addr}

theorem HasTask.none_of_noTask (h : HasTask s [] a) (hnone : NoTask s) : False := by
  rcases h with ⟨handler, he⟩ | hm | ⟨task, htask, -⟩ | ⟨w, hw⟩
  · rw [hnone.epoll] at he
    cases he
  · exact hnone.mover a hm
  · cases htask
  · rw [hnone.workers w] at hw
    cases hw

theorem ArgsHeld.none_left (h : ArgsHeld s) (hnone : NoTask s) (a : Addr) :
    s.pool.args a = none := by
  obtain ⟨tasks, htasks, hheld⟩ := h
  obtain rfl := htasks.unique hnone.tasks
  apply Classical.byContradiction
  intro hlive
  exact (hheld a hlive).none_of_noTask hnone

/-- When a worker moves, the blocks it does not have keep their tasks. -/
theorem HasTask.setWorker (h : HasTask s tasks a) {w : Nat} {pc : WorkerPc}
    (hsame : (s.workers w).argument = some a → pc.argument = some a) (hepoll : t.epoll = s.epoll)
    (hmover : t.mover = s.mover) (hworkers : t.workers = Function.update s.workers w pc) :
    HasTask t tasks a := by
  rcases h with he | hm | htask | ⟨w', hw'⟩
  · exact Or.inl (by rwa [hepoll])
  · exact Or.inr (Or.inl (by rwa [hmover]))
  · exact Or.inr (Or.inr (Or.inl htask))
  · refine Or.inr (Or.inr (Or.inr ⟨w', ?_⟩))
    rw [hworkers]
    by_cases heq : w' = w
    · subst heq
      rw [Function.update_self]
      exact hsame hw'
    · rw [Function.update_of_ne heq]
      exact hw'

/-- A move that loses no argument keeps all blocks with their tasks. -/
theorem argsHeld_moves {l : PipeLabel} (hmoves : Moves s tasks l t tasks')
    (hG : NotForServer s l) (hheld : ∀ a, s.pool.args a ≠ none → HasTask s tasks a) (a : Addr)
    (hlive : t.pool.args a ≠ none) : HasTask t tasks' a := by
  cases hmoves with
  | @epollCopy handler fd tmp hpc hhandler hfresh =>
      by_cases heq : a = tmp
      · subst heq
        exact Or.inl ⟨handler, rfl⟩
      · have hold : s.pool.args a ≠ none := by simpa [copyArg, heq] using hlive
        rcases hheld a hold with ⟨handler', he⟩ | h
        · rw [hpc] at he
          cases he
        · exact Or.inr h
  | @epollAdd handler tmp taskNode pool hpc hargs =>
      have hold : s.pool.args a ≠ none := by simpa [hargs] using hlive
      rcases hheld a hold with ⟨handler', he⟩ | hm | ⟨task, htask, harg⟩ | hw
      · rw [hpc] at he
        cases he
        exact Or.inr (Or.inr (Or.inl ⟨_, List.mem_append_right _ (List.mem_singleton_self _), rfl⟩))
      · exact Or.inr (Or.inl hm)
      · exact Or.inr (Or.inr (Or.inl ⟨task, List.mem_append_left _ htask, harg⟩))
      · exact Or.inr (Or.inr (Or.inr hw))
  | moverReceive hpc hpc' =>
      rcases hheld a hlive with he | hm | h
      · exact Or.inl he
      · rw [hpc] at hm
        cases hm
      · exact Or.inr (Or.inr h)
  | @moverCopy tmp hpc hfresh =>
      by_cases heq : a = tmp
      · subst heq
        exact Or.inr (Or.inl rfl)
      · have hold : s.pool.args a ≠ none := by simpa [copyArg, heq] using hlive
        rcases hheld a hold with he | hm | h
        · exact Or.inl he
        · rw [hpc] at hm
          cases hm
        · exact Or.inr (Or.inr h)
  | @moverAdd tmp taskNode pool hpc hargs =>
      have hold : s.pool.args a ≠ none := by simpa [hargs] using hlive
      rcases hheld a hold with he | hm | ⟨task, htask, harg⟩ | hw
      · exact Or.inl he
      · rw [hpc] at hm
        cases hm
        exact Or.inr (Or.inr (Or.inl ⟨_, List.mem_append_right _ (List.mem_singleton_self _), rfl⟩))
      · exact Or.inr (Or.inr (Or.inl ⟨task, List.mem_append_left _ htask, harg⟩))
      · exact Or.inr (Or.inr (Or.inr hw))
  | idle hpc => exact hheld a hlive
  | @take w task _ pool hpc htasks hargs =>
      have hold : s.pool.args a ≠ none := by simpa [PipeState.setWorker, hargs] using hlive
      subst htasks
      rcases hheld a hold with he | hm | ⟨task', htask', harg⟩ | hw
      · exact Or.inl he
      · exact Or.inr (Or.inl hm)
      · rcases List.mem_cons.mp htask' with rfl | hmem
        · refine Or.inr (Or.inr (Or.inr ⟨w, ?_⟩))
          simpa [PipeState.setWorker, WorkerPc.argument] using harg
        · exact Or.inr (Or.inr (Or.inl ⟨task', hmem, harg⟩))
      · refine HasTask.setWorker (Or.inr (Or.inr (Or.inr hw))) ?_ rfl rfl rfl
        rw [hpc]
        rintro ⟨⟩
  | @startRead w n task b v pc hpc harg hcontent hpc' =>
      have hne : a ≠ b := by
        rintro rfl
        exact hlive (Function.update_self _ _ _)
      have hold : s.pool.args a ≠ none := by
        simpa [PipeState.setWorker, Function.update_of_ne hne] using hlive
      refine (hheld a hold).setWorker ?_ rfl rfl rfl
      rw [hpc, WorkerPc.argument, harg]
      rintro ⟨⟩
      exact absurd rfl hne
  | @startMsg w n task b m hpc hhandler harg hcontent =>
      refine (hheld a hlive).setWorker ?_ rfl rfl rfl
      have hnot : ¬ (IsDataMsg m ∧ LcMsg.destEndID m = SETVER_ENDID) := by
        have hload : s.pool.args.load task.arg = some (.lcMsg m) := by
          rw [harg]
          exact hcontent
        simpa only [NotForServer, hpc, hhandler, hload] using hG
      rw [hpc, WorkerPc.argument, harg, if_neg hnot]
      exact id
  | recv hpc hpc' =>
      refine (hheld a hlive).setWorker ?_ rfl rfl rfl
      rw [hpc]
      rintro ⟨⟩
  | enqueue hpc =>
      refine (hheld a hlive).setWorker ?_ rfl rfl rfl
      rw [hpc]
      rintro ⟨⟩
  | @free w n b v hpc hcontent =>
      have hne : a ≠ b := by
        rintro rfl
        exact hlive (Function.update_self _ _ _)
      have hold : s.pool.args a ≠ none := by
        simpa [PipeState.setWorker, Function.update_of_ne hne] using hlive
      refine (hheld a hold).setWorker ?_ rfl rfl rfl
      rw [hpc, WorkerPc.argument]
      rintro ⟨⟩
      exact absurd rfl hne

/-- A block that is freed is the argument of the task that the worker runs. -/
theorem freedByHandler_moves {l : PipeLabel} (hmoves : Moves s tasks l t tasks')
    (hlive : s.pool.args a ≠ none) (hfreed : t.pool.args a = none) :
    ∃ w l', l = .worker w l' ∧ (s.workers w).argument = some a := by
  have hfree : ∀ {b : Addr} {w : Nat} {pc : WorkerPc}, ({ s with
      pool := { s.pool with args := Function.update s.pool.args b none } }.setWorker w
      pc).pool.args a = none → a = b := by
    intro b w pc h
    apply Classical.byContradiction
    intro hne
    exact hlive (by simpa [PipeState.setWorker, Function.update_of_ne hne] using h)
  have hcopy : ∀ tmp v, (copyArg s.pool tmp v).args a ≠ none := by
    intro tmp v
    show Function.update s.pool.args tmp (some v) a ≠ none
    rw [Function.update_apply]
    split
    · simp
    · exact hlive
  cases hmoves with
  | epollCopy hpc hhandler hfresh => exact absurd hfreed (hcopy _ _)
  | epollAdd hpc hargs => exact absurd (by simpa [hargs] using hfreed) hlive
  | moverReceive hpc hpc' => exact absurd hfreed hlive
  | moverCopy hpc hfresh => exact absurd hfreed (hcopy _ _)
  | moverAdd hpc hargs => exact absurd (by simpa [hargs] using hfreed) hlive
  | idle hpc => exact absurd hfreed hlive
  | take hpc htasks hargs =>
      exact absurd (by simpa [PipeState.setWorker, hargs] using hfreed) hlive
  | startRead hpc harg hcontent hpc' =>
      obtain rfl := hfree hfreed
      exact ⟨_, _, rfl, by rw [hpc, WorkerPc.argument, harg]⟩
  | startMsg hpc hhandler harg hcontent => exact absurd hfreed hlive
  | recv hpc hpc' => exact absurd hfreed hlive
  | enqueue hpc => exact absurd hfreed hlive
  | free hpc hcontent =>
      obtain rfl := hfree hfreed
      exact ⟨_, _, rfl, by rw [hpc, WorkerPc.argument]⟩

end Step

/-! ## 3. The argument that is lost -/

section Lost

variable {s t : PipeState} {own : Addr → Owner} {jobs : List Job} {hand queued : List LcMsg}

/-- A block with a task belongs to who has the task. -/
theorem PipeInv.owner_of_hasTask (h : PipeInv s own jobs hand queued) {a : Addr}
    (hhas : HasTask s (jobs.map Job.task) a) :
    own a = .epoll ∨ own a = .mover ∨ own a = .pool ∨
      ∃ w, own a = .worker w ∧ (s.workers w).argument = some a := by
  rcases hhas with ⟨handler, he⟩ | hm | ⟨task, htask, harg⟩ | ⟨w, hw⟩
  · have hepoll := h.epoll
    rw [he] at hepoll
    obtain ⟨-, fd, hblock⟩ := hepoll
    exact Or.inl hblock.1
  · obtain ⟨m, -, hblock⟩ := h.mover_at hm
    exact Or.inr (Or.inl hblock.1)
  · obtain ⟨j, hj, rfl⟩ := List.mem_map.mp htask
    obtain rfl : j.arg = a := Option.some.inj harg
    exact Or.inr (Or.inr (Or.inl (h.pool.blocks j hj).1))
  · refine Or.inr (Or.inr (Or.inr ⟨w, ?_, hw⟩))
    cases hpc : s.workers w with
    | called task n =>
        obtain ⟨j, rfl, hblock, -⟩ := h.worker_at hpc
        rw [hpc] at hw
        obtain rfl : j.arg = a := Option.some.inj hw
        exact hblock.1
    | freeing msgBuf n =>
        obtain ⟨b, m, rfl, hblock, -⟩ := h.worker_at hpc
        rw [hpc] at hw
        obtain rfl : b = a := Option.some.inj hw
        exact hblock.1
    | _ => simp [hpc, WorkerPc.argument] at hw

/-- Nobody has the block of a message for the server when its task has returned. -/
theorem PipeInv.not_argsHeld (h : PipeInv s own jobs hand queued) {w n : Nat} {task : Task}
    {m : LcMsg} (hpc : s.workers w = .called task n)
    (hload : s.pool.args.load task.arg = some (.lcMsg m)) :
    ¬ ArgsHeld (s.setWorker w .waiting) := by
  obtain ⟨j, rfl, hblock, -⟩ := h.worker_at hpc
  rintro ⟨tasks, htasks, hheld⟩
  obtain rfl := htasks.unique h.pool.queued
  have hlive : s.pool.args j.arg ≠ none := by
    rw [hblock.2]
    simp
  have hinv : PipeInv (s.setWorker w .waiting) own jobs hand queued := h.setWorker trivial
  rcases hinv.owner_of_hasTask (hheld j.arg hlive) with ho | ho | ho | ⟨w', ho, hw'⟩
  · exact absurd (hblock.1.symm.trans ho) (by simp)
  · exact absurd (hblock.1.symm.trans ho) (by simp)
  · exact absurd (hblock.1.symm.trans ho) (by simp)
  · obtain rfl : w = w' := Owner.worker.inj (hblock.1.symm.trans ho)
    simp [PipeState.setWorker, WorkerPc.argument] at hw'

/-- A task that is started for the server leaves its worker waiting again. -/
theorem not_freesArgs_of_forServer {l : PipeLabel} (h : PipeInv s own jobs hand queued)
    (hG : ¬ NotForServer s l) (hstep : pipeStep s l = some t) : ¬ FreesArgs t := by
  obtain ⟨tasks, hmoves, -⟩ := pipeStep_moves h hstep
  cases hmoves with
  | @startMsg w n task a m hpc hhandler harg hcontent =>
      have hload : s.pool.args.load task.arg = some (.lcMsg m) := by
        rw [harg]
        exact hcontent
      have hsrv : IsDataMsg m ∧ LcMsg.destEndID m = SETVER_ENDID := by
        apply Classical.byContradiction
        intro hnot
        apply hG
        simpa only [NotForServer, hpc, hhandler, hload] using hnot
      rw [if_pos hsrv]
      intro hfrees
      exact h.not_argsHeld hpc hload hfrees.held
  | @startRead w n task a v pc hpc harg hcontent hpc' =>
      exfalso
      apply hG
      rcases hpc' with ⟨hhandler, -⟩ | ⟨hhandler, -⟩ <;> simp only [NotForServer, hpc, hhandler]
  | _ => exact absurd trivial hG

end Lost

/-! ## 4. Every run -/

/-- The invariant of the runs that lose no argument. -/
def ArgsInv (s : PipeState) : Prop := PipeGood s ∧ ArgsHeld s

theorem ArgsInv.freesArgs {s : PipeState} (h : ArgsInv s) : FreesArgs s := by
  obtain ⟨⟨own, jobs, hand, queued, hinv⟩, hheld⟩ := h
  exact ⟨hinv.ok, hheld, fun hnone => hheld.none_left hnone⟩

theorem argsInv_step (s : PipeState) (l : PipeLabel) (t : PipeState) (h : ArgsInv s)
    (hG : NotForServer s l) (hstep : pipeStep s l = some t) : ArgsInv t := by
  obtain ⟨hgood, tasks, htasks, hheld⟩ := h
  refine ⟨pipeStep_good hgood hstep, ?_⟩
  obtain ⟨own, jobs, hand, queued, hinv⟩ := hgood
  obtain rfl := htasks.unique hinv.pool.queued
  obtain ⟨tasks', hmoves, hqueued⟩ := pipeStep_moves hinv hstep
  exact ⟨tasks', hqueued, argsHeld_moves hmoves hG hheld⟩

theorem freedByHandler_of_good (s : PipeState) (l : PipeLabel) (h : PipeGood s) :
    FreedByHandler s l := by
  obtain ⟨own, jobs, hand, queued, hinv⟩ := h
  intro t a hstep hlive hfreed
  obtain ⟨tasks', hmoves, -⟩ := pipeStep_moves hinv hstep
  exact freedByHandler_moves hmoves hlive hfreed

/-- In every interleaving of the threads a block is freed by the handler of its task and
    by nobody else; and the blocks that are allocated are those of tasks that are queued
    or running, in every state, if and only if no `SrvMsgProcessTask` is run on a data
    message for the server. -/
theorem args_freed_iff_notForServer (queue taskQueue : Addr) (msgBuf : LcMsg)
    (labels : List PipeLabel) (s : PipeState)
    (hrun : exec pipeStep (newPipe queue taskQueue msgBuf) labels = some s) :
    (Always pipeStep FreesArgs (newPipe queue taskQueue msgBuf) labels ↔
      Along pipeStep NotForServer (newPipe queue taskQueue msgBuf) labels) ∧
    Along pipeStep FreedByHandler (newPipe queue taskQueue msgBuf) labels := by
  have hgood := newPipe_good queue taskQueue msgBuf
  constructor
  · apply always_iff_along_of_lost argsInv_step ?_ ?_ ?_ hrun
    · exact fun _ h => h.freesArgs
    · rintro s l t ⟨⟨own, jobs, hand, queued, hinv⟩, -⟩ hG hstep
      exact not_freesArgs_of_forServer hinv hG hstep
    · refine ⟨hgood, [], ⟨taskQueue, rfl, [], initListHead_circular _ _, rfl⟩, ?_⟩
      exact fun a ha => absurd rfl ha
  · exact along_of_invariant (fun _ _ _ hs hstep => pipeStep_good hs hstep)
      freedByHandler_of_good hgood labels

/-- A data message is received, queued, and run as a task, up to its start. -/
def dataMsgRun (destEndID : EndID) : List PipeLabel :=
  [.epoll (.copy .PorcessUdpMsg 4 10), .epoll (.add 11), .worker 0 .take, .worker 0 .start,
   .worker 0 (.recv (.data (wholeChunk (dataMsgTo destEndID)))), .worker 0 (.enqueue 1 12),
   .mover (.receive 1), .mover (.copy 13), .mover (.add 14), .worker 0 .take]

theorem argument_for_server_leaks :
    ∃ s, exec pipeStep (newPipe 1 2 (Buf.zero _)) (dataMsgRun SETVER_ENDID ++ [.worker 0 .start]) =
        some s ∧ s.pool.args 13 ≠ none ∧ ¬ FreesArgs s := by
  have hrun : (exec pipeStep (newPipe 1 2 (Buf.zero _)) (dataMsgRun SETVER_ENDID)).map
      (fun u => (decide (NotForServer u (.worker 0 .start)),
        (pipeStep u (.worker 0 .start)).map fun s => (s.pool.args 13).isSome)) =
      some (false, some true) := by
    decide +kernel
  obtain ⟨u, hu, hfacts⟩ := Option.map_eq_some_iff.mp hrun
  obtain ⟨hG, hlast⟩ := Prod.mk.inj hfacts
  obtain ⟨s, hs, hlive⟩ := Option.map_eq_some_iff.mp hlast
  obtain ⟨own, jobs, hand, queued, hinv⟩ :=
    exec_invariant (fun _ _ _ h hstep => pipeStep_good h hstep) (newPipe_good 1 2 (Buf.zero _)) hu
  refine ⟨s, exec_append_eq_some.mpr ⟨u, hu, exec_cons_eq_some.mpr ⟨s, hs, rfl⟩⟩, ?_, ?_⟩
  · exact Option.isSome_iff_ne_none.mp hlive
  · exact not_freesArgs_of_forServer hinv (of_decide_eq_false hG) hs

theorem args_freed_dataMsgRun :
    Always pipeStep FreesArgs (newPipe 1 2 (Buf.zero _))
      (dataMsgRun 7 ++ [.worker 0 .start, .worker 0 .free]) := by
  obtain ⟨s, hs⟩ : ∃ s, exec pipeStep (newPipe 1 2 (Buf.zero _))
      (dataMsgRun 7 ++ [.worker 0 .start, .worker 0 .free]) = some s := by
    apply Option.isSome_iff_exists.mp
    decide +kernel
  apply (args_freed_iff_notForServer 1 2 (Buf.zero _) _ s hs).1.mpr
  decide +kernel

end SocketPractice.SocketUdp
