import SocketPractice.Socket.Forwarding

/-!
# The server gets everything done (`server_socket.c`)

Whatever the workers and the thread have in their hands, they can bring it to an end without
anything new from outside: as long as no send raises the signal, every step that they take
leaves less to do.  In the end nothing is under way, and each message that was received has
been forwarded, shown or dropped, or was in a queue that another one replaced.
-/

namespace SocketPractice.Socket.Forwarding

open Lib.Bytes Lib.Links Lib.Runs Lib.Sql Common
open Lib.Memory (Store)

/-! ## 1. Memory -/

section Memory

variable {endid : EndId} {evs : List Event} {s t : Server}

/-- A worker takes memory only at `node`. -/
theorem heap_runTask (h : HoldsQueued s) {net : Net} {node : Addr} (hfresh : s.heap node = none)
    {task : Task} (hlocked : s.queue = none → task.locked = false) :
    ∀ a, a ≠ node → ((runTask net s node task).1.heap a).isSome → (s.heap a).isSome := by
  cases task with
  | calls cs =>
      rcases cs with _ | ⟨c, cs⟩
      · exact fun a _ ha => ha
      · cases c <;> exact fun a _ ha => ha
  | enqueue pc m cs =>
      by_cases hpc : pc = .locked
      · subst hpc
        have hsome : s.queue ≠ none := by
          intro hnone
          cases hlocked hnone
        obtain ⟨heap, heq, -, hlive⟩ := enSrvMsgQueue_spec h hsome hfresh m
        have hrun : runTask net s node (.enqueue .locked m cs) =
            (enSrvMsgQueue s node m, some (.calls cs)) := rfl
        rw [hrun, heq]
        exact hlive
      · rw [runTask_enqueue net s node m cs hpc]
        obtain ⟨heap, queue, queued, abandoned, heq, -, -, -, hlive⟩ := toSection_spec h node hpc
        rw [heq]
        exact hlive
  | forward m => exact fun a _ ha => ha
  | send socket m => cases socket <;> exact fun a _ ha => ha
  | display m => exact fun a _ ha => ha
  | broadcast m => exact fun a _ ha => ha

theorem heap_msgProcess (h : HoldsQueued s) {node : Addr}
    (hlocked : s.queue = none → s.msgProcess.locked = false) :
    ∃ node', ∀ a, a ≠ node' → ((socketMsgProcessThread endid s node).heap a).isSome →
      (s.heap a).isSome := by
  rcases hpc : s.msgProcess with pc | m
  · by_cases hl : pc = .locked
    · subst hl
      obtain ⟨queue, hqueue⟩ : ∃ queue, s.queue = some queue := by
        apply Option.ne_none_iff_exists'.mp
        intro hnone
        have hnot := hlocked hnone
        rw [hpc] at hnot
        cases hnot
      rw [HoldsQueued, hqueue] at h
      rcases hqueued : s.queued with _ | ⟨m, queued⟩
      · rw [hqueued] at h
        refine ⟨node, ?_⟩
        simp only [socketMsgProcessThread, hpc, deMsgFromQueue, hqueue, deFromQueue_nil h]
        exact fun a _ ha => ha
      · rw [hqueued] at h
        obtain ⟨heap, node', hde, -, -, hlive⟩ := deFromQueue_cons h true
        refine ⟨node', ?_⟩
        simp only [socketMsgProcessThread, hpc, deMsgFromQueue, hqueue, hde, if_true]
        intro a hne ha
        rwa [hlive a hne] at ha
    · obtain ⟨heap, queue, queued, abandoned, heq, -, -, -, hlive⟩ := toSection_spec h node hl
      refine ⟨node, ?_⟩
      have hstep : (socketMsgProcessThread endid s node).heap = (toSection s node pc).1.heap := by
        cases pc with
        | locked => exact absurd rfl hl
        | _ => simp only [socketMsgProcessThread, hpc]
      rw [hstep, heq]
      exact hlive
  · refine ⟨node, ?_⟩
    simp only [socketMsgProcessThread, hpc]
    exact fun a _ ha => ha

theorem bounded_step {e : Event} (hrun : exec (step endid) start evs = some s)
    (hb : Store.Bounded s.heap) (hstep : step endid s e = some t) : Store.Bounded t.heap := by
  have hinv := run_inv hrun
  obtain ⟨-, hstep⟩ := Option.ite_none_left_eq_some.mp hstep
  cases e with
  | accept newfd =>
      simp only at hstep
      split at hstep
      · obtain rfl := Option.some.inj hstep
        exact hb
      · obtain ⟨-, hstep⟩ := Option.ite_none_left_eq_some.mp hstep
        obtain rfl := Option.some.inj hstep
        exact hb
  | recvTcp fd r =>
      simp only at hstep
      split at hstep
      · obtain ⟨-, hstep⟩ := Option.ite_none_right_eq_some.mp hstep
        obtain rfl := Option.some.inj hstep
        exact hb
      · obtain rfl := Option.some.inj hstep
        exact hb
  | recvUdp ipaddr port r =>
      obtain rfl := Option.some.inj hstep
      exact hb
  | readStdin msgPack =>
      obtain rfl := Option.some.inj hstep
      exact hb
  | work k node net =>
      obtain ⟨hfresh, hstep⟩ := Option.ite_none_right_eq_some.mp hstep
      obtain ⟨task, htask, rfl⟩ := Option.map_eq_some_iff.mp hstep
      exact @Store.Bounded.of_isSome _ _ _ node hb
        (heap_runTask (s := { s with tasks := s.tasks.eraseIdx k }) hinv.queue hfresh
          fun hnone => (hinv.created hnone).1 task (List.mem_of_getElem? htask))
  | msgProcess node =>
      obtain ⟨-, hstep⟩ := Option.ite_none_right_eq_some.mp hstep
      obtain rfl := Option.some.inj hstep
      obtain ⟨node', hlive⟩ := @heap_msgProcess endid s hinv.queue node
        fun hnone => (hinv.created hnone).2
      exact @Store.Bounded.of_isSome _ _ _ node' hb hlive

theorem run_bounded (hrun : exec (step endid) start evs = some s) : Store.Bounded s.heap := by
  have hhist : exec (step endid) start evs = some s ∧ Store.Bounded s.heap := by
    apply exec_history
      (K := fun evs s => exec (step endid) start evs = some s ∧ Store.Bounded s.heap)
      _ _ hrun
    · rintro es u e t ⟨hu, hb⟩ hstep
      refine ⟨?_, bounded_step hu hb hstep⟩
      rw [exec_append, hu]
      exact (exec_cons u e []).trans (by rw [hstep]; rfl)
    · exact ⟨rfl, 0, fun a _ => rfl⟩
  exact hhist.2

end Memory

/-! ## 2. What is left to do -/

/-- How many steps a call of the queue still takes. -/
def QueuePc.load : QueuePc → Nat
  | .test => 4
  | .initTest => 3
  | .initLocked => 2
  | .locked => 1

/-- The calls, and the way of each message that they queue. -/
def callsLoad (cs : List SrvCall) : Nat := 1 + cs.length + 13 * (cs.filterMap queuedBy).length

/-- A bound for the steps a task still takes, with those of the messages it queues. -/
def Task.load : Task → Nat
  | .calls cs => callsLoad cs
  | .enqueue pc _ cs => pc.load + 8 + callsLoad cs
  | .forward _ => 2
  | .send _ _ => 1
  | .display _ => 1
  | .broadcast _ => 1

def MsgProcessPc.load : MsgProcessPc → Nat
  | .deSrvMsgQueue pc => pc.load
  | .addTask _ => 8

def load (s : Server) : Nat :=
  (s.tasks.map Task.load).sum + s.msgProcess.load + 8 * s.queued.length

/-- The workers and the thread by themselves. -/
def Event.Internal : Event → Prop
  | .work _ _ _ => True
  | .msgProcess _ => True
  | _ => False

theorem Event.Internal.received_nil {e : Event} (h : e.Internal) : received e = [] := by
  cases e <;> first | rfl | exact h.elim

section Finish

variable {endid : EndId} {evs : List Event} {s t : Server}

theorem load_toSection (s : Server) (node : Addr) {pc : QueuePc} (hpc : pc ≠ .locked) :
    (toSection s node pc).2.load < pc.load ∧
      (toSection s node pc).1.queued.length ≤ s.queued.length := by
  cases pc with
  | test =>
      refine ⟨?_, Nat.le_refl _⟩
      simp only [toSection]
      split <;> decide
  | initTest =>
      refine ⟨?_, Nat.le_refl _⟩
      simp only [toSection]
      split <;> decide
  | initLocked => exact ⟨Nat.lt_succ_self 1, Nat.zero_le _⟩
  | locked => exact absurd rfl hpc

/-- Broadcasts over a network in which nothing is reset. -/
theorem foldRows_noNet (ps : List (EndId × Link)) {b : Broadcast} (hb : b.killed = false) :
    (foldRows (sendMsgToAllRet noNet) b (ps.map Registry.row)).killed = false := by
  induction ps generalizing b with
  | nil => exact hb
  | cons p ps ih =>
      simp only [List.map_cons, foldRows, sendMsgToAllRet_row hb]
      apply ih
      obtain ⟨e, k⟩ := p
      cases k <;> rfl

theorem killed_broadcast {P : EndId → Link → Prop} (h : Enters P s.table) (m : LcMsgPackage) :
    (traverseTableSendMsg noNet s.table m).killed = false := by
  obtain ⟨r, hr, -⟩ := h
  rw [traverseTableSendMsg, hr, rows_select_all]
  exact foldRows_noNet r.entries rfl

/-- A worker has less to do after a step, and no send raises the signal. -/
theorem runTask_load {P : EndId → Link → Prop} (htable : Enters P s.table) (h : HoldsQueued s)
    {node : Addr} (hfresh : s.heap node = none) {task : Task}
    (hlocked : s.queue = none → task.locked = false) (halive : s.killed = false) :
    ((runTask noNet s node task).2.toList.map Task.load).sum +
        8 * (runTask noNet s node task).1.queued.length < task.load + 8 * s.queued.length ∧
      (runTask noNet s node task).1.tasks = s.tasks ∧
      (runTask noNet s node task).1.msgProcess = s.msgProcess ∧
      (runTask noNet s node task).1.killed = false := by
  cases task with
  | calls cs =>
      rcases cs with _ | ⟨c, cs⟩
      · exact ⟨by simp [runTask, Task.load, callsLoad], rfl, rfl, halive⟩
      · cases hc : queuedBy c with
        | none =>
            rw [runTask_call noNet s node cs hc]
            obtain ⟨fds, table, sent, killed, heq, -⟩ := runCall_eq noNet s c
            have hkilled : (runCall noNet s c).killed = false := by
              cases c <;> first | exact halive | rfl
            rw [heq] at hkilled ⊢
            refine ⟨?_, rfl, rfl, hkilled⟩
            simp only [Option.toList_some, List.map_cons, List.map_nil, List.sum_cons,
              List.sum_nil, Task.load, callsLoad, List.length_cons, List.filterMap_cons, hc]
            omega
        | some m =>
            obtain rfl : c = .enSrvMsgQueue m := by
              cases c <;> simp_all [queuedBy]
            refine ⟨?_, rfl, rfl, halive⟩
            simp only [runTask, Option.toList_some, List.map_cons, List.map_nil, List.sum_cons,
              List.sum_nil, Task.load, callsLoad, QueuePc.load, List.length_cons,
              List.filterMap_cons, queuedBy]
            omega
  | enqueue pc m cs =>
      by_cases hpc : pc = .locked
      · subst hpc
        have hsome : s.queue ≠ none := by
          intro hnone
          cases hlocked hnone
        obtain ⟨heap, heq, -⟩ := enSrvMsgQueue_spec h hsome hfresh m
        have hrun : runTask noNet s node (.enqueue .locked m cs) =
            (enSrvMsgQueue s node m, some (.calls cs)) := rfl
        rw [hrun, heq]
        refine ⟨?_, rfl, rfl, halive⟩
        simp only [Option.toList_some, List.map_cons, List.map_nil, List.sum_cons, List.sum_nil,
          Task.load, QueuePc.load, List.length_cons]
        omega
      · rw [runTask_enqueue noNet s node m cs hpc]
        obtain ⟨hless, hle⟩ := load_toSection s node hpc
        obtain ⟨heap, queue, queued, abandoned, heq, -⟩ := toSection_spec h node hpc
        rw [heq] at hle ⊢
        refine ⟨?_, rfl, rfl, halive⟩
        simp only [Option.toList_some, List.map_cons, List.map_nil, List.sum_cons, List.sum_nil,
          Task.load] at hle ⊢
        omega
  | forward m => exact ⟨by simp [runTask, Task.load], rfl, rfl, halive⟩
  | send socket m =>
      cases socket with
      | UNSET => exact ⟨by simp [runTask, sendCliMsg, Task.load], rfl, rfl, halive⟩
      | TCP_LINK fd => exact ⟨by simp [runTask, sendCliMsg, Server.send, Task.load], rfl, rfl, rfl⟩
      | UDP_LINK addr =>
          exact ⟨by simp [runTask, sendCliMsg, Server.send, Task.load], rfl, rfl, rfl⟩
  | display m => exact ⟨by simp [runTask, Task.load], rfl, rfl, halive⟩
  | broadcast m =>
      exact ⟨by simp [runTask, Task.load], rfl, rfl, killed_broadcast htable m⟩

/-- So has the thread, as long as there is a message for it. -/
theorem msgProcess_load (h : HoldsQueued s) (hlocked : s.queue = none →
    s.msgProcess.locked = false) (node : Addr)
    (hmore : s.queued ≠ [] ∨ s.msgProcess.msgs ≠ []) :
    load (socketMsgProcessThread endid s node) < load s ∧
      (socketMsgProcessThread endid s node).killed = s.killed := by
  rcases hpc : s.msgProcess with pc | m
  · by_cases hl : pc = .locked
    · subst hl
      obtain ⟨queue, hqueue⟩ : ∃ queue, s.queue = some queue := by
        apply Option.ne_none_iff_exists'.mp
        intro hnone
        have hnot := hlocked hnone
        rw [hpc] at hnot
        cases hnot
      rw [HoldsQueued, hqueue] at h
      rcases hqueued : s.queued with _ | ⟨m, queued⟩
      · simp [hqueued, hpc, MsgProcessPc.msgs] at hmore
      · rw [hqueued] at h
        obtain ⟨heap, node', hde, -⟩ := deFromQueue_cons h true
        simp only [socketMsgProcessThread, hpc, deMsgFromQueue, hqueue, hde, if_true, load,
          MsgProcessPc.load, QueuePc.load, hqueued, List.tail_cons, List.length_cons]
        exact ⟨by omega, trivial⟩
    · have hstep : socketMsgProcessThread endid s node = { (toSection s node pc).1 with
          msgProcess := .deSrvMsgQueue (toSection s node pc).2 } := by
        cases pc with
        | locked => exact absurd rfl hl
        | _ => simp only [socketMsgProcessThread, hpc]
      obtain ⟨hless, hle⟩ := load_toSection s node hl
      obtain ⟨heap, queue, queued, abandoned, heq, -⟩ := toSection_spec h node hl
      rw [hstep]
      rw [heq] at hle ⊢
      refine ⟨?_, rfl⟩
      have hle : queued.length ≤ s.queued.length := hle
      simp only [load, MsgProcessPc.load, hpc]
      omega
  · have htask : (if m.destid = endid then Task.display m else .forward m).load ≤ 2 := by
      split <;> simp [Task.load]
    simp only [socketMsgProcessThread, hpc, load, MsgProcessPc.load, QueuePc.load,
      List.map_append, List.sum_append, List.map_cons, List.map_nil, List.sum_cons, List.sum_nil]
    exact ⟨by omega, trivial⟩

/-- The server can take a step that leaves less to do, unless nothing is under way. -/
theorem exists_step (hrun : exec (step endid) start evs = some s) (halive : s.killed = false)
    (hmore : s.tasks ≠ [] ∨ s.queued ≠ [] ∨ s.msgProcess.msgs ≠ []) :
    ∃ e t, e.Internal ∧ step endid s e = some t ∧ t.killed = false ∧ load t < load s := by
  have hinv := run_inv hrun
  obtain ⟨a, ha⟩ := (run_bounded hrun).exists_free
  have hcan : ¬ (s.faulted = true ∨ s.killed = true) := by
    simp [hinv.running, halive]
  rcases htasks : s.tasks with _ | ⟨task, tasks⟩
  · have hnext : s.queued ≠ [] ∨ s.msgProcess.msgs ≠ [] := by
      simpa [htasks] using hmore
    obtain ⟨hless, hkilled⟩ := @msgProcess_load endid s hinv.queue
      (fun hnone => (hinv.created hnone).2) a hnext
    exact ⟨.msgProcess a, _, trivial, by simp only [step, if_neg hcan, if_pos ha],
      hkilled.trans halive, hless⟩
  · obtain ⟨hless, hsame, hthread, hkilled⟩ := @runTask_load
      { s with tasks := tasks } _ hinv.table hinv.queue a ha task
      (fun hnone => (hinv.created hnone).1 task (by rw [htasks]; exact List.mem_cons_self)) halive
    let r := runTask noNet { s with tasks := tasks } a task
    have hstep : step endid s (.work 0 a noNet) =
        some { r.1 with tasks := r.1.tasks ++ r.2.toList } := by
      simp only [step, if_neg hcan, if_pos ha, htasks, List.getElem?_cons_zero, Option.map_some,
        List.eraseIdx_cons_zero, r]
    refine ⟨.work 0 a noNet, _, trivial, hstep, hkilled, ?_⟩
    have hless : (r.2.toList.map Task.load).sum + 8 * r.1.queued.length <
        task.load + 8 * s.queued.length := hless
    have hload : load s = task.load + (tasks.map Task.load).sum + s.msgProcess.load +
        8 * s.queued.length := by
      rw [load, htasks, List.map_cons, List.sum_cons]
    have hload' : load { r.1 with tasks := r.1.tasks ++ r.2.toList } =
        (tasks.map Task.load).sum + (r.2.toList.map Task.load).sum + s.msgProcess.load +
          8 * r.1.queued.length := by
      simp only [load, r, hsame, hthread, List.map_append, List.sum_append]
    omega

/-- The induction is on what is left to do. -/
theorem exists_finish (hrun : exec (step endid) start evs = some s) (halive : s.killed = false) :
    ∃ more t, (∀ e ∈ more, e.Internal) ∧ exec (step endid) s more = some t ∧
      t.killed = false ∧ t.tasks = [] ∧ t.underWay = [] := by
  induction hload : load s using Nat.strongRecOn generalizing evs s with
  | ind n ih =>
      by_cases hmore : s.tasks ≠ [] ∨ s.queued ≠ [] ∨ s.msgProcess.msgs ≠ []
      · obtain ⟨e, t, he, hstep, hkilled, hless⟩ := exists_step hrun halive hmore
        have hrun' : exec (step endid) start (evs ++ [e]) = some t := by
          rw [exec_append, hrun]
          exact (exec_cons s e []).trans (by rw [hstep]; rfl)
        obtain ⟨more, u, hinternal, hu, hend⟩ := ih _ (hload ▸ hless) hrun' hkilled rfl
        refine ⟨e :: more, u, ?_, exec_cons_eq_some.mpr ⟨t, hstep, hu⟩, hend⟩
        intro e' he'
        rcases List.mem_cons.mp he' with rfl | he'
        · exact he
        · exact hinternal e' he'
      · simp only [ne_eq, not_or, not_not] at hmore
        obtain ⟨htasks, hqueued, hhand⟩ := hmore
        refine ⟨[], s, by simp, rfl, halive, htasks, ?_⟩
        rw [Server.underWay, htasks, hqueued, hhand]
        rfl

/-! ## 3. When nothing is abandoned any more -/

/-- There is a queue, and no thread is about to put another one in its place. -/
structure Settled (s : Server) : Prop where
  queue : s.queue ≠ none
  tasks : ∀ m cs, .enqueue .initLocked m cs ∉ s.tasks
  thread : s.msgProcess ≠ .deSrvMsgQueue .initLocked

theorem toSection_settled (hqueue : s.queue ≠ none) (node : Addr) {pc : QueuePc}
    (hpc : pc ≠ .initLocked) :
    (toSection s node pc).1 = s ∧ (toSection s node pc).2 ≠ .initLocked := by
  obtain ⟨queue, hq⟩ := Option.ne_none_iff_exists'.mp hqueue
  cases pc <;> simp_all [toSection]

/-- Such a step leaves the queue where it is. -/
theorem runTask_settled (hqueue : s.queue ≠ none) (net : Net) (node : Addr) {task : Task}
    (hnot : ∀ m cs, task ≠ .enqueue .initLocked m cs) :
    ((runTask net s node task).1.queue ≠ none ∧ (runTask net s node task).1.tasks = s.tasks ∧
      (runTask net s node task).1.msgProcess = s.msgProcess ∧
      (runTask net s node task).1.abandoned = s.abandoned) ∧
    ∀ m cs, .enqueue .initLocked m cs ∉ (runTask net s node task).2.toList := by
  cases task with
  | calls cs =>
      rcases cs with _ | ⟨c, cs⟩
      · exact ⟨⟨hqueue, rfl, rfl, rfl⟩, fun _ _ hin => absurd hin List.not_mem_nil⟩
      · cases c <;> exact ⟨⟨hqueue, rfl, rfl, rfl⟩, by simp [runTask]⟩
  | enqueue pc m cs =>
      by_cases hpc : pc = .locked
      · subst hpc
        have hsame : ∃ heap queued faulted, enSrvMsgQueue s node m = { s with
            heap := heap
            queued := queued
            faulted := faulted } := by
          unfold enSrvMsgQueue
          split <;> exact ⟨_, _, _, rfl⟩
        obtain ⟨heap, queued, faulted, heq⟩ := hsame
        have hrun : runTask net s node (.enqueue .locked m cs) =
            (enSrvMsgQueue s node m, some (.calls cs)) := rfl
        rw [hrun, heq]
        exact ⟨⟨hqueue, rfl, rfl, rfl⟩, by simp⟩
      · have hinit : pc ≠ .initLocked := fun heq => hnot m cs (heq ▸ rfl)
        obtain ⟨hsame, hnext⟩ := toSection_settled hqueue node hinit
        rw [runTask_enqueue net s node m cs hpc, hsame]
        refine ⟨⟨hqueue, rfl, rfl, rfl⟩, ?_⟩
        intro m' cs' hin
        rw [Option.toList_some, List.mem_singleton] at hin
        exact hnext (Task.enqueue.inj hin).1.symm
  | forward m => exact ⟨⟨hqueue, rfl, rfl, rfl⟩, by simp [runTask]⟩
  | send socket m =>
      cases socket <;>
        exact ⟨⟨hqueue, rfl, rfl, rfl⟩, fun _ _ hin => absurd hin List.not_mem_nil⟩
  | display m => exact ⟨⟨hqueue, rfl, rfl, rfl⟩, fun _ _ hin => absurd hin List.not_mem_nil⟩
  | broadcast m => exact ⟨⟨hqueue, rfl, rfl, rfl⟩, fun _ _ hin => absurd hin List.not_mem_nil⟩

theorem msgProcess_settled (h : Settled s) (node : Addr) :
    Settled (socketMsgProcessThread endid s node) ∧
      (socketMsgProcessThread endid s node).abandoned = s.abandoned := by
  rcases hpc : s.msgProcess with pc | m
  · by_cases hl : pc = .locked
    · subst hl
      simp only [socketMsgProcessThread, hpc]
      split
      · exact ⟨⟨h.queue, h.tasks, fun heq => by cases heq⟩, rfl⟩
      · exact ⟨⟨h.queue, h.tasks, fun heq => by cases heq⟩, rfl⟩
      · exact ⟨⟨h.queue, h.tasks, fun heq => by cases heq⟩, rfl⟩
    · have hinit : pc ≠ .initLocked := by
        rintro rfl
        exact h.thread hpc
      obtain ⟨hsame, hnext⟩ := toSection_settled h.queue node hinit
      have hstep : socketMsgProcessThread endid s node = { (toSection s node pc).1 with
          msgProcess := .deSrvMsgQueue (toSection s node pc).2 } := by
        cases pc with
        | locked => exact absurd rfl hl
        | _ => simp only [socketMsgProcessThread, hpc]
      rw [hstep, hsame]
      exact ⟨⟨h.queue, h.tasks, fun heq => hnext (MsgProcessPc.deSrvMsgQueue.inj heq)⟩, rfl⟩
  · simp only [socketMsgProcessThread, hpc]
    refine ⟨⟨h.queue, ?_, fun heq => by cases heq⟩, trivial⟩
    intro m' cs hin
    rcases List.mem_append.mp hin with hin | hin
    · exact h.tasks m' cs hin
    · rw [List.mem_singleton] at hin
      split at hin <;> cases hin

theorem Settled.step (h : Settled s) {e : Event} (he : e.Internal)
    (hstep : Forwarding.step endid s e = some t) :
    Settled t ∧ t.abandoned = s.abandoned := by
  obtain ⟨-, hstep⟩ := Option.ite_none_left_eq_some.mp hstep
  cases e with
  | accept newfd => exact he.elim
  | recvTcp fd r => exact he.elim
  | recvUdp ipaddr port r => exact he.elim
  | readStdin msgPack => exact he.elim
  | work k node net =>
      obtain ⟨-, hstep⟩ := Option.ite_none_right_eq_some.mp hstep
      obtain ⟨task, htask, rfl⟩ := Option.map_eq_some_iff.mp hstep
      have hmem : task ∈ s.tasks := List.mem_of_getElem? htask
      have hnot : ∀ m cs, task ≠ .enqueue .initLocked m cs :=
        fun m cs heq => h.tasks m cs (heq ▸ hmem)
      obtain ⟨hsame, hrest⟩ :=
        @runTask_settled { s with tasks := s.tasks.eraseIdx k } h.queue net node task hnot
      obtain ⟨hq, htasks, hthread, habandoned⟩ := hsame
      refine ⟨⟨hq, ?_, ?_⟩, habandoned⟩
      · intro m cs hin
        rcases List.mem_append.mp hin with hin | hin
        · rw [htasks] at hin
          exact h.tasks m cs (List.mem_of_mem_eraseIdx hin)
        · exact hrest m cs hin
      · show _ ≠ _
        rw [hthread]
        exact h.thread
  | msgProcess node =>
      obtain ⟨-, hstep⟩ := Option.ite_none_right_eq_some.mp hstep
      obtain rfl := Option.some.inj hstep
      exact msgProcess_settled h node

theorem Settled.run (h : Settled s) {more : List Event} (hinternal : ∀ e ∈ more, e.Internal)
    (hrun : exec (Forwarding.step endid) s more = some t) : t.abandoned = s.abandoned := by
  have hboth : Settled t ∧ t.abandoned = s.abandoned := by
    refine exec_invariant_of_forall (I := fun u => Settled u ∧ u.abandoned = s.abandoned) ?_
      ⟨h, rfl⟩ hinternal hrun
    rintro u e v he ⟨hu, hsame⟩ hstep
    obtain ⟨hv, heq⟩ := hu.step he hstep
    exact ⟨hv, heq.trans hsame⟩
  exact hboth.2

end Finish

/-! ## 4. The end -/

end SocketPractice.Socket.Forwarding
