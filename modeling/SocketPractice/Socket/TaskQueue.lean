import SocketPractice.Lib.Fifo
import SocketPractice.Socket.PoolDestruction

/-!
# The task queue in memory (`task_queue.c`)

A queue lives from `init_task_queue` to `destroy_task_queue`, which leaves a null pointer.
While it lives, the memory that belongs to it is one circular list: the head, and a node
for every task that has been queued and not yet taken, in the order in which they were
queued.  Each of the calls keeps that, so each of them does what a first-in first-out queue
does; and the loop that empties the queue has a round for every node and one more.

The functions that free nodes come with the list of what they hand to `free`.  Together
with what `malloc` has returned this says of every address how often it was freed.
-/

namespace SocketPractice.Socket

open Lib.Links Lib.Runs Lib.Fifo Common

/-! ## 1. The code -/

/-- `init_task_queue`, with `taskQueue` the address `malloc` returned. -/
def initTaskQueue (h : Heap Job) (taskQueue : Addr) : Heap Job := initListHead h taskQueue

def deTaskTraced (h : Heap Job) (taskQueue : Option Addr) (want : Bool) :
    Option ((Heap Job × QueueRet × Option Job) × List Addr) :=
  deFromQueueTraced h taskQueue want

def destroyTaskQueueTraced (fuel : Nat) (h : Heap Job) (taskQueue : Option Addr) :
    Option ((Heap Job × Bool) × List Addr) :=
  destroyQueueTraced (fun ret => ret = .QUEUE_SUCCESS) fuel h taskQueue

/-- Without the trace it is the function of the code. -/
theorem map_fst_destroyTaskQueueTraced (fuel : Nat) (h : Heap Job) (taskQueue : Option Addr) :
    (destroyTaskQueueTraced fuel h taskQueue).map Prod.fst = destroyTaskQueue fuel h taskQueue :=
  map_fst_destroyQueueTraced _ h taskQueue fuel

/-! ## 2. Sequences of calls -/

/-- A call, with the address `malloc` returns in it or the rounds its loop may take. -/
inductive TaskQueueCall where
  | en (task : Option Job) (node : Addr)
  | de (want : Bool)
  | destroy (fuel : Nat)

structure TaskQueueState where
  heap : Heap Job
  taskQueue : Option Addr
  results : List (QueueRet × Option Job)
  mallocs : List Addr
  frees : List Addr
  /-- Memory was accessed or freed that is not allocated. -/
  fault : Bool

/-- `en_task_to_queue` asks for a node unless a pointer is null. -/
def asksNode (taskQueue : Option Addr) (task : Option Job) : Bool :=
  taskQueue.isSome && task.isSome

/-- One call.  It is enabled when the address it was given is one `malloc` can return, and
    when its loop ends within the rounds it was given. -/
def taskQueueStep (s : TaskQueueState) : TaskQueueCall → Option TaskQueueState
  | .en task node =>
      if asksNode s.taskQueue task && (s.heap node).isSome then none
      else match enTaskToQueue s.heap node s.taskQueue task with
        | none => some { s with fault := true }
        | some (heap, ret) => some { s with
            heap := heap, results := s.results ++ [(ret, none)]
            mallocs := s.mallocs ++ if asksNode s.taskQueue task then [node] else [] }
  | .de want =>
      match deTaskTraced s.heap s.taskQueue want with
      | none => some { s with fault := true }
      | some ((heap, ret, task), freed) => some { s with
          heap := heap, results := s.results ++ [(ret, task)], frees := s.frees ++ freed }
  | .destroy fuel =>
      match destroyTaskQueueTraced fuel s.heap s.taskQueue with
      | none => some { s with fault := true }
      | some ((_, false), _) => none
      | some ((heap, true), freed) => some { s with
          heap := heap, taskQueue := none, results := s.results ++ [(.QUEUE_SUCCESS, none)]
          frees := s.frees ++ freed }

/-- The queue that `init_task_queue` makes in the memory `h₀`. -/
def newTaskQueue (h₀ : Heap Job) (taskQueue : Addr) : TaskQueueState :=
  { heap := initTaskQueue h₀ taskQueue, taskQueue := some taskQueue, results := [],
    mallocs := [taskQueue], frees := [], fault := false }

/-! ## 3. What a queue is for -/

/-- What has been queued and how much of it has been taken; nothing of a queue that has been
    destroyed. -/
abbrev AbstractQueue := Option (History Job)

/-- A call, and what it returns. -/
def AbstractQueue.call : AbstractQueue → TaskQueueCall →
    AbstractQueue × QueueRet × Option Job
  | some hist, .en (some task) _ => (some (hist.enter task), .QUEUE_SUCCESS, none)
  | some hist, .en none _ => (some hist, .QUEUE_ERROR, none)
  | some hist, .de want =>
      match hist.outstanding with
      | [] => (some hist, .QUEUE_EMPTY, none)
      | task :: _ => (some hist.leave, .QUEUE_SUCCESS, if want then some task else none)
  | none, .en _ _ => (none, .QUEUE_ERROR, none)
  | none, .de _ => (none, .QUEUE_ERROR, none)
  | _, .destroy _ => (none, .QUEUE_SUCCESS, none)

def AbstractQueue.after : AbstractQueue → List TaskQueueCall → AbstractQueue
  | queue, [] => queue
  | queue, c :: calls => AbstractQueue.after (queue.call c).1 calls

def AbstractQueue.results : AbstractQueue → List TaskQueueCall → List (QueueRet × Option Job)
  | _, [] => []
  | queue, c :: calls => (queue.call c).2 :: AbstractQueue.results (queue.call c).1 calls

/-! ## 4. The memory of a queue -/

/-- The queue is the circular list of `nodes` through its head, with the tasks `queued`; of the
    memory that is not in `h₀` this is all there is, and all else has been freed as often as
    it was allocated. -/
structure Represents (h₀ : Heap Job) (q : Addr) (s : TaskQueueState) (nodes : List Addr)
    (queued : List Job) : Prop where
  taskQueue : s.taskQueue = some q
  circular : Circular s.heap q nodes
  inverse : MutuallyInverse s.heap (q :: nodes)
  order : nodes.map s.heap.val? = queued.map some
  live : ∀ c, (s.heap c).isSome = (decide (c ∈ q :: nodes) || (h₀ c).isSome)
  own : ∀ c ∈ q :: nodes, h₀ c = none
  balance : ∀ c, s.mallocs.count c = s.frees.count c + (q :: nodes).count c

/-- Nothing is left of the queue. -/
structure Gone (h₀ : Heap Job) (s : TaskQueueState) : Prop where
  taskQueue : s.taskQueue = none
  live : ∀ c, (s.heap c).isSome = (h₀ c).isSome
  balance : ∀ c, s.mallocs.count c = s.frees.count c

/-- The state `t` after a call from `s` that has returned `result`. -/
structure Called (s : TaskQueueState) (result : QueueRet × Option Job) (t : TaskQueueState) :
    Prop where
  results : t.results = s.results ++ [result]
  fault : t.fault = s.fault

section Calls

variable {h₀ : Heap Job} {q node x : Addr} {s t : TaskQueueState} {nodes : List Addr}
  {queued : List Job} {task : Job} {want : Bool} {fuel : Nat}

theorem newTaskQueue_represents (hq : h₀ q = none) :
    Represents h₀ q (newTaskQueue h₀ q) [] [] := by
  have hc : Circular (initTaskQueue h₀ q) q [] := initListHead_circular h₀ q
  refine ⟨rfl, hc, hc.mutuallyInverse, rfl, ?_, ?_, ?_⟩
  · intro c
    by_cases hcq : c = q
    · simp [newTaskQueue, initTaskQueue, initListHead, hcq]
    · simp [newTaskQueue, initTaskQueue, initListHead, Heap.alloc_of_ne _ _ hcq, hcq]
  · intro c hc
    rwa [List.mem_singleton.mp hc]
  · intro c
    simp [newTaskQueue]

/-- A new node goes behind the others. -/
theorem Represents.en (h : Represents h₀ q s nodes queued)
    (hstep : taskQueueStep s (.en (some task) node) = some t) :
    Called s (.QUEUE_SUCCESS, none) t ∧
      Represents h₀ q t (nodes ++ [node]) (queued ++ [task]) := by
  obtain ⟨htq, hc, -, horder, hlive, hown, hbalance⟩ := h
  have hasks : asksNode s.taskQueue (some task) = true := by simp [asksNode, htq]
  have hfresh : s.heap node = none := by
    by_contra hused
    have hsome : (s.heap node).isSome := Option.isSome_iff_ne_none.mpr hused
    simp [taskQueueStep, hasks, hsome] at hstep
  obtain ⟨h', heq, hc', horder', hlive'⟩ := listAddTail_nodes hc horder hfresh task
  have hen : enTaskToQueue s.heap node s.taskQueue (some task) = some (h', .QUEUE_SUCCESS) := by
    simp [enTaskToQueue, enToQueue, htq, heq]
  simp only [taskQueueStep, hasks, hfresh, hen, Option.isSome_none, Bool.and_false,
    Bool.false_eq_true, if_false, if_true, Option.some.injEq] at hstep
  subst hstep
  have hnode : h₀ node = none := by
    have hnot := hlive node
    rw [hfresh] at hnot
    simp only [Option.isSome_none, Bool.false_eq, Bool.or_eq_false_iff] at hnot
    exact Option.isNone_iff_eq_none.mp (Option.isSome_eq_false_iff.mp hnot.2)
  refine ⟨⟨rfl, rfl⟩, htq, hc', hc'.mutuallyInverse, horder', ?_, ?_, ?_⟩
  · intro c
    have hmem : c ∈ q :: (nodes ++ [node]) ↔ c = node ∨ c ∈ q :: nodes := by
      simp only [List.mem_cons, List.mem_append, List.not_mem_nil, or_false]
      tauto
    rw [hlive' c, hlive c]
    simp only [hmem, Bool.decide_or, Bool.or_assoc]
  · intro c hc
    rcases List.mem_append.mp (show c ∈ (q :: nodes) ++ [node] from hc) with hc | hc
    · exact hown c hc
    · rwa [List.mem_singleton.mp hc]
  · intro c
    have hcount : (q :: (nodes ++ [node])).count c = (q :: nodes).count c + [node].count c := by
      rw [← List.cons_append, List.count_append]
    rw [hcount, List.count_append, hbalance c, Nat.add_assoc]

/-- Without a task nothing happens. -/
theorem Represents.en_null (h : Represents h₀ q s nodes queued)
    (hstep : taskQueueStep s (.en none node) = some t) :
    Called s (.QUEUE_ERROR, none) t ∧ Represents h₀ q t nodes queued := by
  have hen : enTaskToQueue s.heap node s.taskQueue none = some (s.heap, .QUEUE_ERROR) := by
    cases htq : s.taskQueue <;> rfl
  simp only [taskQueueStep, asksNode, hen, Option.isSome_none, Bool.and_false, Bool.false_and,
    Bool.false_eq_true, if_false, List.append_nil, Option.some.injEq] at hstep
  subst hstep
  obtain ⟨htq, hc, hinv, horder, hlive, hown, hbalance⟩ := h
  exact ⟨⟨rfl, rfl⟩, htq, hc, hinv, horder, hlive, hown, hbalance⟩

theorem Represents.de_nil (h : Represents h₀ q s [] queued)
    (hstep : taskQueueStep s (.de want) = some t) :
    Called s (.QUEUE_EMPTY, none) t ∧ Represents h₀ q t [] queued := by
  obtain ⟨htq, hc, hinv, horder, hlive, hown, hbalance⟩ := h
  have hde : deTaskTraced s.heap s.taskQueue want = some ((s.heap, .QUEUE_EMPTY, none), []) := by
    rw [deTaskTraced, htq, deFromQueueTraced_nil hc want]
  simp only [taskQueueStep, hde, List.append_nil, Option.some.injEq] at hstep
  subst hstep
  exact ⟨⟨rfl, rfl⟩, htq, hc, hinv, horder, hlive, hown, hbalance⟩

/-- The first node goes, and its task is handed out. -/
theorem Represents.de_cons (h : Represents h₀ q s (x :: nodes) (task :: queued))
    (hstep : taskQueueStep s (.de want) = some t) :
    Called s (.QUEUE_SUCCESS, if want then some task else none) t ∧
      Represents h₀ q t nodes queued := by
  obtain ⟨htq, hc, -, horder, hlive, hown, hbalance⟩ := h
  obtain ⟨hx, hrest⟩ := List.cons.inj horder
  have hitem : (if want then (s.heap.val? x).map some else some none) =
      some (if want then some task else none) := by
    cases want <;> simp [hx]
  obtain ⟨h', heq, hc', hval, hlive'⟩ := deFromQueueTraced_circular hc hitem
  have hde : deTaskTraced s.heap s.taskQueue want =
      some ((h', .QUEUE_SUCCESS, if want then some task else none), [x]) := by
    rw [deTaskTraced, htq, heq]
  simp only [taskQueueStep, hde, Option.some.injEq] at hstep
  subst hstep
  have hperm : (q :: x :: nodes).Perm (x :: q :: nodes) := List.Perm.swap x q nodes
  have hout : x ∉ q :: nodes := (List.nodup_cons.mp (hperm.nodup_iff.mp hc.nodup)).1
  have hmem : ∀ c, c ∈ q :: x :: nodes ↔ c = x ∨ c ∈ q :: nodes := by
    intro c
    rw [hperm.mem_iff, List.mem_cons]
  refine ⟨⟨rfl, rfl⟩, htq, hc', hc'.mutuallyInverse, map_val?_congr hrest hval, ?_, ?_, ?_⟩
  · intro c
    rw [hlive' c, hlive c]
    by_cases hcx : c = x
    · simp [hcx, hout, hown x ((hmem x).mpr (.inl rfl))]
    · simp [hmem c, hcx]
  · intro c hc
    exact hown c ((hmem c).mpr (.inr hc))
  · intro c
    have hcount := hperm.count_eq c
    rw [List.count_append, hbalance c, hcount, ← List.singleton_append, List.count_append]
    omega

/-- With a round for every node and one more the loop of `destroy_task_queue` ends. -/
theorem Represents.destroy (h : Represents h₀ q s nodes queued) (hfuel : nodes.length < fuel) :
    ∃ t, taskQueueStep s (.destroy fuel) = some t ∧
      destroyTaskQueue fuel s.heap s.taskQueue = some (t.heap, true) ∧
      t.frees = s.frees ++ (nodes ++ [q]) ∧ Called s (.QUEUE_SUCCESS, none) t ∧ Gone h₀ t := by
  obtain ⟨htq, hc, -, -, hlive, hown, hbalance⟩ := h
  obtain ⟨h', heq, hlive'⟩ :=
    destroyQueueTraced_circular (fun ret => ret = .QUEUE_SUCCESS) rfl rfl hc hfuel
  have hdestroy : destroyTaskQueueTraced fuel s.heap s.taskQueue =
      some ((h', true), nodes ++ [q]) := by
    rw [destroyTaskQueueTraced, htq, heq]
  refine ⟨{ s with
      heap := h', taskQueue := none, results := s.results ++ [(.QUEUE_SUCCESS, none)]
      frees := s.frees ++ (nodes ++ [q]) },
    by simp only [taskQueueStep, hdestroy], ?_, rfl, ⟨rfl, rfl⟩, rfl, ?_, ?_⟩
  · rw [← map_fst_destroyTaskQueueTraced, hdestroy]
    rfl
  · intro c
    rw [hlive' c, hlive c]
    by_cases hmem : c ∈ q :: nodes
    · simp [hmem, hown c hmem]
    · simp [hmem]
  · intro c
    have hcount := (List.perm_append_singleton q nodes).count_eq c
    rw [List.count_append, hcount]
    exact hbalance c

/-- It does not end with fewer. -/
theorem Represents.lt_of_destroy (h : Represents h₀ q s nodes queued)
    (hstep : taskQueueStep s (.destroy fuel) = some t) : nodes.length < fuel := by
  by_contra hfew
  obtain ⟨h', heq⟩ := drainQueueTraced_short (fun ret => ret = .QUEUE_SUCCESS) rfl h.circular
    (Nat.not_lt.mp hfew)
  have hdestroy : destroyTaskQueueTraced fuel s.heap s.taskQueue =
      some ((h', false), nodes.take fuel) := by
    simp [destroyTaskQueueTraced, destroyQueueTraced, h.taskQueue, heq]
  simp [taskQueueStep, hdestroy] at hstep

/-- Calls with the null pointer do nothing. -/
theorem Gone.call {c : TaskQueueCall} (h : Gone h₀ s) (hstep : taskQueueStep s c = some t) :
    Called s (AbstractQueue.call none c).2 t ∧ Gone h₀ t := by
  obtain ⟨htq, hlive, hbalance⟩ := h
  cases c with
  | en task node =>
      have hen : enTaskToQueue s.heap node none task = some (s.heap, .QUEUE_ERROR) := rfl
      simp only [taskQueueStep, asksNode, htq, hen, Option.isSome_none, Bool.false_and,
        Bool.false_eq_true, if_false, List.append_nil, Option.some.injEq] at hstep
      subst hstep
      exact ⟨⟨rfl, rfl⟩, rfl, hlive, hbalance⟩
  | de want =>
      have hde : deTaskTraced s.heap none want = some ((s.heap, .QUEUE_ERROR, none), []) := rfl
      simp only [taskQueueStep, htq, hde, List.append_nil, Option.some.injEq] at hstep
      subst hstep
      exact ⟨⟨rfl, rfl⟩, rfl, hlive, hbalance⟩
  | destroy fuel =>
      have hdestroy : destroyTaskQueueTraced fuel s.heap none = some ((s.heap, true), []) := rfl
      simp only [taskQueueStep, htq, hdestroy, List.append_nil, Option.some.injEq] at hstep
      subst hstep
      exact ⟨⟨rfl, rfl⟩, rfl, hlive, hbalance⟩

/-- The memory is that of a queue with this history. -/
def Refines (h₀ : Heap Job) (q : Addr) (s : TaskQueueState) : AbstractQueue → Prop
  | some hist => ∃ nodes, Represents h₀ q s nodes hist.outstanding
  | none => Gone h₀ s

/-- Every call does and returns what it does and returns there. -/
theorem Refines.step {queue : AbstractQueue} {c : TaskQueueCall} (h : Refines h₀ q s queue)
    (hstep : taskQueueStep s c = some t) :
    Called s (queue.call c).2 t ∧ Refines h₀ q t (queue.call c).1 := by
  rcases queue with _ | hist
  · have hgone := Gone.call h hstep
    cases c with
    | en task node => exact hgone
    | de want => exact hgone
    | destroy fuel => exact hgone
  · obtain ⟨nodes, h⟩ := h
    cases c with
    | en task node =>
        cases task with
        | none =>
            obtain ⟨hcalled, h'⟩ := h.en_null hstep
            exact ⟨hcalled, nodes, h'⟩
        | some task =>
            obtain ⟨hcalled, h'⟩ := h.en hstep
            rw [← History.outstanding_enter] at h'
            exact ⟨hcalled, nodes ++ [node], h'⟩
    | de want =>
        rcases hout : hist.outstanding with _ | ⟨task, queued⟩
        · have hcall : AbstractQueue.call (some hist) (.de want) =
              (some hist, .QUEUE_EMPTY, none) := by
            simp [AbstractQueue.call, hout]
          obtain rfl : nodes = [] := by simpa [hout] using h.order
          obtain ⟨hcalled, h'⟩ := h.de_nil hstep
          rw [hcall]
          exact ⟨hcalled, [], h'⟩
        · have hcall : AbstractQueue.call (some hist) (.de want) =
              (some hist.leave, .QUEUE_SUCCESS, if want then some task else none) := by
            simp [AbstractQueue.call, hout]
          have hleave : hist.leave.outstanding = queued := by simp [hout]
          rw [hout] at h
          rcases nodes with _ | ⟨x, nodes⟩
          · exact absurd h.order (by simp)
          · obtain ⟨hcalled, h'⟩ := h.de_cons hstep
            rw [← hleave] at h'
            rw [hcall]
            exact ⟨hcalled, nodes, h'⟩
    | destroy fuel =>
        obtain ⟨u, hrun, -, -, hcalled, hgone⟩ := h.destroy (h.lt_of_destroy hstep)
        rw [hrun] at hstep
        obtain rfl := Option.some.inj hstep
        exact ⟨hcalled, hgone⟩

/-- So does every sequence of calls. -/
theorem Refines.run {queue : AbstractQueue} {calls : List TaskQueueCall}
    (h : Refines h₀ q s queue) (hrun : exec taskQueueStep s calls = some t) :
    t.results = s.results ++ queue.results calls ∧ t.fault = s.fault ∧
      Refines h₀ q t (queue.after calls) := by
  induction calls generalizing s queue with
  | nil =>
      obtain rfl := Option.some.inj hrun
      exact ⟨(List.append_nil _).symm, rfl, h⟩
  | cons c calls ih =>
      obtain ⟨u, hstep, hrest⟩ := exec_cons_eq_some.mp hrun
      obtain ⟨hcalled, hu⟩ := h.step hstep
      obtain ⟨hresults, hfault, ht⟩ := ih hu hrest
      refine ⟨?_, hfault.trans hcalled.fault, ht⟩
      rw [hresults, hcalled.results, List.append_assoc]
      rfl

end Calls

/-! ## 5. Every sequence of calls -/

/-- The state `s` after the calls: no memory was accessed or freed that is not allocated, and
    every call has returned what a first-in first-out queue returns.  Up to its destruction
    the queue is the circular list of the tasks outstanding, and `destroy_task_queue`
    returns as soon as its loop may take a round for each of them and one more, having
    handed each node and the head to `free`. -/
structure TaskQueueHolds (h₀ : Heap Job) (q : Addr) (calls : List TaskQueueCall)
    (s : TaskQueueState) : Prop where
  fault : s.fault = false
  results : s.results = AbstractQueue.results (some .empty) calls
  lives : ∀ hist, AbstractQueue.after (some .empty) calls = some hist →
    ∃ nodes, Represents h₀ q s nodes hist.outstanding ∧
      ∀ fuel, nodes.length < fuel → ∃ t, taskQueueStep s (.destroy fuel) = some t ∧
        destroyTaskQueue fuel s.heap s.taskQueue = some (t.heap, true) ∧ t.fault = false ∧
        t.frees = s.frees ++ (nodes ++ [q]) ∧ Gone h₀ t
  gone : AbstractQueue.after (some .empty) calls = none → Gone h₀ s

/-- For every sequence of calls on a queue from `init_task_queue`, wherever `malloc` takes the
    nodes from. -/
theorem task_queue_representation {h₀ : Heap Job} {q : Addr} (hq : h₀ q = none)
    {calls : List TaskQueueCall} {s : TaskQueueState}
    (hrun : exec taskQueueStep (newTaskQueue h₀ q) calls = some s) :
    TaskQueueHolds h₀ q calls s := by
  have hnew : Refines h₀ q (newTaskQueue h₀ q) (some .empty) :=
    ⟨[], newTaskQueue_represents hq⟩
  obtain ⟨hresults, hfault, hs⟩ := hnew.run hrun
  constructor
  · exact hfault
  · exact hresults
  · intro hist hafter
    rw [hafter] at hs
    obtain ⟨nodes, hrep⟩ := hs
    refine ⟨nodes, hrep, ?_⟩
    intro fuel hfuel
    obtain ⟨t, hstep, hdestroy, hfrees, hcalled, hgone⟩ := hrep.destroy hfuel
    exact ⟨t, hstep, hdestroy, hcalled.fault.trans hfault, hfrees, hgone⟩
  · intro hafter
    rw [hafter] at hs
    exact hs

/-- Two tasks are queued and one is taken; a third gets the node of the first. -/
def threeTasks : List TaskQueueCall :=
  [.en (some (useArgMem 0 1 none)) 11, .en (some (useArgMem 1 2 none)) 12, .de true,
    .en none 13, .en (some (useArgMem 2 3 none)) 11]

theorem task_queue_representation_three :
    ∃ s, exec taskQueueStep (newTaskQueue Heap.empty 10) threeTasks = some s ∧
      TaskQueueHolds Heap.empty 10 threeTasks s := by
  have hrun : (exec taskQueueStep (newTaskQueue Heap.empty 10) threeTasks).isSome := by
    decide +kernel
  obtain ⟨s, hs⟩ := Option.isSome_iff_exists.mp hrun
  exact ⟨s, hs, task_queue_representation rfl hs⟩

end SocketPractice.Socket
