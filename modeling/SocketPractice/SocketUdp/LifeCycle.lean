import SocketPractice.Common.ListQueue
import SocketPractice.Lib.Memory
import SocketPractice.Lib.Runs
import SocketPractice.SocketUdp.CliInfoList
import SocketPractice.SocketUdp.ServerQueues

/-!
# Modules that are destroyed (`server_lcmsgqueue.c`, `clientinfo_list.c`, `client_lcmsgqueue.c`)

Three modules keep a list behind a static pointer.  The first call allocates an object with
the list's head in it, and a call that destroys the module frees the nodes, the head and
the object.  The client then sets the pointer to `NULL` again.  The two modules of the
server do not, and their next call takes the freed object for a live one.

As long as it is not destroyed a module of the server does what the models without a
destruction say, those of `ServerQueues` and `CliInfoList`.

The calls come one after the other; what `malloc` returns in a call is a parameter of it.
The number of nodes that were ever allocated bounds the rounds of every loop.
-/

set_option linter.style.nameCheck false

namespace SocketPractice.SocketUdp.LifeCycle

open Lib.Links Lib.Keyed Lib.Runs Common
open Lib.Memory (Ptr Store)

/-! ## 1. A module -/

/-- The static pointer `global`, the objects it may point to, each with the pointer to its
    list, and the memory of the list. -/
structure Module (α : Type) where
  global : Ptr
  objects : Store Ptr
  heap : Heap α
  nodes : Nat

namespace Module

variable {α : Type}

def new : Module α := { global := none, objects := fun _ => none, heap := Heap.empty, nodes := 0 }

/-- Make the object and the list if there is none. -/
def init (m : Module α) (object list : Addr) : Module α :=
  if m.global.isSome then m
  else
    { m with
      global := some object
      objects := m.objects.malloc (some object) (some list)
      heap := initListHead m.heap list }

/-- What the first lines of the functions have in common: make the module if there is none,
    lock its mutex and read the pointer to the list. -/
def enter (m : Module α) (object list : Addr) : Option (Module α × Ptr) := do
  let m := m.init object list
  return (m, ← m.objects.load m.global)

/-- Allocate a node and link it in. -/
def insert (link : Heap α → Addr → Addr → Option (Heap α)) (m : Module α)
    (object list node : Addr) (item : α) : Option (Module α × QueueRet) := do
  let (m, list) ← m.enter object list
  let (heap, ret) ← enToQueue link m.heap node list (some item)
  return ({ m with heap := heap, nodes := m.nodes + 1 }, ret)

/-- `free` of what a pointer to a list's head points to. -/
def freeList (h : Heap α) (list : Ptr) : Option (Heap α) :=
  match list with
  | none => some h
  | some a => h.free a

end Module

/-! ## 2. The queue of messages (`lcmsg_queue.c`) -/

/-- The message in a node, `none` when the node was allocated for no message. -/
abbrev NodeMsg := Option LcMsg

/-- The test of the loop in `DestoryMsgQueue`. -/
def notEmpty (ret : QueueRet) : Bool := ret != .QUEUE_EMPTY

/-- `DestoryMsgQueue` behind the pointer of an object, and the `free` that follows it. -/
def destoryMsgQueue (m : Module NodeMsg) : Option (Module NodeMsg) := do
  let (heap, ended) ← destroyQueue notEmpty (m.nodes + 1) m.heap (← m.objects.load m.global)
  if ended then
    let objects ← m.objects.store m.global none
    let heap ← Module.freeList heap (← objects.load m.global)
    return { m with objects := objects, heap := heap }
  else
    none

def enSrvMsgQueue (m : Module NodeMsg) (object queue node : Addr) (lcMsg : NodeMsg) :
    Option (Module NodeMsg × QueueRet) :=
  m.insert listAddTail object queue node lcMsg

def deSrvMsgQueue (m : Module NodeMsg) (object queue : Addr) (want : Bool) :
    Option (Module NodeMsg × QueueRet × Option NodeMsg) := do
  let (m, queue) ← m.enter object queue
  let (heap, ret, lcMsg) ← deFromQueue m.heap queue want
  return ({ m with heap := heap }, ret, lcMsg)

/-- The pointer stays what it was. -/
def destorySrvMsgQueue (m : Module NodeMsg) : Option (Module NodeMsg) :=
  match m.global with
  | none => some m
  | some _ => do
      let m ← destoryMsgQueue m
      return { m with objects := ← m.objects.free m.global }

def enCliMsgQueue (m : Module NodeMsg) (object queue node : Addr) (msg : NodeMsg) :
    Option (Module NodeMsg × QueueRet) :=
  m.insert listAddTail object queue node msg

def deCliMsgQueue (m : Module NodeMsg) (object queue : Addr) (want : Bool) :
    Option (Module NodeMsg × QueueRet × Option NodeMsg) := do
  let (m, queue) ← m.enter object queue
  let (heap, ret, msg) ← deFromQueue m.heap queue want
  return ({ m with heap := heap }, ret, msg)

def destoryCliMsgQueue (m : Module NodeMsg) : Option (Module NodeMsg) :=
  match m.global with
  | none => some m
  | some _ => do
      let m ← destoryMsgQueue m
      return { m with objects := ← m.objects.free m.global, global := none }

/-! ## 3. The registry (`clientinfo_list.c`) -/

def addNodeToCliInfoList (m : Module ClisInfoListNode) (object list node : Addr)
    (cliID : EndID) (addr : SockaddrIn) : Option (Module ClisInfoListNode) := do
  let (m, _) ← m.insert listAdd object list node ⟨cliID, addr⟩
  return m

def getCliInfoNodeByCliID (m : Module ClisInfoListNode) (object list : Addr) (cliID : EndID) :
    Option (Module ClisInfoListNode × Option Addr) := do
  let (m, list) ← m.enter object list
  let pos ← listFind m.heap (← list) (fun tmpNode => tmpNode.cliID = cliID) (m.nodes + 1)
  return (m, pos)

/-- The loop of `DestoryCliInfoList`; the flag says whether it has ended. -/
def delNodes {α : Type} (head : Addr) : Nat → Heap α → Option (Heap α × Bool)
  | 0, h => some (h, false)
  | fuel + 1, h => do
      if ← listEmpty h head then
        return (h, true)
      else
        let listNode ← h.next? head
        let h ← listDel h listNode
        let h ← h.free listNode
        delNodes head fuel h

/-- The pointer stays what it was. -/
def destoryCliInfoList (m : Module ClisInfoListNode) : Option (Module ClisInfoListNode) :=
  match m.global with
  | none => some m
  | some _ => do
      let infoList ← m.objects.load m.global
      let (heap, ended) ← delNodes (← infoList) (m.nodes + 1) m.heap
      if ended then
        let heap ← Module.freeList heap infoList
        return { m with heap := heap, objects := ← m.objects.free m.global }
      else
        none

/-! ## 4. What the functions do to a sound module -/

/-- The pointer is `NULL` or points to an object whose list has the payloads `vs`. -/
def Module.Sound {α : Type} (m : Module α) (vs : List α) : Prop :=
  vs.length ≤ m.nodes ∧
    match m.global with
    | none => vs = []
    | some g => ∃ q, m.objects g = some (some q) ∧ Holds m.heap q vs

section Sound

variable {α : Type} {m : Module α} {vs : List α} {object list node : Addr}

theorem new_sound : (Module.new : Module α).Sound [] := ⟨Nat.zero_le _, rfl⟩

theorem Module.Sound.enter (h : m.Sound vs) (object list : Addr) :
    ∃ m' q, m.enter object list = some (m', some q) ∧ m'.Sound vs ∧
      (∃ g, m'.global = some g ∧ m'.objects g = some (some q)) ∧ Holds m'.heap q vs ∧
      ∀ x, x ≠ list → m'.heap x = m.heap x := by
  obtain ⟨hlen, hmatch⟩ := h
  cases hg : m.global with
  | some g =>
      rw [hg] at hmatch
      obtain ⟨q, hq, hh⟩ := hmatch
      have hinit : m.init object list = m := by simp [Module.init, hg]
      refine ⟨m, q, ?_, ⟨hlen, ?_⟩, ⟨g, hg, hq⟩, hh, fun x _ => rfl⟩
      · simp [Module.enter, hinit, hg, hq]
      · rw [hg]
        exact ⟨q, hq, hh⟩
  | none =>
      rw [hg] at hmatch
      have hmatch : vs = [] := hmatch
      subst hmatch
      have hh : Holds (initListHead m.heap list) list [] :=
        ⟨[], initListHead_circular m.heap list, rfl⟩
      refine ⟨m.init object list, list, ?_, ⟨Nat.zero_le _, ?_⟩, ⟨object, ?_⟩, ?_, ?_⟩
      · simp [Module.enter, Module.init, hg]
      · simpa [Module.init, hg] using hh
      · simp [Module.init, hg]
      · simpa [Module.init, hg] using hh
      · intro x hx
        simp [Module.init, hg, initListHead, Heap.alloc, hx]

/-- With `list_add_tail` a new node comes last, with `list_add` first. -/
theorem Module.Sound.insert_listAddTail (h : m.Sound vs) (object : Addr)
    (hnode : m.heap node = none) (hne : node ≠ list) (v : α) :
    ∃ m', m.insert listAddTail object list node v = some (m', .QUEUE_SUCCESS) ∧
      m'.Sound (vs ++ [v]) := by
  obtain ⟨m', q, heq, hs, ⟨g, hg, hq⟩, hh, hother⟩ := h.enter object list
  have hfresh : m'.heap node = none := by rw [hother node hne, hnode]
  obtain ⟨heap, heq', hh', -⟩ := enToQueue_listAddTail hh hfresh v
  refine ⟨{ m' with heap := heap, nodes := m'.nodes + 1 },
    by simp [Module.insert, heq, heq'], ?_, ?_⟩
  · have hlen := hs.1
    rw [List.length_append, List.length_singleton]
    exact Nat.succ_le_succ hlen
  · simp only [hg]
    exact ⟨q, hq, hh'⟩

theorem Module.Sound.insert_listAdd (h : m.Sound vs) (object : Addr)
    (hnode : m.heap node = none) (hne : node ≠ list) (v : α) :
    ∃ m', m.insert listAdd object list node v = some (m', .QUEUE_SUCCESS) ∧
      m'.Sound (v :: vs) := by
  obtain ⟨m', q, heq, hs, ⟨g, hg, hq⟩, hh, hother⟩ := h.enter object list
  have hfresh : m'.heap node = none := by rw [hother node hne, hnode]
  obtain ⟨heap, heq', hh', -⟩ := enToQueue_listAdd hh hfresh v
  refine ⟨{ m' with heap := heap, nodes := m'.nodes + 1 },
    by simp [Module.insert, heq, heq'], Nat.succ_le_succ hs.1, ?_⟩
  simp only [hg]
  exact ⟨q, hq, hh'⟩

/-- A dequeue takes the first item out, if there is one. -/
theorem Module.Sound.deSrvMsgQueue_nil {m : Module NodeMsg} (h : m.Sound []) (object queue : Addr)
    (want : Bool) :
    ∃ m', deSrvMsgQueue m object queue want = some (m', .QUEUE_EMPTY, none) ∧ m'.Sound [] := by
  obtain ⟨m', q, heq, hs, -, hh, -⟩ := h.enter object queue
  exact ⟨m', by simp [LifeCycle.deSrvMsgQueue, heq, deFromQueue_nil hh], hs⟩

theorem Module.Sound.deSrvMsgQueue_cons {m : Module NodeMsg} {v : NodeMsg} {vs : List NodeMsg}
    (h : m.Sound (v :: vs)) (object queue : Addr) (want : Bool) :
    ∃ m', deSrvMsgQueue m object queue want =
      some (m', .QUEUE_SUCCESS, if want then some v else none) ∧ m'.Sound vs := by
  obtain ⟨m', q, heq, hs, ⟨g, hg, hq⟩, hh, -⟩ := h.enter object queue
  obtain ⟨heap, node, heq', hh', -⟩ := deFromQueue_cons hh want
  refine ⟨{ m' with heap := heap }, by simp [LifeCycle.deSrvMsgQueue, heq, heq'],
    Nat.le_of_succ_le hs.1, ?_⟩
  simp only [hg]
  exact ⟨q, hq, hh'⟩

/-- A search comes to its end with the first node of the client, or with `NULL`. -/
theorem Module.Sound.getCliInfoNodeByCliID {m : Module ClisInfoListNode}
    {vs : List ClisInfoListNode} (h : m.Sound vs) (object list : Addr) (cliID : EndID) :
    ∃ m' pos, getCliInfoNodeByCliID m object list cliID = some (m', pos) ∧ m'.Sound vs ∧
      pos.bind m'.heap.val? = first ClisInfoListNode.cliID vs cliID := by
  obtain ⟨m', q, heq, hs, -, hh, -⟩ := h.enter object list
  obtain ⟨pos, hpos, hfound⟩ := listFind_found (p := fun tmpNode => tmpNode.cliID = cliID) hh
    (Nat.lt_succ_of_le hs.1)
  refine ⟨m', pos, by simp [LifeCycle.getCliInfoNodeByCliID, heq, hpos], hs, ?_⟩
  exact hfound.val

/-- The nodes and the head are freed, and the object no longer points to them. -/
theorem Module.Sound.destoryMsgQueue {m : Module NodeMsg} {vs : List NodeMsg} (h : m.Sound vs)
    {g : Addr} (hg : m.global = some g) :
    ∃ m', destoryMsgQueue m = some m' ∧ m'.global = some g ∧ m'.objects g = some none := by
  obtain ⟨hlen, hmatch⟩ := h
  rw [hg] at hmatch
  obtain ⟨q, hq, xs, hc, hxs⟩ := hmatch
  have hlen' : xs.length = vs.length := by
    have hlength := congrArg List.length hxs
    rwa [List.length_map, List.length_map] at hlength
  have hrounds : xs.length < m.nodes + 1 := by omega
  obtain ⟨heap, heq, -⟩ := destroyQueue_circular notEmpty rfl rfl hc hrounds
  refine ⟨{ m with objects := Function.update m.objects g (some none), heap := heap }, ?_, hg, ?_⟩
  · simp [LifeCycle.destoryMsgQueue, hg, hq, heq, Store.store_eq hq, Module.freeList]
  · simp

/-- The loop of `DestoryCliInfoList` frees all nodes. -/
theorem delNodes_circular {head : Addr} {xs : List Addr} :
    ∀ {h : Heap α} {fuel : Nat}, Circular h head xs → xs.length < fuel →
      ∃ h', delNodes head fuel h = some (h', true) ∧ Circular h' head [] := by
  induction xs with
  | nil =>
      intro h fuel hc hfuel
      obtain ⟨fuel, rfl⟩ : ∃ k, fuel = k + 1 := ⟨fuel - 1, by omega⟩
      exact ⟨h, by simp [delNodes, listEmpty_eq hc], hc⟩
  | cons x xs ih =>
      intro h fuel hc hfuel
      obtain ⟨fuel, rfl⟩ : ∃ k, fuel = k + 1 := ⟨fuel - 1, by omega⟩
      have hc' : Circular h head ([] ++ x :: xs) := hc
      obtain ⟨h₁, h₂, e₁, e₂, hc₂, -⟩ := listDel_free_circular hc'
      obtain ⟨h₃, e₃, hc₃⟩ := ih hc₂ (Nat.lt_of_succ_lt_succ hfuel)
      exact ⟨h₃, by simp [delNodes, listEmpty_eq hc, hc.seg.first, e₁, e₂, e₃], hc₃⟩

theorem Module.Sound.destoryCliInfoList {m : Module ClisInfoListNode}
    {vs : List ClisInfoListNode} (h : m.Sound vs) {g : Addr} (hg : m.global = some g) :
    ∃ m', destoryCliInfoList m = some m' ∧ m'.global = some g ∧ m'.objects g = none := by
  obtain ⟨hlen, hmatch⟩ := h
  rw [hg] at hmatch
  obtain ⟨q, hq, xs, hc, hxs⟩ := hmatch
  have hlen' : xs.length = vs.length := by
    have hlength := congrArg List.length hxs
    rwa [List.length_map, List.length_map] at hlength
  have hrounds : xs.length < m.nodes + 1 := by omega
  obtain ⟨h₁, e₁, hc₁⟩ := delNodes_circular hc hrounds
  obtain ⟨h₂, e₂, -⟩ := Heap.free_spec (hc₁.allocated q List.mem_cons_self)
  refine ⟨{ m with heap := h₂, objects := Function.update m.objects g none }, ?_, hg, ?_⟩
  · simp [LifeCycle.destoryCliInfoList, hg, hq, e₁, e₂, Module.freeList, Store.free_eq hq]
  · simp

end Sound

/-! ## 5. The modules of the server before they are destroyed -/

/-- Both models of `g_srvMsgQueue` hold the same messages. -/
def SameQueue (m : Module NodeMsg) (s : SrvMsgQueue) : Prop :=
  ∃ ms, m.Sound (ms.map some) ∧ s.Queued ms

/-- Both models of `g_clisInfoList` list the same clients. -/
def SameList (m : Module ClisInfoListNode) (s : CLisInfoList) : Prop :=
  ∃ vs, m.Sound vs ∧ s.Lists vs

section Same

variable {m : Module NodeMsg} {s : SrvMsgQueue}

theorem sameQueue_new : SameQueue Module.new { heap := Heap.empty, queue := none } :=
  ⟨[], new_sound, rfl⟩

theorem sameQueue_enSrvMsgQueue (h : SameQueue m s) (object : Addr) {queue node : Addr}
    (hm : m.heap node = none) (hs : s.heap node = none) (hne : node ≠ queue) (msg : LcMsg) :
    ∃ m' s', enSrvMsgQueue m object queue node (some msg) = some (m', .QUEUE_SUCCESS) ∧
      SocketUdp.enSrvMsgQueue s queue node (some msg) = some (s', .QUEUE_SUCCESS) ∧
      SameQueue m' s' := by
  obtain ⟨ms, hsound, hqueued⟩ := h
  obtain ⟨m', hen, hsound'⟩ := hsound.insert_listAddTail object hm hne (some msg)
  obtain ⟨s', hen', hqueued'⟩ := enSrvMsgQueue_spec hqueued hs hne msg
  exact ⟨m', s', hen, hen', ms ++ [msg], by simpa using hsound', hqueued'⟩

/-- Both report and hand out the same. -/
theorem sameQueue_deSrvMsgQueue (h : SameQueue m s) (object queue : Addr) :
    ∃ m' s' ret msg, deSrvMsgQueue m object queue true = some (m', ret, msg.map some) ∧
      SocketUdp.deSrvMsgQueue s queue true = some (s', ret, msg) ∧ SameQueue m' s' := by
  obtain ⟨ms, hsound, hqueued⟩ := h
  cases ms with
  | nil =>
      obtain ⟨m', hde, hsound'⟩ := hsound.deSrvMsgQueue_nil object queue true
      obtain ⟨s', hde', hqueued'⟩ := deSrvMsgQueue_nil hqueued queue
      exact ⟨m', s', .QUEUE_EMPTY, none, hde, hde', [], hsound', hqueued'⟩
  | cons msg ms =>
      obtain ⟨m', hde, hsound'⟩ := hsound.deSrvMsgQueue_cons object queue true
      obtain ⟨s', hde', hqueued'⟩ := deSrvMsgQueue_cons hqueued queue
      exact ⟨m', s', .QUEUE_SUCCESS, some msg, hde, hde', ms, hsound', hqueued'⟩

variable {l : Module ClisInfoListNode} {t : CLisInfoList}

theorem sameList_new : SameList Module.new ListTable.empty :=
  ⟨[], new_sound, ListTable.empty_lists⟩

theorem sameList_addNodeToCliInfoList (h : SameList l t) (object : Addr) {list node : Addr}
    (hl : l.heap node = none) (ht : t.heap node = none) (hne : node ≠ list) (cliID : EndID)
    (addr : SockaddrIn) :
    ∃ l' t', addNodeToCliInfoList l object list node cliID addr = some l' ∧
      SocketUdp.addNodeToCliInfoList t list node cliID addr = some t' ∧ SameList l' t' := by
  obtain ⟨vs, hsound, hlists⟩ := h
  obtain ⟨l', hadd, hsound'⟩ := hsound.insert_listAdd object hl hne ⟨cliID, addr⟩
  obtain ⟨t', hadd', hlists'⟩ := hlists.add ht hne ⟨cliID, addr⟩
  exact ⟨l', t', by simp [addNodeToCliInfoList, hadd], hadd', _, hsound', hlists'⟩

/-- Both find the same entry, or none. -/
theorem sameList_getCliInfoNodeByCliID (h : SameList l t) (object list : Addr) (cliID : EndID) :
    ∃ l' t' pos pos', getCliInfoNodeByCliID l object list cliID = some (l', pos) ∧
      SocketUdp.getCliInfoNodeByCliID t list cliID = some (t', pos') ∧
      pos.bind l'.heap.val? = pos'.bind t'.heap.val? ∧ SameList l' t' := by
  obtain ⟨vs, hsound, hlists⟩ := h
  obtain ⟨l', pos, hget, hsound', hpos⟩ := hsound.getCliInfoNodeByCliID object list cliID
  obtain ⟨pos', hget', hpos', -⟩ := hlists.find_first ClisInfoListNode.cliID list cliID
  exact ⟨l', t.init list, pos, pos', hget, hget', hpos.trans hpos'.symm, vs, hsound',
    hlists.init list⟩

end Same

/-! ## 6. Sequences of calls -/

inductive QueueCall where
  | en (object queue node : Addr) (lcMsg : NodeMsg)
  | de (object queue : Addr) (want : Bool)
  | destory
deriving DecidableEq

inductive InfoCall where
  | add (object list node : Addr) (cliID : EndID) (addr : SockaddrIn)
  | get (object list : Addr) (cliID : EndID)
  | destory
deriving DecidableEq

/-- A module, what was put in since it was last destroyed and not taken out, and whether a
    call has touched or freed what is not allocated. -/
structure LifeRun (α : Type) where
  module : Module α
  contents : List α
  fault : Bool

/-- What `malloc` returns is not in use. -/
def LifeRun.Free {α : Type} (r : LifeRun α) (object list : Addr) : Prop :=
  r.module.objects object = none ∧ r.module.heap list = none

instance {α : Type} (r : LifeRun α) (object list : Addr) : Decidable (r.Free object list) :=
  match hobject : r.module.objects object, hlist : r.module.heap list with
  | none, none => isTrue ⟨hobject, hlist⟩
  | some _, _ => isFalse fun h => by rw [h.1] at hobject; cases hobject
  | none, some _ => isFalse fun h => by rw [h.2] at hlist; cases hlist

/-- The run after a call with the result `m` that leaves the module `contents`. -/
def LifeRun.after {α : Type} (r : LifeRun α) (m : Option (Module α)) (contents : List α) :
    LifeRun α :=
  match m with
  | none => { r with fault := true }
  | some m => { r with module := m, contents := contents }

def srvStep (r : LifeRun NodeMsg) : QueueCall → Option (LifeRun NodeMsg)
  | .en object queue node lcMsg =>
      if r.Free object queue ∧ r.module.heap node = none ∧ node ≠ queue then
        some (r.after ((enSrvMsgQueue r.module object queue node lcMsg).map Prod.fst)
          (r.contents ++ [lcMsg]))
      else none
  | .de object queue want =>
      if r.Free object queue then
        some (r.after ((deSrvMsgQueue r.module object queue want).map Prod.fst) r.contents.tail)
      else none
  | .destory => some (r.after (destorySrvMsgQueue r.module) [])

def cliStep (r : LifeRun NodeMsg) : QueueCall → Option (LifeRun NodeMsg)
  | .en object queue node msg =>
      if r.Free object queue ∧ r.module.heap node = none ∧ node ≠ queue then
        some (r.after ((enCliMsgQueue r.module object queue node msg).map Prod.fst)
          (r.contents ++ [msg]))
      else none
  | .de object queue want =>
      if r.Free object queue then
        some (r.after ((deCliMsgQueue r.module object queue want).map Prod.fst) r.contents.tail)
      else none
  | .destory => some (r.after (destoryCliMsgQueue r.module) [])

def infoStep (r : LifeRun ClisInfoListNode) : InfoCall → Option (LifeRun ClisInfoListNode)
  | .add object list node cliID addr =>
      if r.Free object list ∧ r.module.heap node = none ∧ node ≠ list then
        some (r.after (addNodeToCliInfoList r.module object list node cliID addr)
          (⟨cliID, addr⟩ :: r.contents))
      else none
  | .get object list cliID =>
      if r.Free object list then
        some (r.after ((getCliInfoNodeByCliID r.module object list cliID).map Prod.fst) r.contents)
      else none
  | .destory => some (r.after (destoryCliInfoList r.module) [])

def newRun {α : Type} : LifeRun α := { module := Module.new, contents := [], fault := false }

/-- Nothing that is freed was used, the pointer is `NULL` or points to a live object, and
    the module holds what it should, which after a destruction is nothing. -/
def LifeRun.Ok {α : Type} (r : LifeRun α) : Prop :=
  r.fault = false ∧ r.module.Sound r.contents

/-- A module is destroyed only while it has not been made. -/
def SrvNotMade (r : LifeRun NodeMsg) : QueueCall → Prop
  | .destory => r.module.global = none
  | _ => True

def InfoNotMade (r : LifeRun ClisInfoListNode) : InfoCall → Prop
  | .destory => r.module.global = none
  | _ => True

instance decidableSrvNotMade (r : LifeRun NodeMsg) :
    (call : QueueCall) → Decidable (SrvNotMade r call)
  | .destory => inferInstanceAs (Decidable (_ = _))
  | .en _ _ _ _ => isTrue trivial
  | .de _ _ _ => isTrue trivial

instance decidableInfoNotMade (r : LifeRun ClisInfoListNode) :
    (call : InfoCall) → Decidable (InfoNotMade r call)
  | .destory => inferInstanceAs (Decidable (_ = _))
  | .add _ _ _ _ _ => isTrue trivial
  | .get _ _ _ => isTrue trivial

section Steps

theorem newRun_ok {α : Type} : (newRun : LifeRun α).Ok := ⟨rfl, new_sound⟩

theorem LifeRun.Ok.after {α : Type} {r : LifeRun α} (h : r.Ok) {m : Module α} {vs : List α}
    (hm : m.Sound vs) : (r.after (some m) vs).Ok := ⟨h.1, hm⟩

/-- A module whose pointer points to a freed object is not sound. -/
theorem not_sound_of_dangling {α : Type} {m : Module α} {g : Addr} (hg : m.global = some g)
    (hfree : m.objects g = none) (vs : List α) : ¬ m.Sound vs := by
  rintro ⟨-, hmatch⟩
  rw [hg] at hmatch
  obtain ⟨q, hq, -⟩ := hmatch
  rw [hfree] at hq
  cases hq

variable {r t : LifeRun NodeMsg}

theorem srvStep_en (h : r.Ok) {object queue node : Addr} {lcMsg : NodeMsg}
    (hstep : srvStep r (.en object queue node lcMsg) = some t) : t.Ok := by
  simp only [srvStep, Option.ite_none_right_eq_some] at hstep
  obtain ⟨⟨-, hnode, hne⟩, hstep⟩ := hstep
  obtain ⟨m, heq, hm⟩ := h.2.insert_listAddTail object hnode hne lcMsg
  rw [enSrvMsgQueue, heq] at hstep
  obtain rfl := Option.some.inj hstep
  exact h.after hm

theorem srvStep_de (h : r.Ok) {object queue : Addr} {want : Bool}
    (hstep : srvStep r (.de object queue want) = some t) : t.Ok := by
  simp only [srvStep, Option.ite_none_right_eq_some] at hstep
  obtain ⟨-, hstep⟩ := hstep
  obtain ⟨ok, hsound⟩ := h
  cases hc : r.contents with
  | nil =>
      rw [hc] at hsound hstep
      obtain ⟨m, heq, hm⟩ := hsound.deSrvMsgQueue_nil object queue want
      rw [heq] at hstep
      obtain rfl := Option.some.inj hstep
      exact ⟨ok, hm⟩
  | cons v vs =>
      rw [hc] at hsound hstep
      obtain ⟨m, heq, hm⟩ := hsound.deSrvMsgQueue_cons object queue want
      rw [heq] at hstep
      obtain rfl := Option.some.inj hstep
      exact ⟨ok, hm⟩

/-- The server's queue survives its destruction exactly if it was never made. -/
theorem srvStep_destory (h : r.Ok) (hstep : srvStep r .destory = some t) :
    t.Ok ↔ r.module.global = none := by
  obtain rfl := Option.some.inj hstep
  cases hg : r.module.global with
  | none =>
      have hnil := h.2
      rw [Module.Sound, hg] at hnil
      simp only [destorySrvMsgQueue, hg, iff_true]
      exact h.after ⟨Nat.zero_le _, by rw [hg]⟩
  | some g =>
      obtain ⟨m, heq, hg', hq'⟩ := h.2.destoryMsgQueue hg
      have hdestory : destorySrvMsgQueue r.module =
          some { m with objects := Function.update m.objects g none } := by
        simp [destorySrvMsgQueue, hg, heq, hg', Store.free_eq hq']
      rw [hdestory]
      have hfreed : Function.update m.objects g none g = none := Function.update_self _ _ _
      refine iff_of_false (fun hok => ?_) (by simp)
      exact not_sound_of_dangling
        (m := { m with objects := Function.update m.objects g none }) hg' hfreed [] hok.2

theorem srvStep_ok_iff (h : r.Ok) {call : QueueCall} (hstep : srvStep r call = some t) :
    t.Ok ↔ SrvNotMade r call := by
  cases call with
  | en object queue node lcMsg => exact iff_of_true (srvStep_en h hstep) trivial
  | de object queue want => exact iff_of_true (srvStep_de h hstep) trivial
  | destory => exact srvStep_destory h hstep

/-- The client's queue is new after its destruction. -/
theorem cliStep_ok (h : r.Ok) {call : QueueCall} (hstep : cliStep r call = some t) : t.Ok := by
  cases call with
  | en object queue node msg => exact srvStep_en h hstep
  | de object queue want => exact srvStep_de h hstep
  | destory =>
      obtain rfl := Option.some.inj hstep
      cases hg : r.module.global with
      | none =>
          simp only [destoryCliMsgQueue, hg]
          exact h.after ⟨Nat.zero_le _, by rw [hg]⟩
      | some g =>
          obtain ⟨m, heq, hg', hq'⟩ := h.2.destoryMsgQueue hg
          have hdestory : destoryCliMsgQueue r.module =
              some { m with objects := Function.update m.objects g none, global := none } := by
            simp [destoryCliMsgQueue, hg, heq, hg', Store.free_eq hq']
          rw [hdestory]
          exact h.after ⟨Nat.zero_le _, rfl⟩

variable {i u : LifeRun ClisInfoListNode}

theorem infoStep_ok_iff (h : i.Ok) {call : InfoCall} (hstep : infoStep i call = some u) :
    u.Ok ↔ InfoNotMade i call := by
  cases call with
  | add object list node cliID addr =>
      simp only [infoStep, Option.ite_none_right_eq_some] at hstep
      obtain ⟨⟨-, hnode, hne⟩, hstep⟩ := hstep
      obtain ⟨m, heq, hm⟩ := h.2.insert_listAdd object hnode hne ⟨cliID, addr⟩
      have hadd : addNodeToCliInfoList i.module object list node cliID addr = some m := by
        simp [addNodeToCliInfoList, heq]
      rw [hadd] at hstep
      obtain rfl := Option.some.inj hstep
      exact iff_of_true (h.after hm) trivial
  | get object list cliID =>
      simp only [infoStep, Option.ite_none_right_eq_some] at hstep
      obtain ⟨-, hstep⟩ := hstep
      obtain ⟨m, pos, heq, hm, -⟩ := h.2.getCliInfoNodeByCliID object list cliID
      rw [heq] at hstep
      obtain rfl := Option.some.inj hstep
      exact iff_of_true (h.after hm) trivial
  | destory =>
      obtain rfl := Option.some.inj hstep
      cases hg : i.module.global with
      | none =>
          simp only [destoryCliInfoList, hg, InfoNotMade, iff_true]
          exact h.after ⟨Nat.zero_le _, by rw [hg]⟩
      | some g =>
          obtain ⟨m, heq, hg', hq'⟩ := h.2.destoryCliInfoList hg
          rw [heq]
          refine iff_of_false (fun hok => ?_) (by simp [InfoNotMade, hg])
          exact not_sound_of_dangling hg' hq' [] hok.2

end Steps

/-! ## 7. Runs -/

/-- The modules of the server are in order in every state of a sequence of calls exactly if
    they are destroyed only before the first call that makes them; the client's queue
    always is. -/
theorem life_cycles (srvCalls : List QueueCall) (srv : LifeRun NodeMsg)
    (hsrv : exec srvStep newRun srvCalls = some srv) (infoCalls : List InfoCall)
    (info : LifeRun ClisInfoListNode) (hinfo : exec infoStep newRun infoCalls = some info)
    (cliCalls : List QueueCall) :
    (Always srvStep LifeRun.Ok newRun srvCalls ↔ Along srvStep SrvNotMade newRun srvCalls) ∧
      (Always infoStep LifeRun.Ok newRun infoCalls ↔
        Along infoStep InfoNotMade newRun infoCalls) ∧
      Always cliStep LifeRun.Ok newRun cliCalls := by
  refine ⟨?_, ?_, ?_⟩
  · exact always_iff_along (J := fun _ => True) (fun _ _ _ _ _ => trivial)
      (fun _ _ _ _ h hstep => srvStep_ok_iff h hstep) trivial newRun_ok hsrv
  · exact always_iff_along (J := fun _ => True) (fun _ _ _ _ _ => trivial)
      (fun _ _ _ _ h hstep => infoStep_ok_iff h hstep) trivial newRun_ok hinfo
  · exact always_of_invariant (fun _ _ _ h hstep => cliStep_ok h hstep) newRun_ok cliCalls

/-- The server's modules may be destroyed before they are used, the client's queue also
    between two messages. -/
theorem life_cycles_destroyed_first :
    ∃ srv info, exec srvStep newRun [.destory, .en 1 2 3 none, .de 4 5 true] = some srv ∧
      exec infoStep newRun [.destory, .add 1 2 3 7 addrA, .get 4 5 7] = some info ∧
      Always srvStep LifeRun.Ok newRun [.destory, .en 1 2 3 none, .de 4 5 true] ∧
      Always infoStep LifeRun.Ok newRun [.destory, .add 1 2 3 7 addrA, .get 4 5 7] ∧
      Always cliStep LifeRun.Ok newRun
        [.en 1 2 3 none, .destory, .en 1 2 3 none, .de 4 5 true] := by
  have hsrv : (exec srvStep newRun [.destory, .en 1 2 3 none, .de 4 5 true]).isSome := by
    decide +kernel
  have hinfo : (exec infoStep newRun [.destory, .add 1 2 3 7 addrA, .get 4 5 7]).isSome := by
    decide +kernel
  obtain ⟨srv, hsrv⟩ := Option.isSome_iff_exists.mp hsrv
  obtain ⟨info, hinfo⟩ := Option.isSome_iff_exists.mp hinfo
  obtain ⟨h₁, h₂, h₃⟩ := life_cycles _ srv hsrv _ info hinfo
    [.en 1 2 3 none, .destory, .en 1 2 3 none, .de 4 5 true]
  exact ⟨srv, info, hsrv, hinfo, h₁.mpr (by decide +kernel), h₂.mpr (by decide +kernel), h₃⟩

/-- A message that is queued after the server's queue was destroyed: the freed object is
    taken for the module. -/
theorem queue_used_after_destroy :
    ∃ r, exec srvStep newRun [.en 1 2 3 none, .destory, .en 4 5 6 none] = some r ∧ ¬ r.Ok := by
  have hrun : (exec srvStep newRun [.en 1 2 3 none, .destory, .en 4 5 6 none]).map
      LifeRun.fault = some true := by
    decide +kernel
  obtain ⟨r, hr, hfault⟩ := Option.map_eq_some_iff.mp hrun
  refine ⟨r, hr, fun hok => ?_⟩
  rw [hok.1] at hfault
  cases hfault

end SocketPractice.SocketUdp.LifeCycle
