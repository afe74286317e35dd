import SocketPractice.Common.ListHead

/-!
# Queues of copied items on an intrusive list

The message queue and the task queue of the programs are the same code over two
node types: a `malloc`ed node takes a copy of the item and is linked into the
list, and a dequeue copies the item of the first node out, unlinks the node and
frees it.  The one thing in which they differ, the insertion, is a parameter
here.
-/

namespace SocketPractice.Common

open Lib.Links

variable {α : Type}

/-- `queue_ret_t`. -/
inductive QueueRet where
  | QUEUE_SUCCESS
  | QUEUE_ERROR
  | QUEUE_EMPTY
  | QUEUE_FULL
deriving DecidableEq, Repr

/-- Enqueue a copy of `item` in the node `malloc` returned; `insert` links it in.
    Null pointers are `none`.  The links of the node are set by `insert` before
    anything reads them. -/
def enToQueue (insert : Heap α → Addr → Addr → Option (Heap α)) (h : Heap α) (node : Addr)
    (queue : Option Addr) (item : Option α) : Option (Heap α × QueueRet) :=
  match queue, item with
  | some q, some v => do
      let h := h.alloc node { next := 0, prev := 0, val := some v }
      let h ← insert h node q
      return (h, .QUEUE_SUCCESS)
  | _, _ => return (h, .QUEUE_ERROR)

/-- Enqueue at the tail as the `socket_udp` programs do: of a null `item` the node is
    linked in without a payload. -/
def enToTail (h : Heap α) (node : Addr) (queue : Option Addr) (item : Option α) :
    Option (Heap α × QueueRet) :=
  match queue with
  | none => return (h, .QUEUE_ERROR)
  | some q => do
      let h := h.alloc node { next := 0, prev := 0, val := item }
      let h ← listAddTail h node q
      return (h, .QUEUE_SUCCESS)

/-- Dequeue the first node.  `want` says whether the caller passed a place for the
    item; the last component is what was copied there. -/
def deFromQueue (h : Heap α) (queue : Option Addr) (want : Bool) :
    Option (Heap α × QueueRet × Option α) :=
  match queue with
  | none => return (h, .QUEUE_ERROR, none)
  | some q => do
      if ← listEmpty h q then
        return (h, .QUEUE_EMPTY, none)
      let node ← h.next? q
      let item ← if want then (h.val? node).map some else some none
      let h ← listDel h node
      let h ← h.free node
      return (h, .QUEUE_SUCCESS, item)

/-- The loop that dequeues without a place for the item as long as `again` holds of what
    comes back; the flag says whether it has ended within `fuel` rounds. -/
def drainQueue (again : QueueRet → Bool) (queue : Option Addr) :
    Nat → Heap α → Option (Heap α × Bool)
  | 0, h => some (h, false)
  | fuel + 1, h => do
      let (h, ret, _) ← deFromQueue h queue false
      if again ret then
        drainQueue again queue fuel h
      else
        return (h, true)

/-- Drain a queue and free its head. -/
def destroyQueue (again : QueueRet → Bool) (fuel : Nat) (h : Heap α) (queue : Option Addr) :
    Option (Heap α × Bool) :=
  match queue with
  | none => some (h, true)
  | some q => do
      let (h, ended) ← drainQueue again (some q) fuel h
      if ended then
        return (← h.free q, true)
      else
        return (h, false)

/-! ### The same with what is handed to `free` -/

def deFromQueueTraced (h : Heap α) (queue : Option Addr) (want : Bool) :
    Option ((Heap α × QueueRet × Option α) × List Addr) :=
  match queue with
  | none => return ((h, .QUEUE_ERROR, none), [])
  | some q => do
      if ← listEmpty h q then
        return ((h, .QUEUE_EMPTY, none), [])
      let node ← h.next? q
      let item ← if want then (h.val? node).map some else some none
      let h ← listDel h node
      let h ← h.free node
      return ((h, .QUEUE_SUCCESS, item), [node])

def drainQueueTraced (again : QueueRet → Bool) (queue : Option Addr) :
    Nat → Heap α → Option ((Heap α × Bool) × List Addr)
  | 0, h => some ((h, false), [])
  | fuel + 1, h => do
      let ((h, ret, _), freed) ← deFromQueueTraced h queue false
      if again ret then
        let (r, later) ← drainQueueTraced again queue fuel h
        return (r, freed ++ later)
      else
        return ((h, true), freed)

def destroyQueueTraced (again : QueueRet → Bool) (fuel : Nat) (h : Heap α)
    (queue : Option Addr) : Option ((Heap α × Bool) × List Addr) :=
  match queue with
  | none => some ((h, true), [])
  | some q => do
      let ((h, ended), freed) ← drainQueueTraced again (some q) fuel h
      if ended then
        return ((← h.free q, true), freed ++ [q])
      else
        return ((h, false), freed)

section Traced

variable (again : QueueRet → Bool) (h : Heap α) (queue : Option Addr) (want : Bool)

/-- Without the trace a dequeue is the one of the code. -/
theorem map_fst_deFromQueueTraced :
    (deFromQueueTraced h queue want).map Prod.fst = deFromQueue h queue want := by
  cases queue with
  | none => rfl
  | some q =>
      simp only [deFromQueueTraced, deFromQueue, Option.bind_eq_bind, Option.map_bind]
      congr 1
      funext empty
      cases empty
      · cases want <;> simp only [Bool.false_eq_true, if_false, if_true, Option.bind_some,
          Option.map_bind, Option.pure_def, Option.map_some, Function.comp_def]
      · simp

theorem map_fst_drainQueueTraced (fuel : Nat) :
    (drainQueueTraced again queue fuel h).map Prod.fst = drainQueue again queue fuel h := by
  induction fuel generalizing h with
  | zero => rfl
  | succ fuel ih =>
      rw [drainQueueTraced, drainQueue, ← map_fst_deFromQueueTraced]
      rcases deFromQueueTraced h queue false with _ | ⟨⟨h₁, ret, item⟩, freed⟩
      · rfl
      · cases hagain : again ret with
        | true =>
            cases hlater : drainQueueTraced again queue fuel h₁ with
            | none => simp [hagain, ← ih h₁, hlater]
            | some r => simp [hagain, ← ih h₁, hlater]
        | false => simp [hagain]

theorem map_fst_destroyQueueTraced (fuel : Nat) :
    (destroyQueueTraced again fuel h queue).map Prod.fst = destroyQueue again fuel h queue := by
  cases queue with
  | none => rfl
  | some q =>
      rw [destroyQueueTraced, destroyQueue, ← map_fst_drainQueueTraced]
      rcases drainQueueTraced again (some q) fuel h with _ | ⟨⟨h₁, ended⟩, freed⟩
      · rfl
      · cases ended
        · rfl
        · simp only [if_true, Option.bind_eq_bind, Option.bind_some, Option.map_bind,
            Option.pure_def, Option.map_some, Function.comp_def]

end Traced

/-! ## Specifications -/

section Enqueue

variable {h : Heap α} {q node : Addr} {vs : List α}

/-- Enqueueing with `list_add` puts the item in front of the others. -/
theorem enToQueue_listAdd (hh : Holds h q vs) (hfresh : h node = none) (v : α) :
    ∃ h', enToQueue listAdd h node (some q) (some v) = some (h', .QUEUE_SUCCESS) ∧
      Holds h' q (v :: vs) ∧ ∀ x, (h' x).isSome = (decide (x = node) || (h x).isSome) := by
  obtain ⟨h', heq, hh', ha⟩ := listAdd_holds hh hfresh v
  exact ⟨h', by simp [enToQueue, heq], hh', ha⟩

/-- Enqueueing with `list_add_tail` puts the item behind the others. -/
theorem enToQueue_listAddTail (hh : Holds h q vs) (hfresh : h node = none) (v : α) :
    ∃ h', enToQueue listAddTail h node (some q) (some v) = some (h', .QUEUE_SUCCESS) ∧
      Holds h' q (vs ++ [v]) ∧ ∀ x, (h' x).isSome = (decide (x = node) || (h x).isSome) := by
  obtain ⟨h', heq, hh', ha⟩ := listAddTail_holds hh hfresh v
  exact ⟨h', by simp [enToQueue, heq], hh', ha⟩

theorem enToTail_holds (hh : Holds h q vs) (hfresh : h node = none) (v : α) :
    ∃ h', enToTail h node (some q) (some v) = some (h', .QUEUE_SUCCESS) ∧
      Holds h' q (vs ++ [v]) ∧ ∀ x, (h' x).isSome = (decide (x = node) || (h x).isSome) := by
  obtain ⟨h', heq, hh', ha⟩ := listAddTail_holds hh hfresh v
  exact ⟨h', by simp [enToTail, heq], hh', ha⟩

end Enqueue

theorem deFromQueue_nil {h : Heap α} {q : Addr} (hh : Holds h q []) (want : Bool) :
    deFromQueue h (some q) want = some (h, .QUEUE_EMPTY, none) := by
  obtain ⟨xs, hc, hxs⟩ := hh
  have hnil : xs = [] := by simpa using hxs
  subst hnil
  simp [deFromQueue, listEmpty_eq hc]

/-- The node that a dequeue frees is the first one; `item` is what it copies out of it. -/
theorem deFromQueueTraced_circular {h : Heap α} {q x : Addr} {xs : List Addr} {want : Bool}
    {item : Option α} (hc : Circular h q (x :: xs))
    (hitem : (if want then (h.val? x).map some else some none) = some item) :
    ∃ h', deFromQueueTraced h (some q) want = some ((h', .QUEUE_SUCCESS, item), [x]) ∧
      Circular h' q xs ∧ (∀ c ∈ xs, h'.val? c = h.val? c) ∧
      ∀ c, (h' c).isSome = (decide (c ≠ x) && (h c).isSome) := by
  have hc' : Circular h q ([] ++ x :: xs) := hc
  obtain ⟨h₁, h₂, e₁, e₂, hc₂, hv₂, hn₂, hf₂⟩ := listDel_free_circular hc'
  refine ⟨h₂, ?_, hc₂, hv₂, ?_⟩
  · cases want with
    | false =>
        obtain rfl : none = item := by simpa using hitem
        simp [deFromQueueTraced, listEmpty_eq hc, hc.seg.first, e₁, e₂]
    | true =>
        have hval : (h.val? x).map some = some item := hitem
        simp [deFromQueueTraced, listEmpty_eq hc, hc.seg.first, hval, e₁, e₂]
  · intro c
    by_cases hcx : c = x
    · simp [hcx, hn₂]
    · simp [hf₂ c hcx, hcx]

/-- A dequeue hands out the first item and frees its node, and no other cell. -/
theorem deFromQueue_cons {h : Heap α} {q : Addr} {v : α} {vs : List α}
    (hh : Holds h q (v :: vs)) (want : Bool) :
    ∃ h' node, deFromQueue h (some q) want =
        some (h', .QUEUE_SUCCESS, if want then some v else none) ∧
      Holds h' q vs ∧ h' node = none ∧ ∀ x, x ≠ node → (h' x).isSome = (h x).isSome := by
  obtain ⟨xs, hc, hxs⟩ := hh
  rcases xs with _ | ⟨node, xs⟩
  · simp at hxs
  · obtain ⟨hnode, hrest⟩ := List.cons.inj hxs
    have hitem : (if want then (h.val? node).map some else some none) =
        some (if want then some v else none) := by
      cases want <;> simp [hnode]
    obtain ⟨h', heq, hc', hv', ha'⟩ := deFromQueueTraced_circular hc hitem
    refine ⟨h', node, ?_, ⟨xs, hc', map_val?_congr hrest hv'⟩, ?_, ?_⟩
    · rw [← map_fst_deFromQueueTraced, heq]
      rfl
    · simpa using ha' node
    · intro x hx
      simp [ha', hx]

theorem deFromQueueTraced_nil {h : Heap α} {q : Addr} (hc : Circular h q []) (want : Bool) :
    deFromQueueTraced h (some q) want = some ((h, .QUEUE_EMPTY, none), []) := by
  simp [deFromQueueTraced, listEmpty_eq hc]

section Drain

variable (again : QueueRet → Bool) {q : Addr}

/-- With a round for every node and one more the loop ends; the nodes are freed, each of them
    once and in their order, and nothing else is. -/
theorem drainQueueTraced_circular (hsuccess : again .QUEUE_SUCCESS = true)
    (hempty : again .QUEUE_EMPTY = false) {xs : List Addr} :
    ∀ {h : Heap α} {fuel : Nat}, Circular h q xs → xs.length < fuel →
      ∃ h', drainQueueTraced again (some q) fuel h = some ((h', true), xs) ∧ Circular h' q [] ∧
        ∀ c, (h' c).isSome = (decide (c ∉ xs) && (h c).isSome) := by
  induction xs with
  | nil =>
      intro h fuel hc hfuel
      obtain ⟨fuel, rfl⟩ : ∃ k, fuel = k + 1 := ⟨fuel - 1, by omega⟩
      exact ⟨h, by simp [drainQueueTraced, deFromQueueTraced_nil hc, hempty], hc, by simp⟩
  | cons x xs ih =>
      intro h fuel hc hfuel
      obtain ⟨fuel, rfl⟩ : ∃ k, fuel = k + 1 := ⟨fuel - 1, by omega⟩
      obtain ⟨h₁, e₁, hc₁, -, ha₁⟩ := @deFromQueueTraced_circular _ _ _ _ _ false _ hc rfl
      obtain ⟨h₂, e₂, hc₂, ha₂⟩ := ih hc₁ (Nat.lt_of_succ_lt_succ hfuel)
      refine ⟨h₂, by simp [drainQueueTraced, e₁, hsuccess, e₂], hc₂, ?_⟩
      intro c
      by_cases hcx : c = x
      · simp [ha₂, ha₁, hcx]
      · simp [ha₂, ha₁, hcx]

/-- With fewer rounds it does not come to the end. -/
theorem drainQueueTraced_short (hsuccess : again .QUEUE_SUCCESS = true) {xs : List Addr} :
    ∀ {h : Heap α} {fuel : Nat}, Circular h q xs → fuel ≤ xs.length →
      ∃ h', drainQueueTraced again (some q) fuel h = some ((h', false), xs.take fuel) := by
  induction xs with
  | nil =>
      intro h fuel hc hfuel
      obtain rfl := Nat.le_zero.mp hfuel
      exact ⟨h, rfl⟩
  | cons x xs ih =>
      intro h fuel hc hfuel
      cases fuel with
      | zero => exact ⟨h, rfl⟩
      | succ fuel =>
          obtain ⟨h₁, e₁, hc₁, -⟩ := @deFromQueueTraced_circular _ _ _ _ _ false _ hc rfl
          obtain ⟨h₂, e₂⟩ := ih hc₁ (Nat.le_of_succ_le_succ hfuel)
          exact ⟨h₂, by simp [drainQueueTraced, e₁, hsuccess, e₂]⟩

theorem destroyQueueTraced_circular (hsuccess : again .QUEUE_SUCCESS = true)
    (hempty : again .QUEUE_EMPTY = false) {h : Heap α} {xs : List Addr} {fuel : Nat}
    (hc : Circular h q xs) (hfuel : xs.length < fuel) :
    ∃ h', destroyQueueTraced again fuel h (some q) = some ((h', true), xs ++ [q]) ∧
      ∀ c, (h' c).isSome = (decide (c ∉ q :: xs) && (h c).isSome) := by
  obtain ⟨h₁, e₁, hc₁, ha₁⟩ := drainQueueTraced_circular again hsuccess hempty hc hfuel
  have hlive : (h₁ q).isSome := hc₁.allocated q List.mem_cons_self
  obtain ⟨h₂, e₂, hq₂, ha₂⟩ := Heap.free_spec hlive
  refine ⟨h₂, by simp [destroyQueueTraced, e₁, e₂], ?_⟩
  intro c
  by_cases hcq : c = q
  · subst hcq
    simp [hq₂]
  · simp [ha₂ c hcq, ha₁, hcq]

theorem destroyQueue_circular (hsuccess : again .QUEUE_SUCCESS = true)
    (hempty : again .QUEUE_EMPTY = false) {h : Heap α} {xs : List Addr} {fuel : Nat}
    (hc : Circular h q xs) (hfuel : xs.length < fuel) :
    ∃ h', destroyQueue again fuel h (some q) = some (h', true) ∧
      ∀ c, (h' c).isSome = (decide (c ∉ q :: xs) && (h c).isSome) := by
  obtain ⟨h', heq, ha⟩ := destroyQueueTraced_circular again hsuccess hempty hc hfuel
  refine ⟨h', ?_, ha⟩
  rw [← map_fst_destroyQueueTraced, heq]
  rfl

end Drain

end SocketPractice.Common
