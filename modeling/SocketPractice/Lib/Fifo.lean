/-!
# First-in first-out queues and stacks

The results a queue and a stack give for the same sequence of calls, and when
they agree: exactly when no removal happens while two or more elements are
outstanding.  A `History` records what went into a queue and how much of it came
out, so it says which elements are outstanding without looking at the queue.
-/

namespace Lib.Fifo

variable {α : Type}

inductive Call (α : Type) where
  | put (a : α)
  | take
deriving DecidableEq, Repr

inductive Result (α : Type) where
  | stored
  | got (a : α)
  | empty
deriving DecidableEq, Repr

/-- Results of a queue that holds `q`, oldest element first. -/
def fifo : List α → List (Call α) → List (Result α)
  | _, [] => []
  | q, .put a :: cs => .stored :: fifo (q ++ [a]) cs
  | [], .take :: cs => .empty :: fifo [] cs
  | a :: q, .take :: cs => .got a :: fifo q cs

/-- Results of a stack that holds `q`, newest element first. -/
def lifo : List α → List (Call α) → List (Result α)
  | _, [] => []
  | q, .put a :: cs => .stored :: lifo (a :: q) cs
  | [], .take :: cs => .empty :: lifo [] cs
  | a :: q, .take :: cs => .got a :: lifo q cs

/-- With `n` elements outstanding at the start, no `take` of the sequence finds
    two or more of them. -/
def AtMostOne : Nat → List (Call α) → Prop
  | _, [] => True
  | n, .put _ :: cs => AtMostOne (n + 1) cs
  | n, .take :: cs => n ≤ 1 ∧ AtMostOne (n - 1) cs

instance decidableAtMostOne : (n : Nat) → (cs : List (Call α)) → Decidable (AtMostOne n cs)
  | _, [] => isTrue trivial
  | n, .put _ :: cs => decidableAtMostOne (n + 1) cs
  | n, .take :: cs =>
      have := decidableAtMostOne (n - 1) cs
      inferInstanceAs (Decidable (n ≤ 1 ∧ AtMostOne (n - 1) cs))

def puts : List (Call α) → List α
  | [] => []
  | .put a :: cs => a :: puts cs
  | .take :: cs => puts cs

/-- A stack is a queue as long as it is drained one element at a time. -/
theorem lifo_eq_fifo {q : List α} {cs : List (Call α)} (h : AtMostOne q.length cs) :
    lifo q.reverse cs = fifo q cs := by
  induction cs generalizing q with
  | nil => rfl
  | cons c cs ih =>
      cases c with
      | put a =>
          have htail : AtMostOne (q ++ [a]).length cs := by simpa [AtMostOne] using h
          have := ih htail
          rw [List.reverse_append] at this
          simp only [lifo, fifo]
          rw [← this]
          rfl
      | take =>
          obtain ⟨hle, htail⟩ := h
          match q, hle with
          | [], _ => simpa [lifo, fifo] using ih (q := []) htail
          | [a], _ => simpa [lifo, fifo] using ih (q := []) htail

/-- On pairwise different elements the stack's results are wrong as soon as a
    `take` finds two of them. -/
theorem atMostOne_of_lifo_eq_fifo {q : List α} {cs : List (Call α)}
    (hnd : (q ++ puts cs).Nodup) (h : lifo q.reverse cs = fifo q cs) :
    AtMostOne q.length cs := by
  induction cs generalizing q with
  | nil => trivial
  | cons c cs ih =>
      cases c with
      | put a =>
          simp only [lifo, fifo, List.cons.injEq, true_and] at h
          have hnd' : ((q ++ [a]) ++ puts cs).Nodup := by simpa [puts] using hnd
          have := ih hnd' (by simpa using h)
          simpa [AtMostOne] using this
      | take =>
          match q with
          | [] =>
              simp only [List.reverse_nil, lifo, fifo, List.cons.injEq, true_and] at h
              exact ⟨by simp, ih hnd h⟩
          | [a] =>
              simp only [List.reverse_cons, List.reverse_nil, List.nil_append, lifo, fifo,
                List.cons.injEq, true_and] at h
              exact ⟨by simp, ih (q := []) (List.nodup_cons.mp hnd).2 h⟩
          | a :: b :: q =>
              -- the stack hands out its newest element, which is not `a`
              exfalso
              obtain ⟨z, zs, hz⟩ : ∃ z zs, (b :: q).reverse = z :: zs := by
                rcases hr : (b :: q).reverse with _ | ⟨z, zs⟩
                · simp at hr
                · exact ⟨z, zs, rfl⟩
              have hmem : z ∈ b :: q := by
                rw [← List.mem_reverse, hz]
                exact List.mem_cons_self
              rw [List.reverse_cons, hz] at h
              simp only [List.cons_append, lifo, fifo, List.cons.injEq, Result.got.injEq] at h
              apply (List.nodup_cons.mp hnd).1
              rw [← h.1]
              exact List.mem_append_left _ hmem

/-! ## Histories -/

/-- All elements that entered, oldest first, and how many of them have left. -/
structure History (α : Type) where
  entered : List α
  left : Nat
  le : left ≤ entered.length
deriving DecidableEq

namespace History

def empty : History α := ⟨[], 0, Nat.le_refl 0⟩

def outstanding (h : History α) : List α := h.entered.drop h.left

def enter (h : History α) (a : α) : History α :=
  ⟨h.entered ++ [a], h.left, by rw [List.length_append]; exact Nat.le_add_right_of_le h.le⟩

/-- One more element has left, if there was one. -/
def leave (h : History α) : History α :=
  ⟨h.entered, min (h.left + 1) h.entered.length, Nat.min_le_right _ _⟩

@[simp] theorem outstanding_empty : (empty : History α).outstanding = [] := rfl

@[simp] theorem outstanding_enter (h : History α) (a : α) :
    (h.enter a).outstanding = h.outstanding ++ [a] := List.drop_append_of_le_length h.le

@[simp] theorem outstanding_leave (h : History α) :
    h.leave.outstanding = h.outstanding.tail := by
  have htail : h.outstanding.tail = h.entered.drop (h.left + 1) := by
    rw [outstanding, List.tail_drop]
  rw [htail]
  rcases Nat.le_total (h.left + 1) h.entered.length with hle | hle
  · simp [outstanding, leave, Nat.min_eq_left hle]
  · simp [outstanding, leave, hle]

end History

end Lib.Fifo
