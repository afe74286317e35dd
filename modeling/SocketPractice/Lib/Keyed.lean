import Mathlib.Data.List.Basic

/-!
# Lists of keyed entries

A list of entries, each with a key, that is read from the front: an entry hides all
later ones with its key.  New entries go to the front and the first entry of a key is
what a removal takes away, so the list is a finite map as long as a key that is
removed has one entry only.

A history says what a map should hold: it lists what was put in and dropped, the
latest first.
-/

namespace Lib.Keyed

variable {α κ : Type} [DecidableEq κ] (key : α → κ)

/-! ## 1. Reading and removing -/

/-- The entry that answers for `a`. -/
def first (l : List α) (a : κ) : Option α := l.find? fun x => key x = a

def removeFirst (l : List α) (a : κ) : List α := l.eraseP fun x => key x = a

/-- How many entries have the key `a`. -/
def entries (l : List α) (a : κ) : Nat := l.countP fun x => key x = a

variable {key} {l : List α} {a b : κ}

theorem first_cons (x : α) (l : List α) (a : κ) :
    first key (x :: l) a = if key x = a then some x else first key l a := by
  by_cases hx : key x = a <;> simp [first, hx]

theorem entries_cons (x : α) (l : List α) (a : κ) :
    entries key (x :: l) a = entries key l a + if key x = a then 1 else 0 := by
  by_cases hx : key x = a <;> simp [entries, hx]

theorem removeFirst_cons (x : α) (l : List α) (a : κ) :
    removeFirst key (x :: l) a = if key x = a then l else x :: removeFirst key l a := by
  by_cases hx : key x = a <;> simp [removeFirst, hx]

theorem mem_of_first {x : α} (h : first key l a = some x) : x ∈ l ∧ key x = a :=
  ⟨List.mem_of_find?_eq_some h, by simpa using List.find?_some h⟩

theorem first_eq_none_iff : first key l a = none ↔ entries key l a = 0 := by
  simp [first, entries, List.find?_eq_none, List.countP_eq_zero]

theorem first_removeFirst_of_ne (h : a ≠ b) :
    first key (removeFirst key l b) a = first key l a := by
  induction l with
  | nil => rfl
  | cons x l ih =>
      rw [removeFirst_cons]
      by_cases hx : key x = b
      · have hxa : key x ≠ a := fun heq => h (heq.symm.trans hx)
        rw [if_pos hx, first_cons, if_neg hxa]
      · rw [if_neg hx, first_cons, first_cons, ih]

theorem entries_removeFirst_of_ne (h : a ≠ b) :
    entries key (removeFirst key l b) a = entries key l a := by
  induction l with
  | nil => rfl
  | cons x l ih =>
      rw [removeFirst_cons]
      by_cases hx : key x = b
      · have hxa : key x ≠ a := fun heq => h (heq.symm.trans hx)
        rw [if_pos hx, entries_cons, if_neg hxa, Nat.add_zero]
      · rw [if_neg hx, entries_cons, entries_cons, ih]

theorem entries_removeFirst_self : entries key (removeFirst key l a) a = entries key l a - 1 := by
  induction l with
  | nil => rfl
  | cons x l ih =>
      rw [removeFirst_cons]
      by_cases hx : key x = a
      · rw [if_pos hx, entries_cons, if_pos hx, Nat.add_sub_cancel]
      · rw [if_neg hx, entries_cons, entries_cons, if_neg hx, Nat.add_zero, Nat.add_zero, ih]

/-- After a removal the key has no answer exactly if it had one entry at most. -/
theorem first_removeFirst_self :
    first key (removeFirst key l a) a = none ↔ entries key l a ≤ 1 := by
  rw [first_eq_none_iff, entries_removeFirst_self]
  omega

/-- What a search from the front that stops at `x` found. -/
theorem first_append {x : α} {before after : List α} (hbefore : ∀ y ∈ before, key y ≠ a)
    (hx : key x = a) : first key (before ++ x :: after) a = some x := by
  rw [first, List.find?_append, List.find?_eq_none.mpr (by simpa using hbefore)]
  simp [hx]

theorem removeFirst_append {x : α} {before after : List α} (hbefore : ∀ y ∈ before, key y ≠ a)
    (hx : key x = a) : removeFirst key (before ++ x :: after) a = before ++ after := by
  rw [removeFirst, List.eraseP_append_right _ (by simpa using hbefore),
    List.eraseP_cons_of_pos (by simpa using hx)]

/-! ## 2. Histories -/

inductive Change (κ ν : Type) where
  | put (a : κ) (b : ν)
  | drop (a : κ)
deriving DecidableEq

section History

variable {ν : Type}

/-- The value of `a` after the changes, the latest of which comes first. -/
def value : List (Change κ ν) → κ → Option ν
  | [], _ => none
  | .put c d :: h, a => if c = a then some d else value h a
  | .drop c :: h, a => if c = a then none else value h a

def puts (h : List (Change κ ν)) (a : κ) : Nat :=
  h.countP fun | .put c _ => c = a | .drop _ => false

def drops (h : List (Change κ ν)) (a : κ) : Nat :=
  h.countP fun | .put _ _ => false | .drop c => c = a

@[simp] theorem puts_put (c : κ) (d : ν) (h : List (Change κ ν)) (a : κ) :
    puts (.put c d :: h) a = puts h a + if c = a then 1 else 0 := by
  by_cases hc : c = a <;> simp [puts, hc]

@[simp] theorem puts_drop (c : κ) (h : List (Change κ ν)) (a : κ) :
    puts (.drop c :: h) a = puts h a := by
  simp [puts]

@[simp] theorem drops_put (c : κ) (d : ν) (h : List (Change κ ν)) (a : κ) :
    drops (.put c d :: h) a = drops h a := by
  simp [drops]

@[simp] theorem drops_drop (c : κ) (h : List (Change κ ν)) (a : κ) :
    drops (.drop c :: h) a = drops h a + if c = a then 1 else 0 := by
  by_cases hc : c = a <;> simp [drops, hc]

end History

end Lib.Keyed
