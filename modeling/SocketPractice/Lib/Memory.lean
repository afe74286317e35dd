import Mathlib.Logic.Function.Basic
import Mathlib.Data.List.Nodup

/-!
# Objects behind pointers

A `Store` holds the objects of one type that are allocated, by address.  Every
access through a pointer is an `Option`: reading or writing through `NULL`, or
where nothing is allocated (any more), is undefined behaviour.  `PtrPath` says that
following one pointer of the objects leads from one place to another.
-/

namespace Lib.Memory

abbrev Addr := Nat

/-- `none` is `NULL`. -/
abbrev Ptr := Option Addr

abbrev Store (α : Type) := Addr → Option α

variable {α : Type}

namespace Store

def load (m : Store α) (p : Ptr) : Option α := p.bind m

/-- Overwrite the object behind `p`. -/
def store (m : Store α) (p : Ptr) (v : α) : Option (Store α) :=
  p.bind fun a => (m a).map fun _ => Function.update m a (some v)

/-- What `malloc` returned, filled with `v`; a failed allocation leaves the store. -/
def malloc (m : Store α) (p : Ptr) (v : α) : Store α :=
  match p with
  | none => m
  | some a => Function.update m a (some v)

/-- What `malloc` may return: `NULL`, or where no object is. -/
def mayReturn (m : Store α) (p : Ptr) : Bool := p.all fun a => (m a).isNone

/-- Where objects are. -/
def live (m : Store α) (a : Addr) : Bool := (m a).isSome

/-- `free(NULL)` does nothing. -/
def free (m : Store α) (p : Ptr) : Option (Store α) :=
  match p with
  | none => some m
  | some a => (m a).map fun _ => Function.update m a none

variable {m : Store α} {a b : Addr} {v w : α}

@[simp] theorem load_none : m.load none = none := rfl

@[simp] theorem load_some : m.load (some a) = m a := rfl

theorem store_eq (h : m a = some w) (v : α) :
    m.store (some a) v = some (Function.update m a (some v)) := by
  simp [store, h]

@[simp] theorem malloc_some : m.malloc (some a) v = Function.update m a (some v) := rfl

theorem free_eq (h : m a = some w) : m.free (some a) = some (Function.update m a none) := by
  simp [free, h]

theorem mayReturn_some : m.mayReturn (some a) = true ↔ m a = none := by
  simp [mayReturn]

/-- A new object is where none was. -/
theorem live_update_ne (ha : m a = none) : live (Function.update m a (some v)) ≠ m.live := by
  intro h
  have hlive := congrFun h a
  simp [live, ha] at hlive

theorem ne_of_none_of_some (ha : m a = none) (hb : m b = some v) : a ≠ b := by
  rintro rfl
  rw [ha] at hb
  exact absurd hb (by simp)

/-- The store without the objects at `as`. -/
def clear (m : Store α) (as : List Addr) : Store α := fun x => if x ∈ as then none else m x

@[simp] theorem clear_nil : m.clear [] = m := by
  funext x
  simp [clear]

theorem clear_singleton : m.clear [a] = Function.update m a none := by
  funext x
  simp [clear, Function.update_apply]

theorem clear_free (as : List Addr) : clear (Function.update m a none) as = m.clear (a :: as) := by
  funext x
  by_cases hx : x = a
  · simp [clear, hx]
  · simp [clear, hx]

theorem clear_update_of_mem {as : List Addr} (ha : a ∈ as) (w : Option α) :
    clear (Function.update m a w) as = m.clear as := by
  funext x
  by_cases hx : x = a
  · simp [clear, hx, ha]
  · simp [clear, hx]

/-- A new object that is cleared with the others. -/
theorem clear_malloc (ha : m a = none) (as : List Addr) :
    clear (Function.update m a (some v)) (as ++ [a]) = m.clear as := by
  funext x
  by_cases hx : x = a
  · simp [clear, hx, ha]
  · simp [clear, hx]

/-- Only finitely many addresses are in use. -/
def Bounded (m : Store α) : Prop := ∃ n, ∀ a, n ≤ a → m a = none

/-- An allocation then finds an address. -/
theorem Bounded.exists_free (hb : m.Bounded) : ∃ a, m a = none := by
  obtain ⟨n, hn⟩ := hb
  exact ⟨n, hn n (Nat.le_refl n)⟩

/-- At most one more address has come into use. -/
theorem Bounded.of_isSome {m' : Store α} {node : Addr} (hb : m.Bounded)
    (hlive : ∀ a, a ≠ node → (m' a).isSome → (m a).isSome) : m'.Bounded := by
  obtain ⟨n, hn⟩ := hb
  refine ⟨max n (node + 1), ?_⟩
  intro a ha
  have hnone := hn a (Nat.le_trans (Nat.le_max_left _ _) ha)
  have hne : a ≠ node := Nat.ne_of_gt (Nat.le_trans (Nat.le_max_right n (node + 1)) ha)
  rw [← Option.not_isSome_iff_eq_none]
  intro hsome
  have hsome' := hlive a hne hsome
  rw [hnone] at hsome'
  cases hsome'

theorem bounded_empty : Bounded (fun _ => none : Store α) := ⟨0, fun _ _ => rfl⟩

/-- One object is made, changed or freed. -/
theorem Bounded.update (hb : m.Bounded) (a : Addr) (v : Option α) :
    Bounded (Function.update m a v) := by
  apply @Bounded.of_isSome _ _ _ a hb
  intro b hb hsome
  rwa [Function.update_of_ne hb] at hsome

end Store

/-! ## Owners

A map `own` says whose each address is.  Objects are allocated for an owner, freed by
it, and given to another one; the objects of all others stay as they are. -/

/-- The object behind `a` is `v`, and `a` belongs to `o`. -/
def Owns {ω : Type} (m : Store α) (own : Addr → ω) (o : ω) (a : Addr) (v : α) : Prop :=
  own a = o ∧ m a = some v

section Owners

variable {ω : Type} {m : Store α} {own : Addr → ω} {o o' : ω} {a b : Addr} {v w : α}

theorem Owns.ne (ha : Owns m own o a v) (hb : Owns m own o' b w) (ho : o ≠ o') : a ≠ b := by
  rintro rfl
  exact ho (ha.1.symm.trans hb.1)

theorem Owns.malloc (h : Owns m own o a v) (hfresh : m b = none) (w : α) (o' : ω) :
    Owns (m.malloc (some b) w) (Function.update own b o') o a v := by
  have hne : a ≠ b := (Store.ne_of_none_of_some hfresh h.2).symm
  exact ⟨by rw [Function.update_of_ne hne, h.1], by simp [hne, h.2]⟩

theorem owns_malloc (m : Store α) (own : Addr → ω) (a : Addr) (v : α) (o : ω) :
    Owns (m.malloc (some a) v) (Function.update own a o) o a v := by
  constructor <;> simp

theorem Owns.free (h : Owns m own o a v) (hne : a ≠ b) :
    Owns (Function.update m b none) own o a v :=
  ⟨h.1, by rw [Function.update_of_ne hne, h.2]⟩

/-- What belongs to others than the giver and is another object is not touched. -/
theorem Owns.give (h : Owns m own o a v) (hne : a ≠ b) (o' : ω) :
    Owns m (Function.update own b o') o a v :=
  ⟨by rw [Function.update_of_ne hne, h.1], h.2⟩

theorem Owns.given (h : Owns m own o a v) (o' : ω) :
    Owns m (Function.update own a o') o' a v :=
  ⟨by simp, h.2⟩

end Owners

/-! ## Following pointers -/

/-- Following `next` from `p` visits exactly `xs` and then arrives at `r`. -/
def PtrPath (next : Addr → Option Ptr) : Ptr → List Addr → Ptr → Prop
  | p, [], r => p = r
  | p, x :: xs, r => p = some x ∧ ∃ q, next x = some q ∧ PtrPath next q xs r

section PtrPath

variable {next next' : Addr → Option Ptr} {p r : Ptr} {x : Addr} {xs : List Addr}

theorem PtrPath.congr (h : PtrPath next p xs r) (hnext : ∀ x ∈ xs, next' x = next x) :
    PtrPath next' p xs r := by
  induction xs generalizing p with
  | nil => exact h
  | cons x xs ih =>
      obtain ⟨hp, q, hq, hrest⟩ := h
      refine ⟨hp, q, ?_, ih hrest fun y hy => hnext y (List.mem_cons_of_mem x hy)⟩
      rw [hnext x List.mem_cons_self, hq]

/-- A path is prolonged by the object it arrives at. -/
theorem PtrPath.snoc (h : PtrPath next p xs (some x)) (hx : next x = some r) :
    PtrPath next p (xs ++ [x]) r := by
  induction xs generalizing p with
  | nil => exact ⟨h, r, hx, rfl⟩
  | cons y xs ih =>
      obtain ⟨hp, q, hq, hrest⟩ := h
      exact ⟨hp, q, hq, ih hrest⟩

end PtrPath

end Lib.Memory
