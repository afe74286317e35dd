import Mathlib.Logic.Equiv.Basic
import SocketPractice.Lib.While

/-!
# Arrays behind C indices

An array is reached by indices of any sign, and an access outside it is a fault.  What a
program that only exchanges elements can do to an array is said by `Rearranges`: the new
array is a permutation of the old one, and every element stays in the class of its
position, where the classes are the values of a function of the position (inside a range
or not, the remainder modulo a stride).
-/

namespace Lib.CArray

open Lib.While

variable {α κ : Type}

/-! ## 1. Accesses -/

def InBounds (a : List α) (i : Int) : Prop := 0 ≤ i ∧ i < a.length

instance (a : List α) (i : Int) : Decidable (InBounds a i) :=
  inferInstanceAs (Decidable (_ ∧ _))

/-- `a[i]`. -/
def load (a : List α) (i : Int) : Outcome α :=
  if 0 ≤ i then ofOption a[i.toNat]? else .error .fault

/-- `a[i] = v`. -/
def store (a : List α) (i : Int) (v : α) : Outcome (List α) :=
  if InBounds a i then .ok (a.set i.toNat v) else .error .fault

/-- Exchange `a[i]` and `a[j]`, as C does it with a third variable. -/
def swap (a : List α) (i j : Int) : Outcome (List α) := do
  let tmp ← load a i
  let a ← store a i (← load a j)
  store a j tmp

/-- A stack in an array of `cap` entries, its top first. -/
def push (cap : Nat) (x : α) (stack : List α) : Outcome (List α) :=
  if stack.length < cap then .ok (x :: stack) else .error .fault

/-! ## 2. Elements -/

/-- The array with `v` at the position `i`. -/
def put (a : List α) (i : Int) (v : α) : List α := a.set i.toNat v

section Put

variable {a : List α} {i j : Int} {v : α}

theorem store_eq (hi : InBounds a i) (v : α) : store a i v = .ok (put a i v) :=
  if_pos hi

@[simp] theorem length_put : (put a i v).length = a.length := List.length_set

@[simp] theorem inBounds_put : InBounds (put a i v) j ↔ InBounds a j := by
  simp [InBounds]

end Put

variable [Inhabited α]

/-- The element at a position, for statements about it. -/
def val (a : List α) (i : Int) : α := if 0 ≤ i then a.getD i.toNat default else default

/-- The array with the elements at `i` and `j` exchanged. -/
def swapped (a : List α) (i j : Int) : List α := put (put a i (val a j)) j (val a i)

section Elements

variable {a : List α} {i j : Int} {v : α}

theorem val_natCast (a : List α) {n : Nat} (hn : n < a.length) : val a n = a[n] := by
  simp [val, List.getElem?_eq_getElem hn]

theorem load_eq (hi : InBounds a i) : load a i = .ok (val a i) := by
  obtain ⟨hnonneg, hlt⟩ := hi
  have hn : i.toNat < a.length := by omega
  simp [load, val, hnonneg, List.getElem?_eq_getElem hn, ofOption]

@[simp] theorem val_put_self (hi : InBounds a i) : val (put a i v) i = v := by
  obtain ⟨hnonneg, hlt⟩ := hi
  have hn : i.toNat < a.length := by omega
  simp [val, put, hnonneg, hn]

theorem val_put_ne (hi : 0 ≤ i) (hij : j ≠ i) : val (put a i v) j = val a j := by
  by_cases hj : 0 ≤ j
  · have hne : i.toNat ≠ j.toNat := by omega
    simp [val, put, hj, List.getD_eq_getElem?_getD, List.getElem?_set_ne hne]
  · simp [val, hj]

theorem val_put (hi : InBounds a i) (j : Int) :
    val (put a i v) j = if j = i then v else val a j := by
  by_cases hij : j = i
  · rw [hij, val_put_self hi, if_pos rfl]
  · rw [val_put_ne hi.1 hij, if_neg hij]

@[simp] theorem length_swapped : (swapped a i j).length = a.length := by
  simp [swapped]

theorem swap_eq (hi : InBounds a i) (hj : InBounds a j) : swap a i j = .ok (swapped a i j) := by
  have hj' : InBounds (put a i (val a j)) j := inBounds_put.mpr hj
  simp only [swap, load_eq hi, load_eq hj, bind, Except.bind, store_eq hi]
  exact store_eq hj' _

theorem val_swapped (hi : InBounds a i) (hj : InBounds a j) (p : Int) :
    val (swapped a i j) p = val a (Equiv.swap i j p) := by
  have hj' : InBounds (put a i (val a j)) j := inBounds_put.mpr hj
  rw [swapped, val_put hj', val_put hi, Equiv.swap_apply_def]
  by_cases hpi : p = i
  · by_cases hpj : p = j
    · rw [if_pos hpj, if_pos hpi, ← hpi, hpj]
    · rw [if_neg hpj, if_pos hpi, if_pos hpi]
  · by_cases hpj : p = j
    · rw [if_pos hpj, if_neg hpi, if_pos hpj]
    · rw [if_neg hpj, if_neg hpi, if_neg hpi, if_neg hpj]

theorem val_swapped_left (hi : InBounds a i) (hj : InBounds a j) :
    val (swapped a i j) i = val a j := by
  rw [val_swapped hi hj, Equiv.swap_apply_left]

theorem val_swapped_right (hi : InBounds a i) (hj : InBounds a j) :
    val (swapped a i j) j = val a i := by
  rw [val_swapped hi hj, Equiv.swap_apply_right]

theorem val_swapped_of_ne (hi : InBounds a i) (hj : InBounds a j) {p : Int} (hpi : p ≠ i)
    (hpj : p ≠ j) : val (swapped a i j) p = val a p := by
  rw [val_swapped hi hj, Equiv.swap_apply_of_ne_of_ne hpi hpj]

/-- Exchanged twice, they are where they were. -/
theorem swapped_swapped (hi : InBounds a i) (hj : InBounds a j) :
    swapped (swapped a i j) i j = a := by
  have hi' : InBounds (swapped a i j) i := by simpa [InBounds] using hi
  have hj' : InBounds (swapped a i j) j := by simpa [InBounds] using hj
  apply List.ext_getElem
  · rw [length_swapped, length_swapped]
  · intro n hn hn'
    rw [← val_natCast _ hn, ← val_natCast a hn', val_swapped hi' hj', val_swapped hi hj,
      ← Equiv.trans_apply, Equiv.swap_swap, Equiv.refl_apply]

theorem swapped_perm (hi : InBounds a i) (hj : InBounds a j) : (swapped a i j).Perm a := by
  obtain ⟨n, rfl⟩ := Int.eq_ofNat_of_zero_le hi.1
  obtain ⟨m, rfl⟩ := Int.eq_ofNat_of_zero_le hj.1
  have hn : n < a.length := Int.ofNat_lt.mp hi.2
  have hm : m < a.length := Int.ofNat_lt.mp hj.2
  simp only [swapped, put, val_natCast a hn, val_natCast a hm, Int.toNat_natCast]
  exact List.set_set_perm hn hm

end Elements

/-! ## 3. Rearranging -/

/-- `b` holds the elements of `a`, each at a position of the same class. -/
structure Rearranges (c : Int → κ) (a b : List α) : Prop where
  perm : b.Perm a
  places : ∃ σ : Equiv.Perm Int, (∀ p, c (σ p) = c p) ∧ ∀ p, val b p = val a (σ p)

namespace Rearranges

variable {c : Int → κ} {a b d : List α} {i j : Int}

theorem refl (c : Int → κ) (a : List α) : Rearranges c a a :=
  ⟨.refl a, .refl Int, fun _ => rfl, fun _ => rfl⟩

theorem trans (hab : Rearranges c a b) (hbd : Rearranges c b d) : Rearranges c a d := by
  obtain ⟨σ, hσ, hb⟩ := hab.places
  obtain ⟨τ, hτ, hd⟩ := hbd.places
  refine ⟨hbd.perm.trans hab.perm, τ.trans σ, ?_, ?_⟩
  · intro p
    rw [Equiv.trans_apply, hσ, hτ]
  · intro p
    rw [hd, hb, Equiv.trans_apply]

theorem length_eq (h : Rearranges c a b) : b.length = a.length := h.perm.length_eq

/-- Two elements of one class are exchanged. -/
theorem swapped (hi : InBounds a i) (hj : InBounds a j) (hij : c i = c j) :
    Rearranges c a (swapped a i j) := by
  refine ⟨swapped_perm hi hj, Equiv.swap i j, ?_, val_swapped hi hj⟩
  intro p
  rw [Equiv.swap_apply_def]
  split
  · rename_i hpi
    rw [hpi, hij]
  · split
    · rename_i hpj
      rw [hpj, hij]
    · rfl

/-- Larger classes allow more. -/
theorem mono {κ' : Type} {c' : Int → κ'} (h : Rearranges c a b)
    (hcc : ∀ p q, c p = c q → c' p = c' q) : Rearranges c' a b := by
  obtain ⟨σ, hσ, hb⟩ := h.places
  exact ⟨h.perm, σ, fun p => hcc _ _ (hσ p), hb⟩

end Rearranges

/-! ### Inside a range -/

/-- The positions from `s` to `e` are one class, and every other one is its own. -/
def within (s e p : Int) : Option Int := if s ≤ p ∧ p ≤ e then none else some p

section Within

variable {a b : List α} {s e s' e' p i j : Int}

theorem within_eq (hs : s ≤ i) (hi : i ≤ e) (hs' : s ≤ j) (hj : j ≤ e) :
    within s e i = within s e j := by
  rw [within, within, if_pos ⟨hs, hi⟩, if_pos ⟨hs', hj⟩]

theorem Rearranges.outside (h : Rearranges (within s e) a b) (hp : p < s ∨ e < p) :
    val b p = val a p := by
  obtain ⟨σ, hσ, hb⟩ := h.places
  have hclass := hσ p
  have hnot : ¬ (s ≤ p ∧ p ≤ e) := by omega
  have hself : σ p = p := by
    rw [within, within, if_neg hnot] at hclass
    split at hclass
    · cases hclass
    · exact Option.some.inj hclass
  rw [hb, hself]

/-- What is in the class of a position of the range is in the range. -/
theorem of_within_eq {q : Int} (hclass : within s e q = within s e p) (hs : s ≤ p)
    (he : p ≤ e) : s ≤ q ∧ q ≤ e := by
  rw [within, within, if_pos (⟨hs, he⟩ : s ≤ p ∧ p ≤ e)] at hclass
  by_contra hout
  rw [if_neg hout] at hclass
  cases hclass

theorem Rearranges.inside (h : Rearranges (within s e) a b) (hs : s ≤ p) (he : p ≤ e) :
    ∃ q, s ≤ q ∧ q ≤ e ∧ val b p = val a q := by
  obtain ⟨σ, hσ, hb⟩ := h.places
  obtain ⟨hsq, hqe⟩ := of_within_eq (hσ p) hs he
  exact ⟨σ p, hsq, hqe, hb p⟩

theorem Rearranges.widen (h : Rearranges (within s e) a b) (hs : s' ≤ s) (he : e ≤ e') :
    Rearranges (within s' e') a b := by
  apply h.mono
  intro p q hpq
  simp only [within] at hpq ⊢
  split at hpq
  · split at hpq
    · rw [if_pos (by omega), if_pos (by omega)]
    · cases hpq
  · split at hpq
    · cases hpq
    · rw [Option.some.inj hpq]

end Within

end Lib.CArray
