import SocketPractice.Lib.Keyed

/-!
# First in position against latest in time

Entries have a key and a class.  One list keeps an entry in its place when the entry
of its key is replaced; the other puts what is new to the front.  A search by class
from the front of the first list answers with what was replaced latest only as long as
no entry of the class stands ahead of the one that is replaced.
-/

namespace Lib.Recency

open Lib.Keyed

variable {α κ γ : Type} [DecidableEq κ] [DecidableEq γ] (key : α → κ) (cls : α → γ)

/-! ## 1. The two ways to replace an entry -/

def others (a : κ) (l : List α) : List α := l.filter fun x => key x ≠ a

/-- Replace the first entry of the key where it stands. -/
def put (x : α) : List α → List α
  | [] => []
  | y :: l => if key y = key x then x :: l else y :: put x l

/-- Drop the entries of the key and put the new one to the front. -/
def renew (x : α) (l : List α) : List α := x :: others key (key x) l

/-- The entries before the first one of the key. -/
def ahead (a : κ) (l : List α) : List α := l.takeWhile fun x => key x ≠ a

/-- The lists have the same entries of each class that counts, in the same order. -/
def Agrees (counts : γ → Prop) (l r : List α) : Prop :=
  ∀ a, counts a → l.filter (fun x => cls x = a) = r.filter (fun x => cls x = a)

variable {key cls} {counts : γ → Prop} {l r : List α} {x : α} {a : κ} {c : γ}

theorem others_cons (y : α) (l : List α) (a : κ) :
    others key a (y :: l) = if key y = a then others key a l else y :: others key a l := by
  by_cases hy : key y = a <;> simp [others, hy]

theorem others_of_not_mem (h : a ∉ l.map key) : others key a l = l := by
  apply List.filter_eq_self.mpr
  intro y hy
  have hne : key y ≠ a := fun heq => h (heq ▸ List.mem_map_of_mem hy)
  simpa using hne

/-- Where no key occurs twice, removing the first entry of a key removes all. -/
theorem removeFirst_eq_others (h : (l.map key).Nodup) : removeFirst key l a = others key a l := by
  induction l with
  | nil => rfl
  | cons y l ih =>
      rw [List.map_cons, List.nodup_cons] at h
      rw [removeFirst_cons, others_cons]
      by_cases hy : key y = a
      · rw [if_pos hy, if_pos hy]
        exact (others_of_not_mem (hy ▸ h.1)).symm
      · rw [if_neg hy, if_neg hy, ih h.2]

theorem filter_others (l : List α) (a : κ) (p : α → Bool) :
    (others key a l).filter p = others key a (l.filter p) := by
  rw [others, others, List.filter_filter, List.filter_filter]
  simp only [Bool.and_comm]

/-! ## 2. The entries of one class -/

theorem filter_put_of_ne (h : (l.map key).Nodup) (hc : cls x ≠ c) :
    (put key x l).filter (fun y => cls y = c) =
      (others key (key x) l).filter (fun y => cls y = c) := by
  induction l with
  | nil => rfl
  | cons y l ih =>
      rw [List.map_cons, List.nodup_cons] at h
      rw [put, others_cons]
      by_cases hy : key y = key x
      · rw [if_pos hy, if_pos hy, others_of_not_mem (hy ▸ h.1), List.filter_cons_of_neg]
        simpa using hc
      · rw [if_neg hy, if_neg hy, List.filter_cons, List.filter_cons, ih h.2]

/-- With no entry of its class ahead, the entry is the first of its class. -/
theorem filter_put_self (h : (l.map key).Nodup) (hmem : key x ∈ l.map key)
    (hahead : ∀ y ∈ ahead key (key x) l, cls y ≠ cls x) :
    (put key x l).filter (fun y => cls y = cls x) =
      x :: (others key (key x) l).filter (fun y => cls y = cls x) := by
  induction l with
  | nil => cases hmem
  | cons y l ih =>
      rw [List.map_cons, List.nodup_cons] at h
      rw [put, others_cons]
      by_cases hy : key y = key x
      · rw [if_pos hy, if_pos hy, others_of_not_mem (hy ▸ h.1), List.filter_cons_of_pos]
        simp
      · have hahead' : ahead key (key x) (y :: l) = y :: ahead key (key x) l := by
          simp [ahead, hy]
        rw [hahead'] at hahead
        have hcls : cls y ≠ cls x := hahead y List.mem_cons_self
        rw [if_neg hy, if_neg hy, List.filter_cons_of_neg (by simpa using hcls),
          List.filter_cons_of_neg (by simpa using hcls)]
        apply ih h.2
        · exact (List.mem_cons.mp hmem).resolve_left (Ne.symm hy)
        · exact fun z hz => hahead z (List.mem_cons_of_mem y hz)

/-- With an entry of its class ahead, another key answers for the class. -/
theorem first_put_of_ahead (hahead : ∃ y ∈ ahead key (key x) l, cls y = cls x) :
    ∃ z, first cls (put key x l) (cls x) = some z ∧ key z ≠ key x := by
  induction l with
  | nil =>
      obtain ⟨y, hy, -⟩ := hahead
      cases hy
  | cons y l ih =>
      obtain ⟨z, hz, hcls⟩ := hahead
      by_cases hy : key y = key x
      · simp [ahead, hy] at hz
      · rw [put, if_neg hy, first_cons]
        by_cases hyc : cls y = cls x
        · rw [if_pos hyc]
          exact ⟨y, rfl, hy⟩
        · rw [if_neg hyc]
          apply ih
          refine ⟨z, ?_, hcls⟩
          have hcons : ahead key (key x) (y :: l) = y :: ahead key (key x) l := by
            simp [ahead, hy]
          rw [hcons] at hz
          rcases List.mem_cons.mp hz with rfl | hz
          · exact absurd hcls hyc
          · exact hz

/-! ## 3. Lists that agree -/

theorem Agrees.first_eq (h : Agrees cls counts l r) (hc : counts c) :
    first cls l c = first cls r c := by
  rw [first, first, ← List.head?_filter, ← List.head?_filter, h c hc]

theorem Agrees.others (h : Agrees cls counts l r) (a : κ) :
    Agrees cls counts (others key a l) (others key a r) := by
  intro c hc
  rw [filter_others, filter_others, h c hc]

theorem Agrees.cons (h : Agrees cls counts l r) (hx : ¬ counts (cls x)) :
    Agrees cls counts (x :: l) r := by
  intro c hc
  have hne : cls x ≠ c := by
    intro heq
    exact hx (heq ▸ hc)
  rw [List.filter_cons_of_neg (by simpa using hne), h c hc]

/-- What is replaced in its place and what is renewed agree, if nothing of the class
    stands ahead. -/
theorem Agrees.put_renew (h : Agrees cls counts l r) (hnodup : (l.map key).Nodup)
    (hmem : key x ∈ l.map key)
    (hahead : counts (cls x) → ∀ y ∈ ahead key (key x) l, cls y ≠ cls x) :
    Agrees cls counts (put key x l) (renew key x r) := by
  intro c hc
  have hothers : Agrees cls counts (Recency.others key (key x) l)
      (Recency.others key (key x) r) := h.others (key x)
  by_cases heq : cls x = c
  · subst heq
    rw [filter_put_self hnodup hmem (hahead hc), renew, List.filter_cons_of_pos (by simp),
      hothers _ hc]
  · rw [filter_put_of_ne hnodup heq, renew, List.filter_cons_of_neg (by simpa using heq),
      hothers c hc]

theorem first_renew_self (x : α) (r : List α) : first cls (renew key x r) (cls x) = some x := by
  rw [renew, first_cons, if_pos rfl]

end Lib.Recency
