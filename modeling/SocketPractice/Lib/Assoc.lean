import Mathlib.Data.List.Nodup

/-!
# Association lists with distinct keys

A finite map as the list of its entries, in the order in which the keys were added.
That no key occurs twice is a field, so a lookup has one answer and removing
entries by their value removes the answer of every key that had it.
-/

namespace Lib

/-- A finite map from `κ` to `ν` as a list of entries. -/
structure Assoc (κ ν : Type) where
  entries : List (κ × ν)
  nodup : (entries.map Prod.fst).Nodup

namespace Assoc

variable {κ ν : Type} [DecidableEq κ]

def empty : Assoc κ ν := ⟨[], List.nodup_nil⟩

def keys (m : Assoc κ ν) : List κ := m.entries.map Prod.fst

def get (m : Assoc κ ν) (a : κ) : Option ν := m.entries.lookup a

def replace (l : List (κ × ν)) (a : κ) (b : ν) : List (κ × ν) :=
  l.map fun p => if p.1 = a then (a, b) else p

theorem map_fst_replace (l : List (κ × ν)) (a : κ) (b : ν) :
    (replace l a b).map Prod.fst = l.map Prod.fst := by
  rw [replace, List.map_map]
  apply List.map_congr_left
  intro p _
  by_cases hp : p.1 = a
  · simp [hp]
  · simp [hp]

/-- Give `a` the value `b`; a new key goes to the end. -/
def set (m : Assoc κ ν) (a : κ) (b : ν) : Assoc κ ν where
  entries := if a ∈ m.keys then replace m.entries a b else m.entries ++ [(a, b)]
  nodup := by
    by_cases ha : a ∈ m.keys
    · rw [if_pos ha, map_fst_replace]
      exact m.nodup
    · rw [if_neg ha, List.map_append]
      refine List.nodup_append.mpr ⟨m.nodup, List.nodup_singleton a, ?_⟩
      rintro c hc d hd rfl
      obtain rfl : c = a := List.mem_singleton.mp hd
      exact ha hc

/-! ## Lookups -/

theorem lookup_cons_ne {a c : κ} (b : ν) (l : List (κ × ν)) (h : c ≠ a) :
    ((a, b) :: l).lookup c = l.lookup c := by
  have hb : (c == a) = false := by simpa using h
  rw [List.lookup_cons, hb]

theorem lookup_eq_none_of_not_mem {a : κ} {l : List (κ × ν)} (h : a ∉ l.map Prod.fst) :
    l.lookup a = none := by
  rw [List.lookup_eq_none_iff]
  rintro ⟨c, d⟩ hp
  simp only [bne_iff_ne, ne_eq]
  intro heq
  subst heq
  exact h (List.mem_map_of_mem (f := Prod.fst) hp)

theorem lookup_replace (l : List (κ × ν)) (a c : κ) (b : ν) (ha : a ∈ l.map Prod.fst) :
    (replace l a b).lookup c = if c = a then some b else l.lookup c := by
  induction l with
  | nil => simp at ha
  | cons p l ih =>
      obtain ⟨k, d⟩ := p
      have hhead : replace ((k, d) :: l) a b =
          (if k = a then (a, b) else (k, d)) :: replace l a b := rfl
      have htail : a ∉ l.map Prod.fst → replace l a b = l := by
        intro hnot
        refine (List.map_congr_left fun q hq => ?_).trans (List.map_id l)
        have hq' : q.1 ≠ a := by
          intro heq
          subst heq
          exact hnot (List.mem_map_of_mem hq)
        simp [hq']
      rw [hhead]
      by_cases hk : k = a
      · subst hk
        rw [if_pos rfl]
        by_cases hc : c = k
        · subst hc
          simp
        · rw [lookup_cons_ne b _ hc, lookup_cons_ne d _ hc]
          by_cases hmem : k ∈ l.map Prod.fst
          · exact ih hmem
          · rw [htail hmem, if_neg hc]
      · have hmem : a ∈ l.map Prod.fst := by
          simp only [List.map_cons, List.mem_cons] at ha
          exact ha.resolve_left fun h => hk h.symm
        rw [if_neg hk]
        by_cases hc : c = k
        · subst hc
          simp [hk]
        · rw [lookup_cons_ne d _ hc, lookup_cons_ne d _ hc]
          exact ih hmem

@[simp] theorem get_set (m : Assoc κ ν) (a c : κ) (b : ν) :
    (m.set a b).get c = if c = a then some b else m.get c := by
  unfold get set keys
  by_cases ha : a ∈ m.entries.map Prod.fst
  · simp only [if_pos ha]
    exact lookup_replace _ _ _ _ ha
  · simp only [if_neg ha]
    rw [List.lookup_append]
    by_cases hc : c = a
    · subst hc
      simp [lookup_eq_none_of_not_mem ha]
    · rw [lookup_cons_ne b [] hc, if_neg hc, List.lookup_nil, Option.or_none]

@[simp] theorem get_empty (a : κ) : (empty : Assoc κ ν).get a = none := rfl

theorem mem_keys_iff (m : Assoc κ ν) (a : κ) : a ∈ m.keys ↔ m.get a ≠ none := by
  constructor
  · intro ha hnone
    rw [get, List.lookup_eq_none_iff] at hnone
    obtain ⟨p, hp, rfl⟩ := List.mem_map.mp ha
    simpa using hnone p hp
  · intro h
    by_contra ha
    exact h (lookup_eq_none_of_not_mem ha)

theorem get_eq_some_iff (m : Assoc κ ν) (a : κ) (b : ν) :
    m.get a = some b ↔ (a, b) ∈ m.entries := by
  have key : ∀ l : List (κ × ν), (l.map Prod.fst).Nodup →
      (l.lookup a = some b ↔ (a, b) ∈ l) := by
    intro l hl
    induction l with
    | nil => simp
    | cons p l ih =>
        obtain ⟨k, d⟩ := p
        obtain ⟨hnot, hnd⟩ := List.nodup_cons.mp hl
        by_cases ha : a = k
        · subst ha
          rw [List.lookup_cons_self, List.mem_cons, Prod.mk.injEq, Option.some.injEq]
          constructor
          · intro h
            exact Or.inl ⟨rfl, h.symm⟩
          · rintro (⟨-, h⟩ | h)
            · exact h.symm
            · exact absurd (List.mem_map_of_mem (f := Prod.fst) h) hnot
        · rw [lookup_cons_ne d l ha, ih hnd, List.mem_cons]
          constructor
          · exact Or.inr
          · rintro (h | h)
            · exact absurd (Prod.mk.inj h).1 ha
            · exact h
  exact key m.entries m.nodup

/-- The entries of a key that has a value are this one entry. -/
theorem filter_key_eq (m : Assoc κ ν) {a : κ} {b : ν} (h : m.get a = some b) :
    (m.entries.filter fun p => p.1 = a) = [(a, b)] := by
  have key : ∀ l : List (κ × ν), (l.map Prod.fst).Nodup → l.lookup a = some b →
      (l.filter fun p => p.1 = a) = [(a, b)] := by
    intro l hl hlook
    induction l with
    | nil => simp at hlook
    | cons p l ih =>
        obtain ⟨k, d⟩ := p
        obtain ⟨hnot, hnd⟩ := List.nodup_cons.mp hl
        by_cases ha : a = k
        · subst ha
          rw [List.lookup_cons_self, Option.some.injEq] at hlook
          subst hlook
          have hrest : (l.filter fun p => p.1 = a) = [] := by
            rw [List.filter_eq_nil_iff]
            intro q hq hqa
            have hmem : q.1 ∈ l.map Prod.fst := List.mem_map_of_mem hq
            rw [of_decide_eq_true hqa] at hmem
            exact hnot hmem
          rw [List.filter_cons_of_pos (by simp), hrest]
        · rw [lookup_cons_ne d l ha] at hlook
          rw [List.filter_cons_of_neg (by simpa using fun h => ha h.symm)]
          exact ih hnd hlook
  exact key m.entries m.nodup h

section Drop

variable [DecidableEq ν]

def dropVal (m : Assoc κ ν) (b : ν) : Assoc κ ν where
  entries := m.entries.filter fun p => p.2 ≠ b
  nodup := m.nodup.sublist (List.filter_sublist.map Prod.fst)

theorem lookup_filter (l : List (κ × ν)) (hl : (l.map Prod.fst).Nodup) (a : κ) (b : ν) :
    (l.filter fun p => p.2 ≠ b).lookup a =
      if l.lookup a = some b then none else l.lookup a := by
  induction l with
  | nil => simp
  | cons p l ih =>
      obtain ⟨k, d⟩ := p
      obtain ⟨hnot, hnd⟩ := List.nodup_cons.mp hl
      by_cases hd : d = b
      · rw [List.filter_cons_of_neg (by simp [hd])]
        by_cases ha : a = k
        · subst ha
          have habsent : (l.filter fun p => p.2 ≠ b).lookup a = none :=
            lookup_eq_none_of_not_mem fun hmem =>
              hnot ((List.filter_sublist.map Prod.fst).subset hmem)
          rw [habsent, List.lookup_cons_self, hd, if_pos rfl]
        · rw [lookup_cons_ne d l ha]
          exact ih hnd
      · rw [List.filter_cons_of_pos (by simp [hd])]
        by_cases ha : a = k
        · subst ha
          simp [hd]
        · rw [lookup_cons_ne d _ ha, lookup_cons_ne d _ ha]
          exact ih hnd

@[simp] theorem get_dropVal (m : Assoc κ ν) (b : ν) (a : κ) :
    (m.dropVal b).get a = if m.get a = some b then none else m.get a :=
  lookup_filter m.entries m.nodup a b

end Drop

end Assoc

end Lib
