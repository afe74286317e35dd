import SocketPractice.Lib.Memory

/-!
# Circular doubly linked lists on a heap

A heap maps addresses to cells.  A cell carries the two link words of an
intrusive list node and, for a node that is more than a bare list head, the
payload of the structure around it.  Reading or writing a cell that is not
allocated is undefined behaviour, so every access is an `Option`.

`Circular h head xs` says that the cells `xs`, in this order, form one circular
doubly linked list through `head`.  The insertion and removal lemmas are stated
over what the pointer writes did to the link words and to nothing else, so they
apply to any code that performs them.
-/

namespace Lib.Links

open Lib.Memory (Store)

variable {α : Type}

/-- Addresses of allocated cells.  A node is named by the address of its links. -/
abbrev Addr := Nat

structure Cell (α : Type) where
  next : Addr
  prev : Addr
  val : Option α
deriving DecidableEq, Repr

abbrev Heap (α : Type) := Addr → Option (Cell α)

namespace Heap

def empty : Heap α := fun _ => none

def next? (h : Heap α) (p : Addr) : Option Addr := (h p).map Cell.next
def prev? (h : Heap α) (p : Addr) : Option Addr := (h p).map Cell.prev
def val? (h : Heap α) (p : Addr) : Option α := (h p).bind Cell.val

/-- Apply `f` to the cell at `p`; `none` when `p` is not allocated. -/
def modify (h : Heap α) (p : Addr) (f : Cell α → Cell α) : Option (Heap α) :=
  (h p).map fun c => Function.update h p (some (f c))

def setNext (h : Heap α) (p v : Addr) : Option (Heap α) :=
  h.modify p fun c => { c with next := v }

def setPrev (h : Heap α) (p v : Addr) : Option (Heap α) :=
  h.modify p fun c => { c with prev := v }

/-- Overwrite the payload. -/
def setVal (h : Heap α) (p : Addr) (v : α) : Option (Heap α) :=
  h.modify p fun c => { c with val := some v }

/-- An allocation that returned the address `p`, filled with the cell `c`. -/
def alloc (h : Heap α) (p : Addr) (c : Cell α) : Heap α := Function.update h p (some c)

/-- Release the cell at `p`; `none` when `p` is not allocated. -/
def free (h : Heap α) (p : Addr) : Option (Heap α) :=
  (h p).map fun _ => Function.update h p none

/-! ### What one access changes -/

theorem exists_cell_of_next? {h : Heap α} {p v : Addr} (hp : h.next? p = some v) :
    ∃ c, h p = some c ∧ c.next = v := by
  rw [next?, Option.map_eq_some_iff] at hp
  exact hp

theorem isSome_of_modify {h h' : Heap α} {p : Addr} {f : Cell α → Cell α}
    (heq : h.modify p f = some h') (x : Addr) : (h' x).isSome = (h x).isSome := by
  obtain ⟨c, hc, rfl⟩ := Option.map_eq_some_iff.mp heq
  by_cases hx : x = p
  · simp [hx, hc]
  · simp [hx]

/-- Writing the forward link of an allocated cell changes that word only. -/
theorem setNext_spec {h : Heap α} {p v : Addr} (hp : (h p).isSome) :
    ∃ h', h.setNext p v = some h' ∧
      (∀ x, h'.next? x = if x = p then some v else h.next? x) ∧
      (∀ x, h'.prev? x = h.prev? x) ∧ (∀ x, h'.val? x = h.val? x) ∧
      ∀ x, (h' x).isSome = (h x).isSome := by
  obtain ⟨c, hc⟩ := Option.isSome_iff_exists.mp hp
  refine ⟨Function.update h p (some { c with next := v }), by simp [setNext, modify, hc],
    ?_, ?_, ?_, ?_⟩
  all_goals
    intro x
    by_cases hx : x = p
    · subst hx
      simp [next?, prev?, val?, hc]
    · simp [next?, prev?, val?, hx]

/-- Writing the backward link of an allocated cell changes that word only. -/
theorem setPrev_spec {h : Heap α} {p v : Addr} (hp : (h p).isSome) :
    ∃ h', h.setPrev p v = some h' ∧
      (∀ x, h'.prev? x = if x = p then some v else h.prev? x) ∧
      (∀ x, h'.next? x = h.next? x) ∧ (∀ x, h'.val? x = h.val? x) ∧
      ∀ x, (h' x).isSome = (h x).isSome := by
  obtain ⟨c, hc⟩ := Option.isSome_iff_exists.mp hp
  refine ⟨Function.update h p (some { c with prev := v }), by simp [setPrev, modify, hc],
    ?_, ?_, ?_, ?_⟩
  all_goals
    intro x
    by_cases hx : x = p
    · subst hx
      simp [next?, prev?, val?, hc]
    · simp [next?, prev?, val?, hx]

theorem setVal_spec {h : Heap α} {p : Addr} {v : α} (hp : (h p).isSome) :
    ∃ h', h.setVal p v = some h' ∧ h'.val? p = some v ∧
      (∀ x, x ≠ p → h'.val? x = h.val? x) ∧ (∀ x, h'.next? x = h.next? x) ∧
      (∀ x, h'.prev? x = h.prev? x) ∧ ∀ x, (h' x).isSome = (h x).isSome := by
  obtain ⟨c, hc⟩ := Option.isSome_iff_exists.mp hp
  refine ⟨Function.update h p (some { c with val := some v }), by simp [setVal, modify, hc],
    by simp [val?], fun x hx => by simp [val?, hx], ?_, ?_, ?_⟩
  all_goals
    intro x
    by_cases hx : x = p
    · subst hx
      simp [next?, prev?, hc]
    · simp [next?, prev?, hx]

@[simp] theorem alloc_self (h : Heap α) (p : Addr) (c : Cell α) : h.alloc p c p = some c := by
  simp [alloc]

theorem alloc_of_ne (h : Heap α) {p x : Addr} (c : Cell α) (hx : x ≠ p) :
    h.alloc p c x = h x := by
  simp [alloc, hx]

/-- Releasing an allocated cell takes that cell away and no other. -/
theorem free_spec {h : Heap α} {p : Addr} (hp : (h p).isSome) :
    ∃ h', h.free p = some h' ∧ h' p = none ∧ ∀ x, x ≠ p → h' x = h x := by
  obtain ⟨c, hc⟩ := Option.isSome_iff_exists.mp hp
  refine ⟨Function.update h p none, by simp [free, hc], by simp, ?_⟩
  intro x hx
  simp [hx]

theorem bounded_alloc_empty (p : Addr) (c : Cell α) : Store.Bounded (empty.alloc p c) := by
  refine ⟨p + 1, ?_⟩
  intro a ha
  have hne : a ≠ p := Nat.ne_of_gt ha
  simp [alloc, hne, empty]

end Heap

open Heap

/-! ## 1. Segments -/

/-- `a` and `b` are neighbours: `a` points forward to `b`, `b` back to `a`. -/
def Linked (h : Heap α) (a b : Addr) : Prop := h.next? a = some b ∧ h.prev? b = some a

/-- Following the links from `a` visits exactly `xs` and then arrives at `b`. -/
def Seg (h : Heap α) : Addr → List Addr → Addr → Prop
  | a, [], b => Linked h a b
  | a, x :: xs, b => Linked h a x ∧ Seg h x xs b

/-- The first cell of `xs` followed by `b`: where `a` points to in `Seg h a xs b`. -/
def firstOr (xs : List Addr) (b : Addr) : Addr := xs.headD b

/-- The last cell of `a` followed by `xs`: where `b` points back to. -/
def lastOr (a : Addr) (xs : List Addr) : Addr := xs.getLastD a

@[simp] theorem firstOr_nil (b : Addr) : firstOr [] b = b := rfl
@[simp] theorem firstOr_cons (x b : Addr) (xs : List Addr) : firstOr (x :: xs) b = x := rfl
@[simp] theorem lastOr_nil (a : Addr) : lastOr a [] = a := rfl

@[simp] theorem lastOr_cons (a x : Addr) (xs : List Addr) :
    lastOr a (x :: xs) = lastOr x xs := by
  rcases xs with _ | ⟨y, ys⟩
  · rfl
  · simp [lastOr, List.getLastD]

theorem firstOr_mem (xs : List Addr) (b : Addr) : firstOr xs b ∈ xs ++ [b] := by
  cases xs <;> simp

theorem lastOr_mem (a : Addr) (xs : List Addr) : lastOr a xs ∈ a :: xs := by
  induction xs generalizing a with
  | nil => simp
  | cons x xs ih =>
      rw [lastOr_cons]
      exact List.mem_cons_of_mem a (ih x)

theorem Seg.first {h : Heap α} {a b : Addr} {xs : List Addr} (hs : Seg h a xs b) :
    h.next? a = some (firstOr xs b) := by
  rcases xs with _ | ⟨x, xs⟩
  · exact hs.1
  · exact hs.1.1

theorem Seg.last {h : Heap α} {a b : Addr} {xs : List Addr} (hs : Seg h a xs b) :
    h.prev? b = some (lastOr a xs) := by
  induction xs generalizing a with
  | nil => exact hs.2
  | cons x xs ih =>
      rw [lastOr_cons]
      exact ih hs.2

theorem Seg.append_cons {h : Heap α} {a x b : Addr} {xs ys : List Addr} :
    Seg h a (xs ++ x :: ys) b ↔ Seg h a xs x ∧ Seg h x ys b := by
  induction xs generalizing a with
  | nil => rfl
  | cons y xs ih =>
      simp only [List.cons_append, Seg, ih, and_assoc]

/-- A segment only depends on the forward links of the cells it leaves and on
    the backward links of the cells it enters. -/
theorem Seg.congr {h h' : Heap α} {a b : Addr} {xs : List Addr} (hs : Seg h a xs b)
    (hnext : ∀ c ∈ a :: xs, h'.next? c = h.next? c)
    (hprev : ∀ c ∈ xs ++ [b], h'.prev? c = h.prev? c) : Seg h' a xs b := by
  induction xs generalizing a with
  | nil =>
      constructor
      · rw [hnext a (by simp)]; exact hs.1
      · rw [hprev b (by simp)]; exact hs.2
  | cons x xs ih =>
      refine ⟨⟨?_, ?_⟩, ih hs.2 ?_ ?_⟩
      · rw [hnext a (by simp)]; exact hs.1.1
      · rw [hprev x (by simp)]; exact hs.1.2
      · intro c hc
        exact hnext c (List.mem_cons_of_mem a hc)
      · intro c hc
        exact hprev c (List.mem_cons_of_mem x hc)

theorem Seg.allocated {h : Heap α} {a b : Addr} {xs : List Addr} (hs : Seg h a xs b) :
    ∀ c ∈ a :: xs, (h c).isSome := by
  induction xs generalizing a with
  | nil =>
      intro c hc
      obtain ⟨d, hd, -⟩ := exists_cell_of_next? hs.1
      rw [List.mem_singleton.mp hc, hd]
      rfl
  | cons x xs ih =>
      intro c hc
      rcases List.mem_cons.mp hc with rfl | hc
      · obtain ⟨d, hd, -⟩ := exists_cell_of_next? hs.1.1
        rw [hd]
        rfl
      · exact ih hs.2 c hc

/-- Linking `new` in between the last cell of `a :: xs` and the first of
    `ys ++ [b]` inserts it at that place. -/
theorem Seg.insert {h h' : Heap α} {a b new : Addr} {xs ys : List Addr}
    (hs : Seg h a (xs ++ ys) b)
    (hout : (a :: (xs ++ ys)).Nodup) (hin : (xs ++ ys ++ [b]).Nodup)
    (hnew : new ∉ a :: (xs ++ ys ++ [b]))
    (hnext : ∀ x, h'.next? x = if x = lastOr a xs then some new
      else if x = new then some (firstOr ys b) else h.next? x)
    (hprev : ∀ x, h'.prev? x = if x = firstOr ys b then some new
      else if x = new then some (lastOr a xs) else h.prev? x) :
    Seg h' a (xs ++ new :: ys) b := by
  induction xs generalizing a with
  | nil =>
      simp only [List.nil_append, lastOr_nil] at hs hout hin hnew hnext hprev ⊢
      have hna : new ≠ a := fun heq => hnew (by simp [heq])
      have hnf : new ≠ firstOr ys b := fun heq =>
        hnew (List.mem_cons_of_mem a (heq ▸ firstOr_mem ys b))
      refine ⟨⟨by simp [hnext], by simp [hprev, hnf]⟩, ?_⟩
      rcases ys with _ | ⟨y, ys⟩
      · exact ⟨by simp [hnext, hna], by simp [hprev]⟩
      · refine ⟨⟨by simp [hnext, hna], by simp [hprev]⟩, hs.2.congr ?_ ?_⟩
        · intro c hc
          have hca : c ≠ a := by
            intro heq
            subst heq
            exact (List.nodup_cons.mp hout).1 hc
          have hcn : c ≠ new := by
            intro heq
            subst heq
            apply hnew
            simp at hc ⊢
            tauto
          simp [hnext, hca, hcn]
        · intro c hc
          have hcy : c ≠ y := by
            intro heq
            subst heq
            exact (List.nodup_cons.mp hin).1 hc
          have hcn : c ≠ new := by
            intro heq
            subst heq
            apply hnew
            simp at hc ⊢
            tauto
          simp [hprev, hcy, hcn]
  | cons x xs ih =>
      simp only [List.cons_append, lastOr_cons] at hs hout hin hnew hnext hprev ⊢
      have hlast : lastOr x xs ∈ x :: (xs ++ ys) := by
        have := lastOr_mem x xs
        simp only [List.mem_cons, List.mem_append] at this ⊢
        tauto
      have hfirst : firstOr ys b ∈ xs ++ ys ++ [b] := by
        have := firstOr_mem ys b
        simp only [List.mem_append] at this ⊢
        tauto
      have hal : a ≠ lastOr x xs := by
        intro heq
        exact (List.nodup_cons.mp hout).1 (heq ▸ hlast)
      have han : a ≠ new := fun heq => hnew (by simp [heq])
      have hxf : x ≠ firstOr ys b := by
        intro heq
        exact (List.nodup_cons.mp hin).1 (heq ▸ hfirst)
      have hxn : x ≠ new := fun heq => hnew (by simp [heq])
      refine ⟨⟨?_, ?_⟩, ih hs.2 (List.nodup_cons.mp hout).2 (List.nodup_cons.mp hin).2
        (fun hmem => hnew (List.mem_cons_of_mem a hmem)) hnext hprev⟩
      · rw [hnext, if_neg hal, if_neg han]; exact hs.1.1
      · rw [hprev, if_neg hxf, if_neg hxn]; exact hs.1.2

/-- Making the neighbours of `x` point to each other takes `x` out. -/
theorem Seg.remove {h h' : Heap α} {a b x : Addr} {xs ys : List Addr}
    (hs : Seg h a (xs ++ x :: ys) b)
    (hout : (a :: (xs ++ x :: ys)).Nodup) (hin : (xs ++ x :: ys ++ [b]).Nodup)
    (hnext : ∀ c, c ≠ x →
      h'.next? c = if c = lastOr a xs then some (firstOr ys b) else h.next? c)
    (hprev : ∀ c, c ≠ x →
      h'.prev? c = if c = firstOr ys b then some (lastOr a xs) else h.prev? c) :
    Seg h' a (xs ++ ys) b := by
  induction xs generalizing a with
  | nil =>
      simp only [List.nil_append, lastOr_nil] at hs hout hin hnext hprev ⊢
      have hax : a ≠ x := fun heq => (List.nodup_cons.mp hout).1 (by simp [heq])
      have hxin := (List.nodup_cons.mp hin).1
      rcases ys with _ | ⟨y, ys⟩
      · have hbx : b ≠ x := fun heq => hxin (by simp [heq])
        exact ⟨by simp [hnext a hax], by simp [hprev b hbx]⟩
      · have hyx : y ≠ x := fun heq => hxin (by simp [heq])
        refine ⟨⟨by simp [hnext a hax], by simp [hprev y hyx]⟩, hs.2.2.congr ?_ ?_⟩
        · intro c hc
          have hca : c ≠ a := by
            intro heq
            subst heq
            exact (List.nodup_cons.mp hout).1 (List.mem_cons_of_mem x hc)
          have hcx : c ≠ x := by
            intro heq
            subst heq
            exact (List.nodup_cons.mp (List.nodup_cons.mp hout).2).1 hc
          simp [hnext c hcx, hca]
        · intro c hc
          have hcx : c ≠ x := by
            intro heq
            subst heq
            exact hxin (List.mem_cons_of_mem y hc)
          have hcy : c ≠ y := by
            intro heq
            subst heq
            exact (List.nodup_cons.mp (List.nodup_cons.mp hin).2).1 hc
          simp [hprev c hcx, hcy]
  | cons z xs ih =>
      simp only [List.cons_append, lastOr_cons] at hs hout hin hnext hprev ⊢
      have hax : a ≠ x := fun heq => (List.nodup_cons.mp hout).1 (by simp [heq])
      have hzx : z ≠ x := fun heq => (List.nodup_cons.mp hin).1 (by simp [heq])
      have hal : a ≠ lastOr z xs := by
        intro heq
        have hmem := lastOr_mem z xs
        rw [← heq] at hmem
        apply (List.nodup_cons.mp hout).1
        simp only [List.mem_cons, List.mem_append] at hmem ⊢
        tauto
      have hzf : z ≠ firstOr ys b := by
        intro heq
        have hmem := firstOr_mem ys b
        rw [← heq] at hmem
        apply (List.nodup_cons.mp hin).1
        simp only [List.mem_cons, List.mem_append] at hmem ⊢
        tauto
      refine ⟨⟨?_, ?_⟩, ih hs.2 (List.nodup_cons.mp hout).2 (List.nodup_cons.mp hin).2
        hnext hprev⟩
      · rw [hnext a hax, if_neg hal]; exact hs.1.1
      · rw [hprev z hzx, if_neg hzf]; exact hs.1.2

/-! ## 2. Circular lists -/

/-- The cells `xs` form one circular doubly linked list through `head`. -/
structure Circular (h : Heap α) (head : Addr) (xs : List Addr) : Prop where
  nodup : (head :: xs).Nodup
  seg : Seg h head xs head

variable {h h' : Heap α} {head new x : Addr} {xs ys : List Addr}

theorem Circular.nodup_tail (hc : Circular h head xs) : (xs ++ [head]).Nodup :=
  (List.perm_append_singleton head xs).nodup_iff.mpr hc.nodup

theorem Circular.allocated (hc : Circular h head xs) : ∀ c ∈ head :: xs, (h c).isSome :=
  hc.seg.allocated

theorem Circular.not_mem_of_none (hc : Circular h head xs) (hx : h x = none) :
    x ∉ head :: xs := by
  intro hmem
  have := hc.allocated x hmem
  rw [hx] at this
  exact absurd this (by simp)

theorem Circular.next?_head_eq_self_iff (hc : Circular h head xs) :
    h.next? head = some head ↔ xs = [] := by
  rw [hc.seg.first]
  rcases xs with _ | ⟨x, xs⟩
  · simp
  · have hne : x ≠ head := fun heq => (List.nodup_cons.mp hc.nodup).1 (by simp [heq])
    simp [hne]

/-- Among these cells the forward and the backward links are inverse to each other. -/
def MutuallyInverse (h : Heap α) (cells : List Addr) : Prop :=
  (∀ c ∈ cells, ∃ d ∈ cells, Linked h c d) ∧ ∀ d ∈ cells, ∃ c ∈ cells, Linked h c d

theorem Seg.linked_next {a b : Addr} (hs : Seg h a xs b) :
    ∀ c ∈ a :: xs, ∃ d ∈ xs ++ [b], Linked h c d := by
  induction xs generalizing a with
  | nil =>
      intro c hc
      rw [List.mem_singleton.mp hc]
      exact ⟨b, List.mem_singleton_self b, hs⟩
  | cons x xs ih =>
      intro c hc
      rcases List.mem_cons.mp hc with rfl | hc
      · exact ⟨x, List.mem_cons_self, hs.1⟩
      · obtain ⟨d, hd, hlinked⟩ := ih hs.2 c hc
        exact ⟨d, List.mem_cons_of_mem x hd, hlinked⟩

theorem Seg.linked_prev {a b : Addr} (hs : Seg h a xs b) :
    ∀ d ∈ xs ++ [b], ∃ c ∈ a :: xs, Linked h c d := by
  induction xs generalizing a with
  | nil =>
      intro d hd
      rw [List.mem_singleton.mp hd]
      exact ⟨a, List.mem_singleton_self a, hs⟩
  | cons x xs ih =>
      intro d hd
      rcases List.mem_cons.mp hd with rfl | hd
      · exact ⟨a, List.mem_cons_self, hs.1⟩
      · obtain ⟨c, hc, hlinked⟩ := ih hs.2 d hd
        exact ⟨c, List.mem_cons_of_mem a hc, hlinked⟩

theorem Circular.mutuallyInverse (hc : Circular h head xs) :
    MutuallyInverse h (head :: xs) := by
  have hperm : (xs ++ [head]).Perm (head :: xs) := List.perm_append_singleton head xs
  constructor
  · intro c hmem
    obtain ⟨d, hd, hlinked⟩ := hc.seg.linked_next c hmem
    exact ⟨d, hperm.mem_iff.mp hd, hlinked⟩
  · intro d hmem
    exact hc.seg.linked_prev d (hperm.mem_iff.mpr hmem)

/-- What happens off the list, and to payloads on it, does not break it. -/
theorem Circular.congr (hc : Circular h head xs)
    (hnext : ∀ c ∈ head :: xs, h'.next? c = h.next? c)
    (hprev : ∀ c ∈ head :: xs, h'.prev? c = h.prev? c) : Circular h' head xs := by
  refine ⟨hc.nodup, hc.seg.congr hnext ?_⟩
  intro c hmem
  apply hprev c
  simp only [List.mem_append, List.mem_cons, List.not_mem_nil, or_false] at hmem ⊢
  tauto

/-- The freshly allocated node is off the list and leaves it as it is. -/
theorem Circular.alloc {c : Cell α} (hc : Circular h head xs) (hfresh : h new = none) :
    Circular (h.alloc new c) head xs ∧ ∀ x ∈ head :: xs, (h.alloc new c).val? x = h.val? x := by
  have hne : ∀ x ∈ head :: xs, x ≠ new := by
    rintro x hx rfl
    exact hc.not_mem_of_none hfresh hx
  refine ⟨hc.congr ?_ ?_, ?_⟩
  all_goals
    intro x hx
    simp [next?, prev?, val?, h.alloc_of_ne c (hne x hx)]

theorem Circular.insert (hc : Circular h head (xs ++ ys)) (hnew : new ∉ head :: (xs ++ ys))
    (hnext : ∀ x, h'.next? x = if x = lastOr head xs then some new
      else if x = new then some (firstOr ys head) else h.next? x)
    (hprev : ∀ x, h'.prev? x = if x = firstOr ys head then some new
      else if x = new then some (lastOr head xs) else h.prev? x) :
    Circular h' head (xs ++ new :: ys) := by
  refine ⟨?_, hc.seg.insert hc.nodup hc.nodup_tail ?_ hnext hprev⟩
  · have hperm : (head :: (xs ++ new :: ys)).Perm (new :: head :: (xs ++ ys)) :=
      (List.Perm.cons head List.perm_middle).trans (List.Perm.swap new head _)
    exact hperm.nodup_iff.mpr (List.nodup_cons.mpr ⟨hnew, hc.nodup⟩)
  · simp only [List.mem_cons, List.mem_append, List.not_mem_nil, or_false] at hnew ⊢
    tauto

theorem Circular.remove (hc : Circular h head (xs ++ x :: ys))
    (hnext : ∀ c, c ≠ x →
      h'.next? c = if c = lastOr head xs then some (firstOr ys head) else h.next? c)
    (hprev : ∀ c, c ≠ x →
      h'.prev? c = if c = firstOr ys head then some (lastOr head xs) else h.prev? c) :
    Circular h' head (xs ++ ys) := by
  refine ⟨?_, hc.seg.remove hc.nodup hc.nodup_tail hnext hprev⟩
  have hsub : (head :: (xs ++ ys)).Sublist (head :: (xs ++ x :: ys)) :=
    List.Sublist.cons_cons head (List.Sublist.append_left (List.sublist_cons_self x ys) xs)
  exact hc.nodup.sublist hsub

/-! ## 3. Lists of nodes with payloads -/

/-- The nodes on the circular list through `head` carry the payloads `vs`, in
    list order. -/
def Holds (h : Heap α) (head : Addr) (vs : List α) : Prop :=
  ∃ xs, Circular h head xs ∧ xs.map h.val? = vs.map some

/-- The list holds `before`, at the node `pos` the payload `v`, and `after`. -/
def HoldsAt (h : Heap α) (head : Addr) (before : List α) (pos : Addr) (v : α)
    (after : List α) : Prop :=
  ∃ xs ys, Circular h head (xs ++ pos :: ys) ∧ xs.map h.val? = before.map some ∧
    h.val? pos = some v ∧ ys.map h.val? = after.map some

theorem HoldsAt.holds {before after : List α} {pos : Addr} {v : α}
    (hh : HoldsAt h head before pos v after) : Holds h head (before ++ v :: after) := by
  obtain ⟨xs, ys, hc, hxs, hv, hys⟩ := hh
  exact ⟨xs ++ pos :: ys, hc, by simp [hxs, hv, hys]⟩

theorem map_val?_congr {h h' : Heap α} {xs : List Addr} {vs : List α}
    (hmap : xs.map h.val? = vs.map some) (hval : ∀ x ∈ xs, h'.val? x = h.val? x) :
    xs.map h'.val? = vs.map some := by
  rw [← hmap]
  exact List.map_congr_left hval

/-- Overwriting the payload of one node changes that payload only. -/
theorem HoldsAt.setVal {before after : List α} {pos : Addr} {v : α}
    (hh : HoldsAt h head before pos v after) (w : α) :
    ∃ h', h.setVal pos w = some h' ∧ HoldsAt h' head before pos w after ∧
      ∀ x, (h' x).isSome = (h x).isSome := by
  obtain ⟨xs, ys, hc, hxs, -, hys⟩ := hh
  obtain ⟨h', heq, hv, hother, hn, hp, ha⟩ :=
    setVal_spec (v := w) (hc.allocated pos (by simp))
  have hnd : (xs ++ pos :: ys).Nodup := (List.nodup_cons.mp hc.nodup).2
  have hout : ∀ x ∈ xs ++ ys, x ≠ pos := by
    rintro x hx rfl
    exact (List.nodup_middle.mp hnd).notMem hx
  refine ⟨h', heq, ⟨xs, ys, hc.congr (fun x _ => hn x) (fun x _ => hp x), ?_, hv, ?_⟩, ha⟩
  · exact map_val?_congr hxs fun x hx => hother x (hout x (List.mem_append_left ys hx))
  · exact map_val?_congr hys fun x hx => hother x (hout x (List.mem_append_right xs hx))

theorem Seg.unique {a b : Addr} (hx : Seg h a xs b) (hy : Seg h a ys b)
    (hbx : b ∉ xs) (hby : b ∉ ys) : xs = ys := by
  induction xs generalizing a ys with
  | nil =>
      rcases ys with _ | ⟨y, ys⟩
      · rfl
      · have heq : b = y := Option.some.inj (hx.1.symm.trans hy.1.1)
        exact absurd (by simp [heq]) hby
  | cons x xs ih =>
      rcases ys with _ | ⟨y, ys⟩
      · have heq : b = x := Option.some.inj (hy.1.symm.trans hx.1.1)
        exact absurd (by simp [heq]) hbx
      · have heq : x = y := Option.some.inj (hx.1.1.symm.trans hy.1.1)
        subst heq
        rw [ih hx.2 hy.2 (fun hm => hbx (List.mem_cons_of_mem x hm))
          (fun hm => hby (List.mem_cons_of_mem x hm))]

theorem Holds.unique {vs ws : List α} (hv : Holds h head vs) (hw : Holds h head ws) :
    vs = ws := by
  obtain ⟨xs, hcx, hxs⟩ := hv
  obtain ⟨ys, hcy, hys⟩ := hw
  have heq : xs = ys := hcx.seg.unique hcy.seg (List.nodup_cons.mp hcx.nodup).1
    (List.nodup_cons.mp hcy.nodup).1
  subst heq
  exact List.map_injective_iff.mpr (fun _ _ h => Option.some.inj h) (hxs.symm.trans hys)

end Lib.Links
