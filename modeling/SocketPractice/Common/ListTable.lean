import SocketPractice.Common.ListHead
import SocketPractice.Lib.Keyed

/-!
# Tables on an intrusive list

The registries of the servers are the same code over two node types: a list that the
first call makes, new nodes at its head, and searches that stop at the first node with
the key they look for.
-/

namespace SocketPractice.Common

open Lib.Links Lib.Keyed

variable {α κ : Type}

/-- `head` is `NULL` as long as there is no list.  `nodes` is how many nodes have been
    allocated: no loop over the list takes more steps. -/
structure ListTable (α : Type) where
  heap : Heap α
  head : Option Addr
  nodes : Nat

namespace ListTable

def empty : ListTable α := { heap := Heap.empty, head := none, nodes := 0 }

/-- Make the list if there is none, at the address `list` that `malloc` returned. -/
def init (s : ListTable α) (list : Addr) : ListTable α :=
  if s.head.isSome then s
  else { s with heap := initListHead s.heap list, head := some list }

/-- Link a new node in at the head. -/
def add (s : ListTable α) (list node : Addr) (v : α) : Option (ListTable α) := do
  let s := s.init list
  let heap := s.heap.alloc node { next := 0, prev := 0, val := some v }
  let heap ← listAdd heap node (← s.head)
  return { s with heap := heap, nodes := s.nodes + 1 }

/-- Search for the first node that satisfies `p`. -/
def find (s : ListTable α) (list : Addr) (p : α → Bool) : Option (ListTable α × Option Addr) := do
  let s := s.init list
  let pos ← listFind s.heap (← s.head) p (s.nodes + 1)
  return (s, pos)

/-- `list_del` and `free` of a node. -/
def remove (s : ListTable α) (pos : Addr) : Option (ListTable α) := do
  let heap ← listDel s.heap pos
  let heap ← heap.free pos
  return { s with heap := heap }

/-- The structures that a loop over all nodes comes by. -/
def values (s : ListTable α) (list : Addr) : Option (ListTable α × List α) := do
  let s := s.init list
  let head ← s.head
  let vs ← listValues s.heap head (s.nodes + 1) (← s.heap.next? head)
  return (s, vs)

def setVal (s : ListTable α) (pos : Addr) (v : α) : Option (ListTable α) := do
  return { s with heap := ← s.heap.setVal pos v }

/-! ## What the table lists -/

/-- The structures of the table, from the head on; before the first call there is no
    list. -/
def Lists (s : ListTable α) (vs : List α) : Prop :=
  vs.length ≤ s.nodes ∧
    match s.head with
    | none => vs = []
    | some head => Holds s.heap head vs

theorem empty_lists : (empty : ListTable α).Lists [] := ⟨Nat.zero_le _, rfl⟩

variable {s : ListTable α} {vs : List α}

theorem Lists.init_spec (hs : s.Lists vs) (list : Addr) :
    ∃ head, (s.init list).head = some head ∧ Holds (s.init list).heap head vs ∧
      (s.init list).nodes = s.nodes ∧ ∀ x, x ≠ list → (s.init list).heap x = s.heap x := by
  obtain ⟨-, hs⟩ := hs
  unfold ListTable.init
  cases hhead : s.head with
  | some head =>
      rw [hhead] at hs
      exact ⟨head, by simp [hhead], by simpa using hs, by simp, by simp⟩
  | none =>
      rw [hhead] at hs
      have hs : vs = [] := hs
      subst hs
      refine ⟨list, by simp, ⟨[], by simpa using initListHead_circular s.heap list, rfl⟩,
        by simp, ?_⟩
      intro x hx
      simp [initListHead, Heap.alloc, hx]

theorem Lists.init (hs : s.Lists vs) (list : Addr) : (s.init list).Lists vs := by
  obtain ⟨head, hhead, hh, hnodes, -⟩ := hs.init_spec list
  refine ⟨by rw [hnodes]; exact hs.1, ?_⟩
  rw [hhead]
  exact hh

theorem Lists.add (hs : s.Lists vs) {list node : Addr} (hnode : s.heap node = none)
    (hne : node ≠ list) (v : α) :
    ∃ s', s.add list node v = some s' ∧ s'.Lists (v :: vs) := by
  obtain ⟨head, hhead, hh, hnodes, hother⟩ := hs.init_spec list
  have hfresh : (s.init list).heap node = none := by rw [hother node hne, hnode]
  obtain ⟨h', heq, hh', -⟩ := listAdd_holds hh hfresh v
  refine ⟨_, by simp [ListTable.add, hhead, heq]; rfl, ?_, ?_⟩
  · have := hs.1
    simp only [List.length_cons, hnodes]
    omega
  · simpa [hhead] using hh'

/-- The node at `pos` has the structure `v`, behind `before` and in front of `after`. -/
def ListsAt (s : ListTable α) (before : List α) (pos : Addr) (v : α) (after : List α) : Prop :=
  (before ++ v :: after).length ≤ s.nodes ∧
    ∃ head, s.head = some head ∧ HoldsAt s.heap head before pos v after

theorem ListsAt.val {before after : List α} {pos : Addr} {v : α}
    (h : s.ListsAt before pos v after) : s.heap.val? pos = some v := by
  obtain ⟨-, _, -, _, _, -, -, hval, -⟩ := h
  exact hval

/-- A search comes to its end: with `NULL` or with the first node that satisfies `p`. -/
theorem Lists.find (hs : s.Lists vs) (list : Addr) (p : α → Bool) :
    ∃ r, s.find list p = some (s.init list, r) ∧
      match r with
      | none => ∀ v ∈ vs, p v = false
      | some pos => ∃ before v after, vs = before ++ v :: after ∧
          (∀ w ∈ before, p w = false) ∧ p v = true ∧ (s.init list).ListsAt before pos v after := by
  obtain ⟨head, hhead, hh, hnodes, -⟩ := hs.init_spec list
  have hfuel : vs.length < (s.init list).nodes + 1 := by
    rw [hnodes]
    exact Nat.lt_succ_of_le hs.1
  obtain ⟨r, hr, hfound⟩ := listFind_found (p := p) hh hfuel
  refine ⟨r, by simp [ListTable.find, hhead, hr], ?_⟩
  cases r with
  | none => exact hfound
  | some pos =>
      obtain ⟨before, v, after, rfl, hbefore, hv, hat⟩ := hfound
      exact ⟨before, v, after, rfl, hbefore, hv, (hs.init list).1, head, hhead, hat⟩

theorem Lists.values (hs : s.Lists vs) (list : Addr) :
    s.values list = some (s.init list, vs) := by
  obtain ⟨head, hhead, ⟨xs, hc, hxs⟩, hnodes, -⟩ := hs.init_spec list
  have hfuel : vs.length < (s.init list).nodes + 1 := by
    rw [hnodes]
    exact Nat.lt_succ_of_le hs.1
  have hall := listValues_eq hc.seg (List.nodup_cons.mp hc.nodup).1 hxs hfuel
  simp [ListTable.values, hhead, hc.seg.first, hall]

/-- The table lists one sequence of structures only. -/
theorem Lists.unique {ws : List α} (hv : s.Lists vs) (hw : s.Lists ws) : vs = ws := by
  obtain ⟨-, hv⟩ := hv
  obtain ⟨-, hw⟩ := hw
  cases hhead : s.head with
  | none =>
      rw [hhead] at hv hw
      exact Eq.trans hv (Eq.symm hw)
  | some head =>
      rw [hhead] at hv hw
      exact Holds.unique hv hw

theorem ListsAt.remove {before after : List α} {pos : Addr} {v : α}
    (h : s.ListsAt before pos v after) :
    ∃ s', s.remove pos = some s' ∧ s'.Lists (before ++ after) := by
  obtain ⟨hlen, head, hhead, hat⟩ := h
  obtain ⟨h₁, h₂, e₁, e₂, hh₂, -, -⟩ := listDel_free hat
  refine ⟨{ s with heap := h₂ }, by simp [ListTable.remove, e₁, e₂], ?_, ?_⟩
  · simp only [List.length_append, List.length_cons] at hlen ⊢
    omega
  · simpa [hhead] using hh₂

theorem ListsAt.setVal {before after : List α} {pos : Addr} {v : α}
    (h : s.ListsAt before pos v after) (w : α) :
    ∃ s', s.setVal pos w = some s' ∧ s'.Lists (before ++ w :: after) := by
  obtain ⟨hlen, head, hhead, hat⟩ := h
  obtain ⟨h', heq, hat', -⟩ := hat.setVal w
  refine ⟨{ s with heap := h' }, by simp [ListTable.setVal, heq], ?_, ?_⟩
  · simpa using hlen
  · simpa [hhead] using hat'.holds

/-! ## The nodes of the table

The calls that come back to a node after they have given the mutex up need to know which
nodes the table has, not only what they hold. -/

/-- The nodes of the table, from the head on. -/
structure Nodes (s : ListTable α) (xs : List Addr) : Prop where
  length : xs.length ≤ s.nodes
  circular : match s.head with
    | none => xs = []
    | some head => Circular s.heap head xs
  filled : ∀ x ∈ xs, (s.heap.val? x).isSome = true

/-- What `t` has kept of the memory of `s`: allocated cells with their structures. -/
def Keeps (s t : ListTable α) : Prop :=
  ∀ c, (s.heap c).isSome = true →
    t.heap.val? c = s.heap.val? c ∧ (t.heap c).isSome = true ∧ (t.head = some c → s.head = some c)

theorem Keeps.refl (s : ListTable α) : Keeps s s := fun _ hc => ⟨rfl, hc, fun h => h⟩

theorem isSome_of_val? {h : Heap α} {c : Addr} (hval : (h.val? c).isSome = true) :
    (h c).isSome = true := by
  unfold Heap.val? at hval
  cases hc : h c with
  | none =>
      rw [hc] at hval
      exact hval
  | some _ => rfl

theorem exists_map_some {β : Type} {f : β → Option α} {xs : List β}
    (h : ∀ x ∈ xs, (f x).isSome = true) : ∃ vs : List α, xs.map f = vs.map some := by
  induction xs with
  | nil => exact ⟨[], rfl⟩
  | cons x xs ih =>
      obtain ⟨vs, hvs⟩ := ih fun y hy => h y (List.mem_cons_of_mem x hy)
      obtain ⟨v, hv⟩ := Option.isSome_iff_exists.mp (h x List.mem_cons_self)
      exact ⟨v :: vs, by rw [List.map_cons, hvs, hv, List.map_cons]⟩

theorem empty_nodes : (empty : ListTable α).Nodes [] := ⟨Nat.zero_le _, rfl, by simp⟩

section Nodes

variable {xs ys : List Addr}

theorem Nodes.allocated (h : s.Nodes xs) {x : Addr} (hx : x ∈ xs) : (s.heap x).isSome = true :=
  isSome_of_val? (h.filled x hx)

theorem Nodes.init (h : s.Nodes xs) {list : Addr} (hlist : s.heap list = none) :
    (s.init list).Nodes xs ∧ Keeps s (s.init list) ∧
      ∃ head, (s.init list).head = some head ∧ Circular (s.init list).heap head xs := by
  have hc := h.circular
  unfold ListTable.init
  cases hhead : s.head with
  | some head =>
      rw [hhead] at hc
      rw [Option.isSome_some, if_pos rfl]
      exact ⟨h, Keeps.refl s, head, hhead, hc⟩
  | none =>
      rw [hhead] at hc
      have hc : xs = [] := hc
      subst hc
      have hcirc := initListHead_circular s.heap list
      rw [Option.isSome_none, if_neg Bool.false_ne_true]
      refine ⟨⟨Nat.zero_le _, hcirc, by simp⟩, ?_, list, rfl, hcirc⟩
      intro c hcell
      have hne : c ≠ list := by
        rintro rfl
        rw [hlist] at hcell
        cases hcell
      refine ⟨?_, ?_, ?_⟩
      · simp [initListHead, Heap.val?, Heap.alloc_of_ne _ _ hne]
      · simpa [initListHead, Heap.alloc_of_ne _ _ hne] using hcell
      · rintro ⟨rfl⟩
        exact absurd rfl hne

theorem Nodes.add (h : s.Nodes xs) {list node : Addr} (hlist : s.heap list = none)
    (hnode : s.heap node = none) (hne : node ≠ list) (v : α) :
    ∃ s', s.add list node v = some s' ∧ s'.Nodes (node :: xs) ∧ Keeps s s' := by
  obtain ⟨hinit, hkeeps, head, hhead, hc⟩ := h.init hlist
  have hfresh : (s.init list).heap node = none := by
    unfold ListTable.init
    split
    · exact hnode
    · simp [initListHead, Heap.alloc_of_ne _ _ hne, hnode]
  let c : Cell α := { next := 0, prev := 0, val := some v }
  obtain ⟨hc₁, hv₁⟩ := hc.alloc (c := c) hfresh
  obtain ⟨h', heq, hc₂, hv₂, ha₂⟩ :=
    listAdd_circular hc₁ (hc.not_mem_of_none hfresh) (by simp)
  have hself : h'.val? node = some v := by
    rw [hv₂]
    simp [Heap.val?, c]
  have hother : ∀ x, x ≠ node → h'.val? x = (s.init list).heap.val? x := by
    intro x hx
    rw [hv₂]
    simp [Heap.val?, Heap.alloc_of_ne _ _ hx]
  refine ⟨{ s.init list with heap := h', nodes := (s.init list).nodes + 1 },
    by simp [ListTable.add, hhead, c, heq], ⟨Nat.succ_le_succ hinit.length, ?_, ?_⟩, ?_⟩
  · simp only [hhead]
    exact hc₂
  · intro x hx
    by_cases hxn : x = node
    · simp only [hxn, hself]
      rfl
    · simp only [hother x hxn]
      exact hinit.filled x ((List.mem_cons.mp hx).resolve_left hxn)
  · intro x hcell
    obtain ⟨hval, hlive, hhead'⟩ := hkeeps x hcell
    have hxn : x ≠ node := by
      rintro rfl
      rw [hnode] at hcell
      cases hcell
    refine ⟨(hother x hxn).trans hval, ?_, hhead'⟩
    rw [ha₂]
    simpa [Heap.alloc_of_ne _ _ hxn] using hlive

/-- A search that finds something finds a node of the table. -/
theorem Nodes.find (h : s.Nodes xs) {list : Addr} (hlist : s.heap list = none) (p : α → Bool) :
    ∃ r, s.find list p = some (s.init list, r) ∧ ∀ pos, r = some pos → pos ∈ xs := by
  obtain ⟨hinit, -, head, hhead, hc⟩ := h.init hlist
  obtain ⟨vs, hvs⟩ := exists_map_some hinit.filled
  have hlen : vs.length = xs.length := by
    have hlength := congrArg List.length hvs
    rw [List.length_map, List.length_map] at hlength
    exact hlength.symm
  obtain ⟨r, hr, hfound⟩ := listFind_found (p := p) ⟨xs, hc, hvs⟩
    (Nat.lt_succ_of_le (hlen ▸ hinit.length))
  refine ⟨r, by simp [ListTable.find, hhead, hr], ?_⟩
  rintro pos rfl
  obtain ⟨before, v, after, -, -, -, l, l', hc', -⟩ := hfound
  have heq : xs = l ++ pos :: l' := hc.seg.unique hc'.seg (List.nodup_cons.mp hc.nodup).1
    (List.nodup_cons.mp hc'.nodup).1
  rw [heq]
  exact List.mem_append_right l List.mem_cons_self

theorem Nodes.nodup (h : s.Nodes xs) : xs.Nodup := by
  have hc := h.circular
  cases hhead : s.head with
  | none =>
      rw [hhead] at hc
      have hc : xs = [] := hc
      rw [hc]
      exact List.nodup_nil
  | some head =>
      rw [hhead] at hc
      exact (List.nodup_cons.mp hc.nodup).2

/-- `list_del` of a node. -/
theorem Nodes.listDel (h : s.Nodes xs) {pos : Addr} (hpos : pos ∈ xs) :
    ∃ heap, Common.listDel s.heap pos = some heap ∧
      ({ s with heap := heap } : ListTable α).Nodes (xs.erase pos) ∧
      Keeps s { s with heap := heap } := by
  have hnodup := h.nodup
  obtain ⟨hlength, hc, hfilled⟩ := h
  cases hhead : s.head with
  | none =>
      rw [hhead] at hc
      have hc : xs = [] := hc
      rw [hc] at hpos
      cases hpos
  | some head =>
      rw [hhead] at hc
      obtain ⟨l, r, rfl⟩ := List.append_of_mem hpos
      have hout : pos ∉ l := fun hmem =>
        (List.disjoint_of_nodup_append hnodup) hmem List.mem_cons_self
      have herase : (l ++ pos :: r).erase pos = l ++ r := by
        rw [List.erase_append_right _ hout, List.erase_cons_head]
      obtain ⟨heap, heq, hc', hval, hlive⟩ := listDel_circular hc
      rw [herase]
      refine ⟨heap, heq, ⟨?_, ?_, ?_⟩, ?_⟩
      · simp only [List.length_append, List.length_cons] at hlength ⊢
        omega
      · exact hc'
      · intro x hx
        simp only [hval]
        apply hfilled
        rcases List.mem_append.mp hx with hx | hx
        · exact List.mem_append_left _ hx
        · exact List.mem_append_right _ (List.mem_cons_of_mem pos hx)
      · intro c hcell
        refine ⟨hval c, by rw [hlive]; exact hcell, ?_⟩
        rw [hhead]
        exact fun hc => hc

/-- `free` of a node that was taken out. -/
theorem Nodes.free (h : s.Nodes xs) {pos : Addr} (hpos : pos ∉ xs) (hhead : s.head ≠ some pos)
    (hlive : (s.heap pos).isSome = true) :
    ∃ heap, s.heap.free pos = some heap ∧
      ({ s with heap := heap } : ListTable α).Nodes xs ∧ ∀ c, c ≠ pos → heap c = s.heap c := by
  obtain ⟨heap, heq, -, hother⟩ := Heap.free_spec hlive
  refine ⟨heap, heq, ⟨h.length, ?_, ?_⟩, hother⟩
  · have hc := h.circular
    cases hhead' : s.head with
    | none =>
        rw [hhead'] at hc
        exact hc
    | some head =>
        rw [hhead'] at hc hhead
        have hne : ∀ c ∈ head :: xs, c ≠ pos := by
          rintro c hmem rfl
          rcases List.mem_cons.mp hmem with rfl | hmem
          · exact hhead rfl
          · exact hpos hmem
        refine hc.congr ?_ ?_
        all_goals
          intro c hmem
          simp [Heap.next?, Heap.prev?, hother c (hne c hmem)]
  · intro x hx
    have hne : x ≠ pos := by
      rintro rfl
      exact hpos hx
    simp only [Heap.val?, hother x hne]
    exact h.filled x hx

end Nodes

/-! ## Searching by a key -/

section Key

variable [DecidableEq κ] (key : α → κ)

/-- What a search for a key points to is the first entry of the key. -/
theorem Lists.find_first (hs : s.Lists vs) (list : Addr) (a : κ) :
    ∃ r, s.find list (fun v => key v = a) = some (s.init list, r) ∧
      r.bind (s.init list).heap.val? = first key vs a ∧ (first key vs a = none → r = none) := by
  obtain ⟨r, hr, hfound⟩ := hs.find list fun v => key v = a
  refine ⟨r, hr, ?_⟩
  cases r with
  | none =>
      have hnone : first key vs a = none :=
        List.find?_eq_none.mpr fun v hv => by simpa using hfound v hv
      simp [hnone]
  | some pos =>
      obtain ⟨before, v, after, rfl, hbefore, hv, hat⟩ := hfound
      have hfirst : first key (before ++ v :: after) a = some v :=
        first_append (by simpa using hbefore) (by simpa using hv)
      simp [hfirst, hat.val]

/-- A search for a key and the removal of the node it points to, if there is one. -/
theorem Lists.find_remove (hs : s.Lists vs) (list : Addr) (a : κ) :
    if entries key vs a = 0 then s.find list (fun v => key v = a) = some (s.init list, none)
    else ∃ pos s', s.find list (fun v => key v = a) = some (s.init list, some pos) ∧
      (s.init list).remove pos = some s' ∧ s'.Lists (removeFirst key vs a) := by
  obtain ⟨r, hr, hfound⟩ := hs.find list fun v => key v = a
  cases r with
  | none =>
      have hnone : first key vs a = none :=
        List.find?_eq_none.mpr fun v hv => by simpa using hfound v hv
      rw [if_pos (first_eq_none_iff.mp hnone)]
      exact hr
  | some pos =>
      obtain ⟨before, v, after, rfl, hbefore, hv, hat⟩ := hfound
      have hbefore' : ∀ w ∈ before, key w ≠ a := by simpa using hbefore
      have hfirst : first key (before ++ v :: after) a = some v :=
        first_append hbefore' (by simpa using hv)
      rw [if_neg (by rw [← first_eq_none_iff, hfirst]; simp),
        removeFirst_append hbefore' (by simpa using hv)]
      obtain ⟨s', hs', hlists⟩ := hat.remove
      exact ⟨pos, s', hr, hs', hlists⟩

end Key

end ListTable

end SocketPractice.Common
