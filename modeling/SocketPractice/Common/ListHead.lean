import SocketPractice.Lib.Links

/-!
# The intrusive list (`list.h`)

`struct list_head` and the operations the programs use: `INIT_LIST_HEAD`,
`list_add`, `list_add_tail`, `list_del` and `list_empty`.  Each pointer write of
the source is one heap access here, in the order of the source, so an access to
memory that is not allocated makes the whole operation `none`.

`list_entry` is pointer arithmetic that turns the address of the embedded links
into the address of the structure; as cells are named by their links, it is the
identity.
-/

set_option linter.style.nameCheck false

namespace SocketPractice.Common

open Lib.Links

variable {α : Type}

def LIST_POISON1 : Addr := 0x00100100
def LIST_POISON2 : Addr := 0x00200200

/-- `INIT_LIST_HEAD` on the bare list head a `malloc` returned at `list`. -/
def initListHead (h : Heap α) (list : Addr) : Heap α :=
  h.alloc list { next := list, prev := list, val := none }

def __listAdd (h : Heap α) (new prev next : Addr) : Option (Heap α) := do
  let h ← h.setPrev next new
  let h ← h.setNext new next
  let h ← h.setPrev new prev
  h.setNext prev new

/-- `list_add`: insert after `head`. -/
def listAdd (h : Heap α) (new head : Addr) : Option (Heap α) := do
  __listAdd h new head (← h.next? head)

/-- `list_add_tail`: insert before `head`. -/
def listAddTail (h : Heap α) (new head : Addr) : Option (Heap α) := do
  __listAdd h new (← h.prev? head) head

def __listDel (h : Heap α) (prev next : Addr) : Option (Heap α) := do
  let h ← h.setPrev next prev
  h.setNext prev next

def listDel (h : Heap α) (entry : Addr) : Option (Heap α) := do
  let h ← __listDel h (← h.prev? entry) (← h.next? entry)
  let h ← h.setNext entry LIST_POISON1
  h.setPrev entry LIST_POISON2

def listEmpty (h : Heap α) (head : Addr) : Option Bool := do
  return (← h.next? head) == head

/-- `list_for_each` from the node `pos` on, left at the first node whose structure
    satisfies `p`; `fuel` bounds how many nodes are looked at. -/
def listForEach (h : Heap α) (head : Addr) (p : α → Bool) : Nat → Addr → Option (Option Addr)
  | 0, _ => none
  | fuel + 1, pos =>
      if pos = head then some none
      else do
        let v ← h.val? pos
        if p v then
          return some pos
        listForEach h head p fuel (← h.next? pos)

/-- The search that starts at the first node. -/
def listFind (h : Heap α) (head : Addr) (p : α → Bool) (fuel : Nat) :
    Option (Option Addr) := do
  listForEach h head p fuel (← h.next? head)

/-- The structures that a `list_for_each` comes by from the node `pos` on. -/
def listValues (h : Heap α) (head : Addr) : Nat → Addr → Option (List α)
  | 0, _ => none
  | fuel + 1, pos =>
      if pos = head then some []
      else do
        let v ← h.val? pos
        let vs ← listValues h head fuel (← h.next? pos)
        return v :: vs

/-! ## What the pointer writes do -/

/-- `__list_add` succeeds on allocated cells, rewires the four links and leaves
    payloads and the set of allocated cells alone. -/
theorem __listAdd_spec {h : Heap α} {new prev next : Addr}
    (hnew : (h new).isSome) (hprev : (h prev).isSome) (hnext : (h next).isSome)
    (hnn : new ≠ next) :
    ∃ h', __listAdd h new prev next = some h' ∧
      (∀ x, h'.next? x = if x = prev then some new
        else if x = new then some next else h.next? x) ∧
      (∀ x, h'.prev? x = if x = next then some new
        else if x = new then some prev else h.prev? x) ∧
      (∀ x, h'.val? x = h.val? x) ∧ ∀ x, (h' x).isSome = (h x).isSome := by
  obtain ⟨h1, e1, p1, n1, v1, a1⟩ := Heap.setPrev_spec (v := new) hnext
  obtain ⟨h2, e2, n2, p2, v2, a2⟩ := Heap.setNext_spec (v := next) (by rw [a1]; exact hnew)
  obtain ⟨h3, e3, p3, n3, v3, a3⟩ := Heap.setPrev_spec (v := prev)
    (show (h2 new).isSome by rw [a2, a1]; exact hnew)
  obtain ⟨h4, e4, n4, p4, v4, a4⟩ := Heap.setNext_spec (v := new)
    (show (h3 prev).isSome by rw [a3, a2, a1]; exact hprev)
  refine ⟨h4, by simp [__listAdd, e1, e2, e3, e4], ?_, ?_, ?_, ?_⟩
  · intro x
    simp only [n4, n3, n2, n1]
  · intro x
    simp only [p4, p3, p2, p1]
    by_cases hx : x = new
    · simp [hx, hnn]
    · simp [hx]
  · intro x
    simp only [v4, v3, v2, v1]
  · intro x
    simp only [a4, a3, a2, a1]

/-- Whatever the list looks like, `list_add_tail` allocates and frees nothing. -/
theorem isSome_of_listAddTail {h h' : Heap α} {new head : Addr}
    (heq : listAddTail h new head = some h') (x : Addr) : (h' x).isSome = (h x).isSome := by
  simp only [listAddTail, __listAdd, Option.bind_eq_bind, Option.bind_eq_some_iff] at heq
  obtain ⟨prev, -, h₁, e₁, h₂, e₂, h₃, e₃, e₄⟩ := heq
  rw [Heap.isSome_of_modify e₄, Heap.isSome_of_modify e₃, Heap.isSome_of_modify e₂,
    Heap.isSome_of_modify e₁]

/-- `list_del` succeeds on a cell whose neighbours are allocated, makes them
    point to each other and leaves payloads and allocation alone. -/
theorem listDel_spec {h : Heap α} {entry prev next : Addr}
    (hep : h.prev? entry = some prev) (hen : h.next? entry = some next)
    (hprev : (h prev).isSome) (hnext : (h next).isSome) :
    ∃ h', listDel h entry = some h' ∧
      (∀ x, x ≠ entry → h'.next? x = if x = prev then some next else h.next? x) ∧
      (∀ x, x ≠ entry → h'.prev? x = if x = next then some prev else h.prev? x) ∧
      (∀ x, h'.val? x = h.val? x) ∧ ∀ x, (h' x).isSome = (h x).isSome := by
  have hentry : (h entry).isSome := by
    obtain ⟨c, hc, -⟩ := Heap.exists_cell_of_next? hen
    rw [hc]
    rfl
  obtain ⟨h1, e1, p1, n1, v1, a1⟩ := Heap.setPrev_spec (v := prev) hnext
  obtain ⟨h2, e2, n2, p2, v2, a2⟩ := Heap.setNext_spec (v := next)
    (show (h1 prev).isSome by rw [a1]; exact hprev)
  obtain ⟨h3, e3, n3, p3, v3, a3⟩ := Heap.setNext_spec (v := LIST_POISON1)
    (show (h2 entry).isSome by rw [a2, a1]; exact hentry)
  obtain ⟨h4, e4, p4, n4, v4, a4⟩ := Heap.setPrev_spec (v := LIST_POISON2)
    (show (h3 entry).isSome by rw [a3, a2, a1]; exact hentry)
  refine ⟨h4, by simp [listDel, __listDel, hep, hen, e1, e2, e3, e4], ?_, ?_, ?_, ?_⟩
  · intro x hx
    simp only [n4, n3, n2, n1, if_neg hx]
  · intro x hx
    simp only [p4, p3, p2, p1, if_neg hx]
  · intro x
    simp only [v4, v3, v2, v1]
  · intro x
    simp only [a4, a3, a2, a1]

/-! ## What they do to a circular list -/

variable {h : Heap α} {head new x : Addr} {xs ys : List Addr}

theorem initListHead_circular (h : Heap α) (list : Addr) :
    Circular (initListHead h list) list [] :=
  ⟨by simp, by simp [initListHead, Seg, Linked, Heap.next?, Heap.prev?]⟩

/-- The test of `list_empty` reads the head only. -/
theorem listEmpty_eq (hc : Circular h head xs) : listEmpty h head = some xs.isEmpty := by
  have hiff := hc.next?_head_eq_self_iff
  rw [hc.seg.first] at hiff
  rcases xs with _ | ⟨y, ys⟩
  · simp [listEmpty, hc.seg.first]
  · simpa [listEmpty, hc.seg.first] using hiff

theorem listAdd_circular (hc : Circular h head xs) (hnew : new ∉ head :: xs)
    (hlive : (h new).isSome) :
    ∃ h', listAdd h new head = some h' ∧ Circular h' head (new :: xs) ∧
      (∀ x, h'.val? x = h.val? x) ∧ ∀ x, (h' x).isSome = (h x).isSome := by
  have hfirst : firstOr xs head ∈ head :: xs := by
    have := firstOr_mem xs head
    simp only [List.mem_append, List.mem_cons, List.not_mem_nil, or_false] at this ⊢
    tauto
  obtain ⟨h', heq, hn, hp, hv, ha⟩ := __listAdd_spec hlive
    (hc.allocated head (by simp)) (hc.allocated _ hfirst)
    (fun heq => hnew (heq ▸ hfirst))
  refine ⟨h', by simp [listAdd, hc.seg.first, heq], ?_, hv, ha⟩
  have hc' : Circular h head ([] ++ xs) := hc
  exact hc'.insert hnew hn hp

theorem listAddTail_circular (hc : Circular h head xs) (hnew : new ∉ head :: xs)
    (hlive : (h new).isSome) :
    ∃ h', listAddTail h new head = some h' ∧ Circular h' head (xs ++ [new]) ∧
      (∀ x, h'.val? x = h.val? x) ∧ ∀ x, (h' x).isSome = (h x).isSome := by
  have hlast := lastOr_mem head xs
  obtain ⟨h', heq, hn, hp, hv, ha⟩ := __listAdd_spec hlive
    (hc.allocated _ hlast) (hc.allocated head (by simp))
    (fun heq => hnew (by simp [heq]))
  refine ⟨h', by simp [listAddTail, hc.seg.last, heq], ?_, hv, ha⟩
  have hc' : Circular h head (xs ++ []) := by simpa using hc
  apply hc'.insert _ hn hp
  simpa using hnew

/-- `list_del` takes a node out, wherever it stands. -/
theorem listDel_circular (hc : Circular h head (xs ++ x :: ys)) :
    ∃ h', listDel h x = some h' ∧ Circular h' head (xs ++ ys) ∧
      (∀ c, h'.val? c = h.val? c) ∧ ∀ c, (h' c).isSome = (h c).isSome := by
  obtain ⟨hleft, hright⟩ := Seg.append_cons.mp hc.seg
  have hlast : (h (lastOr head xs)).isSome := hleft.allocated _ (lastOr_mem head xs)
  have hfirst : (h (firstOr ys head)).isSome := by
    apply hc.allocated _
    have := firstOr_mem ys head
    simp only [List.mem_append, List.mem_cons, List.not_mem_nil, or_false] at this ⊢
    tauto
  obtain ⟨h', heq, hn, hp, hv, ha⟩ := listDel_spec hleft.last hright.first hlast hfirst
  exact ⟨h', heq, hc.remove hn hp, hv, ha⟩

/-! ## Nodes with payloads -/

section Nodes

variable {vs before after : List α} {v : α} {pos : Addr}

theorem isSome_of_alloc {h h' : Heap α} {node : Addr} {c : Cell α}
    (ha : ∀ x, (h' x).isSome = (h.alloc node c x).isSome) (x : Addr) :
    (h' x).isSome = (decide (x = node) || (h x).isSome) := by
  rw [ha]
  by_cases hx : x = node
  · simp [hx]
  · simp [h.alloc_of_ne c hx, hx]

/-- A new node that `list_add` links in comes first. -/
theorem listAdd_holds {node : Addr} (hh : Holds h head vs) (hfresh : h node = none) (v : α) :
    ∃ h', listAdd (h.alloc node { next := 0, prev := 0, val := some v }) node head = some h' ∧
      Holds h' head (v :: vs) ∧ ∀ x, (h' x).isSome = (decide (x = node) || (h x).isSome) := by
  obtain ⟨xs, hc, hxs⟩ := hh
  let c : Cell α := { next := 0, prev := 0, val := some v }
  obtain ⟨hc₁, hv₁⟩ := hc.alloc (c := c) hfresh
  obtain ⟨h', heq, hc₂, hv₂, ha₂⟩ := listAdd_circular hc₁ (hc.not_mem_of_none hfresh) (by simp)
  refine ⟨h', heq, ⟨node :: xs, hc₂, ?_⟩, isSome_of_alloc ha₂⟩
  have hnode : h'.val? node = some v := by
    rw [hv₂]
    simp [Heap.val?, c]
  rw [List.map_cons, List.map_cons, hnode,
    map_val?_congr hxs fun x hx => (hv₂ x).trans (hv₁ x (List.mem_cons_of_mem head hx))]

/-- A new node that `list_add_tail` links in comes last, behind the same nodes. -/
theorem listAddTail_nodes {node : Addr} (hc : Circular h head xs)
    (hxs : xs.map h.val? = vs.map some) (hfresh : h node = none) (v : α) :
    ∃ h', listAddTail (h.alloc node { next := 0, prev := 0, val := some v }) node head =
        some h' ∧ Circular h' head (xs ++ [node]) ∧
      (xs ++ [node]).map h'.val? = (vs ++ [v]).map some ∧
      ∀ x, (h' x).isSome = (decide (x = node) || (h x).isSome) := by
  let c : Cell α := { next := 0, prev := 0, val := some v }
  obtain ⟨hc₁, hv₁⟩ := hc.alloc (c := c) hfresh
  obtain ⟨h', heq, hc₂, hv₂, ha₂⟩ :=
    listAddTail_circular hc₁ (hc.not_mem_of_none hfresh) (by simp)
  refine ⟨h', heq, hc₂, ?_, isSome_of_alloc ha₂⟩
  have hnode : h'.val? node = some v := by
    rw [hv₂]
    simp [Heap.val?, c]
  rw [List.map_append, List.map_append, List.map_singleton, hnode, List.map_singleton,
    map_val?_congr hxs fun x hx => (hv₂ x).trans (hv₁ x (List.mem_cons_of_mem head hx))]

theorem listAddTail_holds {node : Addr} (hh : Holds h head vs) (hfresh : h node = none)
    (v : α) :
    ∃ h', listAddTail (h.alloc node { next := 0, prev := 0, val := some v }) node head =
        some h' ∧
      Holds h' head (vs ++ [v]) ∧ ∀ x, (h' x).isSome = (decide (x = node) || (h x).isSome) := by
  obtain ⟨xs, hc, hxs⟩ := hh
  obtain ⟨h', heq, hc', hxs', ha⟩ := listAddTail_nodes hc hxs hfresh v
  exact ⟨h', heq, ⟨xs ++ [node], hc', hxs'⟩, ha⟩

/-- `list_del` and `free` of a node leave the other nodes, and free no other memory. -/
theorem listDel_free_circular {ys : List Addr} (hc : Circular h head (xs ++ pos :: ys)) :
    ∃ h₁ h₂, listDel h pos = some h₁ ∧ h₁.free pos = some h₂ ∧
      Circular h₂ head (xs ++ ys) ∧ (∀ c ∈ xs ++ ys, h₂.val? c = h.val? c) ∧ h₂ pos = none ∧
      ∀ c, c ≠ pos → (h₂ c).isSome = (h c).isSome := by
  obtain ⟨h₁, e₁, hc₁, hv₁, ha₁⟩ := listDel_circular hc
  have hlive : (h₁ pos).isSome := by
    rw [ha₁]
    apply hc.allocated pos
    simp
  obtain ⟨h₂, e₂, hn₂, hf₂⟩ := Heap.free_spec hlive
  have hout : ∀ c ∈ head :: (xs ++ ys), c ≠ pos := by
    rintro c hmem rfl
    have hperm : (head :: (xs ++ c :: ys)).Perm (c :: head :: (xs ++ ys)) :=
      (List.Perm.cons head List.perm_middle).trans (List.Perm.swap c head _)
    exact (List.nodup_cons.mp (hperm.nodup_iff.mp hc.nodup)).1 hmem
  refine ⟨h₁, h₂, e₁, e₂, ?_, ?_, hn₂, fun c hne => by rw [hf₂ c hne, ha₁]⟩
  · apply hc₁.congr
    all_goals
      intro c hmem
      simp [Heap.next?, Heap.prev?, hf₂ c (hout c hmem)]
  · intro c hmem
    rw [← hv₁ c, Heap.val?, Heap.val?, hf₂ c (hout c (List.mem_cons_of_mem head hmem))]

/-- `list_del` and `free` of a node take out its payload and free its memory, and
    that of no other node. -/
theorem listDel_free (hh : HoldsAt h head before pos v after) :
    ∃ h₁ h₂, listDel h pos = some h₁ ∧ h₁.free pos = some h₂ ∧
      Holds h₂ head (before ++ after) ∧ h₂ pos = none ∧
      ∀ c, c ≠ pos → (h₂ c).isSome = (h c).isSome := by
  obtain ⟨xs, ys, hc, hxs, -, hys⟩ := hh
  obtain ⟨h₁, h₂, e₁, e₂, hc₂, hval, hn₂, hf₂⟩ := listDel_free_circular hc
  refine ⟨h₁, h₂, e₁, e₂, ⟨xs ++ ys, hc₂, ?_⟩, hn₂, hf₂⟩
  rw [List.map_append, List.map_append,
    map_val?_congr hxs fun c hmem => hval c (List.mem_append_left ys hmem),
    map_val?_congr hys fun c hmem => hval c (List.mem_append_right xs hmem)]

variable {p : α → Bool} {fuel : Nat}

/-- What a search reports: no payload satisfies `p`, or the node of the first one that
    does. -/
def Found (h : Heap α) (head : Addr) (p : α → Bool) (vs : List α) (r : Option Addr) : Prop :=
  match r with
  | none => ∀ v ∈ vs, p v = false
  | some pos => ∃ before v after, vs = before ++ v :: after ∧ (∀ w ∈ before, p w = false) ∧
      p v = true ∧ HoldsAt h head before pos v after

theorem listForEach_found {xs ys : List Addr} (hc : Circular h head (xs ++ ys))
    (hxs : xs.map h.val? = before.map some) (hbefore : ∀ w ∈ before, p w = false)
    (hys : ys.map h.val? = after.map some) (hfuel : after.length < fuel) :
    ∃ r, listForEach h head p fuel (firstOr ys head) = some r ∧
      Found h head p (before ++ after) r := by
  induction fuel generalizing xs ys before after with
  | zero => exact absurd hfuel (Nat.not_lt_zero _)
  | succ fuel ih =>
      rcases ys with _ | ⟨y, ys⟩
      · have hnil : after = [] := by simpa using hys.symm
        subst hnil
        refine ⟨none, by simp [listForEach], ?_⟩
        rw [List.append_nil]
        exact hbefore
      · rcases after with _ | ⟨v, after⟩
        · simp at hys
        obtain ⟨hv, hrest⟩ := List.cons.inj hys
        have hne : y ≠ head := by
          rintro rfl
          exact (List.nodup_cons.mp hc.nodup).1 (by simp)
        by_cases hp : p v = true
        · exact ⟨some y, by simp [listForEach, hne, hv, hp],
            before, v, after, rfl, hbefore, hp, xs, ys, hc, hxs, hv, hrest⟩
        · have hnext : h.next? y = some (firstOr ys head) :=
            (Seg.append_cons.mp hc.seg).2.first
          have hc' : Circular h head ((xs ++ [y]) ++ ys) := by simpa using hc
          have hbefore' : ∀ w ∈ before ++ [v], p w = false := by
            intro w hw
            rcases List.mem_append.mp hw with hw | hw
            · exact hbefore w hw
            · rw [List.mem_singleton.mp hw]
              simpa using hp
          obtain ⟨r, hr, hfound⟩ := ih hc' (by simp [hxs, hv]) hbefore' hrest
            (Nat.lt_of_succ_lt_succ hfuel)
          refine ⟨r, by simpa [listForEach, hne, hv, hp, hnext] using hr, ?_⟩
          simpa using hfound

/-- With fuel for every node a search comes to its end. -/
theorem listFind_found (hh : Holds h head vs) (hfuel : vs.length < fuel) :
    ∃ r, listFind h head p fuel = some r ∧ Found h head p vs r := by
  obtain ⟨xs, hc, hxs⟩ := hh
  have hc' : Circular h head ([] ++ xs) := hc
  have hnone : ([] : List Addr).map h.val? = ([] : List α).map some := rfl
  obtain ⟨r, hr, hfound⟩ := listForEach_found hc' hnone
    (fun w hw => absurd hw List.not_mem_nil) hxs hfuel
  exact ⟨r, by simp [listFind, hc.seg.first, hr], hfound⟩

/-- The structure that a search finds is the first one that satisfies `p`. -/
theorem Found.val {r : Option Addr} (hfound : Found h head p vs r) :
    r.bind h.val? = vs.find? p := by
  cases r with
  | none =>
      have hnone : vs.find? p = none := List.find?_eq_none.mpr fun v hv => by simp [hfound v hv]
      rw [hnone, Option.bind_none]
  | some pos =>
      obtain ⟨before, v, after, rfl, hbefore, hv, xs, ys, -, -, hval, -⟩ := hfound
      have hskip : before.find? p = none :=
        List.find?_eq_none.mpr fun w hw => by simp [hbefore w hw]
      rw [List.find?_append, hskip, Option.none_or, List.find?_cons_of_pos hv, Option.bind_some]
      exact hval

/-- A whole loop comes by all structures in their order. -/
theorem listValues_eq {a : Addr} {xs : List Addr} (hseg : Seg h a xs head)
    (hhead : head ∉ xs) (hxs : xs.map h.val? = vs.map some) (hfuel : vs.length < fuel) :
    listValues h head fuel (firstOr xs head) = some vs := by
  induction fuel generalizing a xs vs with
  | zero => exact absurd hfuel (Nat.not_lt_zero _)
  | succ fuel ih =>
      rcases xs with _ | ⟨x, xs⟩
      · have hnil : vs = [] := by simpa using hxs.symm
        simp [listValues, hnil]
      · rcases vs with _ | ⟨v, vs⟩
        · simp at hxs
        obtain ⟨hv, hrest⟩ := List.cons.inj hxs
        have hne : x ≠ head := fun heq => hhead (by simp [heq])
        have htail := ih hseg.2 (fun hmem => hhead (List.mem_cons_of_mem x hmem)) hrest
          (Nat.lt_of_succ_lt_succ hfuel)
        simp [listValues, hne, hv, hseg.2.first, htail]

end Nodes

end SocketPractice.Common
