import SocketPractice.SocketUdp.CliInfoList

/-!
# Threads at the registry of the server (`clientinfo_list.c`)

`GetCliInfoNodeByCliID` searches under the mutex and hands out the node after it has given
the mutex up; `SrvMsgProcessTask` then copies the node.  `DelCliInfoNodeFormListByCliID`
searches in one critical section, takes the node out in another and frees it in none.  So
a node is in the hands of threads that the mutex does not keep apart.

A critical section, the copy and the `free` are one step each.  `malloc` may hand out an
address again, so nodes are told apart by when they were allocated.  A client that is
removed is there when it is searched for, and a search that finds nothing ends a call of
`GetCliInfoNodeByCliID`.
-/

set_option linter.style.nameCheck false

namespace SocketPractice.SocketUdp

open Lib.Links Lib.Runs Common

/-! ## 1. The code -/

/-- A node as a thread has it: the address, and the how-manieth node it is. -/
structure NodeRef where
  pos : Addr
  id : Nat
deriving DecidableEq

/-- Where a thread is: after the search for a node to remove, after `list_del`, or after
    `GetCliInfoNodeByCliID`. -/
inductive RegistryPc where
  | idle
  | found (x : NodeRef)
  | unlinked (x : NodeRef)
  | got (x : NodeRef)
deriving DecidableEq

structure RegistryState (n : Nat) where
  list : CLisInfoList
  threads : Fin n → RegistryPc
  /-- The node at an address, and how many there have been. -/
  ids : Addr → Nat
  allocated : Nat
  unlinks : List Nat
  frees : List Nat
  /-- A node was taken out or freed a second time, a freed one was taken out, read or
      copied, or memory was accessed that is not allocated. -/
  fault : Bool

inductive RegistryEvent (n : Nat) where
  | add (t : Fin n) (cliID : EndID) (addr : SockaddrIn) (list node : Addr)
  | search (t : Fin n) (cliID : EndID) (list : Addr)
  | unlink (t : Fin n)
  | free (t : Fin n)
  | get (t : Fin n) (cliID : EndID) (list : Addr)
  | copy (t : Fin n)

section Step

variable {n : Nat}

def RegistryState.setThread (s : RegistryState n) (t : Fin n) (pc : RegistryPc) :
    RegistryState n :=
  { s with threads := Function.update s.threads t pc }

def registryStep (s : RegistryState n) : RegistryEvent n → Option (RegistryState n)
  | .add t cliID addr list node =>
      match s.threads t with
      | .idle =>
          if s.list.heap list = none ∧ s.list.heap node = none ∧ node ≠ list then
            match addNodeToCliInfoList s.list list node cliID addr with
            | none => some { s with fault := true }
            | some l =>
                some { s with
                  list := l, ids := Function.update s.ids node s.allocated
                  allocated := s.allocated + 1 }
          else none
      | _ => none
  | .search t cliID list =>
      match s.threads t with
      | .idle =>
          if s.list.heap list = none then
            match __getCliInfoNodeByCliID s.list list cliID with
            | none => some { s with fault := true }
            | some (_, none) => none
            | some (l, some pos) =>
                some { s.setThread t (.found ⟨pos, s.ids pos⟩) with list := l }
          else none
      | _ => none
  | .unlink t =>
      match s.threads t with
      | .found x =>
          if x.id ∈ s.unlinks ∨ x.id ∈ s.frees then
            some { s with fault := true }
          else
            match listDel s.list.heap x.pos with
            | none => some { s with fault := true }
            | some heap =>
                some { s.setThread t (.unlinked x) with
                  list := { s.list with heap := heap }, unlinks := x.id :: s.unlinks }
      | _ => none
  | .free t =>
      match s.threads t with
      | .unlinked x =>
          if x.id ∈ s.frees then
            some { s with fault := true }
          else
            match s.list.heap.free x.pos with
            | none => some { s with fault := true }
            | some heap =>
                some { s.setThread t .idle with
                  list := { s.list with heap := heap }, frees := x.id :: s.frees }
      | _ => none
  | .get t cliID list =>
      match s.threads t with
      | .idle =>
          if s.list.heap list = none then
            match getCliInfoNodeByCliID s.list list cliID with
            | none => some { s with fault := true }
            | some (l, none) => some { s.setThread t .idle with list := l }
            | some (l, some pos) =>
                some { s.setThread t (.got ⟨pos, s.ids pos⟩) with list := l }
          else none
      | _ => none
  | .copy t =>
      match s.threads t with
      | .got x =>
          if x.id ∈ s.frees ∨ s.list.heap.val? x.pos = none then
            some { s with fault := true }
          else
            some (s.setThread t .idle)
      | _ => none

def newRegistryState (n : Nat) : RegistryState n :=
  { list := ListTable.empty, threads := fun _ => .idle, ids := fun _ => 0, allocated := 0
    unlinks := [], frees := [], fault := false }

/-! ## 2. When the threads stay apart -/

/-- The node that the thread is about to take out. -/
def RegistryPc.unlinks : RegistryPc → Option Nat
  | .found x => some x.id
  | _ => none

/-- The node that the thread is about to copy. -/
def RegistryPc.copies : RegistryPc → Option Nat
  | .got x => some x.id
  | _ => none

/-- The node that a search finds is not one that another thread has searched for and not
    yet taken out, and a node that is freed is not one that a thread has still to copy. -/
def StaysApart (s : RegistryState n) : RegistryEvent n → Prop
  | .search _ cliID list =>
      match __getCliInfoNodeByCliID s.list list cliID with
      | some (_, some pos) => ∀ t, (s.threads t).unlinks ≠ some (s.ids pos)
      | _ => True
  | .free t =>
      match s.threads t with
      | .unlinked x => ∀ t', (s.threads t').copies ≠ some x.id
      | _ => True
  | _ => True

instance decidableStaysApart (s : RegistryState n) :
    (e : RegistryEvent n) → Decidable (StaysApart s e)
  | .add _ _ _ _ _ => isTrue trivial
  | .unlink _ => isTrue trivial
  | .get _ _ _ => isTrue trivial
  | .copy _ => isTrue trivial
  | .search _ cliID list =>
      match hget : __getCliInfoNodeByCliID s.list list cliID with
      | some (_, some pos) =>
          decidable_of_iff (∀ t, (s.threads t).unlinks ≠ some (s.ids pos))
            (by simp [StaysApart, hget])
      | some (_, none) => isTrue (by simp [StaysApart, hget])
      | none => isTrue (by simp [StaysApart, hget])
  | .free t =>
      match hpc : s.threads t with
      | .unlinked x =>
          decidable_of_iff (∀ t', (s.threads t').copies ≠ some x.id) (by simp [StaysApart, hpc])
      | .idle => isTrue (by simp [StaysApart, hpc])
      | .found _ => isTrue (by simp [StaysApart, hpc])
      | .got _ => isTrue (by simp [StaysApart, hpc])

/-- The steps with which a thread goes on at the node it has. -/
def GoesOn : RegistryEvent n → Prop
  | .unlink _ => True
  | .copy _ => True
  | _ => False

theorem staysApart_of_goesOn (s : RegistryState n) (e : RegistryEvent n) (he : GoesOn e) :
    StaysApart s e := by
  cases e with
  | unlink t => trivial
  | copy t => trivial
  | _ => exact absurd he id

/-! ## 3. The invariant -/

def RegistryPc.node : RegistryPc → Option NodeRef
  | .idle => none
  | .found x => some x
  | .unlinked x => some x
  | .got x => some x

/-- The node that the thread is removing. -/
def RegistryPc.removes : RegistryPc → Option Nat
  | .found x => some x.id
  | .unlinked x => some x.id
  | _ => none

/-- The node is still the one at its address, and not freed. -/
structure Live (s : RegistryState n) (x : NodeRef) : Prop where
  filled : (s.list.heap.val? x.pos).isSome = true
  same : s.ids x.pos = x.id
  notFreed : x.id ∉ s.frees

/-- No node is removed by two threads. -/
def Distinct (threads : Fin n → RegistryPc) : Prop :=
  ∀ t t' i, (threads t).removes = some i → (threads t').removes = some i → t = t'

structure RegistryInv (s : RegistryState n) (xs : List Addr) : Prop where
  sound : s.fault = false
  nodes : s.list.Nodes xs
  linked : ∀ a ∈ xs, s.ids a < s.allocated ∧ s.ids a ∉ s.unlinks
  inj : ∀ a ∈ xs, ∀ b ∈ xs, s.ids a = s.ids b → a = b
  unlinksLt : ∀ i ∈ s.unlinks, i < s.allocated
  frees : ∀ i ∈ s.frees, i ∈ s.unlinks
  live : ∀ t x, (s.threads t).node = some x → Live s x
  found : ∀ t x, s.threads t = .found x → x.pos ∈ xs
  unlinked : ∀ t x, s.threads t = .unlinked x →
    x.id ∈ s.unlinks ∧ x.pos ∉ xs ∧ s.list.head ≠ some x.pos
  distinct : Distinct s.threads

section Inv

variable {s : RegistryState n} {xs : List Addr} {t : Fin n}

theorem Live.allocated {x : NodeRef} (h : Live s x) : (s.list.heap x.pos).isSome = true :=
  ListTable.isSome_of_val? h.filled

/-- What holds of the position `pc` and of those of the other threads holds of all when
    `t` goes to `pc`. -/
theorem forall_update {P : RegistryPc → Prop} {threads : Fin n → RegistryPc} {pc : RegistryPc}
    (hpc : P pc) (hothers : ∀ u, u ≠ t → P (threads u)) (u : Fin n) :
    P (Function.update threads t pc u) := by
  by_cases hu : u = t
  · subst hu
    rwa [Function.update_self]
  · rw [Function.update_of_ne hu]
    exact hothers u hu

theorem Distinct.update {threads : Fin n → RegistryPc} (h : Distinct threads) {pc : RegistryPc}
    (hpc : ∀ i, pc.removes = some i → ∀ u, u ≠ t → (threads u).removes ≠ some i) :
    Distinct (Function.update threads t pc) := by
  intro u u' i hi hi'
  by_cases hu : u = t <;> by_cases hu' : u' = t
  · rw [hu, hu']
  · subst hu
    rw [Function.update_self] at hi
    rw [Function.update_of_ne hu'] at hi'
    exact absurd hi' (hpc i hi u' hu')
  · subst hu'
    rw [Function.update_self] at hi'
    rw [Function.update_of_ne hu] at hi
    exact absurd hi (hpc i hi' u hu)
  · rw [Function.update_of_ne hu] at hi
    rw [Function.update_of_ne hu'] at hi'
    exact h u u' i hi hi'

/-- A thread that takes up or puts down a node, and at most makes the list. -/
theorem RegistryInv.goTo (h : RegistryInv s xs) {list : CLisInfoList} (hlist : list.Nodes xs)
    (hkeeps : s.list.Keeps list) {pc : RegistryPc}
    (hlive : ∀ x, pc.node = some x → Live s x) (hfound : ∀ x, pc = .found x → x.pos ∈ xs)
    (hunlinked : ∀ x, pc ≠ .unlinked x)
    (hdistinct : ∀ i, pc.removes = some i → ∀ u, u ≠ t → (s.threads u).removes ≠ some i) :
    RegistryInv { s.setThread t pc with list := list } xs where
  sound := h.sound
  nodes := hlist
  linked := h.linked
  inj := h.inj
  unlinksLt := h.unlinksLt
  frees := h.frees
  live := by
    have hkeep : ∀ x, Live s x → Live { s.setThread t pc with list := list } x := by
      intro x hx
      refine ⟨?_, hx.same, hx.notFreed⟩
      rw [(hkeeps x.pos hx.allocated).1]
      exact hx.filled
    exact forall_update (P := fun pc' => ∀ x, pc'.node = some x → Live _ x)
      (fun x hx => hkeep x (hlive x hx)) fun u _ x hx => hkeep x (h.live u x hx)
  found := forall_update (P := fun pc' => ∀ x, pc' = .found x → x.pos ∈ xs) hfound
    fun u _ => h.found u
  unlinked := by
    refine forall_update (P := fun pc' => ∀ x, pc' = .unlinked x →
      x.id ∈ s.unlinks ∧ x.pos ∉ xs ∧ list.head ≠ some x.pos) ?_ ?_
    · exact fun x hx => absurd hx (hunlinked x)
    · intro u _ x hx
      obtain ⟨hmem, hout, hhead⟩ := h.unlinked u x hx
      have hcell := (h.live u x (by rw [hx]; rfl)).allocated
      exact ⟨hmem, hout, fun heq => hhead ((hkeeps x.pos hcell).2.2 heq)⟩
  distinct := h.distinct.update hdistinct

/-- A thread that goes to where it is not removing a node. -/
theorem RegistryInv.goOn (h : RegistryInv s xs) {list : CLisInfoList} (hlist : list.Nodes xs)
    (hkeeps : s.list.Keeps list) {pc : RegistryPc} (hpc : pc.removes = none)
    (hlive : ∀ x, pc.node = some x → Live s x) :
    RegistryInv { s.setThread t pc with list := list } xs := by
  refine h.goTo hlist hkeeps hlive ?_ ?_ ?_
  · rintro x rfl
    cases hpc
  · rintro x rfl
    cases hpc
  · intro i hi
    rw [hpc] at hi
    cases hi

/-- A thread that has searched for a node to take out, and no other thread is to. -/
theorem RegistryInv.toUnlink (h : RegistryInv s xs) {list : CLisInfoList}
    (hlist : list.Nodes xs) (hkeeps : s.list.Keeps list) {pos : Addr} (hin : pos ∈ xs)
    (hlive : Live s ⟨pos, s.ids pos⟩)
    (hapart : ∀ u, (s.threads u).unlinks ≠ some (s.ids pos)) :
    RegistryInv { s.setThread t (.found ⟨pos, s.ids pos⟩) with list := list } xs := by
  refine h.goTo hlist hkeeps ?_ ?_ ?_ ?_
  · rintro x ⟨⟩
    exact hlive
  · rintro x ⟨⟩
    exact hin
  · rintro x ⟨⟩
  · rintro i ⟨⟩ u -
    cases hu : s.threads u with
    | found y => exact fun heq => hapart u (by rw [hu]; exact heq)
    | unlinked y =>
        intro heq
        have hid : y.id = s.ids pos := Option.some.inj heq
        exact (h.linked pos hin).2 (hid ▸ (h.unlinked u y hu).1)
    | idle => rintro ⟨⟩
    | got y => rintro ⟨⟩

/-- A new node is none of those that were there before. -/
theorem RegistryInv.add (h : RegistryInv s xs) {list node : Addr}
    (hlist : s.list.heap list = none) (hnode : s.list.heap node = none) (hne : node ≠ list)
    (cliID : EndID) (addr : SockaddrIn) :
    ∃ l, addNodeToCliInfoList s.list list node cliID addr = some l ∧
      RegistryInv { s with
        list := l, ids := Function.update s.ids node s.allocated
        allocated := s.allocated + 1 } (node :: xs) := by
  obtain ⟨l, heq, hl, hkeeps⟩ := h.nodes.add hlist hnode hne ⟨cliID, addr⟩
  have hother : ∀ c, (s.list.heap c).isSome = true → c ≠ node := by
    rintro c hcell rfl
    rw [hnode] at hcell
    cases hcell
  have hids : ∀ a ∈ xs, Function.update s.ids node s.allocated a = s.ids a := fun a ha =>
    Function.update_of_ne (hother a (h.nodes.allocated ha)) _ _
  refine ⟨l, heq, { h with
    nodes := hl, linked := ?_, inj := ?_, unlinksLt := ?_, live := ?_, found := ?_,
    unlinked := ?_ }⟩
  · intro a ha
    rcases List.mem_cons.mp ha with rfl | ha
    · simp only [Function.update_self]
      exact ⟨Nat.lt_succ_self _, fun hmem => Nat.lt_irrefl _ (h.unlinksLt _ hmem)⟩
    · simp only [hids a ha]
      exact ⟨Nat.lt_succ_of_lt (h.linked a ha).1, (h.linked a ha).2⟩
  · intro a ha b hb hab
    simp only at hab
    by_cases han : a = node <;> by_cases hbn : b = node
    · rw [han, hbn]
    · have hb' := (List.mem_cons.mp hb).resolve_left hbn
      rw [han, Function.update_self, hids b hb'] at hab
      exact absurd (h.linked b hb').1 (by omega)
    · have ha' := (List.mem_cons.mp ha).resolve_left han
      rw [hbn, Function.update_self, hids a ha'] at hab
      exact absurd (h.linked a ha').1 (by omega)
    · have ha' := (List.mem_cons.mp ha).resolve_left han
      have hb' := (List.mem_cons.mp hb).resolve_left hbn
      rw [hids a ha', hids b hb'] at hab
      exact h.inj a ha' b hb' hab
  · exact fun i hi => Nat.lt_succ_of_lt (h.unlinksLt i hi)
  · intro t x hx
    have hlive := h.live t x hx
    have hcell := hlive.allocated
    refine ⟨?_, ?_, hlive.notFreed⟩
    · rw [(hkeeps x.pos hcell).1]
      exact hlive.filled
    · simp only [Function.update_of_ne (hother x.pos hcell), hlive.same]
  · exact fun t x hx => List.mem_cons_of_mem node (h.found t x hx)
  · intro t x hx
    obtain ⟨hmem, hout, hhead⟩ := h.unlinked t x hx
    have hcell := (h.live t x (by rw [hx]; rfl)).allocated
    refine ⟨hmem, ?_, fun heq => hhead ((hkeeps x.pos hcell).2.2 heq)⟩
    intro hmem'
    rcases List.mem_cons.mp hmem' with heq | hmem'
    · exact hother x.pos hcell heq
    · exact hout hmem'

/-- The thread that has searched for a node takes it out, and no other thread was to. -/
theorem RegistryInv.unlink (h : RegistryInv s xs) {x : NodeRef} (hpc : s.threads t = .found x) :
    ¬ (x.id ∈ s.unlinks ∨ x.id ∈ s.frees) ∧
      ∃ heap, listDel s.list.heap x.pos = some heap ∧
        RegistryInv { s.setThread t (.unlinked x) with
          list := { s.list with heap := heap }, unlinks := x.id :: s.unlinks }
          (xs.erase x.pos) := by
  have hpos := h.found t x hpc
  have hlive := h.live t x (by rw [hpc]; rfl)
  have hid := hlive.same ▸ (h.linked x.pos hpos).2
  have hnodup := h.nodes.nodup
  have hmem : ∀ a, a ∈ xs.erase x.pos ↔ a ≠ x.pos ∧ a ∈ xs := fun a => hnodup.mem_erase_iff
  refine ⟨fun hor => hor.elim hid hlive.notFreed, ?_⟩
  obtain ⟨heap, heq, hnodes, hkeeps⟩ := h.nodes.listDel hpos
  refine ⟨heap, heq, ⟨h.sound, hnodes, ?_, ?_, ?_, ?_, ?_, ?_, ?_, ?_⟩⟩
  · intro a ha
    obtain ⟨hne, ha⟩ := (hmem a).mp ha
    refine ⟨(h.linked a ha).1, fun hin => ?_⟩
    rcases List.mem_cons.mp hin with heq | hin
    · exact hne (h.inj a ha x.pos hpos (heq.trans hlive.same.symm))
    · exact (h.linked a ha).2 hin
  · exact fun a ha b hb => h.inj a ((hmem a).mp ha).2 b ((hmem b).mp hb).2
  · intro i hi
    rcases List.mem_cons.mp hi with rfl | hi
    · exact hlive.same ▸ (h.linked x.pos hpos).1
    · exact h.unlinksLt i hi
  · exact fun i hi => List.mem_cons_of_mem _ (h.frees i hi)
  · have hkeep : ∀ y, Live s y → Live { s.setThread t (.unlinked x) with
        list := { s.list with heap := heap }, unlinks := x.id :: s.unlinks } y := by
      intro y hy
      refine ⟨?_, hy.same, hy.notFreed⟩
      rw [(hkeeps y.pos hy.allocated).1]
      exact hy.filled
    refine forall_update (P := fun pc' => ∀ y, pc'.node = some y → Live _ y) ?_
      fun u _ y hy => hkeep y (h.live u y hy)
    rintro y ⟨⟩
    exact hkeep _ hlive
  · refine forall_update (P := fun pc' => ∀ y, pc' = .found y → y.pos ∈ xs.erase x.pos) ?_ ?_
    · rintro y ⟨⟩
    · intro u hu y hy
      refine (hmem y.pos).mpr ⟨fun hsame => hu ?_, h.found u y hy⟩
      -- a second thread that was to take out the node would be this one
      have hy' := (h.live u y (by rw [hy]; rfl)).same
      rw [hsame, hlive.same] at hy'
      exact h.distinct u t x.id (by rw [hy, hy']; rfl) (by rw [hpc]; rfl)
  · refine forall_update (P := fun pc' => ∀ y, pc' = .unlinked y → y.id ∈ x.id :: s.unlinks ∧
      y.pos ∉ xs.erase x.pos ∧ s.list.head ≠ some y.pos) ?_ ?_
    · rintro y ⟨⟩
      refine ⟨List.mem_cons_self, fun hin => ((hmem _).mp hin).1 rfl, ?_⟩
      intro hhead
      have hc := h.nodes.circular
      rw [hhead] at hc
      exact (List.nodup_cons.mp hc.nodup).1 hpos
    · intro u _ y hy
      obtain ⟨hin, hout, hhead⟩ := h.unlinked u y hy
      exact ⟨List.mem_cons_of_mem _ hin, fun hin' => hout ((hmem _).mp hin').2, hhead⟩
  · apply h.distinct.update
    intro i hi u hu hi'
    refine hu (h.distinct u t i hi' ?_)
    rw [hpc]
    exact hi

/-- The thread that took a node out frees it while no other thread has it. -/
theorem RegistryInv.free (h : RegistryInv s xs) {x : NodeRef} (hpc : s.threads t = .unlinked x)
    (hcopies : ∀ t', (s.threads t').copies ≠ some x.id) :
    x.id ∉ s.frees ∧ ∃ heap, s.list.heap.free x.pos = some heap ∧
      RegistryInv { s.setThread t .idle with
        list := { s.list with heap := heap }, frees := x.id :: s.frees } xs := by
  obtain ⟨hin, hout, hhead⟩ := h.unlinked t x hpc
  have hlive := h.live t x (by rw [hpc]; rfl)
  refine ⟨hlive.notFreed, ?_⟩
  obtain ⟨heap, heq, hnodes, hother⟩ := h.nodes.free hout hhead hlive.allocated
  -- the nodes of the other threads are other nodes
  have hne : ∀ u, u ≠ t → ∀ y, (s.threads u).node = some y → y.id ≠ x.id := by
    intro u hu y hy hid
    cases hpcu : s.threads u with
    | idle =>
        rw [hpcu] at hy
        cases hy
    | found z =>
        rw [hpcu] at hy
        cases hy
        have hz := (h.linked y.pos (h.found u y hpcu)).2
        rw [(h.live u y (by rw [hpcu]; rfl)).same, hid] at hz
        exact hz hin
    | unlinked z =>
        rw [hpcu] at hy
        cases hy
        exact hu (h.distinct u t x.id (by rw [hpcu, ← hid]; rfl) (by rw [hpc]; rfl))
    | got z =>
        rw [hpcu] at hy
        cases hy
        exact hcopies u (by rw [hpcu, ← hid]; rfl)
  refine ⟨heap, heq, ⟨h.sound, hnodes, h.linked, h.inj, h.unlinksLt, ?_, ?_, ?_, ?_, ?_⟩⟩
  · intro i hi
    rcases List.mem_cons.mp hi with rfl | hi
    · exact hin
    · exact h.frees i hi
  · refine forall_update (P := fun pc' => ∀ y, pc'.node = some y → Live _ y) ?_ ?_
    · rintro y ⟨⟩
    · intro u hu y hy
      have hy' := h.live u y hy
      have hpos : y.pos ≠ x.pos := by
        intro hsame
        apply hne u hu y hy
        rw [← hy'.same, hsame, hlive.same]
      refine ⟨?_, hy'.same, ?_⟩
      · simp only [Heap.val?, hother y.pos hpos]
        exact hy'.filled
      · intro hmem
        rcases List.mem_cons.mp hmem with hid | hmem
        · exact hne u hu y hy hid
        · exact hy'.notFreed hmem
  · refine forall_update (P := fun pc' => ∀ y, pc' = .found y → y.pos ∈ xs) ?_
      fun u _ => h.found u
    rintro y ⟨⟩
  · refine forall_update (P := fun pc' => ∀ y, pc' = .unlinked y → y.id ∈ s.unlinks ∧
      y.pos ∉ xs ∧ s.list.head ≠ some y.pos) ?_ fun u _ => h.unlinked u
    rintro y ⟨⟩
  · apply h.distinct.update
    rintro i ⟨⟩

/-- What a search gives a thread is a node of the table. -/
theorem RegistryInv.search (h : RegistryInv s xs) {list : Addr}
    (hlist : s.list.heap list = none) (cliID : EndID) :
    ∃ r, __getCliInfoNodeByCliID s.list list cliID = some (s.list.init list, r) ∧
      (s.list.init list).Nodes xs ∧ s.list.Keeps (s.list.init list) ∧
      ∀ pos, r = some pos → pos ∈ xs ∧ Live s ⟨pos, s.ids pos⟩ := by
  obtain ⟨hinit, hkeeps, -⟩ := h.nodes.init hlist
  obtain ⟨r, hr, hmem⟩ := h.nodes.find hlist fun tmpNode => tmpNode.cliID = cliID
  refine ⟨r, hr, hinit, hkeeps, ?_⟩
  intro pos hpos
  have hin := hmem pos hpos
  exact ⟨hin, h.nodes.filled pos hin, rfl, fun hfree => (h.linked pos hin).2 (h.frees _ hfree)⟩

/-! ## 4. Steps -/

/-- While the threads stay apart every step keeps the invariant. -/
theorem registryInv_step (s : RegistryState n) (e : RegistryEvent n) (t : RegistryState n)
    (hs : ∃ xs, RegistryInv s xs) (hG : StaysApart s e) (hstep : registryStep s e = some t) :
    ∃ xs, RegistryInv t xs := by
  obtain ⟨xs, h⟩ := hs
  cases e with
  | add th cliID addr list node =>
      simp only [registryStep] at hstep
      split at hstep
      · split at hstep
        · next hfresh =>
          obtain ⟨l, heq, h'⟩ := h.add hfresh.1 hfresh.2.1 hfresh.2.2 cliID addr
          rw [heq] at hstep
          cases hstep
          exact ⟨_, h'⟩
        · cases hstep
      · cases hstep
  | search th cliID list =>
      simp only [registryStep] at hstep
      split at hstep
      · split at hstep
        · next hlist =>
          obtain ⟨r, heq, hnodes, hkeeps, hmem⟩ := h.search hlist cliID
          simp only [StaysApart, heq] at hG
          rw [heq] at hstep
          cases r with
          | none => cases hstep
          | some pos =>
              cases hstep
              obtain ⟨hin, hlive⟩ := hmem pos rfl
              exact ⟨xs, h.toUnlink hnodes hkeeps hin hlive hG⟩
        · cases hstep
      · cases hstep
  | unlink th =>
      simp only [registryStep] at hstep
      split at hstep
      · next x hpc =>
        obtain ⟨hnot, heap, heq, h'⟩ := h.unlink hpc
        rw [if_neg hnot, heq] at hstep
        cases hstep
        exact ⟨_, h'⟩
      · cases hstep
  | free th =>
      simp only [registryStep] at hstep
      split at hstep
      · next x hpc =>
        simp only [StaysApart, hpc] at hG
        obtain ⟨hnot, heap, heq, h'⟩ := h.free hpc hG
        rw [if_neg hnot, heq] at hstep
        cases hstep
        exact ⟨_, h'⟩
      · cases hstep
  | get th cliID list =>
      simp only [registryStep, getCliInfoNodeByCliID] at hstep
      split at hstep
      · split at hstep
        · next hlist =>
          obtain ⟨r, heq, hnodes, hkeeps, hmem⟩ := h.search hlist cliID
          rw [heq] at hstep
          cases r with
          | none =>
              cases hstep
              refine ⟨xs, h.goOn hnodes hkeeps rfl ?_⟩
              rintro x ⟨⟩
          | some pos =>
              cases hstep
              refine ⟨xs, h.goOn hnodes hkeeps rfl ?_⟩
              rintro x ⟨⟩
              exact (hmem pos rfl).2
        · cases hstep
      · cases hstep
  | copy th =>
      simp only [registryStep] at hstep
      split at hstep
      · next x hpc =>
        have hlive := h.live th x (by rw [hpc]; rfl)
        have hnot : ¬ (x.id ∈ s.frees ∨ s.list.heap.val? x.pos = none) := by
          rintro (hfree | hnone)
          · exact hlive.notFreed hfree
          · have hfilled := hlive.filled
            rw [hnone] at hfilled
            cases hfilled
        rw [if_neg hnot] at hstep
        cases hstep
        refine ⟨xs, h.goOn h.nodes (ListTable.Keeps.refl _) rfl ?_⟩
        rintro x ⟨⟩
      · cases hstep

/-- Two threads that have searched for the same node both take it out. -/
theorem unlinked_twice {u u' : Fin n} {x y : NodeRef} (hu : s.threads u = .found x)
    (hu' : s.threads u' = .found y) (hne : u ≠ u') (hid : x.id = y.id) :
    ¬ Always registryStep (fun s => s.fault = false) s [.unlink u, .unlink u'] := by
  intro hall
  have hfirst := hall.2
  simp only [registryStep, hu] at hfirst
  split at hfirst
  · exact absurd (hfirst _ rfl).1 Bool.false_ne_true.symm
  · split at hfirst
    · exact absurd (hfirst _ rfl).1 Bool.false_ne_true.symm
    · have hsecond := (hfirst _ rfl).2
      simp only [registryStep, RegistryState.setThread, Function.update_of_ne (Ne.symm hne),
        hu', ← hid, List.mem_cons, true_or, if_true, Option.some.injEq] at hsecond
      exact absurd (hsecond _ rfl) Bool.false_ne_true.symm

/-- A thread that has a freed node copies it. -/
theorem copied_after_free {u : Fin n} {x : NodeRef} (hu : s.threads u = .got x)
    (hfree : x.id ∈ s.frees) :
    ¬ Always registryStep (fun s => s.fault = false) s [.copy u] := by
  intro hall
  have hcopy := hall.2
  simp only [registryStep, hu, if_pos (Or.inl hfree)] at hcopy
  exact absurd (hcopy _ rfl) Bool.false_ne_true.symm

/-- A step with which the threads no longer stay apart goes wrong when they go on. -/
theorem fault_of_not_staysApart {e : RegistryEvent n} {s' : RegistryState n}
    (hs : ∃ xs, RegistryInv s xs) (hG : ¬ StaysApart s e) (hstep : registryStep s e = some s') :
    ∃ fs, (∀ f ∈ fs, GoesOn f) ∧ ¬ Always registryStep (fun s => s.fault = false) s' fs := by
  obtain ⟨xs, h⟩ := hs
  cases e with
  | search th cliID list =>
      simp only [registryStep] at hstep
      split at hstep
      · next hidle =>
        split at hstep
        · next hlist =>
          obtain ⟨r, heq, -⟩ := h.search hlist cliID
          simp only [StaysApart, heq] at hG
          rw [heq] at hstep
          cases r with
          | none => exact absurd trivial hG
          | some pos =>
              cases hstep
              simp only [not_forall, not_not] at hG
              obtain ⟨u, hu⟩ := hG
              cases hpcu : s.threads u with
              | found y =>
                  rw [hpcu] at hu
                  have hne : th ≠ u := by
                    rintro rfl
                    rw [hidle] at hpcu
                    cases hpcu
                  refine ⟨[.unlink th, .unlink u], ?_, unlinked_twice (x := ⟨pos, s.ids pos⟩)
                    (y := y) ?_ ?_ hne (Option.some.inj hu).symm⟩
                  · intro f hf
                    rcases List.mem_pair.mp hf with rfl | rfl
                    · trivial
                    · trivial
                  · simp [RegistryState.setThread]
                  · simpa [RegistryState.setThread, Function.update_of_ne (Ne.symm hne)] using hpcu
              | _ =>
                  rw [hpcu] at hu
                  cases hu
        · cases hstep
      · cases hstep
  | free th =>
      simp only [registryStep] at hstep
      split at hstep
      · next x hpc =>
        simp only [StaysApart, hpc, not_forall, not_not] at hG
        obtain ⟨u, hu⟩ := hG
        obtain ⟨hin, hout, hhead⟩ := h.unlinked th x hpc
        have hlive := h.live th x (by rw [hpc]; rfl)
        obtain ⟨heap, heq, -⟩ := h.nodes.free hout hhead hlive.allocated
        rw [if_neg hlive.notFreed, heq] at hstep
        cases hstep
        cases hpcu : s.threads u with
        | got y =>
            rw [hpcu] at hu
            have hid : y.id = x.id := Option.some.inj hu
            have hne : u ≠ th := by
              rintro rfl
              rw [hpc] at hpcu
              cases hpcu
            refine ⟨[.copy u], ?_, copied_after_free (x := y) ?_ ?_⟩
            · intro f hf
              rw [List.mem_singleton.mp hf]
              trivial
            · simpa [RegistryState.setThread, Function.update_of_ne hne] using hpcu
            · rw [hid]
              exact List.mem_cons_self
        | _ =>
            rw [hpcu] at hu
            cases hu
      · cases hstep
  | _ => exact absurd trivial hG

end Inv

theorem newRegistryState_inv : RegistryInv (newRegistryState n) [] where
  sound := rfl
  nodes := ListTable.empty_nodes
  linked := by rintro a ⟨⟩
  inj := by rintro a ⟨⟩
  unlinksLt := by rintro i ⟨⟩
  frees := by rintro i ⟨⟩
  live := by rintro t x ⟨⟩
  found := by rintro t x ⟨⟩
  unlinked := by rintro t x ⟨⟩
  distinct := by rintro t t' i ⟨⟩

/-! ## 5. Runs -/

/-- A run is free of faults, whichever of its threads go on at the nodes they have and
    when, exactly if in all its steps the threads stay apart. -/
theorem registry_nodes_safe_iff (n : Nat) (evs : List (RegistryEvent n)) (s : RegistryState n)
    (hrun : exec registryStep (newRegistryState n) evs = some s) :
    (∀ pre, pre <+: evs → ∀ fs, (∀ f ∈ fs, GoesOn f) →
      Always registryStep (fun s => s.fault = false) (newRegistryState n) (pre ++ fs)) ↔
      Along registryStep StaysApart (newRegistryState n) evs :=
  always_continued_iff_along (J := fun s => ∃ xs, RegistryInv s xs) registryInv_step
    (fun _ ⟨_, h⟩ => h.sound) staysApart_of_goesOn
    (fun _ _ _ hs hG hstep => fault_of_not_staysApart hs hG hstep)
    ⟨[], newRegistryState_inv⟩ hrun

end Step

/-- Two threads remove the same client at the same time: the second `list_del` gets a node
    that is out already. -/
theorem removed_twice :
    ∃ s, exec registryStep (newRegistryState 2)
        [.add ⟨0, Nat.two_pos⟩ 7 addrA 40 41, .search ⟨0, Nat.two_pos⟩ 7 42,
          .search ⟨1, Nat.one_lt_two⟩ 7 42, .unlink ⟨0, Nat.two_pos⟩,
          .unlink ⟨1, Nat.one_lt_two⟩] = some s ∧ s.fault = true := by
  apply Option.map_eq_some_iff.mp
  decide +kernel

/-- One thread copies the node of a client before the other one removes it, and its memory
    is used again. -/
theorem registry_nodes_safe_one_after_the_other :
    ∃ s, exec registryStep (newRegistryState 2)
        [.add ⟨0, Nat.two_pos⟩ 7 addrA 40 41, .get ⟨1, Nat.one_lt_two⟩ 7 42,
          .search ⟨0, Nat.two_pos⟩ 7 42, .copy ⟨1, Nat.one_lt_two⟩, .unlink ⟨0, Nat.two_pos⟩,
          .free ⟨0, Nat.two_pos⟩, .add ⟨1, Nat.one_lt_two⟩ 7 addrB 42 41] = some s ∧
      Always registryStep (fun s => s.fault = false) (newRegistryState 2)
        ([.add ⟨0, Nat.two_pos⟩ 7 addrA 40 41, .get ⟨1, Nat.one_lt_two⟩ 7 42,
          .search ⟨0, Nat.two_pos⟩ 7 42, .copy ⟨1, Nat.one_lt_two⟩, .unlink ⟨0, Nat.two_pos⟩,
          .free ⟨0, Nat.two_pos⟩, .add ⟨1, Nat.one_lt_two⟩ 7 addrB 42 41] ++ []) := by
  have hrun : (exec registryStep (newRegistryState 2)
      [.add ⟨0, Nat.two_pos⟩ 7 addrA 40 41, .get ⟨1, Nat.one_lt_two⟩ 7 42,
        .search ⟨0, Nat.two_pos⟩ 7 42, .copy ⟨1, Nat.one_lt_two⟩, .unlink ⟨0, Nat.two_pos⟩,
        .free ⟨0, Nat.two_pos⟩, .add ⟨1, Nat.one_lt_two⟩ 7 addrB 42 41]).isSome := by
    decide +kernel
  obtain ⟨s, hs⟩ := Option.isSome_iff_exists.mp hrun
  refine ⟨s, hs, (registry_nodes_safe_iff 2 _ s hs).mpr (by decide +kernel) _ List.prefix_rfl [] ?_⟩
  rintro f ⟨⟩

end SocketPractice.SocketUdp
