import SocketPractice.Common.ListTable
import SocketPractice.Lib.Runs
import SocketPractice.SocketUdp.LcMsg

/-!
# The registry of the server (`clientinfo_list.c`)

Every registration of a client puts a new node at the head of the list, whether or not
the client is there already, and a search takes the first node with the identity it
looks for.  A removal takes the node that a search finds, without a look at whether it
found one.  The registry is therefore a map as long as the client to be removed has one
node: of several the next older one comes to light, and with none `list_del` writes
through `NULL`.

Each call holds the mutex while it uses the list.  The address that `malloc` returns in
a call is a parameter of it, and so is the one for the list itself, which the first call
makes.
-/

set_option linter.style.nameCheck false

namespace SocketPractice.SocketUdp

open Lib.Bytes Lib.Links Lib.Keyed Lib.Runs Common

/-! ## 1. The code -/

/-- `sizeof(struct sockaddr_in)`. -/
def sizeofSockaddrIn : Nat := 16

abbrev SockaddrIn := Buf sizeofSockaddrIn

structure ClisInfoListNode where
  cliID : EndID
  addr : SockaddrIn
deriving DecidableEq

/-- `g_clisInfoList`, with the `infoList` that the first call makes. -/
abbrev CLisInfoList := ListTable ClisInfoListNode

def initCliInfoList (s : CLisInfoList) (list : Addr) : CLisInfoList := s.init list

def addNodeToCliInfoList (s : CLisInfoList) (list node : Addr) (cliID : EndID)
    (addr : SockaddrIn) : Option CLisInfoList :=
  s.add list node ⟨cliID, addr⟩

def __getCliInfoNodeByCliID (s : CLisInfoList) (list : Addr) (cliID : EndID) :
    Option (CLisInfoList × Option Addr) :=
  s.find list fun tmpNode => tmpNode.cliID = cliID

/-- The node that was searched for is used untested. -/
def delCliInfoNodeFormListByCliID (s : CLisInfoList) (list : Addr) (cliID : EndID) :
    Option CLisInfoList := do
  let (s, listNode) ← __getCliInfoNodeByCliID (initCliInfoList s list) list cliID
  s.remove (← listNode)

def getCliInfoNodeByCliID (s : CLisInfoList) (list : Addr) (cliID : EndID) :
    Option (CLisInfoList × Option Addr) :=
  __getCliInfoNodeByCliID s list cliID

/-- The address in the node that a search returns, or `none` inside for `NULL`. -/
def addrOf (s : CLisInfoList) (list : Addr) (cliID : EndID) : Option (Option SockaddrIn) := do
  let (s, listNode) ← getCliInfoNodeByCliID s list cliID
  match listNode with
  | none => return none
  | some pos => return some (← s.heap.val? pos).addr

/-! ## 2. The calls on the list they leave -/

section Calls

variable {s : CLisInfoList} {vs : List ClisInfoListNode}

theorem addrOf_eq (hs : s.Lists vs) (list : Addr) (cliID : EndID) :
    addrOf s list cliID = some ((first ClisInfoListNode.cliID vs cliID).map
      ClisInfoListNode.addr) := by
  obtain ⟨r, hget, hfirst, hnone⟩ := hs.find_first ClisInfoListNode.cliID list cliID
  have hget : getCliInfoNodeByCliID s list cliID = some (s.init list, r) := hget
  unfold addrOf
  rw [hget, ← hfirst]
  cases r with
  | none => simp
  | some pos =>
      cases hval : (s.init list).heap.val? pos with
      | none =>
          rw [← hfirst] at hnone
          exact absurd (hnone (by simp [hval])) (by simp)
      | some v => simp [hval]

/-- A removal takes out the first node of the client; without one it goes wrong. -/
theorem delCliInfoNodeFormListByCliID_spec (hs : s.Lists vs) (list : Addr) (cliID : EndID) :
    if entries ClisInfoListNode.cliID vs cliID = 0 then
      delCliInfoNodeFormListByCliID s list cliID = none
    else ∃ s', delCliInfoNodeFormListByCliID s list cliID = some s' ∧
      s'.Lists (removeFirst ClisInfoListNode.cliID vs cliID) := by
  have hfind := (hs.init list).find_remove ClisInfoListNode.cliID list cliID
  by_cases hzero : entries ClisInfoListNode.cliID vs cliID = 0
  · rw [if_pos hzero] at hfind ⊢
    simp [delCliInfoNodeFormListByCliID, __getCliInfoNodeByCliID, initCliInfoList, hfind]
  · rw [if_neg hzero] at hfind ⊢
    obtain ⟨pos, s', hpos, hremove, hlists⟩ := hfind
    exact ⟨s', by simp [delCliInfoNodeFormListByCliID, __getCliInfoNodeByCliID, initCliInfoList,
      hpos, hremove], hlists⟩

end Calls

/-! ## 3. Sequences of calls -/

/-- A call, with the addresses `malloc` returns in it. -/
inductive CliInfoCall where
  | add (cliID : EndID) (addr : SockaddrIn) (list node : Addr)
  | del (cliID : EndID) (list : Addr)
  | get (cliID : EndID) (list : Addr)
deriving DecidableEq

/-- The registry, whether a call has touched memory that is not allocated, and the
    calls that were made, the latest first. -/
structure CliInfoRun where
  list : CLisInfoList
  faulted : Bool
  history : List (Change EndID SockaddrIn)

/-- One call.  What `malloc` returns is not in use, and after a fault there are no more
    calls. -/
def cliInfoStep (r : CliInfoRun) : CliInfoCall → Option CliInfoRun
  | .add cliID addr list node =>
      if r.faulted = false ∧ r.list.heap list = none ∧ r.list.heap node = none ∧ node ≠ list then
        let history := .put cliID addr :: r.history
        match addNodeToCliInfoList r.list list node cliID addr with
        | some list => some { list := list, faulted := false, history := history }
        | none => some { list := r.list, faulted := true, history := history }
      else none
  | .del cliID list =>
      if r.faulted = false ∧ r.list.heap list = none then
        let history := .drop cliID :: r.history
        match delCliInfoNodeFormListByCliID r.list list cliID with
        | some list => some { list := list, faulted := false, history := history }
        | none => some { list := r.list, faulted := true, history := history }
      else none
  | .get cliID list =>
      if r.faulted = false ∧ r.list.heap list = none then
        match getCliInfoNodeByCliID r.list list cliID with
        | some (list, _) => some { r with list := list }
        | none => some { r with faulted := true }
      else none

def newCliInfoRun : CliInfoRun :=
  { list := ListTable.empty, faulted := false, history := [] }

/-- No call has gone wrong, and a lookup returns the address of the latest
    registration of the client, if it was not removed after it. -/
def IsMap (r : CliInfoRun) : Prop :=
  r.faulted = false ∧ ∀ cliID list, addrOf r.list list cliID = some (value r.history cliID)

/-- A client is removed when it was registered once more than removed. -/
def RemovesOnlyNode (r : CliInfoRun) : CliInfoCall → Prop
  | .del cliID _ => puts r.history cliID = drops r.history cliID + 1
  | _ => True

instance (r : CliInfoRun) (c : CliInfoCall) : Decidable (RemovesOnlyNode r c) := by
  unfold RemovesOnlyNode
  cases c <;> infer_instance

/-- Registrations and removals of a client account for its nodes. -/
structure CliInfoInv (r : CliInfoRun) (vs : List ClisInfoListNode) : Prop where
  lists : r.list.Lists vs
  counts : ∀ cliID, r.faulted = false →
    entries ClisInfoListNode.cliID vs cliID + drops r.history cliID = puts r.history cliID

theorem isMap_iff {r : CliInfoRun} {vs : List ClisInfoListNode} (hs : r.list.Lists vs) :
    IsMap r ↔ r.faulted = false ∧ ∀ cliID,
      (first ClisInfoListNode.cliID vs cliID).map ClisInfoListNode.addr =
        value r.history cliID := by
  simp only [IsMap, addrOf_eq hs, Option.some.injEq, forall_const]

section Step

variable {r t : CliInfoRun} {vs : List ClisInfoListNode}

theorem cliInfoStep_add {cliID : EndID} {addr : SockaddrIn} {list node : Addr}
    (hr : CliInfoInv r vs) (hstep : cliInfoStep r (.add cliID addr list node) = some t) :
    CliInfoInv t (⟨cliID, addr⟩ :: vs) ∧ (IsMap r → IsMap t) := by
  simp only [cliInfoStep, Option.ite_none_right_eq_some] at hstep
  obtain ⟨⟨hok, -, hnode, hne⟩, hstep⟩ := hstep
  obtain ⟨list', heq, hs'⟩ := hr.lists.add hnode hne ⟨cliID, addr⟩
  rw [addNodeToCliInfoList, heq] at hstep
  obtain rfl := Option.some.inj hstep
  refine ⟨⟨hs', fun id _ => ?_⟩, fun hmap => ?_⟩
  · have hcount := hr.counts id hok
    simp only [entries_cons, drops_put, puts_put]
    omega
  · rw [isMap_iff hs']
    refine ⟨rfl, ?_⟩
    intro id
    have hvalue := ((isMap_iff hr.lists).mp hmap).2 id
    by_cases hid : cliID = id
    · simp [first_cons, value, hid]
    · simpa [first_cons, value, hid] using hvalue

theorem cliInfoStep_get {cliID : EndID} {list : Addr} (hr : CliInfoInv r vs)
    (hstep : cliInfoStep r (.get cliID list) = some t) :
    CliInfoInv t vs ∧ (IsMap r → IsMap t) := by
  simp only [cliInfoStep, Option.ite_none_right_eq_some] at hstep
  obtain ⟨-, hstep⟩ := hstep
  obtain ⟨node, hget, -⟩ := hr.lists.find list fun tmpNode => tmpNode.cliID = cliID
  rw [getCliInfoNodeByCliID, __getCliInfoNodeByCliID, hget] at hstep
  obtain rfl := Option.some.inj hstep
  have hs' := hr.lists.init list
  refine ⟨⟨hs', hr.counts⟩, ?_⟩
  intro hmap
  rw [isMap_iff hs']
  exact (isMap_iff hr.lists).mp hmap

/-- A removal leaves a map exactly if the client had one node. -/
theorem cliInfoStep_del {cliID : EndID} {list : Addr} (hr : CliInfoInv r vs)
    (hstep : cliInfoStep r (.del cliID list) = some t) :
    (∃ vs', CliInfoInv t vs') ∧
      (IsMap r → (IsMap t ↔ puts r.history cliID = drops r.history cliID + 1)) := by
  simp only [cliInfoStep, Option.ite_none_right_eq_some] at hstep
  obtain ⟨⟨hok, -⟩, hstep⟩ := hstep
  have hcount := hr.counts cliID hok
  have hdel := delCliInfoNodeFormListByCliID_spec hr.lists list cliID
  by_cases hzero : entries ClisInfoListNode.cliID vs cliID = 0
  · rw [if_pos hzero] at hdel
    rw [hdel] at hstep
    obtain rfl := Option.some.inj hstep
    refine ⟨⟨vs, hr.lists, fun _ h => by simp at h⟩, ?_⟩
    intro _
    constructor
    · intro hmap
      exact absurd hmap.1 (by simp)
    · intro h
      omega
  · rw [if_neg hzero] at hdel
    obtain ⟨list', heq, hs'⟩ := hdel
    rw [heq] at hstep
    obtain rfl := Option.some.inj hstep
    refine ⟨⟨_, hs', fun id _ => ?_⟩, fun hmap => ?_⟩
    · have hid := hr.counts id hok
      by_cases h : id = cliID
      · subst h
        rw [entries_removeFirst_self]
        simp only [drops_drop, puts_drop, if_pos]
        omega
      · rw [entries_removeFirst_of_ne h]
        simp only [drops_drop, puts_drop, if_neg (Ne.symm h)]
        exact hid
    · have hvalues := ((isMap_iff hr.lists).mp hmap).2
      have hself : (first ClisInfoListNode.cliID
            (removeFirst ClisInfoListNode.cliID vs cliID) cliID).map ClisInfoListNode.addr =
          value (.drop cliID :: r.history) cliID ↔
            puts r.history cliID = drops r.history cliID + 1 := by
        simp only [value, if_pos, Option.map_eq_none_iff, first_removeFirst_self]
        omega
      rw [isMap_iff hs', ← hself]
      constructor
      · intro h
        exact h.2 cliID
      · intro h
        refine ⟨rfl, ?_⟩
        intro id
        by_cases hid : id = cliID
        · rw [hid]
          exact h
        · rw [first_removeFirst_of_ne hid]
          simpa [value, Ne.symm hid] using hvalues id

theorem cliInfoStep_spec {c : CliInfoCall} (hr : ∃ vs, CliInfoInv r vs)
    (hstep : cliInfoStep r c = some t) :
    (∃ vs, CliInfoInv t vs) ∧ (IsMap r → (IsMap t ↔ RemovesOnlyNode r c)) := by
  obtain ⟨vs, hr⟩ := hr
  cases c with
  | add cliID addr list node =>
      obtain ⟨ht, hmap⟩ := cliInfoStep_add hr hstep
      exact ⟨⟨_, ht⟩, fun h => iff_of_true (hmap h) trivial⟩
  | del cliID list => exact cliInfoStep_del hr hstep
  | get cliID list =>
      obtain ⟨ht, hmap⟩ := cliInfoStep_get hr hstep
      exact ⟨⟨_, ht⟩, fun h => iff_of_true (hmap h) trivial⟩

end Step

/-! ## 4. When the registry is a map -/

/-- In every state of a sequence of calls the registry is the map that the calls
    describe if and only if every removal is of a client that was registered exactly once
    more than it was removed. -/
theorem cli_info_list_map_iff (calls : List CliInfoCall) (r : CliInfoRun)
    (hrun : exec cliInfoStep newCliInfoRun calls = some r) :
    Always cliInfoStep IsMap newCliInfoRun calls ↔
      Along cliInfoStep RemovesOnlyNode newCliInfoRun calls := by
  have hinv : ∃ vs, CliInfoInv newCliInfoRun vs :=
    ⟨[], ListTable.empty_lists, fun _ _ => rfl⟩
  have hmap : IsMap newCliInfoRun :=
    (isMap_iff ListTable.empty_lists).mpr ⟨rfl, fun _ => rfl⟩
  exact always_iff_along (J := fun r => ∃ vs, CliInfoInv r vs)
    (fun s e t hs hstep => (cliInfoStep_spec hs hstep).1)
    (fun s e t hs hI hstep => (cliInfoStep_spec hs hstep).2 hI) hinv hmap hrun

def addrA : SockaddrIn := Buf.zero sizeofSockaddrIn

def addrB : SockaddrIn := addrA.put32 4 1 (by decide)

/-- A client registers twice and is removed: its first address is still found. -/
theorem cli_info_list_stale_after_removal :
    ∃ r, exec cliInfoStep newCliInfoRun
        [.add 7 addrA 1 2, .add 7 addrB 3 4, .del 7 5] = some r ∧
      ¬ Always cliInfoStep IsMap newCliInfoRun
        [.add 7 addrA 1 2, .add 7 addrB 3 4, .del 7 5] := by
  have hrun : (exec cliInfoStep newCliInfoRun
      [.add 7 addrA 1 2, .add 7 addrB 3 4, .del 7 5]).map
        (fun r => (addrOf r.list 6 7, value r.history 7)) = some (some (some addrA), none) := by
    decide +kernel
  obtain ⟨r, hr, hlook⟩ := Option.map_eq_some_iff.mp hrun
  obtain ⟨hstale, hgone⟩ := Prod.mk.inj hlook
  refine ⟨r, hr, ?_⟩
  intro hall
  have hmap := (hall.last hr).2 7 6
  rw [hstale, hgone] at hmap
  exact absurd hmap (by decide)

theorem cli_info_list_map_twoClients :
    ∃ r, exec cliInfoStep newCliInfoRun
        [.add 7 addrA 1 2, .add 8 addrB 3 4, .del 7 5, .get 8 5, .add 7 addrB 5 6] = some r ∧
      Always cliInfoStep IsMap newCliInfoRun
        [.add 7 addrA 1 2, .add 8 addrB 3 4, .del 7 5, .get 8 5, .add 7 addrB 5 6] := by
  have hrun : (exec cliInfoStep newCliInfoRun
      [.add 7 addrA 1 2, .add 8 addrB 3 4, .del 7 5, .get 8 5, .add 7 addrB 5 6]).isSome := by
    decide +kernel
  obtain ⟨r, hr⟩ := Option.isSome_iff_exists.mp hrun
  exact ⟨r, hr, (cli_info_list_map_iff _ r hr).mpr (by decide +kernel)⟩

end SocketPractice.SocketUdp
