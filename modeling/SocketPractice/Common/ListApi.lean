import SocketPractice.Common.ListHead
import SocketPractice.Lib.Relink
import SocketPractice.Lib.Runs

/-!
# The rest of the intrusive list (`list.h`)

`list.h` has more operations than the programs call: entries are replaced and moved, lists
are rotated, cut in two and spliced.  Each of them is a handful of pointer writes, in pairs
that link one cell to another.

The lists that a heap holds are kept under their heads.  Every operation does to these lists
what its comment says, as long as it is called as the comment asks: what is added is on no
list, what is deleted is on one, two lists are joined that are not the same.  So does every
sequence of them, on any number of lists.
-/

set_option linter.style.nameCheck false

namespace SocketPractice.Common

open Lib.Links Lib.Runs

variable {α : Type}

/-! ## 1. The code -/

/-- `INIT_LIST_HEAD` on a cell that is there already. -/
def reinitListHead (h : Heap α) (list : Addr) : Option (Heap α) := do
  let h ← h.setNext list list
  h.setPrev list list

def __listDelEntry (h : Heap α) (entry : Addr) : Option (Heap α) := do
  __listDel h (← h.prev? entry) (← h.next? entry)

def listReplace (h : Heap α) (old new : Addr) : Option (Heap α) := do
  let h ← h.setNext new (← h.next? old)
  let h ← h.setPrev (← h.next? new) new
  let h ← h.setPrev new (← h.prev? old)
  h.setNext (← h.prev? new) new

def listReplaceInit (h : Heap α) (old new : Addr) : Option (Heap α) := do
  let h ← listReplace h old new
  reinitListHead h old

def listDelInit (h : Heap α) (entry : Addr) : Option (Heap α) := do
  let h ← __listDelEntry h entry
  reinitListHead h entry

def listMove (h : Heap α) (list head : Addr) : Option (Heap α) := do
  let h ← __listDelEntry h list
  listAdd h list head

def listMoveTail (h : Heap α) (list head : Addr) : Option (Heap α) := do
  let h ← __listDelEntry h list
  listAddTail h list head

def listIsLast (h : Heap α) (list head : Addr) : Option Bool := do
  return (← h.next? list) == head

def listEmptyCareful (h : Heap α) (head : Addr) : Option Bool := do
  let next ← h.next? head
  return next == head && next == (← h.prev? head)

def listRotateLeft (h : Heap α) (head : Addr) : Option (Heap α) := do
  if ← listEmpty h head then
    return h
  else
    let first ← h.next? head
    listMoveTail h first head

def listIsSingular (h : Heap α) (head : Addr) : Option Bool := do
  if ← listEmpty h head then
    return false
  else
    return (← h.next? head) == (← h.prev? head)

def __listCutPosition (h : Heap α) (list head entry : Addr) : Option (Heap α) := do
  let newFirst ← h.next? entry
  let h ← h.setNext list (← h.next? head)
  let h ← h.setPrev (← h.next? list) list
  let h ← h.setPrev list entry
  let h ← h.setNext entry list
  let h ← h.setNext head newFirst
  h.setPrev newFirst head

def listCutPosition (h : Heap α) (list head entry : Addr) : Option (Heap α) := do
  if ← listEmpty h head then
    return h
  if (← listIsSingular h head) && ((← h.next? head) != entry && head != entry) then
    return h
  if entry = head then
    reinitListHead h list
  else
    __listCutPosition h list head entry

def __listSplice (h : Heap α) (list prev next : Addr) : Option (Heap α) := do
  let first ← h.next? list
  let last ← h.prev? list
  let h ← h.setPrev first prev
  let h ← h.setNext prev first
  let h ← h.setNext last next
  h.setPrev next last

def listSplice (h : Heap α) (list head : Addr) : Option (Heap α) := do
  if ← listEmpty h list then
    return h
  else
    __listSplice h list head (← h.next? head)

def listSpliceTail (h : Heap α) (list head : Addr) : Option (Heap α) := do
  if ← listEmpty h list then
    return h
  else
    __listSplice h list (← h.prev? head) head

def listSpliceInit (h : Heap α) (list head : Addr) : Option (Heap α) := do
  if ← listEmpty h list then
    return h
  else
    let h ← __listSplice h list head (← h.next? head)
    reinitListHead h list

def listSpliceTailInit (h : Heap α) (list head : Addr) : Option (Heap α) := do
  if ← listEmpty h list then
    return h
  else
    let h ← __listSplice h list (← h.prev? head) head
    reinitListHead h list

/-! ## 2. What the pointer writes link -/

variable {h : Heap α} {a b : Addr}

/-- `reinitListHead` links the cell to itself. -/
theorem reinitListHead_relinked {list : Addr} (hlive : (h list).isSome) :
    ∃ h', reinitListHead h list = some h' ∧ Relinked h h' [(list, list)] := by
  obtain ⟨h₁, h₂, e₁, e₂, hr⟩ := exists_setNext_setPrev hlive hlive
  exact ⟨h₂, by simp [reinitListHead, e₁, e₂], hr⟩

theorem __listAdd_relinked {new prev next : Addr} (hnew : (h new).isSome)
    (hprev : (h prev).isSome) (hnext : (h next).isSome) (hnn : next ≠ new) (hpn : prev ≠ new) :
    ∃ h', __listAdd h new prev next = some h' ∧
      Relinked h h' [(prev, new), (new, next)] := by
  obtain ⟨h₁, h₂, e₁, e₂, hr⟩ := exists_setPrev_setNext hnew hnext
  obtain ⟨h₃, h₄, e₃, e₄, hr'⟩ := exists_setPrev_setNext ((hr.live prev).trans hprev)
    ((hr.live new).trans hnew)
  refine ⟨h₄, by simp [__listAdd, e₁, e₂, e₃, e₄], hr.link hr' ?_ ?_⟩
  · intro e he
    rw [List.mem_singleton.mp he]
    exact hpn.symm
  · intro e he
    rw [List.mem_singleton.mp he]
    exact hnn

theorem __listDelEntry_relinked {entry prev next : Addr} (hep : h.prev? entry = some prev)
    (hen : h.next? entry = some next) (hprev : (h prev).isSome) (hnext : (h next).isSome) :
    ∃ h', __listDelEntry h entry = some h' ∧ Relinked h h' [(prev, next)] := by
  obtain ⟨h₁, h₂, e₁, e₂, hr⟩ := exists_setPrev_setNext hprev hnext
  exact ⟨h₂, by simp [__listDelEntry, __listDel, hep, hen, e₁, e₂], hr⟩

/-- The new cell is linked to the neighbours of the old one. -/
theorem listReplace_relinked {old new prev next : Addr} (hop : h.prev? old = some prev)
    (hon : h.next? old = some next) (hnew : (h new).isSome) (hprev : (h prev).isSome)
    (hnext : (h next).isSome) (hno : next ≠ old) (hnn : next ≠ new) (hpn : prev ≠ new) :
    ∃ h', listReplace h old new = some h' ∧ Relinked h h' [(prev, new), (new, next)] := by
  obtain ⟨h₁, h₂, e₁, e₂, hr⟩ := exists_setNext_setPrev hnew hnext
  obtain ⟨h₃, h₄, e₃, e₄, hr'⟩ := exists_setPrev_setNext ((hr.live prev).trans hprev)
    ((hr.live new).trans hnew)
  have hkept : h₂.prev? old = some prev := by
    rw [hr.prev old, hop]
    intro e he
    rw [List.mem_singleton.mp he]
    exact hno
  refine ⟨h₄, ?_, hr.link hr' ?_ ?_⟩
  · simp [listReplace, hon, e₁, next?_of_setNext e₁, e₂, hkept, e₃, prev?_of_setPrev e₃, e₄]
  · intro e he
    rw [List.mem_singleton.mp he]
    exact hpn.symm
  · intro e he
    rw [List.mem_singleton.mp he]
    exact hnn

/-- An empty list that is replaced is overwritten, and the new head is empty. -/
theorem listReplace_empty {old new : Addr} (hlink : Linked h old old) (hnew : (h new).isSome)
    (hold : (h old).isSome) :
    ∃ h', listReplace h old new = some h' ∧ Linked h' new new ∧
      (∀ x, x ≠ old → x ≠ new → h'.next? x = h.next? x ∧ h'.prev? x = h.prev? x) ∧
      (∀ x, h'.val? x = h.val? x) ∧ ∀ x, (h' x).isSome = (h x).isSome := by
  obtain ⟨h₁, h₂, e₁, e₂, hr⟩ := exists_setNext_setPrev hnew hold
  have hnew₂ : (h₂ new).isSome := (hr.live new).trans hnew
  obtain ⟨h₃, h₄, e₃, e₄, hr'⟩ := exists_setPrev_setNext hnew₂ hnew₂
  have hread : h₂.prev? old = some new := prev?_of_setPrev e₂
  refine ⟨h₄, ?_, hr'.linked _ List.mem_cons_self, ?_, fun x => (hr'.val x).trans (hr.val x),
    fun x => (hr'.live x).trans (hr.live x)⟩
  · simp [listReplace, hlink.1, e₁, next?_of_setNext e₁, e₂, hread, e₃, prev?_of_setPrev e₃, e₄]
  · intro x hxo hxn
    have hne₁ : ∀ e ∈ [(new, old)], e.1 ≠ x ∧ e.2 ≠ x := by
      intro e he
      rw [List.mem_singleton.mp he]
      exact ⟨hxn.symm, hxo.symm⟩
    have hne₂ : ∀ e ∈ [(new, new)], e.1 ≠ x ∧ e.2 ≠ x := by
      intro e he
      rw [List.mem_singleton.mp he]
      exact ⟨hxn.symm, hxn.symm⟩
    constructor
    · rw [hr'.next x fun e he => (hne₂ e he).1, hr.next x fun e he => (hne₁ e he).1]
    · rw [hr'.prev x fun e he => (hne₂ e he).2, hr.prev x fun e he => (hne₁ e he).2]

/-- The cells up to `entry` are closed behind `list`, and the others behind `head`. -/
theorem __listCutPosition_relinked {list head entry first newFirst : Addr}
    (hfirst : h.next? head = some first) (hnew : h.next? entry = some newFirst)
    (hlist : (h list).isSome) (hhead : (h head).isSome) (hentry : (h entry).isSome)
    (hlf : (h first).isSome) (hln : (h newFirst).isSome) (hlh : list ≠ head)
    (hle : list ≠ entry) (hhe : head ≠ entry) (hfl : first ≠ list) (hnl : newFirst ≠ list)
    (hfn : first ≠ newFirst) :
    ∃ h', __listCutPosition h list head entry = some h' ∧
      Relinked h h' [(head, newFirst), (entry, list), (list, first)] := by
  obtain ⟨h₁, h₂, e₁, e₂, hr⟩ := exists_setNext_setPrev hlist hlf
  obtain ⟨h₃, h₄, e₃, e₄, hr'⟩ := exists_setPrev_setNext ((hr.live entry).trans hentry)
    ((hr.live list).trans hlist)
  have hr₄ : Relinked h h₄ [(entry, list), (list, first)] := by
    apply hr.link hr'
    · intro e he
      rw [List.mem_singleton.mp he]
      exact hle
    · intro e he
      rw [List.mem_singleton.mp he]
      exact hfl
  obtain ⟨h₅, h₆, e₅, e₆, hr''⟩ := exists_setNext_setPrev ((hr₄.live head).trans hhead)
    ((hr₄.live newFirst).trans hln)
  refine ⟨h₆, ?_, hr₄.link hr'' ?_ ?_⟩
  · simp [__listCutPosition, hnew, hfirst, e₁, next?_of_setNext e₁, e₂, e₃, e₄, e₅, e₆]
  · intro e he
    simp only [List.mem_cons, List.not_mem_nil, or_false] at he
    rcases he with rfl | rfl
    · exact hhe.symm
    · exact hlh
  · intro e he
    simp only [List.mem_cons, List.not_mem_nil, or_false] at he
    rcases he with rfl | rfl
    · exact hnl.symm
    · exact hfn

theorem __listSplice_relinked {list prev next first last : Addr}
    (hfirst : h.next? list = some first) (hlast : h.prev? list = some last)
    (hlf : (h first).isSome) (hll : (h last).isSome) (hprev : (h prev).isSome)
    (hnext : (h next).isSome) (hpl : prev ≠ last) (hfn : first ≠ next) :
    ∃ h', __listSplice h list prev next = some h' ∧
      Relinked h h' [(last, next), (prev, first)] := by
  obtain ⟨h₁, h₂, e₁, e₂, hr⟩ := exists_setPrev_setNext hprev hlf
  obtain ⟨h₃, h₄, e₃, e₄, hr'⟩ := exists_setNext_setPrev ((hr.live last).trans hll)
    ((hr.live next).trans hnext)
  refine ⟨h₄, by simp [__listSplice, hfirst, hlast, e₁, e₂, e₃, e₄], hr.link hr' ?_ ?_⟩
  · intro e he
    rw [List.mem_singleton.mp he]
    exact hpl
  · intro e he
    rw [List.mem_singleton.mp he]
    exact hfn

/-! ## 3. What the operations do to the lists -/

variable {L : Lists} {head list entry old new : Addr} {xs ys : List Addr}

theorem reinitListHead_represents (hrep : Represents h L) (hlive : (h list).isSome)
    (hnode : L.NoNode list) :
    ∃ h', reinitListHead h list = some h' ∧ Represents h' (L.set list []) ∧ SameCells h h' := by
  obtain ⟨h', heq, hr⟩ := reinitListHead_relinked hlive
  have hnew : Circular h' list [] := circular_iff_chain.mpr
    ⟨List.nodup_singleton list, List.isChain_pair.mpr (hr.linked _ List.mem_cons_self)⟩
  refine ⟨h', heq, ?_, hr.sameCells⟩
  apply hrep.set [list] (hr.next_off (by simp)) (hr.prev_off (by simp)) hnew
    (fun x hx => hx)
  intro c hc
  rw [List.mem_singleton.mp hc]
  rcases hL : L list with _ | zs
  · exact .inl ⟨hL, hnode⟩
  · exact .inr ⟨zs, rfl, List.mem_cons_self⟩

theorem listAdd_represents (hrep : Represents h L) (hL : L head = some xs) (hnew : L.Loose new)
    (hlive : (h new).isSome) :
    ∃ h', listAdd h new head = some h' ∧ Represents h' (L.set head (new :: xs)) ∧
      SameCells h h' := by
  have hc := hrep.circular head xs hL
  have hout := hnew.not_mem hL
  have hfirst := firstOr_mem_cons xs head
  obtain ⟨h', heq, hr⟩ := __listAdd_relinked hlive (hrep.live hL head List.mem_cons_self)
    (hrep.live hL _ hfirst) (fun heq => hout (heq ▸ hfirst)) (fun heq => hout (by simp [heq]))
  refine ⟨h', by simp [listAdd, hc.seg.first, heq], ?_, hr.sameCells⟩
  apply @Represents.between _ _ _ _ _ _ [] [] _ hrep hL hr (List.isChain_singleton new)
    (List.nodup_singleton new)
  intro c hc
  rw [List.mem_singleton.mp hc]
  exact hnew

theorem listAddTail_represents (hrep : Represents h L) (hL : L head = some xs)
    (hnew : L.Loose new) (hlive : (h new).isSome) :
    ∃ h', listAddTail h new head = some h' ∧ Represents h' (L.set head (xs ++ [new])) ∧
      SameCells h h' := by
  have hc := hrep.circular head xs hL
  have hout := hnew.not_mem hL
  have hlast := lastOr_mem head xs
  obtain ⟨h', heq, hr⟩ := __listAdd_relinked hlive (hrep.live hL _ hlast)
    (hrep.live hL head List.mem_cons_self) (fun heq => hout (by simp [heq]))
    (fun heq => hout (heq ▸ hlast))
  refine ⟨h', by simp [listAddTail, hc.seg.last, heq], ?_, hr.sameCells⟩
  rw [← List.append_nil (xs ++ [new])]
  apply @Represents.between _ _ _ _ _ _ _ [] [] hrep _ hr (List.isChain_singleton new)
    (List.nodup_singleton new)
  · intro c hc
    rw [List.mem_singleton.mp hc]
    exact hnew
  · rw [List.append_nil]
    exact hL

theorem __listDelEntry_represents (hrep : Represents h L)
    (hL : L head = some (xs ++ entry :: ys)) :
    ∃ h', __listDelEntry h entry = some h' ∧ Represents h' (L.set head (xs ++ ys)) ∧
      SameCells h h' := by
  have hc := hrep.circular head _ hL
  obtain ⟨hleft, hright⟩ := Seg.append_cons.mp hc.seg
  obtain ⟨hnd, hchain⟩ := circular_iff_chain.mp hc
  have hparts : head :: (xs ++ entry :: ys ++ [head]) =
      (head :: xs) ++ ([entry] ++ (ys ++ [head])) := by simp
  rw [hparts] at hchain
  have hlast := lastOr_mem head xs
  have hfirst := firstOr_mem_cons ys head
  obtain ⟨h', heq, hr⟩ := __listDelEntry_relinked hleft.last hright.first
    (hrep.live hL _ (by grind)) (hrep.live hL _ (by grind))
  have hnd' : (head :: (xs ++ ys)).Nodup := by grind
  refine ⟨h', heq, ?_, hr.sameCells⟩
  apply hrep.set (head :: (xs ++ ys)) (hr.next_off _) (hr.prev_off _)
    (hr.circular_without hchain.left hchain.right.right hnd') (fun x hx => hx)
  · intro c hc
    exact .inr ⟨_, hL, by grind⟩
  · grind
  · grind

/-- A node is replaced. -/
theorem listReplace_node (hrep : Represents h L) (hL : L head = some (xs ++ old :: ys))
    (hnew : L.Loose new) (hlive : (h new).isSome) :
    ∃ h', listReplace h old new = some h' ∧ Represents h' (L.set head (xs ++ new :: ys)) ∧
      SameCells h h' := by
  have hc := hrep.circular head _ hL
  obtain ⟨hleft, hright⟩ := Seg.append_cons.mp hc.seg
  obtain ⟨hnd, hchain⟩ := circular_iff_chain.mp hc
  have hparts : head :: (xs ++ old :: ys ++ [head]) =
      (head :: xs) ++ ([old] ++ (ys ++ [head])) := by simp
  rw [hparts] at hchain
  have hout := hnew.not_mem hL
  have hlast := lastOr_mem head xs
  have hfirst := firstOr_mem_cons ys head
  have hlast' : lastOr head xs ∈ head :: (xs ++ old :: ys) := by grind
  have hfirst' : firstOr ys head ∈ head :: (xs ++ old :: ys) := by grind
  obtain ⟨h', heq, hr⟩ := listReplace_relinked hleft.last hright.first hlive
    (hrep.live hL _ hlast') (hrep.live hL _ hfirst') (by grind)
    (fun heq => hout (heq ▸ hfirst')) (fun heq => hout (heq ▸ hlast'))
  have hnd' : (head :: (xs ++ [new] ++ ys)).Nodup := by grind
  refine ⟨h', heq, ?_, hr.sameCells⟩
  have hring := @Relinked.circular_between _ _ _ _ _ _ [] _ hr hchain.left
    (List.isChain_singleton new) hchain.right.right hnd'
  rw [List.append_assoc] at hring
  apply hrep.set (head :: (xs ++ new :: ys)) (hr.next_off _) (hr.prev_off _) hring (fun x hx => hx)
  · intro c hc
    by_cases hcn : c = new
    · exact .inl (hcn ▸ hnew)
    · exact .inr ⟨_, hL, by grind⟩
  · grind
  · grind

/-- A head is replaced. -/
theorem listReplace_head (hrep : Represents h L) (hL : L old = some xs) (hnew : L.Loose new)
    (hlive : (h new).isSome) :
    ∃ h', listReplace h old new = some h' ∧ Represents h' ((L.drop old).set new xs) ∧
      SameCells h h' := by
  have hout := hnew.not_mem hL
  have hc := hrep.circular old xs hL
  have hold := hrep.live hL old List.mem_cons_self
  have hloose : ∀ c ∈ new :: old :: xs, (L.drop old).Loose c := by
    intro c hmem
    rcases List.mem_cons.mp hmem with rfl | hmem
    · exact hnew.drop old
    · exact hrep.loose_of_drop hL hmem
  rcases xs with _ | ⟨x, zs⟩
  · obtain ⟨h', heq, hlink, hother, hval, hlive'⟩ := listReplace_empty hc.seg hlive hold
    have hring : Circular h' new [] := circular_iff_chain.mpr
      ⟨List.nodup_singleton new, List.isChain_pair.mpr hlink⟩
    refine ⟨h', heq, ?_, hval, hlive'⟩
    apply (hrep.drop old).set [new, old] _ _ hring
      (fun c hmem => List.mem_cons.mpr (.inl (List.mem_singleton.mp hmem)))
    · exact fun c hmem => .inl (hloose c hmem)
    · intro c hmem
      rw [List.mem_cons, List.mem_singleton, not_or] at hmem
      exact (hother c hmem.2 hmem.1).1
    · intro c hmem
      rw [List.mem_cons, List.mem_singleton, not_or] at hmem
      exact (hother c hmem.2 hmem.1).2
  · obtain ⟨hnd, hchain⟩ := circular_iff_chain.mp hc
    have hchain' : Chain h ([old] ++ (x :: zs ++ [old])) := hchain
    have hlast := lastOr_mem x zs
    have hxo : x ≠ old := fun heq => (List.nodup_cons.mp hnd).1 (heq ▸ List.mem_cons_self)
    have hxn : x ≠ new := fun heq => hout (by simp [heq])
    have hprev : h.prev? old = some (lastOr x zs) := by
      rw [← lastOr_cons old x zs]
      exact hc.seg.last
    obtain ⟨h', heq, hr⟩ := listReplace_relinked hprev hc.seg.first hlive
      (hrep.live hL _ (List.mem_cons_of_mem old hlast)) (hrep.live hL x (by simp)) hxo hxn
      (fun heq => hout (heq ▸ List.mem_cons_of_mem old hlast))
    have hnd' : (new :: x :: zs).Nodup :=
      List.nodup_cons.mpr ⟨fun hmem => hout (List.mem_cons_of_mem old hmem),
        (List.nodup_cons.mp hnd).2⟩
    have hends : AtEnds [(lastOr x zs, new), (new, x)] (x :: zs) := by
      apply atEnds_of_nodup (List.nodup_cons.mp hnd').2
      · rw [List.forall_mem_cons, List.forall_mem_singleton]
        exact ⟨fun _ => getLast?_cons_eq x zs,
          fun hmem => absurd hmem (List.nodup_cons.mp hnd').1⟩
      · rw [List.forall_mem_cons, List.forall_mem_singleton]
        exact ⟨fun hmem => absurd hmem (List.nodup_cons.mp hnd').1, fun _ => rfl⟩
    refine ⟨h', heq, ?_, hr.sameCells⟩
    apply (hrep.drop old).set (new :: x :: zs) (hr.next_off _) (hr.prev_off _)
      (hr.circular_stretch hchain'.right.left (by simp) (by simp) hnd' hends) (fun c hmem => hmem)
    · intro c hmem
      refine .inl (hloose c ?_)
      rcases List.mem_cons.mp hmem with rfl | hmem
      · exact List.mem_cons_self
      · exact List.mem_cons_of_mem new (List.mem_cons_of_mem old hmem)
    · rw [List.forall_mem_cons, List.forall_mem_singleton]
      exact ⟨List.mem_cons_of_mem new hlast, List.mem_cons_self⟩
    · rw [List.forall_mem_cons, List.forall_mem_singleton]
      exact ⟨List.mem_cons_self, List.mem_cons_of_mem new List.mem_cons_self⟩

/-- The cells up to `entry` go to `list`, which is no node; what it had is lost. -/
theorem __listCutPosition_represents (hrep : Represents h L)
    (hL : L head = some (xs ++ entry :: ys)) (hnode : L.NoNode list) (hne : list ≠ head)
    (hlive : (h list).isSome) :
    ∃ h', __listCutPosition h list head entry = some h' ∧
      Represents h' ((L.set list (xs ++ [entry])).set head ys) ∧ SameCells h h' := by
  have hc := hrep.circular head _ hL
  have hnd := hc.nodup
  obtain ⟨-, hright⟩ := Seg.append_cons.mp hc.seg
  have hlist : list ∉ head :: (xs ++ entry :: ys) := by
    intro hmem
    rcases List.mem_cons.mp hmem with heq | hmem
    · exact hne heq
    · exact hnode head _ hL hmem
  have hfirst : firstOr (xs ++ entry :: ys) head = firstOr xs entry := by cases xs <;> rfl
  have hmem₁ : firstOr xs entry ∈ head :: (xs ++ entry :: ys) := by
    have := firstOr_mem_cons xs entry
    grind
  have hmem₂ : firstOr ys head ∈ head :: (xs ++ entry :: ys) := by
    have := firstOr_mem_cons ys head
    grind
  have hmem₃ : entry ∈ head :: (xs ++ entry :: ys) := by simp
  have hnext : h.next? head = some (firstOr xs entry) := hfirst ▸ hc.seg.first
  obtain ⟨h', heq, hr⟩ := __listCutPosition_relinked hnext hright.first hlive
    (hrep.live hL head List.mem_cons_self) (hrep.live hL entry hmem₃) (hrep.live hL _ hmem₁)
    (hrep.live hL _ hmem₂) hne (fun heq => hlist (heq ▸ hmem₃)) (by grind)
    (fun heq => hlist (heq ▸ hmem₁)) (fun heq => hlist (heq ▸ hmem₂)) (by
      have := firstOr_mem xs entry
      have := firstOr_mem ys head
      grind)
  obtain ⟨hring₁, hring₂⟩ := hr.circular_cut hc hlist
  refine ⟨h', heq, ?_, hr.sameCells⟩
  have hes : ∀ e ∈ [(head, firstOr ys head), (entry, list), (list, firstOr xs entry)],
      e.1 ∈ list :: head :: (xs ++ entry :: ys) ∧ e.2 ∈ list :: head :: (xs ++ entry :: ys) := by
    rw [List.forall_mem_cons, List.forall_mem_cons, List.forall_mem_singleton]
    exact ⟨⟨by simp, List.mem_cons_of_mem list hmem₂⟩, ⟨by simp, by simp⟩,
      ⟨by simp, List.mem_cons_of_mem list hmem₁⟩⟩
  have hset : (L.set list (xs ++ [entry])).set head ys =
      ((L.drop list).set list (xs ++ [entry])).set head ys := by
    simp [Lists.set, Lists.drop]
  rw [hset]
  apply (hrep.drop list).set_set (list :: head :: (xs ++ entry :: ys))
    (hr.next_off fun e he => (hes e he).1) (hr.prev_off fun e he => (hes e he).2) hne hring₁
    hring₂
  · intro c hc hc'
    grind
  · grind
  · grind
  · intro c hmem
    rcases List.mem_cons.mp hmem with rfl | hmem
    · left
      constructor
      · exact Lists.drop_self
      · intro a zs ha
        by_cases hac : a = c
        · rw [hac, Lists.drop_self] at ha
          cases ha
        · rw [Lists.drop_of_ne hac] at ha
          exact hnode a zs ha
    · exact .inr ⟨_, (Lists.drop_of_ne (Ne.symm hne)).trans hL, hmem⟩

/-- The nodes of `list` go in between `xs` and `ys`; the head `list` is left with its links. -/
theorem __listSplice_represents {x : Addr} {zs : List Addr} (hrep : Represents h L)
    (hlist : L list = some (x :: zs)) (hL : L head = some (xs ++ ys)) (hne : list ≠ head) :
    ∃ h', __listSplice h list (lastOr head xs) (firstOr ys head) = some h' ∧
      Represents h' ((L.drop list).set head (xs ++ x :: zs ++ ys)) ∧ SameCells h h' := by
  have hc := hrep.circular list _ hlist
  obtain ⟨hnd, hchain⟩ := circular_iff_chain.mp hc
  have hchain' : Chain h ([list] ++ (x :: zs ++ [list])) := hchain
  have hapart := hrep.apart list head _ _ hlist hL hne
  have hlast : h.prev? list = some (lastOr x zs) := by
    rw [← lastOr_cons list x zs]
    exact hc.seg.last
  have hmem₁ : lastOr x zs ∈ list :: x :: zs := List.mem_cons_of_mem list (lastOr_mem x zs)
  have hmem₂ : firstOr (x :: zs) list ∈ list :: x :: zs := by simp
  have hmem₃ : lastOr head xs ∈ head :: (xs ++ ys) := List.mem_append_left ys (lastOr_mem head xs)
  have hmem₄ : firstOr ys head ∈ head :: (xs ++ ys) := by
    rcases List.mem_cons.mp (firstOr_mem_cons ys head) with heq | hin
    · rw [heq]
      exact List.mem_cons_self
    · exact List.mem_cons_of_mem head (List.mem_append_right xs hin)
  obtain ⟨h', heq, hr⟩ := __listSplice_relinked hc.seg.first hlast (hrep.live hlist _ hmem₂)
    (hrep.live hlist _ hmem₁) (hrep.live hL _ hmem₃) (hrep.live hL _ hmem₄)
    (fun heq => hapart hmem₁ (heq ▸ hmem₃)) (fun heq => hapart hmem₂ (heq ▸ hmem₄))
  refine ⟨h', heq, ?_, hr.sameCells⟩
  have hL' : L.drop list head = some (xs ++ ys) := by
    rw [Lists.drop_of_ne (Ne.symm hne)]
    exact hL
  apply (hrep.drop list).between hL' (hr.perm (List.Perm.swap _ _ _)) hchain'.right.left
    (List.nodup_cons.mp hnd).2
  exact fun c hmem => hrep.loose_of_drop hlist (List.mem_cons_of_mem list hmem)

theorem listDelInit_represents (hrep : Represents h L)
    (hL : L head = some (xs ++ entry :: ys)) :
    ∃ h', listDelInit h entry = some h' ∧
      Represents h' ((L.set head (xs ++ ys)).set entry []) ∧ SameCells h h' := by
  obtain ⟨h₁, e₁, hrep₁, hsame₁⟩ := __listDelEntry_represents hrep hL
  have hlive : (h₁ entry).isSome := (hsame₁.live entry).trans (hrep.live hL entry (by simp))
  obtain ⟨h₂, e₂, hrep₂, hsame₂⟩ :=
    reinitListHead_represents hrep₁ hlive (hrep.loose_of_removed hL).2
  exact ⟨h₂, by simp [listDelInit, e₁, e₂], hrep₂, hsame₁.trans hsame₂⟩

/-- The poison is written to a cell that is on no list any more. -/
theorem listDel_represents (hrep : Represents h L) (hL : L head = some (xs ++ entry :: ys)) :
    ∃ h', listDel h entry = some h' ∧ Represents h' (L.set head (xs ++ ys)) ∧
      SameCells h h' := by
  obtain ⟨h₁, e₁, hrep₁, hsame₁⟩ := __listDelEntry_represents hrep hL
  have hloose := hrep.loose_of_removed hL
  have hlive : (h₁ entry).isSome := (hsame₁.live entry).trans (hrep.live hL entry (by simp))
  obtain ⟨h₂, e₂, n₂, p₂, v₂, l₂⟩ := Heap.setNext_spec (v := LIST_POISON1) hlive
  obtain ⟨h₃, e₃, p₃, n₃, v₃, l₃⟩ :=
    Heap.setPrev_spec (v := LIST_POISON2) ((l₂ entry).trans hlive)
  have hdel : listDel h entry = (__listDelEntry h entry).bind fun h₁ =>
      (h₁.setNext entry LIST_POISON1).bind fun h₂ => h₂.setPrev entry LIST_POISON2 := by
    simp [listDel, __listDelEntry, Option.bind_assoc]
  refine ⟨h₃, by simp [hdel, e₁, e₂, e₃], ?_, ?_⟩
  · apply hrep₁.write_loose [entry]
    · intro c hc
      rw [n₃, n₂, if_neg (fun heq => hc (List.mem_singleton.mpr heq))]
    · intro c hc
      rw [p₃, if_neg (fun heq => hc (List.mem_singleton.mpr heq)), p₂]
    · intro c hc
      rw [List.mem_singleton.mp hc]
      exact hloose
  · exact hsame₁.trans ⟨fun c => (v₃ c).trans (v₂ c), fun c => (l₃ c).trans (l₂ c)⟩

theorem listMove_represents {source : Addr} {zs : List Addr} (hrep : Represents h L)
    (hsource : L source = some (xs ++ list :: ys))
    (hL : (L.set source (xs ++ ys)) head = some zs) :
    ∃ h', listMove h list head = some h' ∧
      Represents h' ((L.set source (xs ++ ys)).set head (list :: zs)) ∧ SameCells h h' := by
  obtain ⟨h₁, e₁, hrep₁, hsame₁⟩ := __listDelEntry_represents hrep hsource
  have hlive : (h₁ list).isSome := (hsame₁.live list).trans (hrep.live hsource list (by simp))
  obtain ⟨h₂, e₂, hrep₂, hsame₂⟩ :=
    listAdd_represents hrep₁ hL (hrep.loose_of_removed hsource) hlive
  exact ⟨h₂, by simp [listMove, e₁, e₂], hrep₂, hsame₁.trans hsame₂⟩

theorem listMoveTail_represents {source : Addr} {zs : List Addr} (hrep : Represents h L)
    (hsource : L source = some (xs ++ list :: ys))
    (hL : (L.set source (xs ++ ys)) head = some zs) :
    ∃ h', listMoveTail h list head = some h' ∧
      Represents h' ((L.set source (xs ++ ys)).set head (zs ++ [list])) ∧ SameCells h h' := by
  obtain ⟨h₁, e₁, hrep₁, hsame₁⟩ := __listDelEntry_represents hrep hsource
  have hlive : (h₁ list).isSome := (hsame₁.live list).trans (hrep.live hsource list (by simp))
  obtain ⟨h₂, e₂, hrep₂, hsame₂⟩ :=
    listAddTail_represents hrep₁ hL (hrep.loose_of_removed hsource) hlive
  exact ⟨h₂, by simp [listMoveTail, e₁, e₂], hrep₂, hsame₁.trans hsame₂⟩

theorem listRotateLeft_represents (hrep : Represents h L) (hL : L head = some xs) :
    ∃ h', listRotateLeft h head = some h' ∧ Represents h' (L.set head (xs.rotateLeft 1)) ∧
      SameCells h h' := by
  have hc := hrep.circular head xs hL
  rcases xs with _ | ⟨x, xs⟩
  · have hset : L.set head [] = L := by
      rw [Lists.set, ← hL, Function.update_eq_self]
    refine ⟨h, by simp [listRotateLeft, listEmpty_eq hc], ?_, fun _ => rfl, fun _ => rfl⟩
    have hsame : Represents h (L.set head []) := by
      rw [hset]
      exact hrep
    exact hsame
  · obtain ⟨h', heq, hrep', hsame⟩ := @listMoveTail_represents _ _ _ head x [] xs head xs hrep hL
      Lists.set_self
    have hset : (L.set head xs).set head (xs ++ [x]) = L.set head ((x :: xs).rotateLeft 1) := by
      cases xs <;> simp [Lists.set, List.rotateLeft]
    refine ⟨h', ?_, hset ▸ hrep', hsame⟩
    have hfirst : h.next? head = some x := hc.seg.first
    simp [listRotateLeft, listEmpty_eq hc, hfirst, heq]

theorem lastOr_eq_self_iff {x : Addr} {zs : List Addr} (hnd : (x :: zs).Nodup) :
    x = lastOr x zs ↔ zs = [] := by
  constructor
  · intro heq
    rcases zs with _ | ⟨z, zs⟩
    · rfl
    · rw [lastOr_cons] at heq
      exact absurd (heq ▸ lastOr_mem z zs) (List.nodup_cons.mp hnd).1
  · rintro rfl
    rfl

/-- `list_is_singular` looks at the head only. -/
theorem listIsSingular_eq (hc : Circular h head xs) :
    listIsSingular h head = some (decide (xs.length = 1)) := by
  rcases xs with _ | ⟨x, zs⟩
  · simp [listIsSingular, listEmpty_eq hc]
  · have hfirst : h.next? head = some x := hc.seg.first
    have hlast : h.prev? head = some (lastOr x zs) := by
      rw [← lastOr_cons head x zs]
      exact hc.seg.last
    have hiff := lastOr_eq_self_iff (List.nodup_cons.mp hc.nodup).2
    have hone : (x == lastOr x zs) = decide ((x :: zs).length = 1) := by
      rw [Bool.eq_iff_iff, beq_iff_eq, decide_eq_true_iff, hiff]
      simp
    simp only [listIsSingular, listEmpty_eq hc, hfirst, hlast, Option.bind_eq_bind,
      Option.bind_some, hone]
    rfl

theorem listCutPosition_represents (hrep : Represents h L)
    (hL : L head = some (xs ++ entry :: ys)) (hnode : L.NoNode list) (hne : list ≠ head)
    (hlive : (h list).isSome) :
    ∃ h', listCutPosition h list head entry = some h' ∧
      Represents h' ((L.set list (xs ++ [entry])).set head ys) ∧ SameCells h h' := by
  have hc := hrep.circular head _ hL
  obtain ⟨h', heq, hrep', hsame⟩ := __listCutPosition_represents hrep hL hnode hne hlive
  have hentry : entry ≠ head := fun heq => (List.nodup_cons.mp hc.nodup).1 (by simp [heq])
  -- The only node of a list with one is `entry`.
  have hone : xs.length + (ys.length + 1) = 1 → firstOr (xs ++ entry :: ys) head = entry := by
    intro hlength
    obtain rfl : xs = [] := List.eq_nil_of_length_eq_zero (by omega)
    rfl
  refine ⟨h', ?_, hrep', hsame⟩
  simp only [listCutPosition, listEmpty_eq hc, listIsSingular_eq hc, hc.seg.first, heq,
    if_neg hentry]
  simpa using fun hlength hfirst => absurd (hone hlength) hfirst

/-- At the head nothing is cut off. -/
theorem listCutPosition_head (hrep : Represents h L) (hL : L head = some xs) (hxs : xs ≠ [])
    (hnode : L.NoNode list) (hlive : (h list).isSome) :
    ∃ h', listCutPosition h list head head = some h' ∧ Represents h' (L.set list []) ∧
      SameCells h h' := by
  have hc := hrep.circular head _ hL
  obtain ⟨h', heq, hrep', hsame⟩ := reinitListHead_represents hrep hlive hnode
  refine ⟨h', ?_, hrep', hsame⟩
  simp [listCutPosition, listEmpty_eq hc, listIsSingular_eq hc, hc.seg.first, heq, hxs]

theorem listSplice_represents (hrep : Represents h L) (hlist : L list = some xs)
    (hL : L head = some ys) (hne : list ≠ head) :
    ∃ h', listSplice h list head = some h' ∧
      Represents h' (if xs = [] then L else (L.drop list).set head (xs ++ ys)) ∧
      SameCells h h' := by
  have hc := hrep.circular list _ hlist
  rcases xs with _ | ⟨x, zs⟩
  · refine ⟨h, by simp [listSplice, listEmpty_eq hc], ?_, fun _ => rfl, fun _ => rfl⟩
    rw [if_pos rfl]
    exact hrep
  · obtain ⟨h', heq, hrep', hsame⟩ :=
      @__listSplice_represents _ _ _ head list [] ys x zs hrep hlist hL hne
    have hfirst := (hrep.circular head _ hL).seg.first
    refine ⟨h', by simpa [listSplice, listEmpty_eq hc, hfirst] using heq, ?_, hsame⟩
    rw [if_neg (List.cons_ne_nil x zs)]
    exact hrep'

theorem listSpliceTail_represents (hrep : Represents h L) (hlist : L list = some xs)
    (hL : L head = some ys) (hne : list ≠ head) :
    ∃ h', listSpliceTail h list head = some h' ∧
      Represents h' (if xs = [] then L else (L.drop list).set head (ys ++ xs)) ∧
      SameCells h h' := by
  have hc := hrep.circular list _ hlist
  rcases xs with _ | ⟨x, zs⟩
  · refine ⟨h, by simp [listSpliceTail, listEmpty_eq hc], ?_, fun _ => rfl, fun _ => rfl⟩
    rw [if_pos rfl]
    exact hrep
  · rw [← List.append_nil ys] at hL
    obtain ⟨h', heq, hrep', hsame⟩ :=
      @__listSplice_represents _ _ _ head list ys [] x zs hrep hlist hL hne
    rw [List.append_nil] at hL hrep'
    have hlast := (hrep.circular head _ hL).seg.last
    refine ⟨h', by simpa [listSpliceTail, listEmpty_eq hc, hlast] using heq, ?_, hsame⟩
    rw [if_neg (List.cons_ne_nil x zs)]
    exact hrep'

/-- A spliced list is made empty again. -/
theorem reinit_spliced {h₁ : Heap α} {ws : List Addr} (hrep : Represents h L)
    (hlist : L list = some xs) (hL : L head = some ys) (hne : list ≠ head)
    (hrep₁ : Represents h₁ ((L.drop list).set head ws)) (hsame : SameCells h h₁)
    (hws : ∀ c ∈ ws, c ∈ xs ∨ c ∈ ys) :
    ∃ h₂, reinitListHead h₁ list = some h₂ ∧ Represents h₂ ((L.set list []).set head ws) ∧
      SameCells h h₂ := by
  have hlive : (h₁ list).isSome :=
    (hsame.live list).trans (hrep.live hlist list List.mem_cons_self)
  have hnode : ((L.drop list).set head ws).NoNode list := by
    intro a zs ha hmem
    by_cases hah : a = head
    · subst hah
      obtain rfl : ws = zs := Option.some.inj (Lists.set_self.symm.trans ha)
      rcases hws list hmem with hin | hin
      · exact (List.nodup_cons.mp (hrep.circular list xs hlist).nodup).1 hin
      · exact hrep.apart list a xs ys hlist hL hne List.mem_cons_self (List.mem_cons_of_mem a hin)
    · rw [Lists.set_of_ne hah] at ha
      exact (hrep.loose_of_drop hlist List.mem_cons_self).2 a zs ha hmem
  obtain ⟨h₂, e₂, hrep₂, hsame₂⟩ := reinitListHead_represents hrep₁ hlive hnode
  have hset : ((L.drop list).set head ws).set list [] = (L.set list []).set head ws := by
    simp only [Lists.set, Lists.drop]
    rw [Function.update_comm hne.symm, Function.update_idem]
  exact ⟨h₂, e₂, hset ▸ hrep₂, hsame.trans hsame₂⟩

theorem listSpliceInit_represents (hrep : Represents h L) (hlist : L list = some xs)
    (hL : L head = some ys) (hne : list ≠ head) :
    ∃ h', listSpliceInit h list head = some h' ∧
      Represents h' ((L.set list []).set head (xs ++ ys)) ∧ SameCells h h' := by
  have hc := hrep.circular list _ hlist
  rcases xs with _ | ⟨x, zs⟩
  · refine ⟨h, by simp [listSpliceInit, listEmpty_eq hc], ?_, fun _ => rfl, fun _ => rfl⟩
    rw [Lists.set_eq_self hlist, List.nil_append, Lists.set_eq_self hL]
    exact hrep
  · obtain ⟨h₁, e₁, hrep₁, hsame₁⟩ :=
      @__listSplice_represents _ _ _ head list [] ys x zs hrep hlist hL hne
    obtain ⟨h₂, e₂, hrep₂, hsame₂⟩ := reinit_spliced hrep hlist hL hne hrep₁ hsame₁
      fun c hmem => List.mem_append.mp hmem
    have hfirst := (hrep.circular head _ hL).seg.first
    rw [lastOr_nil] at e₁
    exact ⟨h₂, by simp [listSpliceInit, listEmpty_eq hc, hfirst, e₁, e₂], hrep₂, hsame₂⟩

theorem listSpliceTailInit_represents (hrep : Represents h L) (hlist : L list = some xs)
    (hL : L head = some ys) (hne : list ≠ head) :
    ∃ h', listSpliceTailInit h list head = some h' ∧
      Represents h' ((L.set list []).set head (ys ++ xs)) ∧ SameCells h h' := by
  have hc := hrep.circular list _ hlist
  rcases xs with _ | ⟨x, zs⟩
  · refine ⟨h, by simp [listSpliceTailInit, listEmpty_eq hc], ?_, fun _ => rfl, fun _ => rfl⟩
    rw [Lists.set_eq_self hlist, List.append_nil, Lists.set_eq_self hL]
    exact hrep
  · have hL' : L head = some (ys ++ []) := by
      rw [List.append_nil]
      exact hL
    obtain ⟨h₁, e₁, hrep₁, hsame₁⟩ :=
      @__listSplice_represents _ _ _ head list ys [] x zs hrep hlist hL' hne
    rw [List.append_nil] at hrep₁
    obtain ⟨h₂, e₂, hrep₂, hsame₂⟩ := reinit_spliced hrep hlist hL hne hrep₁ hsame₁
      fun c hmem => (List.mem_append.mp hmem).symm
    have hlast := (hrep.circular head _ hL).seg.last
    rw [firstOr_nil] at e₁
    exact ⟨h₂, by simp [listSpliceTailInit, listEmpty_eq hc, hlast, e₁, e₂], hrep₂, hsame₂⟩

/-- The old node has become a list of its own. -/
theorem listReplaceInit_node (hrep : Represents h L) (hL : L head = some (xs ++ old :: ys))
    (hnew : L.Loose new) (hlive : (h new).isSome) :
    ∃ h', listReplaceInit h old new = some h' ∧
      Represents h' ((L.set head (xs ++ new :: ys)).set old []) ∧ SameCells h h' := by
  obtain ⟨h₁, e₁, hrep₁, hsame₁⟩ := listReplace_node hrep hL hnew hlive
  have hlive₁ : (h₁ old).isSome := (hsame₁.live old).trans (hrep.live hL old (by simp))
  have hno : old ≠ new := fun heq => hnew.not_mem hL (by simp [← heq])
  have hnode : (L.set head (xs ++ new :: ys)).NoNode old := by
    intro a zs ha hmem
    by_cases hah : a = head
    · subst hah
      obtain rfl : xs ++ new :: ys = zs := Option.some.inj (Lists.set_self.symm.trans ha)
      have hout := (hrep.loose_of_removed hL).2 a _ Lists.set_self
      simp only [List.mem_append, List.mem_cons, hno, false_or] at hmem hout
      exact hout hmem
    · rw [Lists.set_of_ne hah] at ha
      have hold := (hrep.loose_of_removed hL).2 a zs
      rw [Lists.set_of_ne hah] at hold
      exact hold ha hmem
  obtain ⟨h₂, e₂, hrep₂, hsame₂⟩ := reinitListHead_represents hrep₁ hlive₁ hnode
  exact ⟨h₂, by simp [listReplaceInit, e₁, e₂], hrep₂, hsame₁.trans hsame₂⟩

theorem listReplaceInit_head (hrep : Represents h L) (hL : L old = some xs) (hnew : L.Loose new)
    (hlive : (h new).isSome) :
    ∃ h', listReplaceInit h old new = some h' ∧
      Represents h' ((L.set new xs).set old []) ∧ SameCells h h' := by
  obtain ⟨h₁, e₁, hrep₁, hsame₁⟩ := listReplace_head hrep hL hnew hlive
  have hlive₁ : (h₁ old).isSome := (hsame₁.live old).trans (hrep.live hL old List.mem_cons_self)
  have hno : new ≠ old := fun heq => hnew.not_mem hL (by simp [heq])
  have hnode : ((L.drop old).set new xs).NoNode old := by
    intro a zs ha hmem
    by_cases han : a = new
    · subst han
      obtain rfl : xs = zs := Option.some.inj (Lists.set_self.symm.trans ha)
      exact (List.nodup_cons.mp (hrep.circular old xs hL).nodup).1 hmem
    · rw [Lists.set_of_ne han] at ha
      exact (hrep.loose_of_drop hL List.mem_cons_self).2 a zs ha hmem
  obtain ⟨h₂, e₂, hrep₂, hsame₂⟩ := reinitListHead_represents hrep₁ hlive₁ hnode
  have hset : ((L.drop old).set new xs).set old [] = (L.set new xs).set old [] := by
    simp only [Lists.set, Lists.drop]
    rw [Function.update_comm hno, Function.update_idem, Function.update_comm hno.symm]
  exact ⟨h₂, by simp [listReplaceInit, e₁, e₂], hset ▸ hrep₂, hsame₁.trans hsame₂⟩

end SocketPractice.Common
