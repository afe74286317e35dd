import SocketPractice.Common.ListApi

/-!
# Programs over intrusive lists (`list.h`)

A program that calls the operations of `list.h` as their comments ask never touches memory
that is not there, and does to its lists what the comments say: `Does` is the meaning of one
operation on the lists alone, and `list_ops_refine` says that the pointer writes follow it
through every sequence of operations.  `list_walks` says what the loops and the tests then
see, and `list_for_each_safe_del` that a `list_for_each_safe` may delete what it visits.
-/

namespace SocketPractice.Common

open Lib.Links Lib.Runs

variable {α : Type}

/-! ## 1. Operations -/

inductive ListOp where
  | init (list : Addr)
  | add (new head : Addr)
  | addTail (new head : Addr)
  | del (entry : Addr)
  | replace (old new : Addr)
  | replaceInit (old new : Addr)
  | delInit (entry : Addr)
  | move (list head : Addr)
  | moveTail (list head : Addr)
  | rotateLeft (head : Addr)
  | cutPosition (list head entry : Addr)
  | splice (list head : Addr)
  | spliceTail (list head : Addr)
  | spliceInit (list head : Addr)
  | spliceTailInit (list head : Addr)

def listStep (h : Heap α) : ListOp → Option (Heap α)
  | .init list => reinitListHead h list
  | .add new head => listAdd h new head
  | .addTail new head => listAddTail h new head
  | .del entry => listDel h entry
  | .replace old new => listReplace h old new
  | .replaceInit old new => listReplaceInit h old new
  | .delInit entry => listDelInit h entry
  | .move list head => listMove h list head
  | .moveTail list head => listMoveTail h list head
  | .rotateLeft head => listRotateLeft h head
  | .cutPosition list head entry => listCutPosition h list head entry
  | .splice list head => listSplice h list head
  | .spliceTail list head => listSpliceTail h list head
  | .spliceInit list head => listSpliceInit h list head
  | .spliceTailInit list head => listSpliceTailInit h list head

/-- What the comments say about an operation on the lists `L`, the cells `live` being
    allocated: when it may be called, and the lists after it. -/
inductive Does (live : Addr → Prop) (L : Lists) : ListOp → Lists → Prop
  | init {list : Addr} : live list → L.NoNode list → Does live L (.init list) (L.set list [])
  | add {new head : Addr} {xs : List Addr} : L head = some xs → L.Loose new → live new →
      Does live L (.add new head) (L.set head (new :: xs))
  | addTail {new head : Addr} {xs : List Addr} : L head = some xs → L.Loose new → live new →
      Does live L (.addTail new head) (L.set head (xs ++ [new]))
  | del {entry head : Addr} {xs ys : List Addr} : L head = some (xs ++ entry :: ys) →
      Does live L (.del entry) (L.set head (xs ++ ys))
  | replaceNode {old new head : Addr} {xs ys : List Addr} : L head = some (xs ++ old :: ys) →
      L.Loose new → live new → Does live L (.replace old new) (L.set head (xs ++ new :: ys))
  | replaceHead {old new : Addr} {xs : List Addr} : L old = some xs → L.Loose new → live new →
      Does live L (.replace old new) ((L.drop old).set new xs)
  | replaceInitNode {old new head : Addr} {xs ys : List Addr} :
      L head = some (xs ++ old :: ys) → L.Loose new → live new →
      Does live L (.replaceInit old new) ((L.set head (xs ++ new :: ys)).set old [])
  | replaceInitHead {old new : Addr} {xs : List Addr} : L old = some xs → L.Loose new →
      live new → Does live L (.replaceInit old new) ((L.set new xs).set old [])
  | delInit {entry head : Addr} {xs ys : List Addr} : L head = some (xs ++ entry :: ys) →
      Does live L (.delInit entry) ((L.set head (xs ++ ys)).set entry [])
  /-- The entry may come from another list or from this one. -/
  | move {list source head : Addr} {xs ys zs : List Addr} :
      L source = some (xs ++ list :: ys) → (L.set source (xs ++ ys)) head = some zs →
      Does live L (.move list head) ((L.set source (xs ++ ys)).set head (list :: zs))
  | moveTail {list source head : Addr} {xs ys zs : List Addr} :
      L source = some (xs ++ list :: ys) → (L.set source (xs ++ ys)) head = some zs →
      Does live L (.moveTail list head) ((L.set source (xs ++ ys)).set head (zs ++ [list]))
  | rotateLeft {head : Addr} {xs : List Addr} : L head = some xs →
      Does live L (.rotateLeft head) (L.set head (xs.rotateLeft 1))
  | cutPosition {list head entry : Addr} {xs ys : List Addr} :
      L head = some (xs ++ entry :: ys) → L.NoNode list → list ≠ head → live list →
      Does live L (.cutPosition list head entry) ((L.set list (xs ++ [entry])).set head ys)
  | cutHead {list head : Addr} {xs : List Addr} : L head = some xs → xs ≠ [] →
      L.NoNode list → live list → Does live L (.cutPosition list head head) (L.set list [])
  | cutEmpty {list head entry : Addr} : L head = some [] →
      Does live L (.cutPosition list head entry) L
  | splice {list head : Addr} {xs ys : List Addr} : L list = some xs → L head = some ys →
      list ≠ head →
      Does live L (.splice list head) (if xs = [] then L else (L.drop list).set head (xs ++ ys))
  | spliceTail {list head : Addr} {xs ys : List Addr} : L list = some xs → L head = some ys →
      list ≠ head →
      Does live L (.spliceTail list head)
        (if xs = [] then L else (L.drop list).set head (ys ++ xs))
  | spliceInit {list head : Addr} {xs ys : List Addr} : L list = some xs → L head = some ys →
      list ≠ head → Does live L (.spliceInit list head) ((L.set list []).set head (xs ++ ys))
  | spliceTailInit {list head : Addr} {xs ys : List Addr} : L list = some xs →
      L head = some ys → list ≠ head →
      Does live L (.spliceTailInit list head) ((L.set list []).set head (ys ++ xs))

/-- The same for a sequence of operations. -/
inductive DoesAll (live : Addr → Prop) : Lists → List ListOp → Lists → Prop
  | nil (L : Lists) : DoesAll live L [] L
  | cons {L L₁ L' : Lists} {op : ListOp} {ops : List ListOp} : Does live L op L₁ →
      DoesAll live L₁ ops L' → DoesAll live L (op :: ops) L'

/-! ## 2. The pointer writes follow -/

section Refine

variable {h : Heap α} {L L' : Lists} {op : ListOp}

theorem listStep_represents (hrep : Represents h L)
    (hdoes : Does (fun c => (h c).isSome) L op L') :
    ∃ h', listStep h op = some h' ∧ Represents h' L' ∧ SameCells h h' := by
  cases hdoes with
  | init hlive hnode => exact reinitListHead_represents hrep hlive hnode
  | add hL hnew hlive => exact listAdd_represents hrep hL hnew hlive
  | addTail hL hnew hlive => exact listAddTail_represents hrep hL hnew hlive
  | del hL => exact listDel_represents hrep hL
  | replaceNode hL hnew hlive => exact listReplace_node hrep hL hnew hlive
  | replaceHead hL hnew hlive => exact listReplace_head hrep hL hnew hlive
  | replaceInitNode hL hnew hlive => exact listReplaceInit_node hrep hL hnew hlive
  | replaceInitHead hL hnew hlive => exact listReplaceInit_head hrep hL hnew hlive
  | delInit hL => exact listDelInit_represents hrep hL
  | move hsource hL => exact listMove_represents hrep hsource hL
  | moveTail hsource hL => exact listMoveTail_represents hrep hsource hL
  | rotateLeft hL => exact listRotateLeft_represents hrep hL
  | cutPosition hL hnode hne hlive => exact listCutPosition_represents hrep hL hnode hne hlive
  | cutHead hL hxs hnode hlive => exact listCutPosition_head hrep hL hxs hnode hlive
  | cutEmpty hL =>
      refine ⟨h, ?_, hrep, fun _ => rfl, fun _ => rfl⟩
      simp [listStep, listCutPosition, listEmpty_eq (hrep.circular _ _ hL)]
  | splice hlist hL hne => exact listSplice_represents hrep hlist hL hne
  | spliceTail hlist hL hne => exact listSpliceTail_represents hrep hlist hL hne
  | spliceInit hlist hL hne => exact listSpliceInit_represents hrep hlist hL hne
  | spliceTailInit hlist hL hne => exact listSpliceTailInit_represents hrep hlist hL hne

theorem exec_represents {ops : List ListOp} (hrep : Represents h L)
    (hdoes : DoesAll (fun c => (h c).isSome) L ops L') :
    ∃ h', exec listStep h ops = some h' ∧ Represents h' L' ∧ SameCells h h' := by
  induction ops generalizing h L with
  | nil =>
      cases hdoes
      exact ⟨h, rfl, hrep, fun _ => rfl, fun _ => rfl⟩
  | cons op ops ih =>
      cases hdoes with
      | cons hop hops =>
          obtain ⟨h₁, e₁, hrep₁, hsame₁⟩ := listStep_represents hrep hop
          have hlive : (fun c => ((h c).isSome : Prop)) = fun c => ((h₁ c).isSome : Prop) := by
            funext c
            rw [hsame₁.live c]
          rw [hlive] at hops
          obtain ⟨h₂, e₂, hrep₂, hsame₂⟩ := ih hrep₁ hops
          exact ⟨h₂, exec_cons_eq_some.mpr ⟨h₁, e₁, e₂⟩, hrep₂, hsame₁.trans hsame₂⟩

end Refine

/-! ## 3. What the loops and the tests see -/

/-- The nodes that a loop comes by from `pos` on, until it is back at `head`: `list_for_each`
    when `step` reads the forward link, and `list_for_each_prev` when it reads the other. -/
def listNodes (step : Addr → Option Addr) (head : Addr) : Nat → Addr → Option (List Addr)
  | 0, _ => none
  | fuel + 1, pos =>
      if pos = head then some []
      else do
        let nodes ← listNodes step head fuel (← step pos)
        return pos :: nodes

section Walk

variable {h : Heap α} {head x : Addr} {xs ys : List Addr}

theorem listNodes_next {fuel : Nat} (hc : Circular h head (xs ++ ys)) (hfuel : ys.length < fuel) :
    listNodes h.next? head fuel (firstOr ys head) = some ys := by
  induction ys generalizing xs fuel with
  | nil =>
      obtain ⟨fuel, rfl⟩ : ∃ k, fuel = k + 1 := ⟨fuel - 1, by omega⟩
      simp [listNodes]
  | cons y ys ih =>
      obtain ⟨fuel, rfl⟩ : ∃ k, fuel = k + 1 := ⟨fuel - 1, by omega⟩
      have hy : y ≠ head := fun heq => (List.nodup_cons.mp hc.nodup).1 (by simp [heq])
      have hnext : h.next? y = some (firstOr ys head) := (Seg.append_cons.mp hc.seg).2.first
      have hc' : Circular h head (xs ++ [y] ++ ys) := by
        rw [List.append_assoc]
        exact hc
      have hrest := ih hc' (Nat.lt_of_succ_lt_succ hfuel)
      simp [listNodes, hy, hnext, hrest]

theorem listNodes_prev {fuel : Nat} (hc : Circular h head (xs ++ ys)) (hfuel : xs.length < fuel) :
    listNodes h.prev? head fuel (lastOr head xs) = some xs.reverse := by
  induction xs using List.reverseRecOn generalizing ys fuel with
  | nil =>
      obtain ⟨fuel, rfl⟩ : ∃ k, fuel = k + 1 := ⟨fuel - 1, by omega⟩
      simp [listNodes]
  | append_singleton xs x ih =>
      obtain ⟨fuel, rfl⟩ : ∃ k, fuel = k + 1 := ⟨fuel - 1, by omega⟩
      have hx : x ≠ head := fun heq => (List.nodup_cons.mp hc.nodup).1 (by simp [heq])
      have hc' : Circular h head (xs ++ x :: ys) := by
        rw [List.append_assoc] at hc
        exact hc
      have hprev : h.prev? x = some (lastOr head xs) := (Seg.append_cons.mp hc'.seg).1.last
      have hlast : lastOr head (xs ++ [x]) = x := by simp [lastOr]
      have hrest := ih hc' (by simpa using hfuel)
      simp [listNodes, hlast, hx, hprev, hrest]

theorem listEmptyCareful_eq (hc : Circular h head xs) :
    listEmptyCareful h head = some xs.isEmpty := by
  rcases xs with _ | ⟨x, zs⟩
  · simp [listEmptyCareful, hc.seg.first, hc.seg.last]
  · have hx : x ≠ head := fun heq => (List.nodup_cons.mp hc.nodup).1 (by simp [heq])
    simp [listEmptyCareful, hc.seg.first, hc.seg.last, hx]

theorem listIsLast_eq (hc : Circular h head (xs ++ x :: ys)) :
    listIsLast h x head = some ys.isEmpty := by
  have hnext : h.next? x = some (firstOr ys head) := (Seg.append_cons.mp hc.seg).2.first
  rcases ys with _ | ⟨y, ys⟩
  · simp [listIsLast, hnext]
  · have hy : y ≠ head := fun heq => (List.nodup_cons.mp hc.nodup).1 (by simp [heq])
    simp [listIsLast, hnext, hy]

end Walk

/-- Four cells that are on no list. -/
def fourCells : Heap Nat := fun c =>
  if c ∈ [1, 2, 3, 4] then some { next := 0, prev := 0, val := some c } else none

def noLists : Lists := fun _ => none

/-- The lists of 1 and 2 are joined at 2, and rotated. -/
def joinAndRotate : List ListOp :=
  [.init 1, .add 3 1, .addTail 4 1, .init 2, .spliceInit 1 2, .rotateLeft 2]

theorem noLists_represents : Represents fourCells noLists where
  circular := fun _ _ ha => (Option.some_ne_none _ ha.symm).elim
  apart := fun _ _ _ _ ha => (Option.some_ne_none _ ha.symm).elim

/-- After it the list of 2 has the nodes 4 and 3. -/
theorem joinAndRotate_does :
    ∃ L', DoesAll (fun c => (fourCells c).isSome) noLists joinAndRotate L' ∧
      L' 2 = some [4, 3] := by
  have hloose : ∀ c, noLists.Loose c :=
    fun c => ⟨rfl, fun _ _ ha => (Option.some_ne_none _ ha.symm).elim⟩
  refine ⟨_, .cons (.init rfl (hloose 1).2) (.cons (.add Lists.set_self ?_ rfl)
    (.cons (.addTail Lists.set_self ?_ rfl) (.cons (.init rfl ?_)
    (.cons (.spliceInit rfl rfl (by decide)) (.cons (.rotateLeft rfl) (.nil _)))))), rfl⟩
  · exact (hloose 3).set (by decide) (by decide)
  · exact ((hloose 4).set (by decide) (by decide)).set (by decide) (by decide)
  · exact (((hloose 2).2.set (by decide)).set (by decide)).set (by decide)

/-- `list_for_each_safe` from `pos` on, with what follows it in `n`. -/
def listForEachSafe (body : Heap α → Addr → Option (Heap α)) (head : Addr) :
    Nat → Heap α → Addr → Addr → Option (Heap α)
  | 0, _, _, _ => none
  | fuel + 1, h, pos, n =>
      if pos = head then some h
      else do
        let h ← body h pos
        listForEachSafe body head fuel h n (← h.next? n)

/-- A body that deletes and frees the nodes whose payload satisfies `p`. -/
def delAndFree (p : α → Bool) (h : Heap α) (pos : Addr) : Option (Heap α) := do
  if p (← h.val? pos) then
    let h ← listDel h pos
    h.free pos
  else
    return h

section Safe

variable {p : α → Bool} {h : Heap α} {L : Lists} {head y : Addr} {zs ys : List Addr}

/-- The node is to be deleted. -/
def doomed (p : α → Bool) (h : Heap α) (c : Addr) : Bool := (h.val? c).any p

theorem delAndFree_represents {v : α} (hrep : Represents h L) (hL : L head = some (zs ++ y :: ys))
    (hv : h.val? y = some v) (hp : p v = true) :
    ∃ h', delAndFree p h y = some h' ∧ Represents h' (L.set head (zs ++ ys)) ∧ h' y = none ∧
      ∀ c, c ≠ y → h'.val? c = h.val? c ∧ (h' c).isSome = (h c).isSome := by
  obtain ⟨h₁, e₁, hrep₁, hsame⟩ := listDel_represents hrep hL
  have hlive : (h₁ y).isSome := (hsame.live y).trans (hrep.live hL y (by simp))
  obtain ⟨h₂, e₂, hnone, hother⟩ := Heap.free_spec hlive
  refine ⟨h₂, by simp [delAndFree, hv, hp, e₁, e₂], ?_, hnone, ?_⟩
  · apply hrep₁.write_loose [y]
    · intro c hc
      rw [Heap.next?, hother c (fun heq => hc (List.mem_singleton.mpr heq)), Heap.next?]
    · intro c hc
      rw [Heap.prev?, hother c (fun heq => hc (List.mem_singleton.mpr heq)), Heap.prev?]
    · intro c hc
      rw [List.mem_singleton.mp hc]
      exact hrep.loose_of_removed hL
  · intro c hc
    constructor
    · rw [Heap.val?, hother c hc, ← Heap.val?, hsame.val c]
    · rw [hother c hc, hsame.live c]

/-- From `ys` on; the nodes `zs` have been kept. -/
theorem listForEachSafe_represents {fuel : Nat} {n : Addr} (hrep : Represents h L)
    (hL : L head = some (zs ++ ys)) (hval : ∀ c ∈ ys, (h.val? c).isSome)
    (hn : ∀ y ys', ys = y :: ys' → n = firstOr ys' head) (hfuel : ys.length < fuel) :
    ∃ h', listForEachSafe (delAndFree p) head fuel h (firstOr ys head) n = some h' ∧
      Represents h' (L.set head (zs ++ ys.filter fun c => !doomed p h c)) ∧
      (∀ c, c ∉ ys.filter (doomed p h) → h'.val? c = h.val? c) ∧
      ∀ c, (h' c).isSome = ((h c).isSome && !decide (c ∈ ys.filter (doomed p h))) := by
  induction ys generalizing h L zs fuel n with
  | nil =>
      obtain ⟨fuel, rfl⟩ : ∃ k, fuel = k + 1 := ⟨fuel - 1, by omega⟩
      refine ⟨h, by simp [listForEachSafe], ?_, fun c _ => rfl, fun c => by simp⟩
      rw [List.filter_nil, Lists.set_eq_self hL]
      exact hrep
  | cons y ys ih =>
      obtain ⟨fuel, rfl⟩ : ∃ k, fuel = k + 1 := ⟨fuel - 1, by omega⟩
      have hc := hrep.circular head _ hL
      have hy : y ≠ head := fun heq => (List.nodup_cons.mp hc.nodup).1 (by simp [heq])
      obtain rfl := hn y ys rfl
      obtain ⟨v, hv⟩ := Option.isSome_iff_exists.mp (hval y List.mem_cons_self)
      have hdoomed : doomed p h y = p v := by simp [doomed, hv]
      have hyout : y ∉ ys := fun hmem => by
        have hnd := (List.nodup_cons.mp hc.nodup).2
        exact (List.nodup_cons.mp (List.nodup_append.mp hnd).2.1).1 hmem
      -- What is left to do after the body has left `zs₁` and `ys`.
      have hrest : ∀ h₁ L₁ zs₁, delAndFree p h y = some h₁ → Represents h₁ L₁ →
          L₁ head = some (zs₁ ++ ys) → (∀ c ∈ ys, h₁.val? c = h.val? c) →
          ∃ h', listForEachSafe (delAndFree p) head (fuel + 1) h y (firstOr ys head) = some h' ∧
            Represents h' (L₁.set head (zs₁ ++ ys.filter fun c => !doomed p h c)) ∧
            (∀ c, c ∉ ys.filter (doomed p h) → h'.val? c = h₁.val? c) ∧
            ∀ c, (h' c).isSome = ((h₁ c).isSome && !decide (c ∈ ys.filter (doomed p h))) := by
        intro h₁ L₁ zs₁ hbody hrep₁ hL₁ hsame
        have hfilter : ys.filter (doomed p h₁) = ys.filter (doomed p h) :=
          List.filter_congr fun c hmem => by rw [doomed, hsame c hmem, doomed]
        have hfilter' : ys.filter (fun c => !doomed p h₁ c) = ys.filter fun c => !doomed p h c :=
          List.filter_congr fun c hmem => by rw [doomed, hsame c hmem, doomed]
        have hc₁ := hrep₁.circular head _ hL₁
        obtain ⟨n, hn₁, hn₂⟩ : ∃ n, h₁.next? (firstOr ys head) = some n ∧
            ∀ y ys', ys = y :: ys' → n = firstOr ys' head := by
          rcases ys with _ | ⟨y', ys'⟩
          · exact ⟨_, hc₁.seg.first, fun y ys' heq => by cases heq⟩
          · refine ⟨_, (Seg.append_cons.mp hc₁.seg).2.first, ?_⟩
            rintro y ys'' heq
            rw [(List.cons.inj heq).2]
        have hval₁ : ∀ c ∈ ys, (h₁.val? c).isSome := by
          intro c hmem
          rw [hsame c hmem]
          exact hval c (List.mem_cons_of_mem y hmem)
        obtain ⟨h', heq, hrep', hval', hlive'⟩ :=
          ih hrep₁ hL₁ hval₁ hn₂ (Nat.lt_of_succ_lt_succ hfuel)
        rw [hfilter'] at hrep'
        rw [hfilter] at hval' hlive'
        exact ⟨h', by simp [listForEachSafe, hy, hbody, hn₁, heq], hrep', hval', hlive'⟩
      cases hp : p v with
      | true =>
          obtain ⟨h₁, hbody, hrep₁, hnone, hother⟩ := delAndFree_represents hrep hL hv hp
          obtain ⟨h', heq, hrep', hval', hlive'⟩ := hrest h₁ _ zs hbody hrep₁ Lists.set_self
            fun c hmem => (hother c (fun heq => hyout (heq ▸ hmem))).1
          have hset : (L.set head (zs ++ ys)).set head (zs ++ ys.filter fun c => !doomed p h c) =
              L.set head (zs ++ (y :: ys).filter fun c => !doomed p h c) := by
            simp [Lists.set, hdoomed, hp]
          refine ⟨h', heq, hset ▸ hrep', ?_, ?_⟩
          · intro c hmem
            rw [List.filter_cons_of_pos (hdoomed.trans hp), List.mem_cons, not_or] at hmem
            rw [hval' c hmem.2, (hother c hmem.1).1]
          · intro c
            rw [hlive' c, List.filter_cons_of_pos (hdoomed.trans hp)]
            by_cases hcy : c = y
            · simp [hcy, hnone]
            · simp [hcy, (hother c hcy).2]
      | false =>
          have hbody : delAndFree p h y = some h := by simp [delAndFree, hv, hp]
          have hL' : L head = some (zs ++ [y] ++ ys) := by
            rw [List.append_assoc]
            exact hL
          obtain ⟨h', heq, hrep', hval', hlive'⟩ := hrest h L (zs ++ [y]) hbody hrep hL'
            fun _ _ => rfl
          have hkeep : (!doomed p h y) = true := by rw [hdoomed, hp]; rfl
          have hnot : ¬ doomed p h y = true := by rw [hdoomed, hp]; exact Bool.false_ne_true
          rw [List.filter_cons_of_pos (p := fun c => !doomed p h c) hkeep,
            List.filter_cons_of_neg hnot]
          rw [List.append_assoc] at hrep'
          exact ⟨h', heq, hrep', hval', hlive'⟩

end Safe

/-- A `list_for_each_safe` may delete and free what it visits: exactly the nodes with a
    payload that satisfies `p` are freed, once and no other memory, and the others are still
    in their order; the other lists and all other payloads stay. -/
theorem list_for_each_safe_del (p : α → Bool) (h : Heap α) (L : Lists) (head : Addr)
    (xs : List Addr) (fuel : Nat) (hrep : Represents h L) (hL : L head = some xs)
    (hval : ∀ c ∈ xs, (h.val? c).isSome) (hfuel : xs.length < fuel) :
    ∃ first n h', h.next? head = some first ∧ h.next? first = some n ∧
      listForEachSafe (delAndFree p) head fuel h first n = some h' ∧
      Represents h' (L.set head (xs.filter fun c => !doomed p h c)) ∧
      (∀ c, c ∉ xs.filter (doomed p h) → h'.val? c = h.val? c) ∧
      ∀ c, (h' c).isSome = ((h c).isSome && !decide (c ∈ xs.filter (doomed p h))) := by
  have hc := hrep.circular head xs hL
  obtain ⟨n, hn₁, hn₂⟩ : ∃ n, h.next? (firstOr xs head) = some n ∧
      ∀ y ys, xs = y :: ys → n = firstOr ys head := by
    rcases xs with _ | ⟨x, xs⟩
    · exact ⟨_, hc.seg.first, fun y ys heq => by cases heq⟩
    · refine ⟨_, hc.seg.2.first, ?_⟩
      rintro y ys heq
      rw [(List.cons.inj heq).2]
  obtain ⟨h', heq, hrest⟩ := @listForEachSafe_represents _ p h L head [] xs fuel n hrep hL hval
    hn₂ hfuel
  exact ⟨firstOr xs head, n, h', hc.seg.first, hn₁, heq, hrest⟩

/-- A list with the payloads 7 and 8. -/
def sevenAndEight : Heap Nat
  | 1 => some { next := 2, prev := 3, val := none }
  | 2 => some { next := 3, prev := 1, val := some 7 }
  | 3 => some { next := 1, prev := 2, val := some 8 }
  | _ => none

theorem list_for_each_safe_del_sevenAndEight :
    ∃ h', listForEachSafe (delAndFree (· == 7)) 1 3 sevenAndEight 2 3 = some h' ∧
      Circular h' 1 [3] ∧ h' 2 = none := by
  have hrep : Represents sevenAndEight (noLists.set 1 [2, 3]) := by
    constructor
    · intro a xs ha
      by_cases hne : a = 1
      · subst hne
        obtain rfl : [2, 3] = xs := Option.some.inj (Lists.set_self.symm.trans ha)
        exact ⟨by decide, by simp [Seg, Linked, Heap.next?, Heap.prev?, sevenAndEight]⟩
      · rw [Lists.set_of_ne hne] at ha
        cases ha
    · intro a b xs ys ha hb hne
      by_cases hne' : a = 1
      · rw [Lists.set_of_ne (fun heq => hne (hne'.trans heq.symm))] at hb
        cases hb
      · rw [Lists.set_of_ne hne'] at ha
        cases ha
  obtain ⟨first, n, h', hfirst, hn, heq, hrep', -, hlive⟩ :=
    list_for_each_safe_del (· == 7) sevenAndEight _ 1 [2, 3] 3 hrep Lists.set_self
      (by simp [Heap.val?, sevenAndEight]) (by decide)
  obtain rfl : 2 = first := Option.some.inj hfirst
  obtain rfl : 3 = n := Option.some.inj hn
  refine ⟨h', heq, hrep'.circular 1 [3] Lists.set_self, ?_⟩
  have hfreed := hlive 2
  simpa [doomed, Heap.val?, sevenAndEight] using hfreed

end SocketPractice.Common
