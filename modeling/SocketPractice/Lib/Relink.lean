import Mathlib.Data.List.Chain
import SocketPractice.Lib.Links

/-!
# Rings of links and how they are relinked

A circular list is a ring: its cells are linked one to the next, from the head round to the
head again.  Code that works on circular lists does nothing but link cells to one another,
and `Relinked` says which.  A stretch of a ring stays linked if no new link leaves one of its
cells but the last or enters one of its cells but the first; so a new ring is put together
from stretches of old ones and the new links between them.
-/

namespace Lib.Links

open Heap

variable {α : Type} {h h' h'' : Heap α}

/-! ## 1. Rings -/

/-- The cells `l` are linked one to the next. -/
def Chain (h : Heap α) (l : List Addr) : Prop := l.IsChain (Linked h)

theorem seg_iff_chain {a b : Addr} {xs : List Addr} :
    Seg h a xs b ↔ Chain h (a :: (xs ++ [b])) := by
  induction xs generalizing a with
  | nil => exact List.isChain_pair.symm
  | cons x xs ih =>
      rw [Seg, ih]
      exact List.isChain_cons_cons.symm

theorem circular_iff_chain {head : Addr} {xs : List Addr} :
    Circular h head xs ↔ (head :: xs).Nodup ∧ Chain h (head :: (xs ++ [head])) := by
  rw [← seg_iff_chain]
  exact ⟨fun hc => ⟨hc.nodup, hc.seg⟩, fun hc => ⟨hc.1, hc.2⟩⟩

theorem Chain.left {l m : List Addr} (hc : Chain h (l ++ m)) : Chain h l :=
  List.IsChain.left_of_append hc

theorem Chain.right {l m : List Addr} (hc : Chain h (l ++ m)) : Chain h m :=
  List.IsChain.right_of_append hc

/-! ## 2. What is relinked -/

/-- The cells of `es` have been linked, and nothing else has been written. -/
structure Relinked (h h' : Heap α) (es : List (Addr × Addr)) : Prop where
  linked : ∀ e ∈ es, Linked h' e.1 e.2
  next : ∀ x, (∀ e ∈ es, e.1 ≠ x) → h'.next? x = h.next? x
  prev : ∀ x, (∀ e ∈ es, e.2 ≠ x) → h'.prev? x = h.prev? x
  val : ∀ x, h'.val? x = h.val? x
  live : ∀ x, (h' x).isSome = (h x).isSome

/-- A link that has been written is read back. -/
theorem next?_of_setNext {p v : Addr} (heq : h.setNext p v = some h') : h'.next? p = some v := by
  obtain ⟨c, hc, rfl⟩ := Option.map_eq_some_iff.mp heq
  simp [next?]

theorem prev?_of_setPrev {p v : Addr} (heq : h.setPrev p v = some h') : h'.prev? p = some v := by
  obtain ⟨c, hc, rfl⟩ := Option.map_eq_some_iff.mp heq
  simp [prev?]

/-- The payloads stay, and nothing is allocated or freed. -/
structure SameCells (h h' : Heap α) : Prop where
  val : ∀ x, h'.val? x = h.val? x
  live : ∀ x, (h' x).isSome = (h x).isSome

theorem SameCells.trans {h₁ h₂ : Heap α} (h₀₁ : SameCells h h₁) (h₁₂ : SameCells h₁ h₂) :
    SameCells h h₂ :=
  ⟨fun x => (h₁₂.val x).trans (h₀₁.val x), fun x => (h₁₂.live x).trans (h₀₁.live x)⟩

theorem Relinked.sameCells {h' : Heap α} {es : List (Addr × Addr)} (hr : Relinked h h' es) :
    SameCells h h' :=
  ⟨hr.val, hr.live⟩

/-- The backward link is written first. -/
theorem exists_setPrev_setNext {a b : Addr} (ha : (h a).isSome) (hb : (h b).isSome) :
    ∃ h₁ h', h.setPrev b a = some h₁ ∧ h₁.setNext a b = some h' ∧ Relinked h h' [(a, b)] := by
  obtain ⟨h₁, e₁, p₁, n₁, v₁, l₁⟩ := Heap.setPrev_spec (v := a) hb
  obtain ⟨h₂, e₂, n₂, p₂, v₂, l₂⟩ := Heap.setNext_spec (v := b) ((l₁ a).trans ha)
  refine ⟨h₁, h₂, e₁, e₂, ⟨?_, ?_, ?_, fun x => (v₂ x).trans (v₁ x),
    fun x => (l₂ x).trans (l₁ x)⟩⟩
  · intro e he
    rw [List.mem_singleton.mp he]
    exact ⟨by rw [n₂, if_pos rfl], by rw [p₂, p₁, if_pos rfl]⟩
  · intro x hx
    rw [n₂, if_neg (hx _ List.mem_cons_self).symm, n₁]
  · intro x hx
    rw [p₂, p₁, if_neg (hx _ List.mem_cons_self).symm]

/-- The forward link is written first. -/
theorem exists_setNext_setPrev {a b : Addr} (ha : (h a).isSome) (hb : (h b).isSome) :
    ∃ h₁ h', h.setNext a b = some h₁ ∧ h₁.setPrev b a = some h' ∧ Relinked h h' [(a, b)] := by
  obtain ⟨h₁, e₁, n₁, p₁, v₁, l₁⟩ := Heap.setNext_spec (v := b) ha
  obtain ⟨h₂, e₂, p₂, n₂, v₂, l₂⟩ := Heap.setPrev_spec (v := a) ((l₁ b).trans hb)
  refine ⟨h₁, h₂, e₁, e₂, ⟨?_, ?_, ?_, fun x => (v₂ x).trans (v₁ x),
    fun x => (l₂ x).trans (l₁ x)⟩⟩
  · intro e he
    rw [List.mem_singleton.mp he]
    exact ⟨by rw [n₂, n₁, if_pos rfl], by rw [p₂, if_pos rfl]⟩
  · intro x hx
    rw [n₂, n₁, if_neg (hx _ List.mem_cons_self).symm]
  · intro x hx
    rw [p₂, if_neg (hx _ List.mem_cons_self).symm, p₁]

theorem Relinked.perm {es es' : List (Addr × Addr)} (hr : Relinked h h' es)
    (hperm : es.Perm es') : Relinked h h' es' where
  linked := fun e he => hr.linked e (hperm.mem_iff.mpr he)
  next := fun x hx => hr.next x fun e he => hx e (hperm.mem_iff.mp he)
  prev := fun x hx => hr.prev x fun e he => hx e (hperm.mem_iff.mp he)
  val := hr.val
  live := hr.live

/-- One more link, between cells that were not linked that way so far. -/
theorem Relinked.link {es : List (Addr × Addr)} {a b : Addr} (hr : Relinked h h' es)
    (hr' : Relinked h' h'' [(a, b)]) (ha : ∀ e ∈ es, e.1 ≠ a) (hb : ∀ e ∈ es, e.2 ≠ b) :
    Relinked h h'' ((a, b) :: es) := by
  constructor
  · intro e he
    rcases List.mem_cons.mp he with rfl | he
    · exact hr'.linked _ List.mem_cons_self
    · obtain ⟨hnext, hprev⟩ := hr.linked e he
      constructor
      · rw [hr'.next e.1, hnext]
        intro f hf
        rw [List.mem_singleton.mp hf]
        exact (ha e he).symm
      · rw [hr'.prev e.2, hprev]
        intro f hf
        rw [List.mem_singleton.mp hf]
        exact (hb e he).symm
  · intro x hx
    rw [hr'.next x, hr.next x fun e he => hx e (List.mem_cons_of_mem _ he)]
    intro f hf
    rw [List.mem_singleton.mp hf]
    exact hx (a, b) List.mem_cons_self
  · intro x hx
    rw [hr'.prev x, hr.prev x fun e he => hx e (List.mem_cons_of_mem _ he)]
    intro f hf
    rw [List.mem_singleton.mp hf]
    exact hx (a, b) List.mem_cons_self
  · exact fun x => (hr'.val x).trans (hr.val x)
  · exact fun x => (hr'.live x).trans (hr.live x)

/-! ## 3. Stretches of rings -/

/-- No link of `es` leaves a cell of `l` but the last or enters one but the first. -/
def AtEnds (es : List (Addr × Addr)) (l : List Addr) : Prop :=
  ∀ e ∈ es, e.1 ∉ l.dropLast ∧ e.2 ∉ l.tail

/-- A stretch stays linked if it is left alone but for its ends. -/
theorem Relinked.chain {es : List (Addr × Addr)} {l : List Addr} (hr : Relinked h h' es)
    (hl : Chain h l) (hends : AtEnds es l) : Chain h' l := by
  induction l with
  | nil => exact List.isChain_nil
  | cons x l ih =>
      rcases l with _ | ⟨y, l⟩
      · exact List.isChain_singleton x
      · obtain ⟨hlink, hl⟩ := List.isChain_cons_cons.mp hl
        apply List.isChain_cons_cons.mpr
        refine ⟨⟨?_, ?_⟩, ih hl ?_⟩
        · rw [hr.next x, hlink.1]
          rintro e he rfl
          exact (hends e he).1 List.mem_cons_self
        · rw [hr.prev y, hlink.2]
          rintro e he rfl
          exact (hends e he).2 List.mem_cons_self
        · intro e he
          obtain ⟨hout, hin⟩ := hends e he
          constructor
          · intro hmem
            apply hout
            rw [List.dropLast_cons_cons]
            exact List.mem_cons_of_mem x hmem
          · exact fun hmem => hin (List.mem_cons_of_mem y hmem)

theorem mem_getLast?_cons {a c : Addr} {xs : List Addr} (hc : c ∈ (a :: xs).getLast?) :
    c = lastOr a xs := by
  rw [List.getLast?_cons, Option.mem_some_iff] at hc
  rw [← hc, lastOr, List.getLastD_eq_getLast?]

theorem mem_head?_append {b c : Addr} {xs : List Addr} (hc : c ∈ (xs ++ [b]).head?) :
    c = firstOr xs b := by
  cases xs <;> simpa using hc.symm

/-- A ring that leaves the head through one stretch and comes back through another. -/
theorem Relinked.circular_append {es : List (Addr × Addr)} {head : Addr} {xs ys : List Addr}
    (hr : Relinked h h' es) (hxs : Chain h (head :: xs)) (hys : Chain h (ys ++ [head]))
    (hlink : (lastOr head xs, firstOr ys head) ∈ es) (hnodup : (head :: (xs ++ ys)).Nodup)
    (hxends : AtEnds es (head :: xs)) (hyends : AtEnds es (ys ++ [head])) :
    Circular h' head (xs ++ ys) := by
  rw [circular_iff_chain]
  refine ⟨hnodup, ?_⟩
  have heq : head :: (xs ++ ys ++ [head]) = (head :: xs) ++ (ys ++ [head]) := by simp
  rw [heq]
  apply List.isChain_append.mpr
  refine ⟨hr.chain hxs hxends, hr.chain hys hyends, ?_⟩
  intro a ha b hb
  rw [mem_getLast?_cons ha, mem_head?_append hb]
  exact hr.linked _ hlink

/-- A ring with a third stretch in between. -/
theorem Relinked.circular_insert {es : List (Addr × Addr)} {head x : Addr}
    {xs zs ys : List Addr} (hr : Relinked h h' es) (hxs : Chain h (head :: xs))
    (hzs : Chain h (x :: zs)) (hys : Chain h (ys ++ [head]))
    (hinto : (lastOr head xs, x) ∈ es) (hfrom : (lastOr x zs, firstOr ys head) ∈ es)
    (hnodup : (head :: (xs ++ x :: zs ++ ys)).Nodup) (hxends : AtEnds es (head :: xs))
    (hzends : AtEnds es (x :: zs)) (hyends : AtEnds es (ys ++ [head])) :
    Circular h' head (xs ++ x :: zs ++ ys) := by
  rw [circular_iff_chain]
  refine ⟨hnodup, ?_⟩
  have heq : head :: (xs ++ x :: zs ++ ys ++ [head]) =
      (head :: xs) ++ ((x :: zs) ++ (ys ++ [head])) := by simp
  rw [heq]
  apply List.isChain_append.mpr
  refine ⟨hr.chain hxs hxends, ?_, ?_⟩
  · apply List.isChain_append.mpr
    refine ⟨hr.chain hzs hzends, hr.chain hys hyends, ?_⟩
    intro a ha b hb
    rw [mem_getLast?_cons ha, mem_head?_append hb]
    exact hr.linked _ hfrom
  · intro a ha b hb
    obtain rfl : x = b := by simpa using hb
    rw [mem_getLast?_cons ha]
    exact hr.linked _ hinto

theorem atEnds_singleton (es : List (Addr × Addr)) (c : Addr) : AtEnds es [c] :=
  fun _ _ => ⟨List.not_mem_nil, List.not_mem_nil⟩

/-- A ring of a head and one stretch. -/
theorem Relinked.circular_stretch {es : List (Addr × Addr)} {head x : Addr} {zs : List Addr}
    (hr : Relinked h h' es) (hzs : Chain h (x :: zs)) (hinto : (head, x) ∈ es)
    (hfrom : (lastOr x zs, head) ∈ es) (hnodup : (head :: x :: zs).Nodup)
    (hends : AtEnds es (x :: zs)) : Circular h' head (x :: zs) := by
  have hhead : Chain h [head] := List.isChain_singleton head
  have hnodup' : (head :: ([] ++ x :: zs ++ [])).Nodup := by simpa using hnodup
  have hnew : Circular h' head ([] ++ x :: zs ++ []) :=
    hr.circular_insert hhead hzs hhead hinto hfrom hnodup' (atEnds_singleton es head) hends
      (atEnds_singleton es head)
  simpa using hnew

/-- What is in a stretch without repetitions is at its ends if it is linked anew. -/
theorem atEnds_of_nodup {es : List (Addr × Addr)} {l : List Addr} (hnodup : l.Nodup)
    (hout : ∀ e ∈ es, e.1 ∈ l → l.getLast? = some e.1)
    (hin : ∀ e ∈ es, e.2 ∈ l → l.head? = some e.2) : AtEnds es l := by
  intro e he
  constructor
  · intro hmem
    have hlast := List.dropLast_append_getLast? e.1 (hout e he (List.dropLast_subset l hmem))
    rw [← hlast, List.nodup_append] at hnodup
    exact hnodup.2.2 e.1 hmem e.1 (List.mem_singleton_self _) rfl
  · intro hmem
    obtain ⟨l', rfl⟩ := List.head?_eq_some_iff.mp (hin e he (List.mem_of_mem_tail hmem))
    exact (List.nodup_cons.mp hnodup).1 hmem

theorem getLast?_cons_eq (a : Addr) (xs : List Addr) : (a :: xs).getLast? = some (lastOr a xs) := by
  rw [List.getLast?_cons, lastOr, List.getLastD_eq_getLast?]

theorem head?_append_eq (xs : List Addr) (b : Addr) :
    (xs ++ [b]).head? = some (firstOr xs b) := by
  cases xs <;> rfl

theorem firstOr_mem_cons (ys : List Addr) (c : Addr) : firstOr ys c ∈ c :: ys := by
  cases ys <;> simp

/-- A stretch `x :: zs` in the place between `xs` and `ys`, whatever has been there. -/
theorem Relinked.circular_between {head x : Addr} {xs zs ys : List Addr}
    (hr : Relinked h h' [(lastOr head xs, x), (lastOr x zs, firstOr ys head)])
    (hxs : Chain h (head :: xs)) (hzs : Chain h (x :: zs)) (hys : Chain h (ys ++ [head]))
    (hnodup : (head :: (xs ++ x :: zs ++ ys)).Nodup) :
    Circular h' head (xs ++ x :: zs ++ ys) := by
  have hlast := lastOr_mem head xs
  have hlast' := lastOr_mem x zs
  have hfirst := firstOr_mem ys head
  have hnd₁ : (head :: xs).Nodup := by grind
  have hnd₂ : (x :: zs).Nodup := by grind
  have hnd₃ : (ys ++ [head]).Nodup := by grind
  have h₁₂ : ∀ c ∈ head :: xs, c ∉ x :: zs := by grind
  have h₁₃ : ∀ c ∈ xs, c ∉ ys ++ [head] := by grind
  have h₂₃ : ∀ c ∈ x :: zs, c ∉ ys ++ [head] := by grind
  apply hr.circular_insert hxs hzs hys List.mem_cons_self
    (List.mem_cons_of_mem _ List.mem_cons_self) hnodup
  · apply atEnds_of_nodup hnd₁
    · rw [List.forall_mem_cons, List.forall_mem_singleton]
      exact ⟨fun _ => getLast?_cons_eq head xs, fun hmem => absurd hlast' (h₁₂ _ hmem)⟩
    · rw [List.forall_mem_cons, List.forall_mem_singleton]
      refine ⟨fun hmem => absurd List.mem_cons_self (h₁₂ _ hmem), ?_⟩
      intro hmem
      rcases List.mem_cons.mp hmem with heq | hmem
      · exact congrArg some heq.symm
      · exact absurd hfirst (h₁₃ _ hmem)
  · apply atEnds_of_nodup hnd₂
    · rw [List.forall_mem_cons, List.forall_mem_singleton]
      exact ⟨fun hmem => absurd hmem (h₁₂ _ hlast), fun _ => getLast?_cons_eq x zs⟩
    · rw [List.forall_mem_cons, List.forall_mem_singleton]
      exact ⟨fun _ => rfl, fun hmem => absurd hfirst (h₂₃ _ hmem)⟩
  · apply atEnds_of_nodup hnd₃
    · rw [List.forall_mem_cons, List.forall_mem_singleton]
      refine ⟨?_, fun hmem => absurd hmem (h₂₃ _ hlast')⟩
      intro hmem
      rcases List.mem_cons.mp hlast with heq | hmem'
      · rw [heq, List.getLast?_concat]
      · exact absurd hmem (h₁₃ _ hmem')
    · rw [List.forall_mem_cons, List.forall_mem_singleton]
      exact ⟨fun hmem => absurd hmem (h₂₃ _ List.mem_cons_self), fun _ => head?_append_eq ys head⟩

/-- What was between `xs` and `ys` is taken out. -/
theorem Relinked.circular_without {head : Addr} {xs ys : List Addr}
    (hr : Relinked h h' [(lastOr head xs, firstOr ys head)]) (hxs : Chain h (head :: xs))
    (hys : Chain h (ys ++ [head])) (hnodup : (head :: (xs ++ ys)).Nodup) :
    Circular h' head (xs ++ ys) := by
  have hlast := lastOr_mem head xs
  have hfirst := firstOr_mem ys head
  have hnd₁ : (head :: xs).Nodup := by grind
  have hnd₃ : (ys ++ [head]).Nodup := by grind
  have h₁₃ : ∀ c ∈ xs, c ∉ ys ++ [head] := by grind
  apply hr.circular_append hxs hys List.mem_cons_self hnodup
  · apply atEnds_of_nodup hnd₁
    · rw [List.forall_mem_singleton]
      exact fun _ => getLast?_cons_eq head xs
    · rw [List.forall_mem_singleton]
      intro hmem
      rcases List.mem_cons.mp hmem with heq | hmem
      · exact congrArg some heq.symm
      · exact absurd hfirst (h₁₃ _ hmem)
  · apply atEnds_of_nodup hnd₃
    · rw [List.forall_mem_singleton]
      intro hmem
      rcases List.mem_cons.mp hlast with heq | hmem'
      · rw [heq, List.getLast?_concat]
      · exact absurd hmem (h₁₃ _ hmem')
    · rw [List.forall_mem_singleton]
      exact fun _ => head?_append_eq ys head

/-- The cells up to `entry` go to `list`, the others stay with `head`. -/
theorem Relinked.circular_cut {head list entry : Addr} {xs ys : List Addr}
    (hr : Relinked h h' [(head, firstOr ys head), (entry, list), (list, firstOr xs entry)])
    (hc : Circular h head (xs ++ entry :: ys)) (hlist : list ∉ head :: (xs ++ entry :: ys)) :
    Circular h' list (xs ++ [entry]) ∧ Circular h' head ys := by
  obtain ⟨hnodup, hchain⟩ := circular_iff_chain.mp hc
  have hparts : head :: (xs ++ entry :: ys ++ [head]) =
      [head] ++ ((xs ++ [entry]) ++ (ys ++ [head])) := by simp
  rw [hparts] at hchain
  have hnd₁ : (xs ++ [entry]).Nodup := by grind
  have hnd₂ : (ys ++ [head]).Nodup := by grind
  have h₁₂ : ∀ c ∈ xs ++ [entry], c ∉ ys ++ [head] := by grind
  have hl₁ : list ∉ xs ++ [entry] := by grind
  have hl₂ : list ∉ ys ++ [head] := by grind
  have hfirst₁ : firstOr xs entry ∈ xs ++ [entry] := firstOr_mem xs entry
  have hfirst₂ : firstOr ys head ∈ ys ++ [head] := firstOr_mem ys head
  have hentry : entry ∈ xs ++ [entry] := by simp
  have hhead : head ∈ ys ++ [head] := by simp
  constructor
  · obtain ⟨x, zs, hx⟩ : ∃ x zs, xs ++ [entry] = x :: zs := by
      cases xs with
      | nil => exact ⟨entry, [], rfl⟩
      | cons x xs => exact ⟨x, xs ++ [entry], rfl⟩
    have hlast : lastOr x zs = entry := by
      have hgetLast := getLast?_cons_eq x zs
      rw [← hx, List.getLast?_concat] at hgetLast
      exact (Option.some.inj hgetLast).symm
    have hfirst : firstOr xs entry = x := by
      have hhead? := head?_append_eq xs entry
      rw [hx] at hhead?
      exact (Option.some.inj hhead?).symm
    have hzends : AtEnds [(head, firstOr ys head), (entry, list), (list, firstOr xs entry)]
        (x :: zs) := by
      rw [← hx]
      apply atEnds_of_nodup hnd₁
      · rw [List.forall_mem_cons, List.forall_mem_cons, List.forall_mem_singleton]
        exact ⟨fun hmem => absurd hhead (h₁₂ _ hmem), fun _ => List.getLast?_concat,
          fun hmem => absurd hmem hl₁⟩
      · rw [List.forall_mem_cons, List.forall_mem_cons, List.forall_mem_singleton]
        exact ⟨fun hmem => absurd hfirst₂ (h₁₂ _ hmem), fun hmem => absurd hmem hl₁,
          fun _ => head?_append_eq xs entry⟩
    have hstretch : Chain h (x :: zs) := hx ▸ hchain.right.left
    rw [hx]
    apply hr.circular_stretch hstretch _ _ (hx ▸ List.nodup_cons.mpr ⟨hl₁, hnd₁⟩) hzends
    · simp [hfirst]
    · simp [hlast]
  · have hnew : Circular h' head ([] ++ ys) := by
      apply hr.circular_append (List.isChain_singleton head) hchain.right.right
        List.mem_cons_self (List.nodup_cons.mpr _) (atEnds_singleton _ head)
      · apply atEnds_of_nodup hnd₂
        · rw [List.forall_mem_cons, List.forall_mem_cons, List.forall_mem_singleton]
          exact ⟨fun _ => List.getLast?_concat, fun hmem => absurd hmem (h₁₂ _ hentry),
            fun hmem => absurd hmem hl₂⟩
        · rw [List.forall_mem_cons, List.forall_mem_cons, List.forall_mem_singleton]
          exact ⟨fun _ => head?_append_eq ys head, fun hmem => absurd hmem hl₂,
            fun hmem => absurd hmem (h₁₂ _ hfirst₁)⟩
      · grind
    exact hnew

/-! ## 4. Several lists on one heap -/

/-- The lists, each with its nodes, under their heads. -/
abbrev Lists := Addr → Option (List Addr)

namespace Lists

def set (L : Lists) (head : Addr) (xs : List Addr) : Lists := Function.update L head (some xs)

def drop (L : Lists) (head : Addr) : Lists := Function.update L head none

/-- `x` is a node of no list. -/
def NoNode (L : Lists) (x : Addr) : Prop := ∀ a xs, L a = some xs → x ∉ xs

/-- `x` is no head either. -/
def Loose (L : Lists) (x : Addr) : Prop := L x = none ∧ L.NoNode x

variable {L : Lists} {head a : Addr} {xs ys : List Addr}

@[simp] theorem set_self : L.set head xs head = some xs := by simp [set]

theorem set_of_ne (hne : a ≠ head) : L.set head xs a = L a := by simp [set, hne]

theorem set_eq_self (ha : L head = some xs) : L.set head xs = L := by
  rw [set, ← ha, Function.update_eq_self]

@[simp] theorem drop_self : L.drop head head = none := by simp [drop]

theorem drop_of_ne (hne : a ≠ head) : L.drop head a = L a := by simp [drop, hne]

theorem Loose.not_mem {x : Addr} (hx : L.Loose x) (ha : L a = some xs) : x ∉ a :: xs := by
  intro hmem
  rcases List.mem_cons.mp hmem with rfl | hmem
  · rw [hx.1] at ha
    cases ha
  · exact hx.2 a xs ha hmem

theorem NoNode.set {x : Addr} (hx : L.NoNode x) (hout : x ∉ xs) : (L.set head xs).NoNode x := by
  intro a ys ha
  by_cases hah : a = head
  · rw [hah, set_self] at ha
    exact Option.some.inj ha ▸ hout
  · rw [set_of_ne hah] at ha
    exact hx a ys ha

theorem Loose.set {x : Addr} (hx : L.Loose x) (hne : x ≠ head) (hout : x ∉ xs) :
    (L.set head xs).Loose x :=
  ⟨(set_of_ne hne).trans hx.1, hx.2.set hout⟩

theorem Loose.drop {x : Addr} (hx : L.Loose x) (a : Addr) : (L.drop a).Loose x := by
  constructor
  · by_cases hxa : x = a
    · rw [hxa, drop_self]
    · rw [drop_of_ne hxa]
      exact hx.1
  · intro b xs hb
    by_cases hba : b = a
    · rw [hba, drop_self] at hb
      cases hb
    · rw [drop_of_ne hba] at hb
      exact hx.2 b xs hb

end Lists

/-- The heap holds the lists, and no cell is in two of them. -/
structure Represents (h : Heap α) (L : Lists) : Prop where
  circular : ∀ a xs, L a = some xs → Circular h a xs
  apart : ∀ a b xs ys, L a = some xs → L b = some ys → a ≠ b →
    List.Disjoint (a :: xs) (b :: ys)

variable {L L' : Lists} {cells : List Addr}

/-- The links of `cells` are rewritten.  The lists outside of them stay, and those inside
    are new. -/
theorem Represents.change (hrep : Represents h L)
    (hnext : ∀ x, x ∉ cells → h'.next? x = h.next? x)
    (hprev : ∀ x, x ∉ cells → h'.prev? x = h.prev? x)
    (hlists : ∀ a xs, L' a = some xs → (L a = some xs ∧ ∀ x ∈ a :: xs, x ∉ cells) ∨
      (Circular h' a xs ∧ ∀ x ∈ a :: xs, x ∈ cells))
    (hapart : ∀ a b xs ys, L' a = some xs → L' b = some ys → a ∈ cells → b ∈ cells → a ≠ b →
      List.Disjoint (a :: xs) (b :: ys)) : Represents h' L' := by
  constructor
  · intro a xs ha
    rcases hlists a xs ha with ⟨hold, hout⟩ | ⟨hc, -⟩
    · exact (hrep.circular a xs hold).congr (fun c hc => hnext c (hout c hc))
        fun c hc => hprev c (hout c hc)
    · exact hc
  · intro a b xs ys ha hb hne x hxa hxb
    rcases hlists a xs ha with ⟨holda, houta⟩ | ⟨-, hina⟩
    · rcases hlists b ys hb with ⟨holdb, -⟩ | ⟨-, hinb⟩
      · exact hrep.apart a b xs ys holda holdb hne hxa hxb
      · exact houta x hxa (hinb x hxb)
    · rcases hlists b ys hb with ⟨-, houtb⟩ | ⟨-, hinb⟩
      · exact houtb x hxb (hina x hxa)
      · exact hapart a b xs ys ha hb (hina a List.mem_cons_self) (hinb b List.mem_cons_self) hne
          hxa hxb

theorem Relinked.next_off {es : List (Addr × Addr)} (hr : Relinked h h' es)
    (hes : ∀ e ∈ es, e.1 ∈ cells) (x : Addr) (hx : x ∉ cells) : h'.next? x = h.next? x := by
  apply hr.next x
  rintro e he rfl
  exact hx (hes e he)

theorem Relinked.prev_off {es : List (Addr × Addr)} (hr : Relinked h h' es)
    (hes : ∀ e ∈ es, e.2 ∈ cells) (x : Addr) (hx : x ∉ cells) : h'.prev? x = h.prev? x := by
  apply hr.prev x
  rintro e he rfl
  exact hx (hes e he)

/-- A list is forgotten: its cells become loose. -/
theorem Represents.drop (hrep : Represents h L) (a : Addr) : Represents h (L.drop a) := by
  have hkept : ∀ b ys, L.drop a b = some ys → L b = some ys := by
    intro b ys hb
    by_cases hba : b = a
    · subst hba
      rw [Lists.drop_self] at hb
      cases hb
    · rwa [Lists.drop_of_ne hba] at hb
  constructor
  · exact fun b ys hb => hrep.circular b ys (hkept b ys hb)
  · exact fun b c ys zs hb hc hne => hrep.apart b c ys zs (hkept b ys hb) (hkept c zs hc) hne

theorem Represents.loose_of_drop {a c : Addr} {xs : List Addr} (hrep : Represents h L)
    (ha : L a = some xs) (hc : c ∈ a :: xs) : (L.drop a).Loose c := by
  constructor
  · by_cases hca : c = a
    · rw [hca, Lists.drop_self]
    · rw [Lists.drop_of_ne hca]
      rcases hL : L c with _ | ys
      · rfl
      · exact absurd hc (fun hmem =>
          hrep.apart a c xs ys ha hL (Ne.symm hca) hmem List.mem_cons_self)
  · intro b ys hb hmem
    by_cases hba : b = a
    · subst hba
      rw [Lists.drop_self] at hb
      cases hb
    · rw [Lists.drop_of_ne hba] at hb
      exact hrep.apart a b xs ys ha hb (Ne.symm hba) hc (List.mem_cons_of_mem b hmem)

/-- Only loose cells are rewritten. -/
theorem Represents.write_loose (cells : List Addr) (hrep : Represents h L)
    (hnext : ∀ x, x ∉ cells → h'.next? x = h.next? x)
    (hprev : ∀ x, x ∉ cells → h'.prev? x = h.prev? x) (hloose : ∀ c ∈ cells, L.Loose c) :
    Represents h' L := by
  apply hrep.change hnext hprev
  · intro a xs ha
    exact .inl ⟨ha, fun x hx hx' => (hloose x hx').not_mem ha hx⟩
  · intro a b xs ys ha hb hina _ _
    rw [(hloose a hina).1] at ha
    cases ha

/-- A list is made of loose cells and cells that it had before. -/
theorem Represents.set {head : Addr} {xs : List Addr} (cells : List Addr) (hrep : Represents h L)
    (hnext : ∀ x, x ∉ cells → h'.next? x = h.next? x)
    (hprev : ∀ x, x ∉ cells → h'.prev? x = h.prev? x) (hnew : Circular h' head xs)
    (hsub : ∀ x ∈ head :: xs, x ∈ cells)
    (hcells : ∀ c ∈ cells, L.Loose c ∨ ∃ ys, L head = some ys ∧ c ∈ head :: ys) :
    Represents h' (L.set head xs) := by
  have hold : ∀ a zs, a ≠ head → L.set head xs a = some zs →
      L a = some zs ∧ ∀ x ∈ a :: zs, x ∉ cells := by
    intro a zs hne ha
    rw [Lists.set_of_ne hne] at ha
    refine ⟨ha, ?_⟩
    intro x hx hx'
    rcases hcells x hx' with hloose | ⟨ys, hys, hmem⟩
    · exact hloose.not_mem ha hx
    · exact hrep.apart a head zs ys ha hys hne hx hmem
  apply hrep.change hnext hprev
  · intro a zs ha
    by_cases hne : a = head
    · subst hne
      obtain rfl : xs = zs := Option.some.inj (Lists.set_self.symm.trans ha)
      exact .inr ⟨hnew, hsub⟩
    · exact .inl (hold a zs hne ha)
  · intro a b ys zs ha hb hina hinb hne
    by_cases hah : a = head
    · have hbh : b ≠ head := fun heq => hne (hah.trans heq.symm)
      exact absurd hinb ((hold b zs hbh hb).2 b List.mem_cons_self)
    · exact absurd hina ((hold a ys hah ha).2 a List.mem_cons_self)

theorem Represents.live {a : Addr} {xs : List Addr} (hrep : Represents h L) (ha : L a = some xs) :
    ∀ c ∈ a :: xs, (h c).isSome :=
  (hrep.circular a xs ha).allocated

/-- A stretch of loose cells is linked in between `xs` and `ys`. -/
theorem Represents.between {head x : Addr} {xs zs ys : List Addr} (hrep : Represents h L)
    (hL : L head = some (xs ++ ys))
    (hr : Relinked h h' [(lastOr head xs, x), (lastOr x zs, firstOr ys head)])
    (hzs : Chain h (x :: zs)) (hnodup : (x :: zs).Nodup) (hloose : ∀ c ∈ x :: zs, L.Loose c) :
    Represents h' (L.set head (xs ++ x :: zs ++ ys)) := by
  obtain ⟨hnd, hchain⟩ := circular_iff_chain.mp (hrep.circular head _ hL)
  have hparts : head :: (xs ++ ys ++ [head]) = (head :: xs) ++ (ys ++ [head]) := by simp
  rw [hparts] at hchain
  have hout : ∀ c ∈ x :: zs, c ∉ head :: (xs ++ ys) := fun c hc => (hloose c hc).not_mem hL
  have hperm : (head :: (xs ++ x :: zs ++ ys)).Perm (x :: zs ++ head :: (xs ++ ys)) := by
    calc
      (head :: (xs ++ x :: zs ++ ys)).Perm (head :: (x :: zs ++ xs ++ ys)) :=
        (List.perm_append_comm.append_right ys).cons head
      _ = head :: (x :: zs ++ (xs ++ ys)) := by rw [List.append_assoc]
      List.Perm _ (x :: zs ++ head :: (xs ++ ys)) := List.perm_middle.symm
  have hnd' : (head :: (xs ++ x :: zs ++ ys)).Nodup := by
    rw [hperm.nodup_iff, List.nodup_append]
    exact ⟨hnodup, hnd, fun a ha b hb heq => hout a ha (heq ▸ hb)⟩
  have hmem : ∀ c, c ∈ x :: zs ∨ c ∈ head :: (xs ++ ys) → c ∈ head :: (xs ++ x :: zs ++ ys) :=
    fun c hc => hperm.mem_iff.mpr (List.mem_append.mpr hc)
  have hlast : lastOr head xs ∈ head :: (xs ++ ys) :=
    List.mem_append_left ys (lastOr_mem head xs)
  have hfirst : firstOr ys head ∈ head :: (xs ++ ys) := by
    rcases List.mem_cons.mp (firstOr_mem_cons ys head) with heq | hin
    · rw [heq]
      exact List.mem_cons_self
    · exact List.mem_cons_of_mem head (List.mem_append_right xs hin)
  apply hrep.set (head :: (xs ++ x :: zs ++ ys)) (hr.next_off _) (hr.prev_off _)
    (hr.circular_between hchain.left hzs hchain.right hnd') (fun x hx => hx)
  · intro c hc
    rcases List.mem_append.mp (hperm.mem_iff.mp hc) with hin | hin
    · exact .inl (hloose c hin)
    · exact .inr ⟨_, hL, hin⟩
  · rw [List.forall_mem_cons, List.forall_mem_singleton]
    exact ⟨hmem _ (.inr hlast), hmem _ (.inl (lastOr_mem x zs))⟩
  · rw [List.forall_mem_cons, List.forall_mem_singleton]
    exact ⟨hmem _ (.inl List.mem_cons_self), hmem _ (.inr hfirst)⟩

/-- Two lists are made of the cells of the one and of loose ones. -/
theorem Represents.set_set {head list : Addr} {xs ys : List Addr} (cells : List Addr)
    (hrep : Represents h L) (hnext : ∀ x, x ∉ cells → h'.next? x = h.next? x)
    (hprev : ∀ x, x ∉ cells → h'.prev? x = h.prev? x) (hne : list ≠ head)
    (hlist : Circular h' list xs) (hhead : Circular h' head ys)
    (hapart : List.Disjoint (list :: xs) (head :: ys)) (hsub : ∀ x ∈ list :: xs, x ∈ cells)
    (hsub' : ∀ x ∈ head :: ys, x ∈ cells)
    (hcells : ∀ c ∈ cells, L.Loose c ∨ ∃ zs, L head = some zs ∧ c ∈ head :: zs) :
    Represents h' ((L.set list xs).set head ys) := by
  have hget : (L.set list xs).set head ys list = some xs := by
    rw [Lists.set_of_ne hne, Lists.set_self]
  have hold : ∀ a zs, a ≠ list → a ≠ head → (L.set list xs).set head ys a = some zs →
      L a = some zs ∧ ∀ x ∈ a :: zs, x ∉ cells := by
    intro a zs hal hah ha
    rw [Lists.set_of_ne hah, Lists.set_of_ne hal] at ha
    refine ⟨ha, ?_⟩
    intro x hx hx'
    rcases hcells x hx' with hloose | ⟨ws, hws, hmem⟩
    · exact hloose.not_mem ha hx
    · exact hrep.apart a head zs ws ha hws hah hx hmem
  have hwhich : ∀ a zs, (L.set list xs).set head ys a = some zs → a ∈ cells →
      (a = list ∧ zs = xs) ∨ (a = head ∧ zs = ys) := by
    intro a zs ha hin
    by_cases hah : a = head
    · rw [hah, Lists.set_self] at ha
      exact .inr ⟨hah, (Option.some.inj ha).symm⟩
    · by_cases hal : a = list
      · rw [hal, hget] at ha
        exact .inl ⟨hal, (Option.some.inj ha).symm⟩
      · exact absurd hin ((hold a zs hal hah ha).2 a List.mem_cons_self)
  apply hrep.change hnext hprev
  · intro a zs ha
    by_cases hah : a = head
    · subst hah
      obtain rfl : ys = zs := Option.some.inj (Lists.set_self.symm.trans ha)
      exact .inr ⟨hhead, hsub'⟩
    · by_cases hal : a = list
      · subst hal
        obtain rfl : xs = zs := Option.some.inj (hget.symm.trans ha)
        exact .inr ⟨hlist, hsub⟩
      · exact .inl (hold a zs hal hah ha)
  · intro a b zs ws ha hb hina hinb hab
    rcases hwhich a zs ha hina with ⟨rfl, rfl⟩ | ⟨rfl, rfl⟩
    · rcases hwhich b ws hb hinb with ⟨rfl, rfl⟩ | ⟨rfl, rfl⟩
      · exact absurd rfl hab
      · exact hapart
    · rcases hwhich b ws hb hinb with ⟨rfl, rfl⟩ | ⟨rfl, rfl⟩
      · exact fun c hc hc' => hapart hc' hc
      · exact absurd rfl hab

/-- What has been deleted is loose. -/
theorem Represents.loose_of_removed {head entry : Addr} {xs ys : List Addr}
    (hrep : Represents h L) (hL : L head = some (xs ++ entry :: ys)) :
    (L.set head (xs ++ ys)).Loose entry := by
  have hnd := (hrep.circular head _ hL).nodup
  have hmem : entry ∈ head :: (xs ++ entry :: ys) := by simp
  have hne : entry ≠ head := by grind
  constructor
  · rw [Lists.set_of_ne hne, ← Lists.drop_of_ne (L := L) hne]
    exact (hrep.loose_of_drop hL hmem).1
  · intro a zs ha
    by_cases hah : a = head
    · subst hah
      obtain rfl : xs ++ ys = zs := Option.some.inj (Lists.set_self.symm.trans ha)
      grind
    · rw [Lists.set_of_ne hah, ← Lists.drop_of_ne (L := L) hah] at ha
      exact (hrep.loose_of_drop hL hmem).2 a zs ha

end Lib.Links
