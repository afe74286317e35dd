/-!
# Runs of a labelled transition system

A system is a partial step function `step : σ → ε → Option σ`: the label carries
every choice (which thread moves, what a system call returns, which address an
allocation yields), and `none` means that the label is not enabled.  A run is
then a list of labels, and what holds in every reachable state, or in every run
whose steps all meet a condition, is proved once here from what one step
preserves.
-/

namespace Lib.Runs

universe u v

variable {σ : Type u} {ε : Type v}

/-! ## 1. Executing a list of labels -/

/-- The state after the labels `es`, or `none` when one of them is not enabled. -/
def exec (step : σ → ε → Option σ) : σ → List ε → Option σ
  | s, [] => some s
  | s, e :: es => (step s e).bind fun t => exec step t es

/-- `I` holds in every state of the run, the first and the last one included. -/
def Always (step : σ → ε → Option σ) (I : σ → Prop) : σ → List ε → Prop
  | s, [] => I s
  | s, e :: es => I s ∧ ∀ t, step s e = some t → Always step I t es

/-- Every step of the run is taken in a state that meets the condition `G` for
    its label. -/
def Along (step : σ → ε → Option σ) (G : σ → ε → Prop) : σ → List ε → Prop
  | _, [] => True
  | s, e :: es => G s e ∧ ∀ t, step s e = some t → Along step G t es

variable {step : σ → ε → Option σ} {I J : σ → Prop} {G : σ → ε → Prop}

/-- On a given run a condition that can be decided step by step can be decided. -/
instance decidableAlong [∀ s e, Decidable (G s e)] :
    (s : σ) → (es : List ε) → Decidable (Along step G s es)
  | _, [] => isTrue trivial
  | s, e :: es =>
      match hstep : step s e with
      | none => decidable_of_iff (G s e) ⟨fun hG => ⟨hG, by simp [hstep]⟩, And.left⟩
      | some t =>
          have := decidableAlong t es
          decidable_of_iff (G s e ∧ Along step G t es)
            (and_congr_right fun _ => by simp [hstep])

@[simp] theorem exec_nil (s : σ) : exec step s [] = some s := rfl

theorem exec_cons (s : σ) (e : ε) (es : List ε) :
    exec step s (e :: es) = (step s e).bind fun t => exec step t es := rfl

theorem exec_append (s : σ) (es fs : List ε) :
    exec step s (es ++ fs) = (exec step s es).bind fun t => exec step t fs := by
  induction es generalizing s with
  | nil => rfl
  | cons e es ih =>
      rw [List.cons_append, exec_cons, exec_cons]
      rcases hstep : step s e with _ | t
      · rfl
      · exact ih t

theorem exec_cons_eq_some {s u : σ} {e : ε} {es : List ε} :
    exec step s (e :: es) = some u ↔ ∃ t, step s e = some t ∧ exec step t es = some u := by
  rw [exec_cons, Option.bind_eq_some_iff]

theorem exec_append_eq_some {s u : σ} {es fs : List ε} :
    exec step s (es ++ fs) = some u ↔
      ∃ t, exec step s es = some t ∧ exec step t fs = some u := by
  rw [exec_append, Option.bind_eq_some_iff]

/-! ## 2. Invariants -/

/-- What the first state satisfies and every step preserves holds at the end of
    every run. -/
theorem exec_invariant (hstep : ∀ s e t, I s → step s e = some t → I t)
    {s t : σ} {es : List ε} (hs : I s) (hrun : exec step s es = some t) : I t := by
  induction es generalizing s with
  | nil =>
      simp only [exec_nil, Option.some.injEq] at hrun
      exact hrun ▸ hs
  | cons e es ih =>
      obtain ⟨u, hu, hrest⟩ := exec_cons_eq_some.mp hrun
      exact ih (hstep s e u hs hu) hrest

/-- The same for runs whose labels are all of one kind. -/
theorem exec_invariant_of_forall {F : ε → Prop}
    (hstep : ∀ s e t, F e → I s → step s e = some t → I t) {s t : σ} {es : List ε} (hs : I s)
    (hF : ∀ e ∈ es, F e) (hrun : exec step s es = some t) : I t := by
  induction es generalizing s with
  | nil =>
      simp only [exec_nil, Option.some.injEq] at hrun
      exact hrun ▸ hs
  | cons e es ih =>
      obtain ⟨u, hu, hrest⟩ := exec_cons_eq_some.mp hrun
      exact ih (hstep s e u (hF e List.mem_cons_self) hs hu)
        (fun e' he' => hF e' (List.mem_cons_of_mem e he')) hrest

/-- The same for what speaks about the labels of the run as well. -/
theorem exec_history {K : List ε → σ → Prop}
    (hstep : ∀ es s e t, K es s → step s e = some t → K (es ++ [e]) t)
    {s t : σ} {es : List ε} (hs : K [] s) (hrun : exec step s es = some t) : K es t := by
  have key : ∀ (es pre : List ε) (s : σ), K pre s → exec step s es = some t → K (pre ++ es) t := by
    intro es
    induction es with
    | nil =>
        intro pre s hs hrun
        simp only [exec_nil, Option.some.injEq] at hrun
        rw [List.append_nil]
        exact hrun ▸ hs
    | cons e es ih =>
        intro pre s hs hrun
        obtain ⟨u, hu, hrest⟩ := exec_cons_eq_some.mp hrun
        have htail := ih (pre ++ [e]) u (hstep pre s e u hs hu) hrest
        rwa [List.append_assoc] at htail
  exact key es [] s hs hrun

theorem always_of_invariant (hstep : ∀ s e t, I s → step s e = some t → I t)
    {s : σ} (hs : I s) (es : List ε) : Always step I s es := by
  induction es generalizing s with
  | nil => exact hs
  | cons e es ih => exact ⟨hs, fun t ht => ih (hstep s e t hs ht)⟩

/-- What holds of every step that is taken in a state with `I` holds along every run. -/
theorem along_of_invariant (hstep : ∀ s e t, I s → step s e = some t → I t)
    (hG : ∀ s e, I s → G s e) {s : σ} (hs : I s) (es : List ε) : Along step G s es := by
  induction es generalizing s with
  | nil => trivial
  | cons e es ih => exact ⟨hG s e hs, fun t ht => ih (hstep s e t hs ht)⟩

theorem Always.head {s : σ} {es : List ε} (h : Always step I s es) : I s := by
  rcases es with _ | ⟨e, es⟩
  · exact h
  · exact h.1

theorem Always.last {s t : σ} {es : List ε} (h : Always step I s es)
    (hrun : exec step s es = some t) : I t := by
  induction es generalizing s with
  | nil =>
      simp only [exec_nil, Option.some.injEq] at hrun
      exact hrun ▸ h
  | cons e es ih =>
      obtain ⟨u, hu, hrest⟩ := exec_cons_eq_some.mp hrun
      exact ih (h.2 u hu) hrest

theorem Always.mono (hIJ : ∀ s, I s → J s) {s : σ} {es : List ε}
    (h : Always step I s es) : Always step J s es := by
  induction es generalizing s with
  | nil => exact hIJ s h
  | cons e es ih => exact ⟨hIJ s h.1, fun t ht => ih (h.2 t ht)⟩

/-- `Along` speaks about the steps taken after the proper prefixes of the run. -/
theorem along_iff_prefixes {s : σ} {es : List ε} :
    Along step G s es ↔
      ∀ pre e t, pre ++ [e] <+: es → exec step s pre = some t → G t e := by
  induction es generalizing s with
  | nil =>
      constructor
      · intro _ pre e t hpre _
        exact absurd (List.prefix_nil.mp hpre) (by simp)
      · intro _
        trivial
  | cons f es ih =>
      constructor
      · intro h pre e t hpre hrun
        rcases pre with _ | ⟨g, pre⟩
        · obtain ⟨rfl, -⟩ := List.cons_prefix_cons.mp hpre
          simp only [exec_nil, Option.some.injEq] at hrun
          exact hrun ▸ h.1
        · obtain ⟨rfl, hpre'⟩ := List.cons_prefix_cons.mp hpre
          obtain ⟨u, hu, hrest⟩ := exec_cons_eq_some.mp hrun
          exact ih.mp (h.2 u hu) pre e t hpre' hrest
      · intro h
        refine ⟨h [] f s (List.cons_prefix_cons.mpr ⟨rfl, List.nil_prefix⟩) rfl,
          fun t ht => ih.mpr ?_⟩
        intro pre e u hpre hrun
        exact h (f :: pre) e u (List.cons_prefix_cons.mpr ⟨rfl, hpre⟩)
          (exec_cons_eq_some.mpr ⟨t, ht, hrun⟩)

/-! ## 3. Exact conditions

When the runs that meet `G` keep `J`, and so `I`, and a step that fails `G` loses `I`
at once, a run keeps `I` in all its states exactly if all its steps meet `G`. -/

theorem always_iff_along_of_lost
    (hstep : ∀ s e t, J s → G s e → step s e = some t → J t) (hJI : ∀ s, J s → I s)
    (hlost : ∀ s e t, J s → ¬ G s e → step s e = some t → ¬ I t)
    {s u : σ} {es : List ε} (hs : J s) (hrun : exec step s es = some u) :
    Always step I s es ↔ Along step G s es := by
  induction es generalizing s with
  | nil => exact ⟨fun _ => trivial, fun _ => hJI s hs⟩
  | cons e es ih =>
      obtain ⟨t, ht, hrest⟩ := exec_cons_eq_some.mp hrun
      have honly : ∀ t', step s e = some t' → t' = t := fun t' ht' =>
        Option.some.inj (ht'.symm.trans ht)
      constructor
      · intro h
        have htail := h.2 t ht
        have hG : G s e := by
          apply Classical.byContradiction
          intro hnot
          exact hlost s e t hs hnot ht htail.head
        refine ⟨hG, ?_⟩
        intro t' ht'
        rw [honly t' ht']
        exact (ih (hstep s e t hs hG ht) hrest).mp htail
      · intro h
        refine ⟨hJI s hs, ?_⟩
        intro t' ht'
        rw [honly t' ht']
        exact (ih (hstep s e t hs h.1 ht) hrest).mpr (h.2 t ht)

/-- The same when, from a state with `I`, a step keeps `I` exactly if it meets `G`.
    `J` is an invariant that holds whatever the steps do. -/
theorem always_iff_along
    (hJ : ∀ s e t, J s → step s e = some t → J t)
    (hstep : ∀ s e t, J s → I s → step s e = some t → (I t ↔ G s e))
    {s u : σ} {es : List ε} (hj : J s) (hi : I s) (hrun : exec step s es = some u) :
    Always step I s es ↔ Along step G s es := by
  apply always_iff_along_of_lost (J := fun s => J s ∧ I s) ?_ (fun _ h => h.2) ?_ ⟨hj, hi⟩ hrun
  · intro s e t h hG ht
    exact ⟨hJ s e t h.1 ht, (hstep s e t h.1 h.2 ht).mpr hG⟩
  · intro s e t h hG ht hit
    exact hG ((hstep s e t h.1 h.2 ht).mp hit)

/-- When, under the invariant `J`, a step leads to `I` exactly if it meets `G` in a state
    with `I`, a run ends in `I` exactly if it meets `G` throughout: what was lost never
    comes back. -/
theorem exec_iff_along_of_invariant (hJ : ∀ s e t, J s → step s e = some t → J t)
    (hstep : ∀ s e t, J s → step s e = some t → (I t ↔ I s ∧ G s e))
    {s u : σ} {es : List ε} (hj : J s) (hrun : exec step s es = some u) :
    I u ↔ I s ∧ Along step G s es := by
  induction es generalizing s with
  | nil =>
      simp only [exec_nil, Option.some.injEq] at hrun
      rw [hrun]
      constructor
      · intro h
        exact ⟨h, trivial⟩
      · intro h
        exact h.1
  | cons e es ih =>
      obtain ⟨t, ht, hrest⟩ := exec_cons_eq_some.mp hrun
      rw [ih (hJ s e t hj ht) hrest, hstep s e t hj ht, and_assoc]
      constructor
      · rintro ⟨hi, hG, halong⟩
        refine ⟨hi, hG, ?_⟩
        intro t' ht'
        obtain rfl : t' = t := Option.some.inj (ht'.symm.trans ht)
        exact halong
      · rintro ⟨hi, hG, halong⟩
        exact ⟨hi, hG, halong t ht⟩

theorem exec_iff_along (hstep : ∀ s e t, step s e = some t → (I t ↔ I s ∧ G s e))
    {s u : σ} {es : List ε} (hrun : exec step s es = some u) :
    I u ↔ I s ∧ Along step G s es :=
  exec_iff_along_of_invariant (J := fun _ => True) (fun _ _ _ _ _ => trivial)
    (fun s e t _ ht => hstep s e t ht) trivial hrun

/-- What holds of every step exactly if the step meets `G` holds of all steps of a run
    exactly if all meet `G`.  `J` is the invariant of the runs that meet `G`. -/
theorem along_iff_along {P : σ → ε → Prop}
    (hJ : ∀ s e t, J s → G s e → step s e = some t → J t)
    (hstep : ∀ s e t, J s → step s e = some t → (P s e ↔ G s e))
    {s u : σ} {es : List ε} (hj : J s) (hrun : exec step s es = some u) :
    Along step P s es ↔ Along step G s es := by
  induction es generalizing s with
  | nil => exact Iff.rfl
  | cons e es ih =>
      obtain ⟨t, ht, hrest⟩ := exec_cons_eq_some.mp hrun
      have honly : ∀ t', step s e = some t' → t' = t := fun t' ht' =>
        Option.some.inj (ht'.symm.trans ht)
      have hiff := hstep s e t hj ht
      constructor
      · intro h
        refine ⟨hiff.mp h.1, ?_⟩
        intro t' ht'
        rw [honly t' ht']
        exact (ih (hJ s e t hj (hiff.mp h.1) ht) hrest).mp (h.2 t ht)
      · intro h
        refine ⟨hiff.mpr h.1, ?_⟩
        intro t' ht'
        rw [honly t' ht']
        exact (ih (hJ s e t hj h.1 ht) hrest).mpr (h.2 t ht)

/-! ## 4. Exact conditions up to continuations

A step that fails its condition `G` may do its damage only later, when the steps
that were already under way, the labels in `F`, are carried out.  `J` is the
invariant of the runs that meet `G`. -/

theorem always_of_invariant_along
    (hstep : ∀ s e t, J s → G s e → step s e = some t → J t)
    {s : σ} {es : List ε} (hs : J s) (hG : Along step G s es) : Always step J s es := by
  induction es generalizing s with
  | nil => exact hs
  | cons e es ih => exact ⟨hs, fun t ht => ih (hstep s e t hs hG.1 ht) (hG.2 t ht)⟩

theorem Along.restrict {s : σ} {pre es : List ε} (h : Along step G s es)
    (hpre : pre <+: es) : Along step G s pre := by
  rw [along_iff_prefixes] at h ⊢
  exact fun p e t hp hrun => h p e t (hp.trans hpre) hrun

theorem along_of_free {F : ε → Prop} (hfree : ∀ s e, F e → G s e) {s : σ} {fs : List ε}
    (hfs : ∀ f ∈ fs, F f) : Along step G s fs := by
  induction fs generalizing s with
  | nil => trivial
  | cons f fs ih =>
      exact ⟨hfree s f (hfs f List.mem_cons_self), fun t _ =>
        ih fun g hg => hfs g (List.mem_cons_of_mem f hg)⟩

theorem Along.append_free {F : ε → Prop} (hfree : ∀ s e, F e → G s e) {s : σ}
    {es fs : List ε} (h : Along step G s es) (hfs : ∀ f ∈ fs, F f) :
    Along step G s (es ++ fs) := by
  induction es generalizing s with
  | nil => exact along_of_free hfree hfs
  | cons e es ih => exact ⟨h.1, fun t ht => ih (h.2 t ht)⟩

/-- If the runs that meet `G` keep `I` and every failing of `G` can be continued
    with labels in `F` to a state without `I`, then all such continuations of a
    run keep `I` exactly when the run meets `G`. -/
theorem always_continued_iff_along {F : ε → Prop}
    (hstep : ∀ s e t, J s → G s e → step s e = some t → J t)
    (hJI : ∀ s, J s → I s) (hfree : ∀ s e, F e → G s e)
    (hbreak : ∀ s e t, J s → ¬ G s e → step s e = some t →
      ∃ fs, (∀ f ∈ fs, F f) ∧ ¬ Always step I t fs)
    {s u : σ} {es : List ε} (hs : J s) (hrun : exec step s es = some u) :
    (∀ pre, pre <+: es → ∀ fs, (∀ f ∈ fs, F f) → Always step I s (pre ++ fs)) ↔
      Along step G s es := by
  constructor
  · intro h
    induction es generalizing s with
    | nil => trivial
    | cons e es ih =>
        obtain ⟨t, ht, hrest⟩ := exec_cons_eq_some.mp hrun
        have hG : G s e := by
          apply Classical.byContradiction
          intro hnot
          obtain ⟨fs, hfs, hbad⟩ := hbreak s e t hs hnot ht
          have hpre : [e] <+: e :: es := List.cons_prefix_cons.mpr ⟨rfl, List.nil_prefix⟩
          exact hbad ((h [e] hpre fs hfs).2 t ht)
        refine ⟨hG, ?_⟩
        intro t' ht'
        obtain rfl : t' = t := Option.some.inj (ht'.symm.trans ht)
        apply ih (hstep s e t' hs hG ht) hrest
        intro pre hpre fs hfs
        exact (h (e :: pre) (List.cons_prefix_cons.mpr ⟨rfl, hpre⟩) fs hfs).2 t' ht
  · intro h pre hpre fs hfs
    have hall := (h.restrict hpre).append_free hfree hfs
    exact (always_of_invariant_along hstep hs hall).mono hJI

/-- The same for all continuations whose steps meet `G` themselves, from every state
    that the run passes through. -/
theorem always_continued_along_iff_along
    (hstep : ∀ s e t, J s → G s e → step s e = some t → J t) (hJI : ∀ s, J s → I s)
    (hbreak : ∀ s e t, J s → ¬ G s e → step s e = some t →
      ∃ fs, Along step G t fs ∧ ¬ Always step I t fs)
    {s u : σ} {es : List ε} (hs : J s) (hrun : exec step s es = some u) :
    (∀ pre t, pre <+: es → exec step s pre = some t → ∀ fs, Along step G t fs →
      Always step I t fs) ↔ Along step G s es := by
  constructor
  · intro h
    induction es generalizing s with
    | nil => trivial
    | cons e es ih =>
        obtain ⟨t, ht, hrest⟩ := exec_cons_eq_some.mp hrun
        have hG : G s e := by
          apply Classical.byContradiction
          intro hnot
          obtain ⟨fs, hfs, hbad⟩ := hbreak s e t hs hnot ht
          have hpre : [e] <+: e :: es := List.cons_prefix_cons.mpr ⟨rfl, List.nil_prefix⟩
          exact hbad (h [e] t hpre (exec_cons_eq_some.mpr ⟨t, ht, rfl⟩) fs hfs)
        refine ⟨hG, ?_⟩
        intro t' ht'
        obtain rfl : t' = t := Option.some.inj (ht'.symm.trans ht)
        apply ih (hstep s e t' hs hG ht) hrest
        intro pre v hpre hv
        exact h (e :: pre) v (List.cons_prefix_cons.mpr ⟨rfl, hpre⟩)
          (exec_cons_eq_some.mpr ⟨t', ht', hv⟩)
  · intro h pre t hpre ht fs hfs
    have hj := (always_of_invariant_along hstep hs (h.restrict hpre)).last ht
    exact (always_of_invariant_along hstep hj hfs).mono hJI

/-! ## 5. Changes and pairs of runs -/

/-- A run that loses `I` has a step that loses it. -/
theorem exists_step_of_lost {s t : σ} {es : List ε} (hs : I s) (ht : ¬ I t)
    (hrun : exec step s es = some t) :
    ∃ pre e post u v, es = pre ++ e :: post ∧ exec step s pre = some u ∧ I u ∧
      step u e = some v ∧ ¬ I v ∧ exec step v post = some t := by
  induction es generalizing s with
  | nil =>
      simp only [exec_nil, Option.some.injEq] at hrun
      exact absurd (hrun ▸ hs) ht
  | cons e es ih =>
      obtain ⟨w, hw, hrest⟩ := exec_cons_eq_some.mp hrun
      by_cases hI : I w
      · obtain ⟨pre, f, post, u, v, rfl, hpre, hrest'⟩ := ih hI hrest
        exact ⟨e :: pre, f, post, u, v, rfl, exec_cons_eq_some.mpr ⟨w, hw, hpre⟩, hrest'⟩
      · exact ⟨[], e, es, s, w, rfl, rfl, hs, hw, hI, hrest⟩

theorem exec_simulation {R : σ → σ → Prop}
    (hstep : ∀ s s' e t, R s s' → step s e = some t → ∃ t', step s' e = some t' ∧ R t t')
    {s s' t : σ} {es : List ε} (hR : R s s') (hrun : exec step s es = some t) :
    ∃ t', exec step s' es = some t' ∧ R t t' := by
  induction es generalizing s s' with
  | nil =>
      simp only [exec_nil, Option.some.injEq] at hrun
      exact ⟨s', rfl, hrun ▸ hR⟩
  | cons e es ih =>
      obtain ⟨u, hu, hrest⟩ := exec_cons_eq_some.mp hrun
      obtain ⟨u', hu', hR'⟩ := hstep s s' e u hR hu
      obtain ⟨t', ht', hfin⟩ := ih hR' hrest
      exact ⟨t', exec_cons_eq_some.mpr ⟨u', hu', ht'⟩, hfin⟩

end Lib.Runs
