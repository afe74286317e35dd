/-!
# Loops

A program with loops runs on fuel.  It returns a result, or stops: by a fault (an access
that the language does not define), or because a loop has gone round more often than
there was fuel.  A loop returns what is asked for if there is an invariant that every
round keeps and a measure that every round lowers.

`Reaches` is the relation between the state in which a loop starts and the states in
which it tests its condition; what is claimed of every iteration is claimed of those.
-/

namespace Lib.While

/-- Why there is no result. -/
inductive Stop where
  | fault
  | fuel
deriving DecidableEq, Repr

abbrev Outcome (α : Type) := Except Stop α

variable {α β σ : Type}

/-- What is undefined is a fault. -/
def ofOption : Option α → Outcome α
  | none => .error .fault
  | some a => .ok a

/-! ## 1. Results -/

/-- There is a result, and it satisfies `P`. -/
def Returns (o : Outcome α) (P : α → Prop) : Prop := ∃ a, o = .ok a ∧ P a

section Returns

variable {o : Outcome α} {P Q : α → Prop} {R : β → Prop} {f : α → Outcome β}

theorem returns_ok {a : α} (h : P a) : Returns (.ok a) P := ⟨a, rfl, h⟩

@[simp] theorem returns_ok_iff {a : α} : Returns (.ok a) P ↔ P a :=
  ⟨fun ⟨_, heq, h⟩ => Except.ok.inj heq ▸ h, returns_ok⟩

@[simp] theorem returns_pure_iff {a : α} : Returns (pure a) P ↔ P a := returns_ok_iff

/-- The result that there is satisfies it. -/
theorem Returns.holds {a : α} (h : Returns o P) (heq : o = .ok a) : P a := by
  rw [heq] at h
  exact returns_ok_iff.mp h

theorem Returns.mono (h : Returns o P) (hPQ : ∀ a, P a → Q a) : Returns o Q := by
  obtain ⟨a, heq, ha⟩ := h
  exact ⟨a, heq, hPQ a ha⟩

theorem Returns.bind (h : Returns o P) (hf : ∀ a, P a → Returns (f a) R) :
    Returns (o >>= f) R := by
  obtain ⟨a, rfl, ha⟩ := h
  exact hf a ha

end Returns

/-! ## 2. Loops on fuel -/

/-- `while (cond) body`. -/
def whileLoop (cond : σ → Outcome Bool) (body : σ → Outcome σ) : Nat → σ → Outcome σ
  | 0, _ => .error .fuel
  | fuel + 1, s => do
      if ← cond s then
        whileLoop cond body fuel (← body s)
      else
        return s

/-- `do body while (cond)`. -/
def doWhile (cond : σ → Outcome Bool) (body : σ → Outcome σ) (fuel : Nat) (s : σ) : Outcome σ := do
  whileLoop cond body fuel (← body s)

section WhileLoop

variable {cond : σ → Outcome Bool} {body : σ → Outcome σ} {fuel : Nat} {s t u : σ}

theorem whileLoop_of_false (h : cond s = .ok false) :
    whileLoop cond body (fuel + 1) s = .ok s := by
  simp only [whileLoop, h]
  rfl

theorem whileLoop_of_true (h : cond s = .ok true) (hbody : body s = .ok t) :
    whileLoop cond body (fuel + 1) s = whileLoop cond body fuel t := by
  simp only [whileLoop, h, hbody]
  rfl

/-- The rule for total correctness: `I` is the invariant, and `μ` bounds the number of
    rounds. -/
theorem whileLoop_returns {Q : σ → Prop} (I : σ → Prop) (μ : σ → Nat) (hI : I s)
    (hfuel : μ s < fuel)
    (hround : ∀ t, I t → cond t = .ok false ∧ Q t ∨
      cond t = .ok true ∧ Returns (body t) fun u => I u ∧ μ u < μ t) :
    Returns (whileLoop cond body fuel s) Q := by
  induction fuel generalizing s with
  | zero => exact absurd hfuel (Nat.not_lt_zero _)
  | succ fuel ih =>
      rcases hround s hI with ⟨hcond, hQ⟩ | ⟨hcond, t, hbody, hIt, hless⟩
      · rw [whileLoop_of_false hcond]
        exact returns_ok hQ
      · rw [whileLoop_of_true hcond hbody]
        exact ih hIt (by omega)

/-- The same for a loop that tests its condition last: the first round establishes the
    invariant. -/
theorem doWhile_returns {Q : σ → Prop} (I : σ → Prop) (μ : σ → Nat)
    (hfirst : Returns (body s) fun t => I t ∧ μ t < fuel)
    (hround : ∀ t, I t → cond t = .ok false ∧ Q t ∨
      cond t = .ok true ∧ Returns (body t) fun u => I u ∧ μ u < μ t) :
    Returns (doWhile cond body fuel s) Q :=
  hfirst.bind fun _ ht => whileLoop_returns I μ ht.1 ht.2 hround

/-- From `s` the loop arrives at `t`, where it tests its condition (again). -/
inductive Reaches (cond : σ → Outcome Bool) (body : σ → Outcome σ) (s : σ) : σ → Prop
  | start : Reaches cond body s s
  | round {t u : σ} (h : Reaches cond body s t) (hcond : cond t = .ok true)
      (hbody : body t = .ok u) : Reaches cond body s u

theorem Reaches.invariant {I : σ → Prop} (h : Reaches cond body s t) (hs : I s)
    (hround : ∀ t u, I t → cond t = .ok true → body t = .ok u → I u) : I t := by
  induction h with
  | start => exact hs
  | round _ hcond hbody ih => exact hround _ _ ih hcond hbody

/-- The same with rounds that return. -/
theorem Reaches.holds {I : σ → Prop} (h : Reaches cond body s t) (hs : I s)
    (hround : ∀ t, I t → cond t = .ok true → Returns (body t) I) : I t :=
  h.invariant hs fun t _ ht hcond hbody => (hround t ht hcond).holds hbody

theorem Reaches.head (hcond : cond s = .ok true) (hbody : body s = .ok u)
    (h : Reaches cond body u t) : Reaches cond body s t := by
  induction h with
  | start => exact .round .start hcond hbody
  | round _ hcond' hbody' ih => exact .round ih hcond' hbody'

/-- A loop arrives at what it returns, and there its condition fails. -/
theorem reaches_of_whileLoop (h : whileLoop cond body fuel s = .ok t) :
    Reaches cond body s t ∧ cond t = .ok false := by
  induction fuel generalizing s with
  | zero => cases h
  | succ fuel ih =>
      rcases hcond : cond s with stop | _ | _
      · simp only [whileLoop, hcond] at h
        cases h
      · rw [whileLoop_of_false hcond] at h
        obtain rfl := Except.ok.inj h
        exact ⟨.start, hcond⟩
      · rcases hbody : body s with stop | u
        · simp only [whileLoop, hcond, hbody] at h
          cases h
        · rw [whileLoop_of_true hcond hbody] at h
          obtain ⟨hreach, hend⟩ := ih h
          exact ⟨hreach.head hcond hbody, hend⟩

/-- What a loop returns it returns from every state that it passes through. -/
theorem Reaches.whileLoop_eq {r : σ} (h : Reaches cond body s t)
    (hloop : whileLoop cond body fuel s = .ok r) : ∃ left, whileLoop cond body left t = .ok r := by
  induction h with
  | start => exact ⟨fuel, hloop⟩
  | round _ hcond hbody ih =>
      obtain ⟨left, hleft⟩ := ih
      rcases left with _ | left
      · cases hleft
      · rw [whileLoop_of_true hcond hbody] at hleft
        exact ⟨left, hleft⟩

end WhileLoop

/-! ## 3. Counting loops -/

/-- `n` rounds with the counter at `i`, `i + 1` and so on. -/
def forUp (body : Int → σ → Outcome σ) (i : Int) : Nat → σ → Outcome σ
  | 0, s => .ok s
  | n + 1, s => do forUp body (i + 1) n (← body i s)

/-- `for (i = lo; i < hi; i++) body`, where the body assigns neither. -/
def forRange (lo hi : Int) (body : Int → σ → Outcome σ) (s : σ) : Outcome σ :=
  forUp body lo (hi - lo).toNat s

section ForRange

variable {lo hi : Int} {body : Int → σ → Outcome σ} {s : σ}

theorem forUp_returns (I : Int → σ → Prop) {n : Nat} {i : Int} (hI : I i s)
    (hround : ∀ j t, i ≤ j → j < i + n → I j t → Returns (body j t) (I (j + 1))) :
    Returns (forUp body i n s) (I (i + n)) := by
  induction n generalizing i s with
  | zero =>
      rw [Int.natCast_zero, Int.add_zero]
      exact returns_ok hI
  | succ n ih =>
      obtain ⟨t, ht, hIt⟩ := hround i s (Int.le_refl i) (by omega) hI
      have hrest := ih hIt fun j u hj hlt => hround j u (by omega) (by omega)
      rw [Int.natCast_succ, Int.add_comm (n : Int) 1, ← Int.add_assoc]
      simp only [forUp, ht]
      exact hrest

/-- `I i` is the invariant where the counter is `i`. -/
theorem forRange_returns (I : Int → σ → Prop) (hle : lo ≤ hi) (hI : I lo s)
    (hround : ∀ i t, lo ≤ i → i < hi → I i t → Returns (body i t) (I (i + 1))) :
    Returns (forRange lo hi body s) (I hi) := by
  have hloop := forUp_returns (n := (hi - lo).toNat) I hI
    fun j t hj hlt => hround j t hj (by omega)
  rwa [Int.toNat_of_nonneg (by omega), Int.add_comm lo, Int.sub_add_cancel] at hloop

theorem forRange_of_le (h : hi ≤ lo) : forRange lo hi body s = .ok s := by
  rw [forRange, Int.toNat_of_nonpos (by omega)]
  rfl

end ForRange

/-! ## 4. Scans -/

section Scans

variable {cond : Int → Outcome Bool} {P : Int → Prop} [DecidablePred P] {start stop : Int}
  {fuel : Nat}

/-- Counting up while `P` holds ends at the first place at which it does not. -/
theorem countUp_returns (hle : start ≤ stop)
    (hcond : ∀ i, start ≤ i → i ≤ stop → cond i = .ok (decide (P i))) (hstop : ¬ P stop)
    (hfuel : (stop - start).toNat < fuel) :
    Returns (whileLoop cond (fun i => .ok (i + 1)) fuel start) fun i =>
      start ≤ i ∧ i ≤ stop ∧ ¬ P i ∧ ∀ p, start ≤ p → p < i → P p := by
  apply whileLoop_returns (fun i => start ≤ i ∧ i ≤ stop ∧ ∀ p, start ≤ p → p < i → P p)
    (fun i => (stop - i).toNat) ⟨Int.le_refl start, hle, fun p hp hlt => by omega⟩ hfuel
  rintro i ⟨hi, his, hbefore⟩
  rw [hcond i hi his]
  by_cases hP : P i
  · have hne : i ≠ stop := by
      intro heq
      exact hstop (heq ▸ hP)
    refine .inr ⟨by rw [decide_eq_true hP], returns_ok ⟨⟨by omega, by omega, ?_⟩, by omega⟩⟩
    intro p hp hpi
    by_cases hpe : p = i
    · rwa [hpe]
    · exact hbefore p hp (by omega)
  · exact .inl ⟨by rw [decide_eq_false hP], hi, his, hP, hbefore⟩

/-- The same downwards. -/
theorem countDown_returns (hle : stop ≤ start)
    (hcond : ∀ i, stop ≤ i → i ≤ start → cond i = .ok (decide (P i))) (hstop : ¬ P stop)
    (hfuel : (start - stop).toNat < fuel) :
    Returns (whileLoop cond (fun i => .ok (i - 1)) fuel start) fun i =>
      stop ≤ i ∧ i ≤ start ∧ ¬ P i ∧ ∀ p, i < p → p ≤ start → P p := by
  apply whileLoop_returns (fun i => stop ≤ i ∧ i ≤ start ∧ ∀ p, i < p → p ≤ start → P p)
    (fun i => (i - stop).toNat) ⟨hle, Int.le_refl start, fun p hp hlt => by omega⟩ hfuel
  rintro i ⟨his, hi, hafter⟩
  rw [hcond i his hi]
  by_cases hP : P i
  · have hne : i ≠ stop := by
      intro heq
      exact hstop (heq ▸ hP)
    refine .inr ⟨by rw [decide_eq_true hP], returns_ok ⟨⟨by omega, by omega, ?_⟩, by omega⟩⟩
    intro p hpi hp
    by_cases hpe : p = i
    · rwa [hpe]
    · exact hafter p (by omega) hp
  · exact .inl ⟨by rw [decide_eq_false hP], his, hi, hP, hafter⟩

end Scans

end Lib.While
