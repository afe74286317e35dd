import SocketPractice.Lib.Runs

/-!
# Accounts of a run

A run gains and loses things step by step.  If each step keeps the balance of what there is,
what came in, what was gained and what was lost, so does the run; and if nothing is gained
on the way there is never more than came in.

What a run does is bounded by what there is to do at its start, if each step leaves that much
less to do as it does.
-/

namespace Lib.Accounts

open Lib.Runs

universe u v

variable {σ : Type u} {ε : Type v} {step : σ → ε → Option σ}

/-- What the steps of a run amount to, where `f s e` is what the step `e` from `s` does. -/
def total (step : σ → ε → Option σ) (f : σ → ε → Nat) : σ → List ε → Nat
  | _, [] => 0
  | s, e :: es => f s e + (step s e).elim 0 fun t => total step f t es

theorem total_cons {s t : σ} {e : ε} (f : σ → ε → Nat) (es : List ε)
    (h : step s e = some t) : total step f s (e :: es) = f s e + total step f t es := by
  rw [total, h]
  rfl

/-- `held` is what there is, `entered` what has come in. -/
theorem balance {J : σ → Prop} {held entered : σ → Nat} {lost gained : σ → ε → Nat}
    (hJ : ∀ s e t, J s → step s e = some t → J t)
    (hstep : ∀ s e t, J s → step s e = some t →
      held t + lost s e + entered s = held s + gained s e + entered t)
    {s u : σ} {es : List ε} (hs : J s) (hrun : exec step s es = some u) :
    held u + total step lost s es + entered s = held s + total step gained s es + entered u := by
  induction es generalizing s with
  | nil =>
      simp only [exec_nil, Option.some.injEq] at hrun
      rw [hrun]
      rfl
  | cons e es ih =>
      obtain ⟨t, ht, hrest⟩ := exec_cons_eq_some.mp hrun
      have hhead := hstep s e t hs ht
      have htail := ih (hJ s e t hs ht) hrest
      rw [total_cons lost es ht, total_cons gained es ht]
      omega

theorem total_eq_zero {f : σ → ε → Nat} {s : σ} {es : List ε}
    (h : Along step (fun s e => f s e = 0) s es) : total step f s es = 0 := by
  induction es generalizing s with
  | nil => rfl
  | cons e es ih =>
      rw [total, h.1, Nat.zero_add]
      cases hstep : step s e with
      | none => rfl
      | some t => exact ih (h.2 t hstep)

section Bound

variable {F : ε → Prop} {K : Nat → σ → Prop} {m : Nat} {s t : σ} {es : List ε}

/-- Each step leaves less to do by what it does. -/
theorem total_le {f : σ → ε → Nat}
    (hstep : ∀ m s e t, F e → K m s → step s e = some t → ∃ m', K m' t ∧ f s e + m' ≤ m)
    (hs : K m s) (hF : ∀ e ∈ es, F e) (hrun : exec step s es = some t) :
    ∃ m', K m' t ∧ total step f s es + m' ≤ m := by
  induction es generalizing s m with
  | nil =>
      simp only [exec_nil, Option.some.injEq] at hrun
      exact ⟨m, hrun ▸ hs, by simp [total]⟩
  | cons e es ih =>
      obtain ⟨u, hu, hrest⟩ := exec_cons_eq_some.mp hrun
      obtain ⟨m₁, hm₁, hle₁⟩ := hstep m s e u (hF e List.mem_cons_self) hs hu
      obtain ⟨m₂, hm₂, hle₂⟩ := ih hm₁ (fun e' he' => hF e' (List.mem_cons_of_mem e he')) hrest
      refine ⟨m₂, hm₂, ?_⟩
      rw [total_cons f es hu]
      omega

theorem total_one (hrun : exec step s es = some t) :
    total step (fun _ _ => 1) s es = es.length := by
  induction es generalizing s with
  | nil => rfl
  | cons e es ih =>
      obtain ⟨u, hu, hrest⟩ := exec_cons_eq_some.mp hrun
      rw [total_cons _ es hu, ih hrest, List.length_cons, Nat.add_comm]

/-- Each step leaves less to do than there was: a run of them is no longer than what there was
    to do at its start. -/
theorem exec_length_le
    (hstep : ∀ m s e t, F e → K m s → step s e = some t → ∃ m' < m, K m' t)
    (hs : K m s) (hF : ∀ e ∈ es, F e) (hrun : exec step s es = some t) :
    ∃ m', K m' t ∧ es.length + m' ≤ m := by
  rw [← total_one hrun]
  apply total_le _ hs hF hrun
  intro m s e t he hm hstep'
  obtain ⟨m', hlt, hm'⟩ := hstep m s e t he hm hstep'
  exact ⟨m', hm', by omega⟩

end Bound

end Lib.Accounts
