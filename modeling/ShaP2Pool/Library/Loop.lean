import Mathlib.Logic.Relation

/-!
# Loops

A loop is a step function that either moves to a next state or leaves with a result. `runLoop` runs
it for a bounded number of steps, and `Reaches` says which states the loop passes through. The
induction over a run is done once here: an invariant kept by every step is known at the exit, and a
measure that every step lowers bounds the steps that are needed.
-/

variable {σ ρ : Type}

/-- Run the loop for at most `fuel` steps; `none` when it has not left by then. -/
def runLoop (step : σ → σ ⊕ ρ) : Nat → σ → Option ρ
  | 0, _ => none
  | fuel + 1, s =>
    match step s with
    | .inl t => runLoop step fuel t
    | .inr r => some r

/-- The loop started in the first state passes through the second. -/
def Reaches (step : σ → σ ⊕ ρ) : σ → σ → Prop :=
  Relation.ReflTransGen (fun s t => step s = .inl t)

namespace Reaches

variable {step : σ → σ ⊕ ρ} {s t u : σ}

theorem refl : Reaches step s s := Relation.ReflTransGen.refl

theorem head (h : step s = .inl t) (hrest : Reaches step t u) : Reaches step s u :=
  Relation.ReflTransGen.head h hrest

theorem tail (hfirst : Reaches step s t) (h : step t = .inl u) : Reaches step s u :=
  Relation.ReflTransGen.tail hfirst h

/-- An invariant kept by every step the loop takes holds wherever the loop passes. -/
theorem inv {I : σ → Prop} (hreach : Reaches step s t) (hinit : I s)
    (hstep : ∀ u v, Reaches step s u → I u → step u = .inl v → I v) : I t := by
  induction hreach with
  | refl => exact hinit
  | tail hfirst hlast ih => exact hstep _ _ hfirst ih hlast

theorem of_exit {r : ρ} (hreach : Reaches step s t) (hlast : Reaches step s u)
    (hexit : step u = .inr r) : Reaches step t u := by
  have hunique : Relator.RightUnique (fun s t => step s = .inl t) := by
    intro s t t' h h'
    rw [h] at h'
    exact Sum.inl.inj h'
  rcases Relation.ReflTransGen.total_of_right_unique hunique hreach hlast with h | h
  · exact h
  · rcases Relation.ReflTransGen.cases_head h with rfl | ⟨v, hv, -⟩
    · exact refl
    · rw [hexit] at hv
      cases hv

end Reaches

/-- A loop that leaves does so from a state it passed through. -/
theorem exists_exit_of_runLoop {step : σ → σ ⊕ ρ} {fuel : Nat} {s : σ} {r : ρ}
    (h : runLoop step fuel s = some r) : ∃ t, Reaches step s t ∧ step t = .inr r := by
  induction fuel generalizing s with
  | zero => simp [runLoop] at h
  | succ fuel ih =>
    rw [runLoop] at h
    cases hs : step s with
    | inl t =>
      rw [hs] at h
      obtain ⟨u, hreach, hexit⟩ := ih h
      exact ⟨u, hreach.head hs, hexit⟩
    | inr q =>
      rw [hs] at h
      exact ⟨s, Reaches.refl, by rw [hs, Option.some.inj h]⟩

theorem runLoop_rule {step : σ → σ ⊕ ρ} {fuel : Nat} {s : σ} {r : ρ} {I : σ → Prop}
    (h : runLoop step fuel s = some r) (hinit : I s)
    (hstep : ∀ u v, Reaches step s u → I u → step u = .inl v → I v) :
    ∃ t, Reaches step s t ∧ I t ∧ step t = .inr r := by
  obtain ⟨t, hreach, hexit⟩ := exists_exit_of_runLoop h
  exact ⟨t, hreach, hreach.inv hinit hstep, hexit⟩

theorem runLoop_isSome {step : σ → σ ⊕ ρ} {I : σ → Prop} (μ : σ → Nat) {fuel : Nat} {s : σ}
    (hfuel : μ s < fuel) (hinit : I s)
    (hstep : ∀ u v, I u → step u = .inl v → I v ∧ μ v < μ u) : (runLoop step fuel s).isSome := by
  induction fuel generalizing s with
  | zero => omega
  | succ fuel ih =>
    rw [runLoop]
    cases hs : step s with
    | inl t =>
      obtain ⟨hinv, hlt⟩ := hstep s t hinit hs
      exact ih (by omega) hinv
    | inr q => rfl

/-- The loop started in `s` leaves with `r` after finitely many rounds. -/
def Leaves (step : σ → σ ⊕ ρ) (s : σ) (r : ρ) : Prop := ∃ fuel, runLoop step fuel s = some r

theorem Leaves.of_inr {step : σ → σ ⊕ ρ} {s : σ} {r : ρ} (h : step s = .inr r) : Leaves step s r :=
  ⟨1, by rw [runLoop, h]⟩

theorem Leaves.of_inl {step : σ → σ ⊕ ρ} {s t : σ} {r : ρ} (h : step s = .inl t)
    (hrest : Leaves step t r) : Leaves step s r := by
  obtain ⟨fuel, hfuel⟩ := hrest
  exact ⟨fuel + 1, by rw [runLoop, h]; exact hfuel⟩

theorem runLoop_eq_of_exit {step : σ → σ ⊕ ρ} {fuel : Nat} {s t : σ} {r q : ρ}
    (h : runLoop step fuel s = some r) (hreach : Reaches step s t) (hexit : step t = .inr q) :
    r = q := by
  induction hreach using Relation.ReflTransGen.head_induction_on generalizing fuel with
  | refl =>
    cases fuel with
    | zero => simp [runLoop] at h
    | succ fuel =>
      rw [runLoop, hexit] at h
      exact (Option.some.inj h).symm
  | head hfirst _ ih =>
    cases fuel with
    | zero => simp [runLoop] at h
    | succ fuel =>
      rw [runLoop, hfirst] at h
      exact ih h

/-- Run the loop and test every state it passes through; `false` when it has not left by then. -/
def loopAll (step : σ → σ ⊕ ρ) (p : σ → Bool) : Nat → σ → Bool
  | 0, _ => false
  | fuel + 1, s =>
    p s && match step s with
      | .inl t => loopAll step p fuel t
      | .inr _ => true

theorem of_loopAll {step : σ → σ ⊕ ρ} {p : σ → Bool} {fuel : Nat} {s t : σ}
    (h : loopAll step p fuel s = true) (hreach : Reaches step s t) : p t = true := by
  induction hreach using Relation.ReflTransGen.head_induction_on generalizing fuel with
  | refl =>
    cases fuel with
    | zero => simp [loopAll] at h
    | succ fuel =>
      rw [loopAll, Bool.and_eq_true] at h
      exact h.1
  | head hfirst _ ih =>
    cases fuel with
    | zero => simp [loopAll] at h
    | succ fuel =>
      rw [loopAll, Bool.and_eq_true, hfirst] at h
      exact ih h.2
