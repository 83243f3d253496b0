import Mathlib.Data.List.Infix
import Mathlib.Data.List.Induction

/-!
# Traces

A machine takes operations one after the other from a fixed first state. A property holds all along
a trace exactly when every operation of the trace keeps it, so a condition that tells for one
operation whether it keeps the property tells the same for whole traces.
-/

namespace Trace

variable {σ ω : Type*} (step : σ → ω → σ) (s₀ : σ)

/-- The state after some operations. -/
def after (ops : List ω) : σ := ops.foldl step s₀

/-- The trace takes `op` after `pre`. -/
def Takes (ops pre : List ω) (op : ω) : Prop := pre ++ [op] <+: ops

/-- A property of every state that a trace passes through. -/
def Along (ops : List ω) (I : σ → Prop) : Prop := ∀ pre, pre <+: ops → I (after step s₀ pre)

variable {step s₀} {ops pre : List ω} {op : ω} {I : σ → Prop}

@[simp] theorem after_nil : after step s₀ [] = s₀ := rfl

@[simp] theorem after_snoc : after step s₀ (pre ++ [op]) = step (after step s₀ pre) op := by
  rw [after, List.foldl_append]
  rfl

theorem after_append (more : List ω) :
    after step s₀ (pre ++ more) = after step (after step s₀ pre) more :=
  List.foldl_append

theorem Takes.mono {more : List ω} (h : Takes pre more op) (hpre : pre <+: ops) :
    Takes ops more op :=
  h.trans hpre

theorem Takes.mem (h : Takes ops pre op) : op ∈ ops :=
  h.subset (List.mem_append_right pre (List.mem_singleton_self op))

/-- What the first state has and every operation of the trace keeps holds all along. -/
theorem along_of_step (hinit : I s₀)
    (hstep : ∀ pre op, Takes ops pre op → I (after step s₀ pre) → I (step (after step s₀ pre) op)) :
    Along step s₀ ops I := by
  intro pre hpre
  induction pre using List.reverseRecOn with
  | nil => exact hinit
  | append_singleton pre op ih =>
    rw [after_snoc]
    exact hstep pre op hpre (ih ((List.prefix_append pre [op]).trans hpre))

/-- A condition that tells when an operation keeps the property tells when it holds all along. -/
theorem along_iff {G : σ → ω → Prop} (hinit : I s₀)
    (hstep : ∀ pre op, Takes ops pre op → I (after step s₀ pre) →
      (I (step (after step s₀ pre) op) ↔ G (after step s₀ pre) op)) :
    Along step s₀ ops I ↔ ∀ pre op, Takes ops pre op → G (after step s₀ pre) op := by
  constructor
  · intro halong pre op htakes
    have hbefore := halong pre ((List.prefix_append pre [op]).trans htakes)
    have hafter := halong (pre ++ [op]) htakes
    rw [after_snoc] at hafter
    exact (hstep pre op htakes hbefore).mp hafter
  · intro hguard
    exact along_of_step hinit fun pre op htakes hI =>
      (hstep pre op htakes hI).mpr (hguard pre op htakes)

/-- Test every operation of a trace in the state in which it is taken. -/
def testAll (step : σ → ω → σ) (test : σ → ω → Bool) : σ → List ω → Bool
  | _, [] => true
  | s, op :: ops => test s op && testAll step test (step s op) ops

theorem of_testAll {test : σ → ω → Bool} (h : testAll step test s₀ ops = true)
    (htakes : Takes ops pre op) : test (after step s₀ pre) op = true := by
  obtain ⟨rest, rfl⟩ := htakes
  induction pre generalizing s₀ with
  | nil =>
    rw [List.nil_append, List.singleton_append, testAll, Bool.and_eq_true] at h
    exact h.1
  | cons first pre ih =>
    rw [List.cons_append, List.cons_append, testAll, Bool.and_eq_true] at h
    exact ih h.2

end Trace
