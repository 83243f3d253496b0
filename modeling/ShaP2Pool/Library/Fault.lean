import Mathlib.Logic.Basic

/-!
# Stateful computations that can fail

Inversion rules for `EStateM`, in which a failure keeps the state it happened in. Each rule takes a
composed computation apart once, so that later proofs follow the sequence of a program without
unfolding the monad.
-/

namespace EStateM

variable {ε σ α β : Type}

/-- The state a computation ends in, whether it succeeds or fails. -/
def Result.state : Result ε σ α → σ
  | .ok _ s => s
  | .error _ s => s

@[simp] theorem Result.state_ok (a : α) (s : σ) : (Result.ok a s : Result ε σ α).state = s := rfl

@[simp] theorem Result.state_error (e : ε) (s : σ) :
    (Result.error e s : Result ε σ α).state = s := rfl

/-- What a computation returns, without the state it ends in. -/
def Result.toExcept : Result ε σ α → Except ε α
  | .ok a _ => .ok a
  | .error e _ => .error e

/-- Fail with `e` when a value is absent. -/
def ofOption (e : ε) : Option α → EStateM ε σ α
  | some a => pure a
  | none => throw e

/-- A computation that neither reads nor changes the state. -/
def ofExcept : Except ε α → EStateM ε σ α
  | .ok a => pure a
  | .error e => throw e

@[simp] theorem pure_apply (a : α) (s : σ) : (pure a : EStateM ε σ α) s = .ok a s := rfl

@[simp] theorem throw_apply (e : ε) (s : σ) : (throw e : EStateM ε σ α) s = .error e s := rfl

@[simp] theorem get_apply (s : σ) : (get : EStateM ε σ σ) s = .ok s s := rfl

@[simp] theorem set_apply (s t : σ) : (set t : EStateM ε σ PUnit) s = .ok ⟨⟩ t := rfl

@[simp] theorem modify_apply (f : σ → σ) (s : σ) :
    (modify f : EStateM ε σ PUnit) s = .ok ⟨⟩ (f s) := rfl

@[simp] theorem ofOption_some (e : ε) (a : α) (s : σ) :
    (ofOption e (some a) : EStateM ε σ α) s = .ok a s := rfl

@[simp] theorem ofOption_none (e : ε) (s : σ) :
    (ofOption e none : EStateM ε σ α) s = .error e s := rfl

@[simp] theorem ofExcept_ok (a : α) (s : σ) :
    (ofExcept (.ok a) : EStateM ε σ α) s = .ok a s := rfl

@[simp] theorem ofExcept_error (e : ε) (s : σ) :
    (ofExcept (.error e) : EStateM ε σ α) s = .error e s := rfl

@[simp] theorem ofExcept_state (x : Except ε α) (s : σ) :
    (ofExcept x s : Result ε σ α).state = s := by
  cases x <;> rfl

theorem bind_apply (x : EStateM ε σ α) (f : α → EStateM ε σ β) (s : σ) :
    (x >>= f) s = match x s with
      | .ok a t => f a t
      | .error e t => .error e t := rfl

/-- Two composed computations return the same if their first steps do and, from what these leave,
the rest does. -/
theorem toExcept_bind_congr {x y : EStateM ε σ α} {f g : α → EStateM ε σ β} {s t : σ}
    (hfirst : (x s).toExcept = (y t).toExcept)
    (hrest : ∀ a s' t', x s = .ok a s' → y t = .ok a t' → (f a s').toExcept = (g a t').toExcept) :
    ((x >>= f) s).toExcept = ((y >>= g) t).toExcept := by
  rw [bind_apply, bind_apply]
  cases hx : x s with
  | ok a s' =>
    cases hy : y t with
    | ok a' t' =>
      rw [hx, hy] at hfirst
      cases hfirst
      exact hrest a s' t' hx hy
    | error e' t' =>
      rw [hx, hy] at hfirst
      cases hfirst
  | error e s' =>
    cases hy : y t with
    | ok a' t' =>
      rw [hx, hy] at hfirst
      cases hfirst
    | error e' t' =>
      rw [hx, hy] at hfirst
      cases hfirst
      rfl

theorem bind_apply_of_error {x : EStateM ε σ α} {f : α → EStateM ε σ β} {s t : σ} {e : ε}
    (h : x s = .error e t) : (x >>= f) s = .error e t := by
  rw [bind_apply, h]

/-- A computation that succeeds has succeeded in its first step. -/
theorem exists_of_bind_eq_ok {x : EStateM ε σ α} {f : α → EStateM ε σ β} {s t : σ} {b : β}
    (h : (x >>= f) s = .ok b t) : ∃ a u, x s = .ok a u ∧ f a u = .ok b t := by
  rw [bind_apply] at h
  cases hres : x s with
  | ok a u =>
    rw [hres] at h
    exact ⟨a, u, rfl, h⟩
  | error e u =>
    rw [hres] at h
    cases h

theorem exists_of_ofExcept_bind_eq_ok {x : Except ε α} {f : α → EStateM ε σ β} {s t : σ} {b : β}
    (h : (ofExcept x >>= f) s = .ok b t) : ∃ a, x = .ok a ∧ f a s = .ok b t := by
  cases x with
  | ok a => exact ⟨a, rfl, h⟩
  | error e => cases h

theorem exists_of_ofOption_bind_eq_ok {e : ε} {x : Option α} {f : α → EStateM ε σ β} {s t : σ}
    {b : β} (h : (ofOption e x >>= f) s = .ok b t) : ∃ a, x = some a ∧ f a s = .ok b t := by
  cases x with
  | some a => exact ⟨a, rfl, h⟩
  | none => cases h

theorem cases_of_bind_eq_error {x : EStateM ε σ α} {f : α → EStateM ε σ β} {s t : σ} {e : ε}
    (h : (x >>= f) s = .error e t) :
    x s = .error e t ∨ ∃ a u, x s = .ok a u ∧ f a u = .error e t := by
  rw [bind_apply] at h
  cases hres : x s with
  | ok a u =>
    rw [hres] at h
    exact Or.inr ⟨a, u, rfl, h⟩
  | error e' u =>
    rw [hres] at h
    cases h
    exact Or.inl rfl

theorem cases_of_ofExcept_bind_eq_error {x : Except ε α} {f : α → EStateM ε σ β} {s t : σ} {e : ε}
    (h : (ofExcept x >>= f) s = .error e t) :
    (x = .error e ∧ t = s) ∨ ∃ a, x = .ok a ∧ f a s = .error e t := by
  cases x with
  | ok a => exact Or.inr ⟨a, rfl, h⟩
  | error e' =>
    cases h
    exact Or.inl ⟨rfl, rfl⟩

theorem cases_of_ofOption_bind_eq_error {e e' : ε} {x : Option α} {f : α → EStateM ε σ β} {s t : σ}
    (h : (ofOption e' x >>= f) s = .error e t) :
    (x = none ∧ t = s) ∨ ∃ a, x = some a ∧ f a s = .error e t := by
  cases x with
  | some a => exact Or.inr ⟨a, rfl, h⟩
  | none =>
    cases h
    exact Or.inl ⟨rfl, rfl⟩

/-! ### Invariants of the state, kept by a computation whether it succeeds or fails -/

section Invariants

variable {I : σ → Prop} {s : σ}

theorem inv_bind {x : EStateM ε σ α} {f : α → EStateM ε σ β} (hx : I (x s).state)
    (hf : ∀ a t, x s = .ok a t → I t → I (f a t).state) : I ((x >>= f) s).state := by
  rw [bind_apply]
  cases hres : x s with
  | ok a t =>
    rw [hres] at hx
    exact hf a t hres hx
  | error e t =>
    rw [hres] at hx
    exact hx

theorem inv_ofExcept_bind {x : Except ε α} {f : α → EStateM ε σ β} (hs : I s)
    (hf : ∀ a, x = .ok a → I (f a s).state) : I ((ofExcept x >>= f) s).state := by
  cases x with
  | ok a => exact hf a rfl
  | error e => exact hs

theorem inv_ofOption_bind {e : ε} {x : Option α} {f : α → EStateM ε σ β} (hs : I s)
    (hf : ∀ a, x = some a → I (f a s).state) : I ((ofOption e x >>= f) s).state := by
  cases x with
  | some a => exact hf a rfl
  | none => exact hs

end Invariants

end EStateM
