import Mathlib.Algebra.BigOperators.Group.List.Basic
import Mathlib.Algebra.Order.Ring.Nat
import Mathlib.Data.List.Count

/-!
# Weighted tallies

A tally is a list of credits, each a key with a weight. The weight of a key is the sum of its
credits, wherever they stand in the list.
-/

namespace Tally

variable {K : Type}

/-- The keys that have a credit. -/
def keys (credits : List (K × Nat)) : List K := credits.map Prod.fst

variable {credits credits' : List (K × Nat)} {k : K} {n : Nat}

@[simp] theorem keys_nil : keys ([] : List (K × Nat)) = [] := rfl

@[simp] theorem keys_cons (credit : K × Nat) :
    keys (credit :: credits) = credit.1 :: keys credits := rfl

@[simp] theorem keys_append : keys (credits ++ credits') = keys credits ++ keys credits' :=
  List.map_append

variable [DecidableEq K]

/-- The sum of the credits of a key. -/
def weight : List (K × Nat) → K → Nat
  | [], _ => 0
  | credit :: credits, k => (if credit.1 = k then credit.2 else 0) + weight credits k

@[simp] theorem weight_nil : weight ([] : List (K × Nat)) k = 0 := rfl

@[simp] theorem weight_cons (credit : K × Nat) : weight (credit :: credits) k =
    (if credit.1 = k then credit.2 else 0) + weight credits k := rfl

@[simp] theorem weight_append :
    weight (credits ++ credits') k = weight credits k + weight credits' k := by
  induction credits with
  | nil => simp
  | cons credit credits ih =>
    rw [List.cons_append, weight_cons, weight_cons, ih]
    omega

theorem weight_eq_zero (h : k ∉ keys credits) : weight credits k = 0 := by
  induction credits with
  | nil => rfl
  | cons credit credits ih =>
    rw [keys_cons, List.mem_cons, not_or] at h
    rw [weight_cons, if_neg (Ne.symm h.1), ih h.2]

/-- Where all credits count, the keys with a credit are those with a weight. -/
theorem weight_pos_iff (hpos : ∀ credit ∈ credits, 0 < credit.2) :
    0 < weight credits k ↔ k ∈ keys credits := by
  constructor
  · intro h
    by_contra hmem
    rw [weight_eq_zero hmem] at h
    exact absurd h (Nat.lt_irrefl 0)
  · intro h
    induction credits with
    | nil => simp at h
    | cons credit credits ih =>
      rw [List.forall_mem_cons] at hpos
      rw [weight_cons]
      rcases List.mem_cons.mp h with rfl | h
      · rw [if_pos rfl]
        exact Nat.add_pos_left hpos.1 _
      · exact Nat.add_pos_right _ (ih hpos.2 h)

theorem weight_eq_count (h : ∀ credit ∈ credits, credit.2 = n) :
    weight credits k = n * (keys credits).count k := by
  induction credits with
  | nil => simp
  | cons credit credits ih =>
    rw [List.forall_mem_cons] at h
    rw [weight_cons, keys_cons, ih h.2, List.count_cons, h.1]
    by_cases heq : credit.1 = k
    · rw [if_pos heq, if_pos (by simpa using heq), Nat.mul_add]
      omega
    · rw [if_neg heq, if_neg (by simpa using heq), Nat.add_zero, Nat.zero_add]

theorem sum_map_eq_zero {ks : List K} (h : k ∉ ks) :
    (ks.map fun k' => if k = k' then n else 0).sum = 0 := by
  rw [List.sum_eq_zero]
  intro m hm
  obtain ⟨k', hk', rfl⟩ := List.mem_map.mp hm
  rw [if_neg]
  rintro rfl
  exact h hk'

theorem sum_map_single {ks : List K} (hnodup : ks.Nodup) (hk : k ∈ ks) :
    (ks.map fun k' => if k = k' then n else 0).sum = n := by
  induction ks with
  | nil => exact absurd hk List.not_mem_nil
  | cons k' ks ih =>
    obtain ⟨hfirst, hrest⟩ := List.nodup_cons.mp hnodup
    rw [List.map_cons, List.sum_cons]
    by_cases heq : k = k'
    · rw [if_pos heq, sum_map_eq_zero (heq ▸ hfirst), Nat.add_zero]
    · rw [if_neg heq, ih hrest ((List.mem_cons.mp hk).resolve_left heq), Nat.zero_add]

theorem sum_map_weight {ks : List K} (hnodup : ks.Nodup) (hmem : ∀ k ∈ keys credits, k ∈ ks) :
    (ks.map (weight credits)).sum = (credits.map Prod.snd).sum := by
  induction credits with
  | nil =>
    rw [List.sum_eq_zero]
    · rfl
    · intro m hm
      obtain ⟨k, -, rfl⟩ := List.mem_map.mp hm
      rfl
  | cons credit credits ih =>
    rw [keys_cons, List.forall_mem_cons] at hmem
    have hsplit : (ks.map (weight (credit :: credits))).sum =
        (ks.map fun k => if credit.1 = k then credit.2 else 0).sum + (ks.map (weight credits)).sum :=
      List.sum_map_add
    rw [hsplit, sum_map_single hnodup hmem.1, ih hmem.2, List.map_cons, List.sum_cons]

end Tally
