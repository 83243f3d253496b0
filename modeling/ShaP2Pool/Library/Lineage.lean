import Mathlib.Data.List.Basic

/-!
# Lineages

A partial parent function makes every element the youngest of a lineage: itself, its parent, the
parent of that and so on, until a parent is absent. `ancestor` names the element a number of steps
up and `lineage` lists the first elements. Two parent functions on different types are compared by
a relation that parents keep.
-/

namespace Lineage

variable {α β : Type} (parent : α → Option α) (parent' : β → Option β)

/-- The element `n` steps up. -/
def ancestor : Nat → α → Option α
  | 0, x => some x
  | n + 1, x => (parent x).bind (ancestor n)

/-- The first `n` elements of the lineage of `x`, from `x` up. -/
def lineage : Nat → α → List α
  | 0, _ => []
  | n + 1, x => x :: ((parent x).map (lineage n)).getD []

variable {parent parent'} {n m : Nat} {x y z : α}

@[simp] theorem ancestor_zero : ancestor parent 0 x = some x := rfl

theorem ancestor_succ : ancestor parent (n + 1) x = (parent x).bind (ancestor parent n) := rfl

@[simp] theorem ancestor_one : ancestor parent 1 x = parent x := by
  rw [ancestor_succ]
  cases parent x <;> rfl

theorem ancestor_add :
    ancestor parent (m + n) x = (ancestor parent m x).bind (ancestor parent n) := by
  induction m generalizing x with
  | zero => simp
  | succ m ih =>
    rw [Nat.succ_add, ancestor_succ, ancestor_succ]
    cases parent x with
    | none => rfl
    | some p => exact ih

theorem ancestor_succ' : ancestor parent (n + 1) x = (ancestor parent n x).bind parent := by
  rw [ancestor_add]
  cases ancestor parent n x with
  | none => rfl
  | some y => exact ancestor_one

theorem ancestor_trans (hy : ancestor parent m x = some y) :
    ancestor parent (m + n) x = ancestor parent n y := by
  rw [ancestor_add, hy, Option.bind_some]

/-- Below an ancestor that exists all ancestors exist. -/
theorem exists_ancestor_of_le (hle : m ≤ n) (hy : ancestor parent n x = some y) :
    ∃ z, ancestor parent m x = some z ∧ ancestor parent (n - m) z = some y := by
  obtain ⟨k, rfl⟩ := Nat.exists_eq_add_of_le hle
  rw [ancestor_add, Option.bind_eq_some_iff] at hy
  rw [Nat.add_sub_cancel_left]
  exact hy

theorem ancestor_rel {R : α → β → Prop}
    (hparent : ∀ x y p, R x y → parent x = some p → ∃ q, parent' y = some q ∧ R p q)
    {x : α} {y : β} {a : α} (hxy : R x y) (ha : ancestor parent n x = some a) :
    ∃ b, ancestor parent' n y = some b ∧ R a b := by
  induction n generalizing x y with
  | zero =>
    cases ha
    exact ⟨y, rfl, hxy⟩
  | succ n ih =>
    rw [ancestor_succ, Option.bind_eq_some_iff] at ha
    obtain ⟨p, hp, ha⟩ := ha
    obtain ⟨q, hq, hpq⟩ := hparent x y p hxy hp
    obtain ⟨b, hb, hab⟩ := ih hpq ha
    exact ⟨b, by rw [ancestor_succ, hq, Option.bind_some, hb], hab⟩

@[simp] theorem lineage_zero : lineage parent 0 x = [] := rfl

theorem lineage_succ :
    lineage parent (n + 1) x = x :: ((parent x).map (lineage parent n)).getD [] := rfl

theorem lineage_succ_of_none (h : parent x = none) : lineage parent (n + 1) x = [x] := by
  rw [lineage_succ, h]
  rfl

theorem lineage_succ_of_some (h : parent x = some y) :
    lineage parent (n + 1) x = x :: lineage parent n y := by
  rw [lineage_succ, h]
  rfl

theorem getElem?_lineage (i : Nat) :
    (lineage parent n x)[i]? = if i < n then ancestor parent i x else none := by
  induction n generalizing x i with
  | zero => simp
  | succ n ih =>
    rw [lineage_succ]
    cases i with
    | zero => simp
    | succ i =>
      rw [List.getElem?_cons_succ, ancestor_succ]
      cases parent x with
      | none => simp
      | some p =>
        simp only [Option.map_some, Option.getD_some, Option.bind_some, ih,
          Nat.succ_lt_succ_iff]

theorem take_lineage : (lineage parent n x).take m = lineage parent (min m n) x := by
  induction n generalizing m x with
  | zero => simp
  | succ n ih =>
    cases m with
    | zero => simp
    | succ m =>
      rw [Nat.succ_min_succ, lineage_succ, lineage_succ, List.take_succ_cons]
      cases parent x with
      | none => simp
      | some p => simp only [Option.map_some, Option.getD_some, ih]

theorem map_lineage_eq {γ : Type} {f : α → γ} {g : β → γ} {R : α → β → Prop}
    (himage : ∀ x y, R x y → f x = g y) {x : α} {y : β} (hxy : R x y)
    (hparent : ∀ i, i + 1 < n → ∀ a b, ancestor parent i x = some a →
      ancestor parent' i y = some b → R a b → (parent a = none ∧ parent' b = none) ∨
        ∃ p q, parent a = some p ∧ parent' b = some q ∧ R p q) :
    (lineage parent n x).map f = (lineage parent' n y).map g := by
  induction n generalizing x y with
  | zero => rfl
  | succ n ih =>
    cases n with
    | zero =>
      rw [lineage_succ, lineage_succ]
      cases parent x <;> cases parent' y <;> simp [himage x y hxy]
    | succ n =>
      rcases hparent 0 (by omega) x y rfl rfl hxy with ⟨hx, hy⟩ | ⟨p, q, hp, hq, hpq⟩
      · rw [lineage_succ_of_none hx, lineage_succ_of_none hy, List.map_singleton,
          List.map_singleton, himage x y hxy]
      · rw [lineage_succ_of_some hp, lineage_succ_of_some hq, List.map_cons, List.map_cons,
          himage x y hxy]
        congr 1
        refine ih hpq (fun i hi a b ha hb hab => hparent (i + 1) (by omega) a b ?_ ?_ hab)
        · rw [ancestor_succ, hp]
          exact ha
        · rw [ancestor_succ, hq]
          exact hb

end Lineage
