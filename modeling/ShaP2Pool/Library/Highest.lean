import Mathlib.Data.List.Induction

/-!
# The first of the highest

Of two reports the later one counts only if it ranks higher. A sequence of reports combined in this
way leaves the first of those that rank highest. It leaves the last report exactly when that one
ranks higher than all others.
-/

namespace Highest

variable {α : Type} (rank : α → Nat)

/-- The report that counts of an earlier and a later one. -/
def pick : Option α → Option α → Option α
  | some a, some b => if rank a < rank b then some b else some a
  | none, some b => some b
  | a, none => a

/-- The report that a sequence of reports leaves. -/
def highest (reports : List α) : Option α :=
  reports.foldl (fun best report => pick rank best (some report)) none

variable {rank} {reports : List α} {a b : α}

@[simp] theorem pick_none_right (a : Option α) : pick rank a none = a := by
  cases a <;> rfl

@[simp] theorem highest_nil : highest rank ([] : List α) = none := rfl

theorem highest_snoc : highest rank (reports ++ [a]) = pick rank (highest rank reports) (some a) := by
  rw [highest, List.foldl_append]
  rfl

theorem highest_spec : (reports = [] ∧ highest rank reports = none) ∨
    ∃ a ∈ reports, highest rank reports = some a ∧ ∀ b ∈ reports, rank b ≤ rank a := by
  induction reports using List.reverseRecOn with
  | nil => exact Or.inl ⟨rfl, rfl⟩
  | append_singleton reports b ih =>
    refine Or.inr ?_
    rw [highest_snoc]
    obtain ⟨rfl, hnone⟩ | ⟨a, ha, hbest, hle⟩ := ih
    · refine ⟨b, List.mem_append_right _ List.mem_cons_self, by rw [hnone]; rfl, ?_⟩
      intro c hc
      rw [List.nil_append, List.mem_singleton] at hc
      exact Nat.le_of_eq (congrArg rank hc)
    · rw [hbest, pick]
      by_cases hlt : rank a < rank b
      · refine ⟨b, List.mem_append_right _ List.mem_cons_self, if_pos hlt, ?_⟩
        intro c hc
        obtain hc | hc := List.mem_append.mp hc
        · exact Nat.le_trans (hle c hc) (Nat.le_of_lt hlt)
        · exact Nat.le_of_eq (congrArg rank (List.mem_singleton.mp hc))
      · refine ⟨a, List.mem_append_left _ ha, if_neg hlt, ?_⟩
        intro c hc
        obtain hc | hc := List.mem_append.mp hc
        · exact hle c hc
        · rw [List.mem_singleton.mp hc]
          exact Nat.not_lt.mp hlt

theorem exists_highest (hreports : reports ≠ []) : ∃ a, highest rank reports = some a := by
  obtain ⟨hnil, -⟩ | ⟨a, -, hbest, -⟩ := (highest_spec : (reports = [] ∧ highest rank reports = none) ∨ _)
  · exact absurd hnil hreports
  · exact ⟨a, hbest⟩

theorem highest_snoc_eq_iff (hnew : b ∉ reports) :
    highest rank (reports ++ [b]) = some b ↔ ∀ a ∈ reports, rank a < rank b := by
  rw [highest_snoc]
  obtain ⟨rfl, hnone⟩ | ⟨a, ha, hbest, hle⟩ :=
    (highest_spec : (reports = [] ∧ highest rank reports = none) ∨ _)
  · rw [hnone]
    exact iff_of_true rfl fun a ha => absurd ha List.not_mem_nil
  · rw [hbest, pick]
    constructor
    · intro h
      split_ifs at h with hlt
      · exact fun c hc => Nat.lt_of_le_of_lt (hle c hc) hlt
      · rw [Option.some.inj h] at ha
        exact absurd ha hnew
    · intro h
      rw [if_pos (h a ha)]

end Highest
