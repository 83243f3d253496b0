import Mathlib.Data.List.Sort

/-!
# Sorting by one key after another

Insertion sort is stable, so that a list sorted by a minor key and then by a major one is in
lexicographic order.
-/

namespace StableSort

variable {α κ ι : Type} [LinearOrder κ] [LinearOrder ι] (major : α → κ) (minor : α → ι)

/-- The order by two keys. -/
def Before (a b : α) : Prop := major a < major b ∨ (major a = major b ∧ minor a ≤ minor b)

variable {major minor}

theorem Before.major_le {a b : α} (h : Before major minor a b) : major a ≤ major b := by
  obtain hlt | ⟨heq, -⟩ := h
  · exact hlt.le
  · exact heq.le

theorem Before.trans {a b c : α} (h : Before major minor a b) (h' : Before major minor b c) :
    Before major minor a c := by
  obtain hlt | ⟨heq, hle⟩ := h
  · exact Or.inl (hlt.trans_le h'.major_le)
  · obtain hlt' | ⟨heq', hle'⟩ := h'
    · exact Or.inl (heq.trans_lt hlt')
    · exact Or.inr ⟨heq.trans heq', hle.trans hle'⟩

theorem pairwise_orderedInsert {a : α} {l : List α} (ha : ∀ b ∈ l, minor a ≤ minor b)
    (hl : l.Pairwise (Before major minor)) :
    (l.orderedInsert (fun a b => major a ≤ major b) a).Pairwise (Before major minor) := by
  induction l with
  | nil => exact List.pairwise_singleton _ _
  | cons b l ih =>
    obtain ⟨hb, hrest⟩ := List.pairwise_cons.mp hl
    rw [List.orderedInsert_cons]
    split_ifs with hle
    · have hab : Before major minor a b := by
        obtain hlt | heq := hle.lt_or_eq
        · exact Or.inl hlt
        · exact Or.inr ⟨heq, ha b List.mem_cons_self⟩
      refine List.pairwise_cons.mpr ⟨fun x hx => ?_, hl⟩
      obtain rfl | hx := List.mem_cons.mp hx
      · exact hab
      · exact hab.trans (hb x hx)
    · refine List.pairwise_cons.mpr
        ⟨fun x hx => ?_, ih (fun x hx => ha x (List.mem_cons_of_mem b hx)) hrest⟩
      obtain rfl | hx := List.mem_cons.mp ((List.perm_orderedInsert _ a l).mem_iff.mp hx)
      · exact Or.inl (not_le.mp hle)
      · exact hb x hx

theorem pairwise_insertionSort {l : List α} (hl : l.Pairwise (fun a b => minor a ≤ minor b)) :
    (l.insertionSort (fun a b => major a ≤ major b)).Pairwise (Before major minor) := by
  induction l with
  | nil => exact List.Pairwise.nil
  | cons a l ih =>
    obtain ⟨ha, hrest⟩ := List.pairwise_cons.mp hl
    rw [List.insertionSort_cons]
    exact pairwise_orderedInsert (fun b hb => ha b ((List.mem_insertionSort _).mp hb)) (ih hrest)

end StableSort
