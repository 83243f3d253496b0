import Mathlib.Logic.Relation

/-!
# What a worklist still leads to

A worklist takes up its items one after the other and queues what follows each. An item is pending
as long as some queued item leads to it. The rule of a round says when everything that is due stays
pending: what becomes due follows the item taken up, and what is dropped leads to nothing due.
-/

variable {α : Type} {follows : α → α → Prop} {queue queue' rest : List α} {x y z : α}

/-- Some queued item leads to `z`. -/
def Pending (follows : α → α → Prop) (queue : List α) (z : α) : Prop :=
  ∃ item ∈ queue, Relation.ReflTransGen follows item z

namespace Pending

theorem of_mem (h : z ∈ queue) : Pending follows queue z := ⟨z, h, Relation.ReflTransGen.refl⟩

theorem of_leads (hy : y ∈ queue) (h : Relation.ReflTransGen follows y z) : Pending follows queue z :=
  ⟨y, hy, h⟩

theorem not_nil : ¬Pending follows [] z := by
  intro ⟨item, hmem, _⟩
  cases hmem

theorem cons_iff : Pending follows (x :: rest) z ↔
    Relation.ReflTransGen follows x z ∨ Pending follows rest z := by
  simp [Pending]

theorem exists_follower (h : Relation.ReflTransGen follows x z) (hne : z ≠ x) :
    ∃ y, follows x y ∧ Relation.ReflTransGen follows y z := by
  obtain rfl | h := Relation.ReflTransGen.cases_head h
  · exact absurd rfl hne
  · exact h

/-- One round of a worklist. All that is due is pending before it, what comes to be due follows
`x`, and what the round leaves out of the next queue leads to nothing that is due and not pending
otherwise. Then all that is due is pending after it. -/
theorem round {due due' : α → Prop} (hdue : ∀ z, due z → Pending follows (x :: rest) z)
    (hnew : ∀ z, due' z → (due z ∧ z ≠ x) ∨ Relation.TransGen follows x z)
    (hkept : ∀ y, follows x y ∨ y ∈ rest → y ∉ queue' → ∀ z, due' z →
      Relation.ReflTransGen follows y z → Pending follows queue' z)
    (hz : due' z) : Pending follows queue' z := by
  have hlead (y : α) (hy : follows x y ∨ y ∈ rest) (h : Relation.ReflTransGen follows y z) :
      Pending follows queue' z := by
    by_cases hmem : y ∈ queue'
    · exact of_leads hmem h
    · exact hkept y hy hmem z hz h
  obtain ⟨hold, hne⟩ | htrans := hnew z hz
  · obtain hx | ⟨item, hmem, hitem⟩ := cons_iff.mp (hdue z hold)
    · obtain ⟨y, hy, hrest⟩ := exists_follower hx hne
      exact hlead y (Or.inl hy) hrest
    · exact hlead item (Or.inr hmem) hitem
  · obtain ⟨y, hy, hrest⟩ := Relation.TransGen.head'_iff.mp htrans
    exact hlead y (Or.inl hy) hrest

end Pending
