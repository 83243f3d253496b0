import Mathlib.Algebra.Order.BigOperators.Group.List
import Mathlib.Tactic.Ring

/-!
# Dividing an amount by running shares

An amount is divided among shares in one pass: each share gets the difference of two rounded parts,
that of the shares up to and with it and that of the shares before it. The parts add up without
loss, and each is less than one unit away from the exact ratio.
-/

namespace Apportion

variable {amount total before share : Nat}

/-- The part of the amount that falls to the first shares. -/
def part (amount total shares : Nat) : Nat := shares * amount / total

@[simp] theorem part_zero : part amount total 0 = 0 := by rw [part, Nat.zero_mul, Nat.zero_div]

theorem part_self (h : 0 < total) : part amount total total = amount :=
  Nat.mul_div_cancel_left amount h

theorem part_mono {s s' : Nat} (h : s ≤ s') : part amount total s ≤ part amount total s' :=
  Nat.div_le_div_right (Nat.mul_le_mul_right amount h)

theorem part_sub_mul_le (h : 0 < total) :
    (part amount total (before + share) - part amount total before) * total ≤
      amount * share + total := by
  have hupper := Nat.div_mul_le_self ((before + share) * amount) total
  have hlower := Nat.lt_div_mul_add h (a := before * amount)
  have hsplit : (before + share) * amount = before * amount + amount * share := by ring
  rw [Nat.sub_mul, part, part]
  omega

theorem le_part_sub_mul (h : 0 < total) :
    amount * share ≤
      (part amount total (before + share) - part amount total before) * total + total := by
  have hupper := Nat.div_mul_le_self (before * amount) total
  have hlower := Nat.lt_div_mul_add h (a := (before + share) * amount)
  have hsplit : (before + share) * amount = before * amount + amount * share := by ring
  rw [Nat.sub_mul, part, part]
  omega

theorem le_part_sub (h : 0 < total) (hamount : total ≤ amount) :
    share ≤ part amount total (before + share) - part amount total before := by
  have hown : before * amount + share * total ≤ (before + share) * amount := by
    rw [Nat.add_mul]
    exact Nat.add_le_add_left (Nat.mul_le_mul_left share hamount) _
  have hstep : part amount total before + share ≤ part amount total (before + share) := by
    rw [part, part, ← Nat.add_mul_div_right _ _ h]
    exact Nat.div_le_div_right hown
  omega

theorem part_sub_add_le (h : 0 < total) (hamount : total ≤ amount)
    (hroom : before + share ≤ total) :
    part amount total (before + share) - part amount total before + (total - share) ≤ amount := by
  have hfirst : before ≤ part amount total (0 + before) - part amount total 0 :=
    le_part_sub h hamount
  rw [Nat.zero_add, part_zero, Nat.sub_zero] at hfirst
  obtain ⟨after, hafter⟩ := Nat.exists_eq_add_of_le hroom
  have hrest : after ≤ part amount total (before + share + after) -
      part amount total (before + share) := le_part_sub h hamount
  have hmono : part amount total (before + share) ≤ part amount total (before + share + after) :=
    part_mono (Nat.le_add_right _ _)
  have hgrow : part amount total before ≤ part amount total (before + share) :=
    part_mono (Nat.le_add_right _ _)
  have hall : part amount total (before + share + after) = amount := by
    rw [← hafter, part_self h]
  omega

theorem part_sub_le_part_sub {before' : Nat} (h : 0 < total) :
    part amount total (before + share) - part amount total before ≤
      part amount total (before' + share) - part amount total before' + 2 := by
  have hupper : (part amount total (before + share) - part amount total before) * total ≤
      amount * share + total := part_sub_mul_le h
  have hlower : amount * share ≤
      (part amount total (before' + share) - part amount total before') * total + total :=
    le_part_sub_mul h
  refine Nat.le_of_mul_le_mul_right ?_ h
  rw [Nat.add_mul]
  omega

theorem exists_eq_sum_iff {counts : List Nat} (hpos : ∀ n ∈ counts, 0 < n) :
    (∃ n ∈ counts, n = counts.sum) ↔ counts.length = 1 := by
  constructor
  · intro ⟨n, hn, hsum⟩
    obtain ⟨before, after, rfl⟩ := List.append_of_mem hn
    rw [List.sum_append, List.sum_cons] at hsum
    have hnil {part : List Nat} (hpart : ∀ m ∈ part, 0 < m) (hzero : part.sum = 0) :
        part = [] := by
      cases part with
      | nil => rfl
      | cons m rest =>
        have hm := hpart m List.mem_cons_self
        rw [List.sum_cons] at hzero
        omega
    have hbefore : before = [] :=
      hnil (fun m hm => hpos m (List.mem_append_left _ hm)) (by omega)
    have hafter : after = [] :=
      hnil (fun m hm => hpos m (List.mem_append_right _ (List.mem_cons_of_mem _ hm))) (by omega)
    rw [hbefore, hafter]
    rfl
  · intro hlength
    obtain ⟨n, rfl⟩ := List.length_eq_one_iff.mp hlength
    exact ⟨n, List.mem_singleton_self n, (List.sum_singleton).symm⟩

end Apportion
