import Mathlib.Data.List.Basic
import Mathlib.Tactic.Ring

/-!
# Bounded double-ended windows

A window keeps at most `cap` samples, oldest first. A new sample enters at the back and pushes the
oldest one out when the window is full; an older sample enters at the front only while there is
room. Both ways of filling a window from a newest-first record `L` keep the newest `cap` entries of
`L`: pushing at the back in order of time, or pushing at the front while walking back in time.
-/

/-- At most `cap` samples, oldest first. -/
structure Window (α : Type) (cap : Nat) where
  items : List α
  bounded : items.length ≤ cap

namespace Window

variable {α : Type} {cap : Nat}

@[ext] theorem ext {v w : Window α cap} (h : v.items = w.items) : v = w := by
  cases v
  cases w
  simp_all

/-- The window without samples. -/
def empty : Window α cap := ⟨[], Nat.zero_le _⟩

/-- Whether the window holds as many samples as it can. -/
def isFull (w : Window α cap) : Bool := w.items.length == cap

/-- Append the newest sample, dropping the oldest one when the window is full. -/
def pushBack (w : Window α cap) (x : α) : Window α cap :=
  ⟨(w.items ++ [x]).drop (w.items.length + 1 - cap), by
    rw [List.length_drop, List.length_append, List.length_singleton]
    omega⟩

/-- Prepend an older sample; without effect when the window is full. -/
def pushFront (w : Window α cap) (x : α) : Window α cap :=
  if h : w.items.length < cap then ⟨x :: w.items, h⟩ else w

@[simp] theorem items_empty : (empty : Window α cap).items = [] := rfl

theorem isFull_iff {w : Window α cap} : w.isFull = true ↔ cap ≤ w.items.length := by
  have := w.bounded
  rw [isFull, beq_iff_eq]
  omega

theorem length_pushFront (w : Window α cap) (x : α) :
    (w.pushFront x).items.length = min cap (w.items.length + 1) := by
  have := w.bounded
  unfold pushFront
  split_ifs with hroom
  · rw [List.length_cons]
    omega
  · omega

/-- The window holds the newest `cap` entries of the newest-first record `L`. -/
def Holds (w : Window α cap) (L : List α) : Prop := w.items = (L.take cap).reverse

theorem Holds.length {w : Window α cap} {L : List α} (h : w.Holds L) :
    w.items.length = min cap L.length := by
  rw [h, List.length_reverse, List.length_take]

theorem holds_empty : (empty : Window α cap).Holds [] := by
  simp [Holds]

/-- Only the newest `cap` entries of a record matter. -/
theorem Holds.congr {w : Window α cap} {L L' : List α} (h : w.Holds L)
    (htake : L'.take cap = L.take cap) : w.Holds L' := by
  rw [Holds, htake, ← h]

theorem Holds.eq {v w : Window α cap} {L : List α} (hv : v.Holds L) (hw : w.Holds L) : v = w :=
  ext (hv.trans hw.symm)

/-- A newer sample at the back. -/
theorem Holds.pushBack {w : Window α cap} {L : List α} (h : w.Holds L) (x : α) :
    (w.pushBack x).Holds (x :: L) := by
  have hlen := h.length
  rw [Holds] at h
  change (w.items ++ [x]).drop (w.items.length + 1 - cap) = _
  rw [hlen, h, ← List.reverse_cons]
  rcases Nat.lt_or_ge L.length cap with hlt | hge
  · rw [List.take_of_length_le (by omega), List.take_of_length_le (by simp; omega),
      show min cap L.length + 1 - cap = 0 by omega, List.drop_zero]
  · rw [List.drop_reverse]
    congr 1
    rw [List.length_cons, List.length_take]
    cases cap with
    | zero => simp
    | succ n =>
      have hcount : min (n + 1) L.length + 1 - (min (n + 1) L.length + 1 - (n + 1)) = n + 1 := by
        omega
      rw [hcount, List.take_succ_cons, List.take_succ_cons, List.take_take]
      congr 2
      omega

/-- An older sample at the front. -/
theorem Holds.pushFront {w : Window α cap} {L : List α} (h : w.Holds L) (x : α) :
    (w.pushFront x).Holds (L ++ [x]) := by
  have hlen := h.length
  rw [Holds] at h
  unfold Window.pushFront
  split_ifs with hroom
  · have hshort : L.length < cap := by omega
    rw [Holds, List.take_of_length_le (by simp; omega), List.reverse_append]
    rw [List.take_of_length_le (by omega)] at h
    simp [h]
  · rw [Holds, h, List.take_append_of_le_length (by omega)]

end Window
