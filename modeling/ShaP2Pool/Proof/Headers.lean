import ShaP2Pool.Library.Lineage
import ShaP2Pool.Proof.Store

/-!
# Paths of headers

The walks that read the chain backwards go from a header to the one it names as its parent, looked
up one height below, until height 0 or a number of steps. Here such a path is a lineage of headers.
It is as long as the walk wants it exactly when every header on the way is stored, and that holds of
any chain: a level keeps headers of its own height only, and under their own hashes.
-/

namespace ShaP2Pool

namespace P2Chain

open Lineage

variable {c : P2Chain} {height n : Nat} {hash : FixedHash} {x p : P2BlockHeader}

/-- The header that `x` names as its parent. -/
def parentHeader (c : P2Chain) (x : P2BlockHeader) : Option P2BlockHeader :=
  if x.height = 0 then none else c.getBlockHeaderAtHeight (x.height - 1) x.prevHash

/-- The first `n` headers of the path down from `x`. -/
def headerPath (n : Nat) (c : P2Chain) (x : P2BlockHeader) : List P2BlockHeader :=
  lineage c.parentHeader n x

/-- The path down from `x` has its `n` headers, or all those down to height 0. -/
def PathStored (n : Nat) (c : P2Chain) (x : P2BlockHeader) : Prop :=
  (c.headerPath n x).length = min n (x.height + 1)

instance (n : Nat) (c : P2Chain) (x : P2BlockHeader) : Decidable (PathStored n c x) :=
  inferInstanceAs (Decidable (_ = _))

theorem parentHeader_of_zero (hzero : x.height = 0) : c.parentHeader x = none := by
  rw [parentHeader, if_pos hzero]

theorem parentHeader_of_ne_zero (hheight : x.height ≠ 0) :
    c.parentHeader x = c.getBlockHeaderAtHeight (x.height - 1) x.prevHash := by
  rw [parentHeader, if_neg hheight]

theorem height_of_parentHeader (h : c.parentHeader x = some p) : p.height + 1 = x.height := by
  rw [parentHeader] at h
  split_ifs at h with hzero
  have hheight := height_of_getBlockHeaderAtHeight h
  omega

theorem headerPath_of_none (h : c.parentHeader x = none) : c.headerPath (n + 1) x = [x] :=
  lineage_succ_of_none h

theorem headerPath_of_some (h : c.parentHeader x = some p) :
    c.headerPath (n + 1) x = x :: c.headerPath n p :=
  lineage_succ_of_some h

theorem headerPath_one (c : P2Chain) (x : P2BlockHeader) : c.headerPath 1 x = [x] := by
  rw [headerPath, lineage_succ]
  cases c.parentHeader x <;> rfl

theorem headerPath_of_height_zero (hzero : x.height = 0) : c.headerPath (n + 1) x = [x] :=
  headerPath_of_none (parentHeader_of_zero hzero)

theorem pathStored_one (c : P2Chain) (x : P2BlockHeader) : PathStored 1 c x := by
  rw [PathStored, headerPath_one, List.length_singleton]
  omega

theorem pathStored_of_height_zero (hzero : x.height = 0) : PathStored (n + 1) c x := by
  rw [PathStored, headerPath_of_height_zero hzero, List.length_singleton]
  omega

theorem pathStored_of_parent (h : c.parentHeader x = some p) :
    PathStored (n + 1) c x ↔ PathStored n c p := by
  have hheight := height_of_parentHeader h
  rw [PathStored, PathStored, headerPath_of_some h, List.length_cons]
  omega

theorem not_pathStored (hheight : x.height ≠ 0) (h : c.parentHeader x = none) :
    ¬PathStored (n + 2) c x := by
  rw [PathStored, headerPath_of_none h, List.length_singleton]
  omega

/-! ### Timestamps -/

/-- The walk of the median lists the timestamps of the path below a header, if it is stored. -/
theorem ancestorTimestamps_eq_ok_iff {steps : Nat} {timestamps : List EpochTime} :
    c.ancestorTimestamps steps x = .ok timestamps ↔ PathStored (steps + 1) c x ∧
      timestamps = (c.headerPath (steps + 1) x).tail.map (·.timestamp) := by
  induction steps generalizing x timestamps with
  | zero =>
    rw [ancestorTimestamps, headerPath_one, Except.ok.injEq]
    constructor
    · intro h
      exact ⟨pathStored_one c x, h.symm⟩
    · intro h
      exact h.2.symm
  | succ steps ih =>
    rw [ancestorTimestamps]
    by_cases hzero : x.height = 0
    · rw [if_pos hzero, headerPath_of_height_zero hzero, Except.ok.injEq]
      constructor
      · intro h
        exact ⟨pathStored_of_height_zero hzero, h.symm⟩
      · intro h
        exact h.2.symm
    · rw [if_neg hzero]
      cases hparent : c.parentHeader x with
      | none =>
        have hlookup := hparent
        rw [parentHeader_of_ne_zero hzero, getBlockHeaderAtHeight] at hlookup
        constructor
        · intro h
          cases hlevel : c.levelAtHeight (x.height - 1) with
          | none => simp [hlevel] at h
          | some level =>
            rw [hlevel, Option.bind_some] at hlookup
            simp [hlevel, hlookup] at h
        · intro h
          exact absurd h.1 (not_pathStored hzero hparent)
      | some p =>
        have hlookup := hparent
        rw [parentHeader_of_ne_zero hzero, getBlockHeaderAtHeight] at hlookup
        obtain ⟨level, hlevel, hheader⟩ := Option.bind_eq_some_iff.mp hlookup
        rw [pathStored_of_parent hparent, headerPath_of_some hparent, List.tail_cons]
        simp only [hlevel, hheader]
        constructor
        · intro h
          cases hrest : c.ancestorTimestamps steps p with
          | error e => simp [hrest] at h
          | ok rest =>
            obtain ⟨hstored, heq⟩ := ih.mp hrest
            simp only [hrest, Except.ok.injEq] at h
            rw [← h, heq]
            refine ⟨hstored, ?_⟩
            rw [headerPath, lineage_succ, List.tail_cons, List.map_cons]
        · intro h
          rw [ih.mpr ⟨h.1, rfl⟩, h.2, headerPath, lineage_succ, List.tail_cons, List.map_cons]

/-- The median that a block on `x` is measured against. -/
def medianAbove (c : P2Chain) (x : P2BlockHeader) : EpochTime :=
  medianOf ((c.headerPath medianTimestampWindow x).map (·.timestamp))

/-- The median of a block can be computed where the header below it and the path down from there are
stored. -/
theorem calculateMedianTimestampForBlock_eq_ok_iff {median : EpochTime} :
    c.calculateMedianTimestampForBlock height hash = .ok median ↔
      ∃ x, c.getBlockHeaderAtHeight (height - 1) hash = some x ∧
        PathStored medianTimestampWindow c x ∧ median = c.medianAbove x := by
  have hwindow : medianTimestampWindow - 1 + 1 = medianTimestampWindow := rfl
  rw [calculateMedianTimestampForBlock, getBlockHeaderAtHeight]
  cases hlevel : c.levelAtHeight (height - 1) with
  | none => simp
  | some level =>
    rw [Option.bind_some]
    cases hheader : level.getHeader hash with
    | none => simp [hheader]
    | some x =>
      simp only [hheader, Option.some.injEq, exists_eq_left']
      have hpath : (c.headerPath medianTimestampWindow x).map (·.timestamp) =
          x.timestamp :: (c.headerPath medianTimestampWindow x).tail.map (·.timestamp) := by
        rw [headerPath, ← hwindow, lineage_succ, List.map_cons, List.tail_cons]
      constructor
      · intro h
        cases hwalk : c.ancestorTimestamps (medianTimestampWindow - 1) x with
        | error e => simp [hwalk] at h
        | ok timestamps =>
          obtain ⟨hstored, heq⟩ := ancestorTimestamps_eq_ok_iff.mp hwalk
          rw [hwindow] at hstored heq
          simp only [hwalk, Except.ok.injEq] at h
          exact ⟨hstored, by rw [medianAbove, hpath, ← h, heq]⟩
      · intro h
        have hwalk : c.ancestorTimestamps (medianTimestampWindow - 1) x =
            .ok ((c.headerPath medianTimestampWindow x).tail.map (·.timestamp)) :=
          ancestorTimestamps_eq_ok_iff.mpr ⟨h.1, rfl⟩
        rw [hwalk, h.2, medianAbove, hpath]

end P2Chain

end ShaP2Pool
