import ShaP2Pool.Proof.Ancestry

/-!
# Which marks a reorg leaves

A reorg clears the marks above its new tip as far as the levels go on without a gap. Then it walks
down from the tip and marks the ancestors one by one. The walk ends at the bottom, at the end of the
share window, below the lowest level, or once it is back on a marked block with enough samples; the
marks further down stay as they were.
-/

namespace ShaP2Pool

namespace P2Chain

open Lineage

variable {c c' : P2Chain} {b a m : P2Block} {k i steps height target : Nat}

/-! ### Clearing the marks above -/

theorem resetLinksAbove_clears {rounds : Nat} (h : resetLinksAbove rounds c height = .ok c')
    (habove : height < target) (hrounds : target ≤ height + rounds) (hfits : target ≤ u64Max)
    (hlevels : ∀ height', height < height' → height' ≤ target →
      (c.levelAtHeight height').isSome = true) : c'.chainBlockAt target = FixedHash.zero := by
  induction rounds generalizing c height with
  | zero => omega
  | succ rounds ih =>
    have hnext : saturatingAdd height 1 = height + 1 := Nat.min_eq_left (by omega)
    obtain ⟨level, hlevel⟩ := Option.isSome_iff_exists.mp (hlevels (height + 1) (by omega) (by omega))
    rw [resetLinksAbove, hnext, hlevel] at h
    simp only at h
    rw [if_neg (by omega)] at h
    have hput := chainBlockAt_putMark' hlevel FixedHash.zero
    by_cases hlast : target = height + 1
    · obtain heq | ⟨-, hzero⟩ := (resetLinksAbove_spec h).2 target
      · rw [heq, hput, if_pos hlast]
      · exact hzero
    · refine ih h (by omega) (by omega) (fun height' hlo hhi => ?_)
      rw [(Remarks.putMark hlevel FixedHash.zero).same.levelAtHeight_isSome]
      exact hlevels height' (by omega) hhi

theorem gap_le_size (hlevels : ∀ height', height < height' → height' ≤ target →
    (c.levelAtHeight height').isSome = true) : target - height ≤ c.levels.size := by
  have hsub : List.range' (height + 1) (target - height) ⊆ c.levels.values.map (·.height) := by
    intro height' hmem
    rw [List.mem_range'_1] at hmem
    exact mem_heights_iff.mpr
      (Option.isSome_iff_exists.mp (hlevels height' (by omega) (by omega)))
  have hlen := (List.subperm_of_subset List.nodup_range' hsub).length_le
  rwa [List.length_range', List.length_map] at hlen

/-! ### Walking down -/

/-- The walk down from `b` in `c` has marked the next `k` ancestors, the last of which is `a`. -/
structure WalkedDown (c c' : P2Chain) (b : P2Block) (k : Nat) (a : P2Block) : Prop where
  ancestor : c.ancestorOf k b = some a
  marked : ∀ i m, 0 < i → i ≤ k → c.ancestorOf i b = some m → c'.chainBlockAt m.height = m.hash
  below : ∀ height < a.height, c'.chainBlockAt height = c.chainBlockAt height

/-- A walk of at most `steps` steps that starts with `n` samples can end at `a` after `k` steps. -/
def EndsAt (c : P2Chain) (steps n k : Nat) (a : P2Block) : Prop :=
  k = steps ∨ a.height = 0 ∨ c.levelAtHeight (a.height - 1) = none ∨
    (c.chainBlockAt (a.height - 1) = a.prevHash ∧ difficultyAdjustmentWindow + 1 ≤ n + k)

theorem WalkedDown.refl (c : P2Chain) (b : P2Block) : WalkedDown c c b 0 b :=
  ⟨rfl, fun i m hpos hle _ => by omega, fun _ _ => rfl⟩

theorem relinkAncestors_walks {lwma lwma' : LinearWeightedMovingAverage} (hc : c.StoresAgree)
    (h : relinkAncestors steps c b.header lwma = .ok (c', lwma')) (hheight : b.height ≠ 0) :
    ∃ k a, k ≤ steps ∧ WalkedDown c c' b k a ∧ EndsAt c steps lwma.items.length k a := by
  induction steps generalizing c b lwma with
  | zero =>
    cases h
    exact ⟨0, b, Nat.le_refl _, WalkedDown.refl _ b, Or.inl rfl⟩
  | succ steps ih =>
    have hstep := relinkStep steps c b.header lwma
    rw [h] at hstep
    generalize hr : (Except.ok (c', lwma') : Except Fault _) = r at hstep
    cases hstep with
    | noLevel hlevel =>
      cases hr
      exact ⟨0, b, Nat.zero_le _, WalkedDown.refl _ b, Or.inr (Or.inr (Or.inl hlevel))⟩
    | full hmark hfull =>
      cases hr
      exact ⟨0, b, Nat.zero_le _, WalkedDown.refl _ b,
        Or.inr (Or.inr (Or.inr ⟨hmark, Window.isFull_iff.mp hfull⟩))⟩
    | bottom _ hzero => exact absurd hzero hheight
    | corrupted => cases hr
    | @linked next cNext hnext _ hremarks hmarks =>
      obtain ⟨p, hp, rfl⟩ := hc.storedBlock_of_header hnext
      have hparent : c.parentOf b = some p := by
        rw [parentOf, if_neg hheight]
        exact hp
      have hbelow := height_of_parentOf hc hparent
      have hmarkP : cNext.chainBlockAt p.height = p.hash := by
        rw [hmarks, if_pos (by rw [P2Block.header_height]; omega), hash_of_parentOf hc hparent]
        rfl
      split_ifs at hr with hlast
      · cases hr
        refine ⟨1, p, by omega, ⟨by rw [ancestorOf, ancestor_one, hparent], fun i m hpos hle hm => ?_,
          fun height hlt => ?_⟩, Or.inr (Or.inl hlast)⟩
        · obtain rfl : i = 1 := by omega
          rw [ancestorOf, ancestor_one, hparent, Option.some.injEq] at hm
          rwa [← hm]
        · have hzero : p.height = 0 := hlast
          omega
      · have hlast' : p.height ≠ 0 := hlast
        obtain ⟨k, a, hk, hwalked, hends⟩ := ih (hremarks.same.storesAgree hc) hr.symm hlast'
        have hancestor := hwalked.ancestor
        rw [ancestorOf, hremarks.same.parentOf] at hancestor
        have haHeight := height_of_ancestorOf hc hancestor
        refine ⟨k + 1, a, by omega, ⟨?_, fun i m hpos hle hm => ?_, fun height hlt => ?_⟩, ?_⟩
        · rw [ancestorOf, ancestor_succ, hparent]
          exact hancestor
        · obtain ⟨j, rfl⟩ := Nat.exists_eq_succ_of_ne_zero (Nat.pos_iff_ne_zero.mp hpos)
          rw [ancestorOf, ancestor_succ, hparent, Option.bind_some] at hm
          by_cases hj : j = 0
          · subst hj
            cases hm
            have hkept : c'.chainBlockAt p.height = cNext.chainBlockAt p.height :=
              relinkAncestors_above hr.symm hlast' (Nat.le_refl _)
            rw [hkept, hmarkP]
          · refine hwalked.marked j m (by omega) (by omega) ?_
            rw [ancestorOf, hremarks.same.parentOf]
            exact hm
        · rw [hwalked.below height hlt, hmarks, if_neg (by rw [P2Block.header_height]; omega)]
        · obtain hsteps | hzero | hlevel | ⟨hmark, hfull⟩ := hends
          · exact Or.inl (by omega)
          · exact Or.inr (Or.inl hzero)
          · exact Or.inr (Or.inr (Or.inl (hremarks.same.levelAtHeight_eq_none_iff.mp hlevel)))
          · by_cases hbottom : a.height = 0
            · exact Or.inr (Or.inl hbottom)
            · rw [hmarks, if_neg (by rw [P2Block.header_height]; omega)] at hmark
              rw [Window.length_pushFront] at hfull
              exact Or.inr (Or.inr (Or.inr ⟨hmark, by omega⟩))

theorem relinkAncestors_higher {current : P2BlockHeader} {lwma lwma' : LinearWeightedMovingAverage}
    (h : relinkAncestors steps c current lwma = .ok (c', lwma')) (hlt : current.height < height) :
    c'.chainBlockAt height = c.chainBlockAt height := by
  by_cases hheight : current.height = 0
  · cases steps with
    | zero =>
      cases h
      rfl
    | succ steps =>
      have hstep := relinkStep steps c current lwma
      rw [h] at hstep
      generalize hr : (Except.ok (c', lwma') : Except Fault _) = r at hstep
      cases hstep with
      | noLevel | full | bottom =>
        cases hr
        rfl
      | corrupted => cases hr
      | linked hnext _ _ hmarks =>
        have hbottom := height_of_getBlockHeaderAtHeight hnext
        rw [if_pos (by omega)] at hr
        cases hr
        rw [hmarks, if_neg (by omega)]
  · exact relinkAncestors_above h hheight (Nat.le_of_lt hlt)

/-! ### The whole reorg -/

/-- The marks above the new tip: kept or cleared, and cleared where the levels have no gap. -/
structure ClearedAbove (c c' : P2Chain) (height : Nat) : Prop where
  above : ∀ height', height < height' → c'.chainBlockAt height' = c.chainBlockAt height' ∨
    c'.chainBlockAt height' = FixedHash.zero
  cleared : ∀ target, height < target → target ≤ u64Max →
    (∀ height', height < height' → height' ≤ target → (c.levelAtHeight height').isSome = true) →
    c'.chainBlockAt target = FixedHash.zero

theorem clearedAbove_of_reorg {block : P2BlockHeader} {level : P2ChainLevel}
    (hlevel : c.levelAtHeight block.height = some level) (h : c.reorg block = .ok c') :
    ClearedAbove c c' block.height := by
  obtain ⟨cStart, cReset, cLinked, lwma, hinstalls, hreset, hrelink, rfl⟩ :=
    exists_of_reorg block hlevel h
  have hlinked (height : Nat) (hgt : block.height < height) :
      cLinked.chainBlockAt height = cReset.chainBlockAt height := relinkAncestors_higher hrelink hgt
  refine ⟨fun height hgt => ?_, fun target hgt hfits hlevels => ?_⟩
  · show cLinked.chainBlockAt height = c.chainBlockAt height ∨
      cLinked.chainBlockAt height = FixedHash.zero
    rw [hlinked height hgt]
    obtain heq | ⟨-, hzero⟩ := (resetLinksAbove_spec hreset).2 height
    · rw [heq, hinstalls.chainBlockAt, if_neg (by omega)]
      exact Or.inl rfl
    · exact Or.inr hzero
  · show cLinked.chainBlockAt target = FixedHash.zero
    rw [hlinked target hgt]
    have hstart : ∀ height, block.height < height → height ≤ target →
        (cStart.levelAtHeight height).isSome = true := by
      intro height hlo hhi
      rw [hinstalls.same.levelAtHeight_isSome]
      exact hlevels height hlo hhi
    have hgap := gap_le_size hstart
    exact resetLinksAbove_clears hreset hgt (by omega) hfits hstart

/-- The marks at and below the tip after a reorg to `b` whose walk ended at `a` after `k` steps. -/
structure Relinked (c c' : P2Chain) (b : P2Block) (k : Nat) (a : P2Block) : Prop where
  same : SameBlocks c c'
  currentTip : c'.currentTip = b.height
  ancestor : c.ancestorOf k b = some a
  marked : ∀ i m, i ≤ k → c.ancestorOf i b = some m → c'.chainBlockAt m.height = m.hash
  below : ∀ height < a.height, c'.chainBlockAt height = c.chainBlockAt height
  ends : EndsAt c (windowRounds c.config) 1 k a

theorem relinked_of_reorg (hc : c.StoresAgree) (hb : c.storedBlock b.height b.hash = some b)
    (hheight : b.height ≠ 0) (h : c.reorg b.header = .ok c') : ∃ k a, Relinked c c' b k a := by
  obtain ⟨level, hlevel, -⟩ := hc.level_of_storedBlock hb
  obtain ⟨cStart, cReset, cLinked, lwma, hinstalls, hreset, hrelink, rfl⟩ :=
    exists_of_reorg b.header hlevel h
  obtain ⟨hresets, hresetMarks⟩ := resetLinksAbove_spec hreset
  have hsame := hinstalls.same.trans hresets.same
  obtain ⟨k, a, hk, hwalked, hends⟩ := relinkAncestors_walks (hsame.storesAgree hc) hrelink hheight
  obtain ⟨hremarks, -⟩ := relinkAncestors_spec hrelink
  have hancestor := hwalked.ancestor
  rw [ancestorOf, hsame.parentOf] at hancestor
  have haHeight := height_of_ancestorOf hc hancestor
  have hresetBelow (height : Nat) (hlt : height < b.height) :
      cReset.chainBlockAt height = c.chainBlockAt height := by
    obtain heq | ⟨hgt, -⟩ := hresetMarks height
    · rw [heq, hinstalls.chainBlockAt, if_neg (by rw [P2Block.header_height]; omega)]
    · rw [P2Block.header_height] at hgt
      omega
  have hresetTip : cReset.chainBlockAt b.height = b.hash := by
    obtain heq | ⟨hgt, -⟩ := hresetMarks b.height
    · rw [heq, hinstalls.chainBlockAt]
      exact if_pos rfl
    · rw [P2Block.header_height] at hgt
      omega
  refine ⟨k, a, {
    same := ?_
    currentTip := hremarks.currentTip.trans (hresets.currentTip.trans hinstalls.currentTip)
    ancestor := hancestor
    marked := fun i m hi hm => ?_
    below := fun height hlt => ?_
    ends := ?_ }⟩
  · have hall := hsame.trans hremarks.same
    exact ⟨hall.config, hall.cache, hall.headers⟩
  · show cLinked.chainBlockAt m.height = m.hash
    by_cases hzero : i = 0
    · subst hzero
      cases hm
      have hkept : cLinked.chainBlockAt b.height = cReset.chainBlockAt b.height :=
        relinkAncestors_above hrelink hheight (Nat.le_refl _)
      rw [hkept, hresetTip]
    · refine hwalked.marked i m (by omega) hi ?_
      rw [ancestorOf, hsame.parentOf]
      exact hm
  · show cLinked.chainBlockAt height = c.chainBlockAt height
    rw [hwalked.below height hlt, hresetBelow height (by omega)]
  · obtain hsteps | hzero | hlevel | ⟨hmark, hfull⟩ := hends
    · exact Or.inl (by rw [hsteps, hsame.config])
    · exact Or.inr (Or.inl hzero)
    · exact Or.inr (Or.inr (Or.inl (hsame.levelAtHeight_eq_none_iff.mp hlevel)))
    · by_cases hbottom : a.height = 0
      · exact Or.inr (Or.inl hbottom)
      · rw [hresetBelow _ (by omega)] at hmark
        rw [Window.length_pushFront] at hfull
        exact Or.inr (Or.inr (Or.inr ⟨hmark, by simpa using hfull⟩))

end P2Chain

end ShaP2Pool
