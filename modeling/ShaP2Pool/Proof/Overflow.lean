import ShaP2Pool.Proof.Pruning
import ShaP2Pool.Proof.Fatal

/-!
# Overflow

The arithmetic of the chain is done on machine integers with overflow checks, so an overflow ends
the process. Heights and accumulated work are stored as they come; they meet other operands when the
block, or a block that names it, is verified. This module says when the checks of a block panic, and
when the clearing of the links above a new tip does.
-/

namespace ShaP2Pool

namespace P2Chain

variable {core : TariCore} {ord : IterOrder} {config : ChainConfig} {n height : Nat}
variable {hash : FixedHash} {c c' c₀ c₁ c₂ : P2Chain} {b b₁ p : P2Block} {hist : List P2Block}
variable {P : List P2Block → P2Chain → IterOrder → P2Block → Prop}
variable {r : EStateM.Result Fault P2Chain (ChainAddResult × List (Nat × FixedHash))}

/-! ### The checks -/

/-- The work of the block and its uncles fits, but not together with that of its parent. -/
def WorkOverflows (c : P2Chain) (b : P2Block) : Prop :=
  (b.verified.parents || c.config.bypassChecks.parents) = false ∧ 1 ≤ b.targetDifficulty ∧
    b.height ≠ 0 ∧ ∃ sum p, c.addUncleWork b.uncles b.targetDifficulty = .ok (some sum) ∧
      c.getBlockAtHeight (b.height - 1) b.prevHash = some p ∧ u128Max < sum + p.totalPow

/-- The shares below the block are counted with a share window that is too short to count back. -/
def WindowUnderflows (c : P2Chain) (b : P2Block) : Prop :=
  (b.verified.correctShares || c.config.bypassChecks.correctShares) = false ∧ b.height ≠ 0 ∧
    (∀ cached, c.cachedShares = some cached → b.prevHash ≠ cached.atHash) ∧
    (c.levelAtHeight (b.height - 1)).isSome = true ∧ c.config.shareWindow < 2

/-- The first of the five checks that does not pass panics. The type of the source has no target
difficulty below one. -/
inductive ChecksPanic (core : TariCore) (c : P2Chain) (b : P2Block) : Prop
  | target (hflag : (b.verified.parents || c.config.bypassChecks.parents) = false)
    (hzero : b.targetDifficulty < 1)
  | work (hover : WorkOverflows c b)
  | window {pow difficulty median : Bool} (hpow : c.verifyPowAndParents b = .ok pow)
    (hdifficulty : c.verifyDifficulty core b = .ok difficulty)
    (hmedian : c.verifyMedianTimestampForBlock b = .ok median) (hunder : WindowUnderflows c b)

theorem verifyPowAndParents_panic_iff : (∃ p, c.verifyPowAndParents b = .error (.panic p)) ↔
    ((b.verified.parents || c.config.bypassChecks.parents) = false ∧ b.targetDifficulty < 1) ∨
      WorkOverflows c b := by
  rw [verifyPowAndParents, WorkOverflows]
  cases hflag : (b.verified.parents || c.config.bypassChecks.parents) with
  | true => simp
  | false =>
    by_cases htarget : b.targetDifficulty < 1
    · rw [if_neg Bool.false_ne_true, if_pos htarget]
      simp [htarget]
    · rw [if_neg Bool.false_ne_true, if_neg htarget]
      cases hwork : c.addUncleWork b.uncles b.targetDifficulty with
      | error fault => simp [addUncleWork_error hwork, htarget]
      | ok sum =>
        cases sum with
        | none => simp [htarget]
        | some sum =>
          by_cases hheight : b.height = 0
          · simp only [if_pos hheight, compareWork]
            split_ifs <;> simp [hheight, htarget]
          · cases hp : c.getBlockAtHeight (b.height - 1) b.prevHash with
            | none => simp [htarget, hheight]
            | some p =>
              simp only [if_neg hheight, compareWork]
              split_ifs with hfits htotal
              · simp [Nat.not_lt.mpr hfits, htarget]
              · simp [Nat.not_lt.mpr hfits, htarget]
              · simp [hheight, Nat.not_lt.mp htarget, Nat.lt_of_not_le hfits]

theorem sharesBefore_panic_iff : (∃ p, c.sharesBefore b = .error (.panic p)) ↔
    (∀ cached, c.cachedShares = some cached → b.prevHash ≠ cached.atHash) ∧
      (c.levelAtHeight (b.height - 1)).isSome = true ∧ c.config.shareWindow < 2 := by
  have hcounted : (∃ p, c.getCalculateAndCacheHashmapOfShares (b.height - 1) b.prevHash =
      .error (.panic p)) ↔
        (c.levelAtHeight (b.height - 1)).isSome = true ∧ c.config.shareWindow < 2 := by
    rw [getCalculateAndCacheHashmapOfShares]
    cases c.levelAtHeight (b.height - 1) with
    | none => split_ifs <;> simp
    | some level =>
      by_cases hwindow : c.config.shareWindow < 2
      · simp [hwindow]
      · simp only [if_neg hwindow]
        split
        · simp [hwindow]
        · split
          · simp [hwindow]
          · split <;> simp [hwindow]
  rw [sharesBefore]
  cases hcached : c.cachedShares with
  | none => simp [hcounted]
  | some cached =>
    by_cases heq : b.prevHash = cached.atHash
    · simp [heq]
    · simp [heq, hcounted]

theorem verifySharesForBlock_panic_iff :
    (∃ p, c.verifySharesForBlock b = .error (.panic p)) ↔ WindowUnderflows c b := by
  rw [verifySharesForBlock, WindowUnderflows, ← sharesBefore_panic_iff]
  cases hflag : (b.verified.correctShares || c.config.bypassChecks.correctShares) with
  | true => simp
  | false =>
    by_cases hheight : b.height = 0
    · simp [hheight]
    · simp only [Bool.false_or, decide_eq_true_eq, if_neg hheight]
      cases c.sharesBefore b with
      | error fault => cases fault <;> simp [hheight]
      | ok before =>
        simp only [reduceCtorEq, and_false, iff_false, exists_false]
        split
        · simp
        · split_ifs
          · simp
          · split <;> simp

theorem runChecks_panic_iff : (∃ p, c.runChecks core b = .error (.panic p)) ↔ ChecksPanic core c b := by
  constructor
  · rintro ⟨p, h⟩
    obtain hpow | ⟨pow, hpow, hdifficulty | ⟨difficulty, hdifficulty,
        hmedian | ⟨median, hmedian, hshares⟩⟩⟩ :=
      runChecks_error_iff.mp h
    · obtain ⟨hflag, hzero⟩ | hover := verifyPowAndParents_panic_iff.mp ⟨p, hpow⟩
      · exact ChecksPanic.target hflag hzero
      · exact ChecksPanic.work hover
    · obtain ⟨e, he⟩ := verifyDifficulty_error hdifficulty
      cases he
    · obtain ⟨e, he⟩ := verifyMedianTimestampForBlock_error hmedian
      cases he
    · exact ChecksPanic.window hpow hdifficulty hmedian
        (verifySharesForBlock_panic_iff.mp ⟨p, hshares⟩)
  · have hfirst (h : ∃ p, c.verifyPowAndParents b = .error (.panic p)) :
        ∃ p, c.runChecks core b = .error (.panic p) := by
      obtain ⟨p, hp⟩ := h
      exact ⟨p, runChecks_error_iff.mpr (Or.inl hp)⟩
    intro hpanic
    cases hpanic with
    | target hflag hzero => exact hfirst (verifyPowAndParents_panic_iff.mpr (Or.inl ⟨hflag, hzero⟩))
    | work hover => exact hfirst (verifyPowAndParents_panic_iff.mpr (Or.inr hover))
    | window hpow hdifficulty hmedian hunder =>
      obtain ⟨p, hp⟩ := verifySharesForBlock_panic_iff.mpr hunder
      exact ⟨p, runChecks_error_iff.mpr
        (Or.inr ⟨_, hpow, Or.inr ⟨_, hdifficulty, Or.inr ⟨_, hmedian, hp⟩⟩⟩)⟩

/-! ### The reorg -/

def FullAbove (c : P2Chain) (height : Nat) : Prop :=
  ∀ height', saturatingAdd height 1 ≤ height' → height' ≤ u64Max →
    (c.levelAtHeight height').isSome = true

theorem FullAbove.congr (h : ∀ height, (c'.levelAtHeight height).isSome = (c.levelAtHeight height).isSome) :
    FullAbove c' height ↔ FullAbove c height := by
  simp only [FullAbove, h]

theorem fullAbove_of_error {rounds : Nat} {fault : Fault}
    (h : resetLinksAbove rounds c height = .error fault) : FullAbove c height := by
  induction rounds generalizing c height with
  | zero => simp [resetLinksAbove] at h
  | succ rounds ih =>
    rw [resetLinksAbove] at h
    cases hlevel : c.levelAtHeight (saturatingAdd height 1) with
    | none => simp [hlevel] at h
    | some level =>
      simp only [hlevel] at h
      intro height' hlow hhigh
      by_cases heq : height' = saturatingAdd height 1
      · rw [heq, hlevel]
        rfl
      · split_ifs at h with hlast
        · have : saturatingAdd height 1 = u64Max := Nat.min_eq_right (Nat.le_of_lt hlast)
          omega
        · have hnext : saturatingAdd height 1 = height + 1 := Nat.min_eq_left (Nat.not_lt.mp hlast)
          have habove := (FullAbove.congr fun height =>
            (Remarks.putMark hlevel FixedHash.zero).same.levelAtHeight_isSome height).mp (ih h)
          exact habove height' ((Nat.min_le_left _ _).trans (by omega)) hhigh

theorem error_of_fullAbove {rounds : Nat} (hfull : FullAbove c height)
    (hrounds : u64Max - height < rounds) :
    resetLinksAbove rounds c height = .error (.panic .overflow) := by
  induction rounds generalizing c height with
  | zero => exact absurd hrounds (Nat.not_lt_zero _)
  | succ rounds ih =>
    obtain ⟨level, hlevel⟩ := Option.isSome_iff_exists.mp
      (hfull (saturatingAdd height 1) le_rfl (Nat.min_le_right _ _))
    rw [resetLinksAbove, hlevel]
    simp only
    split_ifs with hlast
    · rfl
    · refine ih ((FullAbove.congr fun height =>
        (Remarks.putMark hlevel FixedHash.zero).same.levelAtHeight_isSome height).mpr ?_) (by omega)
      intro height' hlow hhigh
      have hmono : saturatingAdd height 1 ≤ saturatingAdd (height + 1) 1 :=
        min_le_min_right u64Max (Nat.le_succ (height + 1))
      exact hfull height' (hmono.trans hlow) hhigh

/-- A full range of levels bounds their number from below. -/
theorem FullAbove.size_le (hfull : FullAbove c height) : u64Max - height ≤ c.levels.size := by
  have hsubset : List.range' (height + 1) (u64Max - height) ⊆ c.levels.values.map (·.height) := by
    intro height' hmem
    rw [List.mem_range'_1] at hmem
    rw [mem_heights_iff, ← Option.isSome_iff_exists]
    exact hfull height' ((Nat.min_le_left _ _).trans hmem.1) (by omega)
  have hlength := (List.subperm_of_subset List.nodup_range' hsubset).length_le
  rwa [List.length_range', List.length_map] at hlength

theorem reorg_overflow_iff {block : P2BlockHeader} {level : P2ChainLevel}
    (hlevel : c.levelAtHeight block.height = some level) :
    c.reorg block = .error (.panic .overflow) ↔ FullAbove c block.height := by
  obtain ⟨cStart, hinstalls, heq⟩ := reorg_cases block hlevel
  have hfull : FullAbove cStart block.height ↔ FullAbove c block.height :=
    FullAbove.congr hinstalls.same.levelAtHeight_isSome
  rw [heq, ← hfull]
  constructor
  · intro h
    cases hreset : resetLinksAbove (cStart.levels.size + 1) cStart block.height with
    | error fault => exact fullAbove_of_error hreset
    | ok cReset =>
      simp only [hreset] at h
      cases hrelink : relinkAncestors (windowRounds cReset.config) cReset block
          (Window.empty.pushFront (block.timestamp, block.targetDifficulty)) with
      | error fault =>
        simp only [hrelink, Except.error.injEq] at h
        rw [relinkAncestors_error hrelink] at h
        cases h
      | ok linked => simp [hrelink] at h
  · intro h
    rw [error_of_fullAbove h (Nat.lt_succ_of_le h.size_le)]

end P2Chain

end ShaP2Pool
