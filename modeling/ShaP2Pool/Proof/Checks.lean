import ShaP2Pool.Proof.Rollback
import ShaP2Pool.Proof.Ancestry

/-!
# The checks of a block

With the checks that the server bypasses, what decides is the first one, over the stored uncles and
the stored parent, and for a block on the tip the uncle checks.
-/

namespace ShaP2Pool

namespace P2Chain

variable {core : TariCore} {c c' : P2Chain} {b p u : P2Block} {sum : AccumulatedDifficulty}

/-- With the checks that the server bypasses, only the first check can hold a block back. -/
theorem runChecks_serverBypass (hbypass : c.config.bypassChecks = serverBypass) :
    c.runChecks core b = (c.verifyPowAndParents b).map fun parents =>
      { parents := b.verified.parents || parents
        targetDifficulty := true
        difficulty := true
        correctShares := true
        medianTimestamp := true } := by
  have hdifficulty : c.verifyDifficulty core b = .ok true := by
    rw [verifyDifficulty, hbypass, if_pos (by simp [serverBypass])]
  have htarget : c.verifyTargetDifficulty core b = true := by
    rw [verifyTargetDifficulty, hbypass, if_pos (by simp [serverBypass])]
  have hmedian : c.verifyMedianTimestampForBlock b = .ok true := by
    rw [verifyMedianTimestampForBlock, hbypass, if_pos (by simp [serverBypass])]
  have hshares : c.verifySharesForBlock b = .ok true := by
    rw [verifySharesForBlock, hbypass, if_pos (by simp [serverBypass])]
  rw [runChecks, hdifficulty, htarget, hmedian, hshares]
  cases c.verifyPowAndParents b with
  | error fault => rfl
  | ok parents =>
    simp only [bind, Except.bind, pure, Except.pure, Except.map, Bool.or_true]

theorem checked_of_addUncleWork (hc : c.StoresAgree) {listed : List (Nat × FixedHash)}
    {total sum : AccumulatedDifficulty} (h : c.addUncleWork listed total = .ok (some sum))
    {uncle : Nat × FixedHash} (hmem : uncle ∈ listed)
    (hu : c.storedBlock uncle.1 uncle.2 = some u) :
    u.verified.targetDifficulty = true ∧ u.verified.difficulty = true := by
  induction listed generalizing total with
  | nil => exact absurd hmem List.not_mem_nil
  | cons first rest ih =>
    obtain ⟨height, hash⟩ := first
    rw [addUncleWork] at h
    cases hfind : c.getBlockAtHeight height hash with
    | none => simp [hfind] at h
    | some x =>
      simp only [hfind] at h
      split_ifs at h with hunchecked
      · cases h
      · cases hadd : checkedAddDifficulty total x.targetDifficulty with
        | none => simp [hadd] at h
        | some total' =>
          simp only [hadd] at h
          rcases List.mem_cons.mp hmem with rfl | hmem
          · rw [hc.getBlockAtHeight_of_storedBlock hu, Option.some.injEq] at hfind
            subst hfind
            simpa using hunchecked
          · exact ih h hmem

/-! ### What the first check rests on -/

theorem addUncleWork_congr {listed : List (Nat × FixedHash)} (total : AccumulatedDifficulty)
    (h : ∀ uncle ∈ listed, c'.getBlockAtHeight uncle.1 uncle.2 = c.getBlockAtHeight uncle.1 uncle.2) :
    c'.addUncleWork listed total = c.addUncleWork listed total := by
  induction listed generalizing total with
  | nil => rfl
  | cons uncle rest ih =>
    obtain ⟨hfirst, hrest⟩ := List.forall_mem_cons.mp h
    rw [addUncleWork, addUncleWork, hfirst]
    cases c.getBlockAtHeight uncle.1 uncle.2 with
    | none => rfl
    | some u =>
      simp only
      split_ifs
      · rfl
      · cases checkedAddDifficulty total u.targetDifficulty with
        | none => rfl
        | some sum => exact ih sum hrest

theorem verifyPowAndParents_congr (hconfig : c'.config = c.config)
    (huncles : ∀ uncle ∈ b.uncles,
      c'.getBlockAtHeight uncle.1 uncle.2 = c.getBlockAtHeight uncle.1 uncle.2)
    (hparent : b.height ≠ 0 →
      (c'.getBlockAtHeight (b.height - 1) b.prevHash).map (·.totalPow) =
        (c.getBlockAtHeight (b.height - 1) b.prevHash).map (·.totalPow)) :
    c'.verifyPowAndParents b = c.verifyPowAndParents b := by
  rw [verifyPowAndParents, verifyPowAndParents, addUncleWork_congr b.targetDifficulty huncles, hconfig]
  split_ifs with _ _ hzero
  · rfl
  · rfl
  · rfl
  · have hpow := hparent hzero
    cases hp' : c'.getBlockAtHeight (b.height - 1) b.prevHash <;>
      cases hp : c.getBlockAtHeight (b.height - 1) b.prevHash <;>
      simp only [hp', hp, Option.map_some, Option.map_none, Option.some.injEq, reduceCtorEq] at hpow
    · rfl
    · simp only [hpow]

theorem verifyPowAndParents_of_runChecks {v : VerifiedStatus} (h : c.runChecks core b = .ok v)
    (hparents : v.parents = true) : c.verifyPowAndParents b = .ok true := by
  cases hflag : b.verified.parents with
  | true => rw [verifyPowAndParents, if_pos (by rw [hflag, Bool.true_or])]
  | false =>
    simp only [runChecks, bind, Except.bind, pure, Except.pure] at h
    cases hwork : c.verifyPowAndParents b with
    | error fault => simp [hwork] at h
    | ok parents =>
      simp only [hwork] at h
      repeat' split at h
      all_goals cases h
      simpa [hflag] using hparents

theorem verifyPowAndParents_withStatus {v : VerifiedStatus} (h : v.parents = b.verified.parents) :
    c.verifyPowAndParents { b with verified := v } = c.verifyPowAndParents b := by
  rw [verifyPowAndParents, verifyPowAndParents]
  simp only [h]
  rfl

theorem exists_work_of_verifyPowAndParents
    (hunchecked : (b.verified.parents || c.config.bypassChecks.parents) = false)
    (h : c.verifyPowAndParents b = .ok true) :
    ∃ sum, c.addUncleWork b.uncles b.targetDifficulty = .ok (some sum) := by
  rw [verifyPowAndParents, if_neg (by rw [hunchecked]; simp)] at h
  by_cases htarget : b.targetDifficulty < 1
  · rw [if_pos htarget] at h
    cases h
  · rw [if_neg htarget] at h
    cases hwork : c.addUncleWork b.uncles b.targetDifficulty with
    | error fault => simp [hwork] at h
    | ok sum =>
      cases sum with
      | none => simp [hwork] at h
      | some sum => exact ⟨sum, rfl⟩

/-- The uncle checks of a block that extends the tip, in terms of the stored blocks. -/
theorem checkUncles_ok (hc : c.StoresAgree) {listed : List (Nat × FixedHash)}
    (h : ∀ uncle ∈ listed, uncle.1 ≠ 0 ∧ c.chainBlockAt uncle.1 ≠ uncle.2 ∧
      ∃ u p, c.storedBlock uncle.1 uncle.2 = some u ∧
        c.storedBlock (uncle.1 - 1) u.prevHash = some p ∧
        c.chainBlockAt (uncle.1 - 1) = u.prevHash) : c.checkUncles listed = .ok () := by
  induction listed with
  | nil => rfl
  | cons uncle rest ih =>
    obtain ⟨height, hash⟩ := uncle
    obtain ⟨⟨hheight, hoff, u, p, hu, hp, hmark⟩, hrest⟩ := List.forall_mem_cons.mp h
    have huheight := hc.height_of_storedBlock hu
    have hparent : c.getParentBlock u = some p := by
      rw [getParentBlock, huheight, if_neg hheight]
      exact hc.getBlockAtHeight_of_storedBlock hp
    obtain ⟨level, hlevel, -⟩ := hc.level_of_storedBlock hu
    obtain ⟨below, hbelow, -⟩ := hc.level_of_storedBlock hp
    rw [chainBlockAt_of_level hlevel] at hoff
    rw [chainBlockAt_of_level hbelow] at hmark
    rw [checkUncles, hc.getBlockAtHeight_of_storedBlock hu]
    simp only [hparent, hbelow, hlevel, hmark, hc.hash_of_storedBlock hp]
    rw [if_neg (not_not.mpr rfl), if_neg hoff]
    exact ih hrest

theorem verifyPowAndParents_of_work (hc : c.StoresAgree) (htarget : 1 ≤ b.targetDifficulty)
    (hwork : c.addUncleWork b.uncles b.targetDifficulty = .ok (some sum)) (hp : c.parentOf b = some p)
    (hfits : sum + p.totalPow ≤ u128Max) (htotal : b.totalPow = sum + p.totalPow) :
    c.verifyPowAndParents b = .ok true := by
  have hheight : b.height ≠ 0 := by
    rw [height_of_parentOf hc hp]
    exact Nat.succ_ne_zero _
  rw [parentOf, if_neg hheight] at hp
  rw [verifyPowAndParents, if_neg (Nat.not_lt.mpr htarget), hwork]
  simp only [if_neg hheight, hc.getBlockAtHeight_of_storedBlock hp, if_pos hfits]
  rw [compareWork, if_pos htotal, ite_self]

end P2Chain

end ShaP2Pool
