import ShaP2Pool.Proof.Store

/-!
# What one verification can do

`verifyChainInner` looks at one stored block. `Outcome` lists its possible results, each with the
tests that led to it and with the chain it leaves behind, so that no later proof unfolds the
monadic program.
-/

namespace ShaP2Pool

namespace P2Chain

variable {core : TariCore} {ord : IterOrder} {n height : Nat} {hash : FixedHash}
variable {c c' c₁ c₂ : P2Chain} {b b₁ : P2Block}

/-! ### Moving the tip -/

/-- `c'` is `c` with `b` as the tip, before levels are dropped. -/
structure MovesTip (c : P2Chain) (b : P2Block) (c' : P2Chain) : Prop where
  same : SameBlocks c c'
  cachedShares : c'.cachedShares = c.cachedShares
  currentTip : c'.currentTip = b.height
  lwma : c'.lwma = c.lwma.pushBack (b.timestamp, b.targetDifficulty)
  chainBlockAt : ∀ height, c'.chainBlockAt height =
    if height = b.height then b.hash else c.chainBlockAt height
  size : c'.levels.size = c.levels.size

theorem setNewTip_spec (hc : c.StoresAgree) (hb : c.storedBlock height hash = some b) :
    ∃ c', MovesTip c b c' ∧ setNewTip height hash c = .ok () c'.cleanupChain := by
  obtain ⟨level, hlevel, -⟩ := hc.level_of_storedBlock hb
  have hheight := height_of_levelAtHeight hlevel
  have hbHeight := hc.height_of_storedBlock hb
  have hbHash := hc.hash_of_storedBlock hb
  refine ⟨P2Chain.mk c.config c.blockCache c.cachedShares
    (c.levels.insert (level.setChainBlock hash)) level.height
    (c.lwma.pushBack (b.timestamp, b.targetDifficulty)), ⟨?_, rfl, ?_, rfl, ?_, ?_⟩, ?_⟩
  · have hsame : SameBlocks c (c.putLevel (level.setChainBlock hash)) :=
      SameBlocks.putMark (by rw [hheight, hlevel]) hash
    exact ⟨hsame.config, hsame.cache, hsame.headers⟩
  · exact hheight.trans hbHeight.symm
  · intro height'
    have hput := chainBlockAt_putMark c level hash height'
    rw [hheight] at hput
    rw [hbHeight, hbHash]
    exact hput
  · have hfind : c.levels.find? (level.setChainBlock hash).height = some level := by
      rw [show (level.setChainBlock hash).height = level.height from rfl, hheight]
      exact hlevel
    exact KeyedMap.size_insert_of_find? hfind
  · have hlevel' : P2Chain.levelAtHeight
        { c with lwma := c.lwma.pushBack (b.timestamp, b.targetDifficulty) } height =
        some level := hlevel
    rw [setNewTip]
    simp only [EStateM.bind_apply, EStateM.get_apply, hc.getBlockAtHeight_of_storedBlock hb,
      EStateM.ofOption_some, EStateM.set_apply, hlevel']
    rfl

/-! ### Verifying a block -/

/-- `verifyBlock` on a stored block whose references are stored: nothing for a verified block, else
the checks are run and the flags written. -/
structure Checked (core : TariCore) (c : P2Chain) (height : Nat) (hash : FixedHash) (b b₁ : P2Block)
    (c₁ : P2Chain) : Prop where
  stored : c.storedBlock height hash = some b
  complete : (c.missingReferences height hash b.prevHash).missingBlocks.size = 0
  written : (b.verified.isVerified = true ∧ b₁ = b ∧ c₁ = c) ∨
    (b.verified.isVerified = false ∧
      ∃ v, c.runChecks core b = .ok v ∧ b₁ = { b with verified := v } ∧ Writes c b₁ c₁)

def statusAfter (core : TariCore) (c : P2Chain) (b : P2Block) : Except Fault VerifiedStatus :=
  if b.verified.isVerified then .ok b.verified else c.runChecks core b

theorem runChecks_le {v : VerifiedStatus} (h : c.runChecks core b = .ok v) : b.verified.Le v := by
  simp only [runChecks, bind, Except.bind] at h
  repeat' split at h
  all_goals first
    | (cases h; done)
    | (cases h; simp only [VerifiedStatus.Le]; grind)

namespace Checked

variable (hv : Checked core c height hash b b₁ c₁)
include hv

theorem withoutStatus_eq : b₁.withoutStatus = b.withoutStatus := by
  rcases hv.written with ⟨-, rfl, -⟩ | ⟨-, v, -, rfl, -⟩ <;> rfl

theorem verified_le : b.verified.Le b₁.verified := by
  rcases hv.written with ⟨-, rfl, -⟩ | ⟨-, v, hchecks, rfl, -⟩
  · exact VerifiedStatus.Le.refl _
  · exact runChecks_le hchecks

theorem height_eq (hc : c.StoresAgree) : b₁.height = height := by
  have := hc.height_of_storedBlock hv.stored
  rcases hv.written with ⟨-, rfl, -⟩ | ⟨-, v, -, rfl, -⟩ <;> exact this

theorem hash_eq (hc : c.StoresAgree) : b₁.hash = hash := by
  have := hc.hash_of_storedBlock hv.stored
  rcases hv.written with ⟨-, rfl, -⟩ | ⟨-, v, -, rfl, -⟩ <;> exact this

theorem statusAfter_eq : c.statusAfter core b = .ok b₁.verified := by
  rw [statusAfter]
  rcases hv.written with ⟨hverified, rfl, -⟩ | ⟨hunverified, v, hchecks, rfl, -⟩
  · rw [if_pos hverified]
  · rw [if_neg (by simp [hunverified]), hchecks]

private theorem height_of_cached (hc : c.StoresAgree) (old : P2Block)
    (hold : c.blockCache.find? b₁.hash = some old) : old.height = b₁.height := by
  obtain ⟨hfind, hheight⟩ := hc.storedBlock_eq_some_iff.mp hv.stored
  rw [hv.hash_eq hc, hfind, Option.some.injEq] at hold
  rw [← hold, hheight, hv.height_eq hc]

theorem storesAgree (hc : c.StoresAgree) : c₁.StoresAgree := by
  rcases hv.written with ⟨-, rfl, rfl⟩ | ⟨-, v, -, -, hwrites⟩
  · exact hc
  · exact hwrites.storesAgree hc (hv.height_of_cached hc)

theorem storedBlock (hc : c.StoresAgree) (height' : Nat) (hash' : FixedHash) :
    c₁.storedBlock height' hash' =
      if height' = height ∧ hash' = hash then some b₁ else c.storedBlock height' hash' := by
  rcases hv.written with ⟨-, rfl, rfl⟩ | ⟨-, v, -, -, hwrites⟩
  · split_ifs with heq
    · rw [heq.1, heq.2, hv.stored]
    · rfl
  · rw [hwrites.storedBlock hc (hv.height_of_cached hc), hv.height_eq hc, hv.hash_eq hc]

theorem storedBlock_self (hc : c.StoresAgree) : c₁.storedBlock height hash = some b₁ := by
  rw [hv.storedBlock hc, if_pos ⟨rfl, rfl⟩]

/-- Every stored block is stored as before, but possibly with more flags. -/
theorem storedBlock_iff (hc : c.StoresAgree) {height' : Nat} {hash' : FixedHash} {x₁ : P2Block}
    (h : c₁.storedBlock height' hash' = some x₁) : ∃ x, c.storedBlock height' hash' = some x ∧
      x₁.withoutStatus = x.withoutStatus ∧ x.verified.Le x₁.verified := by
  rw [hv.storedBlock hc] at h
  split_ifs at h with heq
  · rw [heq.1, heq.2, ← Option.some.inj h]
    exact ⟨b, hv.stored, hv.withoutStatus_eq, hv.verified_le⟩
  · exact ⟨x₁, h, rfl, VerifiedStatus.Le.refl _⟩

theorem config : c₁.config = c.config := by
  rcases hv.written with ⟨-, -, rfl⟩ | ⟨-, v, -, -, hwrites⟩
  · rfl
  · exact hwrites.config

theorem cachedShares : c₁.cachedShares = c.cachedShares := by
  rcases hv.written with ⟨-, -, rfl⟩ | ⟨-, v, -, -, hwrites⟩
  · rfl
  · exact hwrites.cachedShares

theorem currentTip : c₁.currentTip = c.currentTip := by
  rcases hv.written with ⟨-, -, rfl⟩ | ⟨-, v, -, -, hwrites⟩
  · rfl
  · exact hwrites.currentTip

theorem lwma : c₁.lwma = c.lwma := by
  rcases hv.written with ⟨-, -, rfl⟩ | ⟨-, v, -, -, hwrites⟩
  · rfl
  · exact hwrites.lwma

theorem chainBlockAt (height' : Nat) : c₁.chainBlockAt height' = c.chainBlockAt height' := by
  rcases hv.written with ⟨-, -, rfl⟩ | ⟨-, v, -, -, hwrites⟩
  · rfl
  · exact hwrites.chainBlockAt height'

theorem levelAtHeight_isSome (hc : c.StoresAgree) (height' : Nat) :
    (c₁.levelAtHeight height').isSome = (c.levelAtHeight height').isSome := by
  rcases hv.written with ⟨-, -, rfl⟩ | ⟨-, v, -, -, hwrites⟩
  · rfl
  · rw [hwrites.levels, hv.height_eq hc]
    by_cases heq : height' = height
    · obtain ⟨level, hlevel, -⟩ := hc.level_of_storedBlock hv.stored
      simp [heq, hlevel]
    · simp [heq]

end Checked

/-- Every result of `verifyBlock` on a stored block. -/
theorem verifyBlock_spec (core : TariCore) (hc : c.StoresAgree)
    (hb : c.storedBlock height hash = some b)
    (hcomplete : (c.missingReferences height hash b.prevHash).missingBlocks.size = 0) :
    (∃ b₁ c₁, verifyBlock core hash height c = .ok () c₁ ∧ Checked core c height hash b b₁ c₁) ∨
      (b.verified.isVerified = false ∧ ∃ fault, c.runChecks core b = .error fault ∧
        verifyBlock core hash height c = .error fault c) := by
  obtain ⟨level, hlevel, -⟩ := hc.level_of_storedBlock hb
  obtain ⟨hfind, hheight⟩ := hc.storedBlock_eq_some_iff.mp hb
  rw [verifyBlock]
  simp only [EStateM.bind_apply, EStateM.get_apply, hc.isVerified_of_storedBlock hb,
    EStateM.ofExcept_ok]
  cases hverified : b.verified.isVerified with
  | true => exact Or.inl ⟨b, c, rfl, hb, hcomplete, Or.inl ⟨hverified, rfl, rfl⟩⟩
  | false =>
    simp only [Bool.false_eq_true, if_false, EStateM.bind_apply, hlevel, hfind,
      EStateM.ofOption_some]
    cases hchecks : c.runChecks core b with
    | error fault => exact Or.inr ⟨trivial, fault, rfl, rfl⟩
    | ok v =>
      have hlevel' : c.levelAtHeight ({ b with verified := v } : P2Block).height = some level := by
        rw [← hlevel, ← hheight]
      obtain ⟨c₁, hok, hwrites⟩ := Writes.of_level hlevel'
      refine Or.inl ⟨{ b with verified := v }, c₁, ?_, hb, hcomplete,
        Or.inr ⟨hverified, v, hchecks, rfl, hwrites⟩⟩
      simp only [EStateM.ofExcept_ok, hok, EStateM.set_apply]

/-! ### The outcomes -/

/-- A block that all tests before the search for a reorg let through: it is checked, verified, not a
chain start and does not build on the tip. -/
structure OffTip (core : TariCore) (c : P2Chain) (height : Nat) (hash : FixedHash) (b b₁ : P2Block)
    (c₁ : P2Chain) : Prop extends Checked core c height hash b b₁ c₁ where
  notStart : ¬(c₁.getTip = none ∧ height = 0)
  verified : b₁.verified.isVerified = true
  offTip : c₁.buildsOnTip b₁.header = false

/-- A verified block off the tip whose scanned ancestors are stored and verified. -/
structure Candidate (core : TariCore) (c : P2Chain) (height : Nat) (hash : FixedHash)
    (b b₁ : P2Block) (c₁ : P2Chain) (result : ChainAddResult) : Prop
    extends OffTip core c height hash b b₁ c₁ where
  scan : c₁.scanAncestors (windowRounds c₁.config) b₁.header {} = .ok (true, result)
  noneMissing : result.missingBlocks.size = 0

/-- The results of `verifyChainInner core ord n height hash` on the chain `c`. -/
inductive Outcome (core : TariCore) (ord : IterOrder) (n height : Nat) (hash : FixedHash)
    (c : P2Chain) :
    EStateM.Result Fault P2Chain (ChainAddResult × List (Nat × FixedHash)) → Prop
  | absent (habsent : c.storedBlock height hash = none) :
    Outcome core ord n height hash c (.error (.error .blockNotFound) c)
  /-- the heights of the children and nephews do not fit -/
  | overflow (c' : P2Chain) (hheight : u64Max < height + maxUncleAge) :
    Outcome core ord n height hash c (.error (.panic .overflow) c')
  | waiting {b : P2Block} (hstored : c.storedBlock height hash = some b)
    (hmissing : (c.missingReferences height hash b.prevHash).missingBlocks.size ≠ 0)
    (hfits : height + maxUncleAge ≤ u64Max) :
    Outcome core ord n height hash c
      (.ok (c.missingReferences height hash b.prevHash,
        c.childrenAndNephews ord n height hash) c)
  | refused {b : P2Block} {fault : Fault} (hstored : c.storedBlock height hash = some b)
    (hcomplete : (c.missingReferences height hash b.prevHash).missingBlocks.size = 0)
    (hunverified : b.verified.isVerified = false) (hchecks : c.runChecks core b = .error fault) :
    Outcome core ord n height hash c (.error fault c)
  | started {b b₁ : P2Block} {c₁ c₂ : P2Chain} (hchecked : Checked core c height hash b b₁ c₁)
    (htip : c₁.getTip = none) (hheight : height = 0) (hmoves : MovesTip c₁ b₁ c₂) :
    Outcome core ord n height hash c
      (.ok (ChainAddResult.setNewTip {} hash height, []) c₂.cleanupChain)
  | unverified {b b₁ : P2Block} {c₁ : P2Chain} (hchecked : Checked core c height hash b b₁ c₁)
    (hnotStart : ¬(c₁.getTip = none ∧ height = 0)) (hunverified : b₁.verified.isVerified = false) :
    Outcome core ord n height hash c (.ok ({}, []) c₁)
  | badUncles {b b₁ : P2Block} {c₁ : P2Chain} {fault : Fault}
    (hchecked : Checked core c height hash b b₁ c₁)
    (hnotStart : ¬(c₁.getTip = none ∧ height = 0)) (hverified : b₁.verified.isVerified = true)
    (honTip : c₁.buildsOnTip b₁.header = true) (huncles : c₁.checkUncles b₁.uncles = .error fault) :
    Outcome core ord n height hash c (.error fault c₁)
  | extended {b b₁ : P2Block} {c₁ c₂ : P2Chain} (hchecked : Checked core c height hash b b₁ c₁)
    (hnotStart : ¬(c₁.getTip = none ∧ height = 0)) (hverified : b₁.verified.isVerified = true)
    (honTip : c₁.buildsOnTip b₁.header = true) (huncles : c₁.checkUncles b₁.uncles = .ok ())
    (hmoves : MovesTip c₁ b₁ c₂) (hfits : height + maxUncleAge ≤ u64Max) :
    Outcome core ord n height hash c
      (.ok (ChainAddResult.setNewTip {} hash height,
        c₂.cleanupChain.childrenAndNephews ord n height hash) c₂.cleanupChain)
  | scanFault {b b₁ : P2Block} {c₁ : P2Chain} {fault : Fault}
    (hoff : OffTip core c height hash b b₁ c₁)
    (hscan : c₁.scanAncestors (windowRounds c₁.config) b₁.header {} = .error fault) :
    Outcome core ord n height hash c (.error fault c₁)
  | blocked {b b₁ : P2Block} {c₁ : P2Chain} {allVerified : Bool} {result : ChainAddResult}
    (hoff : OffTip core c height hash b b₁ c₁)
    (hscan : c₁.scanAncestors (windowRounds c₁.config) b₁.header {} = .ok (allVerified, result))
    (hblocked : allVerified = false ∨ result.missingBlocks.size ≠ 0)
    (hfits : height + maxUncleAge ≤ u64Max) :
    Outcome core ord n height hash c
      (.ok (result, c₁.childrenAndNephews ord n height hash) c₁)
  | stayed {b b₁ : P2Block} {c₁ : P2Chain} {result : ChainAddResult}
    (hcandidate : Candidate core c height hash b b₁ c₁ result)
    (hpow : b₁.totalPow ≤ c₁.totalAccumulatedTipDifficulty)
    (hfits : height + maxUncleAge ≤ u64Max) :
    Outcome core ord n height hash c
      (.ok (result, c₁.childrenAndNephews ord n height hash) c₁)
  | reorgFault {b b₁ : P2Block} {c₁ : P2Chain} {result : ChainAddResult} {fault : Fault}
    (hcandidate : Candidate core c height hash b b₁ c₁ result)
    (hpow : c₁.totalAccumulatedTipDifficulty < b₁.totalPow)
    (hreorg : c₁.reorg b₁.header = .error fault) :
    Outcome core ord n height hash c (.error fault c₁)
  | reorganised {b b₁ : P2Block} {c₁ c₂ : P2Chain} {result : ChainAddResult}
    (hcandidate : Candidate core c height hash b b₁ c₁ result)
    (hpow : c₁.totalAccumulatedTipDifficulty < b₁.totalPow)
    (hreorg : c₁.reorg b₁.header = .ok c₂) (hfits : height + maxUncleAge ≤ u64Max) :
    Outcome core ord n height hash c
      (.ok (result.setNewTip hash height, c₂.childrenAndNephews ord n height hash) c₂)

theorem descendants_cases (ord : IterOrder) (n height : Nat) (hash : FixedHash)
    (c' : P2Chain) (result : ChainAddResult) :
    (height + maxUncleAge ≤ u64Max ∧
      (do let next ← EStateM.ofExcept (c'.getAllChildrenAndNephews ord n height hash)
          return (result, next) : ChainM _) c' =
        .ok (result, c'.childrenAndNephews ord n height hash) c') ∨
      (u64Max < height + maxUncleAge ∧
        (do let next ← EStateM.ofExcept (c'.getAllChildrenAndNephews ord n height hash)
            return (result, next) : ChainM _) c' = .error (.panic .overflow) c') := by
  rw [getAllChildrenAndNephews]
  split_ifs with hheight
  · exact Or.inr ⟨hheight, rfl⟩
  · exact Or.inl ⟨Nat.not_lt.mp hheight, rfl⟩

private theorem outcome_extendTip (hc : c.StoresAgree)
    (hchecked : Checked core c height hash b b₁ c₁)
    (hnotStart : ¬(c₁.getTip = none ∧ height = 0)) (hverified : b₁.verified.isVerified = true)
    (honTip : c₁.buildsOnTip b₁.header = true) :
    Outcome core ord n height hash c (extendTip ord n height hash b₁.header c₁) := by
  have hc₁ := hchecked.storesAgree hc
  rw [extendTip]
  simp only [EStateM.bind_apply, EStateM.get_apply]
  cases huncles : c₁.checkUncles b₁.header.uncles with
  | error fault => exact Outcome.badUncles hchecked hnotStart hverified honTip huncles
  | ok _ =>
    obtain ⟨c₂, hmoves, hset⟩ := setNewTip_spec hc₁ (hchecked.storedBlock_self hc)
    simp only [EStateM.ofExcept_ok, hset]
    rcases descendants_cases ord n height hash c₂.cleanupChain
      (ChainAddResult.setNewTip {} hash height) with ⟨hfits, hnext⟩ | ⟨hheight, hnext⟩
    · simp only [EStateM.bind_apply] at hnext
      rw [hnext]
      exact Outcome.extended hchecked hnotStart hverified honTip huncles hmoves hfits
    · simp only [EStateM.bind_apply] at hnext
      rw [hnext]
      exact Outcome.overflow _ hheight

private theorem outcome_checkReorg (hoff : OffTip core c height hash b b₁ c₁) :
    Outcome core ord n height hash c (checkReorg ord n height hash b₁.header c₁) := by
  rw [checkReorg]
  simp only [EStateM.bind_apply, EStateM.get_apply]
  cases hscan : c₁.scanAncestors (windowRounds c₁.config) b₁.header {} with
  | error fault => exact Outcome.scanFault hoff hscan
  | ok scanned =>
    obtain ⟨allVerified, result⟩ := scanned
    simp only [EStateM.ofExcept_ok]
    split_ifs with hblocked hpow
    · have hblocked' : allVerified = false ∨ result.missingBlocks.size ≠ 0 := by
        simpa [bne_iff_ne] using hblocked
      rcases descendants_cases ord n height hash c₁ result with ⟨hfits, hnext⟩ | ⟨hheight, hnext⟩
      · rw [hnext]
        exact Outcome.blocked hoff hscan hblocked' hfits
      · rw [hnext]
        exact Outcome.overflow _ hheight
    · have hclear : allVerified = true ∧ result.missingBlocks.size = 0 := by
        simpa [bne_iff_ne, not_or] using hblocked
      obtain ⟨rfl, hnone⟩ := hclear
      have hcandidate : Candidate core c height hash b b₁ c₁ result := ⟨hoff, hscan, hnone⟩
      simp only [EStateM.bind_apply]
      cases hreorg : c₁.reorg b₁.header with
      | error fault => exact Outcome.reorgFault hcandidate hpow hreorg
      | ok c₂ =>
        simp only [EStateM.ofExcept_ok, EStateM.set_apply]
        rcases descendants_cases ord n height hash c₂
          (result.setNewTip hash height) with ⟨hfits, hnext⟩ | ⟨hheight, hnext⟩
        · simp only [EStateM.bind_apply] at hnext
          rw [hnext]
          exact Outcome.reorganised hcandidate hpow hreorg hfits
        · simp only [EStateM.bind_apply] at hnext
          rw [hnext]
          exact Outcome.overflow _ hheight
    · have hclear : allVerified = true ∧ result.missingBlocks.size = 0 := by
        simpa [bne_iff_ne, not_or] using hblocked
      obtain ⟨rfl, hnone⟩ := hclear
      have hcandidate : Candidate core c height hash b b₁ c₁ result := ⟨hoff, hscan, hnone⟩
      rcases descendants_cases ord n height hash c₁ result with ⟨hfits, hnext⟩ | ⟨hheight, hnext⟩
      · rw [hnext]
        exact Outcome.stayed hcandidate (Nat.not_lt.mp hpow) hfits
      · rw [hnext]
        exact Outcome.overflow _ hheight

theorem verifyChainInner_of_incomplete (core : TariCore) (ord : IterOrder) (n : Nat)
    (hc : c.StoresAgree) (hb : c.storedBlock height hash = some b)
    (hmissing : (c.missingReferences height hash b.prevHash).missingBlocks.size ≠ 0) :
    verifyChainInner core ord n height hash c =
      (do let next ← EStateM.ofExcept (c.getAllChildrenAndNephews ord n height hash)
          return (c.missingReferences height hash b.prevHash, next) : ChainM _) c := by
  rw [verifyChainInner]
  simp only [EStateM.bind_apply, EStateM.get_apply, hc.getParentOf_eq, hb, Option.map_some,
    EStateM.ofOption_some]
  rw [if_pos (by simp [hmissing])]
  rfl

theorem verifyChainInner_of_verifyBlock (ord : IterOrder) (n : Nat) (hc : c.StoresAgree)
    (hv : Checked core c height hash b b₁ c₁) (hverify : verifyBlock core hash height c = .ok () c₁) :
    verifyChainInner core ord n height hash c =
      if c₁.getTip = none ∧ height = 0 then
        (do setNewTip height hash
            return (ChainAddResult.setNewTip {} hash height, []) : ChainM _) c₁
      else if b₁.verified.isVerified = false then .ok ({}, []) c₁
      else if c₁.buildsOnTip b₁.header = true then extendTip ord n height hash b₁.header c₁
      else checkReorg ord n height hash b₁.header c₁ := by
  rw [verifyChainInner]
  simp only [EStateM.bind_apply, EStateM.get_apply, hc.getParentOf_eq, hv.stored, Option.map_some,
    EStateM.ofOption_some]
  rw [if_neg (by simp [hv.complete])]
  simp only [EStateM.bind_apply, hverify, EStateM.get_apply,
    (hv.storesAgree hc).header_of_storedBlock (hv.storedBlock_self hc), EStateM.ofOption_some]
  by_cases hstart : c₁.getTip = none ∧ height = 0
  · rw [if_pos hstart, if_pos (by simp [hstart.1, hstart.2])]
    rfl
  · rw [if_neg hstart, if_neg (by simpa using hstart)]
    have hheader : b₁.header.verified.isVerified = b₁.verified.isVerified := rfl
    rw [hheader]
    cases b₁.verified.isVerified <;> cases c₁.buildsOnTip b₁.header <;> rfl

/-- Every verification ends in one of the outcomes. -/
theorem outcome_verifyChainInner (core : TariCore) (ord : IterOrder) (n height : Nat)
    (hash : FixedHash) (hc : c.StoresAgree) :
    Outcome core ord n height hash c (verifyChainInner core ord n height hash c) := by
  cases hstored : c.storedBlock height hash with
  | none =>
    rw [verifyChainInner]
    simp only [EStateM.bind_apply, EStateM.get_apply, hc.getParentOf_eq, hstored]
    exact Outcome.absent hstored
  | some b =>
    by_cases hmissing : (c.missingReferences height hash b.prevHash).missingBlocks.size = 0
    · obtain ⟨b₁, c₁, hverify, hchecked⟩ | ⟨hunverified, fault, hchecks, hverify⟩ :=
        verifyBlock_spec core hc hstored hmissing
      · rw [verifyChainInner_of_verifyBlock ord n hc hchecked hverify]
        by_cases hstart : c₁.getTip = none ∧ height = 0
        · obtain ⟨c₂, hmoves, hset⟩ :=
            setNewTip_spec (hchecked.storesAgree hc) (hchecked.storedBlock_self hc)
          rw [if_pos hstart]
          simp only [EStateM.bind_apply, hset]
          exact Outcome.started hchecked hstart.1 hstart.2 hmoves
        · rw [if_neg hstart]
          cases hverified : b₁.verified.isVerified with
          | false => exact Outcome.unverified hchecked hstart hverified
          | true =>
            rw [if_neg (by simp)]
            cases honTip : c₁.buildsOnTip b₁.header with
            | true => exact outcome_extendTip hc hchecked hstart hverified honTip
            | false => exact outcome_checkReorg ⟨hchecked, hstart, hverified, honTip⟩
      · rw [verifyChainInner]
        simp only [EStateM.bind_apply, EStateM.get_apply, hc.getParentOf_eq, hstored,
          Option.map_some, EStateM.ofOption_some]
        rw [if_neg (by simp [hmissing])]
        simp only [EStateM.bind_apply, hverify]
        exact Outcome.refused hstored hmissing hunverified hchecks
    · rw [verifyChainInner_of_incomplete core ord n hc hstored hmissing]
      obtain ⟨hfits, hnext⟩ | ⟨hheight, hnext⟩ := descendants_cases ord n height hash c
        (c.missingReferences height hash b.prevHash)
      · rw [hnext]
        exact Outcome.waiting hstored hmissing hfits
      · rw [hnext]
        exact Outcome.overflow _ hheight

theorem verifyChainInner_of_missing (core : TariCore) (ord : IterOrder) (n : Nat)
    (hc : c.StoresAgree) (hb : c.storedBlock height hash = some b)
    (hmissing : (c.missingReferences height hash b.prevHash).missingBlocks.size ≠ 0)
    (hfits : height + maxUncleAge ≤ u64Max) :
    verifyChainInner core ord n height hash c =
      .ok (c.missingReferences height hash b.prevHash, c.childrenAndNephews ord n height hash) c := by
  rw [verifyChainInner_of_incomplete core ord n hc hb hmissing, getAllChildrenAndNephews,
    if_neg (Nat.not_lt.mpr hfits)]
  rfl

end P2Chain

end ShaP2Pool
