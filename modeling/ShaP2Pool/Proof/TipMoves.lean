import ShaP2Pool.Proof.Termination

/-!
# Moves of the tip on any chain

What a verification does to the tip and to the marks of the levels, for chains of which nothing is
known: blocks may have been added twice, share a hash or name each other in a circle. Either both
stay, or the verified block is marked and made the tip, and then the chain is pruned, or there is a
reorg to it. From this follow two facts about every chain that calls can reach: a marked block is
stored, and the tip is not so high that the heights of its children overflow.
-/

namespace ShaP2Pool

namespace P2Chain

variable {core : TariCore} {ord : IterOrder} {config : ChainConfig} {n height : Nat}
variable {hash : FixedHash} {c c' c₀ c₁ c₂ : P2Chain} {block : P2BlockHeader} {b : P2Block}
variable {addResult : ChainAddResult} {next : List (Nat × FixedHash)}

/-! ### Verifications that leave the tip alone -/

/-- `c'` has the levels, stored pairs, marks, tip and difficulty window of `c`. -/
structure KeepsTip (c c' : P2Chain) : Prop where
  config : c'.config = c.config
  currentTip : c'.currentTip = c.currentTip
  lwma : c'.lwma = c.lwma
  chainBlockAt : ∀ height, c'.chainBlockAt height = c.chainBlockAt height
  levels : ∀ height, (c'.levelAtHeight height).isSome = (c.levelAtHeight height).isSome
  pairs : ∀ pair, c'.HasPair pair ↔ c.HasPair pair

namespace KeepsTip

theorem refl (c : P2Chain) : KeepsTip c c :=
  ⟨rfl, rfl, rfl, fun _ => rfl, fun _ => rfl, fun _ => Iff.rfl⟩

theorem trans (h : KeepsTip c c₁) (h' : KeepsTip c₁ c₂) : KeepsTip c c₂ :=
  ⟨h'.config.trans h.config, h'.currentTip.trans h.currentTip, h'.lwma.trans h.lwma,
    fun height => (h'.chainBlockAt height).trans (h.chainBlockAt height),
    fun height => (h'.levels height).trans (h.levels height),
    fun pair => (h'.pairs pair).trans (h.pairs pair)⟩

theorem of_writes (hw : Writes c b c') (hpair : c.HasPair (b.height, b.hash)) : KeepsTip c c' := by
  refine ⟨hw.config, hw.currentTip, hw.lwma, hw.chainBlockAt, fun height => ?_,
    fun ⟨height, hash⟩ => ?_⟩
  · rw [hw.levels]
    by_cases hat : height = b.height
    · obtain ⟨header, hheader⟩ := Option.isSome_iff_exists.mp hpair
      obtain ⟨level, hlevel, -⟩ := Option.bind_eq_some_iff.mp hheader
      simp [hat, hlevel]
    · simp [hat]
  · rw [HasPair, HasPair, hw.headers]
    split_ifs with hat
    · obtain ⟨rfl, rfl⟩ := hat
      exact ⟨fun _ => hpair, fun _ => rfl⟩
    · exact Iff.rfl

theorem verifyBlock (hpair : c.HasPair (height, hash))
    (h : P2Chain.verifyBlock core hash height c = .ok () c') : KeepsTip c c' := by
  obtain ⟨done, -, h⟩ := EStateM.exists_of_ofExcept_bind_eq_ok h
  cases done with
  | true =>
    cases h
    exact refl c
  | false =>
    obtain ⟨level, hlevel, h⟩ := EStateM.exists_of_ofOption_bind_eq_ok h
    obtain ⟨b, hb, h⟩ := EStateM.exists_of_ofOption_bind_eq_ok h
    obtain ⟨v, -, h⟩ := EStateM.exists_of_ofExcept_bind_eq_ok h
    obtain ⟨c₁, hadd, h⟩ := EStateM.exists_of_ofExcept_bind_eq_ok h
    cases h
    have hheight : b.height = height := by
      rw [addToLevel, P2ChainLevel.addBlock] at hadd
      split_ifs at hadd with hsame
      exact hsame.symm.trans (height_of_levelAtHeight hlevel)
    obtain ⟨c₂, hadd', hwrites⟩ :=
      Writes.of_level (b := { b with verified := v }) (hheight ▸ hlevel)
    rw [hadd, Except.ok.injEq] at hadd'
    subst hadd'
    apply of_writes hwrites
    change c.HasPair (b.height, b.hash)
    rwa [hheight, hash_of_cached hb]

theorem verifyBlock_error {fault : Fault}
    (h : P2Chain.verifyBlock core hash height c = .error fault c') : c' = c := by
  obtain ⟨-, heq⟩ | ⟨done, -, h⟩ := EStateM.cases_of_ofExcept_bind_eq_error h
  · exact heq
  cases done with
  | true => cases h
  | false =>
    obtain ⟨-, heq⟩ | ⟨level, -, h⟩ := EStateM.cases_of_ofOption_bind_eq_error h
    · exact heq
    obtain ⟨-, heq⟩ | ⟨b, -, h⟩ := EStateM.cases_of_ofOption_bind_eq_error h
    · exact heq
    obtain ⟨-, heq⟩ | ⟨v, -, h⟩ := EStateM.cases_of_ofExcept_bind_eq_error h
    · exact heq
    obtain ⟨-, heq⟩ | ⟨c₁, -, h⟩ := EStateM.cases_of_ofExcept_bind_eq_error h
    · exact heq
    cases h

end KeepsTip

/-! ### Verifications that move the tip -/

/-- `c'` is `c` with the block under `hash` at `height` as the tip, before levels are dropped. -/
structure Crowns (c : P2Chain) (height : Nat) (hash : FixedHash) (c' : P2Chain) : Prop where
  same : SameBlocks c c'
  currentTip : c'.currentTip = height
  chainBlockAt : ∀ height', c'.chainBlockAt height' =
    if height' = height then hash else c.chainBlockAt height'

theorem crowns_of_setNewTip (h : setNewTip height hash c = .ok () c') :
    ∃ c₁, Crowns c height hash c₁ ∧ c' = c₁.cleanupChain := by
  obtain ⟨b, -, h⟩ := EStateM.exists_of_ofOption_bind_eq_ok h
  obtain ⟨level, hlevel, h⟩ := EStateM.exists_of_ofOption_bind_eq_ok h
  cases h
  have hheight := height_of_levelAtHeight hlevel
  refine ⟨P2Chain.mk c.config c.blockCache c.cachedShares
    (c.levels.insert (level.setChainBlock hash)) level.height
    (c.lwma.pushBack (b.timestamp, b.targetDifficulty)), ⟨?_, hheight, fun height' => ?_⟩, rfl⟩
  · have hsame := SameBlocks.putMark (c := c) (by rw [hheight]; exact hlevel) hash
    exact ⟨hsame.config, hsame.cache, hsame.headers⟩
  · have hput := chainBlockAt_putMark c level hash height'
    rw [hheight] at hput
    exact hput

theorem setNewTip_error {fault : Fault} (h : setNewTip height hash c = .error fault c') :
    c' = c ∧ c.getBlockAtHeight height hash = none := by
  obtain ⟨hnone, heq⟩ | ⟨b, hb, h⟩ := EStateM.cases_of_ofOption_bind_eq_error h
  · exact ⟨heq, hnone⟩
  obtain ⟨level, hlevel, -⟩ := Option.bind_eq_some_iff.mp hb
  obtain ⟨hnone, -⟩ | ⟨level', -, h⟩ := EStateM.cases_of_ofOption_bind_eq_error h
  · rw [show c.levelAtHeight height = none from hnone] at hlevel
    cases hlevel
  · cases h

theorem frame_cleanupLoop (keys : List Nat) (c : P2Chain) :
    (cleanupLoop keys c).config = c.config ∧ (cleanupLoop keys c).currentTip = c.currentTip := by
  induction keys generalizing c with
  | nil => exact ⟨rfl, rfl⟩
  | cons key keys ih =>
    have hremove : (c.removeLevel key).currentTip = c.currentTip := by
      rw [removeLevel]
      cases c.levelAtHeight key <;> rfl
    rw [cleanupLoop]
    split_ifs
    · rw [(ih _).1, (ih _).2, config_removeLevel, hremove]
      exact ⟨rfl, rfl⟩
    · exact ⟨rfl, rfl⟩

theorem config_cleanupChain (c : P2Chain) : c.cleanupChain.config = c.config :=
  (frame_cleanupLoop _ c).1

theorem currentTip_cleanupChain (c : P2Chain) : c.cleanupChain.currentTip = c.currentTip :=
  (frame_cleanupLoop _ c).2

theorem chainBlockAt_cleanupChain (c : P2Chain) (height : Nat) :
    c.cleanupChain.chainBlockAt height =
      if c.levelsAbove height < maxLevels c.config then c.chainBlockAt height
      else FixedHash.zero := by
  rw [chainBlockAt, levelAtHeight_cleanupChain]
  split_ifs <;> rfl

theorem hasPair_cleanupChain {pair : Nat × FixedHash} : c.cleanupChain.HasPair pair ↔
    c.levelsAbove pair.1 < maxLevels c.config ∧ c.HasPair pair := by
  rw [HasPair, getBlockHeaderAtHeight, levelAtHeight_cleanupChain]
  split_ifs with hkept
  · exact ⟨fun h => ⟨hkept, h⟩, fun h => h.2⟩
  · exact ⟨fun h => absurd h Bool.false_ne_true, fun h => absurd h.1 hkept⟩

/-- The block stored at a height under a hash has all it names and passes its checks. `c₁` is the
chain with its flags written and `block` its header there. -/
structure Verifies (core : TariCore) (c : P2Chain) (height : Nat) (hash : FixedHash) (c₁ : P2Chain)
    (block : P2BlockHeader) : Prop where
  complete : ∃ prevHash, c.getParentOf height hash = some prevHash ∧
    (c.missingReferences height hash prevHash).missingBlocks.size = 0
  checked : verifyBlock core hash height c = .ok () c₁
  stored : c₁.getBlockHeaderAtHeight height hash = some block

/-- Looking at the block stored at a height under a hash makes it the tip by `set_new_tip`: it
starts the chain, or it is verified, builds on the tip and has its uncles accepted. -/
def ExtendsTip (core : TariCore) (c : P2Chain) (height : Nat) (hash : FixedHash) : Prop :=
  ∃ c₁ block, Verifies core c height hash c₁ block ∧ ((c₁.getTip = none ∧ height = 0) ∨
    (block.verified.isVerified = true ∧ c₁.buildsOnTip block = true ∧
      c₁.checkUncles block.uncles = .ok ()))

/-- Looking at the block stored at a height under a hash leads to a reorg to it: it is verified and
lies off the tip, its ancestors are found verified as far as they are searched, and it has more work
than the tip. `block` is its header. -/
def OvertakesTip (core : TariCore) (c : P2Chain) (height : Nat) (hash : FixedHash)
    (block : P2BlockHeader) : Prop :=
  ∃ c₁ result, Verifies core c height hash c₁ block ∧ ¬(c₁.getTip = none ∧ height = 0) ∧
    block.verified.isVerified = true ∧ c₁.buildsOnTip block = false ∧
    c₁.scanAncestors (windowRounds c₁.config) block {} = .ok (true, result) ∧
    result.missingBlocks.size = 0 ∧ c₁.totalAccumulatedTipDifficulty < block.totalPow

/-- Looking at the block stored at a height under a hash makes it the tip. -/
def TakesTip (core : TariCore) (c : P2Chain) (height : Nat) (hash : FixedHash) : Prop :=
  ExtendsTip core c height hash ∨ ∃ block, OvertakesTip core c height hash block

theorem Verifies.unique {block' : P2BlockHeader} (h : Verifies core c height hash c₁ block)
    (h' : Verifies core c height hash c₂ block') : c₁ = c₂ ∧ block = block' := by
  have hchecked := h'.checked
  rw [h.checked] at hchecked
  cases hchecked
  have hstored := h'.stored
  rw [h.stored, Option.some.injEq] at hstored
  exact ⟨rfl, hstored⟩

theorem OvertakesTip.not_extendsTip (h : OvertakesTip core c height hash block) :
    ¬ExtendsTip core c height hash := by
  obtain ⟨c₁, result, hverifies, hnotStart, -, hoffTip, -⟩ := h
  intro ⟨c₂, block', hverifies', hcases⟩
  obtain ⟨rfl, rfl⟩ := hverifies.unique hverifies'
  obtain hstart | ⟨-, honTip, -⟩ := hcases
  · exact hnotStart hstart
  · rw [hoffTip] at honTip
    cases honTip

theorem OvertakesTip.unique {block' : P2BlockHeader} (h : OvertakesTip core c height hash block)
    (h' : OvertakesTip core c height hash block') : block = block' := by
  obtain ⟨c₁, _, hverifies, -⟩ := h
  obtain ⟨c₂, _, hverifies', -⟩ := h'
  exact (hverifies.unique hverifies').2

theorem Verifies.takesTip_iff (h : Verifies core c height hash c₁ block) :
    TakesTip core c height hash ↔ (c₁.getTip = none ∧ height = 0) ∨
      (block.verified.isVerified = true ∧
        ((c₁.buildsOnTip block = true ∧ c₁.checkUncles block.uncles = .ok ()) ∨
          (c₁.buildsOnTip block = false ∧ ∃ result,
            c₁.scanAncestors (windowRounds c₁.config) block {} = .ok (true, result) ∧
              result.missingBlocks.size = 0 ∧
              c₁.totalAccumulatedTipDifficulty < block.totalPow))) := by
  constructor
  · rintro (⟨c₂, block', h', hcases⟩ | ⟨block', c₂, result, h', -, hverified, hoffTip, hscan⟩)
    · obtain ⟨rfl, rfl⟩ := h.unique h'
      obtain hstart | ⟨hverified, hextends⟩ := hcases
      · exact Or.inl hstart
      · exact Or.inr ⟨hverified, Or.inl hextends⟩
    · obtain ⟨rfl, rfl⟩ := h.unique h'
      exact Or.inr ⟨hverified, Or.inr ⟨hoffTip, result, hscan⟩⟩
  · intro hcases
    by_cases hstart : c₁.getTip = none ∧ height = 0
    · exact Or.inl ⟨c₁, block, h, Or.inl hstart⟩
    obtain ⟨hverified, hextends | ⟨hoffTip, result, hscan⟩⟩ := hcases.resolve_left hstart
    · exact Or.inl ⟨c₁, block, h, Or.inr ⟨hverified, hextends⟩⟩
    · exact Or.inr ⟨block, c₁, result, h, hstart, hverified, hoffTip, hscan⟩

/-- What a verification that succeeds does to the tip, and the tip that it reports. -/
inductive TipStep (core : TariCore) (c : P2Chain) (height : Nat) (hash : FixedHash) :
    Option (FixedHash × Nat) → P2Chain → Prop
  | kept {c' : P2Chain} (hnot : ¬TakesTip core c height hash) (hkeeps : KeepsTip c c') :
    TipStep core c height hash none c'
  | crowned {c₁ c₂ : P2Chain} (hextends : ExtendsTip core c height hash) (hkeeps : KeepsTip c c₁)
    (hpair : c₁.HasPair (height, hash)) (hcrowns : Crowns c₁ height hash c₂)
    (hlow : height + maxUncleAge ≤ u64Max) :
    TipStep core c height hash (some (hash, height)) c₂.cleanupChain
  | reorganised {c₁ c₂ : P2Chain} {block : P2BlockHeader}
    (hovertakes : OvertakesTip core c height hash block) (hkeeps : KeepsTip c c₁)
    (hblock : c₁.getBlockHeaderAtHeight height hash = some block) (hreorg : c₁.reorg block = .ok c₂)
    (hlow : height + maxUncleAge ≤ u64Max) :
    TipStep core c height hash (some (hash, height)) c₂

/-! ### No report but of the tip -/

theorem newTip_missingUncles (c : P2Chain) (uncles : List (Nat × FixedHash)) (result : ChainAddResult) :
    (c.missingUncles uncles result).newTip = result.newTip := by
  induction uncles generalizing result with
  | nil => rfl
  | cons uncle rest ih =>
    rw [missingUncles]
    split
    · split_ifs
      · exact ih _
      · exact ih _
    · exact ih _

theorem newTip_missingReferences (c : P2Chain) (height : Nat) (hash prevHash : FixedHash) :
    (c.missingReferences height hash prevHash).newTip = none := by
  rw [missingReferences]
  split_ifs
  · rfl
  · exact newTip_missingUncles _ _ _
  · exact newTip_missingUncles _ _ _

theorem newTip_missingBelow (c : P2Chain) (parent : P2BlockHeader) (result : ChainAddResult) :
    (c.missingBelow parent result).newTip = result.newTip := by
  have hfold (uncles : List (Nat × FixedHash)) (result : ChainAddResult) :
      (uncles.foldl (fun result uncle => result.addMissing uncle.2 uncle.1) result).newTip =
        result.newTip := by
    induction uncles generalizing result with
    | nil => rfl
    | cons uncle rest ih => exact ih _
  rw [missingBelow, hfold]
  split_ifs <;> rfl

theorem newTip_scanAncestors {steps : Nat} {result result' : ChainAddResult} {verified : Bool}
    (h : c.scanAncestors steps block result = .ok (verified, result')) :
    result'.newTip = result.newTip := by
  induction steps generalizing block with
  | zero =>
    cases h
    rfl
  | succ steps ih =>
    rw [scanAncestors] at h
    by_cases hzero : block.height = 0
    · rw [if_pos hzero] at h
      cases h
      rfl
    rw [if_neg hzero] at h
    cases hparent : c.getBlockHeaderAtHeight (block.height - 1) block.prevHash with
    | none =>
      rw [hparent] at h
      cases h
      rfl
    | some parent =>
      simp only [hparent] at h
      by_cases hunverified : (!parent.verified.isVerified) = true
      · rw [if_pos hunverified] at h
        cases h
        exact newTip_missingBelow _ _ _
      rw [if_neg hunverified] at h
      by_cases hlast : steps = 0
      · rw [if_pos hlast] at h
        cases h
        rfl
      rw [if_neg hlast] at h
      cases hlevel : c.levelAtHeight block.height with
      | none => simp [hlevel] at h
      | some level =>
        simp only [hlevel] at h
        split_ifs at h
        · cases h
          rfl
        · exact ih h

theorem newTip_setNewTip {result : ChainAddResult} (h : result.newTip = none) :
    (result.setNewTip hash height).newTip = some (hash, height) := by
  rw [ChainAddResult.setNewTip, h]

/-! ### The step -/

theorem low_of_getAllChildrenAndNephews (h : c.getAllChildrenAndNephews ord n height hash = .ok next) :
    height + maxUncleAge ≤ u64Max := by
  rw [getAllChildrenAndNephews] at h
  split_ifs at h with hhigh
  exact Nat.not_lt.mp hhigh

theorem tipStep_of_extendTip (hverifies : Verifies core c height hash c₁ block)
    (hverified : block.verified.isVerified = true) (honTip : c₁.buildsOnTip block = true)
    (hkeeps : KeepsTip c c₁) (h : extendTip ord n height hash block c₁ = .ok (addResult, next) c') :
    TipStep core c height hash addResult.newTip c' := by
  obtain ⟨_, huncles, h⟩ := EStateM.exists_of_ofExcept_bind_eq_ok h
  obtain ⟨_, c₂, hset, h⟩ := EStateM.exists_of_bind_eq_ok h
  obtain ⟨items, hitems, h⟩ := EStateM.exists_of_ofExcept_bind_eq_ok h
  cases h
  obtain ⟨c₃, hcrowns, rfl⟩ := crowns_of_setNewTip hset
  exact TipStep.crowned ⟨c₁, block, hverifies, Or.inr ⟨hverified, honTip, huncles⟩⟩ hkeeps
    (Option.isSome_of_eq_some hverifies.stored) hcrowns (low_of_getAllChildrenAndNephews hitems)

theorem tipStep_of_checkReorg (hverifies : Verifies core c height hash c₁ block)
    (hnotStart : ¬(c₁.getTip = none ∧ height = 0)) (hverified : block.verified.isVerified = true)
    (hoffTip : c₁.buildsOnTip block = false) (hkeeps : KeepsTip c c₁)
    (h : checkReorg ord n height hash block c₁ = .ok (addResult, next) c') :
    TipStep core c height hash addResult.newTip c' := by
  obtain ⟨⟨allVerified, result⟩, hscan, h⟩ := EStateM.exists_of_ofExcept_bind_eq_ok h
  have hnone : result.newTip = none := newTip_scanAncestors hscan
  -- a search that is not passed leaves no way to the tip
  have hstays (hfails : ¬(allVerified = true ∧ result.missingBlocks.size = 0 ∧
      c₁.totalAccumulatedTipDifficulty < block.totalPow)) : ¬TakesTip core c height hash := by
    rw [hverifies.takesTip_iff]
    rintro (hstart | ⟨-, ⟨honTip, -⟩ | ⟨-, result', hscan', hpassed⟩⟩)
    · exact hnotStart hstart
    · rw [hoffTip] at honTip
      cases honTip
    · rw [hscan, Except.ok.injEq, Prod.mk.injEq] at hscan'
      obtain ⟨rfl, rfl⟩ := hscan'
      exact hfails ⟨rfl, hpassed⟩
  simp only at h
  split_ifs at h with hblocked hpow
  · obtain ⟨items, -, h⟩ := EStateM.exists_of_ofExcept_bind_eq_ok h
    cases h
    rw [hnone]
    refine TipStep.kept (hstays ?_) hkeeps
    rintro ⟨rfl, hcomplete, -⟩
    simp [hcomplete] at hblocked
  · have hclear : allVerified = true ∧ result.missingBlocks.size = 0 := by
      simpa [bne_iff_ne, not_or] using hblocked
    obtain ⟨rfl, hcomplete⟩ := hclear
    obtain ⟨c₂, hreorg, h⟩ := EStateM.exists_of_ofExcept_bind_eq_ok h
    obtain ⟨items, hitems, h⟩ := EStateM.exists_of_ofExcept_bind_eq_ok h
    cases h
    rw [newTip_setNewTip hnone]
    exact TipStep.reorganised ⟨c₁, result, hverifies, hnotStart, hverified, hoffTip, hscan, hcomplete,
      hpow⟩ hkeeps hverifies.stored hreorg (low_of_getAllChildrenAndNephews hitems)
  · obtain ⟨items, -, h⟩ := EStateM.exists_of_ofExcept_bind_eq_ok h
    cases h
    rw [hnone]
    exact TipStep.kept (hstays fun hpassed => hpow hpassed.2.2) hkeeps

theorem hasPair_of_getParentOf {prevHash : FixedHash} (h : c.getParentOf height hash = some prevHash) :
    c.HasPair (height, hash) := by
  obtain ⟨level, hlevel, hmapped⟩ := Option.bind_eq_some_iff.mp h
  obtain ⟨header, hheader, -⟩ := Option.map_eq_some_iff.mp hmapped
  rw [HasPair, getBlockHeaderAtHeight, hlevel]
  exact Option.isSome_of_eq_some hheader

/-- A verification that succeeds keeps the tip and reports none, or moves it to its block. -/
theorem tipStep_of_ok (h : verifyChainInner core ord n height hash c = .ok (addResult, next) c') :
    TipStep core c height hash addResult.newTip c' := by
  obtain ⟨prevHash, hprev, h⟩ := EStateM.exists_of_ofOption_bind_eq_ok h
  dsimp only at h
  split_ifs at h with hmissing
  · obtain ⟨items, -, h⟩ := EStateM.exists_of_ofExcept_bind_eq_ok h
    cases h
    rw [newTip_missingReferences]
    refine TipStep.kept (fun htakes => ?_) (KeepsTip.refl _)
    have hcomplete : ∃ prevHash, c.getParentOf height hash = some prevHash ∧
        (c.missingReferences height hash prevHash).missingBlocks.size = 0 := by
      obtain ⟨_, _, hverifies, -⟩ | ⟨_, _, _, hverifies, -⟩ := htakes
      · exact hverifies.complete
      · exact hverifies.complete
    obtain ⟨prevHash', hprev', hnone⟩ := hcomplete
    rw [hprev, Option.some.injEq] at hprev'
    subst hprev'
    simp [hnone] at hmissing
  · obtain ⟨_, c₁, hcheck, h⟩ := EStateM.exists_of_bind_eq_ok h
    obtain ⟨block, hblock, h⟩ := EStateM.exists_of_ofOption_bind_eq_ok h
    have hkeeps := KeepsTip.verifyBlock (hasPair_of_getParentOf hprev) hcheck
    have hverifies : Verifies core c height hash c₁ block :=
      ⟨⟨prevHash, hprev, by simpa [bne_iff_ne] using hmissing⟩, hcheck, hblock⟩
    split_ifs at h with hstart hunverified honTip
    · obtain ⟨_, c₂, hset, h⟩ := EStateM.exists_of_bind_eq_ok h
      cases h
      obtain ⟨c₃, hcrowns, rfl⟩ := crowns_of_setNewTip hset
      have hstart' : c₁.getTip = none ∧ height = 0 := by simpa using hstart
      refine TipStep.crowned ⟨c₁, block, hverifies, Or.inl hstart'⟩ hkeeps
        (Option.isSome_of_eq_some hblock) hcrowns ?_
      rw [hstart'.2]
      decide
    · cases h
      refine TipStep.kept ?_ hkeeps
      rw [hverifies.takesTip_iff]
      rintro (hstart' | ⟨hverified, -⟩)
      · simp [hstart'] at hstart
      · simp [hverified] at hunverified
    · exact tipStep_of_extendTip hverifies (by simpa using hunverified) honTip hkeeps h
    · exact tipStep_of_checkReorg hverifies (by simpa using hstart) (by simpa using hunverified)
        (by simpa using honTip)
        hkeeps h

theorem getAllChildrenAndNephews_error {fault : Fault}
    (h : c.getAllChildrenAndNephews ord n height hash = .error fault) : fault = .panic .overflow := by
  rw [getAllChildrenAndNephews] at h
  split_ifs at h
  cases h
  rfl

/-- A verification that fails without a panic keeps the tip. -/
theorem keepsTip_of_error {e : ShareChainError}
    (h : verifyChainInner core ord n height hash c = .error (.error e) c') : KeepsTip c c' := by
  have hnext {c₁ : P2Chain} (h : c₁.getAllChildrenAndNephews ord n height hash = .error (.error e)) :
      False := by
    cases getAllChildrenAndNephews_error h
  obtain ⟨-, rfl⟩ | ⟨prevHash, hprev, h⟩ := EStateM.cases_of_ofOption_bind_eq_error h
  · exact KeepsTip.refl _
  dsimp only at h
  split_ifs at h
  · obtain ⟨hitems, -⟩ | ⟨items, -, h⟩ := EStateM.cases_of_ofExcept_bind_eq_error h
    · exact (hnext hitems).elim
    · cases h
  obtain hcheck | ⟨_, c₁, hcheck, h⟩ := EStateM.cases_of_bind_eq_error h
  · rw [KeepsTip.verifyBlock_error hcheck]
    exact KeepsTip.refl _
  have hkeeps := KeepsTip.verifyBlock (hasPair_of_getParentOf hprev) hcheck
  obtain ⟨-, rfl⟩ | ⟨block, -, h⟩ := EStateM.cases_of_ofOption_bind_eq_error h
  · exact hkeeps
  split_ifs at h
  · obtain hset | ⟨_, c₂, -, h⟩ := EStateM.cases_of_bind_eq_error h
    · rw [(setNewTip_error hset).1]
      exact hkeeps
    · cases h
  · cases h
  · obtain ⟨-, rfl⟩ | ⟨_, -, h⟩ := EStateM.cases_of_ofExcept_bind_eq_error h
    · exact hkeeps
    obtain hset | ⟨_, c₂, -, h⟩ := EStateM.cases_of_bind_eq_error h
    · rw [(setNewTip_error hset).1]
      exact hkeeps
    obtain ⟨hitems, -⟩ | ⟨items, -, h⟩ := EStateM.cases_of_ofExcept_bind_eq_error h
    · exact (hnext hitems).elim
    · cases h
  · obtain ⟨-, rfl⟩ | ⟨scanned, -, h⟩ := EStateM.cases_of_ofExcept_bind_eq_error h
    · exact hkeeps
    obtain ⟨allVerified, result⟩ := scanned
    simp only at h
    split_ifs at h
    · obtain ⟨hitems, -⟩ | ⟨items, -, h⟩ := EStateM.cases_of_ofExcept_bind_eq_error h
      · exact (hnext hitems).elim
      · cases h
    · obtain ⟨-, rfl⟩ | ⟨c₂, -, h⟩ := EStateM.cases_of_ofExcept_bind_eq_error h
      · exact hkeeps
      obtain ⟨hitems, -⟩ | ⟨items, -, h⟩ := EStateM.cases_of_ofExcept_bind_eq_error h
      · exact (hnext hitems).elim
      · cases h
    · obtain ⟨hitems, -⟩ | ⟨items, -, h⟩ := EStateM.cases_of_ofExcept_bind_eq_error h
      · exact (hnext hitems).elim
      · cases h

end P2Chain

end ShaP2Pool
