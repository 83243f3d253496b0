import ShaP2Pool.Proof.Termination

/-!
# Panics

A panic takes the process with it: the call that adds a block does not return. What makes the
verification of one stored block panic is said here of the chain it starts from, and a call returns
exactly if none of its visits is of that kind. The work that a block, its uncles and its parent
claim is then never added up to more than fits: what is too large is answered with
`DifficultyOverflow`.
-/

namespace ShaP2Pool

namespace P2Chain

variable {core : TariCore} {ord : IterOrder} {n height : Nat} {hash : FixedHash}
variable {c c' c₁ : P2Chain} {b b₁ p : P2Block} {w : WalkState} {rest : List (Nat × FixedHash)}

/-! ### The reorg -/

/-- The walk down from a block, whose window has `done + 1` samples, comes within that many rounds
to a block whose parent is absent although there is a level beneath it. -/
def StrandsFrom (c : P2Chain) : Nat → Nat → P2Block → Prop
  | 0, _, _ => False
  | steps + 1, done, b =>
    (difficultyAdjustmentWindow ≤ done → c.chainBlockAt (b.height - 1) ≠ b.prevHash) ∧
      ((c.parentOf b = none ∧ (c.levelAtHeight (b.height - 1)).isSome = true) ∨
        ∃ p, c.parentOf b = some p ∧ p.height ≠ 0 ∧ c.StrandsFrom steps (done + 1) p)

/-- The ancestors of a new tip cannot be linked. At height 0 the walk looks for the parent in the
block's own level. -/
def Strands (c : P2Chain) (b : P2Block) : Prop :=
  (b.height = 0 ∧ c.storedBlock 0 b.prevHash = none) ∨
    (b.height ≠ 0 ∧ c.StrandsFrom (windowRounds c.config) 0 b)

theorem strandsFrom_congr {steps done : Nat} (hc : c.StoresAgree)
    (hparent : c'.parentOf = c.parentOf)
    (hlevels : ∀ height, (c'.levelAtHeight height).isSome = (c.levelAtHeight height).isSome)
    (hmarks : ∀ height < b.height, c'.chainBlockAt height = c.chainBlockAt height)
    (hheight : b.height ≠ 0) : c'.StrandsFrom steps done b ↔ c.StrandsFrom steps done b := by
  induction steps generalizing done b with
  | zero => exact Iff.rfl
  | succ steps ih =>
    rw [StrandsFrom, StrandsFrom, hparent, hlevels, hmarks _ (Nat.sub_one_lt hheight)]
    refine and_congr_right fun _ => or_congr_right (exists_congr fun p => ?_)
    refine and_congr_right fun hp => and_congr_right fun hpheight => ?_
    have hbelow := height_of_parentOf hc hp
    exact ih (fun height hlt => hmarks height (by omega)) hpheight

/-- The walk down from a block above height 0 fails exactly if it strands. -/
theorem relinkAncestors_error_iff {steps : Nat} {lwma : LinearWeightedMovingAverage}
    (hc : c.StoresAgree) (hheight : b.height ≠ 0) (done : Nat)
    (hlength : lwma.items.length = min (difficultyAdjustmentWindow + 1) (done + 1)) :
    (∃ fault, relinkAncestors steps c b.header lwma = .error fault) ↔ c.StrandsFrom steps done b := by
  induction steps generalizing c b lwma done with
  | zero => simp [relinkAncestors, StrandsFrom]
  | succ steps ih =>
    have hfull : lwma.isFull = true ↔ difficultyAdjustmentWindow ≤ done := by
      rw [Window.isFull_iff, hlength]
      omega
    have hopens (h : c.chainBlockAt (b.height - 1) ≠ b.prevHash ∨ lwma.isFull = false) :
        difficultyAdjustmentWindow ≤ done → c.chainBlockAt (b.height - 1) ≠ b.prevHash := by
      intro hdone
      refine h.resolve_right fun hroom => ?_
      rw [hfull.mpr hdone] at hroom
      cases hroom
    have hlookup := header_lookup_eq hc hheight
    have hstep := relinkStep steps c b.header lwma
    generalize relinkAncestors (steps + 1) c b.header lwma = r at hstep
    rw [StrandsFrom]
    cases hstep with
    | noLevel hlevel =>
      have hlevel' : c.levelAtHeight (b.height - 1) = none := hlevel
      have hnone : c.parentOf b = none := by
        rw [getBlockHeaderAtHeight, hlevel, Option.bind_none] at hlookup
        exact Option.map_eq_none_iff.mp hlookup.symm
      simp [hlevel', hnone]
    | full hmark hisFull =>
      refine iff_of_false (by simp) (fun h => h.1 (hfull.mp hisFull) hmark)
    | bottom _ hzero => exact absurd hzero hheight
    | corrupted hlevel habsent hopen =>
      rw [hlookup, Option.map_eq_none_iff] at habsent
      refine iff_of_true ⟨_, rfl⟩ ⟨hopens hopen, Or.inl ⟨habsent, ?_⟩⟩
      rw [show c.levelAtHeight (b.height - 1) = _ from hlevel]
      rfl
    | @linked next cNext hnext hopen hremarks hmarks =>
      rw [hlookup, Option.map_eq_some_iff] at hnext
      obtain ⟨p, hp, rfl⟩ := hnext
      have hbelow := height_of_parentOf hc hp
      simp only [hp, reduceCtorEq, false_and, false_or, Option.some.injEq, exists_eq_left']
      rw [P2Block.header_height]
      split_ifs with hlast
      · simp [hlast]
      · rw [ih (hremarks.same.storesAgree hc) hlast (done + 1) ?_,
          strandsFrom_congr hc hremarks.same.parentOf hremarks.same.levelAtHeight_isSome
            (fun height hlt => ?_) hlast]
        · exact ⟨fun h => ⟨hopens hopen, hlast, h⟩, fun h => h.2.2⟩
        · rw [hmarks, if_neg (by rw [P2Block.header_height]; omega)]
        · rw [Window.length_pushFront, hlength]
          omega

theorem relinkAncestors_bottom_iff {steps : Nat} {lwma : LinearWeightedMovingAverage}
    (hc : c.StoresAgree) (hb : c.storedBlock 0 b.hash = some b) (hheight : b.height = 0)
    (hmark : c.chainBlockAt 0 = b.hash) :
    (∃ fault, relinkAncestors (steps + 1) c b.header lwma = .error fault) ↔
      c.storedBlock 0 b.prevHash = none := by
  have hzero : b.header.height - 1 = 0 := by
    rw [P2Block.header_height, hheight]
  have hlookup : c.getBlockHeaderAtHeight (b.header.height - 1) b.header.prevHash =
      (c.storedBlock 0 b.prevHash).map P2Block.header := by
    rw [hzero, P2Block.header_prevHash, hc.getBlockHeaderAtHeight_eq]
  have hstep := relinkStep steps c b.header lwma
  generalize relinkAncestors (steps + 1) c b.header lwma = r at hstep
  have hself (h : c.chainBlockAt (b.header.height - 1) = b.header.prevHash) :
      c.storedBlock 0 b.prevHash ≠ none := by
    rw [hzero, hmark, P2Block.header_prevHash] at h
    rw [← h, hb]
    exact Option.some_ne_none b
  cases hstep with
  | noLevel hlevel =>
    obtain ⟨level, hfind, -⟩ := hc.level_of_storedBlock hb
    rw [hzero, hfind] at hlevel
    cases hlevel
  | full hlinked | bottom hlinked => exact iff_of_false (by simp) (hself hlinked)
  | corrupted _ habsent =>
    rw [hlookup, Option.map_eq_none_iff] at habsent
    exact iff_of_true ⟨_, rfl⟩ habsent
  | linked hnext =>
    have hnextHeight := height_of_getBlockHeaderAtHeight hnext
    rw [hlookup, Option.map_eq_some_iff] at hnext
    obtain ⟨p, hp, -⟩ := hnext
    rw [if_pos (hnextHeight.trans hzero), hp]
    simp

/-- A reorg fails exactly if the levels above the new tip go up to the end, or if it strands. -/
theorem reorg_error_iff (hc : c.StoresAgree) (hb : c.storedBlock b.height b.hash = some b) :
    (∃ fault, c.reorg b.header = .error fault) ↔ FullAbove c b.height ∨ c.Strands b := by
  obtain ⟨level, hlevel, -⟩ := hc.level_of_storedBlock hb
  obtain ⟨cStart, hinstalls, heq⟩ := reorg_cases b.header hlevel
  have hfull : FullAbove cStart b.height ↔ FullAbove c b.height :=
    FullAbove.congr hinstalls.same.levelAtHeight_isSome
  rw [heq, ← hfull, P2Block.header_height]
  cases hreset : resetLinksAbove (cStart.levels.size + 1) cStart b.height with
  | error fault => exact iff_of_true ⟨_, rfl⟩ (Or.inl (fullAbove_of_error hreset))
  | ok cReset =>
    have hnotFull : ¬FullAbove cStart b.height := by
      intro h
      rw [error_of_fullAbove h (Nat.lt_succ_of_le h.size_le)] at hreset
      cases hreset
    obtain ⟨hremarks, hmarks⟩ := resetLinksAbove_spec hreset
    have hsame := hinstalls.same.trans hremarks.same
    have hcReset := hsame.storesAgree hc
    -- below the new tip and at its height the marks are those of the installed tip
    have hkept (height : Nat) (hle : height ≤ b.height) :
        cReset.chainBlockAt height = if height = b.height then b.hash else c.chainBlockAt height := by
      rw [(hmarks height).resolve_right (fun h => absurd h.1 (Nat.not_lt.mpr hle)),
        hinstalls.chainBlockAt, P2Block.header_height, P2Block.header_hash]
    have hrelink : (∃ fault, relinkAncestors (windowRounds cReset.config) cReset b.header
        (Window.empty.pushFront (b.header.timestamp, b.header.targetDifficulty)) = .error fault) ↔
          c.Strands b := by
      rw [Strands, hsame.config]
      by_cases hheight : b.height = 0
      · obtain ⟨steps, hsteps⟩ : ∃ steps, windowRounds c.config = steps + 1 :=
          Nat.exists_eq_add_one.mpr (Nat.lt_of_lt_of_le Nat.zero_lt_one (Nat.le_max_left _ _))
        rw [hsteps, relinkAncestors_bottom_iff hcReset ?_ hheight ?_, hsame.storedBlock]
        · simp [hheight]
        · rw [hsame.storedBlock, ← hheight]
          exact hb
        · rw [hkept 0 (Nat.zero_le _), if_pos hheight.symm]
      · rw [relinkAncestors_error_iff hcReset hheight 0 rfl,
          strandsFrom_congr hc hsame.parentOf hsame.levelAtHeight_isSome
            (fun height hlt => by rw [hkept height hlt.le, if_neg hlt.ne]) hheight]
        simp [hheight]
    rw [← hrelink]
    simp only [hnotFull, false_or]
    cases relinkAncestors (windowRounds cReset.config) cReset b.header
      (Window.empty.pushFront (b.header.timestamp, b.header.targetDifficulty)) <;> simp

/-! ### A visit -/

/-- Visiting the block stored at a height under a hash panics: the heights of its descendants do not
fit and are asked for, a check panics, or it is to be the tip by a reorg that clears levels up to
the end or strands. -/
inductive VisitPanics (core : TariCore) (c : P2Chain) (height : Nat) (hash : FixedHash) : Prop
  | waiting {b : P2Block} (hb : c.storedBlock height hash = some b)
    (hmissing : (c.missingReferences height hash b.prevHash).missingBlocks.size ≠ 0)
    (hheight : u64Max < height + maxUncleAge)
  | checks {b : P2Block} (hb : c.storedBlock height hash = some b)
    (hcomplete : (c.missingReferences height hash b.prevHash).missingBlocks.size = 0)
    (hunverified : b.verified.isVerified = false) (hpanic : ChecksPanic core c b)
  | onTip (hset : SetsNewTip core c height hash) (hnotStart : ¬(c.getTip = none ∧ height = 0))
    (hheight : u64Max < height + maxUncleAge)
  | offTip {b b₁ : P2Block} {c₁ : P2Chain} (hverify : verifyBlock core hash height c = .ok () c₁)
    (hoff : OffTip core c height hash b b₁ c₁) (hheight : u64Max < height + maxUncleAge)
  | reorg {b₁ : P2Block} {c₁ : P2Chain} (hverify : verifyBlock core hash height c = .ok () c₁)
    (hreorgs : ReorgsTo core c height hash b₁ c₁) (hpanic : FullAbove c height ∨ c₁.Strands b₁)

theorem returns_ok {α : Type} (a : α) (c : P2Chain) :
    Returns (EStateM.Result.ok a c : EStateM.Result Fault P2Chain α) :=
  .of_ok rfl

theorem not_returns_panic {α : Type} (q : Panic) (c : P2Chain) :
    ¬Returns (EStateM.Result.error (.panic q) c : EStateM.Result Fault P2Chain α) :=
  fun h => h q c rfl

theorem descendants_returns_iff (ord : IterOrder) (n height : Nat) (hash : FixedHash) (c' : P2Chain)
    (result : ChainAddResult) :
    Returns ((do let next ← EStateM.ofExcept (c'.getAllChildrenAndNephews ord n height hash)
                 return (result, next) : ChainM _) c') ↔ height + maxUncleAge ≤ u64Max := by
  obtain ⟨hfits, hnext⟩ | ⟨hheight, hnext⟩ := descendants_cases ord n height hash c' result
  · rw [hnext]
    exact iff_of_true (returns_ok _ _) hfits
  · rw [hnext]
    exact iff_of_false (not_returns_panic _ _) (Nat.not_le.mpr hheight)

theorem extendTip_returns_iff (hc : c.StoresAgree) (hb : c.storedBlock height hash = some b)
    (huncles : c.checkUncles b.uncles = .ok ()) :
    Returns (extendTip ord n height hash b.header c) ↔ height + maxUncleAge ≤ u64Max := by
  obtain ⟨c₂, -, hset⟩ := setNewTip_spec hc hb
  have heq : extendTip ord n height hash b.header c =
      (do let next ← EStateM.ofExcept (c₂.cleanupChain.getAllChildrenAndNephews ord n height hash)
          return (ChainAddResult.setNewTip {} hash height, next) : ChainM _) c₂.cleanupChain := by
    rw [extendTip]
    simp only [EStateM.bind_apply, EStateM.get_apply]
    rw [show b.header.uncles = b.uncles from rfl, huncles]
    simp only [EStateM.ofExcept_ok, hset]
  rw [heq]
  exact descendants_returns_iff ord n height hash _ _

def FindsReorg (c : P2Chain) (block : P2BlockHeader) : Prop :=
  ∃ result, c.scanAncestors (windowRounds c.config) block {} = .ok (true, result) ∧
    result.missingBlocks.size = 0 ∧ c.totalAccumulatedTipDifficulty < block.totalPow

theorem checkReorg_returns_iff (hc : c.StoresAgree) (hb : c.storedBlock height hash = some b) :
    Returns (checkReorg ord n height hash b.header c) ↔ height + maxUncleAge ≤ u64Max ∧
      (FindsReorg c b.header → ¬(FullAbove c height ∨ c.Strands b)) := by
  obtain ⟨level, hlevel, -⟩ := hc.level_of_storedBlock hb
  obtain rfl := hc.height_of_storedBlock hb
  obtain rfl := hc.hash_of_storedBlock hb
  obtain ⟨⟨allVerified, result⟩, hscan⟩ := scanAncestors_ok (windowRounds c.config) {}
    (show (c.levelAtHeight b.header.height).isSome = true by rw [P2Block.header_height, hlevel]; rfl)
  have hfinds : FindsReorg c b.header ↔ allVerified = true ∧ result.missingBlocks.size = 0 ∧
      c.totalAccumulatedTipDifficulty < b.header.totalPow := by
    simp only [FindsReorg, hscan, Except.ok.injEq, Prod.mk.injEq]
    constructor
    · intro ⟨_, ⟨hall, heq⟩, hnone, hpow⟩
      exact ⟨hall, heq ▸ hnone, hpow⟩
    · intro ⟨hall, hnone, hpow⟩
      exact ⟨result, ⟨hall, rfl⟩, hnone, hpow⟩
  rw [checkReorg]
  simp only [EStateM.bind_apply, EStateM.get_apply, hscan, EStateM.ofExcept_ok]
  by_cases hblocked : allVerified = true ∧ result.missingBlocks.size = 0
  · rw [if_neg (by simp [hblocked.1, hblocked.2])]
    by_cases hpow : c.totalAccumulatedTipDifficulty < b.header.totalPow
    · have hfind : FindsReorg c b.header := hfinds.mpr ⟨hblocked.1, hblocked.2, hpow⟩
      have herror := reorg_error_iff hc hb
      rw [if_pos hpow, ← herror]
      cases hreorg : c.reorg b.header with
      | error fault =>
        obtain ⟨q, rfl⟩ := reorg_error hreorg
        exact iff_of_false (not_returns_panic _ _) (fun h => h.2 hfind ⟨_, rfl⟩)
      | ok c₂ =>
        have hnext := descendants_returns_iff ord n b.height b.hash c₂
          (result.setNewTip b.hash b.height)
        simp only [EStateM.bind_apply, EStateM.ofExcept_ok, EStateM.set_apply] at hnext ⊢
        rw [hnext]
        simp
    · have hfind : ¬FindsReorg c b.header := fun h => hpow (hfinds.mp h).2.2
      rw [if_neg hpow]
      simp only [hfind, false_implies, and_true]
      exact descendants_returns_iff ord n b.height b.hash c result
  · have hfind : ¬FindsReorg c b.header := fun h => hblocked ⟨(hfinds.mp h).1, (hfinds.mp h).2.1⟩
    have hcond : (!allVerified || result.missingBlocks.size != 0) = true := by
      rw [Bool.or_eq_true, Bool.not_eq_true', bne_iff_ne, ← Bool.not_eq_true]
      exact not_and_or.mp hblocked
    rw [if_pos hcond]
    simp only [hfind, false_implies, and_true]
    exact descendants_returns_iff ord n b.height b.hash c result

theorem OffTip.reorgsTo_iff (hoff : OffTip core c height hash b b₁ c₁) :
    ReorgsTo core c height hash b₁ c₁ ↔ FindsReorg c₁ b₁.header := by
  constructor
  · intro ⟨_, result, hcandidate, hpow⟩
    exact ⟨result, hcandidate.scan, hcandidate.noneMissing, hpow⟩
  · intro ⟨result, hscan, hnone, hpow⟩
    exact ⟨b, result, ⟨hoff, hscan, hnone⟩, hpow⟩

/-- Once the block is checked, the rest of the visit panics on the tip or off it. -/
theorem Checked.returns_iff (hc : c.StoresAgree) (hv : Checked core c height hash b b₁ c₁)
    (hverify : verifyBlock core hash height c = .ok () c₁) :
    Returns (verifyChainInner core ord n height hash c) ↔
      (¬(c₁.getTip = none ∧ height = 0) → b₁.verified.isVerified = true →
        (c₁.buildsOnTip b₁.header = true → c₁.checkUncles b₁.uncles = .ok () →
          height + maxUncleAge ≤ u64Max) ∧
        (c₁.buildsOnTip b₁.header = false → height + maxUncleAge ≤ u64Max ∧
          (FindsReorg c₁ b₁.header → ¬(FullAbove c₁ height ∨ c₁.Strands b₁)))) := by
  have hc₁ := hv.storesAgree hc
  have hstored := hv.storedBlock_self hc
  rw [verifyChainInner_of_verifyBlock ord n hc hv hverify]
  by_cases hstart : c₁.getTip = none ∧ height = 0
  · obtain ⟨c₂, -, hset⟩ := setNewTip_spec hc₁ hstored
    rw [if_pos hstart, EStateM.bind_apply, hset]
    exact iff_of_true (returns_ok _ _) (fun h => absurd hstart h)
  rw [if_neg hstart]
  cases hverified : b₁.verified.isVerified with
  | false =>
    rw [if_pos (by simp)]
    exact iff_of_true (returns_ok _ _) (fun _ h => by cases h)
  | true =>
    rw [if_neg (by simp)]
    cases honTip : c₁.buildsOnTip b₁.header with
    | true =>
      rw [if_pos rfl]
      cases huncles : c₁.checkUncles b₁.uncles with
      | error fault =>
        obtain ⟨e, rfl⟩ := checkUncles_error huncles
        have herror : extendTip ord n height hash b₁.header c₁ = .error (.error e) c₁ := by
          rw [extendTip]
          simp only [EStateM.bind_apply, EStateM.get_apply]
          rw [show b₁.header.uncles = b₁.uncles from rfl, huncles]
          rfl
        rw [herror]
        refine iff_of_true (.of_error rfl) fun _ _ => ⟨fun _ h => ?_, fun h => ?_⟩
        · cases h
        · cases h
      | ok _ =>
        rw [extendTip_returns_iff hc₁ hstored huncles]
        simp [hstart]
    | false =>
      rw [if_neg (by simp), checkReorg_returns_iff hc₁ hstored]
      simp [hstart]

theorem verifyChainInner_of_refused {fault : Fault} (ord : IterOrder) (n : Nat) (hc : c.StoresAgree)
    (hb : c.storedBlock height hash = some b)
    (hcomplete : (c.missingReferences height hash b.prevHash).missingBlocks.size = 0)
    (hunverified : b.verified.isVerified = false) (hchecks : c.runChecks core b = .error fault) :
    verifyChainInner core ord n height hash c = .error fault c := by
  obtain ⟨b₁, c₁, -, hchecked⟩ | ⟨-, fault', hchecks', hverify⟩ := verifyBlock_spec core hc hb hcomplete
  · obtain ⟨hverified, -⟩ | ⟨-, v, hpassed, -⟩ := hchecked.written
    · rw [hunverified] at hverified
      cases hverified
    · rw [hchecks] at hpassed
      cases hpassed
  · rw [hchecks, Except.error.injEq] at hchecks'
    subst hchecks'
    rw [verifyChainInner]
    simp only [EStateM.bind_apply, EStateM.get_apply, hc.getParentOf_eq, hb, Option.map_some,
      EStateM.ofOption_some]
    rw [if_neg (by simp [hcomplete])]
    simp only [EStateM.bind_apply, hverify]

theorem VisitPanics.not_returns (hc : c.StoresAgree) (hpanics : VisitPanics core c height hash) :
    ¬Returns (verifyChainInner core ord n height hash c) := by
  intro hreturns
  cases hpanics with
  | waiting hb hmissing hheight =>
    rw [verifyChainInner_of_incomplete core ord n hc hb hmissing, descendants_returns_iff] at hreturns
    exact absurd hheight (Nat.not_lt.mpr hreturns)
  | checks hb hcomplete hunverified hpanic =>
    obtain ⟨q, hq⟩ := runChecks_panic_iff.mpr hpanic
    exact hreturns q c (verifyChainInner_of_refused ord n hc hb hcomplete hunverified hq)
  | onTip hset hnotStart hheight =>
    obtain ⟨b, v, hb, hcomplete, hstatus, -⟩ := id hset
    obtain ⟨b₁, c₁, hverify, hchecked⟩ | ⟨hunverified, fault, hchecks, -⟩ :=
      verifyBlock_spec core hc hb hcomplete
    · rw [← hchecked.getTip_eq_none_iff] at hnotStart
      obtain ⟨hverified, honTip, huncles⟩ :=
        ((hchecked.setsNewTip_iff hc).mp hset).resolve_left hnotStart
      have hfits := ((hchecked.returns_iff hc hverify).mp hreturns hnotStart hverified).1 honTip huncles
      exact absurd hheight (Nat.not_lt.mpr hfits)
    · exact absurd hset (not_setsNewTip_of_refused hb hunverified hchecks)
  | offTip hverify hoff hheight =>
    have hfits := ((hoff.toChecked.returns_iff hc hverify).mp hreturns hoff.notStart hoff.verified).2
      hoff.offTip
    exact absurd hheight (Nat.not_lt.mpr hfits.1)
  | reorg hverify hreorgs hpanic =>
    obtain ⟨b, result, hcandidate, -⟩ := id hreorgs
    have hoff := hcandidate.toOffTip
    rw [← FullAbove.congr (hoff.toChecked.levelAtHeight_isSome hc)] at hpanic
    have hfine := ((hoff.toChecked.returns_iff hc hverify).mp hreturns hoff.notStart hoff.verified).2
      hoff.offTip
    exact hfine.2 (hoff.reorgsTo_iff.mp hreorgs) hpanic

/-- A verification returns exactly if it is none of these. -/
theorem verifyChainInner_returns_iff (hc : c.StoresAgree) :
    Returns (verifyChainInner core ord n height hash c) ↔ ¬VisitPanics core c height hash := by
  refine ⟨fun h hpanics => hpanics.not_returns hc h, fun hnone => ?_⟩
  cases hstored : c.storedBlock height hash with
  | none =>
    refine .of_error (e := .blockNotFound) (c := c) ?_
    rw [verifyChainInner]
    simp only [EStateM.bind_apply, EStateM.get_apply, hc.getParentOf_eq, hstored, Option.map_none,
      EStateM.ofOption_none]
  | some b =>
    by_cases hmissing : (c.missingReferences height hash b.prevHash).missingBlocks.size = 0
    · obtain ⟨b₁, c₁, hverify, hchecked⟩ | ⟨hunverified, fault, hchecks, -⟩ :=
        verifyBlock_spec core hc hstored hmissing
      · refine (hchecked.returns_iff hc hverify).mpr fun hnotStart hverified =>
          ⟨fun honTip huncles => ?_, fun hoffTip => ?_⟩
        · by_contra hheight
          refine hnone (VisitPanics.onTip ((hchecked.setsNewTip_iff hc).mpr
            (Or.inr ⟨hverified, honTip, huncles⟩)) ?_ (Nat.not_le.mp hheight))
          rwa [← hchecked.getTip_eq_none_iff]
        · have hoff : OffTip core c height hash b b₁ c₁ := ⟨hchecked, hnotStart, hverified, hoffTip⟩
          refine ⟨?_, fun hfinds hpanic => ?_⟩
          · by_contra hheight
            exact hnone (VisitPanics.offTip hverify hoff (Nat.not_le.mp hheight))
          · rw [FullAbove.congr (hchecked.levelAtHeight_isSome hc)] at hpanic
            exact hnone (VisitPanics.reorg hverify (hoff.reorgsTo_iff.mpr hfinds) hpanic)
      · rw [verifyChainInner_of_refused ord n hc hstored hmissing hunverified hchecks]
        cases fault with
        | error e => exact .of_error rfl
        | panic q =>
          exact absurd (VisitPanics.checks hstored hmissing hunverified
            (runChecks_panic_iff.mp ⟨q, hchecks⟩)) hnone
    · rw [verifyChainInner_of_incomplete core ord n hc hstored hmissing, descendants_returns_iff]
      by_contra hheight
      exact hnone (VisitPanics.waiting hstored hmissing (Nat.not_le.mp hheight))

/-! ### Work that does not fit -/

/-- An uncle whose work counts: it is cached and its difficulties are verified. -/
def UncleCounts (c : P2Chain) (uncle : Nat × FixedHash) : Prop :=
  ∃ x, c.getBlockAtHeight uncle.1 uncle.2 = some x ∧ x.verified.targetDifficulty = true ∧
    x.verified.difficulty = true

def cachedUncleWork (c : P2Chain) (uncles : List (Nat × FixedHash)) : Nat :=
  (uncles.map fun uncle => ((c.getBlockAtHeight uncle.1 uncle.2).map (·.targetDifficulty)).getD 0).sum

def cachedParentWork (c : P2Chain) (b : P2Block) : Nat :=
  if b.height = 0 then 0
  else ((c.getBlockAtHeight (b.height - 1) b.prevHash).map (·.totalPow)).getD 0

/-- The first check adds up the work of the block, its uncles and its parent, and it does not
fit. -/
structure WorkTooLarge (c : P2Chain) (b : P2Block) : Prop where
  unknown : (b.verified.parents || c.config.bypassChecks.parents) = false
  target : 1 ≤ b.targetDifficulty ∧ b.targetDifficulty ≤ u64Max
  uncles : ∀ uncle ∈ b.uncles, UncleCounts c uncle
  tooLarge : u128Max < b.targetDifficulty + c.cachedUncleWork b.uncles + c.cachedParentWork b

/-- Visited blocks whose work does not fit are reported as such. -/
def ReportsOverflow (core : TariCore) (ord : IterOrder) (c : P2Chain) (b : P2Block) : Prop :=
  ∀ w height hash rest x, Visits core ord b c w → w.nextLevel = (height, hash) :: rest →
    w.chain.storedBlock height hash = some x →
    (w.chain.missingReferences height hash x.prevHash).missingBlocks.size = 0 →
    x.verified.isVerified = false → WorkTooLarge w.chain x →
    addBlockToChain core ord b c = .error (.error .difficultyOverflow) w.chain

theorem addUncleWork_of_counts {uncles : List (Nat × FixedHash)} {total : Nat} (htotal : total ≤ u128Max)
    (hcount : ∀ uncle ∈ uncles, UncleCounts c uncle) : c.addUncleWork uncles total =
      if total + c.cachedUncleWork uncles ≤ u128Max then .ok (some (total + c.cachedUncleWork uncles))
      else .error (.error .difficultyOverflow) := by
  induction uncles generalizing total with
  | nil => rw [addUncleWork, cachedUncleWork, List.map_nil, List.sum_nil, Nat.add_zero, if_pos htotal]
  | cons uncle rest ih =>
    obtain ⟨height, hash⟩ := uncle
    obtain ⟨x, hx, htarget, hdifficulty⟩ := hcount _ List.mem_cons_self
    have hsum : c.cachedUncleWork ((height, hash) :: rest) =
        x.targetDifficulty + c.cachedUncleWork rest := by
      rw [cachedUncleWork, List.map_cons, List.sum_cons, hx]
      rfl
    rw [addUncleWork, hx, hsum, ← Nat.add_assoc]
    simp only [htarget, hdifficulty, Bool.not_true, Bool.or_self, Bool.false_eq_true, if_false,
      checkedAddDifficulty]
    by_cases hfits : total + x.targetDifficulty ≤ u128Max
    · rw [if_pos hfits]
      exact ih hfits fun uncle huncle => hcount uncle (List.mem_cons_of_mem _ huncle)
    · rw [if_neg hfits, if_neg fun h => hfits ((Nat.le_add_right _ _).trans h)]

theorem WorkTooLarge.verifyPowAndParents_eq (hwork : WorkTooLarge c b) (hfits : ¬WorkOverflows c b) :
    c.verifyPowAndParents b = .error (.error .difficultyOverflow) := by
  have hover := hwork.tooLarge
  have hsum := addUncleWork_of_counts (hwork.target.2.trans (by decide)) hwork.uncles
  rw [verifyPowAndParents, if_neg (by rw [hwork.unknown]; exact Bool.false_ne_true),
    if_neg (Nat.not_lt.mpr hwork.target.1), hsum]
  by_cases hown : b.targetDifficulty + c.cachedUncleWork b.uncles ≤ u128Max
  · -- only the work of the parent can be too much now, and that is the overflow
    rw [cachedParentWork] at hover
    split_ifs at hover with hheight
    · exact absurd hover (Nat.not_lt.mpr hown)
    cases hp : c.getBlockAtHeight (b.height - 1) b.prevHash with
    | none =>
      rw [hp] at hover
      exact absurd hover (Nat.not_lt.mpr hown)
    | some p =>
      rw [hp] at hover
      rw [if_pos hown] at hsum
      exact absurd ⟨hwork.unknown, hwork.target.1, hheight, _, p, hsum, hp, hover⟩ hfits
  · rw [if_neg hown]

/-! ### The call -/

/-- The levels and the cache agree wherever the walk passes. -/
theorem Visits.storesAgree (hvisits : Visits core ord b c w) (hc : c.StoresAgree)
    (hunused : ∀ old, c.blockCache.find? b.hash = some old → old.height = b.height) :
    w.chain.StoresAgree :=
  hvisits.inv (I := StoresAgree) (fun _ hw => hw.storesAgree hc hunused)
    fun _ _ _ _ _ _ hI hreturns => (outcome_verifyChainInner core ord _ _ _ hI).storesAgree hI hreturns

theorem returns_of_visits (h : ∀ w height hash rest, Visits core ord b c w →
    w.nextLevel = (height, hash) :: rest →
    Returns (verifyChainInner core ord w.numProcessed height hash w.chain)) :
    Returns (addBlockToChain core ord b c) := by
  intro q c' hcall
  by_cases hallowed : ParentIsUncle b
  · rw [addBlockToChain_of_parentIsUncle core ord c hallowed] at hcall
    cases hcall
  obtain ⟨c₀, hinsert, -⟩ := Writes.of_insertBlock c b
  obtain ⟨fuel, hleaves⟩ := verifyChain_leaves core ord c₀ b.height b.hash
  obtain ⟨w, hreach, hexit⟩ := exists_exit_of_runLoop hleaves
  rw [← addBlockToChain_eq core ord hallowed hinsert, hcall] at hexit
  obtain ⟨-, heq⟩ | ⟨height, hash, rest, hqueue, hlast⟩ := verifyChainStep_inr hexit
  · cases heq
  obtain ⟨fault, chain, hinner, heq⟩ | ⟨_, _, _, -, -, heq⟩ := hlast
  · cases heq
    exact h w height hash rest ⟨hallowed, c₀, hinsert, hreach⟩ hqueue q c' hinner
  · cases heq

/-- A call returns, and reports the work that does not fit, exactly if none of its visits panics. -/
theorem no_overflow_iff (hc : c.StoresAgree)
    (hunused : ∀ old, c.blockCache.find? b.hash = some old → old.height = b.height) :
    (Returns (addBlockToChain core ord b c) ∧ ReportsOverflow core ord c b) ↔
      ∀ w height hash rest, Visits core ord b c w → w.nextLevel = (height, hash) :: rest →
        ¬VisitPanics core w.chain height hash := by
  constructor
  · intro ⟨hreturns, _⟩ w height hash rest hvisits hqueue
    exact (verifyChainInner_returns_iff (hvisits.storesAgree hc hunused)).mp
      (hvisits.returns hreturns hqueue)
  · intro hfine
    refine ⟨returns_of_visits fun w height hash rest hvisits hqueue =>
      (verifyChainInner_returns_iff (hvisits.storesAgree hc hunused)).mpr
        (hfine w height hash rest hvisits hqueue), ?_⟩
    intro w height hash rest x hvisits hqueue hx hcomplete hunverified hwork
    have hpow := hwork.verifyPowAndParents_eq fun hover => hfine w height hash rest hvisits hqueue
      (VisitPanics.checks hx hcomplete hunverified (ChecksPanic.work hover))
    have hinner := verifyChainInner_of_refused ord w.numProcessed (hvisits.storesAgree hc hunused) hx
      hcomplete hunverified ((@runChecks_error_iff core _ _ _).mpr (Or.inl hpow))
    refine hvisits.exit_eq ?_
    rw [verifyChainStep, hqueue]
    simp only [hinner]

def boastfulOrphan : P2Block := sampleBlock 6 77 5 u128Max

/-- Two ways to crash: a block two heights below the end whose parent is missing, and the child of
an orphan whose claimed work leaves no room. -/
theorem overflow_crashes :
    (∃ c', addBlockToChain sampleCore IterOrder.stored (sampleBlock 5 77 (u64Max - 2) 1)
        (newEmpty (sampleConfig 10)) = .error (.panic .overflow) c') ∧
      ∃ hist c b c', Run sampleCore (sampleConfig 10) Unrestricted hist c ∧
        b.hash ≠ FixedHash.zero ∧ (∀ a ∈ hist, a.hash ≠ b.hash) ∧
        addBlockToChain sampleCore IterOrder.stored b c = .error (.panic .overflow) c' :=
  ⟨⟨_, eq_error_of_faultOf (by decide +kernel)⟩, [boastfulOrphan],
    addAll sampleCore .stored [boastfulOrphan] (newEmpty (sampleConfig 10)), sampleBlock 7 6 6 1, _,
    Run.of_blocks IterOrder.stored (fun _ _ _ => true) (fun _ _ _ _ => trivial) [boastfulOrphan]
      (by decide +kernel), by decide, by decide, eq_error_of_faultOf (by decide +kernel)⟩

def visitReturns (core : TariCore) (ord : IterOrder) (w : WalkState) : Bool :=
  match w.nextLevel with
  | [] => true
  | (height, hash) :: _ => returns (verifyChainInner core ord w.numProcessed height hash w.chain)

theorem no_overflow_branch :
    Returns (addBlockToChain sampleCore IterOrder.stored branchBlock branchChain) ∧
      ReportsOverflow sampleCore IterOrder.stored branchChain branchBlock := by
  have hr := run_branchChain.recorded
  have hunused := hr.unused (b := branchBlock) (by decide)
  refine (no_overflow_iff hr.agree hunused).mpr fun w height hash rest hvisits hqueue => ?_
  have htest := @of_visitsAll _ _ _ _ (visitReturns sampleCore .stored) _ (by decide) hvisits
  rw [visitReturns, hqueue] at htest
  exact (verifyChainInner_returns_iff (hvisits.storesAgree hr.agree hunused)).mp (returns_iff.mp htest)

end P2Chain

end ShaP2Pool
