import ShaP2Pool.Proof.Walk

/-!
# What a check leaves alone

The flags that a check writes change neither the main chain nor what the uncle checks see. The
search for a reorg does not fail on a stored block, and the reorg itself fails only by a panic.
-/

namespace ShaP2Pool

namespace P2Chain

variable {core : TariCore} {ord : IterOrder} {config : ChainConfig} {n height : Nat}
variable {hash : FixedHash} {c c' c'' c₀ c₁ c₂ : P2Chain} {b b₁ : P2Block} {hist : List P2Block}
variable {P : List P2Block → P2Chain → IterOrder → P2Block → Prop}

/-- The two chains have one main chain: the tip's height, the mark of every level and the
difficulty window. -/
structure SameMainChain (c c' : P2Chain) : Prop where
  currentTip : c'.currentTip = c.currentTip
  chainBlockAt : ∀ height, c'.chainBlockAt height = c.chainBlockAt height
  lwma : c'.lwma = c.lwma

theorem SameMainChain.trans (h : SameMainChain c c') (h' : SameMainChain c' c'') :
    SameMainChain c c'' :=
  ⟨h'.currentTip.trans h.currentTip,
    fun height => (h'.chainBlockAt height).trans (h.chainBlockAt height), h'.lwma.trans h.lwma⟩

theorem SameMainChain.symm (h : SameMainChain c c') : SameMainChain c' c :=
  ⟨h.currentTip.symm, fun height => (h.chainBlockAt height).symm, h.lwma.symm⟩

theorem Checked.sameMainChain (hv : Checked core c height hash b b₁ c₁) : SameMainChain c c₁ :=
  ⟨hv.currentTip, hv.chainBlockAt, hv.lwma⟩

/-- The uncle checks read the blocks without their flags and the marks. -/
theorem checkUncles_congr
    (hblocks : ∀ height hash, (c'.getBlockAtHeight height hash).map P2Block.withoutStatus =
      (c.getBlockAtHeight height hash).map P2Block.withoutStatus)
    (hlevels : ∀ height, (c'.levelAtHeight height).map (·.chainBlock) =
      (c.levelAtHeight height).map (·.chainBlock)) (uncles : List (Nat × FixedHash)) :
    c'.checkUncles uncles = c.checkUncles uncles := by
  -- two lookups that agree up to the flags are both absent or find blocks of one content
  have hlookup (height : Nat) (hash : FixedHash) :
      (c'.getBlockAtHeight height hash = none ∧ c.getBlockAtHeight height hash = none) ∨
        ∃ x' x, c'.getBlockAtHeight height hash = some x' ∧
          c.getBlockAtHeight height hash = some x ∧ x'.withoutStatus = x.withoutStatus := by
    have := hblocks height hash
    cases hx' : c'.getBlockAtHeight height hash <;> cases hx : c.getBlockAtHeight height hash <;>
      simp_all
  have hlevel (height : Nat) : (c'.levelAtHeight height = none ∧ c.levelAtHeight height = none) ∨
      ∃ l' l, c'.levelAtHeight height = some l' ∧ c.levelAtHeight height = some l ∧
        l'.chainBlock = l.chainBlock := by
    have := hlevels height
    cases hx' : c'.levelAtHeight height <;> cases hx : c.levelAtHeight height <;> simp_all
  induction uncles with
  | nil => rfl
  | cons uncle rest ih =>
    obtain ⟨height, hash⟩ := uncle
    rw [checkUncles, checkUncles]
    rcases hlookup height hash with ⟨h', h⟩ | ⟨x', x, h', h, hcontent⟩
    · rw [h', h]
    · have hheight : x'.height = x.height := field_eq P2Block.height (fun _ _ => rfl) hcontent
      have hprev : x'.prevHash = x.prevHash := field_eq P2Block.prevHash (fun _ _ => rfl) hcontent
      simp only [h', h, getParentBlock, hheight, hprev]
      by_cases hzero : x.height = 0
      · simp only [if_pos hzero]
      · simp only [if_neg hzero]
        rcases hlookup (x.height - 1) x.prevHash with ⟨hp', hp⟩ | ⟨y', y, hp', hp, hparent⟩
        · rw [hp', hp]
        · simp only [hp', hp, hash_of_withoutStatus hparent]
          rcases hlevel (height - 1) with ⟨hl', hl⟩ | ⟨l', l, hl', hl, hmark⟩
          · rw [hl', hl]
          · simp only [hl', hl, hmark]
            rcases hlevel height with ⟨ho', ho⟩ | ⟨o', o, ho', ho, hown⟩
            · rw [ho', ho]
            · simp only [ho', ho, hown, ih]

theorem Checked.find?_eq (hc : c.StoresAgree) (hv : Checked core c height hash b b₁ c₁)
    (hash' : FixedHash) : c₁.blockCache.find? hash' =
      if hash' = hash then some b₁ else c.blockCache.find? hash' := by
  rcases hv.written with ⟨-, rfl, rfl⟩ | ⟨-, v, -, -, hwrites⟩
  · split_ifs with heq
    · rw [heq]
      exact (hc.storedBlock_eq_some_iff.mp hv.stored).1
    · rfl
  · rw [hwrites.cache, KeyedMap.find?_insert, hv.hash_eq hc]

theorem Checked.getBlockAtHeight_eq (hc : c.StoresAgree)
    (hv : Checked core c height hash b b₁ c₁) (height' : Nat) (hash' : FixedHash) :
    (c₁.getBlockAtHeight height' hash').map P2Block.withoutStatus =
      (c.getBlockAtHeight height' hash').map P2Block.withoutStatus := by
  have hlevels := hv.levelAtHeight_isSome hc height'
  rw [getBlockAtHeight, getBlockAtHeight]
  cases hl₁ : c₁.levelAtHeight height' <;> cases hl : c.levelAtHeight height' <;>
    simp only [hl₁, hl, Option.isSome_none, Option.isSome_some, Bool.false_eq_true,
      Bool.true_eq_false] at hlevels
  · rfl
  · simp only [Option.bind_some, hv.find?_eq hc]
    split_ifs with heq
    · rw [heq, (hc.storedBlock_eq_some_iff.mp hv.stored).1, Option.map_some, Option.map_some,
        hv.withoutStatus_eq]
    · rfl

theorem Checked.mark_eq (hc : c.StoresAgree) (hv : Checked core c height hash b b₁ c₁)
    (height' : Nat) : (c₁.levelAtHeight height').map (·.chainBlock) =
      (c.levelAtHeight height').map (·.chainBlock) := by
  have hlevels := hv.levelAtHeight_isSome hc height'
  have hmark := hv.chainBlockAt height'
  rw [P2Chain.chainBlockAt, P2Chain.chainBlockAt] at hmark
  cases hl₁ : c₁.levelAtHeight height' <;> cases hl : c.levelAtHeight height' <;> simp_all

theorem Checked.checkUncles_eq (hc : c.StoresAgree) (hv : Checked core c height hash b b₁ c₁)
    (uncles : List (Nat × FixedHash)) : c₁.checkUncles uncles = c.checkUncles uncles :=
  checkUncles_congr (hv.getBlockAtHeight_eq hc) (hv.mark_eq hc) uncles

/-- The search for a reorg does not fail on a stored block. -/
theorem scanAncestors_ok (steps : Nat) {current : P2BlockHeader} (result : ChainAddResult)
    (hstored : (c.levelAtHeight current.height).isSome = true) :
    ∃ r, c.scanAncestors steps current result = .ok r := by
  induction steps generalizing current with
  | zero => exact ⟨_, rfl⟩
  | succ steps ih =>
    rw [scanAncestors]
    by_cases hheight : current.height = 0
    · exact ⟨_, if_pos hheight⟩
    · rw [if_neg hheight]
      cases hparent : c.getBlockHeaderAtHeight (current.height - 1) current.prevHash with
      | none => exact ⟨_, rfl⟩
      | some parent =>
        obtain ⟨level, hlevel⟩ := Option.isSome_iff_exists.mp hstored
        have hparentLevel : (c.levelAtHeight parent.height).isSome = true := by
          obtain ⟨parentLevel, hparentLevel, -⟩ := Option.bind_eq_some_iff.mp hparent
          rw [height_of_getBlockHeaderAtHeight hparent, hparentLevel]
          rfl
        simp only [hlevel]
        split_ifs
        · exact ⟨_, rfl⟩
        · exact ⟨_, rfl⟩
        · exact ⟨_, rfl⟩
        · exact ih hparentLevel

theorem Checked.level_isSome (hc : c.StoresAgree) (hv : Checked core c height hash b b₁ c₁) :
    (c₁.levelAtHeight b₁.header.height).isSome = true := by
  change (c₁.levelAtHeight b₁.height).isSome = true
  obtain ⟨level, hlevel, -⟩ :=
    (hv.storesAgree hc).level_of_storedBlock (hv.storedBlock_self hc)
  rw [hv.height_eq hc, hlevel]
  rfl

theorem resetLinksAbove_error {rounds : Nat} {fault : Fault}
    (h : resetLinksAbove rounds c height = .error fault) : fault = .panic .overflow := by
  induction rounds generalizing c height with
  | zero => simp [resetLinksAbove] at h
  | succ rounds ih =>
    rw [resetLinksAbove] at h
    cases hlevel : c.levelAtHeight (saturatingAdd height 1) with
    | none => simp [hlevel] at h
    | some level =>
      simp only [hlevel] at h
      split_ifs at h
      · exact (Except.error.inj h).symm
      · exact ih h

theorem relinkAncestors_error {steps : Nat} {current : P2BlockHeader}
    {lwma : LinearWeightedMovingAverage} {fault : Fault}
    (h : relinkAncestors steps c current lwma = .error fault) : fault = .panic .corruptedChain := by
  induction steps generalizing c current lwma with
  | zero => simp [relinkAncestors] at h
  | succ steps ih =>
    have hstep := relinkStep steps c current lwma
    rw [h] at hstep
    generalize hr : (Except.error fault :
      Except Fault (P2Chain × LinearWeightedMovingAverage)) = r at hstep
    cases hstep with
    | noLevel | full | bottom => cases hr
    | corrupted => exact Except.error.inj hr
    | linked =>
      split_ifs at hr
      exact ih hr.symm

theorem reorg_error {block : P2BlockHeader} {fault : Fault} (h : c.reorg block = .error fault) :
    ∃ p, fault = .panic p := by
  cases hlevel : c.levelAtHeight block.height with
  | none =>
    simp only [reorg, hlevel] at h
    exact ⟨_, (Except.error.inj h).symm⟩
  | some level =>
    obtain ⟨cStart, -, heq⟩ := reorg_cases block hlevel
    rw [heq] at h
    cases hreset : resetLinksAbove (cStart.levels.size + 1) cStart block.height with
    | error fault' =>
      simp only [hreset, Except.error.injEq] at h
      exact ⟨_, h ▸ resetLinksAbove_error hreset⟩
    | ok cReset =>
      simp only [hreset] at h
      cases hrelink : relinkAncestors (windowRounds cReset.config) cReset block
          (Window.empty.pushFront (block.timestamp, block.targetDifficulty)) with
      | error fault' =>
        simp only [hrelink, Except.error.injEq] at h
        exact ⟨_, h ▸ relinkAncestors_error hrelink⟩
      | ok linked => simp [hrelink] at h

end P2Chain

end ShaP2Pool
