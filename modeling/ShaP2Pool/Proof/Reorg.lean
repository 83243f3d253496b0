import ShaP2Pool.Proof.Outcome

/-!
# What a reorg changes

A reorg marks the new tip, resets the marks above it and walks down from it, marking its ancestors
and collecting the samples of the difficulty window. Neither loop touches a stored block.
-/

namespace ShaP2Pool

namespace P2Chain

variable {c c' c'' : P2Chain} {height : Nat} {hash : FixedHash} {b : P2Block}

/-- `c'` is `c` with other marks. -/
structure Remarks (c c' : P2Chain) : Prop where
  same : SameBlocks c c'
  cachedShares : c'.cachedShares = c.cachedShares
  currentTip : c'.currentTip = c.currentTip
  lwma : c'.lwma = c.lwma

theorem Remarks.refl (c : P2Chain) : Remarks c c := ⟨SameBlocks.refl c, rfl, rfl, rfl⟩

theorem Remarks.trans (h : Remarks c c') (h' : Remarks c' c'') : Remarks c c'' :=
  ⟨h.same.trans h'.same, h'.cachedShares.trans h.cachedShares, h'.currentTip.trans h.currentTip,
    h'.lwma.trans h.lwma⟩

theorem Remarks.putMark {level : P2ChainLevel} (hlevel : c.levelAtHeight height = some level)
    (hash : FixedHash) : Remarks c (c.putLevel (level.setChainBlock hash)) := by
  refine ⟨SameBlocks.putMark ?_ hash, rfl, rfl, rfl⟩
  rw [height_of_levelAtHeight hlevel, hlevel]

theorem chainBlockAt_putMark' {level : P2ChainLevel} (hlevel : c.levelAtHeight height = some level)
    (hash : FixedHash) (height' : Nat) :
    (c.putLevel (level.setChainBlock hash)).chainBlockAt height' =
      if height' = height then hash else c.chainBlockAt height' := by
  rw [chainBlockAt_putMark, height_of_levelAtHeight hlevel]

theorem chainBlockAt_of_level {level : P2ChainLevel} (hlevel : c.levelAtHeight height = some level) :
    c.chainBlockAt height = level.chainBlock := by
  rw [chainBlockAt, hlevel]
  rfl

/-- The reset loop only clears marks above the height it starts from. -/
theorem resetLinksAbove_spec {rounds : Nat} (h : resetLinksAbove rounds c height = .ok c') :
    Remarks c c' ∧ ∀ height', c'.chainBlockAt height' = c.chainBlockAt height' ∨
      (height < height' ∧ c'.chainBlockAt height' = FixedHash.zero) := by
  induction rounds generalizing c height with
  | zero =>
    cases h
    exact ⟨Remarks.refl _, fun _ => Or.inl rfl⟩
  | succ rounds ih =>
    rw [resetLinksAbove] at h
    cases hlevel : c.levelAtHeight (saturatingAdd height 1) with
    | none =>
      rw [hlevel] at h
      cases h
      exact ⟨Remarks.refl _, fun _ => Or.inl rfl⟩
    | some level =>
      rw [hlevel] at h
      simp only at h
      split_ifs at h with hfits
      have hnext : saturatingAdd height 1 = height + 1 := Nat.min_eq_left (by omega)
      obtain ⟨hremarks, hmarks⟩ := ih h
      refine ⟨(Remarks.putMark hlevel FixedHash.zero).trans hremarks, fun height' => ?_⟩
      rcases hmarks height' with heq | ⟨habove, hzero⟩
      · rw [heq, chainBlockAt_putMark' hlevel, hnext]
        split_ifs with hat
        · exact Or.inr ⟨by omega, rfl⟩
        · exact Or.inl rfl
      · exact Or.inr ⟨by omega, hzero⟩

/-- One round of the walk down from a new tip, with the rounds after it as `rest`. -/
inductive RelinkStep (c : P2Chain) (current : P2BlockHeader) (lwma : LinearWeightedMovingAverage)
    (rest : P2Chain → P2BlockHeader → LinearWeightedMovingAverage →
      Except Fault (P2Chain × LinearWeightedMovingAverage)) :
    Except Fault (P2Chain × LinearWeightedMovingAverage) → Prop
  | noLevel (hlevel : c.levelAtHeight (current.height - 1) = none) :
    RelinkStep c current lwma rest (.ok (c, lwma))
  | full (hmark : c.chainBlockAt (current.height - 1) = current.prevHash)
    (hfull : lwma.isFull = true) : RelinkStep c current lwma rest (.ok (c, lwma))
  | bottom (hmark : c.chainBlockAt (current.height - 1) = current.prevHash)
    (hheight : current.height = 0) : RelinkStep c current lwma rest (.ok (c, lwma))
  | corrupted {level : P2ChainLevel} (hlevel : c.levelAtHeight (current.height - 1) = some level)
    (habsent : c.getBlockHeaderAtHeight (current.height - 1) current.prevHash = none)
    (hopen : c.chainBlockAt (current.height - 1) ≠ current.prevHash ∨ lwma.isFull = false)
    (hnotBottom : c.chainBlockAt (current.height - 1) ≠ current.prevHash ∨ current.height ≠ 0) :
    RelinkStep c current lwma rest (.error (.panic .corruptedChain))
  | linked {next : P2BlockHeader} {c' : P2Chain}
    (hnext : c.getBlockHeaderAtHeight (current.height - 1) current.prevHash = some next)
    (hopen : c.chainBlockAt (current.height - 1) ≠ current.prevHash ∨ lwma.isFull = false)
    (hremarks : Remarks c c')
    (hmarks : ∀ height, c'.chainBlockAt height =
      if height = current.height - 1 then current.prevHash else c.chainBlockAt height) :
    RelinkStep c current lwma rest
      (if next.height = 0 then .ok (c', lwma.pushFront (next.timestamp, next.targetDifficulty))
       else rest c' next (lwma.pushFront (next.timestamp, next.targetDifficulty)))

theorem relinkStep (steps : Nat) (c : P2Chain) (current : P2BlockHeader)
    (lwma : LinearWeightedMovingAverage) :
    RelinkStep c current lwma (relinkAncestors steps) (relinkAncestors (steps + 1) c current lwma) := by
  rw [relinkAncestors]
  cases hlevel : c.levelAtHeight (current.height - 1) with
  | none => exact RelinkStep.noLevel hlevel
  | some level =>
    have hlookup : c.getBlockHeaderAtHeight (current.height - 1) current.prevHash =
        level.getHeader current.prevHash := by
      rw [getBlockHeaderAtHeight, hlevel]
      rfl
    have hmark := chainBlockAt_of_level hlevel
    simp only
    by_cases hlink : current.prevHash = level.chainBlock
    · have hlinked : c.chainBlockAt (current.height - 1) = current.prevHash := by rw [hmark, hlink]
      rw [if_neg (not_not.mpr hlink)]
      cases hfull : lwma.isFull with
      | true => exact RelinkStep.full hlinked hfull
      | false =>
        rw [if_pos (by rfl)]
        cases hnext : level.getHeader current.prevHash with
        | none =>
          simp only
          by_cases hheight : current.height = 0
          · rw [if_pos hheight]
            exact RelinkStep.bottom hlinked hheight
          · rw [if_neg hheight]
            exact RelinkStep.corrupted hlevel (hlookup.trans hnext) (Or.inr hfull) (Or.inr hheight)
        | some next =>
          refine RelinkStep.linked (hlookup.trans hnext) (Or.inr hfull) (Remarks.refl c)
            (fun height => ?_)
          split_ifs with heq
          · rw [heq, hlinked]
          · rfl
    · rw [if_pos hlink]
      cases hnext : level.getHeader current.prevHash with
      | none =>
        have hunlinked : c.chainBlockAt (current.height - 1) ≠ current.prevHash := by
          rw [hmark]
          exact Ne.symm hlink
        exact RelinkStep.corrupted hlevel (hlookup.trans hnext) (Or.inl hunlinked) (Or.inl hunlinked)
      | some next =>
        exact RelinkStep.linked (hlookup.trans hnext)
          (Or.inl (by rw [hmark]; exact Ne.symm hlink)) (Remarks.putMark hlevel _)
          (chainBlockAt_putMark' hlevel _)

/-- The walk down from the new tip only marks stored blocks. -/
theorem relinkAncestors_spec {steps : Nat} {current : P2BlockHeader}
    {lwma lwma' : LinearWeightedMovingAverage}
    (h : relinkAncestors steps c current lwma = .ok (c', lwma')) :
    Remarks c c' ∧ ∀ height', c'.chainBlockAt height' = c.chainBlockAt height' ∨
      ∃ header, c.getBlockHeaderAtHeight height' (c'.chainBlockAt height') = some header := by
  induction steps generalizing c current lwma with
  | zero =>
    cases h
    exact ⟨Remarks.refl _, fun _ => Or.inl rfl⟩
  | succ steps ih =>
    have hstep := relinkStep steps c current lwma
    rw [h] at hstep
    generalize hr : (Except.ok (c', lwma') : Except Fault _) = r at hstep
    cases hstep with
    | noLevel | full | bottom =>
      cases hr
      exact ⟨Remarks.refl _, fun _ => Or.inl rfl⟩
    | corrupted => cases hr
    | @linked next cNext hnext _ hremarks hmarks =>
      -- the marks of the chain with one more ancestor linked
      have hone (height' : Nat) : cNext.chainBlockAt height' = c.chainBlockAt height' ∨
          ∃ header, c.getBlockHeaderAtHeight height' (cNext.chainBlockAt height') =
            some header := by
        have := hmarks height'
        split_ifs at this with heq
        · exact Or.inr ⟨next, by rw [this, heq]; exact hnext⟩
        · exact Or.inl this
      split_ifs at hr
      · cases hr
        exact ⟨hremarks, hone⟩
      · obtain ⟨hrest, hmarks'⟩ := ih hr.symm
        refine ⟨hremarks.trans hrest, fun height' => ?_⟩
        rcases hmarks' height' with heq | ⟨header, hheader⟩
        · rw [heq]
          exact hone height'
        · rw [hremarks.same.getBlockHeaderAtHeight] at hheader
          exact Or.inr ⟨header, hheader⟩

theorem relinkAncestors_above {steps : Nat} {current : P2BlockHeader}
    {lwma lwma' : LinearWeightedMovingAverage}
    (h : relinkAncestors steps c current lwma = .ok (c', lwma')) (hheight : current.height ≠ 0)
    (hge : current.height ≤ height) : c'.chainBlockAt height = c.chainBlockAt height := by
  induction steps generalizing c current lwma with
  | zero =>
    cases h
    rfl
  | succ steps ih =>
    have hstep := relinkStep steps c current lwma
    rw [h] at hstep
    generalize hr : (Except.ok (c', lwma') : Except Fault _) = r at hstep
    cases hstep with
    | noLevel | full | bottom =>
      cases hr
      rfl
    | corrupted => cases hr
    | @linked next cNext hnext _ _ hmarks =>
      have hone : cNext.chainBlockAt height = c.chainBlockAt height := by
        rw [hmarks, if_neg (by omega)]
      split_ifs at hr with hlast
      · cases hr
        exact hone
      · have hnextHeight := height_of_getBlockHeaderAtHeight hnext
        rw [ih hr.symm hlast (by omega), hone]

theorem relinkAncestors_bottom {steps : Nat} {current : P2BlockHeader}
    {lwma lwma' : LinearWeightedMovingAverage}
    (h : relinkAncestors steps c current lwma = .ok (c', lwma')) (hheight : current.height = 0) :
    c'.chainBlockAt 0 = c.chainBlockAt 0 ∨ c'.chainBlockAt 0 = current.prevHash := by
  cases steps with
  | zero =>
    cases h
    exact Or.inl rfl
  | succ steps =>
    have hstep := relinkStep steps c current lwma
    rw [h] at hstep
    generalize hr : (Except.ok (c', lwma') : Except Fault _) = r at hstep
    cases hstep with
    | noLevel | full | bottom =>
      cases hr
      exact Or.inl rfl
    | corrupted => cases hr
    | @linked next cNext hnext _ _ hmarks =>
      have hnextHeight := height_of_getBlockHeaderAtHeight hnext
      rw [if_pos (by omega)] at hr
      cases hr
      exact Or.inr (by rw [hmarks, if_pos (by omega)])

/-- `c` with `b` marked and made the tip, as a reorg does first. -/
structure Installs (c : P2Chain) (b : P2BlockHeader) (c' : P2Chain) : Prop where
  same : SameBlocks c c'
  cachedShares : c'.cachedShares = none
  currentTip : c'.currentTip = b.height
  chainBlockAt : ∀ height, c'.chainBlockAt height =
    if height = b.height then b.hash else c.chainBlockAt height

/-- The two loops of a reorg. -/
theorem reorg_cases (block : P2BlockHeader) {level : P2ChainLevel}
    (hlevel : c.levelAtHeight block.height = some level) :
    ∃ cStart, Installs c block cStart ∧ c.reorg block =
      (match resetLinksAbove (cStart.levels.size + 1) cStart block.height with
      | .error fault => .error fault
      | .ok cReset =>
        match relinkAncestors (windowRounds cReset.config) cReset block
            (Window.empty.pushFront (block.timestamp, block.targetDifficulty)) with
        | .error fault => .error fault
        | .ok (cLinked, lwma) => .ok { cLinked with lwma := lwma }) := by
  have hput := Remarks.putMark hlevel block.hash
  refine ⟨{ c.putLevel (level.setChainBlock block.hash) with
      cachedShares := none
      currentTip := block.height }, ⟨⟨hput.same.config, hput.same.cache, hput.same.headers⟩, rfl,
      rfl, chainBlockAt_putMark' hlevel block.hash⟩, ?_⟩
  rw [reorg, hlevel]
  simp only [bind, Except.bind, pure, Except.pure]
  cases hreset : resetLinksAbove _ _ block.height with
  | error fault => rfl
  | ok cReset =>
    simp only
    cases relinkAncestors (windowRounds cReset.config) cReset block
      (Window.empty.pushFront (block.timestamp, block.targetDifficulty)) <;> rfl

/-- A reorg that succeeds has gone through its two loops. -/
theorem exists_of_reorg (block : P2BlockHeader) {level : P2ChainLevel}
    (hlevel : c.levelAtHeight block.height = some level) (h : c.reorg block = .ok c') :
    ∃ cStart cReset cLinked lwma, Installs c block cStart ∧
      resetLinksAbove (cStart.levels.size + 1) cStart block.height = .ok cReset ∧
      relinkAncestors (windowRounds cReset.config) cReset block
        (Window.empty.pushFront (block.timestamp, block.targetDifficulty)) =
          .ok (cLinked, lwma) ∧ c' = { cLinked with lwma := lwma } := by
  obtain ⟨cStart, hinstalls, heq⟩ := reorg_cases block hlevel
  rw [heq] at h
  cases hreset : resetLinksAbove (cStart.levels.size + 1) cStart block.height with
  | error fault => simp [hreset] at h
  | ok cReset =>
    simp only [hreset] at h
    cases hrelink : relinkAncestors (windowRounds cReset.config) cReset block
        (Window.empty.pushFront (block.timestamp, block.targetDifficulty)) with
    | error fault => simp [hrelink] at h
    | ok linked =>
      simp only [hrelink, Except.ok.injEq] at h
      exact ⟨cStart, cReset, linked.1, linked.2, hinstalls, hreset, hrelink, h.symm⟩

/-- What a reorg to `block` does to the chain, whatever its loops found. -/
structure Reorganises (c : P2Chain) (block : P2BlockHeader) (c' : P2Chain) : Prop where
  same : SameBlocks c c'
  cachedShares : c'.cachedShares = none
  currentTip : c'.currentTip = block.height
  tipMark : c'.chainBlockAt block.height = block.hash ∨
    (block.height = 0 ∧ c'.chainBlockAt 0 = block.prevHash)
  marks : ∀ height, c'.chainBlockAt height ≠ FixedHash.zero →
    c'.chainBlockAt height = c.chainBlockAt height ∨
      ∃ header, c.getBlockHeaderAtHeight height (c'.chainBlockAt height) = some header

theorem reorganises_of_reorg {block : P2BlockHeader}
    (hblock : c.getBlockHeaderAtHeight block.height block.hash = some block)
    (h : c.reorg block = .ok c') : Reorganises c block c' := by
  obtain ⟨level, hlevel, -⟩ := Option.bind_eq_some_iff.mp hblock
  obtain ⟨cStart, cReset, cLinked, lwma, hinstalls, hreset, hrelink, rfl⟩ := exists_of_reorg block hlevel h
  obtain ⟨hremarks, hmarks⟩ := resetLinksAbove_spec hreset
  obtain ⟨hremarks', hmarks'⟩ := relinkAncestors_spec hrelink
  have hsame := (hinstalls.same.trans hremarks.same).trans hremarks'.same
  refine ⟨⟨hsame.config, hsame.cache, hsame.headers⟩,
    hremarks'.cachedShares.trans (hremarks.cachedShares.trans hinstalls.cachedShares),
    hremarks'.currentTip.trans (hremarks.currentTip.trans hinstalls.currentTip), ?_,
    fun height hne => ?_⟩
  · have hresetTip : cReset.chainBlockAt block.height = block.hash := by
      rcases hmarks block.height with hkept | ⟨habove, -⟩
      · rw [hkept, hinstalls.chainBlockAt, if_pos rfl]
      · omega
    change cLinked.chainBlockAt block.height = block.hash ∨
      (block.height = 0 ∧ cLinked.chainBlockAt 0 = block.prevHash)
    by_cases hheight : block.height = 0
    · rw [hheight] at hresetTip ⊢
      rcases relinkAncestors_bottom hrelink hheight with hkept | hmoved
      · exact Or.inl (hkept.trans hresetTip)
      · exact Or.inr ⟨rfl, hmoved⟩
    · exact Or.inl ((relinkAncestors_above hrelink hheight le_rfl).trans hresetTip)
  change cLinked.chainBlockAt height ≠ FixedHash.zero at hne
  change cLinked.chainBlockAt height = c.chainBlockAt height ∨
    ∃ header, c.getBlockHeaderAtHeight height (cLinked.chainBlockAt height) = some header
  rcases hmarks' height with hkept | ⟨header, hheader⟩
  · rw [hkept] at hne ⊢
    rcases hmarks height with hkept' | ⟨-, hzero⟩
    · rw [hkept', hinstalls.chainBlockAt]
      split_ifs with hat
      · exact Or.inr ⟨block, hat ▸ hblock⟩
      · exact Or.inl rfl
    · exact absurd hzero hne
  · rw [hremarks.same.getBlockHeaderAtHeight, hinstalls.same.getBlockHeaderAtHeight] at hheader
    exact Or.inr ⟨header, hheader⟩

/-! ### Outcomes -/

variable {core : TariCore} {ord : IterOrder} {n : Nat} {b₁ : P2Block} {c₁ c₂ : P2Chain}

theorem tip_stored_of_reorg {block : P2BlockHeader}
    (hblock : c.getBlockHeaderAtHeight block.height block.hash = some block)
    (h : c.reorg block = .ok c') :
    ∃ header, c.getBlockHeaderAtHeight block.height (c'.chainBlockAt block.height) = some header := by
  obtain ⟨level, hlevel, -⟩ := Option.bind_eq_some_iff.mp hblock
  obtain ⟨cStart, cReset, cLinked, lwma, hinstalls, hreset, hlinked, rfl⟩ :=
    exists_of_reorg block hlevel h
  obtain ⟨hresets, hcleared⟩ := resetLinksAbove_spec hreset
  obtain ⟨-, hlinks⟩ := relinkAncestors_spec hlinked
  have hsame : cReset.getBlockHeaderAtHeight = c.getBlockHeaderAtHeight := by
    funext height hash
    rw [hresets.same.getBlockHeaderAtHeight, hinstalls.same.getBlockHeaderAtHeight]
  have hstart : cReset.chainBlockAt block.height = block.hash := by
    rcases hcleared block.height with heq | ⟨habove, -⟩
    · rw [heq, hinstalls.chainBlockAt, if_pos rfl]
    · exact absurd habove (Nat.lt_irrefl _)
  show ∃ header, c.getBlockHeaderAtHeight block.height (cLinked.chainBlockAt block.height) = some header
  rcases hlinks block.height with heq | hstored
  · rw [heq, hstart]
    exact ⟨block, hblock⟩
  · rwa [hsame] at hstored

theorem Checked.header_stored (hc : c.StoresAgree) (hv : Checked core c height hash b b₁ c₁) :
    c₁.getBlockHeaderAtHeight b₁.header.height b₁.header.hash = some b₁.header := by
  change c₁.getBlockHeaderAtHeight b₁.height b₁.hash = some b₁.header
  rw [hv.height_eq hc, hv.hash_eq hc]
  exact (hv.storesAgree hc).header_of_storedBlock (hv.storedBlock_self hc)

theorem Candidate.reorganises {result : ChainAddResult} (hc : c.StoresAgree)
    (hcandidate : Candidate core c height hash b b₁ c₁ result)
    (hreorg : c₁.reorg b₁.header = .ok c₂) : Reorganises c₁ b₁.header c₂ :=
  reorganises_of_reorg (hcandidate.header_stored hc) hreorg

/-- A verification that returns keeps the two stores in agreement. -/
theorem Outcome.storesAgree
    {r : EStateM.Result Fault P2Chain (ChainAddResult × List (Nat × FixedHash))}
    (ho : Outcome core ord n height hash c r) (hc : c.StoresAgree)
    (hreturns : ∀ p c', r ≠ .error (.panic p) c') : r.state.StoresAgree := by
  have hmoved {b b₁ : P2Block} {c₁ c₂ : P2Chain} (hchecked : Checked core c height hash b b₁ c₁)
      (hmoves : MovesTip c₁ b₁ c₂) : c₂.cleanupChain.StoresAgree := by
    have hc₂ := hmoves.same.storesAgree (hchecked.storesAgree hc)
    exact (Prunes.cleanupChain hc₂).storesAgree hc₂
  cases ho with
  | overflow c' => exact absurd rfl (hreturns _ c')
  | absent | waiting | refused => exact hc
  | started hchecked _ _ hmoves | extended hchecked _ _ _ _ hmoves => exact hmoved hchecked hmoves
  | unverified hchecked | badUncles hchecked => exact hchecked.storesAgree hc
  | scanFault hoff | blocked hoff => exact hoff.storesAgree hc
  | stayed hcandidate | reorgFault hcandidate => exact hcandidate.storesAgree hc
  | reorganised hcandidate _ hreorg =>
    exact (hcandidate.reorganises hc hreorg).same.storesAgree (hcandidate.storesAgree hc)

end P2Chain

end ShaP2Pool
