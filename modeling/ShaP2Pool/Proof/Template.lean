import ShaP2Pool.Proof.Ancestry

/-!
# Mining templates

What `generate_new_tip_block` promises about its block: where it stands on the chain, the work it
claims, and where the uncles it lists come from. The lookups of the generator go through the block
cache, so the parent of an uncle is known by its hash but not by its height.
-/

namespace ShaP2Pool

namespace P2Chain

variable {core : TariCore} {ord : IterOrder} {config : ChainConfig} {n height : Nat}
variable {hash : FixedHash} {c c' : P2Chain} {b t u : P2Block} {hist : List P2Block}

open InMemoryShareChain

/-! ### The uncles -/

/-- A block the generator lets pass as an uncle of a block at `newHeight`. -/
structure UncleCandidate (c : P2Chain) (newHeight : Nat) (u : P2Block) : Prop where
  stored : c.storedBlock u.height u.hash = some u
  notTooOld : newHeight - maxUncleAge ≤ u.height
  below : u.height < newHeight
  offMain : c.chainBlockAt u.height ≠ u.hash
  parent : ∃ p, c.getParentBlock u = some p ∧ c.chainBlockAt p.height = p.hash

/-- What the generator gathers from a list of heights: stored blocks of these heights, and at least
the hashes of the main chain there. -/
theorem gatherUncles_spec (hc : c.StoresAgree) {heights : List Nat} {excluded : List FixedHash}
    {uncles : List P2Block} (h : gatherUncles ord c heights = .ok (excluded, uncles)) :
    (∀ u ∈ uncles, c.storedBlock u.height u.hash = some u ∧ u.height ∈ heights) ∧
      ∀ height ∈ heights, (c.levelAtHeight height).isSome = true →
        c.chainBlockAt height ∈ excluded := by
  induction heights generalizing excluded uncles with
  | nil =>
    cases h
    exact ⟨by simp, by simp⟩
  | cons height heights ih =>
    rw [gatherUncles] at h
    cases hlevel : c.levelAtHeight height with
    | none =>
      simp only [hlevel] at h
      obtain ⟨huncles, hexcluded⟩ := ih h
      refine ⟨fun u hu => ?_, List.forall_mem_cons.mpr ⟨fun hsome => ?_, hexcluded⟩⟩
      · exact ⟨(huncles u hu).1, List.mem_cons_of_mem _ (huncles u hu).2⟩
      · rw [hlevel] at hsome
        cases hsome
    | some level =>
      simp only [hlevel] at h
      cases hmain : level.blockHeaderInMainChain with
      | none => simp [hmain] at h
      | some header =>
        simp only [hmain] at h
        cases hrest : gatherUncles ord c heights with
        | error fault => simp [hrest] at h
        | ok gathered =>
          obtain ⟨excluded', uncles'⟩ := gathered
          simp only [hrest, Except.ok.injEq, Prod.mk.injEq] at h
          obtain ⟨rfl, rfl⟩ := h
          obtain ⟨huncles, hexcluded⟩ := ih hrest
          refine ⟨fun u hu => ?_, List.forall_mem_cons.mpr ⟨fun _ => ?_, ?_⟩⟩
          · rcases List.mem_append.mp hu with hu | hu
            · rw [allBlocks, List.mem_filterMap] at hu
              obtain ⟨header', hheader', hfind⟩ := hu
              rw [IterOrder.mem_run] at hheader'
              have hget : c.getBlockHeaderAtHeight height header'.hash = some header' := by
                rw [getBlockHeaderAtHeight, hlevel]
                exact KeyedMap.find?_of_mem_values hheader'
              obtain ⟨x, hx, rfl⟩ := hc.storedBlock_of_header hget
              have hux : u = x := by
                have := (hc.storedBlock_eq_some_iff.mp hx).1
                rw [hfind, Option.some.injEq] at this
                exact this
              subst hux
              have hheight := hc.height_of_storedBlock hx
              exact ⟨by rw [hheight]; exact hx, hheight ▸ List.mem_cons_self⟩
            · exact ⟨(huncles u hu).1, List.mem_cons_of_mem _ (huncles u hu).2⟩
          · have hmark : c.chainBlockAt height = header.hash := by
              rw [chainBlockAt, hlevel, P2ChainLevel.hash_of_getHeader hmain]
              rfl
            rw [hmark]
            exact List.mem_append_left _ List.mem_cons_self
          · exact fun height' hheight' hsome =>
              List.mem_append_right _ (hexcluded height' hheight' hsome)

/-- A candidate that is not excluded has a parent that is marked at its own height. -/
theorem unlinkedUncles_spec {uncles : List P2Block} {excluded : List FixedHash}
    (h : unlinkedUncles c uncles = .ok excluded) (hu : u ∈ uncles) (hnot : u.hash ∉ excluded) :
    ∃ p, c.getParentBlock u = some p ∧ c.chainBlockAt p.height = p.hash := by
  induction uncles generalizing excluded with
  | nil => exact absurd hu List.not_mem_nil
  | cons first rest ih =>
    rw [unlinkedUncles] at h
    cases hrest : unlinkedUncles c rest with
    | error fault => simp [hrest] at h
    | ok excluded' =>
      simp only [hrest] at h
      -- the exclusions of the rest are among those of the whole list
      have htail (hmem : u ∈ rest) (hsub : ∀ hash ∈ excluded', hash ∈ excluded) :
          ∃ p, c.getParentBlock u = some p ∧ c.chainBlockAt p.height = p.hash :=
        ih hrest hmem (fun hin => hnot (hsub _ hin))
      by_cases hlevel : (c.levelAtHeight first.height).isNone = true
      · rw [if_pos hlevel, Except.ok.injEq] at h
        subst h
        rcases List.mem_cons.mp hu with rfl | hmem
        · exact absurd List.mem_cons_self hnot
        · exact htail hmem (fun _ hin => List.mem_cons_of_mem _ hin)
      · rw [if_neg hlevel] at h
        cases hparent : c.getParentBlock first with
        | none =>
          simp only [hparent, Except.ok.injEq] at h
          subst h
          rcases List.mem_cons.mp hu with rfl | hmem
          · exact absurd List.mem_cons_self hnot
          · exact htail hmem (fun _ hin => List.mem_cons_of_mem _ hin)
        | some p =>
          simp only [hparent] at h
          cases hplevel : c.levelAtHeight p.height with
          | none => simp [hplevel] at h
          | some level =>
            simp only [hplevel] at h
            by_cases hmark : level.chainBlock = p.hash
            · rw [if_neg (not_not.mpr hmark), Except.ok.injEq] at h
              subst h
              rcases List.mem_cons.mp hu with rfl | hmem
              · refine ⟨p, hparent, ?_⟩
                rw [chainBlockAt, hplevel]
                exact hmark
              · exact htail hmem (fun _ hin => hin)
            · rw [if_pos hmark, Except.ok.injEq] at h
              subst h
              rcases List.mem_cons.mp hu with rfl | hmem
              · exact absurd List.mem_cons_self hnot
              · exact htail hmem (fun _ hin => List.mem_cons_of_mem _ hin)

/-- The selected uncles. -/
theorem selectUncles_spec (hc : c.StoresAgree) {newHeight : Nat} {uncles : List P2Block}
    (h : selectUncles ord c newHeight = .ok uncles) : uncles.length ≤ uncleLimit ∧
      (newHeight < uncleStartHeight → uncles = []) ∧
        ∀ u ∈ uncles, UncleCandidate c newHeight u := by
  rw [selectUncles] at h
  by_cases hstart : uncleStartHeight ≤ newHeight
  · rw [if_pos hstart] at h
    cases hgather : gatherUncles ord c (List.range' (newHeight - maxUncleAge)
        (newHeight - (newHeight - maxUncleAge))) with
    | error fault => simp [hgather] at h
    | ok gathered =>
      obtain ⟨excluded, candidates⟩ := gathered
      simp only [hgather] at h
      cases hunlinked : unlinkedUncles c candidates with
      | error fault => simp [hunlinked] at h
      | ok unlinked =>
        simp only [hunlinked, Except.ok.injEq] at h
        subst h
        obtain ⟨hcandidates, hexcluded⟩ := gatherUncles_spec hc hgather
        refine ⟨by rw [List.length_take]; exact Nat.min_le_left _ _,
          fun hlow => absurd hstart (Nat.not_le.mpr hlow), fun u hu => ?_⟩
        obtain ⟨hmem, hkept⟩ := List.mem_filter.mp (List.mem_of_mem_take hu)
        obtain ⟨hstored, hheight⟩ := hcandidates u hmem
        simp only [Bool.not_eq_true', List.contains_eq_mem, decide_eq_false_iff_not,
          List.mem_append, not_or] at hkept
        obtain ⟨level, hlevel, -⟩ := hc.level_of_storedBlock hstored
        have hmarked := hexcluded u.height hheight (by rw [hlevel, Option.isSome_some])
        rw [List.mem_range'_1] at hheight
        refine ⟨hstored, hheight.1, by omega, fun hmark => ?_,
          unlinkedUncles_spec hunlinked hmem hkept.2⟩
        rw [hmark] at hmarked
        exact hkept.1 hmarked
  · rw [if_neg hstart, Except.ok.injEq] at h
    subst h
    exact ⟨Nat.zero_le _, fun _ => rfl, by simp⟩

theorem validateUncleAges_ok {uncles : List (Nat × FixedHash)}
    (h : ∀ uncle ∈ uncles, height - maxUncleAge ≤ uncle.1 ∧ uncle.1 < height) :
    validateUncleAges height uncles = .ok () := by
  induction uncles with
  | nil => rfl
  | cons uncle rest ih =>
    obtain ⟨⟨hold, hbelow⟩, hrest⟩ := List.forall_mem_cons.mp h
    rw [validateUncleAges, if_neg (Nat.not_lt.mpr hold), if_neg (Nat.not_le.mpr hbelow), ih hrest]

/-! ### The block -/

def targets (blocks : List P2Block) : Nat := (blocks.map (·.targetDifficulty)).sum

theorem addUncles_ok {totalPow total : AccumulatedDifficulty} {uncles : List P2Block}
    (h : P2BlockBuilder.addUncles totalPow uncles = .ok total) : total = totalPow + targets uncles := by
  induction uncles generalizing totalPow with
  | nil =>
    cases h
    rfl
  | cons u rest ih =>
    rw [P2BlockBuilder.addUncles, checkedAddDifficulty] at h
    split_ifs at h with hfits
    · simp only at h
      rw [ih h, targets, targets, List.map_cons, List.sum_cons]
      exact Nat.add_assoc _ _ _

/-- A template for the chain `c` after its target difficulty has been set: it starts the chain or
stands on the block at the tip. -/
structure TemplateOf (c : P2Chain) (b : P2Block) (d : Difficulty) (uncles : List P2Block) :
    Prop where
  unverified : b.verified = VerifiedStatus.new
  target : b.targetDifficulty = d
  lists : b.uncles = uncles.map fun u => (u.height, u.hash)
  fits : b.totalPow ≤ u128Max
  few : uncles.length ≤ uncleLimit
  early : b.height < uncleStartHeight → uncles = []
  candidates : ∀ u ∈ uncles, UncleCandidate c b.height u
  place : (c.getTip = none ∧ b.height = 0 ∧ b.prevHash = FixedHash.zero ∧ b.totalPow = d) ∨
    ∃ t, c.tipHash ≠ FixedHash.zero ∧ c.storedBlock c.currentTip c.tipHash = some t ∧
      b.height = saturatingAdd t.height 1 ∧ b.prevHash = c.tipHash ∧
      b.totalPow = t.totalPow + targets uncles + d

theorem build_cases {builder : P2BlockBuilder} (h : builder.build core = .ok t) :
    t.verified = builder.block.verified ∧ t.targetDifficulty = builder.block.targetDifficulty ∧
      t.uncles = builder.block.uncles ∧ t.height = builder.block.height ∧
      t.prevHash = builder.block.prevHash ∧
      t.totalPow = if builder.block.prevHash = FixedHash.zero then builder.block.targetDifficulty
        else builder.block.totalPow + builder.block.targetDifficulty := by
  rw [P2BlockBuilder.build] at h
  by_cases hzero : builder.block.prevHash = FixedHash.zero
  · rw [if_pos hzero, Except.ok.injEq] at h
    subst h
    rw [if_pos hzero]
    exact ⟨rfl, rfl, rfl, rfl, rfl, rfl⟩
  · rw [if_neg hzero] at h ⊢
    rw [checkedAddDifficulty] at h
    split_ifs at h with hfits
    simp only [Except.ok.injEq] at h
    subst h
    exact ⟨rfl, rfl, rfl, rfl, rfl, rfl⟩

theorem changeTargetDifficulty_cases {d : Difficulty}
    (h : t.changeTargetDifficulty core d = .ok b) :
    b.verified = t.verified ∧ b.targetDifficulty = d ∧ b.uncles = t.uncles ∧ b.height = t.height ∧
      b.prevHash = t.prevHash ∧ b.totalPow = t.totalPow + d - t.targetDifficulty ∧
      t.targetDifficulty ≤ t.totalPow + d ∧ b.totalPow ≤ u128Max := by
  rw [P2Block.changeTargetDifficulty, checkedAddDifficulty] at h
  split_ifs at h with hfits
  simp only [checkedSubDifficulty] at h
  split_ifs at h with hsub
  simp only [Except.ok.injEq] at h
  subst h
  refine ⟨rfl, rfl, rfl, rfl, rfl, rfl, hsub, ?_⟩
  exact (Nat.sub_le _ _).trans hfits

private theorem finish_cases {builder : P2BlockBuilder} {uncles : List P2Block} {extra : List Nat}
    {address : TariAddress} {squad : String}
    (h : (match builder.withUncles uncles with
      | .error e => .error (.error e)
      | .ok builder =>
        match (((builder.withMinerWalletAddress address).withMinerCoinbaseExtra extra).withSquad
            squad).build core with
        | .error e => .error (.error e)
        | .ok block => .ok block : Except Fault P2Block) = .ok t) :
    t.verified = builder.block.verified ∧ t.targetDifficulty = builder.block.targetDifficulty ∧
      t.uncles = uncles.map (fun u => (u.height, u.hash)) ∧ t.height = builder.block.height ∧
      t.prevHash = builder.block.prevHash ∧
      t.totalPow = if builder.block.prevHash = FixedHash.zero then builder.block.targetDifficulty
        else builder.block.totalPow + targets uncles + builder.block.targetDifficulty := by
  rw [P2BlockBuilder.withUncles] at h
  cases hadd : P2BlockBuilder.addUncles builder.block.totalPow uncles with
  | error e => simp [hadd] at h
  | ok total =>
    simp only [hadd] at h
    split at h
    · cases h
    · rename_i block hbuild
      cases h
      obtain ⟨hverified, htarget, huncles, hheight, hprev, hpow⟩ := build_cases hbuild
      refine ⟨hverified, htarget, huncles, hheight, hprev, ?_⟩
      rw [hpow, ← addUncles_ok hadd]
      rfl

/-- The steps of the generator, for the header it has found at the tip. -/
theorem generateNewTipBlock_cases {s : InMemoryShareChain} {now : EpochTime} {address : TariAddress}
    {extra : List Nat} {prevBlock : Option P2BlockHeader}
    (hprevBlock : c.getTip.bind (·.blockHeaderInMainChain) = prevBlock)
    (hgen : s.generateNewTipBlock core ord now address extra c = .ok t) :
    ∃ uncles, selectUncles ord c
        (prevBlock.elim 0 fun prevBlock => saturatingAdd prevBlock.height 1) = .ok uncles ∧
      t.verified = VerifiedStatus.new ∧ t.targetDifficulty = Difficulty.min ∧
      t.uncles = uncles.map (fun u => (u.height, u.hash)) ∧
      t.height = (prevBlock.elim 0 fun prevBlock => saturatingAdd prevBlock.height 1) ∧
      t.prevHash = (prevBlock.elim FixedHash.zero fun prevBlock => prevBlock.hash) ∧
      t.totalPow = if (prevBlock.elim FixedHash.zero fun prevBlock => prevBlock.hash) =
          FixedHash.zero then Difficulty.min
        else (prevBlock.elim AccumulatedDifficulty.min fun prevBlock => prevBlock.totalPow) +
          targets uncles + Difficulty.min := by
  unfold generateNewTipBlock at hgen
  rw [hprevBlock] at hgen
  simp only [bind, Except.bind] at hgen
  cases prevBlock with
  | none =>
    simp only [Option.map_none] at hgen
    cases hselect : selectUncles ord c 0 with
    | error fault => simp [hselect] at hgen
    | ok uncles =>
      simp only [hselect] at hgen
      cases htime : templateTimestamp c now none with
      | error fault => simp [htime] at hgen
      | ok timestamp =>
        simp only [htime] at hgen
        exact ⟨uncles, hselect, finish_cases hgen⟩
  | some prevBlock =>
    simp only [Option.map_some] at hgen
    cases hselect : selectUncles ord c (saturatingAdd prevBlock.height 1) with
    | error fault => simp [hselect] at hgen
    | ok uncles =>
      simp only [hselect] at hgen
      cases htime : templateTimestamp c now (some prevBlock) with
      | error fault => simp [htime] at hgen
      | ok timestamp =>
        simp only [htime] at hgen
        exact ⟨uncles, hselect, finish_cases hgen⟩

theorem Recorded.exists_tipHeader (hr : Recorded config hist c) {tip : P2ChainLevel}
    (htip : c.getTip = some tip) : ∃ x, c.storedBlock c.currentTip c.tipHash = some x ∧
      c.getTip.bind (·.blockHeaderInMainChain) = some x.header := by
  obtain ⟨x, hx⟩ := hr.exists_tip (exists_getTip_iff.mp ⟨tip, htip⟩)
  obtain ⟨level, hlevel, hheader⟩ := hr.agree.level_of_storedBlock hx
  rw [(getTip_eq_some_iff.mp htip).1, Option.some.injEq] at hlevel
  subst hlevel
  refine ⟨x, hx, ?_⟩
  rw [htip, Option.bind_some, P2ChainLevel.blockHeaderInMainChain, chainBlock_of_getTip htip]
  exact hheader

/-- The generator's block, with another target difficulty, is a template for the chain. -/
theorem templateOf_generateNewTipBlock (hr : Recorded config hist c) {s : InMemoryShareChain}
    {now : EpochTime} {address : TariAddress} {extra : List Nat} {d : Difficulty}
    (hgen : s.generateNewTipBlock core ord now address extra c = .ok t)
    (hchange : t.changeTargetDifficulty core d = .ok b) : ∃ uncles, TemplateOf c b d uncles := by
  obtain ⟨hverified, htarget, hlists, hheight, hprev, hpow, hold, hfits⟩ :=
    changeTargetDifficulty_cases hchange
  cases htip : c.getTip with
  | none =>
    obtain ⟨uncles, hselect, hverified', htarget', hlists', hheight', hprev', hpow'⟩ :=
      generateNewTipBlock_cases
        (show c.getTip.bind (·.blockHeaderInMainChain) = none by rw [htip, Option.bind_none]) hgen
    obtain ⟨hfew, hearly, hcandidates⟩ := selectUncles_spec hr.agree hselect
    refine ⟨uncles, hverified.trans hverified', htarget, hlists.trans hlists', hfits, hfew, ?_, ?_,
      Or.inl ⟨htip, hheight.trans hheight', hprev.trans hprev', ?_⟩⟩
    · intro hlow
      rw [hheight, hheight'] at hlow
      exact hearly hlow
    · rw [hheight, hheight']
      exact hcandidates
    · rw [hpow, hpow', htarget']
      exact Nat.add_sub_cancel_left _ _
  | some tip =>
    have hne := exists_getTip_iff.mp ⟨tip, htip⟩
    obtain ⟨x, hx, hprevBlock⟩ := hr.exists_tipHeader htip
    obtain ⟨uncles, hselect, hverified', htarget', hlists', hheight', hprev', hpow'⟩ :=
      generateNewTipBlock_cases hprevBlock hgen
    have hhash := hr.agree.hash_of_storedBlock hx
    have hnonzero : x.header.hash ≠ FixedHash.zero := by
      rw [P2Block.header_hash, hhash]
      exact hne
    have hpow'' : t.totalPow = x.totalPow + targets uncles + Difficulty.min :=
      hpow'.trans (if_neg hnonzero)
    simp only [Option.elim_some, P2Block.header_height, P2Block.header_hash] at hselect hheight' hprev'
    obtain ⟨hfew, hearly, hcandidates⟩ := selectUncles_spec hr.agree hselect
    refine ⟨uncles, hverified.trans hverified', htarget, hlists.trans hlists', hfits, hfew, ?_, ?_,
      Or.inr ⟨x, hne, hx, hheight.trans hheight', (hprev.trans hprev').trans hhash, ?_⟩⟩
    · intro hlow
      rw [hheight, hheight'] at hlow
      exact hearly hlow
    · rw [hheight, hheight']
      exact hcandidates
    · rw [hpow, hpow'', htarget', Nat.add_right_comm]
      exact Nat.add_sub_cancel _ _

end P2Chain

end ShaP2Pool
