import ShaP2Pool.Proof.Rollback
import ShaP2Pool.Proof.Ancestry

/-!
# The panics of the reorg

The search before a reorg stops at the first block of the old main chain; the walk that links the
new main chain goes on below it. It aborts the process when it comes to a level that does not have
the parent it looks for.
-/

namespace ShaP2Pool

namespace P2Chain

open Lineage

variable {core : TariCore} {ord : IterOrder} {config : ChainConfig} {n height i : Nat}
variable {hash : FixedHash} {c c' c₀ c₁ c₂ : P2Chain} {a b b₁ : P2Block} {hist : List P2Block}
variable {P : List P2Block → P2Chain → IterOrder → P2Block → Prop}

/-- The walk down from `b` goes on past its first `i` blocks: once the difficulty window is full it
stops at a block whose parent is marked already. -/
def Open (c : P2Chain) (b : P2Block) (i : Nat) : Prop :=
  ∀ k < i, difficultyAdjustmentWindow ≤ k → ∀ x, c.ancestorOf k b = some x →
    c.chainBlockAt (x.height - 1) ≠ x.prevHash

/-- What the search does not see of the path of a new tip `b`: a block at height 0 has the block it
names next to it, and below a block of the main chain every further block of the share window that
the walk comes to has its parent stored, unless there is no level beneath it. -/
structure LinkedBelow (c : P2Chain) (b : P2Block) : Prop where
  bottom : b.height = 0 → ∃ p, c.storedBlock 0 b.prevHash = some p
  rest : ∀ i j m a, j < i → i < windowRounds c.config → c.ancestorOf j b = some m →
    c.chainBlockAt m.height = m.hash → c.ancestorOf i b = some a → a.height ≠ 0 → Open c b i →
    (c.levelAtHeight (a.height - 1)).isSome = true → ∃ p, c.parentOf a = some p

/-- Every reorg of the call is to a block that is linked below the main chain. -/
def ReorgsLinked (core : TariCore) (_ : List P2Block) (c : P2Chain) (ord : IterOrder)
    (b : P2Block) : Prop :=
  ∀ w height hash rest, Visits core ord b c w → w.nextLevel = (height, hash) :: rest →
    ∀ b₁ c₁, ReorgsTo core w.chain height hash b₁ c₁ → LinkedBelow c₁ b₁

/-! ### The other faults -/

theorem addUncleWork_error {uncles : List (Nat × FixedHash)} {total : Nat} {fault : Fault}
    (h : c.addUncleWork uncles total = .error fault) : fault = .error .difficultyOverflow := by
  induction uncles generalizing total with
  | nil => simp [addUncleWork] at h
  | cons uncle rest ih =>
    obtain ⟨height, hash⟩ := uncle
    rw [addUncleWork] at h
    cases hfind : c.getBlockAtHeight height hash with
    | none => simp [hfind] at h
    | some x =>
      simp only [hfind] at h
      split_ifs at h
      cases hadd : checkedAddDifficulty total x.targetDifficulty with
      | none =>
        simp only [hadd] at h
        exact (Except.error.inj h).symm
      | some sum =>
        simp only [hadd] at h
        exact ih h

theorem compareWork_error {total : Nat} {fault : Fault} (h : compareWork b total = .error fault) :
    fault = .error (.validationError .difficultyTarget) := by
  rw [compareWork] at h
  split_ifs at h
  exact (Except.error.inj h).symm

theorem verifyPowAndParents_error {fault : Fault} (h : c.verifyPowAndParents b = .error fault) :
    fault ≠ .panic .corruptedChain := by
  rw [verifyPowAndParents] at h
  by_cases hknown : (b.verified.parents || c.config.bypassChecks.parents) = true
  · rw [if_pos hknown] at h
    cases h
  · rw [if_neg hknown] at h
    by_cases htarget : b.targetDifficulty < 1
    · rw [if_pos htarget] at h
      cases h
      simp
    · rw [if_neg htarget] at h
      cases hwork : c.addUncleWork b.uncles b.targetDifficulty with
      | error fault' =>
        simp only [hwork, Except.error.injEq] at h
        rw [← h, addUncleWork_error hwork]
        simp
      | ok total =>
        cases total with
        | none => simp [hwork] at h
        | some total =>
          simp only [hwork] at h
          by_cases hheight : b.height = 0
          · rw [if_pos hheight] at h
            rw [compareWork_error h]
            simp
          · rw [if_neg hheight] at h
            cases hparent : c.getBlockAtHeight (b.height - 1) b.prevHash with
            | none => simp [hparent] at h
            | some parent =>
              simp only [hparent] at h
              split_ifs at h
              · rw [compareWork_error h]
                simp
              · cases h
                simp

theorem verifyDifficulty_error {fault : Fault} (h : c.verifyDifficulty core b = .error fault) :
    ∃ e, fault = .error e := by
  rw [verifyDifficulty] at h
  split_ifs at h
  cases hachieved : achievedDifficulty core c.config.params b.originalHeader with
  | error e =>
    simp only [hachieved, Except.error.injEq] at h
    exact ⟨_, h.symm⟩
  | ok difficulty => simp [hachieved] at h

theorem verifyMedianTimestampForBlock_error {fault : Fault}
    (h : c.verifyMedianTimestampForBlock b = .error fault) : ∃ e, fault = .error e := by
  rw [verifyMedianTimestampForBlock] at h
  split_ifs at h
  cases hmedian : c.calculateMedianTimestampForBlock b.height b.prevHash with
  | error e => simp [hmedian] at h
  | ok median =>
    simp only [hmedian] at h
    split_ifs at h
    exact ⟨_, (Except.error.inj h).symm⟩

theorem getCalculateAndCacheHashmapOfShares_error {fault : Fault}
    (h : c.getCalculateAndCacheHashmapOfShares height hash = .error fault) :
    fault ≠ .panic .corruptedChain := by
  rw [getCalculateAndCacheHashmapOfShares] at h
  cases hlevel : c.levelAtHeight height with
  | none =>
    simp only [hlevel] at h
    split_ifs at h
    cases h
    simp
  | some level =>
    simp only [hlevel] at h
    split_ifs at h
    · cases h
      simp
    · repeat' split at h
      all_goals
        cases h
        try simp

theorem sharesBefore_error {fault : Fault} (h : c.sharesBefore b = .error fault) :
    fault ≠ .panic .corruptedChain := by
  rw [sharesBefore] at h
  cases hcached : c.cachedShares with
  | none =>
    simp only [hcached] at h
    exact getCalculateAndCacheHashmapOfShares_error h
  | some cached =>
    simp only [hcached] at h
    split_ifs at h
    exact getCalculateAndCacheHashmapOfShares_error h

theorem verifySharesForBlock_error {fault : Fault} (h : c.verifySharesForBlock b = .error fault) :
    fault ≠ .panic .corruptedChain := by
  rw [verifySharesForBlock] at h
  by_cases hknown : (b.verified.correctShares || c.config.bypassChecks.correctShares ||
      decide (b.height = 0)) = true
  · rw [if_pos hknown] at h
    cases h
  rw [if_neg hknown] at h
  cases hbefore : c.sharesBefore b with
  | error fault' =>
    have hfault := sharesBefore_error hbefore
    cases fault' with
    | error e => simp [hbefore] at h
    | panic p =>
      simp only [hbefore, Except.error.injEq] at h
      rwa [← h]
  | ok before =>
    simp only [hbefore] at h
    repeat' split at h
    all_goals
      cases h
      try simp

/-- The checks fail with the first of them that fails. -/
theorem runChecks_error_iff {fault : Fault} : c.runChecks core b = .error fault ↔
    c.verifyPowAndParents b = .error fault ∨ ∃ pow, c.verifyPowAndParents b = .ok pow ∧
      (c.verifyDifficulty core b = .error fault ∨
        ∃ difficulty, c.verifyDifficulty core b = .ok difficulty ∧
          (c.verifyMedianTimestampForBlock b = .error fault ∨
            ∃ median, c.verifyMedianTimestampForBlock b = .ok median ∧
              c.verifySharesForBlock b = .error fault)) := by
  rw [runChecks]
  simp only [bind, Except.bind, pure, Except.pure]
  cases c.verifyPowAndParents b with
  | error fault' => simp
  | ok parents =>
    cases c.verifyDifficulty core b with
    | error fault' => simp
    | ok difficulty =>
      cases c.verifyMedianTimestampForBlock b with
      | error fault' => simp
      | ok median => cases c.verifySharesForBlock b <;> simp

theorem runChecks_error {fault : Fault} (h : c.runChecks core b = .error fault) :
    fault ≠ .panic .corruptedChain := by
  obtain hpow | ⟨_, -, hdifficulty | ⟨_, -, hmedian | ⟨_, -, hshares⟩⟩⟩ := runChecks_error_iff.mp h
  · exact verifyPowAndParents_error hpow
  · obtain ⟨e, rfl⟩ := verifyDifficulty_error hdifficulty
    simp
  · obtain ⟨e, rfl⟩ := verifyMedianTimestampForBlock_error hmedian
    simp
  · exact verifySharesForBlock_error hshares

theorem checkUncles_error {uncles : List (Nat × FixedHash)} {fault : Fault}
    (h : c.checkUncles uncles = .error fault) : ∃ e, fault = .error e := by
  induction uncles with
  | nil => simp [checkUncles] at h
  | cons uncle rest ih =>
    obtain ⟨height, hash⟩ := uncle
    rw [checkUncles] at h
    repeat' split at h
    all_goals first
      | exact ih h
      | exact ⟨_, (Except.error.inj h).symm⟩

/-! ### The walk down from the new tip -/

/-- A walk whose blocks all have their parents stored, or nothing beneath them, does not abort.
`done` blocks are behind it. -/
theorem relinkAncestors_ne_corrupted (done : Nat) {steps : Nat} {lwma : LinearWeightedMovingAverage}
    (hc : c.StoresAgree) (hlength : lwma.items.length = min (difficultyAdjustmentWindow + 1) (done + 1))
    (hbottom : b.height = 0 → ∃ p, c.storedBlock 0 b.prevHash = some p)
    (hlinked : ∀ i < steps, ∀ a, c.ancestorOf i b = some a → a.height ≠ 0 →
      (∀ k < i, difficultyAdjustmentWindow ≤ done + k → ∀ x, c.ancestorOf k b = some x →
        c.chainBlockAt (x.height - 1) ≠ x.prevHash) →
      (c.levelAtHeight (a.height - 1)).isSome = true → ∃ p, c.parentOf a = some p) (fault : Fault) :
    relinkAncestors steps c b.header lwma ≠ .error fault := by
  intro h
  induction steps generalizing c b lwma done with
  | zero => simp [relinkAncestors] at h
  | succ steps ih =>
    have hstep := relinkStep steps c b.header lwma
    rw [h] at hstep
    generalize hr : (Except.error fault :
      Except Fault (P2Chain × LinearWeightedMovingAverage)) = r at hstep
    cases hstep with
    | noLevel | full | bottom => cases hr
    | corrupted hlevel habsent =>
      by_cases hheight : b.height = 0
      · obtain ⟨p, hp⟩ := hbottom hheight
        rw [P2Block.header_height, hheight, P2Block.header_prevHash,
          hc.header_of_storedBlock hp] at habsent
        cases habsent
      · obtain ⟨p, hp⟩ := hlinked 0 (by omega) b rfl hheight (fun k hk => absurd hk (by omega)) (by
          rw [← P2Block.header_height, hlevel]
          rfl)
        rw [header_lookup_eq hc hheight, hp] at habsent
        cases habsent
    | @linked next cNext hnext hopen hremarks hmarks =>
      split_ifs at hr with hlast
      obtain ⟨p, hp, rfl⟩ := hc.storedBlock_of_header hnext
      have hpheight : p.height = b.height - 1 := hc.height_of_storedBlock hp
      change p.height ≠ 0 at hlast
      have hheight : b.height ≠ 0 := by omega
      have hparent : c.parentOf b = some p := by
        rw [parentOf, if_neg hheight]
        exact hp
      refine ih (done + 1) (hremarks.same.storesAgree hc) ?_
        (fun hzero => absurd hzero hlast) ?_ hr.symm
      · rw [Window.length_pushFront, hlength]
        omega
      · intro i hi a ha hne hgoes hlevel
        rw [ancestorOf, hremarks.same.parentOf] at ha
        rw [hremarks.same.levelAtHeight_isSome] at hlevel
        rw [hremarks.same.parentOf]
        refine hlinked (i + 1) (by omega) a (by rw [ancestorOf, ancestor_succ, hparent]; exact ha)
          hne (fun k hk hfull x hx => ?_) hlevel
        cases k with
        | zero =>
          -- with a full window the walk has gone on because the parent was not marked
          cases hx
          refine hopen.resolve_right (fun hroom => ?_)
          have hisFull : lwma.isFull = true := Window.isFull_iff.mpr (by omega)
          rw [hroom] at hisFull
          cases hisFull
        | succ k =>
          rw [ancestorOf, ancestor_succ, hparent, Option.bind_some] at hx
          have hxheight := height_of_ancestorOf hc hx
          have hmark := hgoes k (by omega) (by omega) x
            (by rw [ancestorOf, hremarks.same.parentOf]; exact hx)
          rwa [hmarks, if_neg (by rw [P2Block.header_height]; omega)] at hmark

/-- A reorg to a block that is linked below the main chain does not abort. -/
theorem Candidate.reorg_ne_corrupted {result : ChainAddResult} (hc : c.StoresAgree)
    (hcandidate : Candidate core c height hash b b₁ c₁ result) (hlinked : LinkedBelow c₁ b₁) :
    c₁.reorg b₁.header ≠ .error (.panic .corruptedChain) := by
  intro h
  have hc₁ := hcandidate.storesAgree hc
  have hb₁ : c₁.storedBlock b₁.height b₁.hash = some b₁ := by
    rw [hcandidate.height_eq hc, hcandidate.hash_eq hc]
    exact hcandidate.storedBlock_self hc
  obtain ⟨level, hlevel, -⟩ := hc₁.level_of_storedBlock hb₁
  obtain ⟨cStart, hinstalls, heq⟩ := reorg_cases b₁.header hlevel
  rw [heq] at h
  cases hreset : resetLinksAbove (cStart.levels.size + 1) cStart b₁.header.height with
  | error fault =>
    simp only [hreset, Except.error.injEq] at h
    rw [resetLinksAbove_error hreset] at h
    cases h
  | ok cReset =>
    simp only [hreset] at h
    have hsame := hinstalls.same.trans (resetLinksAbove_spec hreset).1.same
    cases hrelink : relinkAncestors (windowRounds cReset.config) cReset b₁.header
        (Window.empty.pushFront (b₁.header.timestamp, b₁.header.targetDifficulty)) with
    | ok linked =>
      rw [hrelink] at h
      cases h
    | error fault =>
      refine relinkAncestors_ne_corrupted 0 (hsame.storesAgree hc₁) rfl ?_ ?_ fault hrelink
      · intro hheight
        obtain ⟨p, hp⟩ := hlinked.bottom hheight
        exact ⟨p, by rw [hsame.storedBlock, hp]⟩
      · intro i hi a ha hne hgoes hbelow
        rw [ancestorOf, hsame.parentOf] at ha
        rw [hsame.levelAtHeight_isSome] at hbelow
        rw [hsame.config] at hi
        rw [hsame.parentOf]
        -- above the first block of the main chain the search has seen the parent
        by_cases hside : ∀ j < i, ∀ m, c₁.ancestorOf j b₁ = some m →
            c₁.chainBlockAt m.height ≠ m.hash
        · obtain ⟨p, hp, -⟩ := verified_of_scanAncestors hc₁ hb₁ hcandidate.scan
            hcandidate.noneMissing hi ha hne hside
          exact ⟨p, hp⟩
        · push Not at hside
          obtain ⟨j, hj, m, hm, hmark⟩ := hside
          refine hlinked.rest i j m a hj hi hm hmark ha hne (fun k hk hfull x hx => ?_) hbelow
          have hxheight := height_of_ancestorOf hc₁ hx
          have haheight := height_of_ancestorOf hc₁ ha
          have hmarkx := hgoes k hk (by omega) x (by rw [ancestorOf, hsame.parentOf]; exact hx)
          -- the marks below the new tip are still the old ones
          have hkept : cReset.chainBlockAt (x.height - 1) = c₁.chainBlockAt (x.height - 1) := by
            rcases (resetLinksAbove_spec hreset).2 (x.height - 1) with hkept | ⟨habove, -⟩
            · rw [hkept, hinstalls.chainBlockAt, if_neg (by rw [P2Block.header_height]; omega)]
            · rw [P2Block.header_height] at habove
              omega
          rwa [hkept] at hmarkx

/-- No call of a run whose reorgs are all linked below the main chain aborts in the reorg. -/
theorem reorg_never_aborts (hrun : Run core config (ReorgsLinked core) hist c)
    (hfresh : ∀ a ∈ hist, a.hash ≠ b.hash) (hstep : ReorgsLinked core hist c ord b) :
    addBlockToChain core ord b c ≠ .error (.panic .corruptedChain) c' := by
  intro hpanic
  have hr := hrun.recorded
  have hunused := hr.unused hfresh
  by_cases hallowed : ParentIsUncle b
  · rw [addBlockToChain_of_parentIsUncle core ord c hallowed] at hpanic
    cases hpanic
  obtain ⟨w, hvisits, hexit⟩ := exists_exit core ord hallowed hr hunused
  rw [hpanic] at hexit
  have hagree := (hr.visits hunused hvisits).agree
  rcases verifyChainStep_inr hexit with ⟨-, heq⟩ | ⟨height, hash, rest, hqueue, hlast⟩
  · cases heq
  rcases hlast with ⟨fault, chain, hinner, heq⟩ | ⟨addResult, next, chain, -, -, heq⟩
  · cases heq
    have ho := outcome_verifyChainInner core ord w.numProcessed height hash hagree
    rw [hinner] at ho
    cases ho with
    | refused _ _ _ hchecks => exact runChecks_error hchecks rfl
    | badUncles _ _ _ _ huncles =>
      obtain ⟨e, he⟩ := checkUncles_error huncles
      cases he
    | scanFault hoff hscan =>
      obtain ⟨r, hok⟩ := scanAncestors_ok (windowRounds _) {}
        (hoff.level_isSome hagree)
      rw [hok] at hscan
      cases hscan
    | reorgFault hcandidate hpow hreorg =>
      have hlinked := hstep w height hash rest hvisits hqueue _ _ ⟨_, _, hcandidate, hpow⟩
      exact hcandidate.reorg_ne_corrupted hagree hlinked hreorg
  · cases heq

/-- A second block at height 0 with more accumulated difficulty than the first, and no parent. -/
theorem reorg_aborts : ∃ hist c b c', Run sampleCore (sampleConfig 10) Unrestricted hist c ∧
    b.hash ≠ FixedHash.zero ∧ (∀ a ∈ hist, a.hash ≠ b.hash) ∧
    addBlockToChain sampleCore IterOrder.stored b c = .error (.panic .corruptedChain) c' := by
  refine ⟨_, _, { sampleBlock 2 0 0 2 with targetDifficulty := 2 }, _,
    Run.of_blocks IterOrder.stored (fun _ _ _ => true) (fun _ _ _ _ => trivial)
      [sampleBlock 1 0 0 1] (by decide), by decide, by decide,
    eq_error_of_faultOf (by decide)⟩

theorem reorgsLinked_of_upright (hrun : Run core config P hist c) (hfresh : ∀ a ∈ hist, a.hash ≠ b.hash)
    (h : visitsAll core ord upright c b = true) : ReorgsLinked core hist c ord b := by
  intro w height hash rest hvisits hqueue b₁ c₁ hreorgs
  have hagree := (hrun.recorded.visits (hrun.recorded.unused hfresh) hvisits).agree
  obtain ⟨hne, hparents⟩ := parents_of_upright hagree (of_visitsAll h hvisits) hqueue hreorgs
  obtain ⟨b, result, hcandidate, -⟩ := hreorgs
  refine ⟨fun hzero => absurd ((hcandidate.height_eq hagree).symm.trans hzero) hne, ?_⟩
  intro i j m a hlt _ _ _ ha hheight _ _
  obtain ⟨p, hp, -⟩ := hparents i a (Nat.ne_zero_of_lt hlt) ha hheight
  exact ⟨p, hp⟩

theorem reorg_never_aborts_branch :
    branchChain.chainBlockAt 1 = 3 ∧ rejoinedChain.chainBlockAt 1 = 2 ∧ ∀ c',
      addBlockToChain sampleCore IterOrder.stored branchBlock branchChain ≠
        .error (.panic .corruptedChain) c' := by
  have hrun : Run sampleCore (sampleConfig 10) (ReorgsLinked sampleCore) branchBlocks.reverse branchChain :=
    Run.of_blocks_of_run IterOrder.stored (fun _ c b => visitsAll sampleCore .stored upright c b)
      (fun _ _ _ hrun _ hfresh h => reorgsLinked_of_upright hrun hfresh h) branchBlocks (by decide)
  refine ⟨by decide, by decide, fun c' => ?_⟩
  exact reorg_never_aborts hrun (by decide) (reorgsLinked_of_upright hrun (by decide) (by decide))

end P2Chain

end ShaP2Pool
