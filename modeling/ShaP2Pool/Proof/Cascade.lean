import ShaP2Pool.Proof.TipMoves

/-!
# Errors and the main chain

One call looks at its block and then at the blocks that waited for it, and the first of them that
fails ends the call with its error. A failing block leaves the main chain as it found it, so the
call has changed the main chain only if a block before the failing one took the tip. This holds on
every chain, also where blocks were added twice or share a hash.
-/

namespace ShaP2Pool

namespace P2Chain

variable {core : TariCore} {ord : IterOrder} {n height : Nat} {hash : FixedHash}
variable {c c' c₁ : P2Chain} {b : P2Block} {block : P2BlockHeader} {w : WalkState} {e : ShareChainError}
variable {addResult : ChainAddResult} {next : List (Nat × FixedHash)}

/-- Looking at the block stored at a height under a hash ends in an error: the block is gone, one of
its checks is an error, it is on the tip and its uncles are refused, or it is to be the tip and is
not in the block cache any more. -/
inductive VisitFails (core : TariCore) (c : P2Chain) (height : Nat) (hash : FixedHash) : Prop
  | gone (habsent : ¬c.HasPair (height, hash))
  | checks {prevHash : FixedHash} {e : ShareChainError}
    (hprev : c.getParentOf height hash = some prevHash)
    (hcomplete : (c.missingReferences height hash prevHash).missingBlocks.size = 0)
    (hchecks : verifyBlock core hash height c = .error (.error e) c)
  | uncles {c₁ : P2Chain} {block : P2BlockHeader} {e : ShareChainError}
    (hverifies : Verifies core c height hash c₁ block) (hnotStart : ¬(c₁.getTip = none ∧ height = 0))
    (hverified : block.verified.isVerified = true) (honTip : c₁.buildsOnTip block = true)
    (huncles : c₁.checkUncles block.uncles = .error (.error e))
  | uncached {c₁ : P2Chain} {block : P2BlockHeader} (hverifies : Verifies core c height hash c₁ block)
    (hextends : ExtendsTip core c height hash) (hlost : c₁.getBlockAtHeight height hash = none)

/-- No block of the call fails after another one has taken the tip. -/
def NoLateFailure (core : TariCore) (ord : IterOrder) (c : P2Chain) (b : P2Block) : Prop :=
  ∀ u w height hash rest height' hash' rest', Visits core ord b c u → Visits core ord b c w →
    u.numProcessed < w.numProcessed → u.nextLevel = (height, hash) :: rest →
    w.nextLevel = (height', hash') :: rest' → TakesTip core u.chain height hash →
    ¬VisitFails core w.chain height' hash'

theorem KeepsTip.sameMainChain (h : KeepsTip c c') : SameMainChain c c' :=
  ⟨h.currentTip, h.chainBlockAt, h.lwma⟩

/-! ### A visit that fails -/

theorem visitFails_of_setNewTip (hverifies : Verifies core c height hash c₁ block)
    (hextends : ExtendsTip core c height hash)
    (h : setNewTip height hash c₁ = .error (.error e) c') : VisitFails core c height hash :=
  VisitFails.uncached hverifies hextends (setNewTip_error h).2

theorem visitFails_of_extendTip (hverifies : Verifies core c height hash c₁ block)
    (hnotStart : ¬(c₁.getTip = none ∧ height = 0)) (hverified : block.verified.isVerified = true)
    (honTip : c₁.buildsOnTip block = true)
    (h : extendTip ord n height hash block c₁ = .error (.error e) c') : VisitFails core c height hash := by
  obtain ⟨huncles, -⟩ | ⟨_, huncles, h⟩ := EStateM.cases_of_ofExcept_bind_eq_error h
  · exact VisitFails.uncles hverifies hnotStart hverified honTip huncles
  obtain hset | ⟨_, c₂, -, h⟩ := EStateM.cases_of_bind_eq_error h
  · exact visitFails_of_setNewTip hverifies
      ⟨c₁, block, hverifies, Or.inr ⟨hverified, honTip, huncles⟩⟩ hset
  obtain ⟨hitems, -⟩ | ⟨items, -, h⟩ := EStateM.cases_of_ofExcept_bind_eq_error h
  · cases getAllChildrenAndNephews_error hitems
  · cases h

theorem checkReorg_ne_error (hblock : c.getBlockHeaderAtHeight height hash = some block) :
    checkReorg ord n height hash block c ≠ .error (.error e) c' := by
  intro h
  have hlevel : (c.levelAtHeight block.height).isSome = true := by
    obtain ⟨level, hlevel, -⟩ := Option.bind_eq_some_iff.mp hblock
    rw [height_of_getBlockHeaderAtHeight hblock, hlevel]
    rfl
  obtain ⟨hscan, -⟩ | ⟨scanned, -, h⟩ := EStateM.cases_of_ofExcept_bind_eq_error h
  · obtain ⟨r, hr⟩ := scanAncestors_ok (windowRounds c.config) {} hlevel
    rw [hr] at hscan
    cases hscan
  obtain ⟨allVerified, result⟩ := scanned
  have hnext {c₁ : P2Chain} {result : ChainAddResult}
      (h : (do let next ← EStateM.ofExcept (c₁.getAllChildrenAndNephews ord n height hash)
               return (result, next) : ChainM _) c₁ = .error (.error e) c') : False := by
    obtain ⟨hitems, -⟩ | ⟨items, -, h⟩ := EStateM.cases_of_ofExcept_bind_eq_error h
    · cases getAllChildrenAndNephews_error hitems
    · cases h
  simp only at h
  split_ifs at h
  · exact hnext h
  · obtain ⟨hreorg, -⟩ | ⟨c₂, -, h⟩ := EStateM.cases_of_ofExcept_bind_eq_error h
    · obtain ⟨p, hp⟩ := reorg_error hreorg
      cases hp
    · exact hnext h
  · exact hnext h

theorem visitFails_of_error (h : verifyChainInner core ord n height hash c = .error (.error e) c') :
    VisitFails core c height hash := by
  obtain ⟨hnone, -⟩ | ⟨prevHash, hprev, h⟩ := EStateM.cases_of_ofOption_bind_eq_error h
  · refine VisitFails.gone fun hpair => ?_
    obtain ⟨header, hheader⟩ := Option.isSome_iff_exists.mp hpair
    obtain ⟨level, hlevel, hget⟩ := Option.bind_eq_some_iff.mp hheader
    rw [getParentOf, hlevel, Option.bind_some, P2ChainLevel.getPrevHash, hget] at hnone
    cases hnone
  dsimp only at h
  split_ifs at h with hmissing
  · obtain ⟨hitems, -⟩ | ⟨items, -, h⟩ := EStateM.cases_of_ofExcept_bind_eq_error h
    · cases getAllChildrenAndNephews_error hitems
    · cases h
  have hcomplete : (c.missingReferences height hash prevHash).missingBlocks.size = 0 := by
    simpa [bne_iff_ne] using hmissing
  obtain hcheck | ⟨_, c₁, hcheck, h⟩ := EStateM.cases_of_bind_eq_error h
  · obtain rfl := KeepsTip.verifyBlock_error hcheck
    exact VisitFails.checks hprev hcomplete hcheck
  have hkeeps := KeepsTip.verifyBlock (hasPair_of_getParentOf hprev) hcheck
  obtain ⟨hnone, -⟩ | ⟨block, hblock, h⟩ := EStateM.cases_of_ofOption_bind_eq_error h
  · have hpair := (hkeeps.pairs (height, hash)).mpr (hasPair_of_getParentOf hprev)
    rw [HasPair, hnone] at hpair
    cases hpair
  have hverifies : Verifies core c height hash c₁ block := ⟨⟨prevHash, hprev, hcomplete⟩, hcheck, hblock⟩
  split_ifs at h with hstart hunverified honTip
  · obtain hset | ⟨_, c₂, -, h⟩ := EStateM.cases_of_bind_eq_error h
    · exact visitFails_of_setNewTip hverifies ⟨c₁, block, hverifies, Or.inl (by simpa using hstart)⟩ hset
    · cases h
  · cases h
  · exact visitFails_of_extendTip hverifies (by simpa using hstart) (by simpa using hunverified) honTip h
  · exact absurd h (checkReorg_ne_error hblock)

/-! ### The call -/

theorem Writes.sameMainChain (hw : Writes c b c') : SameMainChain c c' :=
  ⟨hw.currentTip, hw.chainBlockAt, hw.lwma⟩

theorem Visits.sameMainChain_or_taken (hvisits : Visits core ord b c w) : SameMainChain c w.chain ∨
    ∃ u height hash rest, Visits core ord b c u ∧ u.numProcessed < w.numProcessed ∧
      u.nextLevel = (height, hash) :: rest ∧ TakesTip core u.chain height hash := by
  obtain ⟨hallowed, c₀, hinsert, hreach⟩ := hvisits
  obtain ⟨c₀', hinsert', hw⟩ := Writes.of_insertBlock c b
  rw [hinsert, Except.ok.injEq] at hinsert'
  subst hinsert'
  refine hreach.inv (I := fun w => SameMainChain c w.chain ∨ ∃ u height hash rest,
    Visits core ord b c u ∧ u.numProcessed < w.numProcessed ∧ u.nextLevel = (height, hash) :: rest ∧
      TakesTip core u.chain height hash) (Or.inl hw.sameMainChain) fun v v' hv hI hstep => ?_
  obtain ⟨height, hash, rest, addResult, next, chain, hqueue, hinner, -, rfl⟩ := verifyChainStep_inl hstep
  obtain hsame | ⟨u, height', hash', rest', hu, hlt, hqueue', htakes⟩ := hI
  · by_cases htakes : TakesTip core v.chain height hash
    · exact Or.inr ⟨v, height, hash, rest, ⟨hallowed, c₀, hinsert, hv⟩, Nat.lt_succ_self _, hqueue, htakes⟩
    · refine Or.inl (hsame.trans ?_)
      have hstep := tipStep_of_ok hinner
      generalize addResult.newTip = newTip at hstep
      cases hstep with
      | kept _ hkeeps => exact hkeeps.sameMainChain
      | crowned hextends => exact absurd (Or.inl hextends) htakes
      | reorganised hovertakes => exact absurd (Or.inr ⟨_, hovertakes⟩) htakes
  · exact Or.inr ⟨u, height', hash', rest', hu, Nat.lt_succ_of_lt hlt, hqueue', htakes⟩

/-- On any chain, an error leaves the main chain as it was if no block of the call fails after
another one has taken the tip. -/
theorem error_keeps_main_chain (hguard : NoLateFailure core ord c b)
    (herror : addBlockToChain core ord b c = .error (.error e) c') : SameMainChain c c' := by
  by_cases hallowed : ParentIsUncle b
  · rw [addBlockToChain_of_parentIsUncle core ord c hallowed] at herror
    cases herror
    exact ⟨rfl, fun _ => rfl, rfl⟩
  obtain ⟨w, hvisits, hexit⟩ := exists_exit_of_returns hallowed (.of_error herror)
  rw [herror] at hexit
  obtain ⟨-, heq⟩ | ⟨height, hash, rest, hqueue, hlast⟩ := verifyChainStep_inr hexit
  · cases heq
  obtain ⟨fault, chain, hinner, heq⟩ | ⟨addResult, next, chain, -, -, heq⟩ := hlast
  · cases heq
    have hfails := visitFails_of_error hinner
    obtain hsame | ⟨u, height', hash', rest', hu, hlt, hqueue', htakes⟩ := hvisits.sameMainChain_or_taken
    · exact hsame.trans (keepsTip_of_error hinner).sameMainChain
    · exact absurd hfails
        (hguard u w height' hash' rest' height hash rest hu hvisits hlt hqueue' hqueue htakes)
  · cases heq

/-- The next block to visit does not take the tip, unless `last` blocks were visited before. -/
def keepsUntil (core : TariCore) (ord : IterOrder) (last : Nat) (w : WalkState) : Bool :=
  decide (w.numProcessed ≤ last) && (decide (w.numProcessed = last) ||
    match w.nextLevel with
    | [] => true
    | (height, hash) :: _ =>
      match verifyChainInner core ord w.numProcessed height hash w.chain with
      | .ok (addResult, _) _ => addResult.newTip.isNone
      | .error _ _ => false)

theorem not_takesTip_of_newTip (h : verifyChainInner core ord n height hash c = .ok (addResult, next) c')
    (hnone : addResult.newTip = none) : ¬TakesTip core c height hash := by
  have hstep := tipStep_of_ok h
  rw [hnone] at hstep
  cases hstep with
  | kept hnot => exact hnot

theorem noLateFailure_of_keepsUntil (last : Nat)
    (h : visitsAll core ord (keepsUntil core ord last) c b = true) : NoLateFailure core ord c b := by
  intro u w height hash rest height' hash' rest' hu hw hlt hqueue _ htakes
  have hfirst := of_visitsAll h hu
  have hsecond := of_visitsAll h hw
  rw [keepsUntil, Bool.and_eq_true, decide_eq_true_eq] at hfirst hsecond
  rw [Bool.or_eq_true, decide_eq_true_eq, hqueue] at hfirst
  obtain heq | hkeeps := hfirst.2
  · omega
  · cases hinner : verifyChainInner core ord u.numProcessed height hash u.chain with
    | error fault chain => simp [hinner] at hkeeps
    | ok result chain =>
      obtain ⟨addResult, next⟩ := result
      simp only [hinner, Option.isNone_iff_eq_none] at hkeeps
      exact absurd htakes (not_takesTip_of_newTip hinner hkeeps)

/-- The start of a chain and a block of height 3 whose parent is not there yet and whose accumulated
difficulty is wrong. -/
def farOrphan : P2Chain :=
  addAll sampleCore .stored [sampleBlock 1 0 0 1, sampleBlock 4 3 3 50] (newEmpty (sampleConfig 10))

theorem error_keeps_main_chain_orphan :
    SameMainChain farOrphan (addBlockToChain sampleCore .stored (sampleBlock 3 2 2 3) farOrphan).state :=
  error_keeps_main_chain (e := .validationError .difficultyTarget)
    (noLateFailure_of_keepsUntil 1 (by decide)) (eq_error_of_faultOf (by decide))

/-- The start of a chain and a block of height 2 whose parent is not there yet and whose accumulated
difficulty is wrong. -/
def waitingOrphan : List P2Block := [sampleBlock 1 0 0 1, sampleBlock 3 2 2 50]

theorem run_waitingOrphan : Run sampleCore (sampleConfig 10) Unrestricted waitingOrphan.reverse
    (addAll sampleCore IterOrder.stored waitingOrphan (newEmpty (sampleConfig 10))) :=
  Run.of_blocks IterOrder.stored (fun _ _ _ => true) (fun _ _ _ _ => trivial) waitingOrphan
    (by decide)

/-- The parent of the waiting orphan becomes the tip, and is answered with the orphan's error. -/
theorem error_moves_tip : ∃ hist c b e c',
    Run sampleCore (sampleConfig 10) Unrestricted hist c ∧ b.hash ≠ FixedHash.zero ∧
      (∀ a ∈ hist, a.hash ≠ b.hash) ∧
      addBlockToChain sampleCore IterOrder.stored b c = .error (.error e) c' ∧
      ¬SameMainChain c c' := by
  refine ⟨_, _, sampleBlock 2 1 1 2, .validationError .difficultyTarget, _,
    run_waitingOrphan, by decide, by decide,
    eq_error_of_faultOf (by decide), fun hsame => ?_⟩
  exact absurd hsame.currentTip (by decide)

end P2Chain

end ShaP2Pool
