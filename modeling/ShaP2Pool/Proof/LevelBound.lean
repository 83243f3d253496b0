import ShaP2Pool.Proof.Cascade

/-!
# The bound on the levels

A call creates at most one level, and none of its visits creates another. Only a visit that makes
its block the tip by `set_new_tip` removes levels, and after it there are few enough. So the number
of levels stays bounded over every sequence of calls in which a call that finds too many levels
either creates none or sets a new tip. Nothing is asked of the blocks: they may come again and share
hashes.
-/

namespace ShaP2Pool

namespace P2Chain

variable {core : TariCore} {ord : IterOrder} {config : ChainConfig} {n height bound : Nat}
variable {hash : FixedHash} {c c' : P2Chain} {b : P2Block} {hist : List P2Block}

/-- The chains reached by calls that return, each allowed by `P`. -/
inductive CallRun (core : TariCore) (config : ChainConfig) (P : P2Chain → IterOrder → P2Block → Prop) :
    P2Chain → Prop
  | empty : CallRun core config P (newEmpty config)
  | added {c : P2Chain} {ord : IterOrder} {b : P2Block} (hrun : CallRun core config P c)
    (hstep : P c ord b) (hreturns : Returns (addBlockToChain core ord b c)) :
    CallRun core config P (addBlockToChain core ord b c).state
  | generated {c : P2Chain} {s : InMemoryShareChain} {ord : IterOrder} {template : P2Block}
    {soloMine : Bool} (hrun : CallRun core config P c)
    (hreturns : Returns (s.generateSharesAndGetTargetDifficulty core ord template soloMine c)) :
    CallRun core config P
      (s.generateSharesAndGetTargetDifficulty core ord template soloMine c).state

/-- Looking at the block stored at a height under a hash sets a new tip, behind which the chain is
pruned. -/
def PrunesBehind (core : TariCore) (c : P2Chain) (height : Nat) (hash : FixedHash) : Prop :=
  ExtendsTip core c height hash ∧ (c.getBlockAtHeight height hash).isSome = true

/-- The call does not make one level too many: its block is turned down or has a level at its
height, or there is room for one more, or the call sets a new tip. -/
def Pruned (core : TariCore) (c : P2Chain) (ord : IterOrder) (b : P2Block) : Prop :=
  ParentIsUncle b ∨ (c.levelAtHeight b.height).isSome = true ∨ c.levels.size ≤ maxLevels c.config ∨
    ∃ w height hash rest, Visits core ord b c w ∧ w.nextLevel = (height, hash) :: rest ∧
      PrunesBehind core w.chain height hash

/-! ### What a call does to the number of levels -/

theorem size_removeLevel_le (c : P2Chain) (height : Nat) :
    (c.removeLevel height).levels.size ≤ c.levels.size := by
  have hle := List.length_filter_le (· ≠ height) (c.levels.values.map (·.height))
  rw [← heights_removeLevel, List.length_map, List.length_map] at hle
  exact hle

theorem keptByWrites_size (config : ChainConfig) (bound : Nat) :
    KeptByWrites fun c => c.config = config ∧ c.levels.size ≤ bound where
  same hsame _ h := ⟨hsame.config.trans h.1, (size_levels_congr hsame.levelAtHeight_isSome).trans_le h.2⟩
  removed height h :=
    ⟨(config_removeLevel _ height).trans h.1, (size_removeLevel_le _ height).trans h.2⟩
  checked {c c' b v} _ hstored hw h := by
    refine ⟨hw.config.trans h.1, (hw.size_levels_eq ?_).trans_le h.2⟩
    change (c.levelAtHeight b.height).isSome = true
    obtain ⟨header, hheader⟩ := Option.isSome_iff_exists.mp hstored
    obtain ⟨level, hlevel, -⟩ := Option.bind_eq_some_iff.mp hheader
    rw [hlevel]
    rfl

theorem cached_of_verifyBlock (h : verifyBlock core hash height c = .ok () c')
    (hcached : (c.getBlockAtHeight height hash).isSome = true) :
    (c'.getBlockAtHeight height hash).isSome = true := by
  obtain ⟨done, -, h⟩ := EStateM.exists_of_ofExcept_bind_eq_ok h
  cases done with
  | true =>
    cases h
    exact hcached
  | false =>
    obtain ⟨level, hlevel, h⟩ := EStateM.exists_of_ofOption_bind_eq_ok h
    obtain ⟨b, hb, h⟩ := EStateM.exists_of_ofOption_bind_eq_ok h
    obtain ⟨v, -, h⟩ := EStateM.exists_of_ofExcept_bind_eq_ok h
    obtain ⟨c₁, hadd, h⟩ := EStateM.exists_of_ofExcept_bind_eq_ok h
    cases h
    have hheight : b.height = height := by
      rw [addToLevel, P2ChainLevel.addBlock] at hadd
      split_ifs at hadd with hsame
      exact hsame.symm.trans (height_of_levelAtHeight hlevel)
    obtain ⟨c₂, hadd', hw⟩ := Writes.of_level (b := { b with verified := v }) (hheight ▸ hlevel)
    rw [hadd, Except.ok.injEq] at hadd'
    subst hadd'
    have hpresent : (c'.levelAtHeight height).isSome = true := by
      rw [hw.levels, hlevel, Option.isSome_some, Bool.or_true]
    obtain ⟨level', hlevel'⟩ := Option.isSome_iff_exists.mp hpresent
    rw [getBlockAtHeight, hlevel', Option.bind_some, hw.cache, KeyedMap.find?_insert,
      if_pos (hash_of_cached hb).symm]
    rfl

theorem PrunesBehind.not_visitFails (h : PrunesBehind core c height hash) :
    ¬VisitFails core c height hash := by
  obtain ⟨⟨c₁, block, hverifies, hcases⟩, hcached⟩ := h
  intro hfails
  cases hfails with
  | gone habsent =>
    obtain ⟨prevHash, hprev, -⟩ := hverifies.complete
    exact habsent (hasPair_of_getParentOf hprev)
  | checks _ _ hchecks =>
    rw [hverifies.checked] at hchecks
    cases hchecks
  | uncles hverifies' hnotStart _ _ huncles =>
    obtain ⟨rfl, rfl⟩ := hverifies.unique hverifies'
    obtain hstart | ⟨-, -, haccepted⟩ := hcases
    · exact hnotStart hstart
    · rw [haccepted] at huncles
      cases huncles
  | uncached hverifies' _ hlost =>
    obtain ⟨rfl, rfl⟩ := hverifies.unique hverifies'
    have hkept := cached_of_verifyBlock hverifies.checked hcached
    rw [hlost] at hkept
    cases hkept

/-- After a visit that sets a new tip there are few enough levels. -/
theorem PrunesBehind.size_le (h : PrunesBehind core c height hash)
    (hreturns : Returns (verifyChainInner core ord n height hash c)) :
    (verifyChainInner core ord n height hash c).state.levels.size ≤ maxLevels c.config := by
  cases hinner : verifyChainInner core ord n height hash c with
  | error fault c' =>
    cases fault with
    | panic p => exact absurd hinner (hreturns p c')
    | error e => exact absurd (visitFails_of_error hinner) h.not_visitFails
  | ok result c' =>
    obtain ⟨addResult, next⟩ := result
    have hstep := tipStep_of_ok hinner
    generalize addResult.newTip = newTip at hstep
    cases hstep with
    | kept hnot => exact absurd (Or.inl h.1) hnot
    | @crowned c₁ c₂ _ hkeeps _ hcrowns =>
      have hsize := size_cleanupChain_le c₂
      rwa [hcrowns.same.config, hkeeps.config] at hsize
    | reorganised hovertakes => exact absurd h.1 hovertakes.not_extendsTip

theorem levels_bounded_of_call (hpruned : Pruned core c ord b)
    (hreturns : Returns (addBlockToChain core ord b c))
    (h : c.config = config ∧ c.levels.size ≤ maxLevels config + 1) :
    (addBlockToChain core ord b c).state.config = config ∧
      (addBlockToChain core ord b c).state.levels.size ≤ maxLevels config + 1 := by
  have hkept := keptByWrites_size config (maxLevels config + 1)
  by_cases hallowed : ParentIsUncle b
  · rw [addBlockToChain_of_parentIsUncle core ord c hallowed]
    exact h
  obtain hrefused | hlevel | hroom | ⟨w, height, hash, rest, hvisits, hqueue, hprunes⟩ := hpruned
  · exact absurd hrefused hallowed
  · exact hkept.addBlockToChain
      (fun c₀ hw => ⟨hw.config.trans h.1, (hw.size_levels_eq hlevel).trans_le h.2⟩) h
  · rw [h.1] at hroom
    exact hkept.addBlockToChain
      (fun c₀ hw => ⟨hw.config.trans h.1, hw.size_levels_le.trans (Nat.succ_le_succ hroom)⟩) h
  · -- whatever the walk brings there is cut down by the visit that sets the tip
    have hgrown : w.chain.config = config ∧ w.chain.levels.size ≤ maxLevels config + 2 :=
      (keptByWrites_size config (maxLevels config + 2)).visits
        (fun c₀ hw => ⟨hw.config.trans h.1, hw.size_levels_le.trans (Nat.succ_le_succ h.2)⟩) hvisits
    refine addBlock_inv_from
      (I := fun c => c.config = config ∧ c.levels.size ≤ maxLevels config + 1) hvisits hqueue hreturns
      ⟨((keptByWrites_size config (maxLevels config + 2)).verifyChainInner hgrown).1, ?_⟩
      (fun _ _ _ _ _ _ hI _ => hkept.verifyChainInner hI)
    rw [← hgrown.1]
    exact (hprunes.size_le (hvisits.returns hreturns hqueue)).trans (Nat.le_succ _)

/-- Over any calls that the pruning keeps up with, the number of levels never exceeds the bound by
more than one. -/
theorem levels_bounded (hrun : CallRun core config (Pruned core) c) :
    c.levels.size ≤ maxLevels config + 1 := by
  suffices h : c.config = config ∧ c.levels.size ≤ maxLevels config + 1 from h.2
  induction hrun with
  | empty => exact ⟨rfl, Nat.zero_le _⟩
  | added _ hstep hreturns ih => exact levels_bounded_of_call hstep hreturns ih
  | @generated c s ord template soloMine _ _ ih =>
    obtain ⟨cached, hstate⟩ := generate_state core s ord template soloMine c
    rw [hstate]
    exact ih

/-- Orphans alone fill a chain beyond every bound. -/
theorem levels_unbounded : ∃ hist c, Run sampleCore (sampleConfig 10) Unrestricted hist c ∧
    maxLevels (sampleConfig 10) + 1 < c.levels.size := by
  obtain ⟨c, hrun, hgrown, -⟩ := exists_withOrphans sampleCore IterOrder.stored 1
    (Run.empty : Run sampleCore (sampleConfig 10) Unrestricted [] _) (by decide) (fun _ _ => rfl)
    (List.forall_mem_nil _) (List.forall_mem_nil _) (maxLevels (sampleConfig 10) + 2) (by decide)
    (fun _ _ _ _ _ _ => trivial)
  refine ⟨_, c, hrun, ?_⟩
  rw [hgrown.size]
  exact Nat.lt_of_lt_of_le (Nat.lt_succ_self _) (Nat.le_add_left _ _)

/-! ### A run that prunes -/

theorem Run.callRun {P : List P2Block → P2Chain → IterOrder → P2Block → Prop}
    {Q : P2Chain → IterOrder → P2Block → Prop} (h : ∀ hist c ord b, P hist c ord b → Q c ord b)
    (hrun : Run core config P hist c) : CallRun core config Q c := by
  induction hrun with
  | empty => exact CallRun.empty
  | refused _ _ ih => exact ih
  | added _ _ _ _ hstep hreturns ih => exact ih.added (h _ _ _ _ hstep) hreturns
  | generated _ hreturns ih => exact ih.generated hreturns

theorem prunesBehind_of_setsNewTip (hc : c.StoresAgree) (hset : SetsNewTip core c height hash) :
    PrunesBehind core c height hash := by
  obtain ⟨b, v, hb, hcomplete, hstatus, -⟩ := id hset
  obtain ⟨b₁, c₁, hverify, hchecked⟩ | ⟨hunverified, fault, hchecks, -⟩ :=
    verifyBlock_spec core hc hb hcomplete
  · have hparent : c.getParentOf height hash = some b.prevHash := by
      rw [hc.getParentOf_eq, hb, Option.map_some]
    have hheader := (hchecked.storesAgree hc).header_of_storedBlock (hchecked.storedBlock_self hc)
    refine ⟨⟨c₁, b₁.header, ⟨⟨_, hparent, hcomplete⟩, hverify, hheader⟩, ?_⟩, ?_⟩
    · exact (hchecked.setsNewTip_iff hc).mp hset
    · rw [hc.getBlockAtHeight_of_storedBlock hb]
      rfl
  · exact absurd hset (not_setsNewTip_of_refused hb hunverified hchecks)

/-- A chain with one level more than the pruning leaves, and a call that creates another level and
makes its block the tip: the lowest levels go, the first block with them. -/
theorem levels_bounded_crowded : ∃ c c', CallRun sampleCore (sampleConfig 10) (Pruned sampleCore) c ∧
    c.levels.size = maxLevels (sampleConfig 10) + 1 ∧ (c.levelAtHeight 0).isSome = true ∧
    (∃ result, addBlockToChain sampleCore IterOrder.stored crowdedBlock c = .ok result c') ∧
    c'.levelAtHeight 0 = none ∧ c'.levels.size ≤ maxLevels (sampleConfig 10) + 1 := by
  have hrun₁ : Run sampleCore (sampleConfig 10) (fun _ => Pruned sampleCore) [sampleBlock 1 0 0 1]
      firstChain :=
    Run.of_blocks IterOrder.stored (fun _ c _ => decide (c.levels.size ≤ maxLevels c.config))
      (fun _ _ _ h => Or.inr (Or.inr (Or.inl (of_decide_eq_true h)))) [sampleBlock 1 0 0 1] (by decide)
  obtain ⟨hist, c, c', hcrowded⟩ := exists_crowded hasFirst_firstChain hrun₁ (by decide)
    (show maxLevels (sampleConfig 10) < 5000 by decide) (fun i hi hist c hconfig hsize =>
      Or.inr (Or.inr (Or.inl (by rw [hconfig, hsize]; exact hi))))
  have hcalls : CallRun sampleCore (sampleConfig 10) (Pruned sampleCore) c :=
    hcrowded.run.callRun fun _ _ _ _ h => h
  obtain ⟨result, hcall⟩ := hcrowded.call
  obtain ⟨w, hvisits, hqueue, hagree, hset⟩ := hcrowded.visit
  have hnext := hcalls.added (Or.inr (Or.inr (Or.inr
    ⟨w, _, _, [], hvisits, hqueue, prunesBehind_of_setsNewTip hagree hset⟩))) (Returns.of_ok hcall)
  rw [hcall, EStateM.Result.state_ok] at hnext
  refine ⟨c, c', hcalls, hcrowded.size, hcrowded.bottom, ⟨result, hcall⟩, ?_,
    levels_bounded hnext⟩
  rw [← Option.not_isSome_iff_eq_none]
  intro hkept
  exact absurd (hcrowded.first hkept) (Nat.not_lt.mpr (Nat.le_succ _))

end P2Chain

end ShaP2Pool
