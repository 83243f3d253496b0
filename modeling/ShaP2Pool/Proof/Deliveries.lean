import ShaP2Pool.Proof.Following
import ShaP2Pool.Proof.Submit

/-!
# Deliveries

A node is sent the blocks of a growing chain as gossip, one by one and some of them again, and in
batches of a sync. After every call it has the growing chain's main chain, and no call asks for a
block. Two nodes that were sent the same blocks therefore have the same main chain if one block is
the heaviest, whatever the order in which they got them.
-/

namespace ShaP2Pool

namespace P2Chain

open InMemoryShareChain

variable {core : TariCore} {s : InMemoryShareChain} {ord : IterOrder} {ords : Nat → IterOrder}
  {now : EpochTime} {config : ChainConfig} {hist : List P2Block} {c c' : P2Chain}
  {t x y b b' : P2Block} {trunk trunk' fed fed' blocks : List P2Block} {depth i : Nat}
  {syncing : Bool} {result : ChainAddResult} {known : List FixedHash}

/-- What the node checks of a block by itself is in order. The header must not have the root of the
block's outputs: the source refuses those that do. -/
structure Sound (core : TariCore) (s : InMemoryShareChain) (now : EpochTime) (b : P2Block) : Prop where
  version : b.version = protocolVersion
  squad : b.squad = s.squad
  uncles : validateUncles b = .ok ()
  timestamp : b.timestamp ≤ maxTimestamp now
  outputs : ∃ outputHash, core.outputMerkleRoot
    (b.coinbases.map core.outputHash ++ [b.otherOutputHash]) = some outputHash ∧
      b.originalHeader.outputMr ≠ outputHash
  claimed : ∃ difficulty, s.validateClaimedDifficulty core b = .ok difficulty

/-! ### One block -/

theorem StoresAgree.blockAlreadyAdded_eq (hc : c.StoresAgree) (b : P2Block) :
    blockAlreadyAdded c b = .ok (c.storedBlock b.height b.hash) := by
  rw [blockAlreadyAdded, storedBlock, getBlockHeaderAtHeight]
  cases hlevel : c.levelAtHeight b.height with
  | none => rfl
  | some level =>
    cases hheader : level.getHeader b.hash with
    | none =>
      have habsent : level.contains b.hash = false := by
        rw [Bool.eq_false_iff]
        intro hcontains
        obtain ⟨header, hfound⟩ := KeyedMap.contains_iff.mp hcontains
        rw [P2ChainLevel.getHeader, hfound] at hheader
        cases hheader
      simp only [habsent, Bool.false_eq_true, if_false, Option.bind_some, hheader, Option.bind_none]
    | some header =>
      have hfound : c.getBlockHeaderAtHeight b.height b.hash = some header :=
        Option.bind_eq_some_iff.mpr ⟨level, hlevel, hheader⟩
      obtain ⟨stored, hcached, -⟩ := hc.cached hfound
      have hcontains : level.contains b.hash = true := KeyedMap.contains_iff.mpr ⟨header, hheader⟩
      simp only [hcontains, if_true, hcached, Option.bind_some, hheader]

theorem Sound.validateBlock_ok (h : Sound core s now b) (hbypass : s.bypassChecks = serverBypass) :
    ∃ b' difficulty, s.validateBlock core now c b = .ok b' ∧
      s.validateClaimedDifficulty core b' = .ok difficulty ∧ b'.withoutStatus = b.withoutStatus := by
  obtain ⟨outputHash, hroot, hne⟩ := h.outputs
  obtain ⟨difficulty, hclaimed⟩ := h.claimed
  rw [validateBlock, h.uncles]
  simp only [hroot]
  rw [if_neg (Nat.not_lt.mpr h.timestamp), if_neg hne]
  cases c.getTargetDifficultyForBlock core b with
  | none => exact ⟨b, difficulty, rfl, hclaimed, rfl⟩
  | some target =>
    refine ⟨{ b with verified := { b.verified with targetDifficulty := true } }, difficulty, ?_,
      hclaimed, rfl⟩
    simp [hbypass, serverBypass]

theorem Follower.of_service (hbypass : s.bypassChecks = serverBypass) (hdepth : depth < s.shareWindow) :
    Follower s.chainConfig depth where
  bypass := hbypass
  wide := (Nat.mul_comm _ _).le
  depth := hdepth

theorem Follows.not_older (hf : Follower s.chainConfig depth)
    (hfollows : Follows s.chainConfig hist trunk fed c) (hgrowth : Growth depth trunk fed)
    (hadds : Adds depth trunk fed x trunk') (hheight : b.height = x.height) :
    s.olderThanShareWindow c b = false := by
  rw [olderThanShareWindow]
  cases htip : c.getTip with
  | none => rfl
  | some tip =>
    have hdepth : depth < s.shareWindow := hf.depth
    have hnear (t : P2Block) (trunk₀ : List P2Block) (heq : trunk = t :: trunk₀)
        (hle : t.height ≤ x.height + depth) : ¬b.height < tip.height - s.shareWindow := by
      have htipHeight := hfollows.tip t (by rw [heq]; rfl)
      rw [height_of_getTip htip, htipHeight, hheight]
      omega
    rw [decide_eq_false_iff_not]
    cases hadds with
    | start hx =>
      have hzero := hfollows.unmarked c.currentTip fun y hy => by cases hy
      exact absurd hzero (exists_getTip_iff.mp ⟨tip, htip⟩)
    | extend hx | stay hx | switch hx =>
      exact hnear _ _ rfl (hx.near _ (hgrowth.mem_of_trunk List.mem_cons_self))

/-- The node takes the next block of a growing chain. -/
theorem Follows.submitted (ord : IterOrder) (syncing : Bool)
    (hbypass : s.bypassChecks = serverBypass) (hdepth : depth < s.shareWindow)
    (hfollows : Follows s.chainConfig hist trunk fed c) (hgrowth : Growth depth trunk fed)
    (hadds : Adds depth trunk fed x trunk') (hcontent : b.withoutStatus = x.withoutStatus)
    (hsound : Sound core s now b) :
    ∃ r c' hist', s.submitBlockWithLock core ord now b syncing c = .ok r c' ∧
      r.missingBlocks = KeyedMap.empty ∧ Follows s.chainConfig hist' trunk' (x :: fed) c' := by
  have hf := Follower.of_service hbypass hdepth
  obtain ⟨b', difficulty, hvalid, hclaimed, hsame⟩ := hsound.validateBlock_ok (c := c) hbypass
  obtain ⟨hheight, hhash, -⟩ := fields_eq hcontent
  have habsent : c.storedBlock b.height b.hash = none := by
    rw [Option.eq_none_iff_forall_ne_some]
    intro old hold
    obtain ⟨a, ha, haContent, -⟩ := hfollows.recorded.content hold
    obtain ⟨y, hy, hyContent⟩ := List.mem_map.mp (hfollows.same ▸ List.mem_map_of_mem ha)
    refine hadds.fresh.new y hy ?_
    rw [hash_of_withoutStatus hyContent, hash_of_withoutStatus haContent,
      hfollows.recorded.agree.hash_of_storedBlock hold, hhash]
  have hyoung := hfollows.not_older hf hgrowth hadds hheight
  generalize hb'' : { b' with verified := { b'.verified with difficulty := true } } = b''
  have hb''Content : b''.withoutStatus = x.withoutStatus := by
    rw [← hcontent, ← hsame, ← hb'']
    rfl
  obtain ⟨c₀, hinsert, hwrites⟩ := Writes.of_insertBlock c b''
  have hs : Receives s.chainConfig depth hist trunk fed c x b'' c₀ :=
    ⟨hf, hgrowth, hfollows, hadds.fresh, hb''Content, hwrites⟩
  obtain ⟨r, c', hadd, hnone, hfollows'⟩ := hs.added core ord hadds hinsert
  refine ⟨r, c', b'' :: hist, ?_, hnone, hfollows'⟩
  rw [submitBlockWithLock]
  simp only [EStateM.bind_apply, EStateM.get_apply,
    hfollows.recorded.agree.blockAlreadyAdded_eq, habsent, EStateM.ofExcept_ok, Option.any_none,
    Bool.false_eq_true, if_false, hyoung, Bool.false_and, hvalid, hclaimed, hb'']
  exact hadd

/-- A recent block that comes again is known already. -/
theorem Follows.again (hfollows : Follows s.chainConfig hist trunk fed c) (hy : y ∈ fed)
    (hrecent : Recent s.chainConfig fed y) (hcontent : b.withoutStatus = y.withoutStatus) :
    s.submitBlockWithLock core ord now b syncing c = .ok {} c := by
  obtain ⟨y₁, hstored, -, hverified⟩ := hfollows.kept y hy hrecent
  obtain ⟨hheight, hhash, -⟩ := fields_eq hcontent
  rw [← hheight, ← hhash] at hstored
  rw [submitBlockWithLock]
  simp only [EStateM.bind_apply, EStateM.get_apply,
    hfollows.recorded.agree.blockAlreadyAdded_eq, hstored, EStateM.ofExcept_ok, Option.any_some,
    hverified, if_true]
  rfl

/-- A gossiped block that comes again changes nothing, recent or not. -/
theorem Follows.gossiped_again (hf : Follower s.chainConfig depth)
    (hfollows : Follows s.chainConfig hist trunk fed c) (hgrowth : Growth depth trunk fed)
    (hy : y ∈ fed) (hcontent : b.withoutStatus = y.withoutStatus) :
    (s.submitBlock core ord now b c).state = c := by
  rw [submitBlock]
  split_ifs
  · rfl
  · rfl
  · by_cases hrecent : Recent s.chainConfig fed y
    · rw [hfollows.again hy hrecent hcontent]
      rfl
    · -- far below the tip, the block is refused for its age if it is not known
      have hold : s.olderThanShareWindow c b = true := by
        obtain ⟨z, hz, hfar⟩ : ∃ z ∈ fed, y.height + maxLevels s.chainConfig ≤ z.height := by
          by_contra hnone
          push Not at hnone
          exact hrecent hnone
        obtain ⟨t, rest, rfl⟩ := hgrowth.exists_end hy
        have htEnd : t.hash ≠ FixedHash.zero :=
          hgrowth.distinct.nonzero t (hgrowth.mem_of_trunk List.mem_cons_self)
        obtain ⟨tip, htip⟩ := exists_getTip_iff.mpr (hfollows.tipHash_eq hf hgrowth ▸ htEnd)
        have hnear := hgrowth.near hz
        have hlevels := hf.lt_maxLevels (n := s.shareWindow) (Nat.le_add_right _ _)
        obtain ⟨hheight, -⟩ := fields_eq hcontent
        rw [olderThanShareWindow, htip]
        simp only [decide_eq_true_eq]
        rw [height_of_getTip htip, hfollows.tip t rfl]
        omega
      rw [submitBlockWithLock]
      simp only [EStateM.bind_apply, EStateM.get_apply,
        hfollows.recorded.agree.blockAlreadyAdded_eq, EStateM.ofExcept_ok, hold, Bool.not_false,
        Bool.and_self, if_true]
      split_ifs <;> rfl

theorem Follows.gossiped (ord : IterOrder) (hbypass : s.bypassChecks = serverBypass)
    (hdepth : depth < s.shareWindow) (hfollows : Follows s.chainConfig hist trunk fed c)
    (hgrowth : Growth depth trunk fed)
    (hadds : Adds depth trunk fed x trunk') (hcontent : b.withoutStatus = x.withoutStatus)
    (hsound : Sound core s now b) :
    ∃ r c' hist', s.submitBlock core ord now b c = .ok r c' ∧ r.missingBlocks = KeyedMap.empty ∧
      Follows s.chainConfig hist' trunk' (x :: fed) c' := by
  rw [submitBlock, if_neg (not_not.mpr hsound.version), if_neg (not_not.mpr hsound.squad)]
  exact hfollows.submitted ord false hbypass hdepth hgrowth hadds hcontent hsound

/-! ### A batch -/

/-- The blocks, in this order, bring a growing chain forward: each is the next block or a recent one
that is there already. -/
inductive Brings (config : ChainConfig) (depth : Nat) :
    List P2Block → List P2Block → List P2Block → List P2Block → List P2Block → Prop
  | nil {trunk fed : List P2Block} : Brings config depth trunk fed [] trunk fed
  | new {trunk trunk₁ trunk' fed fed' blocks : List P2Block} {x b : P2Block}
    (hadds : Adds depth trunk fed x trunk₁) (hcontent : b.withoutStatus = x.withoutStatus)
    (hrest : Brings config depth trunk₁ (x :: fed) blocks trunk' fed') :
    Brings config depth trunk fed (b :: blocks) trunk' fed'
  | known {trunk trunk' fed fed' blocks : List P2Block} {y b : P2Block} (hy : y ∈ fed)
    (hrecent : Recent config fed y) (hcontent : b.withoutStatus = y.withoutStatus)
    (hrest : Brings config depth trunk fed blocks trunk' fed') :
    Brings config depth trunk fed (b :: blocks) trunk' fed'

theorem Brings.growth (h : Brings config depth trunk fed blocks trunk' fed')
    (hgrowth : Growth depth trunk fed) : Growth depth trunk' fed' := by
  induction h with
  | nil => exact hgrowth
  | new hadds _ _ ih => exact ih (hgrowth.add hadds)
  | known _ _ _ _ ih => exact ih hgrowth

theorem reportMissing_of_empty (known : List FixedHash) (result : ChainAddResult)
    {tipChange : ChainAddResult} (h : tipChange.missingBlocks = KeyedMap.empty) :
    reportMissing known result (ord.run 0 tipChange.missingBlocks.values) = (false, result) := by
  rw [h, KeyedMap.values_empty, (ord.perm 0 []).eq_nil]
  rfl

theorem Follows.addSyncedLoop (hbypass : s.bypassChecks = serverBypass)
    (hdepth : depth < s.shareWindow) (hfollows : Follows s.chainConfig hist trunk fed c)
    (hgrowth : Growth depth trunk fed)
    (hbrings : Brings s.chainConfig depth trunk fed blocks trunk' fed')
    (hsound : ∀ b ∈ blocks, Sound core s now b) (hresult : result.missingBlocks = KeyedMap.empty) :
    ∃ r c' hist', s.addSyncedLoop core ords now known i blocks result c = .ok r c' ∧
      r.missingBlocks = KeyedMap.empty ∧ Follows s.chainConfig hist' trunk' fed' c' := by
  induction hbrings generalizing hist c i result with
  | nil => exact ⟨result, c, hist, rfl, hresult, hfollows⟩
  | @new trunk trunk₁ trunk' fed fed' blocks x b hadds hcontent _ ih =>
    obtain ⟨hb, hrest⟩ := List.forall_mem_cons.mp hsound
    obtain ⟨tipChange, c₁, hist₁, hsubmit, hnone, hfollows₁⟩ :=
      hfollows.submitted (ords i) true hbypass hdepth hgrowth hadds hcontent hb
    rw [InMemoryShareChain.addSyncedLoop, if_neg (not_not.mpr hb.version),
      if_neg (not_not.mpr hb.squad)]
    simp only [EStateM.bind_apply, hsubmit, reportMissing_of_empty _ _ hnone, Bool.false_eq_true,
      if_false]
    exact ih hfollows₁ (hgrowth.add hadds) hrest hresult
  | @known trunk trunk' fed fed' blocks y b hy hrecent hcontent _ ih =>
    obtain ⟨hb, hrest⟩ := List.forall_mem_cons.mp hsound
    rw [InMemoryShareChain.addSyncedLoop, if_neg (not_not.mpr hb.version),
      if_neg (not_not.mpr hb.squad)]
    have hnone : ({} : ChainAddResult).missingBlocks = KeyedMap.empty := rfl
    simp only [EStateM.bind_apply, hfollows.again hy hrecent hcontent,
      reportMissing_of_empty _ _ hnone, Bool.false_eq_true, if_false]
    exact ih hfollows hgrowth hrest hresult

theorem Follows.synced (ords : Nat → IterOrder) (hbypass : s.bypassChecks = serverBypass)
    (hdepth : depth < s.shareWindow) (hfollows : Follows s.chainConfig hist trunk fed c)
    (hgrowth : Growth depth trunk fed)
    (hbrings : Brings s.chainConfig depth trunk fed
      (blocks.insertionSort fun a b => a.height ≤ b.height) trunk' fed')
    (hsound : ∀ b ∈ blocks, Sound core s now b) :
    ∃ r c' hist', s.addSyncedBlocks core ords now blocks c = .ok r c' ∧
      r.missingBlocks = KeyedMap.empty ∧ Follows s.chainConfig hist' trunk' fed' c' :=
  hfollows.addSyncedLoop hbypass hdepth hgrowth hbrings
    (fun b hb => hsound b ((List.mem_insertionSort _).mp hb)) rfl

/-! ### Runs -/

/-- The chains of a node that has been sent the blocks `fed` of a growing chain with the main chain
`trunk`: as gossip, where a block may come again, and in batches. -/
inductive Delivered (core : TariCore) (s : InMemoryShareChain) (depth : Nat) :
    List P2Block → List P2Block → P2Chain → Prop
  | empty : Delivered core s depth [] [] (newEmpty s.chainConfig)
  | gossiped {trunk trunk' fed : List P2Block} {c : P2Chain} {x b : P2Block} (ord : IterOrder)
    (now : EpochTime) (hrun : Delivered core s depth trunk fed c)
    (hadds : Adds depth trunk fed x trunk') (hcontent : b.withoutStatus = x.withoutStatus)
    (hsound : Sound core s now b) :
    Delivered core s depth trunk' (x :: fed) (s.submitBlock core ord now b c).state
  | again {trunk fed : List P2Block} {c : P2Chain} {y b : P2Block} (ord : IterOrder)
    (now : EpochTime) (hrun : Delivered core s depth trunk fed c) (hy : y ∈ fed)
    (hcontent : b.withoutStatus = y.withoutStatus) :
    Delivered core s depth trunk fed (s.submitBlock core ord now b c).state
  | synced {trunk trunk' fed fed' blocks : List P2Block} {c : P2Chain} (ords : Nat → IterOrder)
    (now : EpochTime) (hrun : Delivered core s depth trunk fed c)
    (hbrings : Brings s.chainConfig depth trunk fed
      (blocks.insertionSort fun a b => a.height ≤ b.height) trunk' fed')
    (hsound : ∀ b ∈ blocks, Sound core s now b) :
    Delivered core s depth trunk' fed' (s.addSyncedBlocks core ords now blocks c).state

theorem Delivered.growth (hrun : Delivered core s depth trunk fed c) : Growth depth trunk fed := by
  induction hrun with
  | empty => exact Growth.nil
  | gossiped _ _ _ hadds _ _ ih => exact ih.add hadds
  | again _ _ _ _ _ ih => exact ih
  | synced _ _ _ hbrings _ ih => exact hbrings.growth ih

theorem Delivered.follows (hrun : Delivered core s depth trunk fed c)
    (hbypass : s.bypassChecks = serverBypass) (hdepth : depth < s.shareWindow) :
    ∃ hist, Follows s.chainConfig hist trunk fed c := by
  induction hrun with
  | empty => exact ⟨[], Follows.newEmpty s.chainConfig⟩
  | @gossiped trunk trunk' fed c x b ord now hrun hadds hcontent hsound ih =>
    obtain ⟨hist, hfollows⟩ := ih
    obtain ⟨r, c', hist', hok, -, hfollows'⟩ :=
      hfollows.gossiped ord hbypass hdepth hrun.growth hadds hcontent hsound
    rw [hok]
    exact ⟨hist', hfollows'⟩
  | @again trunk fed c y b ord now hrun hy hcontent ih =>
    obtain ⟨hist, hfollows⟩ := ih
    rw [hfollows.gossiped_again (Follower.of_service hbypass hdepth) hrun.growth hy hcontent]
    exact ⟨hist, hfollows⟩
  | @synced trunk trunk' fed fed' blocks c ords now hrun hbrings hsound ih =>
    obtain ⟨hist, hfollows⟩ := ih
    obtain ⟨r, c', hist', hok, -, hfollows'⟩ :=
      hfollows.synced ords hbypass hdepth hrun.growth hbrings hsound
    rw [hok]
    exact ⟨hist', hfollows'⟩

/-- A node that is sent a growing chain of sound blocks has its main chain: the tip is the heaviest
block so far, the recent blocks are stored and verified, the marks on them are those of the main
chain, and neither the next sound block nor the next batch of them fails or asks for a block. -/
theorem delivered_main_chain (hbypass : s.bypassChecks = serverBypass)
    (hdepth : depth < s.shareWindow) (hrun : Delivered core s depth (t :: trunk) fed c) :
    (c.currentTip = t.height ∧ c.tipHash = t.hash ∧ ∀ y ∈ fed, y.totalPow ≤ t.totalPow) ∧
    (∀ y ∈ fed, Recent s.chainConfig fed y →
      (∃ y₁, c.storedBlock y.height y.hash = some y₁ ∧ y₁.withoutStatus = y.withoutStatus ∧
        y₁.verified.isVerified = true) ∧
      (c.chainBlockAt y.height = y.hash ↔ y ∈ t :: trunk)) ∧
    (∀ ord now x b trunk', Adds depth (t :: trunk) fed x trunk' →
      b.withoutStatus = x.withoutStatus → Sound core s now b →
      ∃ r c', s.submitBlock core ord now b c = .ok r c' ∧ r.missingBlocks = KeyedMap.empty) ∧
    ∀ ords now blocks trunk' fed', Brings s.chainConfig depth (t :: trunk) fed
        (blocks.insertionSort fun a b => a.height ≤ b.height) trunk' fed' →
      (∀ b ∈ blocks, Sound core s now b) →
      ∃ r c', s.addSyncedBlocks core ords now blocks c = .ok r c' ∧
        r.missingBlocks = KeyedMap.empty := by
  have hgrowth := hrun.growth
  obtain ⟨hist, hfollows⟩ := hrun.follows hbypass hdepth
  refine ⟨⟨hfollows.tip t rfl, hfollows.tipHash_eq (Follower.of_service hbypass hdepth) hgrowth,
    fun y => hgrowth.heaviest⟩, fun y hy hrecent => ⟨hfollows.kept y hy hrecent, fun hmark => ?_,
      fun hmem => hfollows.marked y hmem hrecent⟩, ?_, ?_⟩
  · by_contra hside
    exact hfollows.offMain hgrowth hy hside hrecent hmark
  · intro ord now x b trunk' hadds hcontent hsound
    obtain ⟨r, c', -, hok, hnone, -⟩ :=
      hfollows.gossiped ord hbypass hdepth hgrowth hadds hcontent hsound
    exact ⟨r, c', hok, hnone⟩
  · intro ords now blocks trunk' fed' hbrings hsound
    obtain ⟨r, c', -, hok, hnone, -⟩ :=
      hfollows.synced ords hbypass hdepth hgrowth hbrings hsound
    exact ⟨r, c', hok, hnone⟩

/-! ### A fork of two blocks -/

/-- Two blocks stand on the first one, and a fourth block stands on the second of them. -/
def forkRoot : P2Block := submittedBlock 1 0 0 1 false
def forkLeft : P2Block := submittedBlock 2 1 1 2 false
def forkRight : P2Block := submittedBlock 3 1 1 2 false
def forkTop : P2Block := submittedBlock 4 3 2 3 false

theorem sound_submittedBlock (hash prevHash : FixedHash) (height : Nat)
    (totalPow : AccumulatedDifficulty) (now : EpochTime) : Sound sampleCore (sampleShareChain 10) now
      (submittedBlock hash prevHash height totalPow false) where
  version := rfl
  squad := rfl
  uncles := by
    rw [validateUncles]
    simp [submittedBlock, sampleBlock, uncleLimit, validateUncleAges]
  timestamp := Nat.zero_le _
  outputs := ⟨0, rfl, Nat.one_ne_zero⟩
  claimed := ⟨1, rfl⟩

theorem forkRoot_starts : Adds 3 [] [] forkRoot [forkRoot] := .start (by decide)

theorem exists_delivered_left : ∃ c, Delivered sampleCore (sampleShareChain 10) 3
    [forkTop, forkRight, forkRoot] [forkTop, forkRight, forkLeft, forkRoot] c := by
  have hleft : Adds 3 [forkRoot] [forkRoot] forkLeft [forkLeft, forkRoot] :=
    .extend (show Joins 3 [forkRoot] forkLeft forkRoot [] by decide) (by simp)
  have hright : Adds 3 [forkLeft, forkRoot] [forkLeft, forkRoot] forkRight [forkLeft, forkRoot] :=
    .stay (show Joins 3 [forkLeft, forkRoot] forkRight forkRoot [] by decide) (by decide) (by decide)
      (by decide)
  have htop : Adds 3 [forkLeft, forkRoot] [forkRight, forkLeft, forkRoot] forkTop
      [forkTop, forkRight, forkRoot] :=
    .switch (show Joins 3 [forkRight, forkLeft, forkRoot] forkTop forkRight [] by decide) (by decide)
      (by decide) ((Trunk.bottom rfl rfl).step rfl rfl) (by decide) (by decide)
  have hrun : Delivered sampleCore (sampleShareChain 10) 3 [] [] _ := .empty
  have hrun₁ := hrun.gossiped .stored 0 forkRoot_starts rfl (sound_submittedBlock 1 0 0 1 0)
  have hrun₂ := hrun₁.gossiped .stored 0 hleft rfl (sound_submittedBlock 2 1 1 2 0)
  have hrun₃ := hrun₂.gossiped .stored 0 hright rfl (sound_submittedBlock 3 1 1 2 0)
  exact ⟨_, hrun₃.gossiped .stored 0 htop rfl (sound_submittedBlock 4 3 2 3 0)⟩

/-- The node that went over to the right block has marked the right one. -/
theorem delivered_main_chain_fork : ∃ c, Delivered sampleCore (sampleShareChain 10) 3
    [forkTop, forkRight, forkRoot] [forkTop, forkRight, forkLeft, forkRoot] c ∧ c.currentTip = 2 ∧
      c.tipHash = 4 ∧ c.chainBlockAt 1 = 3 := by
  obtain ⟨c, hrun⟩ := exists_delivered_left
  obtain ⟨⟨htip, hhash, -⟩, hrecent, -⟩ := delivered_main_chain rfl (by decide) hrun
  exact ⟨c, hrun, htip, hhash, (hrecent forkRight (by decide) (by
    unfold Recent
    decide)).2.mpr (by decide)⟩

theorem exists_delivered_right : ∃ c, Delivered sampleCore (sampleShareChain 10) 3
    [forkTop, forkRight, forkRoot] [forkTop, forkLeft, forkRight, forkRoot] c := by
  have hright : Adds 3 [forkRoot] [forkRoot] forkRight [forkRight, forkRoot] :=
    .extend (show Joins 3 [forkRoot] forkRight forkRoot [] by decide) (by simp)
  have hleft : Adds 3 [forkRight, forkRoot] [forkRight, forkRoot] forkLeft [forkRight, forkRoot] :=
    .stay (show Joins 3 [forkRight, forkRoot] forkLeft forkRoot [] by decide) (by decide) (by decide)
      (by decide)
  have htop : Adds 3 [forkRight, forkRoot] [forkLeft, forkRight, forkRoot] forkTop
      [forkTop, forkRight, forkRoot] :=
    .extend (show Joins 3 [forkLeft, forkRight, forkRoot] forkTop forkRight [] by decide) (by simp)
  have hrun : Delivered sampleCore (sampleShareChain 10) 3 [] [] _ := .empty
  have hrun₁ := hrun.gossiped .stored 0 forkRoot_starts rfl (sound_submittedBlock 1 0 0 1 0)
  have hbatch : Brings (sampleShareChain 10).chainConfig 3 [forkRoot] [forkRoot]
      ([forkTop, forkRight, forkLeft].insertionSort fun a b => a.height ≤ b.height)
      [forkTop, forkRight, forkRoot] [forkTop, forkLeft, forkRight, forkRoot] :=
    .new hright rfl (.new hleft rfl (.new htop rfl .nil))
  refine ⟨_, hrun₁.synced (fun _ => .stored) 0 hbatch ?_⟩
  simp only [List.forall_mem_cons]
  exact ⟨sound_submittedBlock 4 3 2 3 0, sound_submittedBlock 3 1 1 2 0,
    sound_submittedBlock 2 1 1 2 0, fun b hb => by cases hb⟩

/-! ### Two nodes -/

section Agreement

variable {core₁ core₂ : TariCore} {s₁ s₂ : InMemoryShareChain} {config₁ config₂ : ChainConfig}
  {depth₁ depth₂ : Nat} {hist₁ hist₂ : List P2Block} {t₁ t₂ : P2Block}
  {trunk₁ trunk₂ fed₁ fed₂ : List P2Block} {c₁ c₂ : P2Chain}

/-- Two chains that follow, of the same blocks, agree if one block is the heaviest. -/
theorem Follows.agree (hf₁ : Follower config₁ depth₁) (hf₂ : Follower config₂ depth₂)
    (hgrowth₁ : Growth depth₁ (t₁ :: trunk₁) fed₁) (hgrowth₂ : Growth depth₂ (t₂ :: trunk₂) fed₂)
    (hfollows₁ : Follows config₁ hist₁ (t₁ :: trunk₁) fed₁ c₁)
    (hfollows₂ : Follows config₂ hist₂ (t₂ :: trunk₂) fed₂ c₂)
    (hsame : ∀ y, y ∈ fed₁ ↔ y ∈ fed₂) (hheaviest : ∀ y ∈ fed₁, t₁.totalPow ≤ y.totalPow → y = t₁) :
    c₁.currentTip = c₂.currentTip ∧ c₁.tipHash = c₂.tipHash ∧
      ∀ n, (∀ y ∈ fed₁, y.height < n + maxLevels config₁ ∧ y.height < n + maxLevels config₂) →
        c₁.chainBlockAt n = c₂.chainBlockAt n := by
  have hmem₁ : t₁ ∈ fed₁ := hgrowth₁.mem_of_trunk List.mem_cons_self
  have hmem₂ : t₂ ∈ fed₂ := hgrowth₂.mem_of_trunk List.mem_cons_self
  obtain rfl : t₂ = t₁ :=
    hheaviest t₂ ((hsame t₂).mpr hmem₂) (hgrowth₂.heaviest ((hsame t₁).mp hmem₁))
  refine ⟨?_, ?_, fun n hn => ?_⟩
  · rw [hfollows₁.tip t₂ rfl, hfollows₂.tip t₂ rfl]
  · rw [hfollows₁.tipHash_eq hf₁ hgrowth₁, hfollows₂.tipHash_eq hf₂ hgrowth₂]
  · obtain hgt | hle := Nat.lt_or_ge t₂.height n
    · rw [hfollows₁.unmarked n fun y hy => (hgrowth₁.mainChain.height_le hy).trans_lt hgt,
        hfollows₂.unmarked n fun y hy => (hgrowth₂.mainChain.height_le hy).trans_lt hgt]
    · -- the two paths down from the tip are one
      obtain ⟨y, hy, rfl⟩ := hgrowth₁.mainChain.exists_at List.mem_cons_self hle
      have hy₂ : y ∈ t₂ :: trunk₂ :=
        hgrowth₁.mainChain.mem_of_mem hgrowth₂.mainChain hgrowth₁.distinct
          (fun z => hgrowth₁.mem_of_trunk) (fun z hz => (hsame z).mpr (hgrowth₂.mem_of_trunk hz))
          List.mem_cons_self List.mem_cons_self hy hle
      rw [hfollows₁.marked y hy fun z hz => (hn z hz).1,
        hfollows₂.marked y hy₂ fun z hz => (hn z ((hsame z).mpr hz)).2]

/-- Two nodes that were sent the same blocks, sound for both, each in its own order, have the same
main chain if one block is the heaviest. -/
theorem deliveries_agree (hbypass₁ : s₁.bypassChecks = serverBypass)
    (hdepth₁ : depth₁ < s₁.shareWindow) (hbypass₂ : s₂.bypassChecks = serverBypass)
    (hdepth₂ : depth₂ < s₂.shareWindow)
    (hrun₁ : Delivered core₁ s₁ depth₁ (t₁ :: trunk₁) fed₁ c₁)
    (hrun₂ : Delivered core₂ s₂ depth₂ (t₂ :: trunk₂) fed₂ c₂)
    (hsame : ∀ y, y ∈ fed₁ ↔ y ∈ fed₂) (hheaviest : ∀ y ∈ fed₁, t₁.totalPow ≤ y.totalPow → y = t₁) :
    c₁.currentTip = c₂.currentTip ∧ c₁.tipHash = c₂.tipHash ∧
      ∀ n, (∀ y ∈ fed₁, y.height < n + maxLevels s₁.chainConfig ∧
        y.height < n + maxLevels s₂.chainConfig) → c₁.chainBlockAt n = c₂.chainBlockAt n := by
  obtain ⟨hist₁, hfollows₁⟩ := hrun₁.follows hbypass₁ hdepth₁
  obtain ⟨hist₂, hfollows₂⟩ := hrun₂.follows hbypass₂ hdepth₂
  exact hfollows₁.agree (Follower.of_service hbypass₁ hdepth₁) (Follower.of_service hbypass₂ hdepth₂)
    hrun₁.growth hrun₂.growth hfollows₂ hsame hheaviest

/-- The two nodes of the fork. -/
theorem deliveries_agree_fork : ∃ c₁ c₂, Delivered sampleCore (sampleShareChain 10) 3
    [forkTop, forkRight, forkRoot] [forkTop, forkRight, forkLeft, forkRoot] c₁ ∧
      Delivered sampleCore (sampleShareChain 10) 3 [forkTop, forkRight, forkRoot]
        [forkTop, forkLeft, forkRight, forkRoot] c₂ ∧ c₁.tipHash = c₂.tipHash := by
  obtain ⟨c₁, hrun₁⟩ := exists_delivered_left
  obtain ⟨c₂, hrun₂⟩ := exists_delivered_right
  have hsame (y : P2Block) : y ∈ [forkTop, forkRight, forkLeft, forkRoot] ↔
      y ∈ [forkTop, forkLeft, forkRight, forkRoot] := by
    simp only [List.mem_cons]
    tauto
  obtain ⟨-, hhash, -⟩ := deliveries_agree rfl (by decide) rfl (by decide) hrun₁ hrun₂ hsame (by decide)
  exact ⟨c₁, c₂, hrun₁, hrun₂, hhash⟩

end Agreement

end P2Chain

end ShaP2Pool
