import ShaP2Pool.Sharechain.Loops
import ShaP2Pool.Proof.Descendants
import ShaP2Pool.Proof.Overflow
import ShaP2Pool.Proof.Upkeep

/-!
# The walk and its loops end

Blocks can be forged: parents and uncles may form cycles, and one hash may be stored at several
heights. Nothing here asks the levels and the block cache to agree, so the results hold of every
chain value. A loop that counts rounds is bounded by its counter, the loop that goes up by the
levels above, and the walk by the stored pairs of height and hash, of which it takes up none twice.
-/

namespace ShaP2Pool

namespace P2Chain

variable {core : TariCore} {ord : IterOrder} {n height : Nat} {hash : FixedHash}
variable {c c' c₀ : P2Chain}

/-! ### The loops of one verification -/

/-- The search down from a block is left by its counter at the latest. -/
theorem scan_leaves (steps : Nat) (s : ScanState)
    (hsteps : steps = max 1 (c.config.shareWindow - s.counter)) :
    Leaves (scanRound c) s (c.scanAncestors steps s.currentCountingBlock s.chainAddResult) := by
  induction steps generalizing s with
  | zero => omega
  | succ steps ih =>
    have hlast : steps = 0 ↔ c.config.shareWindow ≤ s.counter + 1 := by omega
    rw [scanAncestors]
    by_cases hzero : s.currentCountingBlock.height = 0
    · rw [if_pos hzero]
      exact Leaves.of_inr (by rw [scanRound, if_pos hzero])
    · rw [if_neg hzero]
      cases hparent : c.getBlockHeaderAtHeight (s.currentCountingBlock.height - 1)
          s.currentCountingBlock.prevHash with
      | none => exact Leaves.of_inr (by simp only [scanRound, if_neg hzero, hparent])
      | some parent =>
        simp only
        by_cases hverified : (!parent.verified.isVerified) = true
        · rw [if_pos hverified]
          apply Leaves.of_inr
          simp only [scanRound, if_neg hzero, hparent, if_pos hverified]
        · by_cases hend : steps = 0
          · rw [if_neg hverified, if_pos hend]
            apply Leaves.of_inr
            simp only [scanRound, if_neg hzero, hparent, if_neg hverified, if_pos (hlast.mp hend)]
          · rw [if_neg hverified, if_neg hend]
            have hgoes := mt hlast.mpr hend
            cases hlevel : c.levelAtHeight s.currentCountingBlock.height with
            | none =>
              apply Leaves.of_inr
              simp only [scanRound, if_neg hzero, hparent, if_neg hverified, if_neg hgoes, hlevel]
            | some level =>
              simp only
              by_cases hmain : level.chainBlock = s.currentCountingBlock.hash
              · rw [if_pos hmain]
                apply Leaves.of_inr
                simp only [scanRound, if_neg hzero, hparent, if_neg hverified, if_neg hgoes, hlevel,
                  if_pos hmain]
              · rw [if_neg hmain]
                refine Leaves.of_inl ?_ (ih { s with
                  currentCountingBlock := parent
                  counter := s.counter + 1 } (by simp only; omega))
                simp only [scanRound, if_neg hzero, hparent, if_neg hverified, if_neg hgoes, hlevel,
                  if_neg hmain]

theorem reset_leaves (rounds : Nat) (c : P2Chain) (height : Nat)
    (hrounds : c.levelsAbove height < rounds) :
    Leaves resetRound (c, height) (resetLinksAbove rounds c height) := by
  induction rounds generalizing c height with
  | zero => omega
  | succ rounds ih =>
    rw [resetLinksAbove]
    cases hlevel : c.levelAtHeight (saturatingAdd height 1) with
    | none => exact Leaves.of_inr (by simp only [resetRound, hlevel])
    | some level =>
      simp only
      by_cases hoverflow : u64Max < height + 1
      · rw [if_pos hoverflow]
        exact Leaves.of_inr (by simp only [resetRound, hlevel, if_pos hoverflow])
      · rw [if_neg hoverflow]
        have hnext : saturatingAdd height 1 = height + 1 := Nat.min_eq_left (by omega)
        rw [hnext] at hlevel
        have hmarked := SameBlocks.putMark
          (by rw [height_of_levelAtHeight hlevel]; exact hlevel) FixedHash.zero
        have hsame : (c.putLevel (level.setChainBlock FixedHash.zero)).levelsAbove (height + 1) =
            c.levelsAbove (height + 1) :=
          levelsAbove_congr fun height' _ => hmarked.levelAtHeight_isSome height'
        have hfewer := levelsAbove_succ_lt hlevel
        refine Leaves.of_inl ?_ (ih _ (height + 1) (by omega))
        simp only [resetRound, hnext, hlevel, if_neg hoverflow]

/-- The loop that goes down from a new tip is left by its counter at the latest. -/
theorem relink_leaves (steps : Nat) (s : RelinkState)
    (hsteps : steps = max 1 (s.chain.config.shareWindow - s.counter)) :
    Leaves relinkRound s (relinkAncestors steps s.chain s.currentBlock s.lwma) := by
  induction steps generalizing s with
  | zero => omega
  | succ steps ih =>
    have hlast : steps = 0 ↔ s.chain.config.shareWindow ≤ s.counter + 1 := by omega
    -- the test at the end of a round, and the rounds after it
    have hnext (t : RelinkState) (hround : relinkRound s = relinkNext t)
        (hconfig : t.chain.config = s.chain.config) (hcounter : t.counter = s.counter + 1) :
        Leaves relinkRound s (if t.currentBlock.height = 0 then .ok (t.chain, t.lwma)
          else relinkAncestors steps t.chain t.currentBlock t.lwma) := by
      rw [relinkNext, hconfig, hcounter] at hround
      by_cases hzero : t.currentBlock.height = 0
      · rw [if_pos (Or.inl hzero)] at hround
        rw [if_pos hzero]
        exact Leaves.of_inr hround
      · rw [if_neg hzero]
        by_cases hend : steps = 0
        · rw [if_pos (Or.inr (hlast.mp hend))] at hround
          subst hend
          exact Leaves.of_inr hround
        · rw [if_neg (not_or.mpr ⟨hzero, mt hlast.mpr hend⟩)] at hround
          exact Leaves.of_inl hround (ih t (by rw [hconfig, hcounter]; omega))
    rw [relinkAncestors]
    cases hlevel : s.chain.levelAtHeight (s.currentBlock.height - 1) with
    | none => exact Leaves.of_inr (by simp only [relinkRound, hlevel])
    | some parentLevel =>
      simp only
      by_cases hmark : s.currentBlock.prevHash ≠ parentLevel.chainBlock
      · rw [if_pos hmark]
        cases hheader : parentLevel.getHeader s.currentBlock.prevHash with
        | none => exact Leaves.of_inr (by simp only [relinkRound, hlevel, if_pos hmark, hheader])
        | some next =>
          apply hnext {
            chain := s.chain.putLevel (parentLevel.setChainBlock s.currentBlock.prevHash)
            currentBlock := next
            counter := s.counter + 1
            lwma := s.lwma.pushFront (next.timestamp, next.targetDifficulty) }
          · simp only [relinkRound, hlevel, if_pos hmark, hheader]
          · rfl
          · rfl
      · rw [if_neg hmark]
        by_cases hroom : (!s.lwma.isFull) = true
        · rw [if_pos hroom]
          cases hheader : parentLevel.getHeader s.currentBlock.prevHash with
          | none =>
            simp only
            by_cases hzero : s.currentBlock.height = 0
            · rw [if_pos hzero]
              apply Leaves.of_inr
              simp only [relinkRound, hlevel, if_neg hmark, if_pos hroom, hheader, if_pos hzero]
            · rw [if_neg hzero]
              apply Leaves.of_inr
              simp only [relinkRound, hlevel, if_neg hmark, if_pos hroom, hheader, if_neg hzero]
          | some next =>
            apply hnext { s with
              currentBlock := next
              counter := s.counter + 1
              lwma := s.lwma.pushFront (next.timestamp, next.targetDifficulty) }
            · simp only [relinkRound, hlevel, if_neg hmark, if_pos hroom, hheader]
            · rfl
            · rfl
        · rw [if_neg hroom]
          exact Leaves.of_inr (by simp only [relinkRound, hlevel, if_neg hmark, if_neg hroom])

theorem lwma_leaves (steps : Nat) (block : P2BlockHeader) (lwma : LinearWeightedMovingAverage)
    (hsteps : difficultyAdjustmentWindow + 1 ≤ steps + lwma.items.length) :
    Leaves (lwmaRound c) (block, lwma) (c.lwmaFromHeaders steps block lwma) := by
  induction steps generalizing block lwma with
  | zero =>
    rw [lwmaFromHeaders]
    exact Leaves.of_inr (by rw [lwmaRound, if_pos (Window.isFull_iff.mpr (by omega))])
  | succ steps ih =>
    rw [lwmaFromHeaders]
    by_cases hfull : lwma.isFull = true
    · rw [if_pos hfull]
      exact Leaves.of_inr (by rw [lwmaRound, if_pos hfull])
    · rw [if_neg hfull]
      cases hheader : c.getBlockHeaderAtHeight (block.height - 1) block.prevHash with
      | none => exact Leaves.of_inr (by simp only [lwmaRound, if_neg hfull, hheader])
      | some next =>
        simp only
        by_cases hzero : next.height = 0
        · rw [if_pos hzero]
          exact Leaves.of_inr (by simp only [lwmaRound, if_neg hfull, hheader, if_pos hzero])
        · rw [if_neg hzero]
          have hlength := Window.length_pushFront lwma (next.timestamp, next.targetDifficulty)
          refine Leaves.of_inl ?_ (ih next _ (by omega))
          simp only [lwmaRound, if_neg hfull, hheader, if_neg hzero]

/-- Every round of the search for timestamps adds one. -/
theorem median_leaves (steps : Nat) (block : P2BlockHeader) (timestamps : List EpochTime)
    (hsteps : steps = medianTimestampWindow - timestamps.length) :
    Leaves (medianRound c) (block, timestamps)
      ((c.ancestorTimestamps steps block).map (timestamps ++ ·)) := by
  induction steps generalizing block timestamps with
  | zero =>
    have hfull : medianTimestampWindow ≤ timestamps.length := by omega
    apply Leaves.of_inr
    rw [medianRound, if_pos hfull, ancestorTimestamps, Except.map, List.append_nil]
  | succ steps ih =>
    have hfull : ¬medianTimestampWindow ≤ timestamps.length := by omega
    rw [ancestorTimestamps]
    by_cases hzero : block.height = 0
    · rw [if_pos hzero, Except.map, List.append_nil]
      exact Leaves.of_inr (by rw [medianRound, if_neg hfull, if_pos hzero])
    · rw [if_neg hzero]
      cases hlevel : c.levelAtHeight (block.height - 1) with
      | none =>
        exact Leaves.of_inr (by simp only [medianRound, if_neg hfull, if_neg hzero, hlevel]; rfl)
      | some level =>
        simp only
        cases hheader : level.getHeader block.prevHash with
        | none =>
          apply Leaves.of_inr
          simp only [medianRound, if_neg hfull, if_neg hzero, hlevel, hheader]
          rfl
        | some parent =>
          have hround : medianRound c (block, timestamps) =
              .inl (parent, timestamps ++ [parent.timestamp]) := by
            simp only [medianRound, if_neg hfull, if_neg hzero, hlevel, hheader]
          have hrest := ih parent (timestamps ++ [parent.timestamp])
            (by rw [List.length_append, List.length_singleton]; omega)
          cases holder : c.ancestorTimestamps steps parent with
          | error e =>
            rw [holder] at hrest
            simp only [holder]
            exact Leaves.of_inl hround hrest
          | ok older =>
            simp only [holder, Except.map, List.append_assoc, List.singleton_append] at hrest ⊢
            exact Leaves.of_inl hround hrest

theorem share_leaves (steps stopHeight : Nat) (block : P2BlockHeader) (shares : MinerShares)
    (hsteps : steps = block.height - stopHeight) :
    Leaves (shareRound c stopHeight) (block, shares) (c.countAncestors steps block shares) := by
  induction steps generalizing block shares with
  | zero =>
    rw [countAncestors]
    exact Leaves.of_inr (by rw [shareRound, if_pos (by omega)])
  | succ steps ih =>
    have habove : ¬block.height ≤ stopHeight := by omega
    rw [countAncestors]
    cases hheader : c.getBlockHeaderAtHeight (block.height - 1) block.prevHash with
    | none => exact Leaves.of_inr (by simp only [shareRound, if_neg habove, hheader])
    | some parent =>
      simp only
      cases hcount : c.countBlock parent shares with
      | error e => exact Leaves.of_inr (by simp only [shareRound, if_neg habove, hheader, hcount])
      | ok counted =>
        simp only
        by_cases hzero : parent.height = 0
        · rw [if_pos hzero]
          apply Leaves.of_inr
          simp only [shareRound, if_neg habove, hheader, hcount, if_pos hzero]
        · rw [if_neg hzero]
          have hheight := height_of_getBlockHeaderAtHeight hheader
          refine Leaves.of_inl ?_ (ih parent counted (by omega))
          simp only [shareRound, if_neg habove, hheader, hcount, if_neg hzero]

/-! ### A verification stores nothing new -/

def HasPair (c : P2Chain) (pair : Nat × FixedHash) : Prop :=
  (c.getBlockHeaderAtHeight pair.1 pair.2).isSome = true

def PairsIn (S : Nat × FixedHash → Prop) (c : P2Chain) : Prop := ∀ pair, c.HasPair pair → S pair

namespace PairsIn

variable {S : Nat × FixedHash → Prop}

theorem of_sameBlocks (hin : c.PairsIn S) (hsame : SameBlocks c c') : c'.PairsIn S := by
  intro pair hpair
  rw [HasPair, hsame.getBlockHeaderAtHeight] at hpair
  exact hin pair hpair

theorem removeLevel (hin : c.PairsIn S) : (c.removeLevel height).PairsIn S := by
  rintro ⟨height', hash'⟩ hstored
  rw [HasPair, getBlockHeaderAtHeight, levelAtHeight_removeLevel] at hstored
  split_ifs at hstored with heq
  · simp at hstored
  · exact hin (height', hash') hstored

theorem keptByWrites : KeptByWrites (PairsIn S) where
  same hsame _ hin := hin.of_sameBlocks hsame
  removed _ hin := hin.removeLevel
  checked {c c' b v} _ hstored hw hin := by
    rintro ⟨height', hash'⟩ hpair
    rw [HasPair, hw.headers] at hpair
    split_ifs at hpair with hsame
    · obtain ⟨rfl, rfl⟩ := hsame
      exact hin (b.height, b.hash) hstored
    · exact hin (height', hash') hpair

end PairsIn

/-! ### What is looked at next -/

theorem HasPair.of_getAllChildrenAndNephews {next : List (Nat × FixedHash)}
    (h : c.getAllChildrenAndNephews ord n height hash = .ok next) :
    ∀ item ∈ next, c.HasPair item := by
  intro item hitem
  rw [getAllChildrenAndNephews] at h
  split_ifs at h
  obtain rfl := Except.ok.inj h
  obtain ⟨header, hheader, rfl, -⟩ := mem_childrenAndNephews_iff.mp hitem
  exact Option.isSome_of_eq_some hheader

theorem next_of_extendTip {block : P2BlockHeader} {addResult : ChainAddResult}
    {next : List (Nat × FixedHash)}
    (h : extendTip ord n height hash block c = .ok (addResult, next) c') :
    c'.getAllChildrenAndNephews ord n height hash = .ok next := by
  obtain ⟨_, -, h⟩ := EStateM.exists_of_ofExcept_bind_eq_ok h
  obtain ⟨_, c₁, -, h⟩ := EStateM.exists_of_bind_eq_ok h
  obtain ⟨items, hitems, h⟩ := EStateM.exists_of_ofExcept_bind_eq_ok h
  cases h
  exact hitems

theorem next_of_checkReorg {block : P2BlockHeader} {addResult : ChainAddResult}
    {next : List (Nat × FixedHash)}
    (h : checkReorg ord n height hash block c = .ok (addResult, next) c') :
    c'.getAllChildrenAndNephews ord n height hash = .ok next := by
  obtain ⟨⟨verified, result⟩, -, h⟩ := EStateM.exists_of_ofExcept_bind_eq_ok h
  simp only at h
  split_ifs at h
  · obtain ⟨items, hitems, h⟩ := EStateM.exists_of_ofExcept_bind_eq_ok h
    cases h
    exact hitems
  · obtain ⟨c₁, -, h⟩ := EStateM.exists_of_ofExcept_bind_eq_ok h
    obtain ⟨items, hitems, h⟩ := EStateM.exists_of_ofExcept_bind_eq_ok h
    cases h
    exact hitems
  · obtain ⟨items, hitems, h⟩ := EStateM.exists_of_ofExcept_bind_eq_ok h
    cases h
    exact hitems

/-- A verification that succeeds goes on with nothing, or with the children and nephews of its block
on the chain it leaves. -/
theorem next_of_verifyChainInner {addResult : ChainAddResult} {next : List (Nat × FixedHash)}
    (h : verifyChainInner core ord n height hash c = .ok (addResult, next) c') :
    next = [] ∨ c'.getAllChildrenAndNephews ord n height hash = .ok next := by
  obtain ⟨prevHash, -, h⟩ := EStateM.exists_of_ofOption_bind_eq_ok h
  dsimp only at h
  split_ifs at h
  · obtain ⟨items, hitems, h⟩ := EStateM.exists_of_ofExcept_bind_eq_ok h
    cases h
    exact Or.inr hitems
  · obtain ⟨_, c₁, -, h⟩ := EStateM.exists_of_bind_eq_ok h
    obtain ⟨block, -, h⟩ := EStateM.exists_of_ofOption_bind_eq_ok h
    split_ifs at h
    · obtain ⟨_, c₂, -, h⟩ := EStateM.exists_of_bind_eq_ok h
      cases h
      exact Or.inl rfl
    · cases h
      exact Or.inl rfl
    · exact Or.inr (next_of_extendTip h)
    · exact Or.inr (next_of_checkReorg h)

theorem HasPair.of_verifyChainInner {addResult : ChainAddResult} {next : List (Nat × FixedHash)}
    (h : verifyChainInner core ord n height hash c = .ok (addResult, next) c') :
    ∀ item ∈ next, c'.HasPair item := by
  obtain rfl | hitems := next_of_verifyChainInner h
  · exact fun item hitem => absurd hitem List.not_mem_nil
  · exact HasPair.of_getAllChildrenAndNephews hitems

/-! ### The walk -/

/-- What is known after each round of a walk over the pairs `S`: the pairs taken up so far are
distinct, of `S`, and cannot be queued again. -/
structure EachOnce (S : Nat × FixedHash → Prop) (taken : List (Nat × FixedHash)) (w : WalkState) :
    Prop where
  pairsIn : w.chain.PairsIn S
  queued : ∀ pair ∈ w.nextLevel, S pair
  queueNodup : w.nextLevel.Nodup
  takenIn : ∀ pair ∈ taken, S pair
  takenNodup : taken.Nodup
  count : taken.length = w.numProcessed
  processed : ∀ pair ∈ taken, pair.2 ∈ w.processed
  disjoint : ∀ pair ∈ taken, pair ∉ w.nextLevel

theorem EachOnce.step {S : Nat × FixedHash → Prop} {taken : List (Nat × FixedHash)}
    {w w' : WalkState} (hw : EachOnce S taken w) (hstep : verifyChainStep core ord w = .inl w') :
    ∃ pair, w.nextLevel.head? = some pair ∧ EachOnce S (pair :: taken) w' := by
  obtain ⟨height, hash, rest, addResult, next, chain, hqueue, hinner, -, rfl⟩ :=
    verifyChainStep_inl hstep
  have hpairsIn : (verifyChainInner core ord w.numProcessed height hash w.chain).state.PairsIn S :=
    PairsIn.keptByWrites.verifyChainInner hw.pairsIn
  rw [hinner] at hpairsIn
  have hnext := HasPair.of_verifyChainInner hinner
  have hfirst : (height, hash) ∈ w.nextLevel := by rw [hqueue]; exact List.mem_cons_self
  have hrest {pair : Nat × FixedHash} (h : pair ∈ rest) : pair ∈ w.nextLevel := by
    rw [hqueue]
    exact List.mem_cons_of_mem _ h
  have hnodup := hw.queueNodup
  rw [hqueue, List.nodup_cons] at hnodup
  have hmem (pair : Nat × FixedHash) :
      pair ∈ enqueue (hash :: w.processed) (height, hash) next rest ↔
        pair ∈ rest ∨ (pair ∈ next ∧ pair.2 ∉ hash :: w.processed) :=
    mem_enqueue (show (height, hash).2 ∈ hash :: w.processed from List.mem_cons_self) next rest
  refine ⟨(height, hash), by rw [hqueue, List.head?_cons], hpairsIn, fun pair hpair => ?_,
    nodup_enqueue next hnodup.2, fun pair hpair => ?_, ?_, ?_, fun pair hpair => ?_,
    fun pair hpair => ?_⟩
  · rcases (hmem pair).mp hpair with h | ⟨h, -⟩
    · exact hw.queued pair (hrest h)
    · exact hpairsIn pair (hnext pair h)
  · rcases List.mem_cons.mp hpair with rfl | h
    · exact hw.queued _ hfirst
    · exact hw.takenIn pair h
  · exact List.nodup_cons.mpr ⟨fun h => hw.disjoint _ h hfirst, hw.takenNodup⟩
  · rw [List.length_cons, hw.count]
  · rcases List.mem_cons.mp hpair with rfl | h
    · exact List.mem_cons_self
    · exact List.mem_cons_of_mem _ (hw.processed pair h)
  · intro hqueued
    rcases List.mem_cons.mp hpair with rfl | h
    · rcases (hmem (height, hash)).mp hqueued with hin | ⟨-, hnew⟩
      · exact hnodup.1 hin
      · exact hnew List.mem_cons_self
    · rcases (hmem pair).mp hqueued with hin | ⟨-, hnew⟩
      · exact hw.disjoint pair h (hrest hin)
      · exact hnew (List.mem_cons_of_mem _ (hw.processed pair h))

theorem EachOnce.reaches {S : Nat × FixedHash → Prop} {taken : List (Nat × FixedHash)}
    {w w' : WalkState} (hw : EachOnce S taken w) (hreach : Reaches (verifyChainStep core ord) w w') :
    ∃ taken', taken ⊆ taken' ∧ EachOnce S taken' w' := by
  refine hreach.inv (I := fun w => ∃ taken', taken ⊆ taken' ∧ EachOnce S taken' w)
    ⟨taken, List.Subset.refl taken, hw⟩ (fun u v _ hu hstep => ?_)
  obtain ⟨taken', hsub, hu⟩ := hu
  obtain ⟨pair, -, hv⟩ := hu.step hstep
  exact ⟨pair :: taken', List.subset_cons_of_subset pair hsub, hv⟩

theorem EachOnce.eq_of_head {S : Nat × FixedHash → Prop} {taken : List (Nat × FixedHash)}
    {u v : WalkState} {pair : Nat × FixedHash} (hu : EachOnce S taken u)
    (hreach : Reaches (verifyChainStep core ord) u v) (hfirst : u.nextLevel.head? = some pair)
    (hlast : v.nextLevel.head? = some pair) : u = v := by
  rcases Relation.ReflTransGen.cases_head hreach with heq | ⟨t, hstep, hrest⟩
  · exact heq
  · obtain ⟨pair', hpair', ht⟩ := hu.step hstep
    rw [hfirst, Option.some.injEq] at hpair'
    subst hpair'
    obtain ⟨taken', hsub, hv⟩ := ht.reaches hrest
    exact absurd (List.mem_of_mem_head? hlast) (hv.disjoint pair (hsub List.mem_cons_self))

theorem EachOnce.start (hpair : c.HasPair (height, hash)) :
    EachOnce c.HasPair [] { chain := c, nextLevel := [(height, hash)] } where
  pairsIn _ h := h
  queued pair h := by
    obtain rfl := List.mem_singleton.mp h
    exact hpair
  queueNodup := List.nodup_singleton _
  takenIn _ h := absurd h List.not_mem_nil
  takenNodup := List.nodup_nil
  count := rfl
  processed _ h := absurd h List.not_mem_nil
  disjoint _ h := absurd h List.not_mem_nil

theorem EachOnce.numProcessed_le {taken : List (Nat × FixedHash)} {w : WalkState}
    (hw : EachOnce c.HasPair taken w) : w.numProcessed ≤ c.numHeaders := by
  have hcount : (c.levels.values.flatMap fun level =>
      level.blockHeaders.values.map fun header => (header.height, header.hash)).length =
        c.numHeaders := by
    rw [List.length_flatMap, numHeaders]
    simp only [List.length_map]
    rfl
  rw [← hw.count, ← hcount]
  refine (List.subperm_of_subset hw.takenNodup fun pair hpair => ?_).length_le
  obtain ⟨header, hheader⟩ := Option.isSome_iff_exists.mp (hw.takenIn pair hpair)
  obtain ⟨level, hlevel, hget⟩ := Option.bind_eq_some_iff.mp hheader
  refine List.mem_flatMap.mpr ⟨level, KeyedMap.mem_values_of_find? hlevel,
    List.mem_map.mpr ⟨header, KeyedMap.mem_values_of_find? hget, ?_⟩⟩
  exact Prod.ext (height_of_getBlockHeaderAtHeight hheader) (P2ChainLevel.hash_of_getHeader hget)

theorem verifyChainStep_of_absent (core : TariCore) (ord : IterOrder)
    (habsent : ¬c.HasPair (height, hash)) :
    ∃ r, verifyChainStep core ord { chain := c, nextLevel := [(height, hash)] } = .inr r := by
  have hparent : c.getParentOf height hash = none := by
    rw [getParentOf]
    rw [HasPair, Option.not_isSome_iff_eq_none, getBlockHeaderAtHeight] at habsent
    cases hlevel : c.levelAtHeight height with
    | none => rfl
    | some level =>
      rw [hlevel, Option.bind_some] at habsent
      rw [Option.bind_some, P2ChainLevel.getPrevHash, habsent, Option.map_none]
  have hinner : verifyChainInner core ord 0 height hash c = .error (.error .blockNotFound) c := by
    rw [verifyChainInner]
    simp only [EStateM.bind_apply, EStateM.get_apply, hparent, EStateM.ofOption_none]
  exact ⟨.error (.error .blockNotFound) c, by rw [verifyChainStep]; simp only [hinner]⟩

theorem verifyChain_leaves (core : TariCore) (ord : IterOrder) (c : P2Chain) (height : Nat)
    (hash : FixedHash) : Leaves (verifyChainStep core ord) { chain := c, nextLevel := [(height, hash)] }
      (verifyChain core ord height hash c) := by
  have hsome : (runLoop (verifyChainStep core ord) (c.numHeaders + 2)
      { chain := c, nextLevel := [(height, hash)] }).isSome := by
    by_cases hpair : c.HasPair (height, hash)
    · refine runLoop_isSome (I := fun w => ∃ taken, EachOnce c.HasPair taken w)
        (fun w => c.numHeaders + 1 - w.numProcessed) (by simp) ⟨[], EachOnce.start hpair⟩
        (fun u v hu hstep => ?_)
      obtain ⟨taken, hu⟩ := hu
      obtain ⟨pair, -, hv⟩ := hu.step hstep
      refine ⟨⟨_, hv⟩, ?_⟩
      have hle := hv.numProcessed_le
      have hone := hv.count
      have hcount := hu.count
      rw [List.length_cons] at hone
      omega
    · obtain ⟨r, hr⟩ := verifyChainStep_of_absent core ord hpair
      rw [runLoop, hr]
      rfl
  obtain ⟨r, hr⟩ := Option.isSome_iff_exists.mp hsome
  refine ⟨c.numHeaders + 2, ?_⟩
  simp only [verifyChain, hr]

theorem Visits.exit_eq {b : P2Block} {w : WalkState} {r : EStateM.Result Fault P2Chain ChainAddResult}
    (hvisits : Visits core ord b c w) (hexit : verifyChainStep core ord w = .inr r) :
    addBlockToChain core ord b c = r := by
  obtain ⟨hallowed, c₀, hinsert, hreach⟩ := hvisits
  obtain ⟨fuel, hleaves⟩ := verifyChain_leaves core ord c₀ b.height b.hash
  rw [addBlockToChain_eq core ord hallowed hinsert]
  exact runLoop_eq_of_exit hleaves hreach hexit

/-- On any chain every verification of a call that returns does. -/
theorem Visits.returns {b : P2Block} {w : WalkState} {rest : List (Nat × FixedHash)}
    (hvisits : Visits core ord b c w) (hreturns : Returns (addBlockToChain core ord b c))
    (hqueue : w.nextLevel = (height, hash) :: rest) :
    Returns (verifyChainInner core ord w.numProcessed height hash w.chain) := by
  intro p c' hpanic
  have hexit : verifyChainStep core ord w = .inr (.error (.panic p) c') := by
    rw [verifyChainStep, hqueue]
    simp only [hpanic]
  exact hreturns p c' (hvisits.exit_eq hexit)

theorem verifyChain_eachOnce {u v : WalkState} {pair : Nat × FixedHash}
    (hu : Reaches (verifyChainStep core ord) { chain := c, nextLevel := [(height, hash)] } u)
    (hv : Reaches (verifyChainStep core ord) { chain := c, nextLevel := [(height, hash)] } v)
    (hheadu : u.nextLevel.head? = some pair) (hheadv : v.nextLevel.head? = some pair) : u = v := by
  have hunique : Relator.RightUnique fun s t => verifyChainStep core ord s = .inl t := by
    intro s t t' h h'
    rw [h] at h'
    exact Sum.inl.inj h'
  by_cases hpair : c.HasPair (height, hash)
  · have hstart := EachOnce.start hpair
    obtain ⟨taken, -, hu'⟩ := hstart.reaches hu
    obtain ⟨taken', -, hv'⟩ := hstart.reaches hv
    rcases Relation.ReflTransGen.total_of_right_unique hunique hu hv with h | h
    · exact hu'.eq_of_head h hheadu hheadv
    · exact (hv'.eq_of_head h hheadv hheadu).symm
  · obtain ⟨r, hr⟩ := verifyChainStep_of_absent core ord hpair
    have honly {w : WalkState}
        (hw : Reaches (verifyChainStep core ord) { chain := c, nextLevel := [(height, hash)] } w) :
        w = { chain := c, nextLevel := [(height, hash)] } := by
      rcases Relation.ReflTransGen.cases_head hw with heq | ⟨t, ht, -⟩
      · exact heq.symm
      · rw [hr] at ht
        cases ht
    rw [honly hu, honly hv]

/-- The loops that the verification of a block enters leave, on this chain, with what the functions
compute that the operations of the chain use for them. -/
structure LoopsLeave (c : P2Chain) : Prop where
  scan : ∀ block, Leaves (scanRound c) { currentCountingBlock := block }
    (c.scanAncestors (windowRounds c.config) block {})
  reset : ∀ height, Leaves resetRound (c, height) (resetLinksAbove (c.levels.size + 1) c height)
  resetOk : (∀ height level, c.levelAtHeight height = some level → height < u64Max - 4) →
    ∀ height, ∃ c', resetLinksAbove (c.levels.size + 1) c height = .ok c'
  relink : ∀ block lwma, Leaves relinkRound { chain := c, currentBlock := block, lwma := lwma }
    (relinkAncestors (windowRounds c.config) c block lwma)
  samples : ∀ block, Leaves (lwmaRound c)
    (block, Window.empty.pushFront (block.timestamp, block.targetDifficulty))
    (c.lwmaFromHeaders (difficultyAdjustmentWindow + 1) block
      (Window.empty.pushFront (block.timestamp, block.targetDifficulty)))
  median : ∀ block, Leaves (medianRound c) (block, [block.timestamp])
    ((c.ancestorTimestamps (medianTimestampWindow - 1) block).map ([block.timestamp] ++ ·))
  shares : ∀ block stopHeight shares, Leaves (shareRound c stopHeight) (block, shares)
    (c.countAncestors (block.height - stopHeight) block shares)

theorem loopsLeave (c : P2Chain) : LoopsLeave c where
  scan block := scan_leaves _ { currentCountingBlock := block } rfl
  reset height := reset_leaves _ c height (Nat.lt_succ_of_le (levelsAbove_le_size c height))
  resetOk hheights height := by
    cases hreset : resetLinksAbove (c.levels.size + 1) c height with
    | ok c' => exact ⟨c', rfl⟩
    | error fault =>
      -- the loop would have met a level of the greatest height
      have htop := fullAbove_of_error hreset u64Max (Nat.min_le_right _ _) le_rfl
      obtain ⟨level, hlevel⟩ := Option.isSome_iff_exists.mp htop
      have hlt := hheights u64Max level hlevel
      omega
  relink block lwma := relink_leaves _ { chain := c, currentBlock := block, lwma := lwma } rfl
  samples block := by
    apply lwma_leaves
    omega
  median block := median_leaves _ block [block.timestamp] rfl
  shares block stopHeight shares := share_leaves _ stopHeight block shares rfl

/-- The walk from any block of any chain leaves by itself, takes up no pair of height and hash in
two rounds, and enters only loops that leave. -/
theorem verifyChain_terminates (core : TariCore) (ord : IterOrder) (c : P2Chain) (height : Nat)
    (hash : FixedHash) :
    Leaves (verifyChainStep core ord) { chain := c, nextLevel := [(height, hash)] }
      (verifyChain core ord height hash c) ∧
    (∀ u v pair,
      Reaches (verifyChainStep core ord) { chain := c, nextLevel := [(height, hash)] } u →
      Reaches (verifyChainStep core ord) { chain := c, nextLevel := [(height, hash)] } v →
      u.nextLevel.head? = some pair → v.nextLevel.head? = some pair →
      u.numProcessed = v.numProcessed) ∧
    ∀ c', LoopsLeave c' := by
  refine ⟨verifyChain_leaves core ord c height hash, ?_, loopsLeave⟩
  intro u v pair hu hv hheadu hheadv
  rw [verifyChain_eachOnce hu hv hheadu hheadv]

end P2Chain

end ShaP2Pool
