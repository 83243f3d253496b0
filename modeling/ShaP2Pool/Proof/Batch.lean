import ShaP2Pool.Proof.Reachable
import ShaP2Pool.Proof.Submit

/-!
# Batches of synced blocks

A batch is added block by block in order of height. It ends early when the report of missing blocks
overflows, and the blocks after that one are not looked at. Up to there nothing is lost: a block
that was taken up is stored as long as the pruning does not drop its level, and what it misses is
reported unless it is in the batch. This holds on any chain.
-/

namespace ShaP2Pool

def ChainAddResult.Reports (r : ChainAddResult) (hash : FixedHash) : Prop :=
  r.missingBlocks.contains hash = true

namespace P2Chain

variable {core : TariCore} {s : InMemoryShareChain} {ord : IterOrder} {now : EpochTime}
  {n height : Nat} {hash : FixedHash} {c c' c₀ c₁ c₂ : P2Chain} {b b' : P2Block} {syncing : Bool}
  {addResult r result : ChainAddResult} {next : List (Nat × FixedHash)} {pair : Nat × FixedHash}

/-! ### Stored blocks last -/

theorem Writes.hasPair (hw : Writes c b c') : c'.HasPair (b.height, b.hash) := by
  rw [HasPair, hw.headers, if_pos ⟨rfl, rfl⟩]
  rfl

/-- There is a header under the pair of height and hash, or as many levels above the height as the
pruning keeps. -/
def StoredOrDropped (c : P2Chain) (pair : Nat × FixedHash) : Prop :=
  c.HasPair pair ∨ maxLevels c.config ≤ c.levelsAbove pair.1

namespace StoredOrDropped

theorem of_hasPair (h : c.HasPair pair) : c.StoredOrDropped pair := Or.inl h

/-- It lasts while pairs and levels do. -/
theorem mono (h : c.StoredOrDropped pair) (hconfig : c'.config = c.config)
    (hlevels : ∀ height, (c.levelAtHeight height).isSome = true →
      (c'.levelAtHeight height).isSome = true)
    (hpair : c.HasPair pair → c'.HasPair pair) : c'.StoredOrDropped pair := by
  obtain hstored | hdropped := h
  · exact Or.inl (hpair hstored)
  · refine Or.inr ?_
    rw [hconfig]
    exact Nat.le_trans hdropped (levelsAbove_mono fun height _ => hlevels height)

theorem writes (h : c.StoredOrDropped pair) (hw : Writes c b c') : c'.StoredOrDropped pair := by
  apply h.mono hw.config
  · intro height hsome
    rw [hw.levels, hsome, Bool.or_true]
  · intro hpair
    rw [HasPair, hw.headers]
    split_ifs
    · rfl
    · exact hpair

theorem of_keepsTip (h : c.StoredOrDropped pair) (hkeeps : KeepsTip c c') : c'.StoredOrDropped pair := by
  apply h.mono hkeeps.config
  · intro height hsome
    rwa [hkeeps.levels]
  · exact (hkeeps.pairs pair).mpr

theorem of_sameBlocks (h : c.StoredOrDropped pair) (hsame : SameBlocks c c') :
    c'.StoredOrDropped pair := by
  apply h.mono hsame.config
  · intro height hsome
    rwa [hsame.levelAtHeight_isSome]
  · intro hpair
    rwa [HasPair, hsame.getBlockHeaderAtHeight]

/-- The pruning leaves enough levels above what it drops. -/
theorem cleanupChain (h : c.StoredOrDropped pair) : c.cleanupChain.StoredOrDropped pair := by
  have hconfig : c.cleanupChain.config = c.config := config_cleanupChain c
  by_cases hroom : c.levelsAbove pair.1 < maxLevels c.config
  · obtain hstored | hdropped := h
    · exact Or.inl (hasPair_cleanupChain.mpr ⟨hroom, hstored⟩)
    · omega
  · refine Or.inr ?_
    rw [hconfig, levelsAbove_cleanupChain]
    omega

/-- A verification that returns keeps what is stored, but for the pruning. -/
theorem verifyChainInner (h : c.StoredOrDropped pair)
    (hreturns : Returns (P2Chain.verifyChainInner core ord n height hash c)) :
    (P2Chain.verifyChainInner core ord n height hash c).state.StoredOrDropped pair := by
  cases hinner : P2Chain.verifyChainInner core ord n height hash c with
  | error fault c' =>
    cases fault with
    | panic p => exact absurd hinner (hreturns p c')
    | error e => exact h.of_keepsTip (keepsTip_of_error hinner)
  | ok result c' =>
    obtain ⟨addResult, next⟩ := result
    have hstep := tipStep_of_ok hinner
    generalize addResult.newTip = newTip at hstep
    cases hstep with
    | kept _ hkeeps => exact h.of_keepsTip hkeeps
    | crowned _ hkeeps _ hcrowns _ =>
      exact ((h.of_keepsTip hkeeps).of_sameBlocks hcrowns.same).cleanupChain
    | reorganised _ hkeeps hblock hreorg _ =>
      have hr := reorganises_of_reorg (hasHeader_of_getBlockHeaderAtHeight hblock) hreorg
      exact (h.of_keepsTip hkeeps).of_sameBlocks hr.same

theorem addBlockToChain (h : c.StoredOrDropped pair)
    (hreturns : Returns (P2Chain.addBlockToChain core ord b c)) :
    (P2Chain.addBlockToChain core ord b c).state.StoredOrDropped pair := by
  by_cases hallowed : ParentIsUncle b
  · rw [addBlockToChain_of_parentIsUncle core ord c hallowed]
    exact h
  · exact addBlock_inv hallowed hreturns (fun c₀ hw => h.writes hw)
      (fun w height hash rest _ _ hI hreturns => hI.verifyChainInner hreturns)

/-- A call that succeeds stores its block. -/
theorem added (hok : P2Chain.addBlockToChain core ord b c = .ok r c') :
    c'.StoredOrDropped (b.height, b.hash) := by
  have hallowed := allowed_of_ok hok
  have hreturns : Returns (P2Chain.addBlockToChain core ord b c) := .of_ok hok
  have hstored := addBlock_inv (I := fun c => c.StoredOrDropped (b.height, b.hash)) hallowed hreturns
    (fun c₀ hw => of_hasPair hw.hasPair)
    (fun w height hash rest _ _ hI hreturns => hI.verifyChainInner hreturns)
  rwa [hok] at hstored

end StoredOrDropped

/-! ### Reports -/

end P2Chain

namespace ChainAddResult

variable {ord : IterOrder} {n : Nat} {self other r : ChainAddResult} {hash : FixedHash}

theorem reports_addMissing_iff {missing : FixedHash} {height : Nat} :
    (r.addMissing missing height).Reports hash ↔ hash = missing ∨ r.Reports hash := by
  rw [Reports, addMissing, KeyedMap.contains_insert, Bool.or_eq_true, beq_iff_eq]
  rfl

theorem contains_insertMissing {missing : KeyedMap (fun entry : FixedHash × Nat => entry.1)}
    {entries : List (FixedHash × Nat)} (h : missing.contains hash = true) :
    (insertMissing missing entries).contains hash = true := by
  induction entries generalizing missing with
  | nil => exact h
  | cons entry rest ih =>
    rw [insertMissing]
    split_ifs
    · exact h
    · apply ih
      rw [KeyedMap.contains_insert, h, Bool.or_true]

theorem contains_insertMissing_of_mem {missing : KeyedMap (fun entry : FixedHash × Nat => entry.1)}
    {entries : List (FixedHash × Nat)} {entry : FixedHash × Nat}
    (hroom : missing.size + entries.length ≤ maxMissingParents) (hmem : entry ∈ entries) :
    (insertMissing missing entries).contains entry.1 = true := by
  induction entries generalizing missing with
  | nil => exact absurd hmem List.not_mem_nil
  | cons first rest ih =>
    rw [List.length_cons] at hroom
    rw [insertMissing, if_neg (by omega)]
    obtain rfl | hrest := List.mem_cons.mp hmem
    · apply contains_insertMissing
      rw [KeyedMap.contains_insert, beq_self_eq_true, Bool.true_or]
    · have hsize := KeyedMap.size_insert_le missing first
      exact ih (by omega) hrest

/-- Combining keeps what is listed. -/
theorem Reports.combine (h : self.Reports hash) : (self.combine ord n other).Reports hash :=
  contains_insertMissing h

theorem Reports.of_combine (hsmall : other.missingBlocks.size ≤ maxMissingParents)
    (h : other.Reports hash) :
    (ChainAddResult.combine ord n {} other).Reports hash := by
  obtain ⟨entry, hentry⟩ := KeyedMap.contains_iff.mp h
  rw [← KeyedMap.key_of_find? hentry]
  apply contains_insertMissing_of_mem
  · rw [(ord.perm n _).length_eq]
    change 0 + other.missingBlocks.size ≤ _
    omega
  · exact (ord.mem_run n).mpr (KeyedMap.mem_values_of_find? hentry)

end ChainAddResult

namespace P2Chain

variable {core : TariCore} {s : InMemoryShareChain} {ord : IterOrder} {now : EpochTime}
  {n height : Nat} {hash : FixedHash} {c c' c₀ c₁ c₂ : P2Chain} {b b' : P2Block} {syncing : Bool}
  {addResult r result : ChainAddResult} {next : List (Nat × FixedHash)} {pair : Nat × FixedHash}

theorem blockExists_iff_hasPair : c.blockExists height hash = true ↔ c.HasPair (height, hash) := by
  rw [blockExists, HasPair, getBlockHeaderAtHeight, Option.isSome_bind]
  rfl

/-- What is missing for a block on a chain: its parent, its uncles and the parents of the uncles
that are stored, as far as they are not. The chain start refers to nothing. -/
def MissingFor (c : P2Chain) (b : P2Block) (pair : Nat × FixedHash) : Prop :=
  b.height ≠ 0 ∧ ¬c.HasPair pair ∧ (pair = (b.height - 1, b.prevHash) ∨ pair ∈ b.uncles ∨
    ∃ uncle ∈ b.uncles, ∃ header, c.getBlockHeaderAtHeight uncle.1 uncle.2 = some header ∧
      pair = (uncle.1 - 1, header.prevHash))

theorem reports_missingUncles {uncles : List (Nat × FixedHash)} (h : result.Reports hash) :
    (c.missingUncles uncles result).Reports hash := by
  induction uncles generalizing result with
  | nil => exact h
  | cons uncle rest ih =>
    rw [missingUncles]
    split
    · split_ifs
      · exact ih h
      · exact ih (ChainAddResult.reports_addMissing_iff.mpr (Or.inr h))
    · exact ih (ChainAddResult.reports_addMissing_iff.mpr (Or.inr h))

theorem getParentOf_eq_map : c.getParentOf height hash =
    (c.getBlockHeaderAtHeight height hash).map (·.prevHash) := by
  rw [getParentOf, getBlockHeaderAtHeight, Option.map_bind]
  rfl

theorem reports_missingUncles_of_mem {uncles : List (Nat × FixedHash)} {uncle : Nat × FixedHash}
    (hmem : uncle ∈ uncles) (habsent : ¬c.HasPair pair)
    (hpair : pair = uncle ∨ ∃ header, c.getBlockHeaderAtHeight uncle.1 uncle.2 = some header ∧
      pair = (uncle.1 - 1, header.prevHash)) : (c.missingUncles uncles result).Reports pair.2 := by
  induction uncles generalizing result with
  | nil => exact absurd hmem List.not_mem_nil
  | cons first rest ih =>
    obtain ⟨firstHeight, firstHash⟩ := first
    rw [missingUncles, getParentOf_eq_map]
    obtain rfl | hrest := List.mem_cons.mp hmem
    · cases hheader : c.getBlockHeaderAtHeight firstHeight firstHash with
      | none =>
        obtain rfl | ⟨header, hstored, -⟩ := hpair
        · exact reports_missingUncles (ChainAddResult.reports_addMissing_iff.mpr (Or.inl rfl))
        · rw [hheader] at hstored
          cases hstored
      | some header =>
        obtain rfl | ⟨header', hstored, rfl⟩ := hpair
        · exact absurd (Option.isSome_of_eq_some hheader) habsent
        · rw [hheader, Option.some.injEq] at hstored
          subst hstored
          simp only [Option.map_some]
          rw [if_neg (mt blockExists_iff_hasPair.mp habsent)]
          exact reports_missingUncles (ChainAddResult.reports_addMissing_iff.mpr (Or.inl rfl))
    · split
      · split_ifs
        · exact ih hrest
        · exact ih hrest
      · exact ih hrest

theorem size_addMissing_le (result : ChainAddResult) (hash : FixedHash) (height : Nat) :
    (result.addMissing hash height).missingBlocks.size ≤ result.missingBlocks.size + 1 :=
  KeyedMap.size_insert_le _ _

theorem size_missingUncles_le (c : P2Chain) (uncles : List (Nat × FixedHash)) (result : ChainAddResult) :
    (c.missingUncles uncles result).missingBlocks.size ≤ result.missingBlocks.size + uncles.length := by
  induction uncles generalizing result with
  | nil => exact Nat.le_refl _
  | cons uncle rest ih =>
    have hadd (hash : FixedHash) (height : Nat) :
        (c.missingUncles rest (result.addMissing hash height)).missingBlocks.size ≤
          result.missingBlocks.size + (rest.length + 1) := by
      have hle := ih (result.addMissing hash height)
      have hone := size_addMissing_le result hash height
      omega
    rw [missingUncles, List.length_cons]
    split
    · split_ifs
      · exact Nat.le_trans (ih result) (by omega)
      · exact hadd _ _
    · exact hadd _ _

theorem getUncles_eq_map : c.getUncles height hash =
    ((c.getBlockHeaderAtHeight height hash).map (·.uncles)).getD [] := by
  rw [getUncles, getBlockHeaderAtHeight]
  cases c.levelAtHeight height <;> rfl

theorem size_missingReferences_le (c : P2Chain) (height : Nat) (hash prevHash : FixedHash) :
    (c.missingReferences height hash prevHash).missingBlocks.size ≤
      1 + (c.getUncles height hash).length := by
  rw [missingReferences]
  have hempty : (ChainAddResult.missingBlocks {}).size = 0 := rfl
  split_ifs
  · omega
  · have hle := size_missingUncles_le c (c.getUncles height hash) {}
    omega
  · have hle := size_missingUncles_le c (c.getUncles height hash)
      (ChainAddResult.addMissing {} prevHash (height - 1))
    have hone := size_addMissing_le {} prevHash (height - 1)
    omega

theorem reports_missingReferences (hw : Writes c b c₀)
    (hlower : ∀ uncle ∈ b.uncles, uncle.1 < b.height) (hmissing : c.MissingFor b pair) :
    (c₀.missingReferences b.height b.hash b.prevHash).Reports pair.2 := by
  obtain ⟨hheight, habsent, hpair⟩ := hmissing
  have hbelow {height : Nat} (h : height < b.height) (hash : FixedHash) :
      c₀.getBlockHeaderAtHeight height hash = c.getBlockHeaderAtHeight height hash := by
    rw [hw.headers, if_neg (fun heq => Nat.ne_of_lt h heq.1)]
  have huncles : c₀.getUncles b.height b.hash = b.uncles := by
    rw [getUncles_eq_map, hw.headers, if_pos ⟨rfl, rfl⟩]
    rfl
  rw [missingReferences, if_neg hheight, huncles]
  obtain rfl | hpair := hpair
  · have habsent' : ¬c₀.HasPair (b.height - 1, b.prevHash) := by
      rwa [HasPair, hbelow (Nat.sub_one_lt hheight)]
    rw [if_neg (mt blockExists_iff_hasPair.mp habsent')]
    exact reports_missingUncles (ChainAddResult.reports_addMissing_iff.mpr (Or.inl rfl))
  · obtain ⟨uncle, hmem, hpair⟩ : ∃ uncle ∈ b.uncles, pair = uncle ∨ ∃ header,
        c.getBlockHeaderAtHeight uncle.1 uncle.2 = some header ∧
          pair = (uncle.1 - 1, header.prevHash) := by
      obtain hmem | ⟨uncle, hmem, hstored⟩ := hpair
      · exact ⟨pair, hmem, Or.inl rfl⟩
      · exact ⟨uncle, hmem, Or.inr hstored⟩
    have hlow := hlower uncle hmem
    have habsent' : ¬c₀.HasPair pair := by
      have hpairLow : pair.1 < b.height := by
        obtain rfl | ⟨header, -, rfl⟩ := hpair
        · exact hlow
        · exact Nat.lt_of_le_of_lt (Nat.sub_le _ _) hlow
      rwa [HasPair, hbelow hpairLow]
    apply reports_missingUncles_of_mem hmem habsent'
    rwa [hbelow hlow]

theorem addResult_of_reports {prevHash missing : FixedHash}
    (hparent : c.getParentOf height hash = some prevHash)
    (hreports : (c.missingReferences height hash prevHash).Reports missing)
    (h : verifyChainInner core ord n height hash c = .ok (addResult, next) c') :
    addResult = c.missingReferences height hash prevHash := by
  obtain ⟨prevHash', hprev, h⟩ := EStateM.exists_of_ofOption_bind_eq_ok h
  rw [hparent, Option.some.injEq] at hprev
  subst hprev
  have hsome : (c.missingReferences height hash prevHash).missingBlocks.size ≠ 0 := by
    obtain ⟨entry, hentry⟩ := KeyedMap.contains_iff.mp hreports
    exact Nat.ne_of_gt (List.length_pos_of_mem (KeyedMap.mem_values_of_find? hentry))
  dsimp only at h
  rw [if_pos (by simpa using hsome)] at h
  obtain ⟨items, -, h⟩ := EStateM.exists_of_ofExcept_bind_eq_ok h
  cases h
  rfl

theorem reports_round {w : WalkState} {rest : List (Nat × FixedHash)} {missing : FixedHash}
    (hstored : c₀.getBlockHeaderAtHeight b.height b.hash = some b.header)
    (hfew : b.uncles.length ≤ uncleLimit)
    (hreports : (c₀.missingReferences b.height b.hash b.prevHash).Reports missing)
    (hw : w = { chain := c₀, nextLevel := [(b.height, b.hash)] } ∨ w.newTip.Reports missing)
    (hqueue : w.nextLevel = (height, hash) :: rest)
    (hinner : verifyChainInner core ord w.numProcessed height hash w.chain =
      .ok (addResult, next) c') :
    (w.newTip.combine ord w.numProcessed addResult).Reports missing := by
  obtain rfl | hlisted := hw
  · rw [List.cons.injEq, Prod.mk.injEq] at hqueue
    obtain ⟨⟨rfl, rfl⟩, -⟩ := hqueue
    have hparent : c₀.getParentOf b.height b.hash = some b.prevHash := by
      rw [getParentOf_eq_map, hstored]
      rfl
    have hsize := size_missingReferences_le c₀ b.height b.hash b.prevHash
    rw [getUncles_eq_map, hstored, Option.map_some, Option.getD_some] at hsize
    have huncles : b.header.uncles.length ≤ 3 := hfew
    rw [addResult_of_reports hparent hreports hinner]
    apply hreports.of_combine
    rw [maxMissingParents]
    omega
  · exact hlisted.combine

theorem reports_of_missingFor (hok : addBlockToChain core ord b c = .ok r c')
    (hfew : b.uncles.length ≤ uncleLimit) (hlower : ∀ uncle ∈ b.uncles, uncle.1 < b.height)
    (hmissing : c.MissingFor b pair) : r.Reports pair.2 := by
  obtain ⟨w, ⟨-, c₀, hinsert, hreach⟩, hexit⟩ :=
    exists_exit_of_returns (allowed_of_ok hok) (.of_ok hok)
  obtain ⟨c₁, hinsert', hw⟩ := Writes.of_insertBlock c b
  rw [hinsert, Except.ok.injEq] at hinsert'
  subst hinsert'
  have hreports := reports_missingReferences hw hlower hmissing
  have hstored : c₀.getBlockHeaderAtHeight b.height b.hash = some b.header := by
    rw [hw.headers, if_pos ⟨rfl, rfl⟩]
  have hlisted : w = { chain := c₀, nextLevel := [(b.height, b.hash)] } ∨ w.newTip.Reports pair.2 := by
    refine hreach.inv (I := fun w => w = { chain := c₀, nextLevel := [(b.height, b.hash)] } ∨
      w.newTip.Reports pair.2) (Or.inl rfl) fun u v _ hu hstep => ?_
    obtain ⟨height, hash, rest, addResult, next, chain, hqueue, hinner, -, rfl⟩ :=
      verifyChainStep_inl hstep
    exact Or.inr (reports_round hstored hfew hreports hu hqueue hinner)
  rw [hok] at hexit
  obtain ⟨hnil, heq⟩ | ⟨height, hash, rest, hqueue, ⟨fault, chain, -, heq⟩ |
    ⟨addResult, next, chain, hinner, -, heq⟩⟩ := verifyChainStep_inr hexit
  · cases heq
    obtain rfl | hlisted := hlisted
    · cases hnil
    · exact hlisted
  · cases heq
  · cases heq
    exact reports_round hstored hfew hreports hlisted hqueue hinner

/-! ### Submissions -/

def AlreadyVerified (c : P2Chain) (b : P2Block) : Prop :=
  ∃ x, InMemoryShareChain.blockAlreadyAdded c b = .ok (some x) ∧ x.verified.isVerified = true

theorem AlreadyVerified.hasPair (h : c.AlreadyVerified b) : c.HasPair (b.height, b.hash) := by
  obtain ⟨x, hadded, -⟩ := h
  rw [InMemoryShareChain.blockAlreadyAdded] at hadded
  split at hadded
  · cases hadded
  · next level hlevel =>
    split_ifs at hadded with hcontains
    · rw [HasPair, getBlockHeaderAtHeight, hlevel]
      exact hcontains
    · cases hadded

theorem lower_of_validateUncleAges {uncles : List (Nat × FixedHash)}
    (h : InMemoryShareChain.validateUncleAges height uncles = .ok ()) :
    ∀ uncle ∈ uncles, uncle.1 < height := by
  induction uncles with
  | nil => exact fun uncle hmem => absurd hmem List.not_mem_nil
  | cons uncle rest ih =>
    rw [InMemoryShareChain.validateUncleAges] at h
    split_ifs at h with _ hbelow
    exact List.forall_mem_cons.mpr ⟨Nat.not_le.mp hbelow, ih h⟩

theorem uncles_of_validateBlock (h : s.validateBlock core now c b = .ok b') :
    b.uncles.length ≤ uncleLimit ∧ ∀ uncle ∈ b.uncles, uncle.1 < b.height := by
  have hvalid : InMemoryShareChain.validateUncles b = .ok () := by
    rw [InMemoryShareChain.validateBlock] at h
    cases hvalid : InMemoryShareChain.validateUncles b with
    | error e =>
      rw [hvalid] at h
      cases h
    | ok _ => rfl
  rw [InMemoryShareChain.validateUncles] at hvalid
  split_ifs at hvalid with hmany
  exact ⟨Nat.not_lt.mp hmany, lower_of_validateUncleAges hvalid⟩

theorem submit_ok_cases (hok : s.submitBlockWithLock core ord now b true c = .ok r c') :
    (c.AlreadyVerified b ∧ c' = c) ∨ ∃ b', b'.withoutStatus = b.withoutStatus ∧
      b.uncles.length ≤ uncleLimit ∧ (∀ uncle ∈ b.uncles, uncle.1 < b.height) ∧
      addBlockToChain core ord b' c = .ok r c' := by
  obtain ⟨already, hadded, h⟩ := EStateM.exists_of_ofExcept_bind_eq_ok hok
  split_ifs at h with hverified hold
  · cases h
    obtain ⟨x, rfl⟩ : ∃ x, already = some x := by
      cases already with
      | none => cases hverified
      | some x => exact ⟨x, rfl⟩
    exact Or.inl ⟨⟨x, hadded, hverified⟩, rfl⟩
  · cases h
  · cases hvalid : s.validateBlock core now c b with
    | error e =>
      rw [hvalid] at h
      cases h
    | ok b' =>
      simp only [hvalid] at h
      cases hclaimed : s.validateClaimedDifficulty core b' with
      | error e =>
        rw [hclaimed] at h
        cases h
      | ok d =>
        simp only [hclaimed] at h
        obtain ⟨hfew, hlower⟩ := uncles_of_validateBlock hvalid
        have hcontent := withoutStatus_of_validateBlock hvalid
        exact Or.inr ⟨{ b' with verified := { b'.verified with difficulty := true } },
          hcontent, hfew, hlower, h⟩

/-- A submission that succeeds leaves its block stored. -/
theorem StoredOrDropped.submitted (hok : s.submitBlockWithLock core ord now b true c = .ok r c') :
    c'.StoredOrDropped (b.height, b.hash) := by
  obtain ⟨hverified, rfl⟩ | ⟨b', hcontent, -, -, hadd⟩ := submit_ok_cases hok
  · exact of_hasPair hverified.hasPair
  · have hheight : b'.height = b.height := field_eq (·.height) (fun _ _ => rfl) hcontent
    have hstored := StoredOrDropped.added hadd
    rwa [hheight, hash_of_withoutStatus hcontent] at hstored

theorem StoredOrDropped.submit (h : c.StoredOrDropped pair)
    (hok : s.submitBlockWithLock core ord now b true c = .ok r c') : c'.StoredOrDropped pair := by
  obtain ⟨-, rfl⟩ | ⟨b', -, -, -, hadd⟩ := submit_ok_cases hok
  · exact h
  · have hkept := h.addBlockToChain (.of_ok hadd)
    rwa [hadd] at hkept

theorem reports_of_submit (hok : s.submitBlockWithLock core ord now b true c = .ok r c')
    (hnew : ¬c.AlreadyVerified b) (hmissing : c.MissingFor b pair) : r.Reports pair.2 := by
  obtain ⟨hverified, -⟩ | ⟨b', hcontent, hfew, hlower, hadd⟩ := submit_ok_cases hok
  · exact absurd hverified hnew
  · have huncles : b'.uncles = b.uncles := field_eq (·.uncles) (fun _ _ => rfl) hcontent
    have hprev : b'.prevHash = b.prevHash := field_eq (·.prevHash) (fun _ _ => rfl) hcontent
    have hheight : b'.height = b.height := field_eq (·.height) (fun _ _ => rfl) hcontent
    apply reports_of_missingFor hadd
    · rwa [huncles]
    · rwa [huncles, hheight]
    · rwa [MissingFor, huncles, hprev, hheight]

end P2Chain

namespace InMemoryShareChain

variable {core : TariCore} {s : InMemoryShareChain} {ord : Nat → IterOrder} {now : EpochTime}
  {c c' c₁ c₂ : P2Chain} {b : P2Block} {blocks : List P2Block} {result result' r : ChainAddResult}
  {known : List FixedHash} {full : Bool}

/-! ### The report of a batch -/

/-- The report grows until it holds one block too many; if it does not get there, everything is
listed that is not in the batch. -/
theorem reportMissing_spec {entries : List (FixedHash × Nat)}
    (hroom : result.missingBlocks.size ≤ maxMissingParents)
    (h : reportMissing known result entries = (full, result')) :
    (full = true → result'.missingBlocks.size = maxMissingParents + 1) ∧
      (full = false → result'.missingBlocks.size ≤ maxMissingParents ∧
        ∀ entry ∈ entries, entry.1 ∉ known → result'.Reports entry.1) ∧
      ∀ hash, result.Reports hash → result'.Reports hash := by
  induction entries generalizing result with
  | nil =>
    cases h
    exact ⟨fun hfull => absurd hfull Bool.false_ne_true,
      fun _ => ⟨hroom, fun entry hmem => absurd hmem List.not_mem_nil⟩, fun _ hlisted => hlisted⟩
  | cons first rest ih =>
    rw [reportMissing] at h
    by_cases hknown : known.contains first.1 = true
    · rw [if_pos hknown] at h
      obtain ⟨hfull, hall, hkeeps⟩ := ih hroom h
      refine ⟨hfull, fun hnot => ⟨(hall hnot).1, fun entry hmem hout => ?_⟩, hkeeps⟩
      obtain rfl | hrest := List.mem_cons.mp hmem
      · exact absurd (List.contains_iff_mem.mp hknown) hout
      · exact (hall hnot).2 entry hrest hout
    · rw [if_neg hknown] at h
      have hsize := P2Chain.size_addMissing_le result first.1 first.2
      have hlisted {hash : FixedHash} (hin : hash = first.1 ∨ result.Reports hash) :
          (result.addMissing first.1 first.2).Reports hash :=
        ChainAddResult.reports_addMissing_iff.mpr hin
      dsimp only at h
      by_cases hmany : maxMissingParents < (result.addMissing first.1 first.2).missingBlocks.size
      · rw [if_pos hmany] at h
        cases h
        exact ⟨fun _ => by omega, fun hnot => absurd hnot.symm Bool.false_ne_true,
          fun hash hin => hlisted (Or.inr hin)⟩
      · rw [if_neg hmany] at h
        obtain ⟨hfull, hall, hkeeps⟩ := ih (Nat.not_lt.mp hmany) h
        refine ⟨hfull, fun hnot => ⟨(hall hnot).1, fun entry hmem hout => ?_⟩,
          fun hash hin => hkeeps hash (hlisted (Or.inr hin))⟩
        obtain rfl | hrest := List.mem_cons.mp hmem
        · exact hkeeps _ (hlisted (Or.inl rfl))
        · exact (hall hnot).2 entry hrest hout

/-! ### The batch -/

/-- The chain on which a batch takes up its `i`-th block. -/
def batchChain (core : TariCore) (s : InMemoryShareChain) (ord : Nat → IterOrder) (now : EpochTime)
    (blocks : List P2Block) (c : P2Chain) : Nat → P2Chain
  | 0 => c
  | i + 1 =>
    match blocks[i]? with
    | some b =>
      (s.submitBlockWithLock core (ord i) now b true (batchChain core s ord now blocks c i)).state
    | none => batchChain core s ord now blocks c i

/-- The first blocks of a batch were taken up, as many as `taken`: they are stored, and what was
missing for them is reported. -/
structure BatchTaken (core : TariCore) (s : InMemoryShareChain) (ord : Nat → IterOrder)
    (now : EpochTime) (blocks : List P2Block) (c c' : P2Chain) (r : ChainAddResult) (taken : Nat) :
    Prop where
  stored : ∀ i b, i < taken → blocks[i]? = some b → c'.StoredOrDropped (b.height, b.hash)
  reported : ∀ i b pair, i < taken → blocks[i]? = some b →
    ¬(batchChain core s ord now blocks c i).AlreadyVerified b →
    (batchChain core s ord now blocks c i).MissingFor b pair → pair.2 ∉ blocks.map (·.hash) →
    r.Reports pair.2 ∨ r.missingBlocks.size = maxMissingParents + 1

theorem batchChain_succ {i : Nat} (hb : blocks[i]? = some b) :
    batchChain core s ord now blocks c (i + 1) =
      (s.submitBlockWithLock core (ord i) now b true (batchChain core s ord now blocks c i)).state := by
  rw [batchChain, hb]

/-- One more block is taken up. -/
theorem BatchTaken.step {i : Nat} {tipChange : ChainAddResult}
    (h : BatchTaken core s ord now blocks c c₁ result i) (hb : blocks[i]? = some b)
    (hchain : c₁ = batchChain core s ord now blocks c i)
    (hroom : result.missingBlocks.size ≤ maxMissingParents)
    (hsubmit : s.submitBlockWithLock core (ord i) now b true c₁ = .ok tipChange c₂)
    (hreport : reportMissing (blocks.map (·.hash)) { result with newTip := laterTip result tipChange }
      ((ord i).run 0 tipChange.missingBlocks.values) = (full, result')) :
    BatchTaken core s ord now blocks c c₂ result' (i + 1) := by
  obtain ⟨hfull, hall, hkeeps⟩ := reportMissing_spec (by exact hroom) hreport
  refine ⟨fun j x hj hx => ?_, fun j x pair hj hx hnew hmissing hout => ?_⟩
  · obtain hj | rfl := Nat.lt_succ_iff_lt_or_eq.mp hj
    · exact (h.stored j x hj hx).submit hsubmit
    · rw [hb, Option.some.injEq] at hx
      subst hx
      exact P2Chain.StoredOrDropped.submitted hsubmit
  · obtain hj | rfl := Nat.lt_succ_iff_lt_or_eq.mp hj
    · obtain hlisted | hsize := h.reported j x pair hj hx hnew hmissing hout
      · exact Or.inl (hkeeps _ hlisted)
      · omega
    · rw [hb, Option.some.injEq] at hx
      subst hx
      rw [← hchain] at hnew hmissing
      have hreports := P2Chain.reports_of_submit hsubmit hnew hmissing
      obtain ⟨entry, hentry⟩ := KeyedMap.contains_iff.mp hreports
      have hkey : entry.1 = pair.2 := KeyedMap.key_of_find? hentry
      cases full with
      | true => exact Or.inr (hfull rfl)
      | false =>
        refine Or.inl (hkey ▸ (hall rfl).2 entry ?_ (hkey.symm ▸ hout))
        exact ((ord j).mem_run 0).mpr (KeyedMap.mem_values_of_find? hentry)

/-- The loop takes up all blocks that are left, or as many as it takes for the report to
overflow. -/
theorem BatchTaken.loop {done rest : List P2Block} (hblocks : blocks = done ++ rest)
    (h : BatchTaken core s ord now blocks c c₁ result done.length)
    (hchain : c₁ = batchChain core s ord now blocks c done.length)
    (hroom : result.missingBlocks.size ≤ maxMissingParents)
    (hok : s.addSyncedLoop core ord now (blocks.map (·.hash)) done.length rest result c₁ = .ok r c') :
    ∃ taken ≤ blocks.length, BatchTaken core s ord now blocks c c' r taken ∧
      (taken < blocks.length → r.missingBlocks.size = maxMissingParents + 1) := by
  induction rest generalizing done c₁ result with
  | nil =>
    cases hok
    rw [List.append_nil] at hblocks
    exact ⟨done.length, by rw [hblocks], h, fun hlt => absurd hlt (by rw [hblocks]; omega)⟩
  | cons b rest ih =>
    have hb : blocks[done.length]? = some b := by
      rw [hblocks, List.getElem?_append_right (Nat.le_refl _), Nat.sub_self]
      rfl
    rw [addSyncedLoop] at hok
    split_ifs at hok
    · cases hok
    · cases hok
    · obtain ⟨tipChange, c₂, hsubmit, hok⟩ := EStateM.exists_of_bind_eq_ok hok
      cases hreport : reportMissing (blocks.map (·.hash))
          { result with newTip := laterTip result tipChange }
          ((ord done.length).run 0 tipChange.missingBlocks.values) with
      | mk full result' =>
        have hnext := h.step hb hchain hroom hsubmit hreport
        obtain ⟨hfull, hall, -⟩ := reportMissing_spec (by exact hroom) hreport
        simp only [hreport] at hok
        cases full with
        | true =>
          cases hok
          refine ⟨done.length + 1, ?_, hnext, fun _ => hfull rfl⟩
          rw [hblocks, List.length_append, List.length_cons]
          omega
        | false =>
          have hlength : (done ++ [b]).length = done.length + 1 := List.length_append
          have hsplit : blocks = (done ++ [b]) ++ rest := by
            rw [hblocks, List.append_assoc, List.singleton_append]
          have hchain' : c₂ = batchChain core s ord now blocks c (done ++ [b]).length := by
            rw [hlength, batchChain_succ hb, ← hchain, hsubmit]
            rfl
          rw [← hlength] at hnext hok
          exact ih hsplit hnext hchain' (hall rfl).1 hok

/-- A batch that succeeds takes up its blocks in order of height until the report of missing blocks
overflows. The blocks that it takes up are stored, and what was missing for them is reported. -/
theorem addSyncedBlocks_taken (hok : s.addSyncedBlocks core ord now blocks c = .ok r c') :
    ∃ taken ≤ blocks.length,
      BatchTaken core s ord now (blocks.insertionSort (fun a b => a.height ≤ b.height)) c c' r taken ∧
      (taken < blocks.length → r.missingBlocks.size = maxMissingParents + 1) := by
  have hstart : BatchTaken core s ord now (blocks.insertionSort (fun a b => a.height ≤ b.height)) c c
      {} 0 :=
    ⟨fun i b hi => absurd hi (Nat.not_lt_zero i), fun i b pair hi => absurd hi (Nat.not_lt_zero i)⟩
  have hlength : (blocks.insertionSort (fun a b => a.height ≤ b.height)).length = blocks.length :=
    List.length_insertionSort _ _
  have hsplit : blocks.insertionSort (fun a b => a.height ≤ b.height) =
      [] ++ blocks.insertionSort (fun a b => a.height ≤ b.height) := rfl
  rw [← hlength]
  exact hstart.loop hsplit rfl (Nat.zero_le _) hok

open P2Chain

def strayBlock (i : Nat) : P2Block :=
  { sampleBlock (i + 1) (100 + i) 5 2 with squad := "", originalHeader := { outputMr := 7 } }

def strayBlocks : List P2Block := (List.range 12).map strayBlock

/-- The account of these blocks on a fresh chain. -/
theorem addSyncedBlocks_taken_twelve : ∃ r c', ∃ taken ≤ strayBlocks.length,
    BatchTaken sampleCore (sampleShareChain 10) (fun _ => .stored) 0
      (strayBlocks.insertionSort (fun a b => a.height ≤ b.height))
      (newEmpty (sampleShareChain 10).chainConfig) c' r taken ∧
    (taken < strayBlocks.length → r.missingBlocks.size = maxMissingParents + 1) := by
  obtain ⟨r, hok⟩ := exists_ok_of_valueOf (r := (sampleShareChain 10).addSyncedBlocks sampleCore
    (fun _ => .stored) 0 strayBlocks (newEmpty (sampleShareChain 10).chainConfig)) (by decide +kernel)
  exact ⟨r, _, addSyncedBlocks_taken hok⟩

/-- The last of these blocks is not looked at, and the call succeeds. -/
theorem addSyncedBlocks_cut_short : ∃ c r c' b,
    Reachable sampleCore (sampleShareChain 10).chainConfig c ∧
    (sampleShareChain 10).addSyncedBlocks sampleCore (fun _ => .stored) 0 strayBlocks c = .ok r c' ∧
    b ∈ strayBlocks ∧ ¬c.HasPair (b.height, b.hash) ∧ ¬c'.HasPair (b.height, b.hash) := by
  obtain ⟨r, hok⟩ := exists_ok_of_valueOf (r := (sampleShareChain 10).addSyncedBlocks sampleCore
    (fun _ => .stored) 0 strayBlocks (newEmpty (sampleShareChain 10).chainConfig)) (by decide +kernel)
  refine ⟨_, r, _, strayBlock 11, Reachable.empty, hok, ?_, ?_, ?_⟩
  · exact List.mem_map_of_mem (List.mem_range.mpr (by decide))
  · rw [HasPair]
    decide
  · rw [HasPair]
    decide +kernel

end InMemoryShareChain

end ShaP2Pool
