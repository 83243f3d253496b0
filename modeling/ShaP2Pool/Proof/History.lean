import ShaP2Pool.Proof.Run

/-!
# The blocks behind a chain

Every chain of a run is consistent with the blocks stored on the way to it: what it stores has the
content of one of them, and every mark names a stored block.
-/

namespace ShaP2Pool

namespace P2Chain

variable {core : TariCore} {ord : IterOrder} {config : ChainConfig} {n height : Nat}
variable {hash : FixedHash} {c c' c₀ c₁ c₂ : P2Chain} {b b₁ : P2Block} {hist : List P2Block}
variable {P : List P2Block → P2Chain → IterOrder → P2Block → Prop}

structure Distinct (hist : List P2Block) : Prop where
  nonzero : ∀ a ∈ hist, a.hash ≠ FixedHash.zero
  distinct : (hist.map (·.hash)).Nodup

/-- In a list of distinct blocks the hash determines the block. -/
theorem Distinct.eq (hd : Distinct hist) {a a' : P2Block} (ha : a ∈ hist) (ha' : a' ∈ hist)
    (h : a.hash = a'.hash) : a = a' :=
  List.inj_on_of_nodup_map hd.distinct ha ha' h

theorem Distinct.cons {b : P2Block} (hd : Distinct hist) (hnonzero : b.hash ≠ FixedHash.zero)
    (hfresh : ∀ a ∈ hist, a.hash ≠ b.hash) : Distinct (b :: hist) := by
  refine ⟨List.forall_mem_cons.mpr ⟨hnonzero, hd.nonzero⟩, ?_⟩
  rw [List.map_cons, List.nodup_cons]
  refine ⟨fun hmem => ?_, hd.distinct⟩
  obtain ⟨a, ha, heq⟩ := List.mem_map.mp hmem
  exact hfresh a ha heq

/-- Blocks of one content agree on everything but the flags. -/
theorem field_eq {α : Type} (field : P2Block → α)
    (hfield : ∀ (b : P2Block) (v : VerifiedStatus), field { b with verified := v } = field b)
    {a b : P2Block} (h : a.withoutStatus = b.withoutStatus) : field a = field b := by
  rw [← hfield a VerifiedStatus.new, ← hfield b VerifiedStatus.new]
  exact congrArg field h

theorem hash_of_withoutStatus {a b : P2Block} (h : a.withoutStatus = b.withoutStatus) :
    a.hash = b.hash :=
  field_eq P2Block.hash (fun _ _ => rfl) h

theorem Checked.tipHash_eq (hv : Checked core c height hash b b₁ c₁) : c₁.tipHash = c.tipHash := by
  rw [tipHash, hv.currentTip, hv.chainBlockAt, ← tipHash]

theorem Checked.uncles_eq (hv : Checked core c height hash b b₁ c₁) : b₁.uncles = b.uncles :=
  field_eq P2Block.uncles (fun _ _ => rfl) hv.withoutStatus_eq

theorem Checked.prevHash_eq (hv : Checked core c height hash b b₁ c₁) :
    b₁.prevHash = b.prevHash :=
  field_eq P2Block.prevHash (fun _ _ => rfl) hv.withoutStatus_eq

theorem Checked.buildsOnTip_eq (hv : Checked core c height hash b b₁ c₁) :
    c₁.buildsOnTip b₁.header = c.buildsOnTip b.header := by
  rw [Bool.eq_iff_iff, buildsOnTip_iff, buildsOnTip_iff, hv.tipHash_eq]
  change _ ∧ _ = b₁.prevHash ↔ _ ∧ _ = b.prevHash
  rw [hv.prevHash_eq]

/-- `c` was reached with the blocks `hist`. -/
structure Recorded (config : ChainConfig) (hist : List P2Block) (c : P2Chain) : Prop where
  agree : c.StoresAgree
  config_eq : c.config = config
  content : ∀ {height hash b}, c.storedBlock height hash = some b →
    ∃ a ∈ hist, a.withoutStatus = b.withoutStatus ∧ a.verified.Le b.verified
  marks : ∀ {height}, c.chainBlockAt height ≠ FixedHash.zero →
    ∃ b, c.storedBlock height (c.chainBlockAt height) = some b

namespace Recorded

theorem newEmpty (config : ChainConfig) : Recorded config [] (newEmpty config) where
  agree := StoresAgree.newEmpty config
  config_eq := rfl
  content h := by simp at h
  marks h := absurd rfl h

variable (hr : Recorded config hist c)
include hr

/-- The hash of a stored block is one of the recorded ones. -/
theorem mem_hashes (h : c.storedBlock height hash = some b) : ∃ a ∈ hist, a.hash = hash := by
  obtain ⟨a, ha, hcontent, -⟩ := hr.content h
  exact ⟨a, ha, (hash_of_withoutStatus hcontent).trans (hr.agree.hash_of_storedBlock h)⟩

theorem hash_ne_zero (hd : Distinct hist) (h : c.storedBlock height hash = some b) :
    hash ≠ FixedHash.zero := by
  obtain ⟨a, ha, rfl⟩ := hr.mem_hashes h
  exact hd.nonzero a ha

/-- The hash of a fresh block is not in use. -/
theorem unused (hfresh : ∀ a ∈ hist, a.hash ≠ b.hash) (old : P2Block)
    (hold : c.blockCache.find? b.hash = some old) : old.height = b.height := by
  have hstored := hr.agree.storedBlock_eq_some_iff.mpr ⟨hold, rfl⟩
  obtain ⟨a, ha, heq⟩ := hr.mem_hashes hstored
  exact absurd heq (hfresh a ha)

theorem storedBlock_of_writes
    (hunused : ∀ old, c.blockCache.find? b.hash = some old → old.height = b.height)
    (hw : Writes c b c₀) : c₀.storedBlock b.height b.hash = some b := by
  rw [hw.storedBlock hr.agree hunused, if_pos ⟨rfl, rfl⟩]

/-- A block is written whose hash is not in use at another height. -/
theorem writes (hunused : ∀ old, c.blockCache.find? b.hash = some old → old.height = b.height)
    (hw : Writes c b c₀) : Recorded config (b :: hist) c₀ := by
  refine ⟨hw.storesAgree hr.agree hunused, hw.config.trans hr.config_eq, ?_, ?_⟩
  · intro height hash found h
    rw [hw.storedBlock hr.agree hunused] at h
    split_ifs at h with heq
    · cases h
      exact ⟨b, List.mem_cons_self, rfl, VerifiedStatus.Le.refl _⟩
    · obtain ⟨a, ha, hcontent⟩ := hr.content h
      exact ⟨a, List.mem_cons_of_mem _ ha, hcontent⟩
  · intro height h
    rw [hw.chainBlockAt] at h ⊢
    rw [hw.storedBlock hr.agree hunused]
    split_ifs with heq
    · exact ⟨b, rfl⟩
    · exact hr.marks h

theorem checked (hv : Checked core c height hash b b₁ c₁) : Recorded config hist c₁ := by
  refine ⟨hv.storesAgree hr.agree, hv.config.trans hr.config_eq, ?_, ?_⟩
  · intro height' hash' x₁ h
    obtain ⟨x, hx, hcontent, hle⟩ := hv.storedBlock_iff hr.agree h
    obtain ⟨a, ha, hcontent', hle'⟩ := hr.content hx
    exact ⟨a, ha, hcontent'.trans hcontent.symm, hle'.trans hle⟩
  · intro height' h
    rw [hv.chainBlockAt] at h ⊢
    rw [hv.storedBlock hr.agree]
    split_ifs with heq
    · exact ⟨b₁, rfl⟩
    · exact hr.marks h

/-- Other marks on the same blocks, each new mark on a stored one. -/
theorem sameBlocks (hs : SameBlocks c c') (hmarks : ∀ height, c'.chainBlockAt height ≠ FixedHash.zero →
    c'.chainBlockAt height = c.chainBlockAt height ∨
      ∃ b, c.storedBlock height (c'.chainBlockAt height) = some b) : Recorded config hist c' := by
  refine ⟨hs.storesAgree hr.agree, hs.config.trans hr.config_eq, ?_, ?_⟩
  · intro height hash b h
    rw [hs.storedBlock] at h
    exact hr.content h
  · intro height h
    rw [hs.storedBlock]
    rcases hmarks height h with heq | hstored
    · rw [heq] at h ⊢
      exact hr.marks h
    · exact hstored

theorem movesTip (hb : c.storedBlock b.height b.hash = some b) (hm : MovesTip c b c') :
    Recorded config hist c' := by
  refine hr.sameBlocks hm.same (fun height _ => ?_)
  rw [hm.chainBlockAt]
  split_ifs with heq
  · exact Or.inr ⟨b, heq ▸ hb⟩
  · exact Or.inl rfl

theorem prunes (hp : Prunes c c') : Recorded config hist c' := by
  refine ⟨hp.storesAgree hr.agree, hp.config.trans hr.config_eq, ?_, ?_⟩
  · intro height hash b h
    exact hr.content (hp.storedBlock_of hr.agree h)
  · intro height h
    rw [hp.chainBlockAt] at h ⊢
    rw [hp.storedBlock hr.agree]
    split_ifs at h ⊢ with hlevel
    · exact hr.marks h
    · exact absurd rfl h

theorem cleanupChain : Recorded config hist c.cleanupChain :=
  hr.prunes (Prunes.cleanupChain hr.agree)

theorem reorganises {block : P2BlockHeader} (hg : Reorganises c block c') :
    Recorded config hist c' := by
  refine hr.sameBlocks hg.same (fun height hne => ?_)
  rcases hg.marks height hne with hkept | ⟨header, hheader⟩
  · exact Or.inl hkept
  · obtain ⟨b, hb, -⟩ := hr.agree.storedBlock_of_header hheader
    exact Or.inr ⟨b, hb⟩

/-- The mark of the tip names a stored block. -/
theorem exists_tip (htip : c.tipHash ≠ FixedHash.zero) :
    ∃ b, c.storedBlock c.currentTip c.tipHash = some b := hr.marks htip

/-- The checked block is stored under its own height and hash. -/
theorem stored_checked (hv : Checked core c height hash b b₁ c₁) :
    c₁.storedBlock b₁.height b₁.hash = some b₁ := by
  rw [hv.height_eq hr.agree, hv.hash_eq hr.agree]
  exact hv.storedBlock_self hr.agree

/-- Every verification that returns keeps the record. -/
theorem outcome {r : EStateM.Result Fault P2Chain (ChainAddResult × List (Nat × FixedHash))}
    (ho : Outcome core ord n height hash c r) (hreturns : Returns r) :
    Recorded config hist r.state := by
  cases ho with
  | overflow c' => exact absurd rfl (hreturns _ c')
  | absent | waiting | refused => exact hr
  | started hchecked _ _ hmoves =>
    exact ((hr.checked hchecked).movesTip (hr.stored_checked hchecked) hmoves).cleanupChain
  | unverified hchecked | badUncles hchecked => exact hr.checked hchecked
  | extended hchecked _ _ _ _ hmoves =>
    exact ((hr.checked hchecked).movesTip (hr.stored_checked hchecked) hmoves).cleanupChain
  | scanFault hoff | blocked hoff => exact hr.checked hoff.toChecked
  | stayed hcandidate | reorgFault hcandidate => exact hr.checked hcandidate.toChecked
  | reorganised hcandidate _ hreorg =>
    exact (hr.checked hcandidate.toChecked).reorganises (hcandidate.reorganises hr.agree hreorg)

end Recorded

theorem calculateAndCacheHashmapShares_state (calculatingHeight : Nat) (blockHash : FixedHash)
    (c : P2Chain) : ∃ cached,
      (InMemoryShareChain.calculateAndCacheHashmapShares calculatingHeight blockHash c).state =
        { c with cachedShares := cached } := by
  rw [InMemoryShareChain.calculateAndCacheHashmapShares]
  simp only [EStateM.bind_apply, EStateM.get_apply]
  cases c.getTip with
  | none => exact ⟨c.cachedShares, rfl⟩
  | some tip =>
    simp only [EStateM.bind_apply]
    cases c.getCalculateAndCacheHashmapOfShares calculatingHeight blockHash with
    | error fault => exact ⟨c.cachedShares, rfl⟩
    | ok shares =>
      simp only [EStateM.ofExcept_ok]
      split_ifs
      · exact ⟨_, rfl⟩
      · exact ⟨c.cachedShares, rfl⟩

theorem sharesForTemplate_state (template : P2Block) (c : P2Chain) : ∃ cached,
    (InMemoryShareChain.sharesForTemplate template c).state = { c with cachedShares := cached } := by
  rw [InMemoryShareChain.sharesForTemplate]
  simp only [EStateM.bind_apply, EStateM.get_apply, EStateM.set_apply]
  split_ifs
  · obtain ⟨cached, heq⟩ := calculateAndCacheHashmapShares_state (template.height - 1)
      template.prevHash
      { c with
        cachedShares := c.cachedShares.filter fun cached => template.prevHash = cached.atHash }
    exact ⟨cached, heq⟩
  · exact ⟨_, rfl⟩

/-- A payout list leaves the chain as the shares of the template have left it. -/
theorem generate_state_eq (core : TariCore) (s : InMemoryShareChain) (ord : IterOrder)
    (template : P2Block) (soloMine : Bool) (c : P2Chain) :
    (s.generateSharesAndGetTargetDifficulty core ord template soloMine c).state =
      if soloMine then c else (InMemoryShareChain.sharesForTemplate template c).state := by
  rw [InMemoryShareChain.generateSharesAndGetTargetDifficulty]
  cases soloMine with
  | true => rfl
  | false =>
    simp only [Bool.false_eq_true, if_false, EStateM.bind_apply]
    cases InMemoryShareChain.sharesForTemplate template c with
    | error fault c' => rfl
    | ok before c' =>
      simp only [EStateM.get_apply]
      cases c'.insertUncleShares template.uncles (insertOwnShare template before) <;> rfl

/-- A payout list changes nothing but the cached shares. -/
theorem generate_state (core : TariCore) (s : InMemoryShareChain) (ord : IterOrder)
    (template : P2Block) (soloMine : Bool) (c : P2Chain) :
    ∃ cached, (s.generateSharesAndGetTargetDifficulty core ord template soloMine c).state =
      { c with cachedShares := cached } := by
  rw [generate_state_eq]
  split_ifs
  · exact ⟨c.cachedShares, rfl⟩
  · exact sharesForTemplate_state template c

/-- Other cached shares do not matter for the record. -/
theorem Recorded.withCachedShares (hr : Recorded config hist c) (cached : Option CachedShares) :
    Recorded config hist { c with cachedShares := cached } :=
  ⟨⟨hr.agree.cached, hr.agree.listed⟩, hr.config_eq, hr.content, hr.marks⟩

theorem Run.distinct (hrun : Run core config P hist c) : Distinct hist := by
  induction hrun with
  | empty => exact ⟨by simp, List.nodup_nil⟩
  | refused _ _ ih => exact ih
  | added _ hnonzero hfresh _ _ _ ih => exact ih.cons hnonzero hfresh
  | generated _ _ ih => exact ih

theorem Recorded.visits (hr : Recorded config hist c)
    (hunused : ∀ old, c.blockCache.find? b.hash = some old → old.height = b.height) {w : WalkState}
    (hvisits : Visits core ord b c w) : Recorded config (b :: hist) w.chain := by
  refine hvisits.inv (fun c₀ hw => hr.writes hunused hw) ?_
  intro w height hash rest _ _ hI hreturns
  exact hI.outcome (outcome_verifyChainInner core ord _ height hash hI.agree) hreturns

theorem Run.recorded (hrun : Run core config P hist c) : Recorded config hist c := by
  induction hrun with
  | empty => exact Recorded.newEmpty config
  | refused _ _ ih => exact ih
  | added hrun _ hfresh hallowed _ hreturns ih =>
    refine addBlock_inv hallowed hreturns (fun c₀ hw => ih.writes (ih.unused hfresh) hw) ?_
    intro w height hash rest _ _ hI hret
    exact hI.outcome (outcome_verifyChainInner core _ _ height hash hI.agree) hret
  | @generated hist c s ord template soloMine hrun _ ih =>
    obtain ⟨cached, heq⟩ := generate_state core s ord template soloMine c
    rw [heq]
    exact ih.withCachedShares cached

end P2Chain

end ShaP2Pool
