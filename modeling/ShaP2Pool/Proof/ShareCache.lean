import ShaP2Pool.Proof.Agreement
import ShaP2Pool.Proof.Content
import ShaP2Pool.Proof.Pruning
import ShaP2Pool.Proof.ShareCount

/-!
# The share cache

A count reads the heights, parents, uncles and miners of headers, and none of this ever changes
under a height and a hash: a header comes from the block that was added with that hash. So a count
that succeeds gives the same map on the chain that cached it and on every later one. What is cached
is such a count of the tip, except when the shares of the tip are asked for at height 0 on a chain
that has dropped that level: then nothing is counted, and nothing is cached for the tip.
-/

namespace ShaP2Pool

/-- The content of a header, without the flags of the checks. -/
def P2BlockHeader.withoutStatus (x : P2BlockHeader) : P2BlockHeader :=
  { x with verified := VerifiedStatus.new }

namespace P2Chain

variable {core : TariCore} {ord : IterOrder} {config : ChainConfig} {n height : Nat}
variable {hash : FixedHash} {c c' c₀ c₁ c₂ : P2Chain} {b t : P2Block} {block x y : P2BlockHeader}
variable {Q : P2BlockHeader → Prop} {kept : Option CachedShares} {hist : List P2Block}
variable {shares shares' : MinerShares}

/-! ### Where headers come from -/

/-- Every stored header and block has a content with `Q`, and no other shares than `kept` are
cached. -/
structure DrawnFrom (Q : P2BlockHeader → Prop) (config : ChainConfig) (kept : Option CachedShares)
    (c : P2Chain) : Prop where
  config : c.config = config
  cachedShares : c.cachedShares = kept ∨ c.cachedShares = none
  headers : ∀ height hash x, c.getBlockHeaderAtHeight height hash = some x → Q x.withoutStatus
  blocks : c.AllStored fun b => Q b.header

namespace DrawnFrom

theorem of_headers (h : DrawnFrom Q config kept c) (hconfig : c'.config = c.config)
    (hcached : c'.cachedShares = c.cachedShares ∨ c'.cachedShares = none)
    (hheaders : ∀ height hash x, c'.getBlockHeaderAtHeight height hash = some x →
      c.getBlockHeaderAtHeight height hash = some x)
    (hblocks : c'.AllStored fun b => Q b.header) : DrawnFrom Q config kept c' where
  config := hconfig.trans h.config
  cachedShares := by
    obtain heq | hnone := hcached
    · rw [heq]
      exact h.cachedShares
    · exact Or.inr hnone
  headers height hash x hx := h.headers height hash x (hheaders height hash x hx)
  blocks := hblocks

theorem of_sameBlocks (h : DrawnFrom Q config kept c) (hsame : SameBlocks c c')
    (hcached : c'.cachedShares = c.cachedShares ∨ c'.cachedShares = none) :
    DrawnFrom Q config kept c' := by
  refine h.of_headers hsame.config hcached (fun height hash x hx => ?_) (h.blocks.of_cache hsame.cache)
  rwa [hsame.getBlockHeaderAtHeight] at hx

/-- A block is stored whose content has `Q`. -/
theorem writes (h : DrawnFrom Q config kept c) (hw : Writes c b c') (hb : Q b.header.withoutStatus) :
    DrawnFrom Q config kept c' where
  config := hw.config.trans h.config
  cachedShares := by
    rw [hw.cachedShares]
    exact h.cachedShares
  headers height hash x hx := by
    rw [hw.headers] at hx
    split_ifs at hx
    · rw [← Option.some.inj hx]
      exact hb
    · exact h.headers height hash x hx
  blocks := h.blocks.of_insert hb hw.cache

theorem removeLevel (h : DrawnFrom Q config kept c) : DrawnFrom Q config kept (c.removeLevel height) := by
  apply h.of_headers (config_removeLevel c height)
  · rw [P2Chain.removeLevel]
    cases c.levelAtHeight height <;> exact Or.inl rfl
  · intro height' hash x hx
    rw [getBlockHeaderAtHeight, levelAtHeight_removeLevel] at hx
    split_ifs at hx
    · cases hx
    · exact hx
  · exact h.blocks.removeLevel

theorem keptByWrites : KeptByWrites (DrawnFrom Q config kept) where
  same hsame hcached h := h.of_sameBlocks hsame hcached
  removed _ h := h.removeLevel
  checked hb _ hw h := by
    have hcontent := h.blocks.of_find? hb
    exact h.writes hw hcontent

theorem rebase (h : DrawnFrom Q config kept c) : DrawnFrom Q config c.cachedShares c :=
  { h with cachedShares := Or.inl rfl }

theorem withCachedShares (h : DrawnFrom Q config kept c) (cached : Option CachedShares) :
    DrawnFrom Q config cached { c with cachedShares := cached } where
  config := h.config
  cachedShares := Or.inl rfl
  headers := h.headers
  blocks := h.blocks

theorem mono {Q' : P2BlockHeader → Prop} (h : DrawnFrom Q config kept c) (hmono : ∀ x, Q x → Q' x) :
    DrawnFrom Q' config kept c where
  config := h.config
  cachedShares := h.cachedShares
  headers height hash x hx := hmono _ (h.headers height hash x hx)
  blocks b hb := hmono _ (h.blocks b hb)

end DrawnFrom

/-! ### Counts of the same blocks -/

def SameContent (c₁ c₂ : P2Chain) : Prop :=
  ∀ height height' hash x y, c₁.getBlockHeaderAtHeight height hash = some x →
    c₂.getBlockHeaderAtHeight height' hash = some y → x.withoutStatus = y.withoutStatus

theorem countUncles_unique {uncles : List (Nat × FixedHash)} {start : MinerShares}
    (hsame : SameContent c₁ c₂) (h₁ : c₁.countUncles uncles start = .ok shares)
    (h₂ : c₂.countUncles uncles start = .ok shares') : shares = shares' := by
  induction uncles generalizing start with
  | nil =>
    rw [countUncles, Except.ok.injEq] at h₁ h₂
    exact h₁.symm.trans h₂
  | cons uncle rest ih =>
    rw [countUncles] at h₁ h₂
    cases hx : c₁.getBlockHeaderAtHeight uncle.1 uncle.2 with
    | none => simp [hx] at h₁
    | some x =>
      cases hy : c₂.getBlockHeaderAtHeight uncle.1 uncle.2 with
      | none => simp [hy] at h₂
      | some y =>
        have hcontent := hsame _ _ _ x y hx hy
        have hwallet : x.walletAddress = y.walletAddress := congrArg (·.walletAddress) hcontent
        have hextra : x.coinbaseExtra = y.coinbaseExtra := congrArg (·.coinbaseExtra) hcontent
        simp only [hx, hwallet, hextra] at h₁
        simp only [hy] at h₂
        exact ih h₁ h₂

theorem countBlock_unique {start : MinerShares} (hsame : SameContent c₁ c₂)
    (hcontent : x.withoutStatus = y.withoutStatus) (h₁ : c₁.countBlock x start = .ok shares)
    (h₂ : c₂.countBlock y start = .ok shares') : shares = shares' := by
  have hwallet : x.walletAddress = y.walletAddress := congrArg (·.walletAddress) hcontent
  have hextra : x.coinbaseExtra = y.coinbaseExtra := congrArg (·.coinbaseExtra) hcontent
  have huncles : x.uncles = y.uncles := congrArg (·.uncles) hcontent
  rw [countBlock, hwallet, hextra, huncles] at h₁
  exact countUncles_unique hsame h₁ h₂

theorem countAncestors_unique {steps : Nat} {start : MinerShares} (hsame : SameContent c₁ c₂)
    (hcontent : x.withoutStatus = y.withoutStatus)
    (h₁ : c₁.countAncestors steps x start = .ok shares)
    (h₂ : c₂.countAncestors steps y start = .ok shares') : shares = shares' := by
  induction steps generalizing x y start with
  | zero =>
    rw [countAncestors, Except.ok.injEq] at h₁ h₂
    exact h₁.symm.trans h₂
  | succ steps ih =>
    have hheight : x.height = y.height := congrArg (·.height) hcontent
    have hprev : x.prevHash = y.prevHash := congrArg (·.prevHash) hcontent
    rw [countAncestors, hheight, hprev] at h₁
    rw [countAncestors] at h₂
    cases hp : c₁.getBlockHeaderAtHeight (y.height - 1) y.prevHash with
    | none => simp [hp] at h₁
    | some p =>
      cases hq : c₂.getBlockHeaderAtHeight (y.height - 1) y.prevHash with
      | none => simp [hq] at h₂
      | some q =>
        simp only [hp] at h₁
        simp only [hq] at h₂
        have hparents := hsame _ _ _ p q hp hq
        cases hcount₁ : c₁.countBlock p start with
        | error e => simp [hcount₁] at h₁
        | ok counted₁ =>
          cases hcount₂ : c₂.countBlock q start with
          | error e => simp [hcount₂] at h₂
          | ok counted₂ =>
            have hcounted := countBlock_unique hsame hparents hcount₁ hcount₂
            have hzero : p.height = q.height := congrArg (·.height) hparents
            simp only [hcount₁, hcounted, hzero] at h₁
            simp only [hcount₂] at h₂
            split_ifs at h₁ h₂
            · cases h₁
              cases h₂
              rfl
            · exact ih hparents h₁ h₂

theorem two_le_of_counted (hx : c.getBlockHeaderAtHeight height hash = some x)
    (h : c.getCalculateAndCacheHashmapOfShares height hash = .ok shares) :
    2 ≤ c.config.shareWindow := by
  obtain ⟨level, hlevel, -⟩ := Option.bind_eq_some_iff.mp hx
  apply Nat.le_of_not_lt
  intro hnarrow
  rw [getCalculateAndCacheHashmapOfShares] at h
  simp [hlevel, hnarrow] at h

theorem count_unique {height' : Nat} (hsame : SameContent c₁ c₂) (hconfig : c₁.config = c₂.config)
    (hx : c₁.getBlockHeaderAtHeight height hash = some x)
    (hy : c₂.getBlockHeaderAtHeight height' hash = some y)
    (h₁ : c₁.getCalculateAndCacheHashmapOfShares height hash = .ok shares)
    (h₂ : c₂.getCalculateAndCacheHashmapOfShares height' hash = .ok shares') : shares = shares' := by
  have hwindow := two_le_of_counted hx h₁
  have hcontent := hsame _ _ _ x y hx hy
  have hheight : x.height = y.height := congrArg (·.height) hcontent
  rw [getCalculateAndCacheHashmapOfShares_eq hwindow hx, hheight, hconfig] at h₁
  rw [getCalculateAndCacheHashmapOfShares_eq (hconfig ▸ hwindow) hy] at h₂
  cases hcount₁ : c₁.countBlock x KeyedMap.empty with
  | error e => simp [hcount₁] at h₁
  | ok counted₁ =>
    cases hcount₂ : c₂.countBlock y KeyedMap.empty with
    | error e => simp [hcount₂] at h₂
    | ok counted₂ =>
      have hcounted := countBlock_unique hsame hcontent hcount₁ hcount₂
      simp only [hcount₁, hcounted] at h₁
      simp only [hcount₂] at h₂
      split at h₁
      · cases h₁
      · next shares₁ hwalk₁ =>
        split at h₂
        · cases h₂
        · next shares₂ hwalk₂ =>
          cases h₁
          cases h₂
          exact countAncestors_unique hsame hcontent hwalk₁ hwalk₂

/-! ### What is cached -/

def ContentOf (hist : List P2Block) (x : P2BlockHeader) : Prop := ∃ a ∈ hist, x = a.header.withoutStatus

theorem contentOf_self (b : P2Block) (hist : List P2Block) :
    ContentOf (b :: hist) b.header.withoutStatus :=
  ⟨b, List.mem_cons_self, rfl⟩

theorem ContentOf.mono {hist' : List P2Block} (hsubset : hist ⊆ hist') (h : ContentOf hist x) :
    ContentOf hist' x := by
  obtain ⟨a, ha, hcontent⟩ := h
  exact ⟨a, hsubset ha, hcontent⟩

theorem DrawnFrom.cons (h : DrawnFrom (ContentOf hist) config kept c) (b : P2Block) :
    DrawnFrom (ContentOf (b :: hist)) config kept c :=
  h.mono fun _ hx => hx.mono (List.subset_cons_self b hist)

/-- A block of another hash than the ones before it, or one of these again. -/
def Agrees (hist : List P2Block) (b : P2Block) : Prop :=
  ∀ a ∈ hist, a.hash = b.hash → a.withoutStatus = b.withoutStatus

theorem sameContent_of_drawnFrom {kept₁ kept₂ : Option CachedShares}
    (hagrees : ∀ b ∈ hist, Agrees hist b) (h₁ : DrawnFrom (ContentOf hist) config kept₁ c₁)
    (h₂ : DrawnFrom (ContentOf hist) config kept₂ c₂) : SameContent c₁ c₂ := by
  intro height height' hash x y hx hy
  obtain ⟨a, ha, hxa⟩ := h₁.headers height hash x hx
  obtain ⟨a', ha', hya⟩ := h₂.headers height' hash y hy
  have hhash : a.hash = a'.hash := by
    have hxhash : x.hash = a.hash := congrArg (·.hash) hxa
    have hyhash : y.hash = a'.hash := congrArg (·.hash) hya
    rw [← hxhash, ← hyhash, hash_of_getBlockHeaderAtHeight hx, hash_of_getBlockHeaderAtHeight hy]
  have hcontent : a.header.withoutStatus = a'.header.withoutStatus :=
    congrArg P2Block.header (hagrees a' ha' a ha hhash)
  rw [hxa, hya, hcontent]

/-- What is cached is a count of the block it is cached for, on a chain of the recorded blocks. -/
structure Counted (config : ChainConfig) (hist : List P2Block) (c : P2Chain) : Prop where
  drawn : DrawnFrom (ContentOf hist) config c.cachedShares c
  source : ∀ cached, c.cachedShares = some cached → ∃ earlier height x,
    DrawnFrom (ContentOf hist) config earlier.cachedShares earlier ∧
    earlier.getBlockHeaderAtHeight height cached.atHash = some x ∧
    earlier.getCalculateAndCacheHashmapOfShares height cached.atHash = .ok cached.shares

/-- The shares for the template are counted anew at height 0, where no level is, and the empty map
that this gives is cached for the tip. -/
def CachesEmpty (c : P2Chain) (t : P2Block) : Prop :=
  (∃ tip, c.getTip = some tip ∧ tip.chainBlock = t.prevHash) ∧ t.height ≤ 1 ∧
    c.levelAtHeight 0 = none ∧
    ∀ cached, c.cachedShares = some cached → cached.atHash = t.prevHash → cached.shares.size = 0

/-- A template keeps what is cached, or caches the count for its parent. -/
theorem cachedShares_sharesForTemplate {cached : CachedShares}
    (h : (InMemoryShareChain.sharesForTemplate t c).state.cachedShares = some cached) :
    c.cachedShares = some cached ∨
      ((∃ tip, c.getTip = some tip ∧ tip.chainBlock = t.prevHash) ∧ cached.atHash = t.prevHash ∧
        c.getCalculateAndCacheHashmapOfShares (t.height - 1) t.prevHash = .ok cached.shares ∧
        ∀ old, c.cachedShares = some old → old.atHash = t.prevHash → old.shares.size = 0) := by
  rw [InMemoryShareChain.sharesForTemplate] at h
  simp only [EStateM.bind_apply, EStateM.get_apply, EStateM.set_apply] at h
  have hkept {cached : CachedShares} (hfilter : (c.cachedShares.filter fun cached =>
      decide (t.prevHash = cached.atHash)) = some cached) : c.cachedShares = some cached :=
    (Option.filter_eq_some_iff.mp hfilter).1
  split_ifs at h with hempty
  · rw [InMemoryShareChain.calculateAndCacheHashmapShares] at h
    simp only [EStateM.bind_apply, EStateM.get_apply] at h
    rw [show ∀ cached, ({ c with cachedShares := cached } : P2Chain).getTip = c.getTip from
      fun _ => rfl] at h
    cases htip : c.getTip with
    | none =>
      rw [htip] at h
      exact Or.inl (hkept h)
    | some tip =>
      simp only [htip, EStateM.bind_apply, calculate_withCachedShares] at h
      cases hshares : c.getCalculateAndCacheHashmapOfShares (t.height - 1) t.prevHash with
      | error fault =>
        rw [hshares] at h
        exact Or.inl (hkept h)
      | ok shares =>
        simp only [hshares, EStateM.ofExcept_ok] at h
        split_ifs at h with hat
        · cases h
          refine Or.inr ⟨⟨tip, rfl, hat⟩, hat, rfl, fun old hold holdAt => ?_⟩
          have hfilter : (some old).filter (fun cached => decide (t.prevHash = cached.atHash)) =
              some old := Option.filter_some_pos (decide_eq_true holdAt.symm)
          rw [hold, hfilter] at hempty
          exact hempty
        · exact Or.inl (hkept h)
  · exact Or.inl (hkept h)

namespace Counted

theorem of_drawnFrom (h : Counted config hist c) {hist' : List P2Block} (hsubset : hist ⊆ hist')
    (hdrawn : DrawnFrom (ContentOf hist') config c.cachedShares c') : Counted config hist' c' where
  drawn := hdrawn.rebase
  source cached hcached := by
    obtain hkept | hnone := hdrawn.cachedShares
    · rw [hkept] at hcached
      obtain ⟨earlier, height, x, hearlier, hx, hcount⟩ := h.source cached hcached
      exact ⟨earlier, height, x, hearlier.mono fun _ hx => hx.mono hsubset, hx, hcount⟩
    · rw [hnone] at hcached
      cases hcached

theorem newEmpty (config : ChainConfig) : Counted config [] (P2Chain.newEmpty config) where
  drawn := {
    config := rfl
    cachedShares := Or.inl rfl
    headers := fun height hash x hx => by cases hx
    blocks := AllStored.newEmpty config }
  source cached hcached := by cases hcached

/-- The chains of the walk of a call for a block that agrees. -/
theorem visits (h : Counted config hist c) {w : WalkState} (hvisits : Visits core ord b c w) :
    Counted config (b :: hist) w.chain := by
  apply h.of_drawnFrom (List.subset_cons_self b hist)
  have hdrawn := h.drawn.cons b
  exact DrawnFrom.keptByWrites.visits (fun _ hw => hdrawn.writes hw (contentOf_self b hist)) hvisits

theorem addBlockToChain (h : Counted config hist c) :
    Counted config (b :: hist) (P2Chain.addBlockToChain core ord b c).state := by
  apply h.of_drawnFrom (List.subset_cons_self b hist)
  have hdrawn := h.drawn.cons b
  exact DrawnFrom.keptByWrites.addBlockToChain
    (fun _ hw => hdrawn.writes hw (contentOf_self b hist)) hdrawn

/-- A template that does not cache an empty map. -/
theorem sharesForTemplate (h : Counted config hist c) (hfull : ¬CachesEmpty c t) :
    Counted config hist (InMemoryShareChain.sharesForTemplate t c).state := by
  obtain ⟨kept, hstate⟩ := sharesForTemplate_state t c
  have hdrawn : DrawnFrom (ContentOf hist) config
      (InMemoryShareChain.sharesForTemplate t c).state.cachedShares
      (InMemoryShareChain.sharesForTemplate t c).state := by
    rw [hstate]
    exact h.drawn.withCachedShares kept
  refine ⟨hdrawn, fun cached hcached => ?_⟩
  obtain hold | ⟨htip, hat, hcount, hstale⟩ := cachedShares_sharesForTemplate hcached
  · exact h.source cached hold
  · cases hlevel : c.levelAtHeight (t.height - 1) with
    | none =>
      -- only height 0 is counted without a level
      have hzero : t.height - 1 = 0 := by
        by_contra hne
        rw [getCalculateAndCacheHashmapOfShares, hlevel] at hcount
        simp [hne] at hcount
      rw [hzero] at hlevel
      exact absurd ⟨htip, by omega, hlevel, hstale⟩ hfull
    | some level =>
      cases hx : c.getBlockHeaderAtHeight (t.height - 1) t.prevHash with
      | none =>
        rw [getBlockHeaderAtHeight, hlevel, Option.bind_some] at hx
        rw [getCalculateAndCacheHashmapOfShares, hlevel] at hcount
        simp only [hx] at hcount
        split_ifs at hcount
      | some x => exact ⟨c, t.height - 1, x, h.drawn, hat ▸ hx, hat ▸ hcount⟩

end Counted

/-! ### The results without the cache -/

def UsesCache (c : P2Chain) (b : P2Block) : Prop :=
  ∃ cached, c.cachedShares = some cached ∧ cached.atHash = b.prevHash

/-- Where shares are cached for the parent of a block, the parent is stored one height below the
block, and the blocks of its share window and their uncles are stored. -/
def Recountable (c : P2Chain) (b : P2Block) : Prop :=
  c.UsesCache b → ∃ x, c.getBlockHeaderAtHeight (b.height - 1) b.prevHash = some x ∧ c.WindowStored x

def uncached (c : P2Chain) : P2Chain := { c with cachedShares := none }

@[simp] theorem cachedShares_uncached (c : P2Chain) : c.uncached.cachedShares = none := rfl

@[simp] theorem getTip_uncached (c : P2Chain) : c.uncached.getTip = c.getTip := rfl

@[simp] theorem calculate_uncached (c : P2Chain) (height : Nat) (hash : FixedHash) :
    c.uncached.getCalculateAndCacheHashmapOfShares height hash =
      c.getCalculateAndCacheHashmapOfShares height hash :=
  calculate_withCachedShares none height hash

/-- What is cached is what a count gives, and no result depends on whether it is cached: not a
payout list, and not the share check of a block. -/
structure CacheInvisible (c : P2Chain) : Prop where
  counted : ∀ cached height x shares, c.cachedShares = some cached →
    c.getBlockHeaderAtHeight height cached.atHash = some x →
    c.getCalculateAndCacheHashmapOfShares height cached.atHash = .ok shares → cached.shares = shares
  payout : ∀ core s ord t soloMine, (soloMine = false → c.Recountable t) →
    (soloMine = false → c.UsesCache t → ∃ tip, c.getTip = some tip) →
    (InMemoryShareChain.generateSharesAndGetTargetDifficulty core s ord t soloMine c).toExcept =
      (InMemoryShareChain.generateSharesAndGetTargetDifficulty core s ord t soloMine
        c.uncached).toExcept
  checks : ∀ b, c.Recountable b → c.verifySharesForBlock b = c.uncached.verifySharesForBlock b

theorem lwmaFromHeaders_withCachedShares (cached : Option CachedShares) (steps : Nat)
    (x : P2BlockHeader) (lwma : LinearWeightedMovingAverage) :
    ({ c with cachedShares := cached } : P2Chain).lwmaFromHeaders steps x lwma =
      c.lwmaFromHeaders steps x lwma := by
  induction steps generalizing x lwma with
  | zero => rfl
  | succ steps ih =>
    rw [lwmaFromHeaders, lwmaFromHeaders]
    split_ifs
    · rfl
    · have hheader : ({ c with cachedShares := cached } : P2Chain).getBlockHeaderAtHeight
          (x.height - 1) x.prevHash = c.getBlockHeaderAtHeight (x.height - 1) x.prevHash := rfl
      rw [hheader]
      cases c.getBlockHeaderAtHeight (x.height - 1) x.prevHash with
      | none => rfl
      | some next => simp only [ih]

theorem targetDifficulty_withCachedShares (cached : Option CachedShares) :
    getTargetDifficultyForBlock core { c with cachedShares := cached } t =
      getTargetDifficultyForBlock core c t := by
  rw [getTargetDifficultyForBlock, getTargetDifficultyForBlock]
  simp only [lwmaFromHeaders_withCachedShares]
  rfl

theorem sharesForTemplate_toExcept (t : P2Block) (c : P2Chain) :
    (InMemoryShareChain.sharesForTemplate t c).toExcept =
      if (((c.cachedShares.filter fun cached => decide (t.prevHash = cached.atHash)).map
          (·.shares)).getD KeyedMap.empty).size = 0 then
        match c.getTip with
        | none => .ok KeyedMap.empty
        | some _ => c.getCalculateAndCacheHashmapOfShares (t.height - 1) t.prevHash
      else .ok (((c.cachedShares.filter fun cached => decide (t.prevHash = cached.atHash)).map
        (·.shares)).getD KeyedMap.empty) := by
  rw [InMemoryShareChain.sharesForTemplate]
  simp only [EStateM.bind_apply, EStateM.get_apply, EStateM.set_apply]
  split_ifs
  · rw [InMemoryShareChain.calculateAndCacheHashmapShares]
    simp only [EStateM.bind_apply, EStateM.get_apply]
    rw [show ∀ cached, ({ c with cachedShares := cached } : P2Chain).getTip = c.getTip from
      fun _ => rfl]
    cases c.getTip with
    | none => rfl
    | some tip =>
      simp only [EStateM.bind_apply, calculate_withCachedShares]
      cases c.getCalculateAndCacheHashmapOfShares (t.height - 1) t.prevHash with
      | error fault => rfl
      | ok shares =>
        simp only [EStateM.ofExcept_ok]
        split_ifs <;> rfl
  · rfl

theorem generate_toExcept_congr {s : InMemoryShareChain} (hshares :
    (InMemoryShareChain.sharesForTemplate t c).toExcept =
      (InMemoryShareChain.sharesForTemplate t c.uncached).toExcept) :
    (s.generateSharesAndGetTargetDifficulty core ord t false c).toExcept =
      (s.generateSharesAndGetTargetDifficulty core ord t false c.uncached).toExcept := by
  obtain ⟨kept, hstate⟩ := sharesForTemplate_state t c
  obtain ⟨kept', hstate'⟩ := sharesForTemplate_state t c.uncached
  apply EStateM.toExcept_bind_congr hshares
  intro before c₁ c₂ hbefore hbefore'
  change InMemoryShareChain.sharesForTemplate t c = _ at hbefore
  change InMemoryShareChain.sharesForTemplate t c.uncached = _ at hbefore'
  rw [hbefore, EStateM.Result.state_ok] at hstate
  rw [hbefore', EStateM.Result.state_ok, uncached] at hstate'
  simp only [Bool.false_eq_true, if_false, EStateM.bind_apply, EStateM.get_apply, hstate, hstate',
    insertUncleShares_withCachedShares]
  cases c.insertUncleShares t.uncles (insertOwnShare t before) with
  | none => rfl
  | some shares =>
    simp only [EStateM.ofOption_some, EStateM.pure_apply, targetDifficulty_withCachedShares]
    rfl

theorem Counted.cacheInvisible (h : Counted config hist c)
    (hagrees : ∀ b ∈ hist, Agrees hist b) : CacheInvisible c := by
  have hcounted : ∀ cached height x shares, c.cachedShares = some cached →
      c.getBlockHeaderAtHeight height cached.atHash = some x →
      c.getCalculateAndCacheHashmapOfShares height cached.atHash = .ok shares →
      cached.shares = shares := by
    intro cached height x shares hcached hx hcount
    obtain ⟨earlier, height', y, hearlier, hy, hcount'⟩ := h.source cached hcached
    exact count_unique (sameContent_of_drawnFrom hagrees hearlier h.drawn)
      (hearlier.config.trans h.drawn.config.symm) hy hx hcount' hcount
  -- what is cached for the parent of a block can be counted anew
  have hrecount (b : P2Block) (cached : CachedShares) (hb : c.Recountable b)
      (hcached : c.cachedShares = some cached) (hat : cached.atHash = b.prevHash) :
      c.getCalculateAndCacheHashmapOfShares (b.height - 1) b.prevHash = .ok cached.shares := by
    obtain ⟨x, hx, hstored⟩ := hb ⟨cached, hcached, hat⟩
    obtain ⟨earlier, height', y, hearlier, hy, hcount'⟩ := h.source cached hcached
    have hwindow : 2 ≤ c.config.shareWindow := by
      have htwo := two_le_of_counted hy hcount'
      rwa [hearlier.config, ← h.drawn.config] at htwo
    obtain ⟨shares, hshares⟩ := exists_of_windowStored hwindow hx hstored
    rw [hshares, hcounted cached (b.height - 1) x shares hcached (hat ▸ hx) (hat ▸ hshares)]
  refine ⟨hcounted, fun core s ord t soloMine ht htip => ?_, fun b hb => ?_⟩
  · cases soloMine with
    | true =>
      simp only [InMemoryShareChain.generateSharesAndGetTargetDifficulty, if_true, EStateM.bind_apply,
        EStateM.pure_apply, EStateM.get_apply, uncached, targetDifficulty_withCachedShares]
      rfl
    | false =>
      apply generate_toExcept_congr
      have hempty : (KeyedMap.empty : MinerShares).size = 0 := rfl
      rw [sharesForTemplate_toExcept, sharesForTemplate_toExcept, cachedShares_uncached,
        Option.filter_none, Option.map_none, Option.getD_none, if_pos hempty, getTip_uncached,
        calculate_uncached]
      split_ifs with hsize
      · rfl
      · cases hfilter : c.cachedShares.filter fun cached => decide (t.prevHash = cached.atHash) with
        | none =>
          rw [hfilter] at hsize
          exact absurd hempty hsize
        | some cached =>
          obtain ⟨hcached, hat⟩ := Option.filter_eq_some_iff.mp hfilter
          have hat : cached.atHash = t.prevHash := (of_decide_eq_true hat).symm
          obtain ⟨tip, htip⟩ := htip rfl ⟨cached, hcached, hat⟩
          rw [htip]
          exact (hrecount t cached (ht rfl) hcached hat).symm
  · have hbefore : c.sharesBefore b = c.uncached.sharesBefore b := by
      rw [sharesBefore, sharesBefore, cachedShares_uncached, calculate_uncached]
      cases hcached : c.cachedShares with
      | none => rfl
      | some cached =>
        simp only
        split_ifs with hat
        · exact (hrecount b cached hb hcached hat.symm).symm
        · rfl
    rw [verifySharesForBlock, verifySharesForBlock, hbefore, uncached]
    simp only [insertUncleShares_withCachedShares]

/-! ### Runs -/

/-- Calls for blocks, each of a hash of its own or sent again, and calls for payout lists, none of
which caches an empty map. -/
inductive PayoutRun (core : TariCore) (config : ChainConfig) : List P2Block → P2Chain → Prop
  | empty : PayoutRun core config [] (newEmpty config)
  | added {hist : List P2Block} {c : P2Chain} {ord : IterOrder} {b : P2Block}
    (hrun : PayoutRun core config hist c) (hagrees : Agrees hist b) :
    PayoutRun core config (b :: hist) (addBlockToChain core ord b c).state
  | generated {hist : List P2Block} {c : P2Chain} {s : InMemoryShareChain} {ord : IterOrder}
    {template : P2Block} {soloMine : Bool} (hrun : PayoutRun core config hist c)
    (hfull : soloMine = false → ¬CachesEmpty c template) :
    PayoutRun core config hist
      (s.generateSharesAndGetTargetDifficulty core ord template soloMine c).state

theorem Agrees.cons (hagrees : ∀ a ∈ hist, Agrees hist a) (hb : Agrees hist b) :
    ∀ a ∈ b :: hist, Agrees (b :: hist) a := by
  intro a ha a' ha' hhash
  obtain rfl | hmem := List.mem_cons.mp ha
  · obtain rfl | hmem' := List.mem_cons.mp ha'
    · rfl
    · exact hb a' hmem' hhash
  · obtain rfl | hmem' := List.mem_cons.mp ha'
    · exact (hb a hmem hhash.symm).symm
    · exact hagrees a hmem a' hmem' hhash

theorem PayoutRun.agrees (hrun : PayoutRun core config hist c) : ∀ a ∈ hist, Agrees hist a := by
  induction hrun with
  | empty => exact List.forall_mem_nil _
  | added _ hagrees ih => exact Agrees.cons ih hagrees
  | generated _ _ ih => exact ih

theorem PayoutRun.counted (hrun : PayoutRun core config hist c) : Counted config hist c := by
  induction hrun with
  | empty => exact Counted.newEmpty config
  | added _ _ ih => exact ih.addBlockToChain
  | generated _ hfull ih =>
    rw [generate_state_eq]
    split_ifs with hsolo
    · exact ih
    · exact ih.sharesForTemplate (hfull (Bool.not_eq_true _ ▸ hsolo))

/-- The cache is invisible after every such run, and in every state that the next call for a block
passes through. -/
theorem shareCache_invisible (hrun : PayoutRun core config hist c) :
    CacheInvisible c ∧ ∀ ord b w, Agrees hist b → Visits core ord b c w → CacheInvisible w.chain := by
  refine ⟨hrun.counted.cacheInvisible hrun.agrees, fun ord b w hagrees hvisits => ?_⟩
  exact (hrun.counted.visits hvisits).cacheInvisible (Agrees.cons hrun.agrees hagrees)

def sampleTemplate : P2Block := sampleBlock 9 3 3 4

/-- The chain of three after a payout list for its tip, which caches the count. -/
def listedChain : P2Chain := ((sampleShareChain 10).generateSharesAndGetTargetDifficulty sampleCore
  .stored sampleTemplate false sampleChain).state

theorem PayoutRun.of_isRun {blocks : List P2Block} (hrun : PayoutRun core config hist c)
    (h : isRun core ord (fun _ _ _ => true) hist blocks c = true) :
    PayoutRun core config (blocks.reverse ++ hist) (addAll core ord blocks c) := by
  induction blocks generalizing hist c with
  | nil => exact hrun
  | cons b blocks ih =>
    simp only [isRun, Bool.and_eq_true, bne_iff_ne, List.all_eq_true, decide_eq_true_eq] at h
    obtain ⟨⟨⟨⟨⟨-, hfresh⟩, -⟩, -⟩, -⟩, hrest⟩ := h
    have hnext := ih (hrun.added fun a ha hhash => absurd hhash (hfresh a ha)) hrest
    rwa [List.reverse_cons, List.append_assoc, List.singleton_append]

theorem payoutRun_listedChain :
    PayoutRun sampleCore (sampleConfig 10) (sampleBlocks.reverse ++ []) listedChain := by
  apply PayoutRun.generated
  · exact PayoutRun.empty.of_isRun (by decide)
  · intro _ hempty
    exact absurd hempty.2.1 (by decide)

/-- A count is cached, and goes on being right while the chain is extended. -/
theorem shareCache_invisible_three : listedChain.cachedShares.isSome = true ∧ CacheInvisible listedChain ∧
    ∀ ord b w, Agrees (sampleBlocks.reverse ++ []) b → Visits sampleCore ord b listedChain w →
      CacheInvisible w.chain :=
  ⟨by decide, shareCache_invisible payoutRun_listedChain⟩

/-! ### An empty map -/

/-- Such a template does cache the empty map. -/
theorem CachesEmpty.sharesForTemplate (h : CachesEmpty c t) :
    InMemoryShareChain.sharesForTemplate t c = .ok KeyedMap.empty
      { c with cachedShares := some { atHash := t.prevHash, shares := KeyedMap.empty } } := by
  obtain ⟨⟨tip, htip, hat⟩, hheight, hlevel, hstale⟩ := h
  have hzero : t.height - 1 = 0 := by omega
  have hcount : c.getCalculateAndCacheHashmapOfShares (t.height - 1) t.prevHash =
      .ok KeyedMap.empty := by
    rw [getCalculateAndCacheHashmapOfShares, hzero, hlevel]
    rfl
  have hsize : (((c.cachedShares.filter fun cached => decide (t.prevHash = cached.atHash)).map
      (·.shares)).getD KeyedMap.empty).size = 0 := by
    cases hfilter : c.cachedShares.filter fun cached => decide (t.prevHash = cached.atHash) with
    | none => rfl
    | some cached =>
      obtain ⟨hcached, hprev⟩ := Option.filter_eq_some_iff.mp hfilter
      exact hstale cached hcached (of_decide_eq_true hprev).symm
  rw [InMemoryShareChain.sharesForTemplate]
  simp only [EStateM.bind_apply, EStateM.get_apply, EStateM.set_apply]
  rw [if_pos hsize, InMemoryShareChain.calculateAndCacheHashmapShares]
  simp only [EStateM.bind_apply, EStateM.get_apply]
  rw [show ∀ cached, ({ c with cachedShares := cached } : P2Chain).getTip = c.getTip from
    fun _ => rfl, htip]
  simp only [EStateM.bind_apply, calculate_withCachedShares, hcount, EStateM.ofExcept_ok, hat, if_true,
    EStateM.set_apply, EStateM.pure_apply]

theorem CachesEmpty.returns (h : CachesEmpty c t) (huncles : t.uncles = []) {s : InMemoryShareChain} :
    Returns (s.generateSharesAndGetTargetDifficulty core ord t false c) := by
  intro p c' hpanic
  rw [InMemoryShareChain.generateSharesAndGetTargetDifficulty] at hpanic
  simp only [Bool.false_eq_true, if_false, EStateM.bind_apply, h.sharesForTemplate, huncles,
    EStateM.get_apply, insertUncleShares, EStateM.ofOption_some, EStateM.pure_apply] at hpanic
  cases hpanic

theorem windowStored_of_two (hwindow : c.config.shareWindow = 2) (hheight : x.height = 1)
    (huncles : x.uncles = []) : c.WindowStored x := by
  have hheaders : c.windowHeaders x = [x] := by
    rw [windowHeaders, windowLength, hwindow, hheight]
    exact headerPath_one c x
  constructor
  · rw [hheaders, windowLength, hwindow, hheight]
    rfl
  · intro uncle huncle
    rw [windowUncles, hheaders, List.flatMap_cons, huncles] at huncle
    cases huncle

theorem ne_empty_of_counted (hx : c.getBlockHeaderAtHeight height hash = some x)
    (h : c.getCalculateAndCacheHashmapOfShares height hash = .ok shares) : shares ≠ KeyedMap.empty := by
  have hwindow := two_le_of_counted hx h
  obtain ⟨hstored, hcounts⟩ := window_ok hwindow hx h
  have htotal := (countsWindow_of_counts hstored hcounts).total
  have hlength : 0 < c.windowLength x.height := by
    rw [windowLength]
    omega
  rintro rfl
  rw [show ((KeyedMap.empty : MinerShares).values.map (·.shareCount)).sum = 0 from rfl,
    mainRewardShare] at htotal
  omega

/-- The chain of the first block, where the share window takes in one block below the next one. -/
def narrowChain : P2Chain := addAll sampleCore .stored [sampleBlock 1 0 0 1] (newEmpty (sampleConfig 2))

theorem run_narrowChain :
    Run sampleCore (sampleConfig 2) Unrestricted [sampleBlock 1 0 0 1] narrowChain :=
  Run.of_blocks IterOrder.stored (fun _ _ _ => true) (fun _ _ _ _ => trivial) [sampleBlock 1 0 0 1]
    (by decide)

theorem hasFirst_narrowChain : HasFirst narrowChain :=
  ⟨by decide, by decide, _, (Option.some_get (by decide)).symm, by decide⟩

/-- A template that names the tip of a crowded chain at the height of the tip. -/
def narrowTemplate : P2Block := sampleBlock 10001 crowdedBlock.hash 1 3

theorem Crowded.exists_header {shareWindow : Nat} (h : Crowded P shareWindow n hist c c')
    (hroom : n < maxLevels (sampleConfig shareWindow)) : ∃ tip x, c'.getTip = some tip ∧
      tip.chainBlock = crowdedBlock.hash ∧
      c'.getBlockHeaderAtHeight 1 crowdedBlock.hash = some x ∧ x.height = 1 ∧ x.uncles = [] := by
  have hlevel : (c'.levelAtHeight 1).isSome = true := h.second.trans (decide_eq_true hroom)
  obtain ⟨tip, htip⟩ := Option.isSome_iff_exists.mp hlevel
  have hmark := h.chainBlock hlevel
  have hchain : tip.chainBlock = crowdedBlock.hash := by
    rw [← chainBlockAt_of_level htip, hmark]
  have hget : c'.getTip = some tip := by
    rw [getTip_eq_some_iff, h.currentTip, hchain]
    exact ⟨htip, by decide⟩
  have hmarked : c'.chainBlockAt 1 ≠ FixedHash.zero := by
    rw [hmark]
    decide
  obtain ⟨b, hb⟩ := h.recorded.marks hmarked
  rw [hmark] at hb
  refine ⟨tip, b.header, hget, hchain, h.recorded.agree.header_of_storedBlock hb, ?_, ?_⟩
  · exact h.recorded.agree.height_of_storedBlock hb
  · obtain ⟨a, ha, hcontent, -⟩ := h.recorded.content hb
    have hhash : a.hash = crowdedBlock.hash :=
      (hash_of_withoutStatus hcontent).trans (h.recorded.agree.hash_of_storedBlock hb)
    obtain rfl | hmem := List.mem_cons.mp ha
    · exact (congrArg P2Block.uncles hcontent).symm
    · exact absurd hhash (h.fresh a hmem)

/-- Orphans push the level of the first block out while the second one is the tip. A template that
names the tip at height 1 then caches an empty map for it. And a template that names the tip at a
height of its own gets the cached shares, where a count finds nothing. -/
theorem emptyMap_cached : (∃ hist c cached x shares,
      Run sampleCore (sampleConfig 2) Unrestricted hist c ∧ c.cachedShares = some cached ∧
      c.getBlockHeaderAtHeight 1 cached.atHash = some x ∧
      c.getCalculateAndCacheHashmapOfShares 1 cached.atHash = .ok shares ∧ cached.shares ≠ shares) ∧
    ∃ hist c t, Run sampleCore (sampleConfig 10) Unrestricted hist c ∧
      ((sampleShareChain 10).generateSharesAndGetTargetDifficulty sampleCore .stored t false
        c).toExcept ≠
      ((sampleShareChain 10).generateSharesAndGetTargetDifficulty sampleCore .stored t false
        c.uncached).toExcept := by
  constructor
  · obtain ⟨hist, c, c', hcrowded⟩ := exists_crowded hasFirst_narrowChain run_narrowChain (by decide)
      (show maxLevels (sampleConfig 2) - 1 < 5000 by decide) (fun _ _ _ _ _ _ => trivial)
    obtain ⟨tip, x, htip, hchain, hx, hheight, huncles⟩ := hcrowded.exists_header (by decide)
    obtain ⟨result, hcall⟩ := hcrowded.call
    have hrun := hcrowded.run.added (show crowdedBlock.hash ≠ FixedHash.zero by decide) hcrowded.fresh
      (by decide) trivial (Returns.of_ok hcall)
    rw [hcall, EStateM.Result.state_ok] at hrun
    have hlow : c'.levelAtHeight 0 = none := by
      rw [← Option.not_isSome_iff_eq_none]
      intro hkept
      exact absurd (hcrowded.first hkept) (by decide)
    have hempty : CachesEmpty c' narrowTemplate := by
      refine ⟨⟨tip, htip, hchain⟩, le_rfl, hlow, fun cached hcached => ?_⟩
      rw [hcrowded.cachedShares] at hcached
      cases hcached
    have hreturns : Returns ((sampleShareChain 2).generateSharesAndGetTargetDifficulty sampleCore
      .stored narrowTemplate false c') := hempty.returns rfl
    have hlisted := hrun.generated hreturns
    rw [generate_state_eq, if_neg Bool.false_ne_true, hempty.sharesForTemplate,
      EStateM.Result.state_ok] at hlisted
    have hwindow : c'.config.shareWindow = 2 := by
      rw [hcrowded.recorded.config_eq]
      rfl
    obtain ⟨shares, hshares⟩ :=
      exists_of_windowStored hwindow.ge hx (windowStored_of_two hwindow hheight huncles)
    refine ⟨_, _, _, x, shares, hlisted, rfl, hx, ?_, ?_⟩
    · rw [calculate_withCachedShares]
      exact hshares
    · exact (ne_empty_of_counted hx hshares).symm
  · refine ⟨_, listedChain, sampleBlock 9 3 7 4, run_sampleChain.generated (returns_iff.mp ?_), ?_⟩
    · decide
    · decide

end P2Chain

end ShaP2Pool
