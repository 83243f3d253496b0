import ShaP2Pool.Sharechain.VerifyChain

/-!
# What is stored

The headers of the levels and the block cache are two copies of the stored blocks. `StoresAgree`
says that they match, and each way in which the chain changes what it stores is summarised by a
relation: a block is written (`Writes`), only marks are changed (`SameBlocks`), or levels are
dropped (`Prunes`).
-/

namespace ShaP2Pool

namespace P2Chain

/-- The hash marked as the main chain's at a height, zero where there is no level or no mark. -/
def chainBlockAt (c : P2Chain) (height : Nat) : FixedHash :=
  ((c.levelAtHeight height).map (·.chainBlock)).getD FixedHash.zero

/-- The block stored at a height under a hash. -/
def storedBlock (c : P2Chain) (height : Nat) (hash : FixedHash) : Option P2Block :=
  (c.getBlockHeaderAtHeight height hash).bind fun _ => c.blockCache.find? hash

/-- The levels and the block cache hold the same blocks. -/
structure StoresAgree (c : P2Chain) : Prop where
  cached : ∀ {height hash header}, c.getBlockHeaderAtHeight height hash = some header →
    ∃ b, c.blockCache.find? hash = some b ∧ b.header = header
  listed : ∀ {hash b}, c.blockCache.find? hash = some b →
    c.getBlockHeaderAtHeight b.height hash = some b.header

/-! ### Lookups -/

variable {c c' c'' : P2Chain} {height : Nat} {hash : FixedHash} {b : P2Block}

theorem height_of_levelAtHeight {level : P2ChainLevel} (h : c.levelAtHeight height = some level) :
    level.height = height :=
  KeyedMap.key_of_find? h

theorem height_of_getBlockHeaderAtHeight {header : P2BlockHeader}
    (h : c.getBlockHeaderAtHeight height hash = some header) : header.height = height := by
  obtain ⟨level, hlevel, hheader⟩ := Option.bind_eq_some_iff.mp h
  rw [P2ChainLevel.height_of_getHeader hheader, height_of_levelAtHeight hlevel]

theorem hash_of_getBlockHeaderAtHeight {header : P2BlockHeader}
    (h : c.getBlockHeaderAtHeight height hash = some header) : header.hash = hash := by
  obtain ⟨level, -, hheader⟩ := Option.bind_eq_some_iff.mp h
  exact P2ChainLevel.hash_of_getHeader hheader

theorem hash_of_cached (h : c.blockCache.find? hash = some b) : b.hash = hash :=
  KeyedMap.key_of_find? h

@[simp] theorem storedBlock_newEmpty (config : ChainConfig) :
    (newEmpty config).storedBlock height hash = none := rfl

@[simp] theorem chainBlockAt_newEmpty (config : ChainConfig) :
    (newEmpty config).chainBlockAt height = FixedHash.zero := rfl

theorem StoresAgree.newEmpty (config : ChainConfig) : (newEmpty config).StoresAgree where
  cached h := by simp [P2Chain.newEmpty, getBlockHeaderAtHeight, levelAtHeight] at h
  listed h := by simp [P2Chain.newEmpty] at h

namespace StoresAgree

variable (hc : c.StoresAgree)
include hc

theorem storedBlock_eq_some_iff :
    c.storedBlock height hash = some b ↔ c.blockCache.find? hash = some b ∧ b.height = height := by
  rw [storedBlock, Option.bind_eq_some_iff]
  constructor
  · rintro ⟨header, hheader, hfind⟩
    obtain ⟨b', hb', rfl⟩ := hc.cached hheader
    rw [hfind, Option.some.injEq] at hb'
    subst hb'
    exact ⟨hfind, height_of_getBlockHeaderAtHeight hheader⟩
  · rintro ⟨hfind, rfl⟩
    exact ⟨b.header, hc.listed hfind, hfind⟩

theorem getBlockHeaderAtHeight_eq :
    c.getBlockHeaderAtHeight height hash = (c.storedBlock height hash).map P2Block.header := by
  cases hheader : c.getBlockHeaderAtHeight height hash with
  | none => simp [storedBlock, hheader]
  | some header =>
    obtain ⟨b, hfind, rfl⟩ := hc.cached hheader
    simp [storedBlock, hheader, hfind]

theorem storedBlock_of_header {header : P2BlockHeader}
    (h : c.getBlockHeaderAtHeight height hash = some header) :
    ∃ b, c.storedBlock height hash = some b ∧ b.header = header := by
  rw [hc.getBlockHeaderAtHeight_eq, Option.map_eq_some_iff] at h
  exact h

theorem header_of_storedBlock (h : c.storedBlock height hash = some b) :
    c.getBlockHeaderAtHeight height hash = some b.header := by
  rw [hc.getBlockHeaderAtHeight_eq, h, Option.map_some]

theorem height_of_storedBlock (h : c.storedBlock height hash = some b) : b.height = height :=
  (hc.storedBlock_eq_some_iff.mp h).2

theorem hash_of_storedBlock (h : c.storedBlock height hash = some b) : b.hash = hash :=
  hash_of_cached (hc.storedBlock_eq_some_iff.mp h).1

/-- A stored block lies in a level. -/
theorem level_of_storedBlock (h : c.storedBlock height hash = some b) :
    ∃ level, c.levelAtHeight height = some level ∧ level.getHeader hash = some b.header :=
  Option.bind_eq_some_iff.mp (hc.header_of_storedBlock h)

/-- A hash is stored at one height only. -/
theorem storedBlock_inj {height' : Nat} {b' : P2Block} (h : c.storedBlock height hash = some b)
    (h' : c.storedBlock height' hash = some b') : height = height' ∧ b = b' := by
  obtain ⟨hfind, rfl⟩ := hc.storedBlock_eq_some_iff.mp h
  obtain ⟨hfind', rfl⟩ := hc.storedBlock_eq_some_iff.mp h'
  rw [hfind, Option.some.injEq] at hfind'
  exact ⟨by rw [hfind'], hfind'⟩

theorem getBlockAtHeight_of_storedBlock (h : c.storedBlock height hash = some b) :
    c.getBlockAtHeight height hash = some b := by
  obtain ⟨level, hlevel, -⟩ := hc.level_of_storedBlock h
  rw [getBlockAtHeight, hlevel, Option.bind_some]
  exact (hc.storedBlock_eq_some_iff.mp h).1

theorem blockExists_iff : c.blockExists height hash = true ↔ ∃ b, c.storedBlock height hash = some b := by
  have hexists : c.blockExists height hash = (c.getBlockHeaderAtHeight height hash).isSome := by
    rw [blockExists, getBlockHeaderAtHeight]
    cases c.levelAtHeight height <;> rfl
  rw [hexists, hc.getBlockHeaderAtHeight_eq, Option.isSome_map, Option.isSome_iff_exists]

theorem getParentOf_eq :
    c.getParentOf height hash = (c.storedBlock height hash).map (·.prevHash) := by
  have hparent : c.getParentOf height hash =
      (c.getBlockHeaderAtHeight height hash).map (·.prevHash) := by
    rw [getParentOf, getBlockHeaderAtHeight]
    cases c.levelAtHeight height <;> rfl
  rw [hparent, hc.getBlockHeaderAtHeight_eq, Option.map_map]
  rfl

theorem getUncles_eq :
    c.getUncles height hash = ((c.storedBlock height hash).map (·.uncles)).getD [] := by
  have huncles : c.getUncles height hash =
      ((c.getBlockHeaderAtHeight height hash).map (·.uncles)).getD [] := by
    rw [P2Chain.getUncles, getBlockHeaderAtHeight]
    cases c.levelAtHeight height <;> rfl
  rw [huncles, hc.getBlockHeaderAtHeight_eq, Option.map_map]
  rfl

theorem isVerified_of_storedBlock (h : c.storedBlock height hash = some b) :
    c.isVerified hash height = .ok b.verified.isVerified := by
  obtain ⟨level, hlevel, hheader⟩ := hc.level_of_storedBlock h
  simp only [P2Chain.isVerified, hlevel, P2ChainLevel.isVerified, hheader, Option.map_some,
    Option.getD_some]
  rfl

end StoresAgree

/-! ### The tip -/

/-- The mark at the height of the tip, zero when there is no tip. -/
def tipHash (c : P2Chain) : FixedHash := c.chainBlockAt c.currentTip

theorem getTip_eq_some_iff {tip : P2ChainLevel} :
    c.getTip = some tip ↔ c.levelAtHeight c.currentTip = some tip ∧ tip.chainBlock ≠ FixedHash.zero := by
  rw [getTip, Option.filter_eq_some_iff, decide_eq_true_eq]

theorem chainBlock_of_getTip {tip : P2ChainLevel} (h : c.getTip = some tip) :
    tip.chainBlock = c.tipHash := by
  rw [tipHash, chainBlockAt, (getTip_eq_some_iff.mp h).1]
  rfl

theorem height_of_getTip {tip : P2ChainLevel} (h : c.getTip = some tip) :
    tip.height = c.currentTip :=
  height_of_levelAtHeight (getTip_eq_some_iff.mp h).1

theorem getTip_eq_none_iff : c.getTip = none ↔ c.tipHash = FixedHash.zero := by
  rw [tipHash, chainBlockAt, getTip]
  cases c.levelAtHeight c.currentTip with
  | none => simp
  | some level => simp [Option.filter]

/-- There is a tip exactly when its mark is not zero. -/
theorem exists_getTip_iff : (∃ tip, c.getTip = some tip) ↔ c.tipHash ≠ FixedHash.zero := by
  rw [← Option.isSome_iff_exists, Option.isSome_iff_ne_none, Ne, getTip_eq_none_iff]

theorem totalPow_of_tip (hc : c.StoresAgree) (htip : c.tipHash ≠ FixedHash.zero)
    (hb : c.storedBlock c.currentTip c.tipHash = some b) :
    c.totalAccumulatedTipDifficulty = b.totalPow := by
  obtain ⟨tip, hget⟩ := exists_getTip_iff.mpr htip
  obtain ⟨level, hlevel, hheader⟩ := hc.level_of_storedBlock hb
  obtain ⟨htipLevel, -⟩ := getTip_eq_some_iff.mp hget
  rw [hlevel, Option.some.injEq] at htipLevel
  subst htipLevel
  rw [totalAccumulatedTipDifficulty, hget]
  simp only [P2ChainLevel.blockHeaderInMainChain]
  rw [chainBlock_of_getTip hget, hheader, Option.map_some, Option.getD_some]
  rfl

theorem totalPow_of_no_tip (htip : c.tipHash = FixedHash.zero) :
    c.totalAccumulatedTipDifficulty = AccumulatedDifficulty.min := by
  rw [totalAccumulatedTipDifficulty, getTip_eq_none_iff.mpr htip]

theorem buildsOnTip_iff {block : P2BlockHeader} :
    c.buildsOnTip block = true ↔ c.tipHash ≠ FixedHash.zero ∧ c.tipHash = block.prevHash := by
  rw [buildsOnTip]
  cases htip : c.getTip with
  | none => simp [getTip_eq_none_iff.mp htip]
  | some tip =>
    have hne : c.tipHash ≠ FixedHash.zero := exists_getTip_iff.mp ⟨tip, htip⟩
    simp only [chainBlock_of_getTip htip, decide_eq_true_eq]
    exact ⟨fun h => ⟨hne, h⟩, fun h => h.2⟩

/-! ### Only marks change -/

/-- The second chain stores the blocks of the first in the same levels. -/
structure SameBlocks (c c' : P2Chain) : Prop where
  config : c'.config = c.config
  cache : c'.blockCache = c.blockCache
  headers : ∀ height, (c'.levelAtHeight height).map (·.blockHeaders) =
    (c.levelAtHeight height).map (·.blockHeaders)

namespace SameBlocks

theorem refl (c : P2Chain) : SameBlocks c c := ⟨rfl, rfl, fun _ => rfl⟩

theorem trans (h : SameBlocks c c') (h' : SameBlocks c' c'') : SameBlocks c c'' :=
  ⟨h'.config.trans h.config, h'.cache.trans h.cache,
    fun height => (h'.headers height).trans (h.headers height)⟩

/-- Put the mark of one level. -/
theorem putMark {level : P2ChainLevel} (hlevel : c.levelAtHeight level.height = some level)
    (hash : FixedHash) : SameBlocks c (c.putLevel (level.setChainBlock hash)) := by
  refine ⟨rfl, rfl, fun height => ?_⟩
  change ((c.levels.insert (level.setChainBlock hash)).find? height).map _ = _
  rw [KeyedMap.find?_insert]
  split_ifs with heq
  · rw [heq, show (level.setChainBlock hash).height = level.height from rfl, hlevel]
    rfl
  · rfl

variable (hs : SameBlocks c c')
include hs

theorem levelAtHeight_isSome (height : Nat) :
    (c'.levelAtHeight height).isSome = (c.levelAtHeight height).isSome := by
  have := congrArg Option.isSome (hs.headers height)
  rwa [Option.isSome_map, Option.isSome_map] at this

theorem levelAtHeight_eq_none_iff :
    c'.levelAtHeight height = none ↔ c.levelAtHeight height = none := by
  have := hs.levelAtHeight_isSome height
  rw [← Option.isSome_eq_false_iff.trans Option.isNone_iff_eq_none, this,
    Option.isSome_eq_false_iff, Option.isNone_iff_eq_none]

theorem getBlockHeaderAtHeight (height : Nat) (hash : FixedHash) :
    c'.getBlockHeaderAtHeight height hash = c.getBlockHeaderAtHeight height hash := by
  have hlookup (x : P2Chain) : x.getBlockHeaderAtHeight height hash =
      ((x.levelAtHeight height).map (·.blockHeaders)).bind fun headers => headers.find? hash := by
    rw [P2Chain.getBlockHeaderAtHeight, Option.bind_map]
    rfl
  rw [hlookup, hlookup, hs.headers]

theorem storedBlock (height : Nat) (hash : FixedHash) :
    c'.storedBlock height hash = c.storedBlock height hash := by
  rw [P2Chain.storedBlock, P2Chain.storedBlock, hs.getBlockHeaderAtHeight, hs.cache]

theorem storesAgree (hc : c.StoresAgree) : c'.StoresAgree where
  cached h := by
    rw [hs.getBlockHeaderAtHeight] at h
    rw [hs.cache]
    exact hc.cached h
  listed h := by
    rw [hs.cache] at h
    rw [hs.getBlockHeaderAtHeight]
    exact hc.listed h

end SameBlocks

theorem levelAtHeight_putLevel (c : P2Chain) (level : P2ChainLevel) (height : Nat) :
    (c.putLevel level).levelAtHeight height =
      if height = level.height then some level else c.levelAtHeight height :=
  KeyedMap.find?_insert _ _ _

theorem chainBlockAt_putMark (c : P2Chain) (level : P2ChainLevel) (hash : FixedHash)
    (height : Nat) : (c.putLevel (level.setChainBlock hash)).chainBlockAt height =
      if height = level.height then hash else c.chainBlockAt height := by
  rw [chainBlockAt, levelAtHeight_putLevel]
  split_ifs with heq heq' heq'
  · rfl
  · exact absurd heq heq'
  · exact absurd heq' heq
  · rfl

/-! ### A block is written -/

/-- `c'` is `c` with `b` written over what was stored under its hash. -/
structure Writes (c : P2Chain) (b : P2Block) (c' : P2Chain) : Prop where
  config : c'.config = c.config
  cachedShares : c'.cachedShares = c.cachedShares
  currentTip : c'.currentTip = c.currentTip
  lwma : c'.lwma = c.lwma
  cache : c'.blockCache = c.blockCache.insert b
  headers : ∀ height hash, c'.getBlockHeaderAtHeight height hash =
    if height = b.height ∧ hash = b.hash then some b.header
    else c.getBlockHeaderAtHeight height hash
  chainBlockAt : ∀ height, c'.chainBlockAt height = c.chainBlockAt height
  levels : ∀ height, (c'.levelAtHeight height).isSome =
    (decide (height = b.height) || (c.levelAtHeight height).isSome)

private theorem writes_putLevel {level : P2ChainLevel} (hheight : level.height = b.height)
    (hmark : level.chainBlock = c.chainBlockAt b.height)
    (hheaders : ∀ hash, level.getHeader hash =
      if hash = b.hash then some b.header else c.getBlockHeaderAtHeight b.height hash) :
    Writes c b { c.putLevel level with blockCache := c.blockCache.insert b } := by
  have hlevel (height : Nat) : P2Chain.levelAtHeight
      { c.putLevel level with blockCache := c.blockCache.insert b } height =
      if height = b.height then some level else c.levelAtHeight height := by
    rw [← hheight]
    exact KeyedMap.find?_insert _ _ _
  refine ⟨rfl, rfl, rfl, rfl, rfl, ?_, ?_, ?_⟩
  · intro height hash
    rw [getBlockHeaderAtHeight, hlevel]
    by_cases heq : height = b.height
    · rw [if_pos heq, Option.bind_some, hheaders, heq]
      simp
    · rw [if_neg heq, if_neg (fun h => heq h.1)]
      rfl
  · intro height
    rw [P2Chain.chainBlockAt, hlevel]
    by_cases heq : height = b.height
    · rw [if_pos heq, heq, ← hmark]
      rfl
    · rw [if_neg heq]
      rfl
  · intro height
    rw [hlevel]
    by_cases heq : height = b.height
    · simp [heq]
    · simp [heq]

/-- Writing into the level of the block's height. -/
theorem Writes.of_level {level : P2ChainLevel} (hlevel : c.levelAtHeight b.height = some level) :
    ∃ c', c.addToLevel level b = .ok c' ∧ Writes c b c' := by
  have hheight := height_of_levelAtHeight hlevel
  rw [addToLevel, P2ChainLevel.addBlock, dif_pos hheight]
  refine ⟨_, rfl, writes_putLevel hheight ?_ ?_⟩
  · rw [P2Chain.chainBlockAt, hlevel]
    rfl
  · intro hash
    rw [getBlockHeaderAtHeight, hlevel]
    exact KeyedMap.find?_insert _ _ _

theorem Writes.of_new_level (hlevel : c.levelAtHeight b.height = none) :
    Writes c b (c.addLevel b) := by
  refine writes_putLevel rfl ?_ ?_
  · rw [P2Chain.chainBlockAt, hlevel]
    rfl
  · intro hash
    rw [getBlockHeaderAtHeight, hlevel]
    exact KeyedMap.find?_insert _ _ _

/-- `insertBlock` never fails. -/
theorem Writes.of_insertBlock (c : P2Chain) (b : P2Block) :
    ∃ c', c.insertBlock b = .ok c' ∧ Writes c b c' := by
  cases hlevel : c.levelAtHeight b.height with
  | none => exact ⟨c.addLevel b, by rw [insertBlock, hlevel], Writes.of_new_level hlevel⟩
  | some level =>
    obtain ⟨c', hok, hwrites⟩ := Writes.of_level hlevel
    exact ⟨c', by rw [insertBlock, hlevel]; exact hok, hwrites⟩

namespace Writes

variable (hw : Writes c b c')
include hw

theorem tipHash_eq : c'.tipHash = c.tipHash := by
  rw [tipHash, hw.currentTip, hw.chainBlockAt, tipHash]

/-- A written block is in both stores, if its hash was not in use at another height. -/
theorem storesAgree (hc : c.StoresAgree)
    (hheight : ∀ old, c.blockCache.find? b.hash = some old → old.height = b.height) :
    c'.StoresAgree where
  cached {height hash header} h := by
    rw [hw.headers] at h
    rw [hw.cache, KeyedMap.find?_insert]
    split_ifs at h with heq
    · rw [if_pos heq.2]
      exact ⟨b, rfl, Option.some.inj h⟩
    · obtain ⟨old, hold, rfl⟩ := hc.cached h
      have hne : hash ≠ b.hash := by
        rintro rfl
        refine heq ⟨?_, rfl⟩
        rw [← height_of_getBlockHeaderAtHeight h, ← hheight old hold]
        rfl
      rw [if_neg hne]
      exact ⟨old, hold, rfl⟩
  listed {hash found} h := by
    rw [hw.cache, KeyedMap.find?_insert] at h
    rw [hw.headers]
    split_ifs at h with hhash
    · rw [Option.some.injEq] at h
      subst h
      rw [if_pos ⟨rfl, hhash⟩]
    · rw [if_neg (fun heq => hhash heq.2)]
      exact hc.listed h

theorem storedBlock (hc : c.StoresAgree)
    (hheight : ∀ old, c.blockCache.find? b.hash = some old → old.height = b.height)
    (height : Nat) (hash : FixedHash) :
    c'.storedBlock height hash =
      if height = b.height ∧ hash = b.hash then some b else c.storedBlock height hash := by
  apply Option.ext
  intro found
  rw [(hw.storesAgree hc hheight).storedBlock_eq_some_iff, hw.cache, KeyedMap.find?_insert]
  by_cases hhash : hash = b.hash
  · subst hhash
    rw [if_pos rfl]
    by_cases heq : height = b.height
    · subst heq
      rw [if_pos ⟨rfl, rfl⟩]
      constructor
      · exact fun h => h.1
      · intro h
        exact ⟨h, by rw [← Option.some.inj h]⟩
    · rw [if_neg (fun h => heq h.1), hc.storedBlock_eq_some_iff]
      constructor
      · rintro ⟨hfound, rfl⟩
        exact absurd (by rw [← Option.some.inj hfound]) heq
      · rintro ⟨hold, rfl⟩
        exact absurd (hheight found hold) heq
  · rw [if_neg hhash, if_neg (fun h => hhash h.2), hc.storedBlock_eq_some_iff]

end Writes

/-! ### Levels are dropped -/

/-- `c'` is `c` without the levels it lacks and without their blocks. -/
structure Prunes (c c' : P2Chain) : Prop where
  config : c'.config = c.config
  cachedShares : c'.cachedShares = c.cachedShares
  currentTip : c'.currentTip = c.currentTip
  lwma : c'.lwma = c.lwma
  level : ∀ height, c'.levelAtHeight height = none ∨
    c'.levelAtHeight height = c.levelAtHeight height
  cache : ∀ hash b, c'.blockCache.find? hash = some b ↔
    c.blockCache.find? hash = some b ∧ (c'.levelAtHeight b.height).isSome = true

namespace Prunes

theorem refl (hc : c.StoresAgree) : Prunes c c := by
  refine ⟨rfl, rfl, rfl, rfl, fun _ => Or.inr rfl, fun hash b => ?_⟩
  refine ⟨fun h => ⟨h, ?_⟩, fun h => h.1⟩
  obtain ⟨level, hlevel, -⟩ := Option.bind_eq_some_iff.mp (hc.listed h)
  rw [hlevel, Option.isSome_some]

theorem trans (h : Prunes c c') (h' : Prunes c' c'') : Prunes c c'' where
  config := h'.config.trans h.config
  cachedShares := h'.cachedShares.trans h.cachedShares
  currentTip := h'.currentTip.trans h.currentTip
  lwma := h'.lwma.trans h.lwma
  level height := by
    rcases h'.level height with hnone | heq
    · exact Or.inl hnone
    · rw [heq]
      exact h.level height
  cache hash b := by
    rw [h'.cache, h.cache]
    constructor
    · exact fun hb => ⟨hb.1.1, hb.2⟩
    · rintro ⟨hb, hsome⟩
      refine ⟨⟨hb, ?_⟩, hsome⟩
      rcases h'.level b.height with hnone | heq
      · rw [hnone] at hsome
        simp at hsome
      · rwa [heq] at hsome

variable (hp : Prunes c c')
include hp

theorem getBlockHeaderAtHeight (height : Nat) (hash : FixedHash) :
    c'.getBlockHeaderAtHeight height hash =
      if (c'.levelAtHeight height).isSome then c.getBlockHeaderAtHeight height hash else none := by
  rw [P2Chain.getBlockHeaderAtHeight, P2Chain.getBlockHeaderAtHeight]
  rcases hp.level height with hnone | heq
  · rw [hnone]
    rfl
  · rw [heq]
    cases c.levelAtHeight height <;> rfl

theorem storesAgree (hc : c.StoresAgree) : c'.StoresAgree where
  cached {height hash header} h := by
    rw [hp.getBlockHeaderAtHeight] at h
    split_ifs at h with hlevel
    obtain ⟨b, hb, rfl⟩ := hc.cached h
    refine ⟨b, (hp.cache hash b).mpr ⟨hb, ?_⟩, rfl⟩
    rw [← height_of_getBlockHeaderAtHeight h] at hlevel
    exact hlevel
  listed {hash b} h := by
    obtain ⟨hb, hlevel⟩ := (hp.cache hash b).mp h
    rw [hp.getBlockHeaderAtHeight, if_pos hlevel]
    exact hc.listed hb

theorem storedBlock (hc : c.StoresAgree) (height : Nat) (hash : FixedHash) :
    c'.storedBlock height hash =
      if (c'.levelAtHeight height).isSome then c.storedBlock height hash else none := by
  apply Option.ext
  intro b
  rw [(hp.storesAgree hc).storedBlock_eq_some_iff, hp.cache]
  by_cases hlevel : (c'.levelAtHeight height).isSome = true
  · rw [if_pos hlevel, hc.storedBlock_eq_some_iff]
    constructor
    · exact fun h => ⟨h.1.1, h.2⟩
    · rintro ⟨hb, rfl⟩
      exact ⟨⟨hb, hlevel⟩, rfl⟩
  · rw [if_neg hlevel]
    constructor
    · rintro ⟨⟨-, hsome⟩, rfl⟩
      exact absurd hsome hlevel
    · intro h
      simp at h

/-- What is stored after pruning was stored before. -/
theorem storedBlock_of (hc : c.StoresAgree) (h : c'.storedBlock height hash = some b) :
    c.storedBlock height hash = some b := by
  rw [hp.storedBlock hc] at h
  split_ifs at h
  exact h

theorem chainBlockAt (height : Nat) :
    c'.chainBlockAt height =
      if (c'.levelAtHeight height).isSome then c.chainBlockAt height else FixedHash.zero := by
  rw [P2Chain.chainBlockAt, P2Chain.chainBlockAt]
  rcases hp.level height with hnone | heq
  · rw [hnone]
    rfl
  · rw [heq]
    cases c.levelAtHeight height <;> rfl

end Prunes

private theorem find?_foldl_erase (headers : List P2BlockHeader) (cache : KeyedMap P2Block.hash)
    (hash : FixedHash) :
    (headers.foldl (fun cache header => cache.erase header.hash) cache).find? hash =
      if hash ∈ headers.map (·.hash) then none else cache.find? hash := by
  induction headers generalizing cache with
  | nil => simp
  | cons header headers ih =>
    rw [List.foldl_cons, ih, KeyedMap.find?_erase]
    by_cases hmem : hash ∈ headers.map (·.hash)
    · rw [if_pos hmem, if_pos (by simp_all)]
    · rw [if_neg hmem]
      by_cases heq : hash = header.hash
      · rw [if_pos heq, if_pos (by simp [heq])]
      · rw [if_neg heq, if_neg (by simp_all)]

theorem Prunes.removeLevel (hc : c.StoresAgree) (height : Nat) :
    Prunes c (c.removeLevel height) := by
  rw [P2Chain.removeLevel]
  cases hlevel : c.levelAtHeight height with
  | none => exact Prunes.refl hc
  | some level =>
    have hlevels (height' : Nat) : (c.levels.erase height).find? height' =
        if height' = height then none else c.levelAtHeight height' :=
      KeyedMap.find?_erase _ _ _
    refine ⟨rfl, rfl, rfl, rfl, fun height' => ?_, fun hash b => ?_⟩
    · change (c.levels.erase height).find? height' = none ∨ _
      rw [hlevels]
      split_ifs with heq
      · exact Or.inl rfl
      · exact Or.inr ((hlevels height').trans (if_neg heq))
    · change (level.blockHeaders.values.foldl _ c.blockCache).find? hash = some b ↔
        _ ∧ ((c.levels.erase height).find? b.height).isSome = true
      rw [find?_foldl_erase, hlevels]
      -- a cached block's hash is in the removed level exactly when its height is the level's
      have hmem : c.blockCache.find? hash = some b →
          (hash ∈ level.blockHeaders.values.map (·.hash) ↔ b.height = height) := by
        intro hb
        constructor
        · intro hin
          obtain ⟨header, hheader, rfl⟩ := List.mem_map.mp hin
          have hget : c.getBlockHeaderAtHeight height header.hash = some header := by
            rw [P2Chain.getBlockHeaderAtHeight, hlevel]
            exact KeyedMap.find?_of_mem_values hheader
          obtain ⟨b', hb', rfl⟩ := hc.cached hget
          rw [hb, Option.some.injEq] at hb'
          subst hb'
          exact height_of_getBlockHeaderAtHeight hget
        · rintro rfl
          obtain ⟨level', hlevel', hheader⟩ := Option.bind_eq_some_iff.mp (hc.listed hb)
          rw [hlevel, Option.some.injEq] at hlevel'
          subst hlevel'
          exact List.mem_map.mpr ⟨b.header, KeyedMap.mem_values_of_find? hheader,
            hash_of_cached hb⟩
      by_cases hb : c.blockCache.find? hash = some b
      · have hsome : (c.levelAtHeight b.height).isSome = true := by
          obtain ⟨level', hlevel', -⟩ := Option.bind_eq_some_iff.mp (hc.listed hb)
          rw [hlevel', Option.isSome_some]
        by_cases hheight : b.height = height
        · rw [if_pos ((hmem hb).mpr hheight), if_pos hheight]
          simp
        · rw [if_neg (fun h => hheight ((hmem hb).mp h)), if_neg hheight]
          exact ⟨fun h => ⟨h, hsome⟩, fun h => h.1⟩
      · constructor
        · intro h
          split_ifs at h
          exact absurd h hb
        · exact fun h => absurd h.1 hb

theorem Prunes.cleanupLoop (keys : List Nat) (hc : c.StoresAgree) :
    Prunes c (P2Chain.cleanupLoop keys c) := by
  induction keys generalizing c with
  | nil => exact Prunes.refl hc
  | cons key keys ih =>
    rw [P2Chain.cleanupLoop]
    split_ifs
    · have hremove := Prunes.removeLevel hc key
      exact hremove.trans (ih (hremove.storesAgree hc))
    · exact Prunes.refl hc

theorem Prunes.cleanupChain (hc : c.StoresAgree) : Prunes c c.cleanupChain :=
  Prunes.cleanupLoop _ hc

/-! ### Which levels are dropped -/

def levelsAbove (c : P2Chain) (height : Nat) : Nat :=
  (c.levels.values.map (·.height)).countP (height < ·)

theorem mem_heights_iff : height ∈ c.levels.values.map (·.height) ↔
    ∃ level, c.levelAtHeight height = some level := by
  rw [List.mem_map]
  constructor
  · rintro ⟨level, hlevel, rfl⟩
    exact ⟨level, KeyedMap.find?_of_mem_values hlevel⟩
  · rintro ⟨level, hlevel⟩
    exact ⟨level, KeyedMap.mem_values_of_find? hlevel, height_of_levelAtHeight hlevel⟩

theorem levelsAbove_le_size (c : P2Chain) (height : Nat) : c.levelsAbove height ≤ c.levels.size := by
  rw [KeyedMap.size, ← List.length_map (·.height)]
  exact List.countP_le_length

theorem levelsAbove_anti (c : P2Chain) {height height' : Nat} (hle : height ≤ height') :
    c.levelsAbove height' ≤ c.levelsAbove height := by
  refine List.countP_mono_left fun x _ hx => ?_
  rw [decide_eq_true_eq] at hx ⊢
  omega

theorem levelsAbove_succ_lt {level : P2ChainLevel} (hlevel : c.levelAtHeight (height + 1) = some level) :
    c.levelsAbove (height + 1) < c.levelsAbove height := by
  have hmem : height + 1 ∈ c.levels.values.map (·.height) := mem_heights_iff.mpr ⟨level, hlevel⟩
  obtain ⟨before, after, hsplit⟩ := List.append_of_mem hmem
  have hle (l : List Nat) : l.countP (height + 1 < ·) ≤ l.countP (height < ·) := by
    refine List.countP_mono_left fun x _ hx => ?_
    rw [decide_eq_true_eq] at hx ⊢
    omega
  have hbefore := hle before
  have hafter := hle after
  rw [levelsAbove, levelsAbove, hsplit, List.countP_append, List.countP_append,
    List.countP_cons_of_neg (by simp), List.countP_cons_of_pos (by simp)]
  omega

theorem levelsAbove_mono (h : ∀ height' > height, (c.levelAtHeight height').isSome = true →
    (c'.levelAtHeight height').isSome = true) : c.levelsAbove height ≤ c'.levelsAbove height := by
  rw [levelsAbove, levelsAbove, List.countP_eq_length_filter, List.countP_eq_length_filter]
  apply (List.subperm_of_subset (c.levels.nodup.filter _) ?_).length_le
  intro height' hmem
  rw [List.mem_filter, mem_heights_iff, ← Option.isSome_iff_exists, decide_eq_true_eq] at hmem ⊢
  exact ⟨h height' hmem.2 hmem.1, hmem.2⟩

/-- Chains with levels at the same heights above a height have as many of them. -/
theorem levelsAbove_congr (h : ∀ height' > height,
    (c'.levelAtHeight height').isSome = (c.levelAtHeight height').isSome) :
    c'.levelsAbove height = c.levelsAbove height := by
  apply Nat.le_antisymm
  · exact levelsAbove_mono fun height' habove hsome => h height' habove ▸ hsome
  · exact levelsAbove_mono fun height' habove hsome => (h height' habove).symm ▸ hsome

/-- Chains with levels at the same heights have as many levels. -/
theorem size_levels_congr (h : ∀ height,
    (c'.levelAtHeight height).isSome = (c.levelAtHeight height).isSome) :
    c'.levels.size = c.levels.size := by
  have hperm : (c'.levels.values.map (·.height)).Perm (c.levels.values.map (·.height)) := by
    rw [List.perm_ext_iff_of_nodup c'.levels.nodup c.levels.nodup]
    intro height
    rw [mem_heights_iff, mem_heights_iff, ← Option.isSome_iff_exists, ← Option.isSome_iff_exists,
      h height]
  have hlength := hperm.length_eq
  rwa [List.length_map, List.length_map] at hlength

theorem heights_perm_cons (hnone : c.levelAtHeight height = none)
    (h : ∀ height', (c'.levelAtHeight height').isSome =
      (decide (height' = height) || (c.levelAtHeight height').isSome)) :
    (c'.levels.values.map (·.height)).Perm (height :: c.levels.values.map (·.height)) := by
  have hnew : height ∉ c.levels.values.map (·.height) := by
    rw [mem_heights_iff, hnone]
    rintro ⟨level, hlevel⟩
    cases hlevel
  rw [List.perm_ext_iff_of_nodup c'.levels.nodup (List.nodup_cons.mpr ⟨hnew, c.levels.nodup⟩)]
  intro height'
  rw [List.mem_cons, mem_heights_iff, mem_heights_iff, ← Option.isSome_iff_exists,
    ← Option.isSome_iff_exists, h height', Bool.or_eq_true, decide_eq_true_eq]

theorem levelAtHeight_removeLevel (c : P2Chain) (height height' : Nat) :
    (c.removeLevel height).levelAtHeight height' =
      if height' = height then none else c.levelAtHeight height' := by
  rw [P2Chain.removeLevel]
  cases hlevel : c.levelAtHeight height with
  | none =>
    split_ifs with heq
    · rw [heq, hlevel]
    · rfl
  | some level => exact KeyedMap.find?_erase _ _ _

theorem heights_removeLevel (c : P2Chain) (height : Nat) :
    (c.removeLevel height).levels.values.map (·.height) =
      (c.levels.values.map (·.height)).filter (· ≠ height) := by
  rw [List.filter_map, P2Chain.removeLevel]
  cases hlevel : c.levelAtHeight height with
  | none =>
    have hall : c.levels.values.filter ((· ≠ height) ∘ (·.height)) = c.levels.values := by
      rw [List.filter_eq_self]
      intro level hmem
      simpa using KeyedMap.find?_eq_none_iff.mp hlevel level hmem
    simp only [hall]
  | some level => rfl

theorem config_removeLevel (c : P2Chain) (height : Nat) : (c.removeLevel height).config = c.config := by
  rw [P2Chain.removeLevel]
  cases c.levelAtHeight height <;> rfl

theorem heights_removeLevel_perm {key : Nat} {keys : List Nat}
    (hkeys : (key :: keys).Perm (c.levels.values.map (·.height))) :
    keys.Perm ((c.removeLevel key).levels.values.map (·.height)) := by
  have hnodup := hkeys.nodup_iff.mpr c.levels.nodup
  have hself : keys.filter (· ≠ key) = keys := by
    rw [List.filter_eq_self]
    intro height hmem
    exact decide_eq_true (fun heq => (List.nodup_cons.mp hnodup).1 (heq ▸ hmem))
  have hfilter := hkeys.filter (· ≠ key)
  rw [List.filter_cons_of_neg (by simp), hself] at hfilter
  rwa [heights_removeLevel]

/-- The loop keeps a level unless there are enough levels above it. -/
theorem levelAtHeight_cleanupLoop {keys : List Nat} (hsorted : keys.Pairwise (· < ·))
    (hkeys : keys.Perm (c.levels.values.map (·.height))) (height : Nat) :
    (P2Chain.cleanupLoop keys c).levelAtHeight height =
      if keys.countP (height < ·) < maxLevels c.config then c.levelAtHeight height else none := by
  induction keys generalizing c with
  | nil =>
    have hnone : c.levelAtHeight height = none := by
      rw [Option.eq_none_iff_forall_ne_some]
      intro level hlevel
      have hmem := hkeys.mem_iff.mpr (mem_heights_iff.mpr ⟨level, hlevel⟩)
      exact absurd hmem List.not_mem_nil
    rw [P2Chain.cleanupLoop, hnone, ite_self]
  | cons key keys ih =>
    have hsize : c.levels.size = keys.length + 1 := by
      have hlength := hkeys.length_eq
      rw [List.length_cons, List.length_map] at hlength
      exact hlength.symm
    obtain ⟨hleast, hsorted'⟩ := List.pairwise_cons.mp hsorted
    rw [P2Chain.cleanupLoop, hsize]
    by_cases hmany : maxLevels c.config < keys.length + 1
    · rw [if_pos hmany]
      rw [ih hsorted' (heights_removeLevel_perm hkeys), config_removeLevel, levelAtHeight_removeLevel]
      by_cases heq : height = key
      · have hall : keys.countP (key < ·) = keys.length := by
          rw [List.countP_eq_length]
          exact fun height hmem => decide_eq_true (hleast height hmem)
        rw [if_pos heq, ite_self, heq, List.countP_cons_of_neg (by simp), hall, if_neg (by omega)]
      · rw [if_neg heq]
        cases hlevel : c.levelAtHeight height with
        | none => rw [ite_self, ite_self]
        | some level =>
          have hmem := hkeys.mem_iff.mpr (mem_heights_iff.mpr ⟨level, hlevel⟩)
          have hbelow := hleast height ((List.mem_cons.mp hmem).resolve_left heq)
          rw [List.countP_cons_of_neg (by simpa using hbelow.le)]
    · rw [if_neg hmany]
      cases hlevel : c.levelAtHeight height with
      | none => rw [ite_self]
      | some level =>
        have hmem := hkeys.mem_iff.mpr (mem_heights_iff.mpr ⟨level, hlevel⟩)
        have hlt : (key :: keys).countP (height < ·) < (key :: keys).length := by
          refine Nat.lt_of_le_of_ne List.countP_le_length (fun hall => ?_)
          have hself := List.countP_eq_length.mp hall height hmem
          simp at hself
        rw [List.length_cons] at hlt
        rw [if_pos (by omega)]

theorem levelsAbove_cleanupLoop {keys : List Nat} (hsorted : keys.Pairwise (· < ·))
    (hkeys : keys.Perm (c.levels.values.map (·.height))) (height : Nat) :
    (P2Chain.cleanupLoop keys c).levelsAbove height =
      min (c.levelsAbove height) (maxLevels c.config) := by
  induction keys generalizing c with
  | nil =>
    have hnone : c.levelsAbove height = 0 := by
      rw [levelsAbove, ← hkeys.countP_eq, List.countP_nil]
    rw [P2Chain.cleanupLoop, hnone, Nat.zero_min]
  | cons key keys ih =>
    obtain ⟨hleast, hsorted'⟩ := List.pairwise_cons.mp hsorted
    have hsize : c.levels.size = keys.length + 1 := by
      have hlength := hkeys.length_eq
      rw [List.length_cons, List.length_map] at hlength
      exact hlength.symm
    have hle : c.levelsAbove height ≤ keys.length + 1 := hsize ▸ levelsAbove_le_size c height
    rw [P2Chain.cleanupLoop, hsize]
    by_cases hmany : maxLevels c.config < keys.length + 1
    · have hkeys' := heights_removeLevel_perm hkeys
      rw [if_pos hmany, ih hsorted' hkeys', config_removeLevel, levelsAbove, ← hkeys'.countP_eq,
        levelsAbove, ← hkeys.countP_eq]
      by_cases hbelow : height < key
      · -- the other levels are above the height as well, and they are enough
        have hall : keys.countP (height < ·) = keys.length := by
          rw [List.countP_eq_length]
          exact fun height' hmem => decide_eq_true (Nat.lt_trans hbelow (hleast height' hmem))
        rw [List.countP_cons_of_pos (by simpa using hbelow), hall]
        omega
      · rw [List.countP_cons_of_neg (by simpa using hbelow)]
    · rw [if_neg hmany]
      omega

theorem sortedHeights (c : P2Chain) :
    ((c.levels.values.map (·.height)).insertionSort (· ≤ ·)).Pairwise (· < ·) := by
  have hle := List.pairwise_insertionSort (· ≤ ·) (c.levels.values.map (·.height))
  have hne : ((c.levels.values.map (·.height)).insertionSort (· ≤ ·)).Nodup :=
    (List.perm_insertionSort (· ≤ ·) _).nodup_iff.mpr c.levels.nodup
  exact (hle.and hne).imp (fun h => Nat.lt_of_le_of_ne h.1 h.2)

/-- The clean-up keeps the highest levels. -/
theorem levelAtHeight_cleanupChain (c : P2Chain) (height : Nat) :
    c.cleanupChain.levelAtHeight height =
      if c.levelsAbove height < maxLevels c.config then c.levelAtHeight height else none := by
  have hperm := List.perm_insertionSort (· ≤ ·) (c.levels.values.map (·.height))
  rw [P2Chain.cleanupChain, levelAtHeight_cleanupLoop (sortedHeights c) hperm, levelsAbove,
    hperm.countP_eq]

theorem levelsAbove_cleanupChain (c : P2Chain) (height : Nat) :
    c.cleanupChain.levelsAbove height = min (c.levelsAbove height) (maxLevels c.config) :=
  levelsAbove_cleanupLoop (sortedHeights c) (List.perm_insertionSort (· ≤ ·) _) height

theorem size_cleanupLoop_le {keys : List Nat}
    (hkeys : keys.Perm (c.levels.values.map (·.height))) :
    (P2Chain.cleanupLoop keys c).levels.size ≤ maxLevels c.config := by
  induction keys generalizing c with
  | nil =>
    have hlength := hkeys.length_eq
    rw [List.length_nil, List.length_map] at hlength
    rw [P2Chain.cleanupLoop, KeyedMap.size, ← hlength]
    exact Nat.zero_le _
  | cons key keys ih =>
    rw [P2Chain.cleanupLoop]
    split_ifs with hmany
    · rw [← config_removeLevel c key]
      exact ih (heights_removeLevel_perm hkeys)
    · exact Nat.not_lt.mp hmany

theorem size_cleanupChain_le (c : P2Chain) : c.cleanupChain.levels.size ≤ maxLevels c.config :=
  size_cleanupLoop_le (List.perm_insertionSort _ _)

theorem cleanupChain_eq_self (h : c.levels.size ≤ maxLevels c.config) : c.cleanupChain = c := by
  rw [P2Chain.cleanupChain]
  cases (c.levels.values.map (·.height)).insertionSort (· ≤ ·) with
  | nil => rfl
  | cons key keys => rw [P2Chain.cleanupLoop, if_neg (by omega)]

end P2Chain

end ShaP2Pool
