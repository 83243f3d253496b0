import ShaP2Pool.Proof.Relinking
import ShaP2Pool.Proof.ShareWindow
import ShaP2Pool.Proof.Pruning

/-!
# The main chain by height

Each level names the block of the main chain at its height, and each block names its parent. The two
agree over the share window of the tip as long as no block of height 0 is put on a higher tip, the
pruning spares the window, no gap between the levels stops the clearing of old marks, and a reorg to
a lower tip finds intact links where its window reaches below the old one.
-/

namespace ShaP2Pool

namespace P2Chain

open Lineage

variable {core : TariCore} {ord : IterOrder} {config : ChainConfig} {hist : List P2Block}
  {c c' c₁ c₂ : P2Chain} {b b₁ a m x : P2Block} {n i j k height : Nat} {hash : FixedHash}
  {P : List P2Block → P2Chain → IterOrder → P2Block → Prop}

/-- The heights of the share window of a tip. -/
def InShareWindow (config : ChainConfig) (tip height : Nat) : Prop :=
  height ≤ tip ∧ tip < height + (config.shareWindow - 1)

instance (config : ChainConfig) (tip height : Nat) : Decidable (InShareWindow config tip height) :=
  inferInstanceAs (Decidable (_ ∧ _))

/-- The level at a height marks a stored block, and the level below marks its parent unless the
parent is stored no more. -/
def LinkedAt (hist : List P2Block) (c : P2Chain) (height : Nat) : Prop :=
  ∃ x, c.storedBlock height (c.chainBlockAt height) = some x ∧
    (height ≠ 0 → Known hist x.prevHash ∧
      (c.chainBlockAt (height - 1) = x.prevHash ∨
        c.storedBlock (height - 1) x.prevHash = none))

def OnMainChain (c : P2Chain) (b : P2Block) : Prop := c.chainBlockAt b.height = b.hash

/-- No mark is above the tip, and the marks in its share window are linked. -/
structure MainChainLinked (hist : List P2Block) (c : P2Chain) : Prop where
  above : ∀ height, c.currentTip < height → c.chainBlockAt height = FixedHash.zero
  unmarked : c.tipHash = FixedHash.zero → ∀ height, c.chainBlockAt height = FixedHash.zero
  fits : c.currentTip ≤ u64Max
  linked : c.tipHash ≠ FixedHash.zero → ∀ height, InShareWindow c.config c.currentTip height →
    LinkedAt hist c height

/-- `b` or one of its ancestors, at least `n` back and no lower than `height`, is on the main
chain. -/
def Rejoins (c : P2Chain) (b : P2Block) (n height : Nat) : Prop :=
  ∃ i m, n ≤ i ∧ c.ancestorOf i b = some m ∧ height ≤ m.height ∧ OnMainChain c m

/-- Where the share window of `b` reaches below that of the tip, and `b` has come down on the main
chain: the links are intact as far as the walk of a reorg leaves them alone, and the ancestors of
`b` are stored as far as it goes. -/
def IntactBelow (hist : List P2Block) (c : P2Chain) (b : P2Block) : Prop :=
  ∀ height, InShareWindow c.config b.height height →
    ¬InShareWindow c.config c.currentTip height → Rejoins c b 0 height →
    (Rejoins c b (difficultyAdjustmentWindow + 1) height → LinkedAt hist c height) ∧
      (¬Rejoins c b (difficultyAdjustmentWindow + 1) height →
        ∃ a, c.ancestorOf (b.height - height) b = some a ∧ (height ≠ 0 → Known hist a.prevHash))

structure KeepsLinks (core : TariCore) (hist : List P2Block) (c : P2Chain) (height : Nat)
    (hash : FixedHash) : Prop where
  noneAbove : SetsNewTip core c height hash → ∀ height', height < height' →
    c.chainBlockAt height' = FixedHash.zero
  room : SetsNewTip core c height hash → maxLevels c.config ≤ c.levelsAbove height ∨
    ∀ height', InShareWindow c.config height height' → c.levelsAbove height' < maxLevels c.config
  noGap : ∀ b₁ c₁, ReorgsTo core c height hash b₁ c₁ → ∀ target, height < target →
    c.chainBlockAt target ≠ FixedHash.zero → ∀ height', height < height' → height' ≤ target →
    (c.levelAtHeight height').isSome = true
  below : ∀ b₁ c₁, ReorgsTo core c height hash b₁ c₁ → IntactBelow hist c₁ b₁

/-- Every visit of the call keeps the links. -/
def LinksGuarded (core : TariCore) (hist : List P2Block) (c : P2Chain) (ord : IterOrder)
    (b : P2Block) : Prop :=
  ∀ w height hash rest, Visits core ord b c w → w.nextLevel = (height, hash) :: rest →
    KeepsLinks core (b :: hist) w.chain height hash

/-! ### Links under the changes of the store -/

/-- A new block is neither marked nor the parent of a marked block. -/
theorem LinkedAt.writes (h : LinkedAt hist c height) (hr : Recorded config hist c)
    (hfresh : ∀ a ∈ hist, a.hash ≠ b.hash) (hw : Writes c b c') : LinkedAt (b :: hist) c' height := by
  have hstored (height : Nat) {hash : FixedHash} (hknown : Known hist hash) :
      c'.storedBlock height hash = c.storedBlock height hash := by
    obtain ⟨a, ha, rfl⟩ := hknown
    rw [hw.storedBlock hr.agree (hr.unused hfresh), if_neg (fun hnew => hfresh a ha hnew.2)]
  obtain ⟨x, hx, hlink⟩ := h
  refine ⟨x, ?_, fun hheight => ?_⟩
  · rw [hw.chainBlockAt, hstored height (hr.mem_hashes hx), hx]
  · obtain ⟨hknown, hparent⟩ := hlink hheight
    rw [hw.chainBlockAt, hstored _ hknown]
    obtain ⟨a, ha, heq⟩ := hknown
    exact ⟨⟨a, List.mem_cons_of_mem _ ha, heq⟩, hparent⟩

theorem LinkedAt.checked (h : LinkedAt hist c height) (hc : c.StoresAgree)
    (hv : Checked core c n hash b b₁ c₁) : LinkedAt hist c₁ height := by
  obtain ⟨x, hx, hlink⟩ := h
  obtain ⟨x₁, hx₁, hgrows⟩ := hv.exists_storedBlock hc hx
  refine ⟨x₁, by rwa [hv.chainBlockAt], fun hheight => ?_⟩
  obtain ⟨hknown, hparent⟩ := hlink hheight
  rw [hgrows.prevHash_eq, hv.chainBlockAt]
  refine ⟨hknown, hparent.imp_right fun hnone => ?_⟩
  by_contra hsome
  obtain ⟨y, hy⟩ := Option.ne_none_iff_exists'.mp hsome
  obtain ⟨z, hz, -⟩ := hv.storedBlock_iff hc hy
  rw [hnone] at hz
  cases hz

/-- Other marks elsewhere do not matter. -/
theorem LinkedAt.sameBlocks (h : LinkedAt hist c height) (hs : SameBlocks c c')
    (hmark : c'.chainBlockAt height = c.chainBlockAt height)
    (hbelow : c'.chainBlockAt (height - 1) = c.chainBlockAt (height - 1)) :
    LinkedAt hist c' height := by
  obtain ⟨x, hx, hlink⟩ := h
  refine ⟨x, by rwa [hmark, hs.storedBlock], fun hheight => ?_⟩
  rw [hbelow, hs.storedBlock]
  exact hlink hheight

/-- A level that is spared keeps its links. -/
theorem LinkedAt.prunes (h : LinkedAt hist c height) (hc : c.StoresAgree) (hp : Prunes c c')
    (hspared : (c'.levelAtHeight height).isSome = true) : LinkedAt hist c' height := by
  obtain ⟨x, hx, hlink⟩ := h
  refine ⟨x, ?_, fun hheight => ?_⟩
  · rw [hp.chainBlockAt, if_pos hspared, hp.storedBlock hc, if_pos hspared, hx]
  · obtain ⟨hknown, hparent⟩ := hlink hheight
    refine ⟨hknown, ?_⟩
    rw [hp.chainBlockAt, hp.storedBlock hc]
    by_cases hbelow : (c'.levelAtHeight (height - 1)).isSome = true
    · rwa [if_pos hbelow, if_pos hbelow]
    · rw [if_neg hbelow, if_neg hbelow]
      exact Or.inr rfl

theorem LinkedAt.eq_of_onMainChain (h : LinkedAt hist c a.height)
    (ha : c.storedBlock a.height a.hash = some a)
    (hmain : OnMainChain c a) : a.height ≠ 0 → Known hist a.prevHash ∧
      (c.chainBlockAt (a.height - 1) = a.prevHash ∨
        c.storedBlock (a.height - 1) a.prevHash = none) := by
  obtain ⟨x, hx, hlink⟩ := h
  rw [hmain, ha, Option.some.injEq] at hx
  subst hx
  exact hlink

namespace MainChainLinked

theorem newEmpty (config : ChainConfig) : MainChainLinked [] (newEmpty config) where
  above _ _ := rfl
  unmarked _ _ := rfl
  fits := Nat.zero_le _
  linked htip := absurd rfl htip

theorem writes (hl : MainChainLinked hist c) (hr : Recorded config hist c)
    (hfresh : ∀ a ∈ hist, a.hash ≠ b.hash) (hw : Writes c b c') :
    MainChainLinked (b :: hist) c' where
  above height hlt := by
    rw [hw.chainBlockAt]
    exact hl.above height (by rwa [← hw.currentTip])
  unmarked htip height := by
    rw [hw.tipHash_eq] at htip
    rw [hw.chainBlockAt]
    exact hl.unmarked htip height
  fits := by
    rw [hw.currentTip]
    exact hl.fits
  linked htip height hwindow := by
    rw [hw.tipHash_eq] at htip
    rw [hw.config, hw.currentTip] at hwindow
    exact (hl.linked htip height hwindow).writes hr hfresh hw

theorem checked (hl : MainChainLinked hist c) (hc : c.StoresAgree)
    (hv : Checked core c n hash b b₁ c₁) : MainChainLinked hist c₁ where
  above height hlt := by
    rw [hv.chainBlockAt]
    exact hl.above height (by rwa [← hv.currentTip])
  unmarked htip height := by
    rw [hv.tipHash_eq] at htip
    rw [hv.chainBlockAt]
    exact hl.unmarked htip height
  fits := by
    rw [hv.currentTip]
    exact hl.fits
  linked htip height hwindow := by
    rw [hv.tipHash_eq] at htip
    rw [hv.config, hv.currentTip] at hwindow
    exact (hl.linked htip height hwindow).checked hc hv

/-- The pruning spares the share window, or takes the tip with it. -/
theorem cleanupChain (hl : MainChainLinked hist c) (hc : c.StoresAgree)
    (hroom : maxLevels c.config ≤ c.levelsAbove c.currentTip ∨
      ∀ height, InShareWindow c.config c.currentTip height →
        c.levelsAbove height < maxLevels c.config) : MainChainLinked hist c.cleanupChain := by
  have hp := Prunes.cleanupChain hc
  have hmarks (height : Nat) : c.cleanupChain.chainBlockAt height =
      if c.levelsAbove height < maxLevels c.config then c.chainBlockAt height
      else FixedHash.zero := by
    rw [chainBlockAt, levelAtHeight_cleanupChain]
    split_ifs <;> rfl
  have hstays (height : Nat) (hne : c.cleanupChain.chainBlockAt height ≠ FixedHash.zero) :
      c.levelsAbove height < maxLevels c.config ∧
        c.cleanupChain.chainBlockAt height = c.chainBlockAt height := by
    rw [hmarks] at hne ⊢
    split_ifs at hne ⊢ with hspared
    · exact ⟨hspared, rfl⟩
    · exact absurd rfl hne
  refine ⟨fun height hlt => ?_, fun htip height => ?_, ?_, fun htip height hwindow => ?_⟩
  · rw [hp.currentTip] at hlt
    rw [hmarks, hl.above height hlt, ite_self]
  · rw [tipHash, hp.currentTip, hmarks] at htip
    rw [hmarks]
    split_ifs at htip with htipSpared
    · rw [hl.unmarked htip, ite_self]
    · -- the tip is gone, and with it every level below
      obtain hlt | hle := Nat.lt_or_ge c.currentTip height
      · rw [hl.above height hlt, ite_self]
      · have hanti := c.levelsAbove_anti hle
        rw [if_neg (by omega)]
  · rw [hp.currentTip]
    exact hl.fits
  · rw [tipHash, hp.currentTip] at htip
    obtain ⟨htipSpared, heq⟩ := hstays _ htip
    rw [hp.config, hp.currentTip] at hwindow
    have hspared : c.levelsAbove height < maxLevels c.config := by
      obtain hlost | hroom := hroom
      · omega
      · exact hroom height hwindow
    have hlinked := hl.linked (by rwa [heq] at htip) height hwindow
    obtain ⟨x, hx, -⟩ := id hlinked
    obtain ⟨level, hlevel, -⟩ := hc.level_of_storedBlock hx
    refine hlinked.prunes hc hp ?_
    rw [levelAtHeight_cleanupChain, if_pos hspared, hlevel]
    rfl

/-- The tip moves to a block on it, or to the first block. -/
theorem moved (hl : MainChainLinked hist c) (hd : Distinct hist)
    (hb : c.storedBlock b.height b.hash = some b) (hnonzero : b.hash ≠ FixedHash.zero)
    (hfits : b.height ≤ u64Max) (hm : MovesTip c b c')
    (habove : ∀ height, b.height < height → c.chainBlockAt height = FixedHash.zero)
    (hparent : b.height ≠ 0 → Known hist b.prevHash ∧ c.tipHash = b.prevHash ∧
      c.currentTip + 1 = b.height) : MainChainLinked hist c' where
  above height hlt := by
    rw [hm.currentTip] at hlt
    rw [hm.chainBlockAt, if_neg (by omega)]
    exact habove height hlt
  unmarked htip := by
    rw [tipHash, hm.currentTip, hm.chainBlockAt, if_pos rfl] at htip
    exact absurd htip hnonzero
  fits := by
    rw [hm.currentTip]
    exact hfits
  linked _ height hwindow := by
    rw [hm.currentTip, hm.same.config] at hwindow
    obtain ⟨hle, hlt⟩ := hwindow
    by_cases htop : height = b.height
    · subst htop
      refine ⟨b, by rw [hm.chainBlockAt, if_pos rfl, hm.same.storedBlock, hb], fun hheight => ?_⟩
      obtain ⟨hknown, htip, hnext⟩ := hparent hheight
      refine ⟨hknown, Or.inl ?_⟩
      rw [hm.chainBlockAt, if_neg (by omega), ← htip, tipHash]
      congr 1
      omega
    · obtain ⟨⟨p, hp, hphash⟩, htip, hnext⟩ := hparent (by omega)
      have htipNe : c.tipHash ≠ FixedHash.zero := by
        rw [htip, ← hphash]
        exact hd.nonzero p hp
      refine (hl.linked htipNe height ⟨by omega, by omega⟩).sameBlocks hm.same ?_ ?_
      · rw [hm.chainBlockAt, if_neg htop]
      · rw [hm.chainBlockAt, if_neg (by omega)]

end MainChainLinked

/-! ### Links after a reorg -/

theorem onMainChain_of_linked (hc : c.StoresAgree) (hb : c.storedBlock b.height b.hash = some b)
    (hi : c.ancestorOf i b = some m) (hm : OnMainChain c m) (ha : c.ancestorOf (i + n) b = some a)
    (hlinked : ∀ height, a.height < height → height ≤ m.height → LinkedAt hist c height) :
    OnMainChain c a := by
  induction n generalizing a with
  | zero =>
    rw [Nat.add_zero, hi, Option.some.injEq] at ha
    exact ha ▸ hm
  | succ n ih =>
    obtain ⟨y, hy, hparent⟩ := exists_ancestor_of_le (show i + n ≤ i + (n + 1) by omega) ha
    rw [show i + (n + 1) - (i + n) = 1 by omega, ancestor_one] at hparent
    have hyHeight := height_of_parentOf hc hparent
    have hmHeight := height_of_ancestorOf hc hi
    have hyHeight' := height_of_ancestorOf hc hy
    have hyMain := ih hy (fun height hlo hhi => hlinked height (by omega) hhi)
    have hyStored := stored_of_ancestorOf hc hb hy
    obtain ⟨-, hlink | hnone⟩ :=
      (hlinked y.height (by omega) (by omega)).eq_of_onMainChain hyStored hyMain (by omega)
    · rw [OnMainChain, hash_of_parentOf hc hparent, ← hlink]
      congr 1
      omega
    · rw [parentOf, if_neg (by omega), hnone] at hparent
      cases hparent

theorem Rejoins.mono {height' : Nat} (h : Rejoins c b n height) (hle : height' ≤ height) :
    Rejoins c b n height' := by
  obtain ⟨i, m, hi, hm, hheight, hmain⟩ := h
  exact ⟨i, m, hi, hm, by omega, hmain⟩

theorem Rejoins.weaken (h : Rejoins c b n height) : Rejoins c b 0 height := by
  obtain ⟨i, m, -, hm, hheight, hmain⟩ := h
  exact ⟨i, m, Nat.zero_le _, hm, hheight, hmain⟩

section Reorganised

variable {result : ChainAddResult}

structure Scanned (hist : List P2Block) (c : P2Chain) (b : P2Block) : Prop where
  linked : MainChainLinked hist c
  stored : c.storedBlock b.height b.hash = some b
  below : IntactBelow hist c b
  parents : ∀ i a, c.ancestorOf i b = some a → InShareWindow c.config b.height a.height →
    a.height ≠ 0 → ¬Rejoins c b 0 a.height → ∃ p, c.parentOf a = some p

theorem Candidate.scanned (hr : Recorded config hist c) (hl : MainChainLinked hist c)
    (hcandidate : Candidate core c height hash b b₁ c₁ result) (hbelow : IntactBelow hist c₁ b₁) :
    Scanned hist c₁ b₁ where
  linked := hl.checked hr.agree hcandidate.toChecked
  stored := hr.stored_checked hcandidate.toChecked
  below := hbelow
  parents i a ha hwindow hheight hrejoins := by
    have hc₁ := hcandidate.storesAgree hr.agree
    have haHeight := height_of_ancestorOf hc₁ ha
    have hrounds : c₁.config.shareWindow - 1 ≤ windowRounds c₁.config := Nat.le_max_right _ _
    obtain ⟨p, hp, -⟩ := verified_of_scanAncestors hc₁ (hr.stored_checked hcandidate.toChecked)
      hcandidate.scan hcandidate.noneMissing (show i < windowRounds c₁.config by
        have := hwindow.2
        omega) ha hheight
      (fun j hj m hm hmark => hrejoins ⟨j, m, Nat.zero_le _, hm, by
        have := height_of_ancestorOf hc₁ hm
        omega, hmark⟩)
    exact ⟨p, hp⟩

namespace Scanned

theorem linkedAt (hs : Scanned hist c b) (hr : Recorded config hist c) (hd : Distinct hist)
    (hwindow : InShareWindow c.config b.height height)
    (hrejoins : Rejoins c b (difficultyAdjustmentWindow + 1) height) : LinkedAt hist c height := by
  by_cases hold : InShareWindow c.config c.currentTip height
  · refine hs.linked.linked (fun htip => ?_) height hold
    obtain ⟨i, m, -, hm, -, hmain⟩ := hrejoins
    have hmStored := stored_of_ancestorOf hr.agree hs.stored hm
    rw [OnMainChain, hs.linked.unmarked htip] at hmain
    exact hr.hash_ne_zero hd hmStored hmain.symm
  · exact (hs.below height hwindow hold hrejoins.weaken).1 hrejoins

theorem le_currentTip (hs : Scanned hist c b) (hr : Recorded config hist c) (hd : Distinct hist)
    (hm : c.ancestorOf i b = some m) (hmain : OnMainChain c m) : m.height ≤ c.currentTip := by
  by_contra hgt
  rw [OnMainChain, hs.linked.above m.height (by omega)] at hmain
  exact hr.hash_ne_zero hd (stored_of_ancestorOf hr.agree hs.stored hm) hmain.symm

theorem linkedAt_old (hs : Scanned hist c b) (hr : Recorded config hist c) (hd : Distinct hist)
    (hm : c.ancestorOf i b = some m) (hmain : OnMainChain c m)
    (hold : InShareWindow c.config c.currentTip height) : LinkedAt hist c height := by
  refine hs.linked.linked (fun htip => ?_) height hold
  rw [OnMainChain, hs.linked.unmarked htip] at hmain
  exact hr.hash_ne_zero hd (stored_of_ancestorOf hr.agree hs.stored hm) hmain.symm

/-- The parent of every ancestor in the new window has been stored at some time. -/
theorem known (hs : Scanned hist c b) (hr : Recorded config hist c) (hd : Distinct hist)
    (ha : c.ancestorOf i b = some a) (hwindow : InShareWindow c.config b.height a.height)
    (hheight : a.height ≠ 0) : Known hist a.prevHash := by
  have hc := hr.agree
  have haHeight := height_of_ancestorOf hc ha
  have haStored := stored_of_ancestorOf hc hs.stored ha
  by_cases hrejoins : Rejoins c b 0 a.height
  · have hknown (hlinked : LinkedAt hist c a.height) {j : Nat} {y : P2Block}
        (hy : c.ancestorOf j b = some y) (hle : a.height ≤ y.height) (hmain : OnMainChain c y)
        (hpath : ∀ height, a.height < height → height ≤ y.height → LinkedAt hist c height) :
        Known hist a.prevHash := by
      have hyHeight := height_of_ancestorOf hc hy
      have haMain := onMainChain_of_linked (n := i - j) hc hs.stored hy hmain
        (by rwa [show j + (i - j) = i by omega]) hpath
      exact (hlinked.eq_of_onMainChain haStored haMain hheight).1
    have ⟨j, y, _, hy, hle, hmain⟩ := hrejoins
    by_cases hold : InShareWindow c.config c.currentTip a.height
    · have hyTip := hs.le_currentTip hr hd hy hmain
      refine hknown (hs.linkedAt_old hr hd hy hmain hold) hy hle hmain (fun height hlo hhi => ?_)
      exact hs.linkedAt_old hr hd hy hmain ⟨by omega, by have := hold.2; omega⟩
    · obtain ⟨hintact, hstored⟩ := hs.below a.height hwindow hold hrejoins
      by_cases hfar : Rejoins c b (difficultyAdjustmentWindow + 1) a.height
      · have ⟨j', y', hj', hy', hle', hmain'⟩ := hfar
        have hyHeight := height_of_ancestorOf hc hy'
        refine hknown (hintact hfar) hy' hle' hmain' (fun height hlo hhi => ?_)
        exact hs.linkedAt hr hd ⟨by omega, by have := hwindow.2; omega⟩ ⟨j', y', hj', hy', hhi, hmain'⟩
      · obtain ⟨a', ha', hknown'⟩ := hstored hfar
        rw [show b.height - a.height = i by omega, ha, Option.some.injEq] at ha'
        exact ha' ▸ hknown' hheight
  · obtain ⟨p, hp⟩ := hs.parents i a ha hwindow hheight hrejoins
    exact hr.known hp

theorem level_below (hs : Scanned hist c b) (hr : Recorded config hist c) (hd : Distinct hist)
    (ha : c.ancestorOf i b = some a) (hnext : a.height = height + 1)
    (hwindow : InShareWindow c.config b.height height) :
    (c.levelAtHeight height).isSome = true := by
  have hc := hr.agree
  have hlevel {x : P2Block} {hash : FixedHash} (hx : c.storedBlock height hash = some x) :
      (c.levelAtHeight height).isSome = true := by
    obtain ⟨level, hlevel, -⟩ := hc.level_of_storedBlock hx
    rw [hlevel]
    rfl
  have haHeight := height_of_ancestorOf hc ha
  by_cases hrejoins : Rejoins c b 0 a.height
  · have hrejoins' := hrejoins.mono (show height ≤ a.height by omega)
    have hlinked (h : LinkedAt hist c height) : (c.levelAtHeight height).isSome = true := by
      obtain ⟨x, hx, -⟩ := h
      exact hlevel hx
    by_cases hold : InShareWindow c.config c.currentTip height
    · obtain ⟨j, y, -, hy, -, hmain⟩ := hrejoins
      exact hlinked (hs.linkedAt_old hr hd hy hmain hold)
    · obtain ⟨hintact, hstored⟩ := hs.below height hwindow hold hrejoins'
      by_cases hfar : Rejoins c b (difficultyAdjustmentWindow + 1) height
      · exact hlinked (hintact hfar)
      · obtain ⟨y, hy, -⟩ := hstored hfar
        have hyHeight := height_of_ancestorOf hc hy
        have hyStored := stored_of_ancestorOf hc hs.stored hy
        rw [show y.height = height by omega] at hyStored
        exact hlevel hyStored
  · obtain ⟨p, hp⟩ := hs.parents i a ha ⟨by omega, by have := hwindow.2; omega⟩ (by omega) hrejoins
    have hpHeight := height_of_parentOf hc hp
    have hpStored := stored_of_parentOf hc hp
    rw [show p.height = height by omega] at hpStored
    exact hlevel hpStored

theorem linkedAt_below (hs : Scanned hist c b) (hr : Recorded config hist c) (hd : Distinct hist)
    (ha : c.ancestorOf k b = some a)
    (hends : EndsAt c (windowRounds c.config) 1 k a) (hlt : height < a.height)
    (hwindow : InShareWindow c.config b.height height) : LinkedAt hist c height := by
  have hc := hr.agree
  have haHeight := height_of_ancestorOf hc ha
  have hrounds : c.config.shareWindow - 1 ≤ windowRounds c.config := Nat.le_max_right _ _
  have haWindow : InShareWindow c.config b.height a.height :=
    ⟨by omega, by have := hwindow.2; omega⟩
  obtain hsteps | hzero | hnone | ⟨hmark, hfull⟩ := hends
  · have := hwindow.2
    omega
  · omega
  · have hlevel := hs.level_below hr hd ha (show a.height = a.height - 1 + 1 by omega)
      ⟨by omega, by have := hwindow.2; omega⟩
    rw [hnone] at hlevel
    cases hlevel
  · obtain ⟨p, hp, hphash⟩ := hs.known hr hd ha haWindow (by omega)
    have hmarkNe : c.chainBlockAt (a.height - 1) ≠ FixedHash.zero := by
      rw [hmark, ← hphash]
      exact hd.nonzero p hp
    obtain ⟨y, hy⟩ := hr.marks hmarkNe
    have hyHeight := hc.height_of_storedBlock hy
    have hyHash := hc.hash_of_storedBlock hy
    have hparent : c.parentOf a = some y := by
      rw [parentOf, if_neg (by omega), ← hmark, hy]
    refine hs.linkedAt hr hd hwindow ⟨k + 1, y, by omega, ?_, by omega, ?_⟩
    · rw [ancestorOf, ancestor_succ', show ancestor c.parentOf k b = some a from ha]
      exact hparent
    · rw [OnMainChain, hyHeight, hyHash]

/-- A reorg that clears the old marks above leaves linked marks. -/
theorem relinked (hs : Scanned hist c b) (hr : Recorded config hist c) (hd : Distinct hist)
    (hfits : b.height ≤ u64Max) (hrel : Relinked c c' b k a)
    (habove : ∀ height, b.height < height → c'.chainBlockAt height = FixedHash.zero) :
    MainChainLinked hist c' := by
  have hc := hr.agree
  have haHeight := height_of_ancestorOf hc hrel.ancestor
  have htip : c'.chainBlockAt b.height = b.hash := hrel.marked 0 b (Nat.zero_le _) rfl
  refine ⟨fun height hlt => ?_, fun hzero => ?_, ?_, fun _ height hwindow => ?_⟩
  · rw [hrel.currentTip] at hlt
    exact habove height hlt
  · rw [tipHash, hrel.currentTip, htip] at hzero
    exact absurd hzero (hr.hash_ne_zero hd hs.stored)
  · rw [hrel.currentTip]
    exact hfits
  · rw [hrel.same.config, hrel.currentTip] at hwindow
    obtain hlt | hge := Nat.lt_or_ge height a.height
    · refine (hs.linkedAt_below hr hd hrel.ancestor hrel.ends hlt hwindow).sameBlocks hrel.same ?_ ?_
      · exact hrel.below height hlt
      · exact hrel.below (height - 1) (by omega)
    · obtain ⟨x, hx, hrest⟩ :=
        exists_ancestor_of_le (show b.height - height ≤ k by omega) hrel.ancestor
      have hxHeight := height_of_ancestorOf hc hx
      have hxStored := stored_of_ancestorOf hc hs.stored hx
      obtain rfl : height = x.height := by
        have := hwindow.1
        omega
      have hxMark := hrel.marked _ x (by omega) hx
      refine ⟨x, by rw [hxMark, hrel.same.storedBlock, hxStored], fun hheight => ?_⟩
      refine ⟨hs.known hr hd hx hwindow hheight, ?_⟩
      by_cases hlast : b.height - x.height = k
      · -- the walk has ended here
        rw [hlast, show ancestor c.parentOf k b = some a from hrel.ancestor,
          Option.some.injEq] at hx
        subst hx
        obtain hsteps | hzero | hnone | ⟨hmark, -⟩ := hrel.ends
        · have hrounds : c.config.shareWindow - 1 ≤ windowRounds c.config := Nat.le_max_right _ _
          have := hwindow.2
          omega
        · exact absurd hzero hheight
        · refine Or.inr ?_
          rw [hrel.same.storedBlock]
          by_contra hsome
          obtain ⟨y, hy⟩ := Option.ne_none_iff_exists'.mp hsome
          obtain ⟨level, hlevel, -⟩ := hc.level_of_storedBlock hy
          rw [hnone] at hlevel
          cases hlevel
        · exact Or.inl (by rw [hrel.below _ (by omega), hmark])
      · obtain ⟨z, hz, -⟩ :=
          exists_ancestor_of_le (show b.height - x.height + 1 ≤ k by omega) hrel.ancestor
        have hzMark := hrel.marked _ z (by omega) hz
        rw [ancestor_succ', show ancestor c.parentOf (b.height - x.height) b = some x from hx,
          Option.bind_some] at hz
        have hzHeight := height_of_parentOf hc hz
        refine Or.inl ?_
        rw [← hash_of_parentOf hc hz, ← hzMark]
        congr 1
        omega

end Scanned

end Reorganised

/-! ### The invariant over a run -/

theorem KeepsLinks.room_moved (hguard : KeepsLinks core hist c height hash) (hc : c.StoresAgree)
    (hchecked : Checked core c height hash b b₁ c₁) (hmoves : MovesTip c₁ b₁ c₂)
    (hset : SetsNewTip core c height hash) :
    maxLevels c₂.config ≤ c₂.levelsAbove c₂.currentTip ∨
      ∀ height', InShareWindow c₂.config c₂.currentTip height' →
        c₂.levelsAbove height' < maxLevels c₂.config := by
  have hlevels (height' : Nat) : c₂.levelsAbove height' = c.levelsAbove height' :=
    levelsAbove_congr fun height'' _ => (hmoves.same.levelAtHeight_isSome height'').trans
      (hchecked.levelAtHeight_isSome hc height'')
  rw [hmoves.currentTip, hchecked.height_eq hc, hmoves.same.config, hchecked.config, hlevels]
  refine (hguard.room hset).imp_right fun hroom height' hwindow => ?_
  rw [hlevels]
  exact hroom height' hwindow

theorem KeepsLinks.unmarked_above {result : ChainAddResult}
    (hguard : KeepsLinks core hist c height hash) (hr : Recorded config hist c)
    (hl : MainChainLinked hist c) (hcandidate : Candidate core c height hash b b₁ c₁ result)
    (hpow : c₁.totalAccumulatedTipDifficulty < b₁.totalPow) (hreorg : c₁.reorg b₁.header = .ok c₂)
    (height' : Nat) (hlt : b₁.height < height') : c₂.chainBlockAt height' = FixedHash.zero := by
  have hc := hr.agree
  have hheight := hcandidate.height_eq hc
  obtain ⟨level, hlevel, -⟩ :=
    (hcandidate.storesAgree hc).level_of_storedBlock (hr.stored_checked hcandidate.toChecked)
  have hclear := clearedAbove_of_reorg
    (show c₁.levelAtHeight b₁.header.height = some level from hlevel) hreorg
  obtain heq | hzero := hclear.above height' hlt
  · by_contra hne
    rw [heq, hcandidate.chainBlockAt] at hne
    refine hne ?_
    have hle : height' ≤ c.currentTip := by
      by_contra hgt
      exact hne (hl.above height' (by omega))
    have hfits := hl.fits
    rw [← hcandidate.chainBlockAt, ← heq]
    refine hclear.cleared height' hlt (by omega) (fun height'' hlo hhi => ?_)
    rw [hcandidate.levelAtHeight_isSome hc]
    refine hguard.noGap b₁ c₁ ⟨b, result, hcandidate, hpow⟩ height' (by omega) hne height'' ?_ hhi
    rw [P2Block.header_height] at hlo
    omega
  · exact hzero

/-- A verification that returns and keeps the links. -/
theorem MainChainLinked.outcome (hl : MainChainLinked hist c) (hr : Recorded config hist c)
    (hd : Distinct hist) (hguard : KeepsLinks core hist c height hash)
    {r : EStateM.Result Fault P2Chain (ChainAddResult × List (Nat × FixedHash))}
    (ho : Outcome core ord n height hash c r) (hreturns : Returns r) :
    MainChainLinked hist r.state := by
  have hc := hr.agree
  cases ho with
  | overflow c' => exact absurd rfl (hreturns _ c')
  | absent | waiting | refused => exact hl
  | unverified hchecked | badUncles hchecked => exact hl.checked hc hchecked
  | scanFault hoff | blocked hoff => exact hl.checked hc hoff.toChecked
  | stayed hcandidate | reorgFault hcandidate => exact hl.checked hc hcandidate.toChecked
  | @started b b₁ c₁ c₂ hchecked htip hheight hmoves =>
    have hl₁ := hl.checked hc hchecked
    have hzero : b₁.height = 0 := (hchecked.height_eq hc).trans hheight
    have hb₁ := hr.stored_checked hchecked
    have hmoved := hl₁.moved hd hb₁ ((hr.checked hchecked).hash_ne_zero hd hb₁) (by omega) hmoves
      (fun height _ => hl₁.unmarked (getTip_eq_none_iff.mp htip) height)
      (fun hne => absurd hzero hne)
    exact hmoved.cleanupChain (hmoves.same.storesAgree (hchecked.storesAgree hc))
      (hguard.room_moved hc hchecked hmoves
        ((hchecked.setsNewTip_iff hc).mpr (Or.inl ⟨htip, hheight⟩)))
  | @extended b b₁ c₁ c₂ hchecked hnotStart hverified honTip huncles hmoves hfits =>
    have hr₁ := hr.checked hchecked
    have hb₁ := hr.stored_checked hchecked
    have hheight := hchecked.height_eq hc
    have hset : SetsNewTip core c height hash :=
      (hchecked.setsNewTip_iff hc).mpr (Or.inr ⟨hverified, honTip, huncles⟩)
    obtain ⟨tip, htip, hprev, hparent⟩ := hr₁.parentOf_of_buildsOnTip honTip
    have hmoved := (hl.checked hc hchecked).moved hd hb₁ (hr₁.hash_ne_zero hd hb₁) (by omega) hmoves
      (fun height' hlt => by
        rw [hchecked.chainBlockAt]
        exact hguard.noneAbove hset height' (by omega))
      (fun hne => by
        have hcomplete := hchecked.isComplete hc
        obtain ⟨⟨p, hp⟩, -⟩ := hcomplete (by rwa [← hchecked.grows.height_eq])
        obtain ⟨p₁, hp₁, -⟩ := hchecked.exists_ancestorOf hc hchecked.grows
          (show c.ancestorOf 1 b = some p by rw [ancestorOf, ancestor_one, hp])
        rw [ancestorOf, ancestor_one] at hp₁
        have hnext := height_of_parentOf hr₁.agree hp₁
        rw [hparent p₁ hp₁, hr₁.agree.height_of_storedBlock htip] at hnext
        exact ⟨by rw [hprev]; exact hr₁.mem_hashes htip, hprev.symm, hnext.symm⟩)
    exact hmoved.cleanupChain (hmoves.same.storesAgree hr₁.agree)
      (hguard.room_moved hc hchecked hmoves hset)
  | @reorganised b b₁ c₁ c₂ result hcandidate hpow hreorg hfits =>
    have hr₁ := hr.checked hcandidate.toChecked
    have hb₁ := hr.stored_checked hcandidate.toChecked
    have hheight := hcandidate.height_eq hc
    have habove := hguard.unmarked_above hr hl hcandidate hpow hreorg
    show MainChainLinked hist c₂
    by_cases hzero : b₁.height = 0
    · -- a block of height 0 may have handed the mark on, to a block next to it
      have hreorganises := hcandidate.reorganises hc hreorg
      obtain ⟨header, hheader⟩ := tip_stored_of_reorg (hcandidate.header_stored hc) hreorg
      obtain ⟨x, hx, -⟩ := hr₁.agree.storedBlock_of_header hheader
      have htip : c₂.currentTip = 0 := hreorganises.currentTip.trans hzero
      rw [P2Block.header_height, hzero] at hx
      refine ⟨fun height' hlt => habove height' (by omega), fun hunmarked => ?_, by omega,
        fun _ height' hwindow => ?_⟩
      · rw [tipHash, htip] at hunmarked
        exact absurd hunmarked (hr₁.hash_ne_zero hd hx)
      · obtain rfl : height' = 0 := by
          have := hwindow.1
          omega
        exact ⟨x, by rw [hreorganises.same.storedBlock, hx], fun hne => absurd rfl hne⟩
    · obtain ⟨k, a, hrel⟩ := relinked_of_reorg hr₁.agree hb₁ hzero hreorg
      exact (hcandidate.scanned hr hl (hguard.below b₁ c₁ ⟨b, result, hcandidate, hpow⟩)).relinked
        hr₁ hd (by omega) hrel habove

theorem Run.mainChainLinked (hrun : Run core config (LinksGuarded core) hist c) :
    MainChainLinked hist c := by
  induction hrun with
  | empty => exact MainChainLinked.newEmpty config
  | refused _ _ ih => exact ih
  | @added hist c ord b hrun hnonzero hfresh hallowed hstep hreturns ih =>
    have hr := hrun.recorded
    have hd := (hrun.added hnonzero hfresh hallowed hstep hreturns).distinct
    have hinv := addBlock_inv
      (I := fun c => Recorded config (b :: hist) c ∧ MainChainLinked (b :: hist) c)
      hallowed hreturns
      (fun c₀ hw => ⟨hr.writes (hr.unused hfresh) hw, ih.writes hr hfresh hw⟩)
      (fun w height hash rest hvisits hqueue hI hret => by
        have ho := outcome_verifyChainInner core ord w.numProcessed height hash hI.1.agree
        exact ⟨hI.1.outcome ho hret,
          hI.2.outcome hI.1 hd (hstep w height hash rest hvisits hqueue) ho hret⟩)
    exact hinv.2
  | @generated hist c s ord template soloMine hrun _ ih =>
    obtain ⟨cached, heq⟩ := generate_state core s ord template soloMine c
    rw [heq]
    exact ⟨ih.above, ih.unmarked, ih.fits, ih.linked⟩

/-- In a run whose visits keep the links, no level above the tip is marked, every level of the share
window marks a stored block, and the marks lead from each block to its parent, so that they are the
ancestors of the tip. -/
theorem main_chain_linked (hrun : Run core config (LinksGuarded core) hist c) {tip : P2ChainLevel}
    (htip : c.getTip = some tip) :
    (∀ height, tip.height < height → c.chainBlockAt height = FixedHash.zero) ∧
      (∀ height, InShareWindow config tip.height height → ∃ header,
        c.getBlockHeaderAtHeight height (c.chainBlockAt height) = some header ∧
          (height ≠ 0 → ∀ parent,
            c.getBlockHeaderAtHeight (height - 1) header.prevHash = some parent →
              c.chainBlockAt (height - 1) = header.prevHash)) ∧
      ∀ b, c.storedBlock tip.height tip.chainBlock = some b → ∀ i < config.shareWindow, ∀ a,
        c.ancestorOf i b = some a → c.chainBlockAt a.height = a.hash := by
  have hr := hrun.recorded
  have hl := hrun.mainChainLinked
  have hlinked (height : Nat) (hwindow : InShareWindow config c.currentTip height) :
      LinkedAt hist c height :=
    hl.linked (exists_getTip_iff.mp ⟨tip, htip⟩) height (by rwa [hr.config_eq])
  rw [height_of_getTip htip, chainBlock_of_getTip htip]
  refine ⟨hl.above, fun height hwindow => ?_, fun b hb i hi a ha => ?_⟩
  · obtain ⟨x, hx, hlink⟩ := hlinked height hwindow
    refine ⟨x.header, hr.agree.header_of_storedBlock hx, fun hheight parent hparent => ?_⟩
    obtain ⟨-, hmark | hnone⟩ := hlink hheight
    · exact hmark
    · rw [hr.agree.getBlockHeaderAtHeight_eq, P2Block.header_prevHash, hnone] at hparent
      cases hparent
  · have hbHeight := hr.agree.height_of_storedBlock hb
    have hbHash := hr.agree.hash_of_storedBlock hb
    have haHeight := height_of_ancestorOf hr.agree ha
    have hbStored : c.storedBlock b.height b.hash = some b := by rw [hbHeight, hbHash, hb]
    have hbMain : OnMainChain c b := by rw [OnMainChain, hbHeight, hbHash, tipHash]
    have hpath (height : Nat) (hlo : a.height < height) (hhi : height ≤ b.height) :
        LinkedAt hist c height := hlinked height ⟨by omega, by omega⟩
    exact onMainChain_of_linked (i := 0) (n := i) hr.agree hbStored rfl hbMain
      (by rwa [Nat.zero_add]) hpath

/-- A block of height 0 on a tip of height 1: the tip is at height 0 now, and the level above keeps
its mark. -/
theorem mark_above_tip : ∃ hist c tip, Run sampleCore (sampleConfig 10) Unrestricted hist c ∧
    c.getTip = some tip ∧ tip.height = 0 ∧ c.chainBlockAt 1 = 2 :=
  ⟨_, _, _, Run.of_blocks IterOrder.stored (fun _ _ _ => true) (fun _ _ _ _ => trivial)
    [sampleBlock 1 0 0 1, sampleBlock 2 1 1 2, sampleBlock 3 2 0 1] (by decide),
    (Option.some_get (by decide)).symm, by decide, by decide⟩

/-- No mark lies above the next block to visit or above the tip, the tip's share window reaches down
to height 0 and there are too few levels for the pruning. -/
def roomy (w : WalkState) : Bool :=
  match w.nextLevel with
  | [] => true
  | (height, _) :: _ =>
    w.chain.levels.values.all (fun level =>
        (level.height ≤ height && level.height ≤ w.chain.currentTip) ||
          level.chainBlock == FixedHash.zero) &&
      decide (w.chain.currentTip < w.chain.config.shareWindow - 1) &&
      decide (w.chain.levels.size < maxLevels w.chain.config)

theorem linksGuarded_of_roomy (hrun : Run core config P hist c) (hnonzero : b.hash ≠ FixedHash.zero)
    (hfresh : ∀ a ∈ hist, a.hash ≠ b.hash) (h : visitsAll core ord roomy c b = true) :
    LinksGuarded core hist c ord b := by
  intro w height hash rest hvisits hqueue
  have htest := of_visitsAll h hvisits
  rw [roomy, hqueue] at htest
  simp only [Bool.and_eq_true, List.all_eq_true, Bool.or_eq_true, decide_eq_true_eq,
    beq_iff_eq] at htest
  obtain ⟨⟨hmarks, hwindow⟩, hfew⟩ := htest
  have hunmarked (height' : Nat) (hlt : height < height' ∨ w.chain.currentTip < height') :
      w.chain.chainBlockAt height' = FixedHash.zero := by
    rw [chainBlockAt]
    cases hlevel : w.chain.levelAtHeight height' with
    | none => rfl
    | some level =>
      have hheight := height_of_levelAtHeight hlevel
      obtain hle | hzero := hmarks level (KeyedMap.mem_values_of_find? hlevel)
      · omega
      · exact hzero
  refine ⟨fun _ height' hlt => hunmarked height' (Or.inl hlt), fun _ => Or.inr fun height' _ => ?_,
    fun _ _ _ target hlt hmark => absurd (hunmarked target (Or.inl hlt)) hmark, ?_⟩
  · exact Nat.lt_of_le_of_lt (levelsAbove_le_size _ _) hfew
  -- a block of the main chain is no higher than the tip, so its height is in the tip's window
  rintro b₁ c₁ ⟨b', result, hcandidate, -⟩ height' - hout ⟨i, m, -, hm, hle, hmark⟩
  have hr := hrun.recorded.visits (hrun.recorded.unused hfresh) hvisits
  have hr₁ := hr.checked hcandidate.toChecked
  have hstored := stored_of_ancestorOf hr₁.agree (by
    rw [hcandidate.height_eq hr.agree, hcandidate.hash_eq hr.agree]
    exact hcandidate.storedBlock_self hr.agree) hm
  have hmarked := hr₁.hash_ne_zero (hrun.distinct.cons hnonzero hfresh) hstored
  have htip : m.height ≤ w.chain.currentTip := by
    by_contra habove
    rw [OnMainChain, hcandidate.chainBlockAt, hunmarked _ (Or.inr (Nat.not_le.mp habove))] at hmark
    exact hmarked hmark.symm
  rw [InShareWindow, hcandidate.config, hcandidate.currentTip] at hout
  omega

theorem main_chain_linked_branch :
    (∀ height, 4 < height → rejoinedChain.chainBlockAt height = FixedHash.zero) ∧
      rejoinedChain.chainBlockAt 1 = 2 := by
  have htip := (Option.some_get (show rejoinedChain.getTip.isSome = true by decide)).symm
  have hrun : Run sampleCore (sampleConfig 10) (LinksGuarded sampleCore)
      (branchBlocks ++ [branchBlock]).reverse rejoinedChain :=
    Run.of_blocks_of_run IterOrder.stored (fun _ c b => visitsAll sampleCore .stored roomy c b)
      (fun _ _ _ hrun hnonzero hfresh h => linksGuarded_of_roomy hrun hnonzero hfresh h)
      (branchBlocks ++ [branchBlock]) (by decide)
  obtain ⟨habove, hlinked, -⟩ := main_chain_linked hrun htip
  obtain ⟨header, hheader, hlink⟩ := hlinked 2 (by decide)
  have hprev : (rejoinedChain.getBlockHeaderAtHeight 2 (rejoinedChain.chainBlockAt 2)).map
      (·.prevHash) = some 2 := by decide
  rw [hheader, Option.map_some, Option.some.injEq] at hprev
  obtain ⟨parent, hparent⟩ := Option.isSome_iff_exists.mp
    (show (rejoinedChain.getBlockHeaderAtHeight 1 2).isSome = true by decide)
  rw [hprev] at hlink
  exact ⟨habove, hlink (by decide) parent hparent⟩

end P2Chain

end ShaP2Pool
