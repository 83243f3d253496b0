import ShaP2Pool.Proof.ForkChoice
import ShaP2Pool.Proof.Growth
import ShaP2Pool.Proof.Reload

/-!
# Following a growing chain

A node with the server's bypass flags that is sent the blocks of a growing chain, each after those
it refers to, stores and verifies all of them. Its main chain is the one of the growing chain after
every call, as far down as levels are kept: a block on the tip extends it, a heavier block elsewhere
is reached by a reorg, and any other block is only stored.
-/

namespace ShaP2Pool

namespace P2Chain

open Lineage

variable {core : TariCore} {ord : IterOrder} {config : ChainConfig} {hist : List P2Block}
  {c c' c₀ c₁ c₂ : P2Chain} {t x x₁ y a b b₁ p m u : P2Block}
  {trunk trunk' rest fed us : List P2Block} {depth i n : Nat}

/-- The levels of the blocks up to the highest one do not push the level of `y` out. -/
def Recent (config : ChainConfig) (fed : List P2Block) (y : P2Block) : Prop :=
  ∀ z ∈ fed, z.height < y.height + maxLevels config

theorem Recent.tail (h : Recent config (x :: fed) y) : Recent config fed y :=
  fun z hz => h z (List.mem_cons_of_mem _ hz)

/-- `c` has the blocks `fed` with the main chain `trunk`: the recent blocks are stored and verified,
and the marks are those of the main chain. -/
structure Follows (config : ChainConfig) (hist trunk fed : List P2Block) (c : P2Chain) : Prop where
  recorded : Recorded config hist c
  same : hist.map (·.withoutStatus) = fed.map (·.withoutStatus)
  kept : ∀ y ∈ fed, Recent config fed y → ∃ y₁, c.storedBlock y.height y.hash = some y₁ ∧
    y₁.withoutStatus = y.withoutStatus ∧ y₁.verified.isVerified = true
  marked : ∀ y ∈ trunk, Recent config fed y → c.chainBlockAt y.height = y.hash
  unmarked : ∀ height, (∀ y ∈ trunk, y.height < height) → c.chainBlockAt height = FixedHash.zero
  tip : ∀ t ∈ trunk.head?, c.currentTip = t.height
  levels : ∀ height, (c.levelAtHeight height).isSome = true → ∃ y ∈ fed, y.height = height

theorem Follows.newEmpty (config : ChainConfig) : Follows config [] [] [] (newEmpty config) where
  recorded := Recorded.newEmpty config
  same := rfl
  kept y hy := by cases hy
  marked y hy := by cases hy
  unmarked height _ := chainBlockAt_newEmpty config
  tip t ht := by cases ht
  levels height hlevel := by cases hlevel

theorem fields_eq (h : b.withoutStatus = x.withoutStatus) :
    b.height = x.height ∧ b.hash = x.hash ∧ b.prevHash = x.prevHash ∧ b.uncles = x.uncles ∧
      b.targetDifficulty = x.targetDifficulty ∧ b.totalPow = x.totalPow :=
  ⟨field_eq P2Block.height (fun _ _ => rfl) h, field_eq P2Block.hash (fun _ _ => rfl) h,
    field_eq P2Block.prevHash (fun _ _ => rfl) h, field_eq P2Block.uncles (fun _ _ => rfl) h,
    field_eq P2Block.targetDifficulty (fun _ _ => rfl) h,
    field_eq P2Block.totalPow (fun _ _ => rfl) h⟩

/-- The configuration is the server's, and main chains part within the share window. -/
structure Follower (config : ChainConfig) (depth : Nat) : Prop where
  bypass : config.bypassChecks = serverBypass
  wide : 2 * config.shareWindow ≤ config.totalSize
  depth : depth < config.shareWindow

theorem Follower.windowRounds_le (hf : Follower config depth) :
    depth ≤ windowRounds config ∧ windowRounds config ≤ config.shareWindow := by
  have hdepth := hf.depth
  have hrounds : windowRounds config = max 1 (config.shareWindow - 1) := rfl
  omega

theorem Follower.lt_maxLevels (hf : Follower config depth) (hn : n ≤ config.shareWindow + 4) :
    n + depth < maxLevels config := by
  have hdepth := hf.depth
  have hwide := hf.wide
  rw [maxLevels, safetyMargin, maxExtraSync]
  omega

theorem Recent.of_end (hgrowth : Growth depth (t :: trunk) fed) (hf : Follower config depth) :
    Recent config fed t := by
  intro z hz
  have hnear := hgrowth.near hz
  have hlevels := hf.lt_maxLevels (Nat.zero_le _)
  omega

/-- The end of the main chain is the tip. -/
theorem Follows.tipHash_eq (hf : Follower config depth) (hgrowth : Growth depth (t :: trunk) fed)
    (hfollows : Follows config hist (t :: trunk) fed c) : c.tipHash = t.hash := by
  rw [tipHash, hfollows.tip t rfl]
  exact hfollows.marked t List.mem_cons_self (Recent.of_end hgrowth hf)

/-- A recent block beside the main chain is not marked. -/
theorem Follows.offMain (hgrowth : Growth depth (t :: trunk) fed)
    (hfollows : Follows config hist (t :: trunk) fed c) (hy : y ∈ fed) (hside : y ∉ t :: trunk)
    (hrecent : Recent config fed y) : c.chainBlockAt y.height ≠ y.hash := by
  intro hmark
  obtain hgt | hle := Nat.lt_or_ge t.height y.height
  · rw [hfollows.unmarked y.height fun z hz => (hgrowth.mainChain.height_le hz).trans_lt hgt] at hmark
    exact hgrowth.distinct.nonzero y hy hmark.symm
  · obtain ⟨m, hm, heq⟩ := hgrowth.mainChain.exists_at List.mem_cons_self hle
    have hmRecent : Recent config fed m := fun z hz => heq ▸ hrecent z hz
    rw [← heq, hfollows.marked m hm hmRecent] at hmark
    rw [hgrowth.distinct.eq (hgrowth.mem_of_trunk hm) hy hmark] at hm
    exact hside hm

/-- The block `b` with the content of `x` is new to a chain that follows, and `c₀` is the chain with
it. -/
structure Receives (config : ChainConfig) (depth : Nat) (hist trunk fed : List P2Block)
    (c : P2Chain) (x b : P2Block) (c₀ : P2Chain) : Prop where
  follower : Follower config depth
  growth : Growth depth trunk fed
  follows : Follows config hist trunk fed c
  fresh : Fresh fed x
  content : b.withoutStatus = x.withoutStatus
  writes : Writes c b c₀

namespace Receives

variable (hs : Receives config depth hist trunk fed c x b c₀)

include hs

theorem height_eq : b.height = x.height := (fields_eq hs.content).1

theorem hash_eq : b.hash = x.hash := (fields_eq hs.content).2.1

theorem prevHash_eq : b.prevHash = x.prevHash := (fields_eq hs.content).2.2.1

theorem uncles_eq : b.uncles = x.uncles := (fields_eq hs.content).2.2.2.1

theorem new (a : P2Block) (ha : a ∈ hist) : a.hash ≠ b.hash := by
  obtain ⟨y, hy, heq⟩ := List.mem_map.mp (hs.follows.same ▸ List.mem_map_of_mem ha)
  rw [hs.hash_eq, ← hash_of_withoutStatus heq]
  exact hs.fresh.new y hy

theorem unused (old : P2Block) (hold : c.blockCache.find? b.hash = some old) :
    old.height = b.height :=
  hs.follows.recorded.unused hs.new old hold

theorem recorded₀ : Recorded config (b :: hist) c₀ :=
  hs.follows.recorded.writes hs.unused hs.writes

theorem same₀ : (b :: hist).map (·.withoutStatus) = (x :: fed).map (·.withoutStatus) := by
  rw [List.map_cons, List.map_cons, hs.follows.same, hs.content]

theorem distinct₀ : Distinct (x :: fed) := hs.growth.distinct.cons hs.fresh.nonzero hs.fresh.new

theorem stored : c₀.storedBlock b.height b.hash = some b :=
  hs.follows.recorded.storedBlock_of_writes hs.unused hs.writes

theorem eq_of_stored (h : c₀.storedBlock b.height b.hash = some y) : y = b := by
  rw [hs.stored, Option.some.injEq] at h
  exact h.symm

theorem bypass₀ : c₀.config.bypassChecks = serverBypass :=
  hs.recorded₀.config_eq ▸ hs.follower.bypass

theorem kept₀ (hy : y ∈ fed) (hrecent : Recent config fed y) :
    ∃ y₁, c₀.storedBlock y.height y.hash = some y₁ ∧ y₁.withoutStatus = y.withoutStatus ∧
      y₁.verified.isVerified = true := by
  obtain ⟨y₁, hstored, hcontent, hverified⟩ := hs.follows.kept y hy hrecent
  exact ⟨y₁, hs.follows.recorded.storedBlock_before hs.new hs.writes hstored, hcontent, hverified⟩

theorem marked₀ (hy : y ∈ trunk) (hrecent : Recent config fed y) :
    c₀.chainBlockAt y.height = y.hash := by
  rw [hs.writes.chainBlockAt]
  exact hs.follows.marked y hy hrecent

theorem unmarked₀ (n : Nat) (h : ∀ y ∈ trunk, y.height < n) : c₀.chainBlockAt n = FixedHash.zero := by
  rw [hs.writes.chainBlockAt]
  exact hs.follows.unmarked n h

theorem levels₀ (n : Nat) (hlevel : (c₀.levelAtHeight n).isSome = true) :
    ∃ y ∈ x :: fed, y.height = n := by
  rw [hs.writes.levels, Bool.or_eq_true, decide_eq_true_eq] at hlevel
  obtain rfl | hlevel := hlevel
  · exact ⟨x, List.mem_cons_self, hs.height_eq.symm⟩
  · obtain ⟨y, hy, heq⟩ := hs.follows.levels n hlevel
    exact ⟨y, List.mem_cons_of_mem _ hy, heq⟩

end Receives

/-! ### The tip -/

namespace Receives

variable (hs : Receives config depth hist (t :: trunk) fed c x b c₀)

include hs

theorem tip_mem : t ∈ fed := hs.growth.mem_of_trunk List.mem_cons_self

theorem tip_recent : Recent config fed t := Recent.of_end hs.growth hs.follower

theorem tipHash₀ : c₀.tipHash = t.hash := by
  rw [tipHash, hs.writes.currentTip, hs.writes.chainBlockAt, ← tipHash]
  exact hs.follows.tipHash_eq hs.follower hs.growth

theorem tip_nonzero : t.hash ≠ FixedHash.zero := hs.growth.distinct.nonzero t hs.tip_mem

theorem tipWork₀ : c₀.totalAccumulatedTipDifficulty = t.totalPow := by
  obtain ⟨t₁, hstored, hcontent, -⟩ := hs.kept₀ hs.tip_mem hs.tip_recent
  obtain ⟨-, -, -, -, -, hpow⟩ := fields_eq hcontent
  rw [← hpow]
  refine totalPow_of_tip hs.recorded₀.agree (hs.tipHash₀ ▸ hs.tip_nonzero) ?_
  rw [hs.writes.currentTip, hs.follows.tip t rfl, hs.tipHash₀]
  exact hstored

theorem offMain₀ (hy : y ∈ fed) (hside : y ∉ t :: trunk) (hrecent : Recent config fed y) :
    c₀.chainBlockAt y.height ≠ y.hash := by
  rw [hs.writes.chainBlockAt]
  exact hs.follows.offMain hs.growth hy hside hrecent

end Receives

/-! ### The checks of a block that joins -/

namespace Receives

variable (hs : Receives config depth hist trunk fed c x b c₀) (hx : Joins depth fed x p us)

include hs hx

theorem recent_of_le (hle : x.height ≤ y.height + n) (hn : n ≤ config.shareWindow + 4) :
    Recent config (x :: fed) y := by
  intro z hz
  have hlevels := hs.follower.lt_maxLevels hn
  obtain rfl | hz := List.mem_cons.mp hz
  · omega
  · have hnear := hx.near z hz
    omega

theorem parentOf_eq : ∃ p₁, c₀.parentOf b = some p₁ ∧ p₁.withoutStatus = p.withoutStatus := by
  have hheight := hx.height
  obtain ⟨p₁, hstored, hcontent, -⟩ := hs.kept₀ hx.parent
    (hs.recent_of_le hx (n := 1) (by omega) (by omega)).tail
  refine ⟨p₁, ?_, hcontent⟩
  rw [parentOf, hs.height_eq, hs.prevHash_eq, hx.height, hx.prevHash, if_neg (Nat.succ_ne_zero _)]
  exact hstored

/-- A listed uncle and its parent are stored. -/
theorem uncle (hu : u ∈ us) : ∃ u₁ q q₁, c₀.storedBlock u.height u.hash = some u₁ ∧
    u₁.withoutStatus = u.withoutStatus ∧ u₁.verified.isVerified = true ∧
    q ∈ fed ∧ Recent config fed q ∧ u.prevHash = q.hash ∧ u.height = q.height + 1 ∧
    c₀.storedBlock (u.height - 1) u₁.prevHash = some q₁ := by
  have hfed := hx.known u hu
  obtain ⟨-, hpos, -, hage⟩ := hx.uncles u hu
  rw [maxUncleAge] at hage
  obtain ⟨u₁, hstored, hcontent, hverified⟩ := hs.kept₀ hfed
    (hs.recent_of_le hx (n := 3) hage (by omega)).tail
  obtain ⟨hzero, -⟩ | ⟨q, hq, hprev, hheight⟩ := hs.growth.stands hfed
  · omega
  · have hqRecent := (hs.recent_of_le hx (y := q) (n := 4) (by omega) (by omega)).tail
    obtain ⟨q₁, hqStored, -⟩ := hs.kept₀ hq hqRecent
    refine ⟨u₁, q, q₁, hstored, hcontent, hverified, hq, hqRecent, hprev, hheight, ?_⟩
    rw [(fields_eq hcontent).2.2.1, hprev, hheight, Nat.add_sub_cancel]
    exact hqStored

theorem complete_of_joins :
    (c₀.missingReferences b.height b.hash b.prevHash).missingBlocks.size = 0 := by
  refine (complete_iff hs.recorded₀.agree hs.stored).mpr fun _ => ?_
  obtain ⟨p₁, hparent, -⟩ := hs.parentOf_eq hx
  refine ⟨⟨p₁, hparent⟩, fun uncle huncle => ?_⟩
  rw [hs.uncles_eq, hx.lists] at huncle
  obtain ⟨u, hu, rfl⟩ := List.mem_map.mp huncle
  obtain ⟨u₁, -, q₁, hstored, -, -, -, -, -, -, hbelow⟩ := hs.uncle hx hu
  exact ⟨u₁, q₁, hstored, hbelow⟩

theorem verifyPowAndParents_of_joins : c₀.verifyPowAndParents b = .ok true := by
  obtain ⟨-, -, -, -, htarget, hpow⟩ := fields_eq hs.content
  obtain ⟨p₁, hparent, hcontent⟩ := hs.parentOf_eq hx
  obtain ⟨-, -, -, -, -, hpPow⟩ := fields_eq hcontent
  have hsum := hx.work
  have hpart : x.targetDifficulty + targets us ≤ u128Max :=
    (Nat.le_add_right _ p.totalPow).trans (hsum ▸ hx.fits)
  have hwork : c₀.addUncleWork b.uncles b.targetDifficulty =
      .ok (some (x.targetDifficulty + targets us)) := by
    rw [hs.uncles_eq, hx.lists, htarget]
    refine addUncleWork_eq hs.recorded₀.agree hpart fun u hu => ?_
    obtain ⟨u₁, -, -, hstored, huContent, hverified, -⟩ := hs.uncle hx hu
    obtain ⟨-, -, -, -, huTarget, -⟩ := fields_eq huContent
    simp only [VerifiedStatus.isVerified, Bool.and_eq_true] at hverified
    exact ⟨u₁, hstored, huTarget, by tauto, by tauto⟩
  refine verifyPowAndParents_of_work hs.recorded₀.agree ?_ hwork hparent ?_ ?_
  · rw [htarget]
    exact hx.target
  · rw [hpPow, ← hsum]
    exact hx.fits
  · rw [hpow, hpPow, hsum]

theorem not_parentIsUncle : ¬ParentIsUncle b := by
  intro hparent
  rw [ParentIsUncle, List.any_eq_true] at hparent
  obtain ⟨uncle, huncle, heq⟩ := hparent
  rw [hs.uncles_eq, hx.lists] at huncle
  obtain ⟨u, hu, rfl⟩ := List.mem_map.mp huncle
  rw [beq_iff_eq, hs.prevHash_eq, hx.prevHash] at heq
  exact (hx.uncles u hu).1 (hs.growth.distinct.eq (hx.known u hu) hx.parent heq)

omit hx in
/-- No block that was stored before refers to the new one. -/
theorem unnamed (hself : ¬Names x x.hash) : ∀ a ∈ b :: hist, ¬Names a b.hash := by
  intro a ha
  obtain ⟨y, hy, heq⟩ := List.mem_map.mp (hs.same₀ ▸ List.mem_map_of_mem ha)
  obtain ⟨-, -, hprev, huncles, -⟩ := fields_eq heq
  rw [Names, ← hprev, ← huncles, hs.hash_eq]
  obtain rfl | hy := List.mem_cons.mp hy
  · exact hself
  · exact hs.growth.not_names hs.fresh hy

omit hs in
theorem not_names_self : ¬Names x x.hash := by
  intro hnames
  obtain hprev | ⟨uncle, huncle, heq⟩ := hnames
  · exact hx.fresh.new p hx.parent (hx.prevHash.symm.trans hprev)
  · rw [hx.lists] at huncle
    obtain ⟨u, hu, rfl⟩ := List.mem_map.mp huncle
    exact hx.fresh.new u (hx.known u hu) heq

end Receives

/-! ### After the checks -/

namespace Receives

variable (hs : Receives config depth hist trunk fed c x b c₀)
  (hpow : c₀.verifyPowAndParents b = .ok true) (hv : Checked core c₀ b.height b.hash x₁ b₁ c₁)

include hs hv

theorem content₁ : b₁.withoutStatus = x.withoutStatus := by
  rw [hv.withoutStatus_eq, hs.eq_of_stored hv.stored, hs.content]

theorem recorded₁ : Recorded config (b :: hist) c₁ := hs.recorded₀.checked hv

theorem stored₁ : c₁.storedBlock b₁.height b₁.hash = some b₁ := hs.recorded₀.stored_checked hv

include hpow in
theorem verified₁ : b₁.verified.isVerified = true := by
  obtain ⟨hverified, rfl, -⟩ | ⟨-, v, hchecks, rfl, -⟩ := hv.written
  · exact hverified
  · rw [hs.eq_of_stored hv.stored, runChecks_serverBypass hs.bypass₀, hpow] at hchecks
    cases hchecks
    simp [VerifiedStatus.isVerified]

include hpow in
theorem kept₁ (hy : y ∈ x :: fed) (hrecent : Recent config (x :: fed) y) :
    ∃ y₁, c₁.storedBlock y.height y.hash = some y₁ ∧ y₁.withoutStatus = y.withoutStatus ∧
      y₁.verified.isVerified = true := by
  obtain rfl | hfed := List.mem_cons.mp hy
  · refine ⟨b₁, ?_, hs.content₁ hv, hs.verified₁ hpow hv⟩
    rw [← hs.height_eq, ← hs.hash_eq]
    exact hv.storedBlock_self hs.recorded₀.agree
  · obtain ⟨y₁, hstored, hcontent, hverified⟩ := hs.kept₀ hfed hrecent.tail
    refine ⟨y₁, ?_, hcontent, hverified⟩
    rw [hv.storedBlock hs.recorded₀.agree, if_neg fun h => ?_]
    · exact hstored
    · exact hs.fresh.new y hfed (h.2.trans hs.hash_eq)

theorem levels₁ (n : Nat) (hlevel : (c₁.levelAtHeight n).isSome = true) :
    ∃ y ∈ x :: fed, y.height = n := by
  rw [hv.levelAtHeight_isSome hs.recorded₀.agree] at hlevel
  exact hs.levels₀ n hlevel

include hpow in
theorem follows_of_kept (hrecorded : Recorded config (b :: hist) c')
    (hkept : ∀ y₁, c₁.storedBlock y₁.height y₁.hash = some y₁ → Recent config (x :: fed) y₁ →
      c'.storedBlock y₁.height y₁.hash = some y₁)
    (hlevels : ∀ n, (c'.levelAtHeight n).isSome = true → (c₁.levelAtHeight n).isSome = true)
    (hmarked : ∀ y ∈ trunk', Recent config (x :: fed) y → c'.chainBlockAt y.height = y.hash)
    (hunmarked : ∀ n, (∀ y ∈ trunk', y.height < n) → c'.chainBlockAt n = FixedHash.zero)
    (htip : ∀ t ∈ trunk'.head?, c'.currentTip = t.height) :
    Follows config (b :: hist) trunk' (x :: fed) c' where
  recorded := hrecorded
  same := hs.same₀
  kept y hy hrecent := by
    obtain ⟨y₁, hstored, hcontent, hverified⟩ := hs.kept₁ hpow hv hy hrecent
    obtain ⟨hheight, hhash, -⟩ := fields_eq hcontent
    rw [← hheight, ← hhash] at hstored ⊢
    exact ⟨y₁, hkept y₁ hstored fun z hz => hheight ▸ hrecent z hz, hcontent, hverified⟩
  marked := hmarked
  unmarked := hunmarked
  tip := htip
  levels n hlevel := hs.levels₁ hv n (hlevels n hlevel)

include hpow in
/-- The chain after the tip has moved to the block, which is the end of `x :: trunk`. -/
theorem follows_of_moved (hm : MovesTip c₁ b₁ c₂) (hr₂ : Recorded config (b :: hist) c₂.cleanupChain)
    (htrunk : Trunk (x :: trunk)) (hsub : ∀ y ∈ x :: trunk, y ∈ x :: fed) :
    Follows config (b :: hist) (x :: trunk) (x :: fed) c₂.cleanupChain := by
  have hc₁ := (hs.recorded₁ hv).agree
  have hc₂ := hm.same.storesAgree hc₁
  have hprunes := Prunes.cleanupChain hc₂
  have hconfig : c₂.config = config := by
    rw [hm.same.config, (hs.recorded₁ hv).config_eq]
  obtain ⟨hheight, hhash, -⟩ := fields_eq (hs.content₁ hv)
  -- fewer levels than are kept lie above a recent block
  have hspared {y₁ : P2Block} (hy₁ : c₁.storedBlock y₁.height y₁.hash = some y₁)
      (hrecent : Recent config (x :: fed) y₁) :
      (c₂.cleanupChain.levelAtHeight y₁.height).isSome = true := by
    obtain ⟨level, hlevel, -⟩ := hc₁.level_of_storedBlock hy₁
    have htop : NoLevelAbove c₂ (y₁.height + maxLevels config - 1) := by
      intro n hn
      rw [hm.same.levelAtHeight_isSome] at hn
      obtain ⟨z, hz, rfl⟩ := hs.levels₁ hv n hn
      have hlt := hrecent z hz
      omega
    have habove := htop.levelsAbove_le y₁.height
    have hpos := hs.follower.lt_maxLevels (Nat.zero_le _)
    rw [levelAtHeight_cleanupChain, hconfig, if_pos (by omega), hm.same.levelAtHeight_isSome, hlevel,
      Option.isSome_some]
  refine hs.follows_of_kept hpow hv hr₂ (fun y₁ hy₁ hrecent => ?_) (fun n hn => ?_)
    (fun y hy hrecent => ?_) (fun n hn => ?_) (fun t ht => ?_)
  · rw [hprunes.storedBlock hc₂, if_pos (hspared hy₁ hrecent), hm.same.storedBlock]
    exact hy₁
  · rw [← hm.same.levelAtHeight_isSome]
    obtain hnone | heq := hprunes.level n
    · rw [hnone] at hn
      cases hn
    · rwa [heq] at hn
  · obtain ⟨y₁, hstored, hcontent, -⟩ := hs.kept₁ hpow hv (hsub y hy) hrecent
    obtain ⟨hyHeight, hyHash, -⟩ := fields_eq hcontent
    rw [← hyHeight, ← hyHash] at hstored
    have hlevel := hspared hstored fun z hz => hyHeight ▸ hrecent z hz
    rw [hyHeight] at hlevel
    rw [hprunes.chainBlockAt, if_pos hlevel, hm.chainBlockAt, hheight, hhash]
    obtain rfl | hmem := List.mem_cons.mp hy
    · exact if_pos rfl
    · rw [if_neg (htrunk.height_lt hmem).ne, hv.chainBlockAt]
      exact hs.marked₀ hmem hrecent.tail
  · rw [hprunes.chainBlockAt]
    split_ifs
    · rw [hm.chainBlockAt, hheight, if_neg (hn x List.mem_cons_self).ne', hv.chainBlockAt]
      exact hs.unmarked₀ n fun y hy => hn y (List.mem_cons_of_mem _ hy)
    · rfl
  · cases ht
    rw [hprunes.currentTip, hm.currentTip, hheight]

end Receives

/-! ### The ancestors of a block that joins -/

namespace Receives

variable (hs : Receives config depth hist trunk fed c x b c₀)
  (hv : Checked core c₀ b.height b.hash x₁ b₁ c₁)

include hs hv

theorem exists_of_ancestor (ha : c₁.ancestorOf i b₁ = some a) :
    ∃ y ∈ x :: fed, a.withoutStatus = y.withoutStatus ∧ x.height = y.height + i := by
  have hr₁ := hs.recorded₁ hv
  have haStored := stored_of_ancestorOf hr₁.agree (hs.stored₁ hv) ha
  have haHeight := height_of_ancestorOf hr₁.agree ha
  obtain ⟨hist₁, hmem, hcontent, -⟩ := hr₁.content haStored
  obtain ⟨y, hy, heq⟩ := List.mem_map.mp (hs.same₀ ▸ List.mem_map_of_mem hmem)
  have hya : a.withoutStatus = y.withoutStatus := by rw [heq, hcontent]
  refine ⟨y, hy, hya, ?_⟩
  rw [← (fields_eq (hs.content₁ hv)).1, ← (fields_eq hya).1]
  omega

variable (hpow : c₀.verifyPowAndParents b = .ok true)

include hpow

theorem exists_ancestor (htrunk : Trunk (x :: rest)) (hsub : ∀ y ∈ x :: rest, y ∈ x :: fed)
    (hy : y ∈ x :: rest) (hi : x.height = y.height + i) (hrecent : Recent config (x :: fed) y) :
    ∃ y₁, c₁.ancestorOf i b₁ = some y₁ ∧ y₁.withoutStatus = y.withoutStatus := by
  induction i generalizing y with
  | zero =>
    obtain rfl := htrunk.eq_of_height hy List.mem_cons_self hi.symm
    exact ⟨b₁, rfl, hs.content₁ hv⟩
  | succ i ih =>
    obtain ⟨m, hm, hmHeight⟩ :=
      htrunk.exists_at (n := y.height + 1) List.mem_cons_self (by omega)
    obtain ⟨m₁, hmAncestor, hmContent⟩ := ih hm (by omega) fun z hz => by
      have hlt := hrecent z hz
      omega
    obtain ⟨q, hq, hprev, hheight⟩ := htrunk.exists_below hm (by omega)
    obtain rfl := htrunk.eq_of_height hq hy (by omega)
    obtain ⟨y₁, hstored, hcontent, -⟩ := hs.kept₁ hpow hv (hsub q hq) hrecent
    refine ⟨y₁, ?_, hcontent⟩
    obtain ⟨hm₁Height, -, hm₁Prev, -⟩ := fields_eq hmContent
    rw [ancestorOf, ancestor_succ', show ancestor c₁.parentOf i b₁ = some m₁ from hmAncestor,
      Option.bind_some, parentOf, hm₁Height, hm₁Prev, if_neg (by omega), hprev, hheight,
      Nat.add_sub_cancel]
    exact hstored

theorem rooted₁ (hx : Joins depth fed x p us) : c₁.Rooted b₁ := by
  intro i hi a ha hne
  rw [(hs.recorded₁ hv).config_eq] at hi
  have hrounds := hs.follower.windowRounds_le
  obtain ⟨y, hy, hcontent, hheight⟩ := hs.exists_of_ancestor hv ha
  obtain ⟨hyHeight, -, hprev, -⟩ := fields_eq hcontent
  have hstands : ∃ q ∈ fed, y.prevHash = q.hash ∧ y.height = q.height + 1 := by
    obtain rfl | hfed := List.mem_cons.mp hy
    · exact ⟨p, hx.parent, hx.prevHash, hx.height⟩
    · obtain ⟨hzero, -⟩ | hstands := hs.growth.stands hfed
      · exact absurd (hyHeight.trans hzero) hne
      · exact hstands
  obtain ⟨q, hq, hyPrev, hqHeight⟩ := hstands
  obtain ⟨q₁, hstored, -, hverified⟩ := hs.kept₁ hpow hv (List.mem_cons_of_mem _ hq)
    (hs.recent_of_le hx (n := i + 1) (by omega) (by omega))
  refine ⟨q₁, ?_, hverified⟩
  rw [parentOf, if_neg hne, hyHeight, hprev, hyPrev, hqHeight, Nat.add_sub_cancel]
  exact hstored

theorem scanAncestors_of_joins (hx : Joins depth fed x p us) :
    c₁.scanAncestors (windowRounds c₁.config) b₁.header {} = .ok (true, {}) :=
  scanAncestors_of_verified (hs.recorded₁ hv).agree (hs.stored₁ hv) (hs.rooted₁ hv hpow hx)

theorem reorg_ne_error (hx : Joins depth fed x p us) {result : ChainAddResult} {fault : Fault}
    (hcandidate : Candidate core c₀ b.height b.hash x₁ b₁ c₁ result) :
    c₁.reorg b₁.header ≠ .error fault := by
  intro hreorg
  have hc₁ := (hs.recorded₁ hv).agree
  obtain ⟨hheight, -⟩ := fields_eq (hs.content₁ hv)
  have hxHeight := hx.height
  have hxRoom := hx.room
  obtain ⟨level, hlevel, -⟩ := hc₁.level_of_storedBlock (hs.stored₁ hv)
  obtain rfl | rfl := reorg_error_cases hlevel hreorg
  · -- no block is at the last height
    have hfull := (reorg_overflow_iff hlevel).mp hreorg
    obtain ⟨y, hy, hlast⟩ := hs.levels₁ hv u64Max (hfull u64Max (Nat.min_le_right _ _) le_rfl)
    rw [maxUncleAge] at hxRoom
    obtain rfl | hy := List.mem_cons.mp hy
    · omega
    · have hroom := hs.growth.room hy
      rw [maxUncleAge] at hroom
      omega
  · refine absurd hreorg (hcandidate.reorg_ne_corrupted hs.recorded₀.agree
      ⟨fun hzero => by omega, fun i j m a _ hi _ _ ha hne _ _ => ?_⟩)
    obtain ⟨q, hq, -⟩ := hs.rooted₁ hv hpow hx i hi a ha hne
    exact ⟨q, hq⟩

end Receives

/-! ### A reorg -/

namespace Receives

variable (hs : Receives config depth hist (t :: trunk) fed c x b c₀)
  (hpow : c₀.verifyPowAndParents b = .ok true) (hv : Checked core c₀ b.height b.hash x₁ b₁ c₁)

include hs hpow hv

/-- The blocks of the new main chain are marked: those the reorg has come to by the reorg, and the
others are on the old main chain too. -/
theorem marked_of_reorg (hx : Joins depth fed x p us) (htrunk : Trunk (x :: p :: rest))
    (hsub : ∀ y ∈ x :: p :: rest, y ∈ x :: fed)
    (hfork : ∀ y ∈ p :: rest, y.height + depth ≤ x.height → y ∈ t :: trunk)
    (hreorg : c₁.reorg b₁.header = .ok c₂) (hy : y ∈ x :: p :: rest)
    (hrecent : Recent config (x :: fed) y) : c₂.chainBlockAt y.height = y.hash := by
  have hr₁ := hs.recorded₁ hv
  have hrounds := hs.follower.windowRounds_le
  have hxHeight := hx.height
  obtain ⟨hb₁Height, -⟩ := fields_eq (hs.content₁ hv)
  obtain ⟨k, a, hrelinked⟩ :=
    relinked_of_reorg hr₁.agree (hs.stored₁ hv) (by omega) hreorg
  have haHeight := height_of_ancestorOf hr₁.agree hrelinked.ancestor
  have hle := htrunk.height_le hy
  obtain ⟨i, hi⟩ := Nat.exists_eq_add_of_le hle
  obtain ⟨y₁, hyAncestor, hyContent⟩ := hs.exists_ancestor hv hpow htrunk hsub hy hi hrecent
  obtain ⟨hyHeight, hyHash, -⟩ := fields_eq hyContent
  obtain hreached | hbeyond := Nat.lt_or_ge k i
  · -- the reorg has stopped above: the block is on the old main chain
    suffices hold : y ∈ t :: trunk by
      rw [hrelinked.below y.height (by omega), hv.chainBlockAt]
      exact hs.marked₀ hold hrecent.tail
    have hyRest : y ∈ p :: rest := by
      obtain rfl | hmem := List.mem_cons.mp hy
      · omega
      · exact hmem
    -- the block below the one at which the reorg has stopped
    obtain ⟨q, hq, hqHeight⟩ := htrunk.exists_at (n := a.height - 1) List.mem_cons_self (by omega)
    have hqRest : q ∈ p :: rest := by
      obtain rfl | hmem := List.mem_cons.mp hq
      · omega
      · exact hmem
    have hqRecent : Recent config (x :: fed) q := fun z hz => by
      have hlt := hrecent z hz
      omega
    have hqFed : q ∈ fed := by
      obtain rfl | hmem := List.mem_cons.mp (hsub q hq)
      · omega
      · exact hmem
    have hbelow (hold : q ∈ t :: trunk) : y ∈ t :: trunk := by
      refine htrunk.mem_of_mem hs.growth.mainChain hs.distinct₀ hsub (fun z hz => ?_) hq hold hy
        (by omega)
      exact List.mem_cons_of_mem _ (hs.growth.mem_of_trunk hz)
    obtain hsteps | hzero | hlevel | ⟨hmark, -⟩ := hrelinked.ends
    · rw [hr₁.config_eq] at hsteps
      exact hfork y hyRest (by omega)
    · omega
    · obtain ⟨q₁, hqStored, -⟩ := hs.kept₁ hpow hv (hsub q hq) hqRecent
      obtain ⟨level, hqLevel, -⟩ := hr₁.agree.level_of_storedBlock hqStored
      rw [hqHeight, hlevel] at hqLevel
      cases hqLevel
    · refine hbelow (by_contra fun hside => ?_)
      have haPrev : a.prevHash = q.hash := by
        obtain ⟨m, hm, hmContent, hmHeight⟩ := hs.exists_of_ancestor hv hrelinked.ancestor
        obtain ⟨m', hm', hm'Height⟩ :=
          htrunk.exists_at (n := a.height) List.mem_cons_self (by omega)
        obtain ⟨m₁, hmAncestor, hm'Content⟩ :=
          hs.exists_ancestor (i := k) hv hpow htrunk hsub hm' (by omega) fun z hz => by
            have hlt := hrecent z hz
            omega
        rw [hrelinked.ancestor, Option.some.injEq] at hmAncestor
        subst hmAncestor
        obtain ⟨-, -, haPrev, -⟩ := fields_eq hm'Content
        obtain ⟨q', hq', hprev, hq'Height⟩ := htrunk.exists_below hm' (by omega)
        rw [htrunk.eq_of_height hq hq' (by omega), haPrev, hprev]
      rw [hv.chainBlockAt, ← hqHeight, haPrev] at hmark
      exact hs.offMain₀ hqFed hside hqRecent.tail hmark
  · rw [← hyHeight, hrelinked.marked i y₁ hbeyond hyAncestor, hyHash]

theorem unmarked_of_reorg (hx : Joins depth fed x p us) (hreorg : c₁.reorg b₁.header = .ok c₂)
    (hn : x.height < n) : c₂.chainBlockAt n = FixedHash.zero := by
  obtain ⟨hb₁Height, -⟩ := fields_eq (hs.content₁ hv)
  obtain ⟨level, hlevel, -⟩ := (hs.recorded₁ hv).agree.level_of_storedBlock (hs.stored₁ hv)
  have hclears : ClearedAbove c₁ c₂ b₁.header.height := clearedAbove_of_reorg hlevel hreorg
  have habove : b₁.header.height < n := by
    rw [P2Block.header_height]
    omega
  obtain hhigh | hlow := Nat.lt_or_ge t.height n
  · obtain hkept | hzero := hclears.above n habove
    · rw [hkept, hv.chainBlockAt]
      exact hs.unmarked₀ n fun z hz => (hs.growth.mainChain.height_le hz).trans_lt hhigh
    · exact hzero
  · -- the old main chain has filled the levels up to its end
    have hroom := hs.growth.room hs.tip_mem
    refine hclears.cleared n habove (by omega) fun n' hlo hhi => ?_
    rw [P2Block.header_height] at hlo
    obtain ⟨m, hm, rfl⟩ := hs.growth.mainChain.exists_at (n := n') List.mem_cons_self (by omega)
    obtain ⟨m₁, hmStored, -⟩ := hs.kept₁ hpow hv
      (List.mem_cons_of_mem _ (hs.growth.mem_of_trunk hm))
      (hs.recent_of_le hx (n := 0) (by omega) (Nat.zero_le _))
    obtain ⟨mLevel, hmLevel, -⟩ := (hs.recorded₁ hv).agree.level_of_storedBlock hmStored
    rw [hmLevel, Option.isSome_some]

theorem follows_of_reorg (hx : Joins depth fed x p us) (htrunk : Trunk (x :: p :: rest))
    (hsub : ∀ y ∈ x :: p :: rest, y ∈ x :: fed)
    (hfork : ∀ y ∈ p :: rest, y.height + depth ≤ x.height → y ∈ t :: trunk)
    (hreorg : c₁.reorg b₁.header = .ok c₂) (hr₂ : Recorded config (b :: hist) c₂) :
    Follows config (b :: hist) (x :: p :: rest) (x :: fed) c₂ := by
  have hr₁ := hs.recorded₁ hv
  have hxHeight := hx.height
  obtain ⟨hb₁Height, -⟩ := fields_eq (hs.content₁ hv)
  obtain ⟨k, a, hrelinked⟩ :=
    relinked_of_reorg hr₁.agree (hs.stored₁ hv) (by omega) hreorg
  refine hs.follows_of_kept hpow hv hr₂ (fun y₁ hy₁ _ => ?_) (fun n hn => ?_)
    (fun y hy hrecent => ?_) (fun n hn => ?_) (fun t ht => ?_)
  · rw [hrelinked.same.storedBlock]
    exact hy₁
  · rwa [hrelinked.same.levelAtHeight_isSome] at hn
  · exact hs.marked_of_reorg hpow hv hx htrunk hsub hfork hreorg hy hrecent
  · exact hs.unmarked_of_reorg hpow hv hx hreorg (hn x List.mem_cons_self)
  · cases ht
    rw [hrelinked.currentTip, hb₁Height]

omit hpow in
theorem follows_of_stayed (hpow : c₀.verifyPowAndParents b = .ok true) :
    Follows config (b :: hist) (t :: trunk) (x :: fed) c₁ := by
  refine hs.follows_of_kept hpow hv (hs.recorded₁ hv) (fun y₁ hy₁ _ => hy₁) (fun n hn => hn)
    (fun y hy hrecent => ?_) (fun n hn => ?_) (fun t' ht => ?_)
  · rw [hv.chainBlockAt]
    exact hs.marked₀ hy hrecent.tail
  · rw [hv.chainBlockAt]
    exact hs.unmarked₀ n hn
  · rw [hv.currentTip, hs.writes.currentTip]
    exact hs.follows.tip t' ht

end Receives

/-! ### Adding a block -/

/-- Everything that could keep a block from being verified is in order. -/
structure Acceptable (c₀ : P2Chain) (b : P2Block) : Prop where
  allowed : ¬ParentIsUncle b
  complete : (c₀.missingReferences b.height b.hash b.prevHash).missingBlocks.size = 0
  work : c₀.verifyPowAndParents b = .ok true
  room : b.height + maxUncleAge ≤ u64Max

theorem Receives.acceptable (hs : Receives config depth hist trunk fed c x b c₀)
    (hadds : Adds depth trunk fed x trunk') : Acceptable c₀ b := by
  obtain hx | ⟨p, us, hx⟩ := hadds.starts_or_joins
  · obtain ⟨-, -, -, -, htarget, hpow⟩ := fields_eq hs.content
    have hzero : b.height = 0 := hs.height_eq.trans hx.height
    have hlists : b.uncles = [] := hs.uncles_eq.trans hx.lists
    refine ⟨?_, ?_, ?_, ?_⟩
    · rw [ParentIsUncle, hlists]
      exact Bool.false_ne_true
    · exact (complete_iff hs.recorded₀.agree hs.stored).mpr fun hne => absurd hzero hne
    · have hwork : b.targetDifficulty = b.totalPow := by rw [htarget, hpow, hx.work]
      rw [verifyPowAndParents, if_neg (Nat.not_lt.mpr (htarget ▸ hx.target)), hlists]
      simp only [addUncleWork, if_pos hzero]
      rw [compareWork, if_pos hwork.symm, ite_self]
    · rw [hzero]
      decide
  · exact ⟨hs.not_parentIsUncle hx, hs.complete_of_joins hx, hs.verifyPowAndParents_of_joins hx,
      hs.height_eq ▸ hx.room⟩

theorem Receives.unnamed_of_adds (hs : Receives config depth hist trunk fed c x b c₀)
    (hadds : Adds depth trunk fed x trunk') : ∀ a ∈ b :: hist, ¬Names a b.hash := by
  refine hs.unnamed ?_
  obtain hx | ⟨p, us, hx⟩ := hadds.starts_or_joins
  · intro hnames
    obtain hprev | ⟨uncle, huncle, -⟩ := hnames
    · exact hx.nonzero (hprev.symm.trans hx.prevHash)
    · rw [hx.lists] at huncle
      cases huncle
  · exact not_names_self hx

theorem Receives.buildsOnTip_iff_parent (hs : Receives config depth hist (t :: trunk) fed c x b c₀)
    (hx : Joins depth fed x p us) : c₀.buildsOnTip b.header = true ↔ p = t := by
  rw [buildsOnTip_iff, hs.tipHash₀, P2Block.header_prevHash, hs.prevHash_eq, hx.prevHash]
  constructor
  · intro htip
    exact (hs.growth.distinct.eq hs.tip_mem hx.parent htip.2).symm
  · rintro rfl
    exact ⟨hs.tip_nonzero, rfl⟩

theorem Receives.checkUncles_of_extends (hs : Receives config depth hist (t :: trunk) fed c x b c₀)
    (hx : Joins depth fed x t us)
    (huncles : ∀ u ∈ us, u ∉ t :: trunk ∧ ∃ q ∈ t :: trunk, u.prevHash = q.hash) :
    c₀.checkUncles b.uncles = .ok () := by
  refine P2Chain.checkUncles_ok hs.recorded₀.agree fun uncle huncle => ?_
  rw [hs.uncles_eq, hx.lists] at huncle
  obtain ⟨u, hu, rfl⟩ := List.mem_map.mp huncle
  obtain ⟨u₁, q, q₁, hstored, hcontent, -, hq, hqRecent, hprev, hheight, hqStored⟩ := hs.uncle hx hu
  obtain ⟨hside, q', hq', hprev'⟩ := huncles u hu
  have hfed := hx.known u hu
  obtain ⟨-, -, -, hage⟩ := hx.uncles u hu
  rw [maxUncleAge] at hage
  have heq : q = q' :=
    hs.growth.distinct.eq hq (hs.growth.mem_of_trunk hq') (hprev.symm.trans hprev')
  refine ⟨by dsimp only; omega, hs.offMain₀ hfed hside (hs.recent_of_le hx (n := 3) hage
    (by omega)).tail, u₁, q₁, hstored, hqStored, ?_⟩
  dsimp only
  rw [(fields_eq hcontent).2.2.1, hprev, hheight, Nat.add_sub_cancel]
  exact hs.marked₀ (heq ▸ hq') hqRecent

theorem missingBlocks_combine {other : ChainAddResult} (h : other.missingBlocks = KeyedMap.empty) :
    (({} : ChainAddResult).combine ord 0 other).missingBlocks = KeyedMap.empty := by
  rw [ChainAddResult.combine, h, KeyedMap.values_empty, (ord.perm 0 []).eq_nil]
  rfl

/-- A block off the tip joins beside the end of the main chain, which it replaces if it is
heavier. -/
theorem Receives.offTip_cases (hs : Receives config depth hist trunk fed c x b c₀)
    (hadds : Adds depth trunk fed x trunk') (hoff : OffTip core c₀ b.height b.hash x₁ b₁ c₁) :
    ∃ t trunk₀ p us, trunk = t :: trunk₀ ∧ Joins depth fed x p us ∧
      ((trunk' = t :: trunk₀ ∧ x.totalPow ≤ t.totalPow) ∨
        ∃ rest, trunk' = x :: p :: rest ∧ t.totalPow < x.totalPow ∧
          ∀ y ∈ p :: rest, y.height + depth ≤ x.height → y ∈ t :: trunk₀) := by
  have hoffTip := hoff.offTip
  rw [hoff.buildsOnTip_eq, hs.eq_of_stored hoff.stored] at hoffTip
  cases hadds with
  | start hx =>
    refine absurd ⟨getTip_eq_none_iff.mpr ?_, hs.height_eq.trans hx.height⟩ hoff.notStart
    rw [tipHash, hoff.chainBlockAt]
    exact hs.unmarked₀ _ fun y hy => by cases hy
  | extend hx =>
    rw [(hs.buildsOnTip_iff_parent hx).mpr rfl] at hoffTip
    cases hoffTip
  | stay hx hp hlight => exact ⟨_, _, _, _, rfl, hx, Or.inl ⟨rfl, hlight⟩⟩
  | switch hx hp hheavy htrunk hfed hfork =>
    exact ⟨_, _, _, _, rfl, hx, Or.inr ⟨_, rfl, hheavy, hfork⟩⟩

theorem Receives.buildsOnTip_eq (hs : Receives config depth hist trunk fed c x b c₀)
    (hv : Checked core c₀ b.height b.hash x₁ b₁ c₁) :
    c₁.buildsOnTip b₁.header = c₀.buildsOnTip b.header := by
  rw [hv.buildsOnTip_eq, hs.eq_of_stored hv.stored]

/-- A block on the tip extends the main chain, and its uncles are accepted. -/
theorem Receives.onTip_cases (hs : Receives config depth hist trunk fed c x b c₀)
    (hadds : Adds depth trunk fed x trunk') (hv : Checked core c₀ b.height b.hash x₁ b₁ c₁)
    (honTip : c₁.buildsOnTip b₁.header = true) :
    trunk' = x :: trunk ∧ c₁.checkUncles b₁.uncles = .ok () := by
  rw [hs.buildsOnTip_eq hv] at honTip
  rw [hv.checkUncles_eq hs.recorded₀.agree, hv.uncles_eq, hs.eq_of_stored hv.stored]
  cases hadds with
  | start hx =>
    have hnone := hs.unmarked₀ c₀.currentTip fun y hy => by cases hy
    exact absurd hnone (buildsOnTip_iff.mp honTip).1
  | extend hx hlisted => exact ⟨rfl, hs.checkUncles_of_extends hx hlisted⟩
  | stay hx hp | switch hx hp => exact absurd ((hs.buildsOnTip_iff_parent hx).mp honTip) hp

theorem Receives.eq_of_height_zero (hs : Receives config depth hist trunk fed c x b c₀)
    (hadds : Adds depth trunk fed x trunk') (hzero : b.height = 0) : trunk' = x :: trunk := by
  rw [hs.height_eq] at hzero
  cases hadds with
  | start | extend => rfl
  | stay hx | switch hx =>
    have hheight := hx.height
    omega

/-- A candidate misses nothing and replaces the main chain if it is heavier. -/
theorem Receives.candidate_cases {result : ChainAddResult}
    (hs : Receives config depth hist trunk fed c x b c₀) (hadds : Adds depth trunk fed x trunk')
    (hpow : c₀.verifyPowAndParents b = .ok true)
    (hcandidate : Candidate core c₀ b.height b.hash x₁ b₁ c₁ result) :
    result = {} ∧ ∃ t trunk₀ p us, trunk = t :: trunk₀ ∧ Joins depth fed x p us ∧
      ((trunk' = t :: trunk₀ ∧ b₁.totalPow ≤ c₁.totalAccumulatedTipDifficulty) ∨
        ∃ rest, trunk' = x :: p :: rest ∧ c₁.totalAccumulatedTipDifficulty < b₁.totalPow ∧
          ∀ y ∈ p :: rest, y.height + depth ≤ x.height → y ∈ t :: trunk₀) := by
  have hchecked := hcandidate.toChecked
  obtain ⟨t, trunk₀, p, us, rfl, hx, hcases⟩ := hs.offTip_cases hadds hcandidate.toOffTip
  have hscan := hcandidate.scan
  rw [hs.scanAncestors_of_joins hchecked hpow hx, Except.ok.injEq, Prod.mk.injEq] at hscan
  obtain ⟨-, -, -, -, -, hbPow⟩ := fields_eq (hs.content₁ hchecked)
  rw [hchecked.totalPow_eq hs.recorded₀, hs.tipWork₀, hbPow]
  exact ⟨hscan.2.symm, t, trunk₀, p, us, rfl, hx, hcases⟩

/-- The visit of the next block of a growing chain queues nothing, misses nothing and has the main
chain. -/
theorem Receives.visit {r : EStateM.Result Fault P2Chain (ChainAddResult × List (Nat × FixedHash))}
    (hs : Receives config depth hist trunk fed c x b c₀) (hadds : Adds depth trunk fed x trunk')
    (ho : Outcome core ord 0 b.height b.hash c₀ r) :
    ∃ addResult c', r = .ok (addResult, []) c' ∧ addResult.missingBlocks = KeyedMap.empty ∧
      Follows config (b :: hist) trunk' (x :: fed) c' := by
  have hgrowth := hs.growth.add hadds
  have haccepted := hs.acceptable hadds
  have hpow := haccepted.work
  have hnext {c' : P2Chain} (hr' : Recorded config (b :: hist) c') :
      c'.childrenAndNephews ord 0 b.height b.hash = [] :=
    (hr'.unnamed (hs.unnamed_of_adds hadds)).childrenAndNephews_eq_nil hr'.agree
  have hrecorded {value : ChainAddResult × List (Nat × FixedHash)} {c' : P2Chain}
      (hr : r = .ok value c') : Recorded config (b :: hist) c' := by
    have hr' := hs.recorded₀.outcome ho (.of_ok hr)
    rwa [hr] at hr'
  cases ho with
  | absent habsent =>
    rw [hs.stored] at habsent
    cases habsent
  | overflow c' hover => exact absurd haccepted.room (Nat.not_le.mpr hover)
  | waiting hstored hmissing =>
    rw [hs.eq_of_stored hstored] at hmissing
    exact absurd haccepted.complete hmissing
  | refused hstored _ _ hrefused =>
    rw [hs.eq_of_stored hstored, runChecks_serverBypass hs.bypass₀, hpow] at hrefused
    cases hrefused
  | unverified hchecked _ hunverified =>
    rw [hs.verified₁ hpow hchecked] at hunverified
    cases hunverified
  | started hchecked _ hzero hmoves =>
    obtain rfl := hs.eq_of_height_zero hadds hzero
    exact ⟨_, _, rfl, rfl, hs.follows_of_moved hpow hchecked hmoves (hrecorded rfl)
      hgrowth.mainChain fun y => hgrowth.mem_of_trunk⟩
  | badUncles hchecked _ _ htip huncles =>
    rw [(hs.onTip_cases hadds hchecked htip).2] at huncles
    cases huncles
  | extended hchecked _ _ htip _ hmoves =>
    have hr₂ := hrecorded rfl
    obtain ⟨rfl, -⟩ := hs.onTip_cases hadds hchecked htip
    rw [hnext hr₂]
    exact ⟨_, _, rfl, rfl, hs.follows_of_moved hpow hchecked hmoves hr₂ hgrowth.mainChain
      fun y => hgrowth.mem_of_trunk⟩
  | scanFault hoff hscan =>
    obtain ⟨r, hok⟩ := scanAncestors_ok (windowRounds _) {} (hoff.level_isSome hs.recorded₀.agree)
    rw [hok] at hscan
    cases hscan
  | blocked hoff hscan hblocked =>
    obtain ⟨t, trunk₀, p, us, rfl, hx, -⟩ := hs.offTip_cases hadds hoff
    rw [hs.scanAncestors_of_joins hoff.toChecked hpow hx, Except.ok.injEq, Prod.mk.injEq] at hscan
    obtain ⟨rfl, rfl⟩ := hscan
    obtain hblocked | hblocked := hblocked
    · cases hblocked
    · exact absurd rfl hblocked
  | reorgFault hcandidate _ hreorg =>
    obtain ⟨-, t, trunk₀, p, us, rfl, hx, -⟩ := hs.candidate_cases hadds hpow hcandidate
    exact absurd hreorg (hs.reorg_ne_error hcandidate.toChecked hpow hx hcandidate)
  | stayed hcandidate hlight =>
    have hr₁ := hrecorded rfl
    obtain ⟨rfl, t, trunk₀, p, us, rfl, hx, hcases⟩ := hs.candidate_cases hadds hpow hcandidate
    rw [hnext hr₁]
    obtain ⟨rfl, -⟩ | ⟨rest, rfl, hheavy, -⟩ := hcases
    · exact ⟨_, _, rfl, rfl, hs.follows_of_stayed hcandidate.toChecked hpow⟩
    · exact absurd hlight (Nat.not_le.mpr hheavy)
  | reorganised hcandidate hheavier hreorg =>
    have hr₂ := hrecorded rfl
    obtain ⟨rfl, t, trunk₀, p, us, rfl, hx, hcases⟩ := hs.candidate_cases hadds hpow hcandidate
    rw [hnext hr₂]
    obtain ⟨rfl, hlight⟩ | ⟨rest, rfl, -, hfork⟩ := hcases
    · exact absurd hlight (Nat.not_le.mpr hheavier)
    · exact ⟨_, _, rfl, rfl, hs.follows_of_reorg hpow hcandidate.toChecked hx hgrowth.mainChain
        (fun y => hgrowth.mem_of_trunk) hfork hreorg hr₂⟩

/-- The call for the next block of a growing chain has its main chain. -/
theorem Receives.added (core : TariCore) (ord : IterOrder)
    (hs : Receives config depth hist trunk fed c x b c₀) (hadds : Adds depth trunk fed x trunk')
    (hinsert : c.insertBlock b = .ok c₀) :
    ∃ r c', addBlockToChain core ord b c = .ok r c' ∧ r.missingBlocks = KeyedMap.empty ∧
      Follows config (b :: hist) trunk' (x :: fed) c' := by
  have ho := outcome_verifyChainInner core ord 0 b.height b.hash hs.recorded₀.agree
  obtain ⟨addResult, c', hfirst, hempty, hfollows⟩ := hs.visit hadds ho
  exact ⟨_, c', addBlockToChain_of_first_visit (hs.acceptable hadds).allowed hs.follows.recorded
    hs.unused hinsert hfirst, missingBlocks_combine hempty, hfollows⟩

end P2Chain

end ShaP2Pool
