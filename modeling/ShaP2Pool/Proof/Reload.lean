import ShaP2Pool.Library.StableSort
import ShaP2Pool.Proof.Checks
import ShaP2Pool.Proof.Topmost
import ShaP2Pool.Sharechain.Storage

/-!
# Loading a chain again

A restart adds the stored blocks to an empty chain in order of height. Which of them are on the main
chain is not stored, so it is decided anew. Verified blocks stay as they are, blocks that would not
be verified stay out, and so the tip comes back if it is the heaviest block the load can choose and
nothing on the way stops it.
-/

namespace ShaP2Pool

namespace P2Chain

open Lineage

variable {core : TariCore} {ord : IterOrder} {config : ChainConfig} {hist : List P2Block}
  {c c' c'' c₀ c₁ c₂ : P2Chain} {b b₁ a p t x y : P2Block} {n i height : Nat} {hash : FixedHash}

def Loads (c : P2Chain) (x : P2Block) : Prop :=
  x ∈ c.blockCache.values ∧ x.verified.targetDifficulty = true

instance (c : P2Chain) (x : P2Block) : Decidable (c.Loads x) := inferInstanceAs (Decidable (_ ∧ _))

/-- The parent of a block is not loaded, nor an uncle, nor the parent of an uncle. -/
def LacksReference (c : P2Chain) (x : P2Block) : Prop :=
  x.height ≠ 0 ∧ ((∀ p, c.parentOf x = some p → ¬c.Loads p) ∨
    ∃ uncle ∈ x.uncles, ∀ u p, c.storedBlock uncle.1 uncle.2 = some u →
      c.storedBlock (uncle.1 - 1) u.prevHash = some p → c.Loads u → ¬c.Loads p)

def LoadedBefore : P2Block → P2Block → Prop := StableSort.Before P2Block.height P2Block.hash

theorem loads_iff (hc : c.StoresAgree) : c.Loads x ↔
    c.storedBlock x.height x.hash = some x ∧ x.verified.targetDifficulty = true := by
  rw [hc.storedBlock_eq_some_iff, KeyedMap.find?_eq_some_iff, Loads]
  simp

theorem Loads.stored (h : c.Loads x) (hc : c.StoresAgree) : c.storedBlock x.height x.hash = some x :=
  ((loads_iff hc).mp h).1

theorem loads_of_verified (hc : c.StoresAgree) (hx : c.storedBlock height hash = some x)
    (hverified : x.verified.isVerified = true) : c.Loads x := by
  refine (loads_iff hc).mpr ⟨?_, ?_⟩
  · rw [hc.height_of_storedBlock hx, hc.hash_of_storedBlock hx, hx]
  · simp only [VerifiedStatus.isVerified, Bool.and_eq_true] at hverified
    tauto

/-! ### What has been loaded -/

/-- `c'` stores what has been loaded of `c`, unchanged and, as far as the pruning spares it,
completely. -/
structure Mirrors (c : P2Chain) (hist : List P2Block) (c' : P2Chain) : Prop where
  agree : c'.StoresAgree
  config : c'.config = c.config
  loaded : ∀ x ∈ hist, c.Loads x
  sound : ∀ {height hash x}, c'.storedBlock height hash = some x → x ∈ hist
  kept : ∀ x ∈ hist, (∀ y ∈ hist, y.height < x.height + maxLevels c.config) →
    c'.storedBlock x.height x.hash = some x
  levels : ∀ height, (c'.levelAtHeight height).isSome = true → ∃ x ∈ hist, x.height = height

/-- `x` is next to be loaded after the blocks of `hist`. -/
structure NextToLoad (c : P2Chain) (hist : List P2Block) (x : P2Block) : Prop where
  loads : c.Loads x
  fresh : ∀ y ∈ hist, y.hash ≠ x.hash
  before : ∀ y ∈ hist, LoadedBefore y x
  after : ∀ y, c.Loads y → y ∈ hist ∨ LoadedBefore x y

theorem NextToLoad.mem_of_lower (hx : NextToLoad c hist x) (hy : c.Loads y)
    (hlt : y.height < x.height) : y ∈ hist := by
  obtain hmem | hbefore := hx.after y hy
  · exact hmem
  · have hle : x.height ≤ y.height := hbefore.major_le
    omega

theorem NextToLoad.height_le (hx : NextToLoad c hist x) (hy : y ∈ hist) : y.height ≤ x.height :=
  (hx.before y hy).major_le

namespace Mirrors

theorem newEmpty (c : P2Chain) : Mirrors c [] (newEmpty c.config) where
  agree := StoresAgree.newEmpty c.config
  config := rfl
  loaded x hx := by cases hx
  sound h := by cases h
  kept x hx := by cases hx
  levels height h := by cases h

theorem writes (hm : Mirrors c hist c') (hx : NextToLoad c hist x) (hw : Writes c' x c₀)
    (hunused : ∀ old, c'.blockCache.find? x.hash = some old → old.height = x.height) :
    Mirrors c (x :: hist) c₀ where
  agree := hw.storesAgree hm.agree hunused
  config := hw.config.trans hm.config
  loaded := List.forall_mem_cons.mpr ⟨hx.loads, hm.loaded⟩
  sound {height hash y} hy := by
    rw [hw.storedBlock hm.agree hunused] at hy
    split_ifs at hy
    · cases hy
      exact List.mem_cons_self
    · exact List.mem_cons_of_mem x (hm.sound hy)
  kept y hy hbound := by
    rw [hw.storedBlock hm.agree hunused]
    obtain rfl | hy := List.mem_cons.mp hy
    · rw [if_pos ⟨rfl, rfl⟩]
    · rw [if_neg (fun h => hx.fresh y hy h.2)]
      exact hm.kept y hy fun z hz => hbound z (List.mem_cons_of_mem x hz)
  levels height h := by
    rw [hw.levels, Bool.or_eq_true, decide_eq_true_eq] at h
    obtain rfl | h := h
    · exact ⟨x, List.mem_cons_self, rfl⟩
    · obtain ⟨y, hy, heq⟩ := hm.levels height h
      exact ⟨y, List.mem_cons_of_mem x hy, heq⟩

theorem sameBlocks (hm : Mirrors c hist c') (hs : SameBlocks c' c'') : Mirrors c hist c'' where
  agree := hs.storesAgree hm.agree
  config := hs.config.trans hm.config
  loaded := hm.loaded
  sound h := by
    rw [hs.storedBlock] at h
    exact hm.sound h
  kept x hx hbound := by
    rw [hs.storedBlock]
    exact hm.kept x hx hbound
  levels height h := by
    rw [hs.levelAtHeight_isSome] at h
    exact hm.levels height h

theorem cleanupChain (hm : Mirrors c hist c') : Mirrors c hist c'.cleanupChain := by
  have hp := Prunes.cleanupChain hm.agree
  refine ⟨hp.storesAgree hm.agree, hp.config.trans hm.config, hm.loaded,
    fun h => hm.sound (hp.storedBlock_of hm.agree h), fun x hx hbound => ?_, fun height h => ?_⟩
  · have hstored := hm.kept x hx hbound
    obtain ⟨level, hlevel, -⟩ := hm.agree.level_of_storedBlock hstored
    have hpos : 0 < maxLevels c.config := by
      have := hbound x hx
      omega
    have htop : NoLevelAbove c' (x.height + (maxLevels c.config - 1)) := by
      intro height hsome
      obtain ⟨y, hy, rfl⟩ := hm.levels height hsome
      have := hbound y hy
      omega
    have hle := htop.levelsAbove_le x.height
    have hspared : (c'.cleanupChain.levelAtHeight x.height).isSome = true := by
      rw [levelAtHeight_cleanupChain, hm.config, if_pos (by omega), hlevel, Option.isSome_some]
    rwa [hp.storedBlock hm.agree, if_pos hspared]
  · obtain hnone | heq := hp.level height
    · rw [hnone] at h
      cases h
    · rw [heq] at h
      exact hm.levels height h

/-! The lookups of what has been loaded are those of the chain that is loaded. -/

theorem storedBlock_of (hm : Mirrors c hist c') (hc : c.StoresAgree)
    (h : c'.storedBlock height hash = some x) : c.storedBlock height hash = some x := by
  have hstored := (hm.loaded x (hm.sound h)).stored hc
  rwa [hm.agree.height_of_storedBlock h, hm.agree.hash_of_storedBlock h] at hstored

theorem parentOf_of (hm : Mirrors c hist c') (hc : c.StoresAgree) (h : c'.parentOf x = some p) :
    c.parentOf x = some p := by
  rw [parentOf] at h ⊢
  split_ifs at h ⊢
  exact hm.storedBlock_of hc h

theorem ancestorOf_of (hm : Mirrors c hist c') (hc : c.StoresAgree)
    (h : c'.ancestorOf i x = some a) : c.ancestorOf i x = some a := by
  obtain ⟨a', ha', rfl⟩ := ancestor_rel (R := fun y z => y = z)
    (fun y z p heq hp => ⟨p, heq ▸ hm.parentOf_of hc hp, rfl⟩) rfl h
  exact ha'

theorem noLevelAbove (hm : Mirrors c hist c') (hx : NextToLoad c hist x) :
    NoLevelAbove c' x.height := by
  intro height hlevel
  obtain ⟨y, hy, rfl⟩ := hm.levels height hlevel
  exact hx.height_le hy

theorem parentOf_eq (hm : Mirrors c (x :: hist) c') (hc : c.StoresAgree) (hx : NextToLoad c hist x)
    (ha : a.height ≤ x.height) (hp : c.parentOf a = some p) (hverified : p.verified.isVerified = true)
    (hbound : x.height < p.height + maxLevels c.config) : c'.parentOf a = some p := by
  have hheight := height_of_parentOf hc hp
  have hmem : p ∈ hist :=
    hx.mem_of_lower (loads_of_verified hc (stored_of_parentOf hc hp) hverified) (by omega)
  have hkept := hm.kept p (List.mem_cons_of_mem x hmem) fun y hy => by
    obtain rfl | hy := List.mem_cons.mp hy
    · exact hbound
    · have := hx.height_le hy
      omega
  rw [parentOf, if_neg (by omega)]
  rwa [hash_of_parentOf hc hp, show p.height = a.height - 1 by omega] at hkept

end Mirrors

/-! ### Rooted blocks of what has been loaded -/

theorem Mirrors.ancestorOf_eq (hm : Mirrors c (x :: hist) c') (hc : c.StoresAgree)
    (hx : NextToLoad c hist x) (hb : b.height ≤ x.height)
    (hroot : ∀ j < n, ∀ y, c.ancestorOf j b = some y → y.height ≠ 0 →
      ∃ p, c.parentOf y = some p ∧ p.verified.isVerified = true)
    (ha : c.ancestorOf n b = some a) (hbound : x.height < a.height + maxLevels c.config) :
    c'.ancestorOf n b = some a := by
  induction n generalizing a with
  | zero => exact ha
  | succ n ih =>
    rw [ancestorOf, ancestor_succ'] at ha ⊢
    obtain ⟨y, hy, hparent⟩ := Option.bind_eq_some_iff.mp ha
    have hyHeight := height_of_ancestorOf hc hy
    have haHeight := height_of_parentOf hc hparent
    obtain ⟨p, hp, hverified⟩ := hroot n (by omega) y hy (by omega)
    rw [hparent, Option.some.injEq] at hp
    subst hp
    have hy' : ancestor c'.parentOf n b = some y :=
      ih (fun j hj => hroot j (by omega)) hy (by omega)
    rw [hy', Option.bind_some]
    exact hm.parentOf_eq hc hx (by omega) hparent hverified hbound

theorem windowRounds_lt (hwide : config.shareWindow < maxLevels config) :
    windowRounds config < maxLevels config := by
  have hlevels : 1 < maxLevels config := by
    simp only [maxLevels, safetyMargin, maxExtraSync]
    omega
  exact max_lt hlevels (by omega)

theorem Mirrors.rooted (hm : Mirrors c (x :: hist) c') (hc : c.StoresAgree)
    (hx : NextToLoad c hist x) (hwide : c.config.shareWindow < maxLevels c.config)
    (hroot : c.Rooted x) : c'.Rooted x := by
  intro i hi a ha hne
  rw [hm.config] at hi
  have hrounds := windowRounds_lt hwide
  have ha' := hm.ancestorOf_of hc ha
  have haHeight := height_of_ancestorOf hc ha'
  obtain ⟨p, hp, hverified⟩ := hroot i hi a ha' hne
  have hpHeight := height_of_parentOf hc hp
  exact ⟨p, hm.parentOf_eq hc hx (by omega) hp hverified (by omega), hverified⟩

/-! ### When the tip comes back -/

/-- What the stored blocks of a chain with the tip `t` must respect for the load to give it back. -/
structure Reloadable (c : P2Chain) (t : P2Block) : Prop where
  /-- the pruning of the load spares the share window -/
  wide : c.config.shareWindow < maxLevels c.config
  fits : ∀ x, c.Loads x → x.height + maxUncleAge ≤ u64Max
  /-- no block is verified by the load -/
  settled : ∀ x, c.Loads x → x.verified.isVerified = true ∨ c.LacksReference x ∨
    ((x.height = 0 → x.uncles = []) ∧ ∃ e, c.verifyPowAndParents x = .error (.error e))
  /-- no block of height 0 is put in the place of the one that is loaded first -/
  start : ∀ x y, c.Loads x → c.Loads y → x.verified.isVerified = true →
    y.verified.isVerified = true → x.height = 0 → y.height = 0 →
    (∀ z, c.Loads z → z.verified.isVerified = true → z.height = 0 → x.hash ≤ z.hash) → y ≠ x →
    y.totalPow ≤ x.totalPow ∧ y.prevHash ≠ x.hash
  verified : t.verified.isVerified = true
  rooted : c.Rooted t
  work : t.height ≠ 0 → AccumulatedDifficulty.min < t.totalPow
  heaviest : ∀ x, c.Loads x → x.verified.isVerified = true → c.Rooted x → x.totalPow ≤ t.totalPow
  leaf : ∀ x, c.Loads x → x.verified.isVerified = true → x.prevHash ≠ t.hash
  /-- the uncles of the tip are loaded before it and beside the main chain -/
  uncles : ∀ uncle ∈ t.uncles, uncle.1 ≠ 0 ∧ uncle.1 < t.height ∧
    t.height + 1 < uncle.1 + c.config.shareWindow ∧ c.chainBlockAt uncle.1 ≠ uncle.2 ∧
    ∃ u p, c.storedBlock uncle.1 uncle.2 = some u ∧
      c.storedBlock (uncle.1 - 1) u.prevHash = some p ∧ c.Loads u ∧ c.Loads p ∧
      c.chainBlockAt (uncle.1 - 1) = u.prevHash
  /-- the marks of the share window are the ancestors of the tip -/
  linked : ∀ i < c.config.shareWindow, ∀ a, c.ancestorOf i t = some a →
    c.chainBlockAt a.height = a.hash

/-! ### The verification of one loaded block -/

section Visit

variable (hc : c.StoresAgree) (hre : Reloadable c t) (hx : NextToLoad c hist x)
  (hm : Mirrors c (x :: hist) c₀)

include hc hx hm

omit hc in
theorem stored_of_nextToLoad : c₀.storedBlock x.height x.hash = some x := by
  refine hm.kept x List.mem_cons_self fun y hy => ?_
  have hpos : 0 < maxLevels c.config := by
    simp only [maxLevels, safetyMargin, maxExtraSync]
    omega
  obtain rfl | hy := List.mem_cons.mp hy
  · omega
  · have := hx.height_le hy
    omega

omit hx in
theorem not_lacksReference (hcomplete : c₀.Complete x) : ¬c.LacksReference x := by
  intro ⟨hne, hlacks⟩
  obtain ⟨⟨p, hp⟩, huncles⟩ := hcomplete hne
  obtain hparent | ⟨uncle, hmem, huncle⟩ := hlacks
  · refine hparent p (hm.parentOf_of hc hp) ?_
    rw [parentOf, if_neg hne] at hp
    exact hm.loaded p (hm.sound hp)
  · obtain ⟨u, q, hu, hq⟩ := huncles uncle hmem
    exact huncle u q (hm.storedBlock_of hc hu) (hm.storedBlock_of hc hq)
      (hm.loaded u (hm.sound hu)) (hm.loaded q (hm.sound hq))

omit hx in
theorem verifyPowAndParents_of_mirrors (hcomplete : c₀.Complete x)
    (hstart : x.height = 0 → x.uncles = []) :
    c₀.verifyPowAndParents x = c.verifyPowAndParents x := by
  refine verifyPowAndParents_congr hm.config (fun uncle hmem => ?_) fun hzero => ?_
  · by_cases hzero : x.height = 0
    · rw [hstart hzero] at hmem
      cases hmem
    · obtain ⟨u, -, hu, -⟩ := (hcomplete hzero).2 uncle hmem
      rw [hm.agree.getBlockAtHeight_of_storedBlock hu,
        hc.getBlockAtHeight_of_storedBlock (hm.storedBlock_of hc hu)]
  · obtain ⟨⟨p, hp⟩, -⟩ := hcomplete hzero
    have hp' := hm.parentOf_of hc hp
    rw [parentOf, if_neg hzero] at hp hp'
    rw [hm.agree.getBlockAtHeight_of_storedBlock hp, hc.getBlockAtHeight_of_storedBlock hp']

include hre

theorem error_of_unverified (hcomplete : c₀.Complete x) (hunverified : x.verified.isVerified = false) :
    ∃ e, c₀.runChecks core x = .error (.error e) := by
  obtain hverified | hlacks | ⟨hstart, e, he⟩ := hre.settled x hx.loads
  · rw [hunverified] at hverified
    cases hverified
  · exact absurd hlacks (not_lacksReference hc hm hcomplete)
  · refine ⟨e, runChecks_error_iff.mpr (Or.inl ?_)⟩
    rw [verifyPowAndParents_of_mirrors hc hm hcomplete hstart, he]

theorem eq_of_checked (hv : Checked core c₀ x.height x.hash b b₁ c₁) :
    b₁ = x ∧ c₁ = c₀ ∧ x.verified.isVerified = true := by
  have hb := hv.stored
  rw [stored_of_nextToLoad hx hm, Option.some.injEq] at hb
  subst hb
  obtain ⟨hverified, rfl, rfl⟩ | ⟨hunverified, v, hchecks, -⟩ := hv.written
  · exact ⟨rfl, rfl, hverified⟩
  · obtain ⟨e, he⟩ : ∃ e, c₀.runChecks core x = .error (.error e) :=
      error_of_unverified hc hre hx hm (hv.isComplete hm.agree) hunverified
    rw [hchecks] at he
    cases he

end Visit

/-! ### The tip of what has been loaded -/

/-- The tip is verified and rooted, and at height 0 it is the one that was loaded first. -/
structure TipBlock (c : P2Chain) (hist : List P2Block) (c' : P2Chain) (b : P2Block) : Prop where
  stored : c'.storedBlock c'.currentTip c'.tipHash = some b
  verified : b.verified.isVerified = true
  rooted : c.Rooted b
  first : b.height = 0 → ∀ y ∈ hist, y.height = 0 → y.verified.isVerified = true → b.hash ≤ y.hash

/-- What is known of the load after the blocks of `hist`. -/
structure Replays (core : TariCore) (c : P2Chain) (t : P2Block) (hist : List P2Block)
    (c' : P2Chain) : Prop where
  run : Run core c.config (LinksGuarded core) hist c'
  mirrors : Mirrors c hist c'
  tip : c'.tipHash ≠ FixedHash.zero → ∃ b, TipBlock c hist c' b
  unstarted : c'.tipHash = FixedHash.zero → ∀ y ∈ hist, y.height = 0 →
    y.verified.isVerified = false
  reached : t ∈ hist → c'.tipHash = t.hash ∧ c'.currentTip = t.height ∧
    ∀ i ≤ windowRounds c.config, ∀ a, c.ancestorOf i t = some a → c'.ancestorOf i t = some a

section Load

variable (hc : c.StoresAgree) (hre : Reloadable c t) (hrep : Replays core c t hist c')
  (hx : NextToLoad c hist x) (hd : Distinct (x :: hist)) (hw : Writes c' x c₀)

include hrep hx hw in
theorem Replays.mirrors_writes : Mirrors c (x :: hist) c₀ :=
  hrep.mirrors.writes hx hw (hrep.run.recorded.unused hx.fresh)

include hrep hx hw in
theorem Replays.linked_writes : MainChainLinked (x :: hist) c₀ :=
  hrep.run.mainChainLinked.writes hrep.run.recorded hx.fresh hw

include hrep hx hw in
theorem Replays.tip_writes (hb : TipBlock c hist c' b) :
    c₀.storedBlock c₀.currentTip c₀.tipHash = some b := by
  have hr := hrep.run.recorded
  have hmem := hrep.mirrors.sound hb.stored
  rw [hw.tipHash_eq, hw.currentTip, hw.storedBlock hr.agree (hr.unused hx.fresh),
    if_neg (fun h => hx.fresh b hmem ((hr.agree.hash_of_storedBlock hb.stored).trans h.2))]
  exact hb.stored

include hrep hx in
theorem Replays.tip_le (hb : TipBlock c hist c' b) : b.height ≤ x.height :=
  hx.height_le (hrep.mirrors.sound hb.stored)

theorem Replays.onMainChain (hrep : Replays core c t hist c') (hx : NextToLoad c hist x)
    (hw : Writes c' x c₀) (hb : TipBlock c hist c' b) (ha : c₀.ancestorOf n b = some a)
    (hn : n ≤ c.config.shareWindow - 1) (htip : c₀.tipHash ≠ FixedHash.zero) : OnMainChain c₀ a := by
  have hm := hrep.mirrors_writes hx hw
  have hstored := hrep.tip_writes hx hw hb
  have hheight := hm.agree.height_of_storedBlock hstored
  have hhash := hm.agree.hash_of_storedBlock hstored
  have haHeight := height_of_ancestorOf hm.agree ha
  have hlinked (height : Nat) (hlo : a.height < height) (hhi : height ≤ b.height) :
      LinkedAt (x :: hist) c₀ height := by
    refine (hrep.linked_writes hx hw).linked htip height ?_
    rw [hm.config]
    exact ⟨by omega, by omega⟩
  have hmain : OnMainChain c₀ b := by rw [OnMainChain, hheight, hhash, tipHash]
  exact onMainChain_of_linked (i := 0) (n := n) hm.agree (by rw [hheight, hhash, hstored]) rfl hmain
    (by rwa [Nat.zero_add]) hlinked

include hc in
/-- A tip to be that has passed the search is rooted. -/
theorem Replays.rooted_of_candidate (hrep : Replays core c t hist c') (hx : NextToLoad c hist x)
    (hd : Distinct (x :: hist)) (hw : Writes c' x c₀) (hwide : c.config.shareWindow < maxLevels c.config)
    {result : ChainAddResult}
    (hscan : c₀.scanAncestors (windowRounds c₀.config) x.header {} = .ok (true, result))
    (hnone : result.missingBlocks.size = 0) : c.Rooted x := by
  have hm := hrep.mirrors_writes hx hw
  have hl := hrep.linked_writes hx hw
  have hxStored := stored_of_nextToLoad hx hm
  have hrounds := windowRounds_lt hwide
  intro i
  induction i using Nat.strong_induction_on with
  | _ i ih =>
    intro hi a ha hne
    have haHeight := height_of_ancestorOf hc ha
    have ha₀ : c₀.ancestorOf i x = some a :=
      hm.ancestorOf_eq hc hx le_rfl (fun j hj => ih j hj (by omega)) ha (by omega)
    by_cases hside : ∀ j < i, ∀ m, c₀.ancestorOf j x = some m → c₀.chainBlockAt m.height ≠ m.hash
    · obtain ⟨p, hp, hverified⟩ := verified_of_scanAncestors hm.agree hxStored hscan hnone
        (by rwa [hm.config]) ha₀ hne hside
      exact ⟨p, hm.parentOf_of hc hp, hverified⟩
    · -- below a block of the main chain the ancestors are those of the tip
      push Not at hside
      obtain ⟨j, hj, m, hmj, hmark⟩ := hside
      have hmStored := stored_of_ancestorOf hm.agree hxStored hmj
      have hmHeight := height_of_ancestorOf hm.agree hmj
      have hmarked : c₀.chainBlockAt m.height ≠ FixedHash.zero := by
        rw [hmark]
        exact hd.nonzero m (hm.sound hmStored)
      have htip : c₀.tipHash ≠ FixedHash.zero := fun hzero => hmarked (hl.unmarked hzero m.height)
      have hmTip : m.height ≤ c₀.currentTip := by
        by_contra hgt
        exact hmarked (hl.above m.height (by omega))
      obtain ⟨b, hb⟩ := hrep.tip (by rwa [← hw.tipHash_eq])
      have hbLe := hrep.tip_le hx hb
      have hbHeight := hm.agree.height_of_storedBlock (hrep.tip_writes hx hw hb)
      obtain ⟨a', ha', -⟩ := exists_ancestorOf_of_rooted hc hb.rooted
        (show b.height - m.height ≤ windowRounds c.config by omega) (by omega)
      have ha'Height := height_of_ancestorOf hc ha'
      have ha'₀ : c₀.ancestorOf (b.height - m.height) b = some a' :=
        hm.ancestorOf_eq hc hx hbLe (fun k hk => hb.rooted k (by omega)) ha' (by omega)
      have hsame : a' = m := by
        have hrounds' := windowRounds_cases c.config
        have hmain := hrep.onMainChain hx hw hb ha'₀ (by omega) htip
        rw [OnMainChain, show a'.height = m.height by omega, hmark] at hmain
        have hbStored := (hrep.mirrors.loaded b (hrep.mirrors.sound hb.stored)).stored hc
        have ha'Stored := stored_of_ancestorOf hc hbStored ha'
        have hmc := hm.storedBlock_of hc hmStored
        rw [hmain, show m.height = a'.height by omega, ha'Stored, Option.some.injEq] at hmc
        exact hmc
      subst hsame
      obtain ⟨z, hz, hrest⟩ := exists_ancestor_of_le hj.le ha
      have hmj' := hm.ancestorOf_of hc hmj
      rw [show ancestor c.parentOf j x = some a' from hmj', Option.some.injEq] at hz
      subst hz
      refine hb.rooted (b.height - a'.height + (i - j)) (by omega) a ?_ hne
      rw [ancestorOf, ancestor_trans (show ancestor c.parentOf (b.height - a'.height) b = some a'
        from ha')]
      exact hrest

theorem Replays.start_le (hre : Reloadable c t) (hrep : Replays core c t hist c')
    (hx : NextToLoad c hist x) (hb : TipBlock c hist c' b) (hzero : x.height = 0)
    (hverified : x.verified.isVerified = true) : x.totalPow ≤ b.totalPow ∧ x.prevHash ≠ b.hash := by
  have hmem := hrep.mirrors.sound hb.stored
  have hbZero : b.height = 0 := by
    have := hrep.tip_le hx hb
    omega
  have hbx : b.hash ≤ x.hash := by
    obtain hlt | ⟨-, hle⟩ := hx.before b hmem
    · omega
    · exact hle
  refine hre.start b x (hrep.mirrors.loaded b hmem) hx.loads hb.verified hverified hbZero hzero
    (fun z hz hzVerified hzZero => ?_) (fun heq => hx.fresh b hmem (by rw [heq]))
  obtain hzMem | hlt | ⟨-, hle⟩ := hx.after z hz
  · exact hb.first hbZero z hzMem hzZero hzVerified
  · omega
  · exact hbx.trans hle

end Load

section Target

variable (hc : c.StoresAgree) (hre : Reloadable c t) (hrep : Replays core c t hist c')
  (hx : NextToLoad c hist t) (hw : Writes c' t c₀)

include hc hre hrep hx hw

theorem Replays.complete_target : c₀.Complete t := by
  have hm := hrep.mirrors_writes hx hw
  have hrounds := windowRounds_lt hre.wide
  intro hne
  constructor
  · have hone : 1 ≤ windowRounds c.config := le_max_left _ _
    obtain ⟨p, hp, hverified⟩ := hre.rooted 0 (by omega) t rfl hne
    have hpHeight := height_of_parentOf hc hp
    exact ⟨p, hm.parentOf_eq hc hx le_rfl hp hverified (by omega)⟩
  · intro uncle hmem
    obtain ⟨hnonzero, hlower, hyoung, -, u, p, hu, hp, huLoads, hpLoads, -⟩ := hre.uncles uncle hmem
    have huHeight := hc.height_of_storedBlock hu
    have hpHeight := hc.height_of_storedBlock hp
    have hwide := hre.wide
    have hkept {y : P2Block} (hy : c.Loads y) (hlt : y.height < t.height)
        (hbound : t.height < y.height + maxLevels c.config) :
        c₀.storedBlock y.height y.hash = some y :=
      hm.kept y (List.mem_cons_of_mem t (hx.mem_of_lower hy hlt)) fun z hz => by
        obtain rfl | hz := List.mem_cons.mp hz
        · exact hbound
        · have := hx.height_le hz
          omega
    have hu₀ := hkept huLoads (by omega) (by omega)
    have hp₀ := hkept hpLoads (by omega) (by omega)
    rw [huHeight, hc.hash_of_storedBlock hu] at hu₀
    rw [hpHeight, hc.hash_of_storedBlock hp] at hp₀
    exact ⟨u, p, hu₀, hp₀⟩

theorem Replays.mark_target (hb : TipBlock c hist c' b) (htip : c₀.tipHash ≠ FixedHash.zero)
    (hparent : c₀.parentOf t = some b) (hlt : height < t.height)
    (hwindow : t.height - height < c.config.shareWindow) :
    c₀.chainBlockAt height = c.chainBlockAt height := by
  have hm := hrep.mirrors_writes hx hw
  have hwide := hre.wide
  have hrounds := windowRounds_cases c.config
  obtain ⟨a, ha, -⟩ := exists_ancestorOf_of_rooted hc hre.rooted
    (show t.height - height ≤ windowRounds c.config by omega) (by omega)
  have haHeight := height_of_ancestorOf hc ha
  have ha₀ := hm.ancestorOf_eq hc hx le_rfl (fun j hj => hre.rooted j (by omega)) ha (by omega)
  rw [show t.height - height = (t.height - height - 1) + 1 by omega, ancestorOf, ancestor_succ,
    hparent, Option.bind_some] at ha₀
  have hmain := hrep.onMainChain hx hw hb ha₀ (by omega) htip
  have hmark := hre.linked _ hwindow a ha
  rw [OnMainChain] at hmain
  rw [show height = a.height by omega, hmain, hmark]

theorem Replays.checkUncles_target (hb : TipBlock c hist c' b) (htip : c₀.tipHash ≠ FixedHash.zero)
    (hparent : c₀.parentOf t = some b) : c₀.checkUncles t.uncles = .ok () := by
  have hm := hrep.mirrors_writes hx hw
  have hcomplete := hrep.complete_target hc hre hx hw
  have hne : t.height ≠ 0 := by
    have := height_of_parentOf hm.agree hparent
    omega
  refine checkUncles_ok hm.agree fun uncle hmem => ?_
  obtain ⟨hnonzero, hlower, hyoung, hbeside, u, p, hu, hp, -, -, hmark⟩ := hre.uncles uncle hmem
  obtain ⟨u₀, p₀, hu₀, hp₀⟩ := (hcomplete hne).2 uncle hmem
  have hsame := hm.storedBlock_of hc hu₀
  rw [hu, Option.some.injEq] at hsame
  subst hsame
  refine ⟨hnonzero, ?_, u, p₀, hu₀, hp₀, ?_⟩
  · rwa [hrep.mark_target hc hre hx hw hb htip hparent hlower (by omega)]
  · rwa [hrep.mark_target hc hre hx hw hb htip hparent (show uncle.1 - 1 < t.height by omega)
      (by omega)]

omit hc in
theorem Replays.pow_lt_target (hdistinct : ∀ x y, c.Loads x → c.Loads y → x.totalPow = y.totalPow → x = y)
    (hnotStart : ¬(c₀.getTip = none ∧ t.height = 0)) :
    c₀.totalAccumulatedTipDifficulty < t.totalPow := by
  have hm := hrep.mirrors_writes hx hw
  by_cases htip : c₀.tipHash = FixedHash.zero
  · rw [totalPow_of_no_tip htip]
    exact hre.work fun hzero => hnotStart ⟨getTip_eq_none_iff.mpr htip, hzero⟩
  · obtain ⟨b, hb⟩ := hrep.tip (by rwa [← hw.tipHash_eq])
    have hmem := hrep.mirrors.sound hb.stored
    have hloads := hrep.mirrors.loaded b hmem
    have hle := hre.heaviest b hloads hb.verified hb.rooted
    have hne : b.totalPow ≠ t.totalPow := fun heq =>
      hx.fresh b hmem (by rw [hdistinct b t hloads hx.loads heq])
    rw [totalPow_of_tip hm.agree htip (hrep.tip_writes hx hw hb)]
    exact lt_of_le_of_ne hle hne

end Target

/-! ### One step of the load -/

/-- The tip stays where it was. -/
structure Stays (t x : P2Block) (c₀ c'' : P2Chain) : Prop where
  state : c'' = c₀
  other : x ≠ t
  started : x.height = 0 → x.verified.isVerified = true → c₀.tipHash ≠ FixedHash.zero

structure MovedTo (c : P2Chain) (t : P2Block) (hist : List P2Block) (x : P2Block)
    (c₀ c'' : P2Chain) : Prop where
  mirrors : Mirrors c (x :: hist) c''
  currentTip : c''.currentTip = x.height
  tipHash : c''.tipHash = x.hash
  verified : x.verified.isVerified = true
  rooted : c.Rooted x
  unreached : t ∉ hist
  first : x.height = 0 → c₀.tipHash = FixedHash.zero

theorem reorg_error_cases {block : P2BlockHeader} {fault : Fault} {level : P2ChainLevel}
    (hlevel : c.levelAtHeight block.height = some level) (h : c.reorg block = .error fault) :
    fault = .panic .overflow ∨ fault = .panic .corruptedChain := by
  obtain ⟨cStart, -, heq⟩ := reorg_cases block hlevel
  rw [heq] at h
  cases hreset : resetLinksAbove (cStart.levels.size + 1) cStart block.height with
  | error fault' =>
    simp only [hreset, Except.error.injEq] at h
    exact Or.inl (h ▸ resetLinksAbove_error hreset)
  | ok cReset =>
    simp only [hreset] at h
    cases hrelink : relinkAncestors (windowRounds cReset.config) cReset block
        (Window.empty.pushFront (block.timestamp, block.targetDifficulty)) with
    | error fault' =>
      simp only [hrelink, Except.error.injEq] at h
      exact Or.inr (h ▸ relinkAncestors_error hrelink)
    | ok linked =>
      simp only [hrelink] at h
      cases h

theorem tipHash_of_moved (hc : c₀.StoresAgree) (htop : NoLevelAbove c₀ x.height)
    (hx : c₀.storedBlock x.height x.hash = some x) (hm : MovesTip c₀ x c₂) :
    c₂.cleanupChain.currentTip = x.height ∧ c₂.cleanupChain.tipHash = x.hash := by
  have hc₂ := hm.same.storesAgree hc
  have hp := Prunes.cleanupChain hc₂
  have htip : c₂.cleanupChain.currentTip = x.height := hp.currentTip.trans hm.currentTip
  refine ⟨htip, ?_⟩
  have htop₂ : NoLevelAbove c₂ x.height := fun height h => htop height (by
    rwa [hm.same.levelAtHeight_isSome] at h)
  have hle := htop₂.levelsAbove_le x.height
  have hspared : (c₂.cleanupChain.levelAtHeight x.height).isSome = true := by
    obtain ⟨level, hlevel, -⟩ := hc.level_of_storedBlock hx
    rw [levelAtHeight_cleanupChain, if_pos (by
      simp only [maxLevels, safetyMargin, maxExtraSync]
      omega), hm.same.levelAtHeight_isSome, hlevel, Option.isSome_some]
  rw [tipHash, htip, hp.chainBlockAt, if_pos hspared, hm.chainBlockAt, if_pos rfl]

section Step

variable (hc : c.StoresAgree) (hre : Reloadable c t)
  (hdistinct : ∀ x y, c.Loads x → c.Loads y → x.totalPow = y.totalPow → x = y)
  (hrep : Replays core c t hist c') (hx : NextToLoad c hist x) (hd : Distinct (x :: hist))
  (hw : Writes c' x c₀)

include hc hre hrep hx

section Written

include hw

omit hc in
theorem Replays.parent_of_onTip (hcomplete : c₀.Complete x) (hverified : x.verified.isVerified = true)
    (honTip : c₀.buildsOnTip x.header = true) : x.height ≠ 0 ∧
      c₀.tipHash ≠ FixedHash.zero ∧ c₀.tipHash = x.prevHash ∧
      ∃ b, TipBlock c hist c' b ∧ c₀.parentOf x = some b := by
  have hm := hrep.mirrors_writes hx hw
  have hr₀ := hrep.run.recorded.writes (hrep.run.recorded.unused hx.fresh) hw
  obtain ⟨htip, hprev⟩ := buildsOnTip_iff.mp honTip
  obtain ⟨b, hb⟩ := hrep.tip (by rwa [← hw.tipHash_eq])
  have hbStored := hrep.tip_writes hx hw hb
  have hne : x.height ≠ 0 := fun hzero => (hrep.start_le hre hx hb hzero hverified).2 (by
    rw [hm.agree.hash_of_storedBlock hbStored]
    exact hprev.symm)
  obtain ⟨tip, htipStored, -, hparent⟩ := hr₀.parentOf_of_buildsOnTip honTip
  obtain ⟨⟨p, hp⟩, -⟩ := hcomplete hne
  rw [hbStored, Option.some.injEq] at htipStored
  subst htipStored
  exact ⟨hne, htip, hprev, b, hb, by rw [hp, hparent p hp]⟩

omit hc in
theorem Replays.height_ne_zero_of_heavier (hverified : x.verified.isVerified = true)
    (hnotStart : ¬(c₀.getTip = none ∧ x.height = 0))
    (hpow : c₀.totalAccumulatedTipDifficulty < x.totalPow) : x.height ≠ 0 := by
  intro hzero
  have hm := hrep.mirrors_writes hx hw
  have htip : c₀.tipHash ≠ FixedHash.zero :=
    fun h => hnotStart ⟨getTip_eq_none_iff.mpr h, hzero⟩
  obtain ⟨b, hb⟩ := hrep.tip (by rwa [← hw.tipHash_eq])
  rw [totalPow_of_tip hm.agree htip (hrep.tip_writes hx hw hb)] at hpow
  exact absurd (hrep.start_le hre hx hb hzero hverified).1 (not_le.mpr hpow)

theorem Replays.reorg_ne_error {result : ChainAddResult} {fault : Fault} (hd : Distinct (x :: hist))
    (hcandidate : Candidate core c₀ x.height x.hash b b₁ c₁ result)
    (hpow : c₁.totalAccumulatedTipDifficulty < b₁.totalPow) :
    c₁.reorg b₁.header ≠ .error fault := by
  intro hreorg
  have hm := hrep.mirrors_writes hx hw
  have hxStored := stored_of_nextToLoad hx hm
  have htop := (hrep.mirrors.noLevelAbove hx).writes hw
  have hnotStart := hcandidate.notStart
  have hscan := hcandidate.scan
  have hnone := hcandidate.noneMissing
  have hcorrupted := fun h => hcandidate.reorg_ne_corrupted hm.agree h
  obtain ⟨rfl, rfl, hverified⟩ := eq_of_checked hc hre hx hm hcandidate.toChecked
  have hroot := hm.rooted hc hx hre.wide (hrep.rooted_of_candidate hc hx hd hw hre.wide hscan hnone)
  have hne := hrep.height_ne_zero_of_heavier hre hx hw hverified hnotStart hpow
  obtain ⟨level, hlevel, -⟩ := hm.agree.level_of_storedBlock hxStored
  obtain rfl | rfl := reorg_error_cases hlevel hreorg
  · -- the levels do not go up to the last height
    have hfull := (reorg_overflow_iff hlevel).mp hreorg
    have hfits := hre.fits _ hx.loads
    have hlast := htop u64Max (hfull u64Max (Nat.min_le_right _ _) le_rfl)
    rw [maxUncleAge] at hfits
    omega
  · refine absurd hreorg (hcorrupted ⟨fun h => absurd h hne, fun i j m a hj hi _ _ ha hne _ _ => ?_⟩)
    obtain ⟨p, hp, -⟩ := hroot i hi a ha hne
    exact ⟨p, hp⟩

theorem Replays.unreached_of_heavier (hd : Distinct (x :: hist))
    (hverified : x.verified.isVerified = true) (hroot : c.Rooted x)
    (hpow : c₀.totalAccumulatedTipDifficulty < x.totalPow) : t ∉ hist := by
  intro hmem
  have hm := hrep.mirrors_writes hx hw
  obtain ⟨hhash, hcurrent, -⟩ := hrep.reached hmem
  have htStored := (hrep.mirrors.loaded t hmem).stored hc
  have htip : c₀.tipHash ≠ FixedHash.zero := by
    rw [hw.tipHash_eq, hhash]
    exact hd.nonzero t (List.mem_cons_of_mem _ hmem)
  obtain ⟨b, hb⟩ := hrep.tip (by rwa [← hw.tipHash_eq])
  have hbStored := hm.storedBlock_of hc (hrep.tip_writes hx hw hb)
  rw [hw.currentTip, hw.tipHash_eq, hcurrent, hhash, htStored, Option.some.injEq] at hbStored
  rw [totalPow_of_tip hm.agree htip (hrep.tip_writes hx hw hb), ← hbStored] at hpow
  exact absurd hpow (not_lt.mpr (hre.heaviest _ hx.loads hverified hroot))

theorem Replays.stays_of_missing (hmissing : ¬c₀.Complete x) : Stays t x c₀ c₀ := by
  refine ⟨rfl, ?_, fun hzero => absurd (fun hne => absurd hzero hne) hmissing⟩
  rintro rfl
  exact hmissing (hrep.complete_target hc hre hx hw)

omit hc hrep hx hw in
theorem Reloadable.stays_of_unverified (hunverified : x.verified.isVerified = false) :
    Stays t x c₀ c₀ := by
  refine ⟨rfl, ?_, fun _ h => ?_⟩
  · rintro rfl
    rw [hre.verified] at hunverified
    cases hunverified
  · rw [h] at hunverified
    cases hunverified

theorem Replays.stays_of_badUncles {fault : Fault} (hcomplete : c₀.Complete x)
    (hverified : x.verified.isVerified = true) (honTip : c₀.buildsOnTip x.header = true)
    (huncles : c₀.checkUncles x.uncles = .error fault) : Stays t x c₀ c₀ := by
  obtain ⟨-, htip, -, b, hb, hparent⟩ := hrep.parent_of_onTip hre hx hw hcomplete hverified honTip
  refine ⟨rfl, ?_, fun _ _ => htip⟩
  rintro rfl
  rw [hrep.checkUncles_target hc hre hx hw hb htip hparent] at huncles
  cases huncles

theorem Replays.stays_of_blocked {allVerified : Bool} {result : ChainAddResult}
    (hnotStart : ¬(c₀.getTip = none ∧ x.height = 0))
    (hscan : c₀.scanAncestors (windowRounds c₀.config) x.header {} = .ok (allVerified, result))
    (hblocked : allVerified = false ∨ result.missingBlocks.size ≠ 0) : Stays t x c₀ c₀ := by
  have hm := hrep.mirrors_writes hx hw
  refine ⟨rfl, ?_, fun hzero _ h => hnotStart ⟨getTip_eq_none_iff.mpr h, hzero⟩⟩
  rintro rfl
  rw [scanAncestors_of_verified hm.agree (stored_of_nextToLoad hx hm)
    (hm.rooted hc hx hre.wide hre.rooted)] at hscan
  cases hscan
  exact hblocked.elim (fun h => by cases h) fun h => h rfl

omit hc hre in
include hd in
theorem Replays.movedTo_of_started (hverified : x.verified.isVerified = true)
    (htip : c₀.getTip = none) (hzero : x.height = 0) (hmoves : MovesTip c₀ x c₂) :
    MovedTo c t hist x c₀ c₂.cleanupChain := by
  have hm := hrep.mirrors_writes hx hw
  obtain ⟨hcurrent, hhash⟩ := tipHash_of_moved hm.agree ((hrep.mirrors.noLevelAbove hx).writes hw)
    (stored_of_nextToLoad hx hm) hmoves
  have hnone := getTip_eq_none_iff.mp htip
  refine ⟨(hm.sameBlocks hmoves.same).cleanupChain, hcurrent, hhash, hverified,
    rooted_of_height_zero hzero, fun hmem => ?_, fun _ => hnone⟩
  refine hd.nonzero t (List.mem_cons_of_mem _ hmem) ?_
  rw [← (hrep.reached hmem).1, ← hw.tipHash_eq, hnone]

theorem Replays.movedTo_of_extended (hcomplete : c₀.Complete x)
    (hverified : x.verified.isVerified = true) (honTip : c₀.buildsOnTip x.header = true)
    (hmoves : MovesTip c₀ x c₂) : MovedTo c t hist x c₀ c₂.cleanupChain := by
  have hm := hrep.mirrors_writes hx hw
  obtain ⟨hne, htip, hprev, b, hb, hparent⟩ :=
    hrep.parent_of_onTip hre hx hw hcomplete hverified honTip
  obtain ⟨hcurrent, hhash⟩ := tipHash_of_moved hm.agree ((hrep.mirrors.noLevelAbove hx).writes hw)
    (stored_of_nextToLoad hx hm) hmoves
  refine ⟨(hm.sameBlocks hmoves.same).cleanupChain, hcurrent, hhash, hverified,
    hb.rooted.of_parent (hm.parentOf_of hc hparent) hb.verified, fun hmem => ?_,
    fun hzero => absurd hzero hne⟩
  -- no verified block stands on the tip that is loaded
  refine hre.leaf _ hx.loads hverified ?_
  rw [← hprev, hw.tipHash_eq, (hrep.reached hmem).1]

include hd in
theorem Replays.movedTo_of_reorg {result : ChainAddResult}
    (hcandidate : Candidate core c₀ x.height x.hash b b₁ c₁ result)
    (hpow : c₁.totalAccumulatedTipDifficulty < b₁.totalPow) (hreorg : c₁.reorg b₁.header = .ok c₂) :
    MovedTo c t hist x c₀ c₂ := by
  have hm := hrep.mirrors_writes hx hw
  have hnotStart := hcandidate.notStart
  have hscan := hcandidate.scan
  have hnone := hcandidate.noneMissing
  have hreorganises := hcandidate.reorganises hm.agree hreorg
  obtain ⟨rfl, rfl, hverified⟩ := eq_of_checked hc hre hx hm hcandidate.toChecked
  have hroot := hrep.rooted_of_candidate hc hx hd hw hre.wide hscan hnone
  have hne := hrep.height_ne_zero_of_heavier hre hx hw hverified hnotStart hpow
  have hmark := hreorganises.tipMark.resolve_right fun h => hne h.1
  refine ⟨hm.sameBlocks hreorganises.same, hreorganises.currentTip, ?_, hverified, hroot,
    hrep.unreached_of_heavier hc hre hx hw hd hverified hroot hpow, fun hzero => absurd hzero hne⟩
  show c₂.chainBlockAt c₂.currentTip = b₁.hash
  rw [hreorganises.currentTip]
  exact hmark

include hdistinct hd

/-- The verification of the next block returns, and leaves the tip or moves it to that block. -/
theorem Replays.visit
    {r : EStateM.Result Fault P2Chain (ChainAddResult × List (Nat × FixedHash))}
    (ho : Outcome core ord 0 x.height x.hash c₀ r) :
    Returns r ∧ (Stays t x c₀ r.state ∨ MovedTo c t hist x c₀ r.state) := by
  have hm := hrep.mirrors_writes hx hw
  have hxStored := stored_of_nextToLoad hx hm
  have hchecked {b b₁ : P2Block} {c₁ : P2Chain}
      (hv : Checked core c₀ x.height x.hash b b₁ c₁) := eq_of_checked hc hre hx hm hv
  have hcompleteOf {b b₁ : P2Block} {c₁ : P2Chain}
      (hv : Checked core c₀ x.height x.hash b b₁ c₁) : c₀.Complete x := by
    have hcomplete := hv.isComplete hm.agree
    have hb := hv.stored
    rw [hxStored, Option.some.injEq] at hb
    rwa [hb]
  cases ho with
  | absent habsent =>
    rw [hxStored] at habsent
    cases habsent
  | overflow c'' hheight =>
    have := hre.fits x hx.loads
    omega
  | waiting hstored hmissing =>
    rw [hxStored, Option.some.injEq] at hstored
    subst hstored
    rw [Ne, complete_iff hm.agree hxStored] at hmissing
    exact ⟨.of_ok rfl, Or.inl (hrep.stays_of_missing hc hre hx hw hmissing)⟩
  | refused hstored hcomplete hunverified hchecks =>
    rw [hxStored, Option.some.injEq] at hstored
    subst hstored
    rw [complete_iff hm.agree hxStored] at hcomplete
    obtain ⟨e, he⟩ : ∃ e, c₀.runChecks core x = .error (.error e) :=
      error_of_unverified hc hre hx hm hcomplete hunverified
    rw [he] at hchecks
    cases hchecks
    exact ⟨.of_error rfl, Or.inl (hre.stays_of_unverified hunverified)⟩
  | started hv htip hheight hmoves =>
    obtain ⟨rfl, rfl, hverified⟩ := hchecked hv
    exact ⟨.of_ok rfl,
      Or.inr (hrep.movedTo_of_started hx hd hw hverified htip hheight hmoves)⟩
  | unverified hv hnotStart hunverified =>
    obtain ⟨rfl, rfl, hverified⟩ := hchecked hv
    rw [hverified] at hunverified
    cases hunverified
  | badUncles hv hnotStart hverified honTip huncles =>
    have hcomplete := hcompleteOf hv
    obtain ⟨rfl, rfl, -⟩ := hchecked hv
    have hstays := hrep.stays_of_badUncles hc hre hx hw hcomplete hverified honTip huncles
    obtain ⟨e, rfl⟩ := checkUncles_error huncles
    exact ⟨.of_error rfl, Or.inl hstays⟩
  | extended hv hnotStart hverified honTip huncles hmoves =>
    have hcomplete := hcompleteOf hv
    obtain ⟨rfl, rfl, -⟩ := hchecked hv
    exact ⟨.of_ok rfl,
      Or.inr (hrep.movedTo_of_extended hc hre hx hw hcomplete hverified honTip hmoves)⟩
  | scanFault hoff hscan =>
    obtain ⟨result, hresult⟩ := scanAncestors_ok (windowRounds _) {} (hoff.level_isSome hm.agree)
    rw [hresult] at hscan
    cases hscan
  | blocked hoff hscan hblocked =>
    have hnotStart := hoff.notStart
    obtain ⟨rfl, rfl, -⟩ := hchecked hoff.toChecked
    exact ⟨.of_ok rfl, Or.inl (hrep.stays_of_blocked hc hre hx hw hnotStart hscan hblocked)⟩
  | stayed hcandidate hpow =>
    have hnotStart := hcandidate.notStart
    obtain ⟨rfl, rfl, hverified⟩ := hchecked hcandidate.toChecked
    refine ⟨.of_ok rfl, Or.inl ⟨rfl, ?_, fun hzero _ h =>
      hnotStart ⟨getTip_eq_none_iff.mpr h, hzero⟩⟩⟩
    rintro rfl
    exact absurd hpow (not_le.mpr (hrep.pow_lt_target hre hx hw hdistinct hnotStart))
  | reorgFault hcandidate hpow hreorg =>
    exact absurd hreorg (hrep.reorg_ne_error hc hre hx hw hd hcandidate hpow)
  | reorganised hcandidate hpow hreorg =>
    exact ⟨.of_ok rfl, Or.inr (hrep.movedTo_of_reorg hc hre hx hd hw hcandidate hpow hreorg)⟩

end Written

include hdistinct hd

/-- The next block is loaded, and what is known of the load stays true. -/
theorem Replays.step (ord : IterOrder) (hallowed : ¬ParentIsUncle x) :
    Returns (addBlockToChain core ord x c') ∧
      Replays core c t (x :: hist) (addBlockToChain core ord x c').state := by
  have hr := hrep.run.recorded
  have hl := hrep.run.mainChainLinked
  have htop := hrep.mirrors.noLevelAbove hx
  obtain ⟨c₀, r, hw, ho, hstate, hret⟩ := exists_outcome_of_top core ord hallowed hr hx.fresh htop
  obtain ⟨hreturns, hcases⟩ := hrep.visit hc hre hdistinct hx hd hw ho
  have hguard : LinksGuarded core hist c' ord x := by
    refine linksGuarded_of_top hr hd hl hx.fresh htop (fun htip => ?_) hre.wide.le
    obtain ⟨b, hb⟩ := hrep.tip htip
    rw [← hr.agree.height_of_storedBlock hb.stored]
    exact hrep.tip_le hx hb
  have hrun := hrep.run.added (hd.nonzero x List.mem_cons_self) hx.fresh hallowed hguard
    (hret hreturns)
  rw [hstate] at hrun ⊢
  refine ⟨hret hreturns, ?_⟩
  obtain hstays | hmoved := hcases
  · have hm := hrep.mirrors_writes hx hw
    obtain ⟨hsame, hother, hstarted⟩ := hstays
    rw [hsame] at hrun ⊢
    refine ⟨hrun, hm, fun htip => ?_, fun htip y hy hzero => ?_, fun hmem => ?_⟩
    · obtain ⟨b, hb⟩ := hrep.tip (by rwa [← hw.tipHash_eq])
      refine ⟨b, hrep.tip_writes hx hw hb, hb.verified, hb.rooted, fun hzero y hy hyZero hyVerified => ?_⟩
      obtain rfl | hy := List.mem_cons.mp hy
      · obtain hlt | ⟨-, hle⟩ := hx.before b (hrep.mirrors.sound hb.stored)
        · omega
        · exact hle
      · exact hb.first hzero y hy hyZero hyVerified
    · obtain rfl | hy := List.mem_cons.mp hy
      · by_contra hverified
        rw [Bool.not_eq_false] at hverified
        exact hstarted hzero hverified htip
      · exact hrep.unstarted (by rwa [← hw.tipHash_eq]) y hy hzero
    · obtain rfl | hmem := List.mem_cons.mp hmem
      · exact absurd rfl hother
      obtain ⟨hhash, hcurrent, hancestors⟩ := hrep.reached hmem
      exact ⟨hw.tipHash_eq.trans hhash, hw.currentTip.trans hcurrent,
        fun i hi a ha => hr.ancestorOf_before hx.fresh hw (hancestors i hi a ha)⟩
  · obtain ⟨hm, hcurrent, hhash, hverified, hroot, hunreached, hfirst⟩ := hmoved
    have hne : x.hash ≠ FixedHash.zero := hd.nonzero x List.mem_cons_self
    refine ⟨hrun, hm, fun _ => ⟨x, ?_, hverified, hroot, fun hzero y hy hyZero hyVerified => ?_⟩,
      fun htip => absurd (hhash.symm.trans htip) hne, fun hmem => ?_⟩
    · rw [hcurrent, hhash]
      exact stored_of_nextToLoad hx hm
    · obtain rfl | hy := List.mem_cons.mp hy
      · exact le_rfl
      · rw [hrep.unstarted (hw.tipHash_eq.symm.trans (hfirst hzero)) y hy hyZero]
          at hyVerified
        cases hyVerified
    · obtain rfl | hmem := List.mem_cons.mp hmem
      · have hrounds := windowRounds_lt hre.wide
        refine ⟨hhash, hcurrent, fun i hi a ha => ?_⟩
        have haHeight := height_of_ancestorOf hc ha
        exact hm.ancestorOf_eq hc hx le_rfl (fun j hj => hroot j (by omega)) ha (by omega)
      · exact absurd hmem hunreached

end Step

/-! ### The whole load -/

theorem Run.allowed {P : List P2Block → P2Chain → IterOrder → P2Block → Prop}
    (hrun : Run core config P hist c) : ∀ a ∈ hist, ¬ParentIsUncle a := by
  induction hrun with
  | empty => exact fun a ha => by cases ha
  | refused _ _ ih => exact ih
  | added _ _ _ hallowed _ _ ih => exact List.forall_mem_cons.mpr ⟨hallowed, ih⟩
  | generated _ _ ih => exact ih

/-- What the blocks of a cache must be for the load to look only at their flags. -/
structure LoadList (squad : String) (earliestDate : EpochTime) (c : P2Chain) (hist blocks : List P2Block) :
    Prop where
  stored : ∀ x ∈ blocks, x ∈ c.blockCache.values
  sorted : blocks.Pairwise LoadedBefore
  hashes : (blocks.map (·.hash)).Nodup
  before : ∀ y ∈ hist, ∀ x ∈ blocks, LoadedBefore y x
  fresh : ∀ y ∈ hist, ∀ x ∈ blocks, y.hash ≠ x.hash
  covers : ∀ y, c.Loads y → y ∈ hist ∨ y ∈ blocks
  current : ∀ x ∈ blocks, x.version = protocolVersion ∧ x.squad = squad ∧ earliestDate ≤ x.timestamp
  allowed : ∀ x ∈ blocks, ¬ParentIsUncle x
  nonzero : ∀ x ∈ blocks, x.hash ≠ FixedHash.zero

variable {squad : String} {earliestDate : EpochTime} {blocks : List P2Block}

/-- The blocks after the first, which has been loaded or not. -/
theorem LoadList.tail {hist' : List P2Block} (hlist : LoadList squad earliestDate c hist (x :: blocks))
    (hhist : ∀ y, y ∈ hist' → y ∈ hist ∨ y = x) (hkept : ∀ y ∈ hist, y ∈ hist')
    (hx : c.Loads x → x ∈ hist') : LoadList squad earliestDate c hist' blocks := by
  have hmem {y : P2Block} (hy : y ∈ blocks) : y ∈ x :: blocks := List.mem_cons_of_mem x hy
  have hsorted := List.pairwise_cons.mp hlist.sorted
  have hhashes := hlist.hashes
  rw [List.map_cons, List.nodup_cons] at hhashes
  refine ⟨fun y hy => hlist.stored y (hmem hy), hsorted.2, hhashes.2, fun y hy z hz => ?_,
    fun y hy z hz => ?_, fun y hy => ?_, fun y hy => hlist.current y (hmem hy),
    fun y hy => hlist.allowed y (hmem hy), fun y hy => hlist.nonzero y (hmem hy)⟩
  · obtain hy | rfl := hhist y hy
    · exact hlist.before y hy z (hmem hz)
    · exact hsorted.1 z hz
  · obtain hy | rfl := hhist y hy
    · exact hlist.fresh y hy z (hmem hz)
    · exact fun heq => hhashes.1 (List.mem_map.mpr ⟨z, hz, heq.symm⟩)
  · obtain hmem | hmem := hlist.covers y hy
    · exact Or.inl (hkept y hmem)
    · obtain rfl | hmem := List.mem_cons.mp hmem
      · exact Or.inl (hx hy)
      · exact Or.inr hmem

/-- The first block of the list is next to be loaded. -/
theorem LoadList.next (hlist : LoadList squad earliestDate c hist (x :: blocks))
    (hflag : x.verified.targetDifficulty = true) : NextToLoad c hist x where
  loads := ⟨hlist.stored x List.mem_cons_self, hflag⟩
  fresh y hy := hlist.fresh y hy x List.mem_cons_self
  before y hy := hlist.before y hy x List.mem_cons_self
  after y hy := by
    obtain hmem | hmem := hlist.covers y hy
    · exact Or.inl hmem
    · obtain rfl | hmem := List.mem_cons.mp hmem
      · exact Or.inr (Or.inr ⟨rfl, le_rfl⟩)
      · exact Or.inr ((List.pairwise_cons.mp hlist.sorted).1 y hmem)

theorem loadBlocks_cons (ords : Nat → IterOrder) (i : Nat) (blocks : List P2Block) (c : P2Chain)
    (hversion : x.version = protocolVersion) (hsquad : x.squad = squad)
    (hdate : earliestDate ≤ x.timestamp) :
    loadBlocks core ords squad earliestDate i (x :: blocks) c =
      if x.verified.targetDifficulty = true then
        match addBlockToChain core (ords i) x c with
        | .ok _ c => loadBlocks core ords squad earliestDate (i + 1) blocks c
        | .error (.error _) c => loadBlocks core ords squad earliestDate (i + 1) blocks c
        | .error (.panic p) c => .error (.panic p) c
      else loadBlocks core ords squad earliestDate (i + 1) blocks c := by
  rw [loadBlocks, if_neg (not_not.mpr hversion), if_neg (not_not.mpr hsquad)]
  by_cases hflag : x.verified.targetDifficulty = true
  · rw [if_neg (by rw [hflag]; decide), if_pos hflag]
    exact congrFun (if_neg (Nat.not_lt.mpr hdate)) c
  · rw [if_pos (by rw [Bool.not_eq_true _ |>.mp hflag]; rfl), if_neg hflag]

theorem Replays.loadBlocks {ords : Nat → IterOrder} {i : Nat} (hc : c.StoresAgree)
    (hre : Reloadable c t)
    (hdistinct : ∀ x y, c.Loads x → c.Loads y → x.totalPow = y.totalPow → x = y)
    (hrep : Replays core c t hist c') (hlist : LoadList squad earliestDate c hist blocks) :
    ∃ hist' c'', P2Chain.loadBlocks core ords squad earliestDate i blocks c' = .ok () c'' ∧
      Replays core c t hist' c'' ∧ ∀ y, c.Loads y → y ∈ hist' := by
  induction blocks generalizing hist c' i with
  | nil =>
    refine ⟨hist, c', rfl, hrep, fun y hy => (hlist.covers y hy).resolve_right fun h => ?_⟩
    cases h
  | cons x blocks ih =>
    obtain ⟨hversion, hsquad, hdate⟩ := hlist.current x List.mem_cons_self
    rw [loadBlocks_cons ords i blocks c' hversion hsquad hdate]
    by_cases hflag : x.verified.targetDifficulty = true
    · rw [if_pos hflag]
      have hx := hlist.next hflag
      have hd : Distinct (x :: hist) :=
        hrep.run.distinct.cons (hlist.nonzero x List.mem_cons_self) hx.fresh
      obtain ⟨hreturns, hnext⟩ := hrep.step hc hre hdistinct hx hd (ords i)
        (hlist.allowed x List.mem_cons_self)
      have htail : LoadList squad earliestDate c (x :: hist) blocks :=
        hlist.tail (fun y hy => (List.mem_cons.mp hy).symm) (fun y hy => List.mem_cons_of_mem x hy)
          (fun _ => List.mem_cons_self)
      cases hcall : addBlockToChain core (ords i) x c' with
      | ok result c₁ =>
        rw [hcall] at hnext
        exact ih hnext htail
      | error fault c₁ =>
        rw [hcall] at hnext hreturns
        cases fault with
        | error e => exact ih hnext htail
        | panic p => exact absurd rfl (hreturns p c₁)
    · rw [if_neg hflag]
      exact ih hrep (hlist.tail (fun y hy => Or.inl hy) (fun y hy => hy) (fun h => absurd h.2 hflag))

theorem Run.loadList {P : List P2Block → P2Chain → IterOrder → P2Block → Prop}
    (hrun : Run core config P hist c) (hcurrent : ∀ x ∈ c.blockCache.values,
      x.version = protocolVersion ∧ x.squad = squad ∧ earliestDate ≤ x.timestamp) :
    LoadList squad earliestDate c [] (allBlocks c.blockCache) := by
  have hr := hrun.recorded
  have hperm : (allBlocks c.blockCache).Perm c.blockCache.values :=
    (List.perm_insertionSort _ _).trans (List.perm_insertionSort _ _)
  have hcontent {x : P2Block} (hx : x ∈ allBlocks c.blockCache) :
      ∃ a ∈ hist, a.withoutStatus = x.withoutStatus := by
    have hstored : c.storedBlock x.height x.hash = some x :=
      hr.agree.storedBlock_eq_some_iff.mpr
        ⟨KeyedMap.find?_eq_some_iff.mpr ⟨hperm.mem_iff.mp hx, rfl⟩, rfl⟩
    obtain ⟨a, ha, heq, -⟩ := hr.content hstored
    exact ⟨a, ha, heq⟩
  refine ⟨fun x hx => hperm.mem_iff.mp hx, ?_, ?_, fun y hy => (by cases hy),
    fun y hy => (by cases hy), fun y hy => Or.inr (hperm.mem_iff.mpr hy.1),
    fun x hx => hcurrent x (hperm.mem_iff.mp hx),
    fun x hx => ?_, fun x hx => ?_⟩
  · exact StableSort.pairwise_insertionSort (List.pairwise_insertionSort _ _)
  · exact (hperm.map _).nodup_iff.mpr c.blockCache.nodup
  · obtain ⟨a, ha, heq⟩ := hcontent hx
    have hsame : a.uncles = x.uncles ∧ a.prevHash = x.prevHash :=
      ⟨field_eq P2Block.uncles (fun _ _ => rfl) heq, field_eq P2Block.prevHash (fun _ _ => rfl) heq⟩
    have hallowed := hrun.allowed a ha
    rwa [ParentIsUncle, hsame.1, hsame.2] at hallowed
  · obtain ⟨a, ha, heq⟩ := hcontent hx
    rw [← hash_of_withoutStatus heq]
    exact hrun.distinct.nonzero a ha

/-- The load of a chain that is reloadable gives back its tip and, over the share window, its main
chain. -/
theorem reload_keeps_chain {P : List P2Block → P2Chain → IterOrder → P2Block → Prop}
    (hrun : Run core config P hist c) {tip : P2ChainLevel} (_ : c.getTip = some tip)
    (ht : c.storedBlock tip.height tip.chainBlock = some t)
    (hdistinct : ∀ x ∈ c.blockCache.values, ∀ y ∈ c.blockCache.values, x.totalPow = y.totalPow → x = y)
    (hcurrent : ∀ x ∈ c.blockCache.values,
      x.version = protocolVersion ∧ x.squad = squad ∧ earliestDate ≤ x.timestamp)
    (hre : Reloadable c t) (ords : Nat → IterOrder) :
    ∃ c' tip', tryLoad core config ords squad earliestDate c.blockCache = .ok () c' ∧
      c'.getTip = some tip' ∧ tip'.height = tip.height ∧ tip'.chainBlock = tip.chainBlock ∧
      ∀ height ≤ tip.height, tip.height < height + config.shareWindow →
        c'.chainBlockAt height = c.chainBlockAt height := by
  have hr := hrun.recorded
  have hc := hr.agree
  have hnew : Replays core c t [] (newEmpty c.config) :=
    ⟨Run.empty, Mirrors.newEmpty c, fun h => absurd rfl h,
      fun _ y hy => (by cases hy), fun h => (by cases h)⟩
  obtain ⟨hist', c', hload, hrep, hall⟩ := hnew.loadBlocks hc hre
    (fun x y hx hy => hdistinct x hx.1 y hy.1) (hrun.loadList hcurrent)
  have htHeight := hc.height_of_storedBlock ht
  have htHash := hc.hash_of_storedBlock ht
  obtain ⟨hhash, hheight, hancestors⟩ := hrep.reached (hall t (loads_of_verified hc ht hre.verified))
  have hne : c'.tipHash ≠ FixedHash.zero := by
    rw [hhash, htHash]
    exact hr.hash_ne_zero hrun.distinct ht
  obtain ⟨tip', htip'⟩ := exists_getTip_iff.mpr hne
  have htip'Height := height_of_getTip htip'
  have htip'Hash := chainBlock_of_getTip htip'
  refine ⟨c', tip', ?_, htip', by omega, by rw [htip'Hash, hhash, htHash], fun height hle hwindow => ?_⟩
  · rw [tryLoad, ← hr.config_eq]
    exact hload
  · obtain ⟨b, hb⟩ := hrep.tip hne
    have hbt : b = t := by
      have hbc := hrep.mirrors.storedBlock_of hc hb.stored
      rw [hheight, hhash, htHeight, htHash, ht, Option.some.injEq] at hbc
      exact hbc.symm
    subst hbt
    have hrounds := windowRounds_cases c.config
    rw [hr.config_eq] at hrounds
    obtain ⟨a, ha, -⟩ := exists_ancestorOf_of_rooted hc hre.rooted
      (show b.height - height ≤ windowRounds c.config by rw [hr.config_eq]; omega) (by omega)
    have haHeight := height_of_ancestorOf hc ha
    have hmark := hre.linked (b.height - height) (by rw [hr.config_eq]; omega) a ha
    obtain ⟨-, -, hmarks⟩ := main_chain_linked hrep.run htip'
    have hmark' := hmarks b (by rw [htip'Height, htip'Hash]; exact hb.stored) (b.height - height)
      (by rw [hr.config_eq]; omega) a (hancestors _ (by rw [hr.config_eq]; omega) a ha)
    rw [show height = a.height by omega, hmark, hmark']

/-- A chain whose second block was overtaken by another one, on which the tip stands. -/
def overtakenBlocks : List P2Block :=
  [sampleBlock 1 0 0 1, sampleBlock 2 1 1 2, { sampleBlock 3 1 1 3 with targetDifficulty := 2 },
    sampleBlock 4 3 2 4]

def overtakenChain : P2Chain := addAll sampleCore .stored overtakenBlocks (newEmpty (sampleConfig 10))

def verifiedTip : P2Block :=
  { sampleBlock 4 3 2 4 with verified := ⟨true, true, true, true, true⟩ }

theorem reloadable_overtakenChain : Reloadable overtakenChain verifiedTip := by
  have hverified : ∀ x ∈ overtakenChain.blockCache.values, x.verified.isVerified = true := by decide
  refine ⟨by decide, fun x hx => ?_, fun x hx => Or.inl (hverified x hx.1), fun x y hx hy => ?_,
    by decide, ?_, by decide, fun x hx _ _ => ?_, fun x hx _ => ?_, fun uncle h => (by cases h), ?_⟩
  · have hall : ∀ x ∈ overtakenChain.blockCache.values, x.height + maxUncleAge ≤ u64Max := by decide
    exact hall x hx.1
  · have hall : ∀ x ∈ overtakenChain.blockCache.values, ∀ y ∈ overtakenChain.blockCache.values,
        x.height = 0 → y.height = 0 → y = x := by decide
    exact fun _ _ hxZero hyZero _ hne => absurd (hall x hx.1 y hy.1 hxZero hyZero) hne
  · have hparents : ∀ p ∈ overtakenChain.parentOf verifiedTip, p.verified.isVerified = true ∧
        ∀ q ∈ overtakenChain.parentOf p, q.verified.isVerified = true ∧ q.height = 0 := by decide
    obtain ⟨p, hp⟩ : ∃ p, overtakenChain.parentOf verifiedTip = some p := ⟨_, rfl⟩
    obtain ⟨q, hq⟩ : ∃ q, overtakenChain.parentOf p = some q := by
      cases hp
      exact ⟨_, rfl⟩
    obtain ⟨hpVerified, hgrandparent⟩ := hparents p hp
    obtain ⟨hqVerified, hzero⟩ := hgrandparent q hq
    exact ((rooted_of_height_zero hzero).of_parent hq hqVerified).of_parent hp hpVerified
  · have hall : ∀ x ∈ overtakenChain.blockCache.values, x.totalPow ≤ verifiedTip.totalPow := by decide
    exact hall x hx.1
  · have hall : ∀ x ∈ overtakenChain.blockCache.values, x.prevHash ≠ verifiedTip.hash := by decide
    exact hall x hx.1
  · have hall : ∀ i < 10, ∀ a ∈ overtakenChain.ancestorOf i verifiedTip,
        overtakenChain.chainBlockAt a.height = a.hash := by decide
    exact fun i hi a ha => hall i hi a ha

/-- The load moves to the overtaken block first, and from there to the other one by a reorg. -/
theorem reload_keeps_chain_forked : ∃ c' tip', tryLoad sampleCore (sampleConfig 10)
      (fun _ => IterOrder.stored) "NoSquad" 0 overtakenChain.blockCache = .ok () c' ∧
    c'.getTip = some tip' ∧ tip'.height = 2 ∧ tip'.chainBlock = 4 ∧
      ∀ height ≤ 2, 2 < height + 10 → c'.chainBlockAt height = overtakenChain.chainBlockAt height := by
  obtain ⟨tip, htip⟩ := exists_getTip_iff.mpr (show overtakenChain.tipHash ≠ FixedHash.zero by decide)
  have hheight : tip.height = 2 := (height_of_getTip htip).trans (by decide)
  have hhash : tip.chainBlock = 4 := (chainBlock_of_getTip htip).trans (by decide)
  have hrun : Run sampleCore (sampleConfig 10) Unrestricted overtakenBlocks.reverse overtakenChain :=
    Run.of_blocks IterOrder.stored (fun _ _ _ => true) (fun _ _ _ _ => trivial) overtakenBlocks
      (by decide)
  have hload := reload_keeps_chain hrun htip
    (show overtakenChain.storedBlock tip.height tip.chainBlock = some verifiedTip by
      rw [hheight, hhash]
      decide)
    (by decide) (show ∀ x ∈ overtakenChain.blockCache.values,
      x.version = protocolVersion ∧ x.squad = "NoSquad" ∧ 0 ≤ x.timestamp by decide)
    reloadable_overtakenChain (fun _ => IterOrder.stored)
  rwa [hheight, hhash] at hload

/-- Two blocks of height 0, the heavier of which came first but is loaded second. -/
def competingStarts : List P2Block :=
  [{ sampleBlock 2 0 0 2 with targetDifficulty := 2 }, sampleBlock 1 0 0 1]

/-- The load of two blocks of height 0 in the other order tries a reorg below height 0. -/
theorem reload_aborts : ∃ hist c tip c', Run sampleCore (sampleConfig 10) Unrestricted hist c ∧
    c.getTip = some tip ∧
    (∀ x ∈ c.blockCache.values, ∀ y ∈ c.blockCache.values, x.totalPow = y.totalPow → x = y) ∧
    (∀ x ∈ c.blockCache.values, x.version = protocolVersion ∧ x.squad = "NoSquad" ∧ 0 ≤ x.timestamp) ∧
    tryLoad sampleCore (sampleConfig 10) (fun _ => IterOrder.stored) "NoSquad" 0 c.blockCache =
      .error (.panic .corruptedChain) c' := by
  obtain ⟨tip, htip⟩ := exists_getTip_iff.mpr (show tipHash
    (addAll sampleCore IterOrder.stored competingStarts (newEmpty (sampleConfig 10))) ≠ FixedHash.zero
    by decide)
  exact ⟨_, _, tip, _, Run.of_blocks IterOrder.stored (fun _ _ _ => true) (fun _ _ _ _ => trivial)
    competingStarts (by decide), htip, by decide, by decide, eq_error_of_faultOf (by decide)⟩

end P2Chain

end ShaP2Pool
