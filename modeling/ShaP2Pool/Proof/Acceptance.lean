import ShaP2Pool.Proof.Template
import ShaP2Pool.Proof.Checks

/-!
# Whether a template is accepted

The node hands out a template on its own tip. When the block comes back, its own call visits it
first; it is accepted exactly when that visit finds the parents of the listed uncles at the heights
where the verification looks for them, the uncles checked, and the new level is not dropped.
-/

namespace ShaP2Pool

namespace P2Chain

variable {core : TariCore} {ord : IterOrder} {config : ChainConfig} {n height : Nat}
variable {hash : FixedHash} {c c' c₀ c₁ c₂ : P2Chain} {b b₁ t u : P2Block} {hist : List P2Block}
variable {uncles : List P2Block} {d : Difficulty}
variable {P : List P2Block → P2Chain → IterOrder → P2Block → Prop}

open InMemoryShareChain

/-- The block passes the uncle checks of a submission, its call returns without an error, and it is
then verified and at the tip. -/
def SelfAccepted (core : TariCore) (ord : IterOrder) (c : P2Chain) (b : P2Block) : Prop :=
  validateUncles b = .ok () ∧ ∃ result c' tip x, addBlockToChain core ord b c = .ok result c' ∧
    c'.getTip = some tip ∧ tip.height = b.height ∧ tip.chainBlock = b.hash ∧
    c'.storedBlock b.height b.hash = some x ∧ x.verified.isVerified = true

/-- What the verification needs of the chain: each listed uncle has passed the two difficulty checks
and has its parent stored at the height below, the levels above do not crowd out the block's own,
and the heights of its children fit. -/
structure ReadyFor (c : P2Chain) (b : P2Block) : Prop where
  uncles : ∀ uncle ∈ b.uncles, ∃ u, c.storedBlock uncle.1 uncle.2 = some u ∧
    u.verified.targetDifficulty = true ∧ u.verified.difficulty = true ∧
    ∃ p, c.storedBlock (uncle.1 - 1) u.prevHash = some p
  room : c.levelsAbove b.height < maxLevels c.config
  fits : b.height + maxUncleAge ≤ u64Max

/-! ### The checks -/

theorem addUncleWork_eq (hc : c.StoresAgree) {total : AccumulatedDifficulty}
    (hfits : total + targets uncles ≤ u128Max)
    (hstored : ∀ u ∈ uncles, ∃ u₁, c.storedBlock u.height u.hash = some u₁ ∧
      u₁.targetDifficulty = u.targetDifficulty ∧ u₁.verified.targetDifficulty = true ∧
      u₁.verified.difficulty = true) :
    c.addUncleWork (uncles.map fun u => (u.height, u.hash)) total =
      .ok (some (total + targets uncles)) := by
  induction uncles generalizing total with
  | nil => rfl
  | cons u rest ih =>
    obtain ⟨⟨u₁, hu₁, htarget, hflag, hflag'⟩, hrest⟩ := List.forall_mem_cons.mp hstored
    have hsum : total + targets (u :: rest) = total + u.targetDifficulty + targets rest := by
      rw [targets, targets, List.map_cons, List.sum_cons]
      exact (Nat.add_assoc _ _ _).symm
    rw [hsum] at hfits ⊢
    rw [List.map_cons, addUncleWork, hc.getBlockAtHeight_of_storedBlock hu₁]
    simp only [hflag, hflag', Bool.not_true, Bool.or_self, Bool.false_eq_true, if_false]
    rw [checkedAddDifficulty, htarget, if_pos ((Nat.le_add_right _ _).trans hfits)]
    exact ih hfits hrest

/-! ### The first visit of a template -/

namespace TemplateOf

variable (ht : TemplateOf c b d uncles)
include ht

theorem validateUncles_ok : validateUncles b = .ok () := by
  have hlength : b.uncles.length = uncles.length := by rw [ht.lists, List.length_map]
  rw [validateUncles, if_neg (by rw [hlength]; exact Nat.not_lt.mpr ht.few), if_neg]
  · refine validateUncleAges_ok (fun uncle hmem => ?_)
    rw [ht.lists, List.mem_map] at hmem
    obtain ⟨u, hu, rfl⟩ := hmem
    exact ⟨(ht.candidates u hu).notTooOld, (ht.candidates u hu).below⟩
  · simp only [Bool.and_eq_true, decide_eq_true_eq, Bool.not_eq_true', List.isEmpty_eq_false_iff,
      not_and, not_not]
    intro hlow
    rw [ht.lists, ht.early hlow, List.map_nil]

theorem exists_candidate {uncle : Nat × FixedHash} (h : uncle ∈ b.uncles) :
    ∃ u ∈ uncles, uncle = (u.height, u.hash) ∧ UncleCandidate c b.height u := by
  rw [ht.lists, List.mem_map] at h
  obtain ⟨u, hu, rfl⟩ := h
  exact ⟨u, hu, rfl, ht.candidates u hu⟩

theorem uncle_height_ne_zero {uncle : Nat × FixedHash} (h : uncle ∈ b.uncles) : uncle.1 ≠ 0 := by
  obtain ⟨u, hu, rfl, hcandidate⟩ := ht.exists_candidate h
  have hlate : ¬b.height < uncleStartHeight := by
    intro hlow
    rw [ht.early hlow] at hu
    exact absurd hu List.not_mem_nil
  have := hcandidate.notTooOld
  simp only [uncleStartHeight, maxUncleAge] at hlate this
  change u.height ≠ 0
  omega

theorem not_parentIsUncle (hr : Recorded config hist c) (hd : Distinct hist) : ¬ParentIsUncle b := by
  intro h
  unfold ParentIsUncle at h
  rw [List.any_eq_true] at h
  obtain ⟨uncle, huncle, heq⟩ := h
  rw [beq_iff_eq] at heq
  obtain ⟨u, hu, rfl, hcandidate⟩ := ht.exists_candidate huncle
  change u.hash = b.prevHash at heq
  rcases ht.place with ⟨-, -, hprev, -⟩ | ⟨x, hne, hx, -, hprev, -⟩
  · exact hr.hash_ne_zero hd hcandidate.stored (heq.trans hprev)
  · -- an uncle with the hash of the tip would be the tip, which is marked
    have hstored := hcandidate.stored
    rw [heq, hprev] at hstored
    obtain ⟨hheight, -⟩ := hr.agree.storedBlock_inj hstored hx
    apply hcandidate.offMain
    rw [hheight, heq, hprev, tipHash]

end TemplateOf

theorem Recorded.storedBlock_of_height_ne (hr : Recorded config hist c)
    (hfresh : ∀ a ∈ hist, a.hash ≠ b.hash) (hw : Writes c b c₀) {x : P2Block}
    (hx : c₀.storedBlock height hash = some x) (hne : height ≠ b.height) :
    c.storedBlock height hash = some x := by
  rwa [hw.storedBlock hr.agree (hr.unused hfresh), if_neg (fun h => hne h.1)] at hx

/-- `b` is a fresh template for the chain `c` with the server's bypass flags, `c₀` is `c` with `b`
stored in it. -/
structure AddsTemplate (config : ChainConfig) (hist : List P2Block) (c : P2Chain) (b : P2Block)
    (d : Difficulty) (uncles : List P2Block) (c₀ : P2Chain) : Prop where
  recorded : Recorded config hist c
  distinct : Distinct hist
  bypass : config.bypassChecks = serverBypass
  template : TemplateOf c b d uncles
  target : 1 ≤ d
  nonzero : b.hash ≠ FixedHash.zero
  fresh : ∀ a ∈ hist, a.hash ≠ b.hash
  inserted : c.insertBlock b = .ok c₀

namespace AddsTemplate

variable (hs : AddsTemplate config hist c b d uncles c₀)
include hs

theorem writes : Writes c b c₀ := by
  obtain ⟨c', hinsert, hwrites⟩ := Writes.of_insertBlock c b
  rw [hs.inserted, Except.ok.injEq] at hinsert
  rwa [← hinsert] at hwrites

theorem recorded₀ : Recorded config (b :: hist) c₀ :=
  hs.recorded.writes (hs.recorded.unused hs.fresh) hs.writes

theorem stored : c₀.storedBlock b.height b.hash = some b :=
  hs.recorded.storedBlock_of_writes (hs.recorded.unused hs.fresh) hs.writes

theorem tipHash_eq : c₀.tipHash = c.tipHash := by
  rw [tipHash, tipHash, hs.writes.currentTip, hs.writes.chainBlockAt]

theorem config_eq : c₀.config = config := hs.recorded₀.config_eq

theorem bypass₀ : c₀.config.bypassChecks = serverBypass := by rw [hs.config_eq, hs.bypass]

theorem exists_parent (hfits : b.height + maxUncleAge ≤ u64Max) (hheight : b.height ≠ 0) :
    ∃ x, c₀.storedBlock (b.height - 1) b.prevHash = some x ∧
      b.totalPow = x.totalPow + targets uncles + d := by
  rcases hs.template.place with ⟨-, hzero, -⟩ | ⟨x, -, hx, hplace, hprev, hpow⟩
  · exact absurd hzero hheight
  · have hxheight := hs.recorded.agree.height_of_storedBlock hx
    have hbelow : b.height - 1 = c.currentTip := by
      have hsum : b.height = min (x.height + 1) u64Max := hplace
      simp only [maxUncleAge] at hfits
      omega
    refine ⟨x, ?_, hpow⟩
    rw [hbelow, hprev]
    exact hs.recorded.storedBlock_before hs.fresh hs.writes hx

theorem not_offTip {x : P2Block} (hoff : OffTip core c₀ b.height b.hash x b₁ c₁) : False := by
  have hxb : x = b := by
    have := hoff.stored
    rw [hs.stored, Option.some.injEq] at this
    exact this.symm
  subst hxb
  rcases hs.template.place with ⟨htip, hheight, -⟩ | ⟨t, hne, -, -, hprev, -⟩
  · refine hoff.notStart ⟨?_, hheight⟩
    rw [getTip_eq_none_iff, hoff.tipHash_eq, hs.tipHash_eq]
    exact getTip_eq_none_iff.mp htip
  · have honTip : c₁.buildsOnTip b₁.header = true := by
      rw [buildsOnTip_iff, hoff.tipHash_eq, hs.tipHash_eq]
      exact ⟨hne, by rw [P2Block.header_prevHash, hoff.prevHash_eq, hprev]⟩
    rw [hoff.offTip] at honTip
    cases honTip

/-- The verification finds all that a template refers to exactly when the parents of its uncles are
stored at the heights below them. -/
theorem complete_iff_parents (hfits : b.height + maxUncleAge ≤ u64Max) :
    c₀.Complete b ↔ ∀ uncle ∈ b.uncles, ∃ u, c.storedBlock uncle.1 uncle.2 = some u ∧
      ∃ p, c.storedBlock (uncle.1 - 1) u.prevHash = some p := by
  constructor
  · intro hcomplete uncle huncle
    obtain ⟨u, hu, rfl, hcandidate⟩ := hs.template.exists_candidate huncle
    have hbelow := hcandidate.below
    obtain ⟨-, hparents⟩ := hcomplete (by omega)
    obtain ⟨u', p, hu', hp⟩ := hparents _ huncle
    have hstored := hs.recorded.storedBlock_of_height_ne hs.fresh hs.writes hu'
      (show u.height ≠ b.height by omega)
    refine ⟨u', hstored, p, ?_⟩
    exact hs.recorded.storedBlock_of_height_ne hs.fresh hs.writes hp
      (show u.height - 1 ≠ b.height by omega)
  · intro hparents hheight
    obtain ⟨x, hx, -⟩ := hs.exists_parent hfits hheight
    refine ⟨⟨x, by rw [parentOf, if_neg hheight]; exact hx⟩, fun uncle huncle => ?_⟩
    obtain ⟨u, hu, p, hp⟩ := hparents uncle huncle
    exact ⟨u, p, hs.recorded.storedBlock_before hs.fresh hs.writes hu,
      hs.recorded.storedBlock_before hs.fresh hs.writes hp⟩

/-- The checks of a template succeed when its uncles are checked. -/
theorem runChecks_ok (core : TariCore) (hready : ReadyFor c b) : ∃ v, c₀.runChecks core b = .ok v ∧
    v.isVerified = true := by
  have hpow : c₀.verifyPowAndParents b = .ok true := by
    have hc₀ := hs.recorded₀.agree
    have hparents : (b.verified.parents || c₀.config.bypassChecks.parents) = false := by
      rw [hs.template.unverified, hs.bypass₀]
      rfl
    have hsum : d + targets uncles ≤ b.totalPow := by
      rcases hs.template.place with ⟨-, hzero, -, hpow⟩ | ⟨x, -, -, -, -, hpow⟩
      · rw [hpow, hs.template.early (by rw [hzero]; decide)]
        exact le_rfl
      · rw [hpow, Nat.add_comm d, Nat.add_assoc]
        exact Nat.le_add_left _ _
    have hwork : c₀.addUncleWork b.uncles b.targetDifficulty = .ok (some (d + targets uncles)) := by
      rw [hs.template.lists, hs.template.target]
      refine addUncleWork_eq hc₀ (hsum.trans hs.template.fits) (fun u hu => ?_)
      have hmem : (u.height, u.hash) ∈ b.uncles := by
        rw [hs.template.lists]
        exact List.mem_map.mpr ⟨u, hu, rfl⟩
      obtain ⟨u', hu', hflag, hflag', -⟩ := hready.uncles _ hmem
      have hsame := (hs.template.candidates u hu).stored
      rw [hu', Option.some.injEq] at hsame
      subst hsame
      exact ⟨u', hs.recorded.storedBlock_before hs.fresh hs.writes hu', rfl, hflag, hflag'⟩
    rw [verifyPowAndParents, if_neg (by rw [hparents]; simp),
      if_neg (by rw [hs.template.target]; exact Nat.not_lt.mpr hs.target), hwork]
    simp only
    by_cases hheight : b.height = 0
    · rw [if_pos hheight, compareWork, if_pos]
      rcases hs.template.place with ⟨-, -, -, hpow⟩ | ⟨x, hne, hx, hplace, -⟩
      · rw [hpow, hs.template.early (by rw [hheight]; decide)]
        rfl
      · have hsum' : b.height = min (x.height + 1) u64Max := hplace
        have hmax : 0 < u64Max := by decide
        omega
    · obtain ⟨x, hx, hpow⟩ := hs.exists_parent hready.fits hheight
      have htotal : d + targets uncles + x.totalPow = b.totalPow := by
        rw [hpow]
        exact (Nat.add_comm _ _).trans ((congrArg _ (Nat.add_comm _ _)).trans
          (Nat.add_assoc _ _ _).symm)
      rw [if_neg hheight, hc₀.getBlockAtHeight_of_storedBlock hx]
      simp only
      rw [htotal, if_pos hs.template.fits, compareWork, if_pos rfl]
  refine ⟨_, by rw [runChecks_serverBypass hs.bypass₀, hpow]; rfl, ?_⟩
  simp [VerifiedStatus.isVerified]

/-- A template whose uncles have their parents in place passes the uncle checks. -/
theorem checkUncles_ok (hready : ReadyFor c b) : c₀.checkUncles b.uncles = .ok () := by
  refine P2Chain.checkUncles_ok hs.recorded₀.agree (fun uncle huncle => ?_)
  obtain ⟨u, hu, -, -, p, hp⟩ := hready.uncles uncle huncle
  obtain ⟨u', hu', rfl, hcandidate⟩ := hs.template.exists_candidate huncle
  have hsame := hcandidate.stored
  rw [hu, Option.some.injEq] at hsame
  subst hsame
  have hheight := hs.template.uncle_height_ne_zero huncle
  refine ⟨hheight, by rw [hs.writes.chainBlockAt]; exact hcandidate.offMain, u, p,
    hs.recorded.storedBlock_before hs.fresh hs.writes hu,
    hs.recorded.storedBlock_before hs.fresh hs.writes hp, ?_⟩
  -- the generator has found the same parent, by its hash alone
  obtain ⟨q, hq, hmark⟩ := hcandidate.parent
  change u.height ≠ 0 at hheight
  rw [getParentBlock, if_neg hheight, hs.recorded.agree.getBlockAtHeight_of_storedBlock hp,
    Option.some.injEq] at hq
  subst hq
  rw [hs.writes.chainBlockAt]
  rw [hs.recorded.agree.height_of_storedBlock hp, hs.recorded.agree.hash_of_storedBlock hp] at hmark
  exact hmark

theorem levelsAbove_eq {x : P2Block} (hv : Checked core c₀ b.height b.hash x b₁ c₁)
    (hm : MovesTip c₁ b₁ c₂) : c₂.levelsAbove b.height = c.levelsAbove b.height := by
  refine levelsAbove_congr (fun height habove => ?_)
  have hne : height ≠ b.height := by omega
  rw [hm.same.levelAtHeight_isSome, hv.levelAtHeight_isSome hs.recorded₀.agree, hs.writes.levels]
  simp [hne]

theorem tip_of_moved {x : P2Block} (hready : ReadyFor c b)
    (hv : Checked core c₀ b.height b.hash x b₁ c₁) (hm : MovesTip c₁ b₁ c₂)
    (hverified : b₁.verified.isVerified = true) : ∃ tip y, c₂.cleanupChain.getTip = some tip ∧
      tip.height = b.height ∧ tip.chainBlock = b.hash ∧
      c₂.cleanupChain.storedBlock b.height b.hash = some y ∧ y.verified.isVerified = true := by
  have hc₁ := hv.storesAgree hs.recorded₀.agree
  have hc₂ := hm.same.storesAgree hc₁
  have hprunes := Prunes.cleanupChain hc₂
  have hstored : c₂.storedBlock b.height b.hash = some b₁ := by
    rw [hm.same.storedBlock]
    exact hv.storedBlock_self hs.recorded₀.agree
  obtain ⟨level, hlevel, -⟩ := hc₂.level_of_storedBlock hstored
  have hkept : c₂.cleanupChain.levelAtHeight b.height = some level := by
    rw [levelAtHeight_cleanupChain, hs.levelsAbove_eq hv hm, hm.same.config, hv.config,
      hs.writes.config, if_pos hready.room, hlevel]
  have hmark : level.chainBlock = b.hash := by
    rw [← chainBlockAt_of_level hlevel, hm.chainBlockAt, hv.height_eq hs.recorded₀.agree,
      if_pos rfl, hv.hash_eq hs.recorded₀.agree]
  refine ⟨level, b₁, ?_, height_of_levelAtHeight hlevel, hmark, ?_, hverified⟩
  · rw [getTip_eq_some_iff, hprunes.currentTip, hm.currentTip, hv.height_eq hs.recorded₀.agree,
      hmark]
    exact ⟨hkept, hs.nonzero⟩
  · rw [hprunes.storedBlock hc₂, hkept]
    exact hstored

/-- No block in the chain that a template leaves is looked at next. -/
theorem childrenAndNephews_eq_nil {x : P2Block} (hunnamed : Unnamed c b.hash)
    (hv : Checked core c₀ b.height b.hash x b₁ c₁) (hm : MovesTip c₁ b₁ c₂) :
    c₂.cleanupChain.childrenAndNephews ord n b.height b.hash = [] := by
  have hc₂ := hm.same.storesAgree (hv.storesAgree hs.recorded₀.agree)
  have hprunes := Prunes.cleanupChain hc₂
  rw [List.eq_nil_iff_forall_not_mem]
  intro item hitem
  obtain ⟨y, hy, habove, -, hnames⟩ := (mem_childrenAndNephews (hprunes.storesAgree hc₂)).mp hitem
  have hy₁ := hprunes.storedBlock_of hc₂ hy
  rw [hm.same.storedBlock, hv.storedBlock hs.recorded₀.agree, if_neg (by omega)] at hy₁
  have hy₀ := hs.recorded.storedBlock_of_height_ne hs.fresh hs.writes hy₁
    (Nat.ne_of_gt habove)
  exact hunnamed _ _ y hy₀ hnames

theorem eq_of_stored {x : P2Block} (h : c₀.storedBlock b.height b.hash = some x) : x = b := by
  rw [hs.stored, Option.some.injEq] at h
  exact h.symm

/-- A template that the chain is ready for is accepted. -/
theorem accepted (hready : ReadyFor c b) (hunnamed : Unnamed c b.hash) :
    SelfAccepted core ord c b := by
  have hc₀ := hs.recorded₀.agree
  obtain ⟨v, hchecks, hvVerified⟩ := hs.runChecks_ok core hready
  have hcomplete := (complete_iff hc₀ hs.stored).mpr ((hs.complete_iff_parents hready.fits).mpr
    (fun uncle huncle => by
      obtain ⟨u, hu, -, -, hp⟩ := hready.uncles uncle huncle
      exact ⟨u, hu, hp⟩))
  have hverified {x b₁ : P2Block} {c₁ : P2Chain} (hv : Checked core c₀ b.height b.hash x b₁ c₁) :
      b₁.verified.isVerified = true := by
    rcases hv.written with ⟨hverified, rfl, -⟩ | ⟨-, v', hchecks', rfl, -⟩
    · exact hverified
    · rw [hs.eq_of_stored hv.stored, hchecks, Except.ok.injEq] at hchecks'
      exact hchecks' ▸ hvVerified
  have hmoved {x b₁ : P2Block} {c₁ c₂ : P2Chain} (hv : Checked core c₀ b.height b.hash x b₁ c₁)
      (hm : MovesTip c₁ b₁ c₂) (hfirst : verifyChainInner core ord 0 b.height b.hash c₀ =
        .ok (ChainAddResult.setNewTip {} b.hash b.height, []) c₂.cleanupChain) :
      SelfAccepted core ord c b := by
    have hcall := addBlockToChain_of_first_visit
      (hs.template.not_parentIsUncle hs.recorded hs.distinct) hs.recorded
      (hs.recorded.unused hs.fresh) hs.inserted hfirst
    obtain ⟨tip, y, htip, hheight, hmark, hy, hyVerified⟩ := hs.tip_of_moved hready hv hm (hverified hv)
    exact ⟨hs.template.validateUncles_ok, _, _, tip, y, hcall, htip, hheight, hmark, hy, hyVerified⟩
  have ho := outcome_verifyChainInner core ord 0 b.height b.hash hc₀
  generalize hfirst : verifyChainInner core ord 0 b.height b.hash c₀ = r at ho
  cases ho with
  | absent habsent =>
    rw [hs.stored] at habsent
    cases habsent
  | overflow c' hheight => exact absurd hready.fits (Nat.not_le.mpr hheight)
  | waiting hstored hmissing =>
    rw [hs.eq_of_stored hstored] at hmissing
    exact absurd hcomplete hmissing
  | refused hstored _ _ hrefused =>
    rw [hs.eq_of_stored hstored, hchecks] at hrefused
    cases hrefused
  | started hchecked _ _ hmoves => exact hmoved hchecked hmoves hfirst
  | unverified hchecked _ hunverified =>
    rw [hverified hchecked] at hunverified
    cases hunverified
  | badUncles hchecked _ _ _ huncles =>
    rw [hchecked.checkUncles_eq hc₀, hchecked.uncles_eq, hs.eq_of_stored hchecked.stored,
      hs.checkUncles_ok hready] at huncles
    cases huncles
  | extended hchecked _ _ _ _ hmoves =>
    rw [hs.childrenAndNephews_eq_nil hunnamed hchecked hmoves] at hfirst
    exact hmoved hchecked hmoves hfirst
  | scanFault hoff | blocked hoff => exact absurd hoff hs.not_offTip
  | stayed hcandidate | reorgFault hcandidate | reorganised hcandidate =>
    exact absurd hcandidate.toOffTip hs.not_offTip

theorem uncles_checked (hv : Checked core c₀ b.height b.hash b b₁ c₁)
    (hverified : b₁.verified.isVerified = true) :
    ∀ uncle ∈ b.uncles, ∀ u, c.storedBlock uncle.1 uncle.2 = some u →
      u.verified.targetDifficulty = true ∧ u.verified.difficulty = true := by
  rcases hv.written with ⟨hold, -⟩ | ⟨-, v, hchecks, rfl, -⟩
  · rw [hs.template.unverified] at hold
    cases hold
  · have hunchecked : (b.verified.parents || c₀.config.bypassChecks.parents) = false := by
      rw [hs.template.unverified, hs.bypass₀]
      rfl
    rw [runChecks_serverBypass hs.bypass₀] at hchecks
    cases hpow : c₀.verifyPowAndParents b with
    | error fault => simp [hpow, Except.map] at hchecks
    | ok parents =>
      simp only [hpow, Except.map, Except.ok.injEq] at hchecks
      subst hchecks
      have hparents : parents = true := by
        simpa [VerifiedStatus.isVerified, hs.template.unverified, VerifiedStatus.new] using hverified
      subst hparents
      obtain ⟨sum, hwork⟩ := exists_work_of_verifyPowAndParents hunchecked hpow
      intro uncle huncle u hu
      exact checked_of_addUncleWork hs.recorded₀.agree hwork huncle
        (hs.recorded.storedBlock_before hs.fresh hs.writes hu)

/-- The chain was ready for a template that it verified. -/
theorem readyFor_of_accepted (h : SelfAccepted core ord c b) : ReadyFor c b := by
  have hc₀ := hs.recorded₀.agree
  obtain ⟨-, result, c', -, x, hcall, -, -, -, hx, hxVerified⟩ := h
  obtain ⟨addResult, next, chain, hfirst, hx'⟩ := exists_first_visit
    (hs.template.not_parentIsUncle hs.recorded hs.distinct) hs.recorded
    (hs.recorded.unused hs.fresh) hs.inserted hcall hx
  have hready {x₀ b₁ : P2Block} {c₁ c₂ : P2Chain} (hv : Checked core c₀ b.height b.hash x₀ b₁ c₁)
      (hm : MovesTip c₁ b₁ c₂) (hfits : b.height + maxUncleAge ≤ u64Max)
      (hx' : c₂.cleanupChain.storedBlock b.height b.hash = some x) : ReadyFor c b := by
    have hc₂ := hm.same.storesAgree (hv.storesAgree hc₀)
    have hprunes := Prunes.cleanupChain hc₂
    refine ⟨?_, ?_, hfits⟩
    · have hx₁ := hprunes.storedBlock_of hc₂ hx'
      rw [hm.same.storedBlock, hv.storedBlock_self hc₀, Option.some.injEq] at hx₁
      subst hx₁
      have hsame := hs.eq_of_stored hv.stored
      subst hsame
      have hflags := hs.uncles_checked hv hxVerified
      intro uncle huncle
      obtain ⟨u, hu, hp⟩ :=
        (hs.complete_iff_parents hfits).mp (hv.isComplete hc₀) uncle huncle
      obtain ⟨htarget, hdifficulty⟩ := hflags uncle huncle u hu
      exact ⟨u, hu, htarget, hdifficulty, hp⟩
    · obtain ⟨level, hlevel, -⟩ := (hprunes.storesAgree hc₂).level_of_storedBlock hx'
      rw [levelAtHeight_cleanupChain] at hlevel
      split_ifs at hlevel with hroom
      rwa [hs.levelsAbove_eq hv hm, hm.same.config, hv.config, hs.writes.config] at hroom
  have ho := outcome_verifyChainInner core ord 0 b.height b.hash hc₀
  rw [hfirst] at ho
  cases ho with
  | waiting hstored =>
    rw [hs.stored, Option.some.injEq] at hx'
    rw [← hx', hs.template.unverified] at hxVerified
    cases hxVerified
  | started hchecked _ hheight hmoves =>
    exact hready hchecked hmoves (by rw [hheight]; decide) hx'
  | unverified hchecked _ hunverified =>
    rw [hchecked.storedBlock_self hc₀, Option.some.injEq] at hx'
    rw [hx', hxVerified] at hunverified
    cases hunverified
  | extended hchecked _ _ _ _ hmoves hfits => exact hready hchecked hmoves hfits hx'
  | blocked hoff => exact absurd hoff hs.not_offTip
  | stayed hcandidate | reorganised hcandidate => exact absurd hcandidate.toOffTip hs.not_offTip

end AddsTemplate

/-- In every chain reached with blocks of distinct hashes, a template whose uncles are checked and
have their parents in place is accepted by the node that made it, and no other is. -/
theorem template_accepted (hrun : Run core config P hist c)
    (hbypass : config.bypassChecks = serverBypass) {s : InMemoryShareChain} {now : EpochTime}
    {address : TariAddress} {extra : List Nat}
    (hgen : s.generateNewTipBlock core ord now address extra c = .ok t)
    (hchange : t.changeTargetDifficulty core d = .ok b) (hd : 1 ≤ d)
    (hnonzero : b.hash ≠ FixedHash.zero) (hfresh : ∀ a ∈ hist, a.hash ≠ b.hash) (ord' : IterOrder) :
    (ReadyFor c b ∧ Unnamed c b.hash → SelfAccepted core ord' c b) ∧
      (SelfAccepted core ord' c b → ReadyFor c b) := by
  obtain ⟨uncles, htemplate⟩ := templateOf_generateNewTipBlock hrun.recorded hgen hchange
  obtain ⟨c₀, hinsert, -⟩ := Writes.of_insertBlock c b
  have hs : AddsTemplate config hist c b d uncles c₀ :=
    ⟨hrun.recorded, hrun.distinct, hbypass, htemplate, hd, hnonzero, hfresh, hinsert⟩
  constructor
  · intro ⟨hready, hunnamed⟩
    exact hs.accepted hready hunnamed
  · exact hs.readyFor_of_accepted

/-! ### Submitted blocks -/

/-- The service takes the block `raw` and adds it to the chain as `b`: its flags are those that the
checks of a submission set. -/
def Submits (core : TariCore) (s : InMemoryShareChain) (now : EpochTime) (c : P2Chain)
    (raw b : P2Block) : Prop :=
  raw.verified = VerifiedStatus.new ∧ raw.version = protocolVersion ∧ raw.squad = s.squad ∧
    blockAlreadyAdded c raw = .ok none ∧ s.olderThanShareWindow c raw = false ∧
    ∃ validated d, s.validateBlock core now c raw = .ok validated ∧
      s.validateClaimedDifficulty core validated = .ok d ∧
      b = { validated with verified := { validated.verified with difficulty := true } }

def SubmittedTo (core : TariCore) (s : InMemoryShareChain) (_ : List P2Block) (c : P2Chain)
    (_ : IterOrder) (b : P2Block) : Prop :=
  ∃ now raw, Submits core s now c raw b

/-- A test for `SubmittedTo` with the block's own content submitted at time 0. -/
def submits (core : TariCore) (s : InMemoryShareChain) (c : P2Chain) (b : P2Block) : Bool :=
  let raw := b.withoutStatus
  decide (raw.version = protocolVersion) && decide (raw.squad = s.squad) &&
    decide (blockAlreadyAdded c raw = .ok none) && !s.olderThanShareWindow c raw &&
    match s.validateBlock core 0 c raw with
    | .error _ => false
    | .ok validated =>
      (s.validateClaimedDifficulty core validated).toBool &&
        decide (b = { validated with verified := { validated.verified with difficulty := true } })

theorem submittedTo_of_submits {s : InMemoryShareChain} (hist : List P2Block)
    (h : submits core s c b = true) : SubmittedTo core s hist c ord b := by
  simp only [submits, Bool.and_eq_true, decide_eq_true_eq, Bool.not_eq_true'] at h
  obtain ⟨⟨⟨⟨hversion, hsquad⟩, hnew⟩, hyoung⟩, hrest⟩ := h
  refine ⟨0, b.withoutStatus, rfl, hversion, hsquad, hnew, hyoung, ?_⟩
  cases hvalid : s.validateBlock core 0 c b.withoutStatus with
  | error e => simp [hvalid] at hrest
  | ok validated =>
    simp only [hvalid, Bool.and_eq_true, decide_eq_true_eq] at hrest
    cases hclaimed : s.validateClaimedDifficulty core validated with
    | error e => simp [hclaimed, Except.toBool] at hrest
    | ok d => exact ⟨validated, d, rfl, hclaimed, hrest.2⟩

def submittedBlock (hash prevHash : FixedHash) (height : Nat) (totalPow : AccumulatedDifficulty)
    (targetKnown : Bool) : P2Block :=
  { sampleBlock hash prevHash height totalPow with
    squad := ""
    originalHeader := { outputMr := 1 }
    verified := { difficulty := true, targetDifficulty := targetKnown } }

/-- Ten blocks on each other, and a side block of height 9 that names the block of height 5 as its
parent. -/
def misplacedUncle : List P2Block :=
  (List.range 10).map (fun height => submittedBlock (height + 1) height height (height + 1) true) ++
    [submittedBlock 100 6 9 7 false]

def misplacedUncleChain : P2Chain :=
  addAll sampleCore .stored misplacedUncle (newEmpty (sampleShareChain 10).chainConfig)

def misplacedUncleTemplate : P2Block :=
  { sampleBlock 11001 10 10 12 with
    squad := ""
    timestamp := 1
    uncles := [(9, 100)] }

/-- A template with an uncle that names a parent of the wrong height is not accepted. -/
theorem template_refused : ∃ s hist c t b,
    Run sampleCore s.chainConfig (SubmittedTo sampleCore s) hist c ∧ s.bypassChecks = serverBypass ∧
      s.generateNewTipBlock sampleCore IterOrder.stored 0 ⟨0, 0⟩ [] c = .ok t ∧
      t.changeTargetDifficulty sampleCore 1 = .ok b ∧ b.hash ≠ FixedHash.zero ∧
      (∀ a ∈ hist, a.hash ≠ b.hash) ∧ ¬SelfAccepted sampleCore IterOrder.stored c b := by
  refine ⟨sampleShareChain 10, misplacedUncle.reverse, misplacedUncleChain, misplacedUncleTemplate,
    misplacedUncleTemplate, Run.of_blocks IterOrder.stored
      (fun _ c b => submits sampleCore (sampleShareChain 10) c b)
      (fun hist _ _ h => submittedTo_of_submits hist h) misplacedUncle (by decide +kernel), rfl,
    by rfl, by rfl, by decide, by decide, ?_⟩
  rintro ⟨-, result, c', tip, x, hcall, htip, hheight, -⟩
  have hstays : (addBlockToChain sampleCore IterOrder.stored misplacedUncleTemplate
      misplacedUncleChain).state.currentTip = 9 := by decide +kernel
  rw [hcall] at hstays
  rw [height_of_getTip htip] at hheight
  exact absurd (hheight.symm.trans hstays) (by decide)

def properUncle : List P2Block :=
  (List.range 10).map (fun height => submittedBlock (height + 1) height height (height + 1) true) ++
    [submittedBlock 100 9 9 10 true]

def properUncleChain : P2Chain :=
  addAll sampleCore .stored properUncle (newEmpty (sampleShareChain 10).chainConfig)

theorem run_properUncleChain : Run sampleCore (sampleShareChain 10).chainConfig Unrestricted
    properUncle.reverse properUncleChain :=
  Run.of_blocks IterOrder.stored (fun _ _ _ => true) (fun _ _ _ _ => trivial) properUncle
    (by decide +kernel)

theorem generate_properUncle : (sampleShareChain 10).generateNewTipBlock sampleCore
    IterOrder.stored 0 ⟨0, 0⟩ [] properUncleChain = .ok misplacedUncleTemplate := by rfl

theorem template_accepted_uncle :
    SelfAccepted sampleCore IterOrder.stored properUncleChain misplacedUncleTemplate := by
  have hready : ReadyFor properUncleChain misplacedUncleTemplate := by
    refine ⟨fun uncle huncle => ?_, by decide +kernel, by decide⟩
    obtain rfl := List.mem_singleton.mp huncle
    have hstored : ((properUncleChain.storedBlock 9 100).map fun u => (u.verified.targetDifficulty,
        u.verified.difficulty, (properUncleChain.storedBlock 8 u.prevHash).isSome)) =
          some (true, true, true) := by decide +kernel
    obtain ⟨u, hu, hflags⟩ := Option.map_eq_some_iff.mp hstored
    simp only [Prod.mk.injEq] at hflags
    exact ⟨u, hu, hflags.1, hflags.2.1, Option.isSome_iff_exists.mp hflags.2.2⟩
  exact (template_accepted (d := 1) run_properUncleChain rfl generate_properUncle rfl (by decide)
    (by decide) (by decide) IterOrder.stored).1
    ⟨hready, run_properUncleChain.recorded.unnamed (by decide)⟩

end P2Chain

end ShaP2Pool
