import ShaP2Pool.Proof.Linkage
import ShaP2Pool.Proof.Overflow
import Mathlib.Data.List.Perm.Subperm

/-!
# Adding a block at the top

No stored block waits for a block that is at least as high as all of them, so its call looks at this
block alone. When blocks are added in order of height, every call is of this kind; the marks are
then never above the new block, and the links of the main chain stay.
-/

namespace ShaP2Pool

namespace P2Chain

open Lineage

variable {core : TariCore} {ord : IterOrder} {config : ChainConfig} {hist : List P2Block}
  {c c' c₀ c₁ : P2Chain} {b b₁ : P2Block} {n height top : Nat} {hash : FixedHash} {w : WalkState}

def NoLevelAbove (c : P2Chain) (height : Nat) : Prop :=
  ∀ height', (c.levelAtHeight height').isSome = true → height' ≤ height

theorem NoLevelAbove.writes (h : NoLevelAbove c b.height) (hw : Writes c b c₀) :
    NoLevelAbove c₀ b.height := by
  intro height' hlevel
  rw [hw.levels, Bool.or_eq_true, decide_eq_true_eq] at hlevel
  obtain rfl | hlevel := hlevel
  · exact le_rfl
  · exact h height' hlevel

theorem NoLevelAbove.chainBlockAt (h : NoLevelAbove c top) (hlt : top < height) :
    c.chainBlockAt height = FixedHash.zero := by
  cases hlevel : c.levelAtHeight height with
  | none => rw [P2Chain.chainBlockAt, hlevel, Option.map_none, Option.getD_none]
  | some level =>
    have hle := h height (by rw [hlevel, Option.isSome_some])
    omega

theorem NoLevelAbove.levelsAbove_le (h : NoLevelAbove c top) (height : Nat) :
    c.levelsAbove height ≤ top - height := by
  have hsub : ((c.levels.values.map (·.height)).filter (height < ·)) ⊆
      List.range' (height + 1) (top - height) := by
    intro height' hmem
    obtain ⟨hmem, hlt⟩ := List.mem_filter.mp hmem
    obtain ⟨level, hlevel⟩ := mem_heights_iff.mp hmem
    have hle := h height' (by rw [hlevel, Option.isSome_some])
    have hlt := of_decide_eq_true hlt
    rw [List.mem_range'_1]
    omega
  have hle := ((c.levels.nodup.filter _).subperm hsub).length_le
  rw [List.length_range'] at hle
  rwa [levelsAbove, List.countP_eq_length_filter]

theorem NoLevelAbove.childrenAndNephews_eq_nil (h : NoLevelAbove c height) :
    c.childrenAndNephews ord n height hash = [] := by
  rw [childrenAndNephews, List.flatMap_eq_nil_iff]
  intro height' hmem
  rw [List.mem_range'_1] at hmem
  cases hlevel : c.levelAtHeight height' with
  | none => rfl
  | some level =>
    have hle := h height' (by rw [hlevel, Option.isSome_some])
    omega

theorem NoLevelAbove.outcome (h : NoLevelAbove c height) (hc : c.StoresAgree)
    {r : EStateM.Result Fault P2Chain (ChainAddResult × List (Nat × FixedHash))}
    (ho : Outcome core ord n height hash c r) (hreturns : Returns r) :
    NoLevelAbove r.state height :=
  fun height' hlevel => h height' ((levelsAfter hc ho hreturns).levels_le hc hlevel)

theorem NoLevelAbove.next_eq_nil {addResult : ChainAddResult} {next : List (Nat × FixedHash)}
    (h : NoLevelAbove c height) (hc : c.StoresAgree)
    (ho : Outcome core ord n height hash c (.ok (addResult, next) c')) : next = [] := by
  have h' : NoLevelAbove c' height := h.outcome hc ho fun p c'' heq => by cases heq
  cases ho with
  | waiting => exact h.childrenAndNephews_eq_nil
  | started | unverified => rfl
  | extended | blocked | stayed | reorganised => exact h'.childrenAndNephews_eq_nil

theorem Visits.eq_start (hvisits : Visits core ord b c w) (hr : Recorded config hist c)
    (hfresh : ∀ a ∈ hist, a.hash ≠ b.hash) (htop : NoLevelAbove c b.height)
    {rest : List (Nat × FixedHash)} (hqueue : w.nextLevel = (height, hash) :: rest) :
    Writes c b w.chain ∧ height = b.height ∧ hash = b.hash := by
  obtain ⟨-, c₀, hinsert, hreach⟩ := hvisits
  obtain ⟨c₀', hinsert', hw⟩ := Writes.of_insertBlock c b
  rw [hinsert, Except.ok.injEq] at hinsert'
  subst hinsert'
  have hc₀ := (hr.writes (hr.unused hfresh) hw).agree
  obtain rfl | ⟨v, hv, hrest⟩ := Relation.ReflTransGen.cases_head hreach
  · rw [List.cons.injEq, Prod.mk.injEq] at hqueue
    exact ⟨hw, hqueue.1.1.symm, hqueue.1.2.symm⟩
  · -- nothing is left after the first round
    obtain ⟨height', hash', rest', addResult, next, chain, hqueue', hinner, -, rfl⟩ :=
      verifyChainStep_inl hv
    rw [List.cons.injEq, Prod.mk.injEq] at hqueue'
    obtain ⟨⟨rfl, rfl⟩, rfl⟩ := hqueue'
    have ho := outcome_verifyChainInner core ord 0 b.height b.hash hc₀
    rw [hinner] at ho
    have hnext := (htop.writes hw).next_eq_nil hc₀ ho
    subst hnext
    obtain rfl | ⟨u, hu, -⟩ := Relation.ReflTransGen.cases_head hrest
    · cases hqueue
    · obtain ⟨_, _, _, _, _, _, hqueue', -⟩ := verifyChainStep_inl hu
      cases hqueue'

theorem exists_outcome_of_top (core : TariCore) (ord : IterOrder) (hallowed : ¬ParentIsUncle b)
    (hr : Recorded config hist c) (hfresh : ∀ a ∈ hist, a.hash ≠ b.hash)
    (htop : NoLevelAbove c b.height) : ∃ c₀ r, Writes c b c₀ ∧
      Outcome core ord 0 b.height b.hash c₀ r ∧ (addBlockToChain core ord b c).state = r.state ∧
      (Returns r → Returns (addBlockToChain core ord b c)) := by
  have hunused := hr.unused hfresh
  obtain ⟨c₀, hinsert, hw⟩ := Writes.of_insertBlock c b
  have hc₀ := (hr.writes hunused hw).agree
  have ho := outcome_verifyChainInner core ord 0 b.height b.hash hc₀
  refine ⟨c₀, _, hw, ho, ?_⟩
  cases hinner : verifyChainInner core ord 0 b.height b.hash c₀ with
  | error fault chain =>
    have hexit : verifyChainStep core ord { chain := c₀, nextLevel := [(b.height, b.hash)] } =
        .inr (.error fault chain) := by
      simp only [verifyChainStep, hinner]
    rw [addBlockToChain_eq_of_exit hr hunused ⟨hallowed, c₀, hinsert, Reaches.refl⟩ hexit]
    refine ⟨rfl, fun hreturns p c' heq => ?_⟩
    cases heq
    exact hreturns p chain rfl
  | ok result chain =>
    obtain ⟨addResult, next⟩ := result
    rw [hinner] at ho
    have hnext := (htop.writes hw).next_eq_nil hc₀ ho
    subst hnext
    rw [addBlockToChain_of_first_visit hallowed hr hunused hinsert hinner]
    exact ⟨rfl, fun _ p c' heq => by cases heq⟩

/-- A call for a block at the top keeps the links. -/
theorem linksGuarded_of_top (hr : Recorded config hist c) (hd : Distinct (b :: hist))
    (hl : MainChainLinked hist c)
    (hfresh : ∀ a ∈ hist, a.hash ≠ b.hash) (htop : NoLevelAbove c b.height)
    (htip : c.tipHash ≠ FixedHash.zero → c.currentTip ≤ b.height)
    (hwide : config.shareWindow ≤ maxLevels config) : LinksGuarded core hist c ord b := by
  intro w height hash rest hvisits hqueue
  obtain ⟨hw, rfl, rfl⟩ := hvisits.eq_start hr hfresh htop hqueue
  have hr₀ := hr.writes (hr.unused hfresh) hw
  have htop₀ := htop.writes hw
  refine ⟨fun _ height' hlt => htop₀.chainBlockAt hlt, fun _ => Or.inr fun height' hwindow => ?_,
    fun b₁ c₁ hreorgs target hlt hmarked => ?_, fun b₁ c₁ hreorgs height' hwindow hout hrejoins => ?_⟩
  · have hle := htop₀.levelsAbove_le height'
    obtain ⟨hle', hlt⟩ := hwindow
    rw [hr₀.config_eq] at hlt ⊢
    omega
  · exact absurd (htop₀.chainBlockAt hlt) hmarked
  · -- the window of the new block does not reach below that of the tip
    obtain ⟨x, result, hcandidate, -⟩ := hreorgs
    have hc₁ := hcandidate.storesAgree hr₀.agree
    have hl₁ := (hl.writes hr hfresh hw).checked hr₀.agree hcandidate.toChecked
    obtain ⟨i, m, -, hm, hle, hmark⟩ := hrejoins
    have hmStored := stored_of_ancestorOf hc₁ (hr₀.stored_checked hcandidate.toChecked) hm
    have hne : c₁.chainBlockAt m.height ≠ FixedHash.zero := by
      rw [hmark]
      exact (hr₀.checked hcandidate.toChecked).hash_ne_zero hd hmStored
    have htipNe : c₁.tipHash ≠ FixedHash.zero := fun hzero => hne (hl₁.unmarked hzero m.height)
    have hmTip : m.height ≤ c₁.currentTip := by
      by_contra hgt
      exact hne (hl₁.above m.height (by omega))
    have htipLe : c₁.currentTip ≤ b₁.height := by
      rw [hcandidate.tipHash_eq, hw.tipHash_eq] at htipNe
      rw [hcandidate.currentTip, hw.currentTip, hcandidate.height_eq hr₀.agree]
      exact htip htipNe
    have hlt := hwindow.2
    exact absurd ⟨by omega, by omega⟩ hout

end P2Chain

end ShaP2Pool
