import ShaP2Pool.Proof.Checks

/-!
# Pruning

Every call can create a level, but only `set_new_tip` removes levels, and it removes the lowest ones
whatever the height of the tip. So levels pile up while blocks arrive that start or extend no chain,
and once there are enough of them above the tip, the next block of the chain takes its own level and
those of the share window with it.
-/

namespace ShaP2Pool

namespace P2Chain

variable {core : TariCore} {ord : IterOrder} {config : ChainConfig} {n height height' : Nat}
variable {hash : FixedHash} {c c' c₀ c₁ c₂ : P2Chain} {b b₁ : P2Block} {hist : List P2Block}
variable {P : List P2Block → P2Chain → IterOrder → P2Block → Prop}
variable {r : EStateM.Result Fault P2Chain (ChainAddResult × List (Nat × FixedHash))}

/-- Visiting the block stored at a height under a hash makes it the tip by `set_new_tip`: it starts
the chain, or it is verified, builds on the tip and has its uncles accepted. -/
def SetsNewTip (core : TariCore) (c : P2Chain) (height : Nat) (hash : FixedHash) : Prop :=
  ∃ b v, c.storedBlock height hash = some b ∧
    (c.missingReferences height hash b.prevHash).missingBlocks.size = 0 ∧
    c.statusAfter core b = .ok v ∧
    ((c.getTip = none ∧ height = 0) ∨
      (v.isVerified = true ∧ c.buildsOnTip b.header = true ∧ c.checkUncles b.uncles = .ok ()))

theorem Checked.getTip_eq_none_iff (hv : Checked core c height hash b b₁ c₁) :
    c₁.getTip = none ↔ c.getTip = none := by
  rw [P2Chain.getTip_eq_none_iff, P2Chain.getTip_eq_none_iff, hv.tipHash_eq]

/-- What is known of a checked block decides whether its visit sets a new tip. -/
theorem Checked.setsNewTip_iff (hc : c.StoresAgree) (hv : Checked core c height hash b b₁ c₁) :
    SetsNewTip core c height hash ↔ (c₁.getTip = none ∧ height = 0) ∨
      (b₁.verified.isVerified = true ∧ c₁.buildsOnTip b₁.header = true ∧
        c₁.checkUncles b₁.uncles = .ok ()) := by
  rw [hv.getTip_eq_none_iff, hv.buildsOnTip_eq, hv.checkUncles_eq hc, hv.uncles_eq]
  constructor
  · intro ⟨x, v, hx, _, hstatus, hcases⟩
    rw [hv.stored, Option.some.injEq] at hx
    subst hx
    rw [hv.statusAfter_eq, Except.ok.injEq] at hstatus
    rwa [hstatus]
  · exact fun hcases => ⟨b, b₁.verified, hv.stored, hv.complete, hv.statusAfter_eq, hcases⟩

theorem not_setsNewTip_of_absent (habsent : c.storedBlock height hash = none) :
    ¬SetsNewTip core c height hash := by
  intro ⟨b, v, hb, _⟩
  rw [habsent] at hb
  cases hb

theorem not_setsNewTip_of_missing (hb : c.storedBlock height hash = some b)
    (hmissing : (c.missingReferences height hash b.prevHash).missingBlocks.size ≠ 0) :
    ¬SetsNewTip core c height hash := by
  intro ⟨x, v, hx, hcomplete, _⟩
  rw [hb, Option.some.injEq] at hx
  subst hx
  exact hmissing hcomplete

theorem not_setsNewTip_of_refused {fault : Fault} (hb : c.storedBlock height hash = some b)
    (hunverified : b.verified.isVerified = false) (hchecks : c.runChecks core b = .error fault) :
    ¬SetsNewTip core c height hash := by
  intro ⟨x, v, hx, _, hstatus, _⟩
  rw [hb, Option.some.injEq] at hx
  subst hx
  rw [statusAfter, if_neg (by simp [hunverified]), hchecks] at hstatus
  cases hstatus

theorem Checked.not_setsNewTip (hc : c.StoresAgree) (hv : Checked core c height hash b b₁ c₁)
    (hnotStart : ¬(c₁.getTip = none ∧ height = 0))
    (hnotExtended : b₁.verified.isVerified = true → c₁.buildsOnTip b₁.header = true →
      c₁.checkUncles b₁.uncles ≠ .ok ()) : ¬SetsNewTip core c height hash := by
  rw [hv.setsNewTip_iff hc]
  rintro (hstart | ⟨hverified, honTip, haccepted⟩)
  · exact hnotStart hstart
  · exact hnotExtended hverified honTip haccepted

theorem OffTip.not_setsNewTip (hc : c.StoresAgree) (hoff : OffTip core c height hash b b₁ c₁) :
    ¬SetsNewTip core c height hash := by
  refine hoff.toChecked.not_setsNewTip hc hoff.notStart (fun _ honTip => ?_)
  rw [hoff.offTip] at honTip
  cases honTip

/-- The chain after a verification: pruned behind a new tip, or with the levels it had. -/
inductive LevelsAfter (core : TariCore) (c : P2Chain) (height : Nat) (hash : FixedHash) :
    P2Chain → Prop
  | pruned {b b₁ : P2Block} {c₁ c₂ : P2Chain} (hset : SetsNewTip core c height hash)
    (hchecked : Checked core c height hash b b₁ c₁) (hmoves : MovesTip c₁ b₁ c₂) :
    LevelsAfter core c height hash c₂.cleanupChain
  | reorganised {b b₁ : P2Block} {c₁ c₂ : P2Chain} (hkept : ¬SetsNewTip core c height hash)
    (hchecked : Checked core c height hash b b₁ c₁) (hreorg : Reorganises c₁ b₁.header c₂)
    (htip : ∃ header, c₁.getBlockHeaderAtHeight b₁.height (c₂.chainBlockAt b₁.height) = some header) :
    LevelsAfter core c height hash c₂
  | checked {b b₁ : P2Block} {c₁ : P2Chain} (hkept : ¬SetsNewTip core c height hash)
    (hchecked : Checked core c height hash b b₁ c₁) : LevelsAfter core c height hash c₁
  | unchanged (hkept : ¬SetsNewTip core c height hash) : LevelsAfter core c height hash c

/-- Every verification that returns leaves such a chain. -/
theorem levelsAfter (hc : c.StoresAgree) (ho : Outcome core ord n height hash c r)
    (hreturns : Returns r) : LevelsAfter core c height hash r.state := by
  cases ho with
  | absent habsent => exact LevelsAfter.unchanged (not_setsNewTip_of_absent habsent)
  | overflow c' hheight => exact absurd rfl (hreturns .overflow c')
  | waiting hstored hmissing hfits =>
    exact LevelsAfter.unchanged (not_setsNewTip_of_missing hstored hmissing)
  | refused hstored hcomplete hunverified hchecks =>
    exact LevelsAfter.unchanged (not_setsNewTip_of_refused hstored hunverified hchecks)
  | started hchecked htip hheight hmoves =>
    exact LevelsAfter.pruned ((hchecked.setsNewTip_iff hc).mpr (Or.inl ⟨htip, hheight⟩)) hchecked
      hmoves
  | unverified hchecked hnotStart hunverified =>
    exact LevelsAfter.checked (hchecked.not_setsNewTip hc hnotStart (by simp [hunverified])) hchecked
  | badUncles hchecked hnotStart hverified honTip huncles =>
    exact LevelsAfter.checked (hchecked.not_setsNewTip hc hnotStart (by simp [huncles])) hchecked
  | extended hchecked hnotStart hverified honTip huncles hmoves hfits =>
    exact LevelsAfter.pruned
      ((hchecked.setsNewTip_iff hc).mpr (Or.inr ⟨hverified, honTip, huncles⟩)) hchecked hmoves
  | scanFault hoff hscan => exact LevelsAfter.checked (hoff.not_setsNewTip hc) hoff.toChecked
  | blocked hoff hscan hblocked hfits =>
    exact LevelsAfter.checked (hoff.not_setsNewTip hc) hoff.toChecked
  | stayed hcandidate hpow hfits =>
    exact LevelsAfter.checked (hcandidate.toOffTip.not_setsNewTip hc) hcandidate.toChecked
  | reorgFault hcandidate hpow hreorg =>
    exact LevelsAfter.checked (hcandidate.toOffTip.not_setsNewTip hc) hcandidate.toChecked
  | reorganised hcandidate hpow hreorg hfits =>
    exact LevelsAfter.reorganised (hcandidate.toOffTip.not_setsNewTip hc) hcandidate.toChecked
      (hcandidate.reorganises hc hreorg)
      (tip_stored_of_reorg (hcandidate.toChecked.header_stored hc) hreorg)

/-- A visit that sets a new tip moves it, prunes the chain and goes on with the block's descendants,
or with none. -/
theorem exists_of_setsNewTip (core : TariCore) (ord : IterOrder) (n : Nat) (hc : c.StoresAgree)
    (hset : SetsNewTip core c height hash) (hfits : height + maxUncleAge ≤ u64Max) :
    ∃ b b₁ c₁ c₂ result next, Checked core c height hash b b₁ c₁ ∧ MovesTip c₁ b₁ c₂ ∧
      verifyChainInner core ord n height hash c = .ok (result, next) c₂.cleanupChain ∧
      next ⊆ c₂.cleanupChain.childrenAndNephews ord n height hash := by
  have ho := outcome_verifyChainInner core ord n height hash hc
  generalize verifyChainInner core ord n height hash c = r at ho ⊢
  cases ho with
  | absent habsent => exact absurd hset (not_setsNewTip_of_absent habsent)
  | overflow c' hheight => exact absurd hfits (Nat.not_le.mpr hheight)
  | waiting hstored hmissing => exact absurd hset (not_setsNewTip_of_missing hstored hmissing)
  | refused hstored hcomplete hunverified hchecks =>
    exact absurd hset (not_setsNewTip_of_refused hstored hunverified hchecks)
  | started hchecked htip hheight hmoves =>
    exact ⟨_, _, _, _, _, _, hchecked, hmoves, rfl, List.nil_subset _⟩
  | unverified hchecked hnotStart hunverified =>
    exact absurd hset (hchecked.not_setsNewTip hc hnotStart (by simp [hunverified]))
  | badUncles hchecked hnotStart hverified honTip huncles =>
    exact absurd hset (hchecked.not_setsNewTip hc hnotStart (by simp [huncles]))
  | extended hchecked hnotStart hverified honTip huncles hmoves =>
    exact ⟨_, _, _, _, _, _, hchecked, hmoves, rfl, List.Subset.refl _⟩
  | scanFault hoff | blocked hoff => exact absurd hset (hoff.not_setsNewTip hc)
  | stayed hcandidate | reorgFault hcandidate | reorganised hcandidate =>
    exact absurd hset (hcandidate.toOffTip.not_setsNewTip hc)

namespace LevelsAfter

theorem unset (hafter : LevelsAfter core c height hash c') (hc : c.StoresAgree)
    (hkept : ¬SetsNewTip core c height hash) (height' : Nat) :
    (c'.levelAtHeight height').isSome = (c.levelAtHeight height').isSome := by
  cases hafter with
  | pruned hset => exact absurd hset hkept
  | reorganised hkept hchecked hreorg =>
    rw [hreorg.same.levelAtHeight_isSome, hchecked.levelAtHeight_isSome hc]
  | checked hkept hchecked => exact hchecked.levelAtHeight_isSome hc height'
  | unchanged => rfl

/-- A new tip leaves the levels that have few enough levels above them. -/
theorem set (hafter : LevelsAfter core c height hash c') (hc : c.StoresAgree)
    (hset : SetsNewTip core c height hash) (height' : Nat) :
    (c'.levelAtHeight height').isSome =
      (decide (c.levelsAbove height' < maxLevels c.config) && (c.levelAtHeight height').isSome) := by
  cases hafter with
  | pruned _ hchecked hmoves =>
    have hlevels (height' : Nat) : ((_ : P2Chain).levelAtHeight height').isSome =
        (c.levelAtHeight height').isSome :=
      (hmoves.same.levelAtHeight_isSome height').trans (hchecked.levelAtHeight_isSome hc height')
    rw [levelAtHeight_cleanupChain, levelsAbove_congr (fun height'' _ => hlevels height''),
      hmoves.same.config, hchecked.config]
    split_ifs with hfew
    · rw [hlevels, decide_eq_true hfew, Bool.true_and]
    · rw [decide_eq_false hfew, Bool.false_and]
      rfl
  | reorganised hkept => exact absurd hset hkept
  | checked hkept => exact absurd hset hkept
  | unchanged hkept => exact absurd hset hkept

theorem levels_le (hafter : LevelsAfter core c height hash c') (hc : c.StoresAgree) {height' : Nat}
    (h : (c'.levelAtHeight height').isSome = true) : (c.levelAtHeight height').isSome = true := by
  by_cases hset : SetsNewTip core c height hash
  · rw [hafter.set hc hset, Bool.and_eq_true] at h
    exact h.2
  · rwa [hafter.unset hc hset] at h

theorem config_eq (hafter : LevelsAfter core c height hash c') (hc : c.StoresAgree) :
    c'.config = c.config := by
  cases hafter with
  | pruned _ hchecked hmoves =>
    rw [(Prunes.cleanupChain (hmoves.same.storesAgree (hchecked.storesAgree hc))).config,
      hmoves.same.config, hchecked.config]
  | reorganised _ hchecked hreorg htip => rw [hreorg.same.config, hchecked.config]
  | checked _ hchecked => exact hchecked.config
  | unchanged => rfl

theorem size_le (hafter : LevelsAfter core c height hash c') (hc : c.StoresAgree) :
    c'.levels.size ≤ c.levels.size := by
  by_cases hset : SetsNewTip core c height hash
  · have hsubset : c'.levels.values.map (·.height) ⊆ c.levels.values.map (·.height) := by
      intro height' hmem
      rw [mem_heights_iff, ← Option.isSome_iff_exists] at hmem ⊢
      exact hafter.levels_le hc hmem
    have hlength := (List.subperm_of_subset c'.levels.nodup hsubset).length_le
    rwa [List.length_map, List.length_map] at hlength
  · exact (size_levels_congr (hafter.unset hc hset)).le

/-- A block is lost with its level only. -/
theorem exists_storedBlock (hafter : LevelsAfter core c height hash c') (hc : c.StoresAgree)
    {height' : Nat} {hash' : FixedHash} {x : P2Block} (hx : c.storedBlock height' hash' = some x)
    (hlevel : (c'.levelAtHeight height').isSome = true) :
    ∃ x', c'.storedBlock height' hash' = some x' := by
  cases hafter with
  | pruned _ hchecked hmoves =>
    obtain ⟨x₁, hx₁, -⟩ := hchecked.exists_storedBlock hc hx
    have hc₂ := hmoves.same.storesAgree (hchecked.storesAgree hc)
    refine ⟨x₁, ?_⟩
    rw [(Prunes.cleanupChain hc₂).storedBlock hc₂, if_pos hlevel, hmoves.same.storedBlock, hx₁]
  | reorganised _ hchecked hreorg =>
    obtain ⟨x₁, hx₁, -⟩ := hchecked.exists_storedBlock hc hx
    exact ⟨x₁, by rw [hreorg.same.storedBlock, hx₁]⟩
  | checked _ hchecked =>
    obtain ⟨x₁, hx₁, -⟩ := hchecked.exists_storedBlock hc hx
    exact ⟨x₁, hx₁⟩
  | unchanged => exact ⟨x, hx⟩

theorem tip_ne_zero (hafter : LevelsAfter core c height hash c') (hr : Recorded config hist c)
    (hd : Distinct hist) {t : Nat} (ht : c.currentTip = t → c.chainBlockAt t ≠ FixedHash.zero)
    (hkept : SetsNewTip core c height hash → height = t → c.levelsAbove t < maxLevels config)
    (htip : c'.currentTip = t) : c'.chainBlockAt t ≠ FixedHash.zero := by
  cases hafter with
  | pruned hset hchecked hmoves =>
    have hr₁ := hr.checked hchecked
    have hprunes := Prunes.cleanupChain (hmoves.same.storesAgree hr₁.agree)
    have hstored := hr.stored_checked hchecked
    rw [hprunes.currentTip, hmoves.currentTip] at htip
    obtain ⟨level, hlevel, -⟩ := hr.agree.level_of_storedBlock hchecked.stored
    have hheight := hchecked.height_eq hr.agree
    have hpresent := (LevelsAfter.pruned hset hchecked hmoves).set hr.agree hset t
    rw [hr.config_eq, decide_eq_true (hkept hset (hheight.symm.trans htip)), Bool.true_and, ← htip,
      hheight, hlevel, Option.isSome_some] at hpresent
    rw [hprunes.chainBlockAt, ← htip, hheight, if_pos hpresent, hmoves.chainBlockAt, hheight,
      if_pos rfl]
    exact hr₁.hash_ne_zero hd hstored
  | reorganised _ hchecked hreorg hstored =>
    rw [hreorg.currentTip] at htip
    obtain ⟨header, hheader⟩ := hstored
    obtain ⟨x, hx, -⟩ := (hr.checked hchecked).agree.storedBlock_of_header hheader
    rw [← htip]
    exact (hr.checked hchecked).hash_ne_zero hd hx
  | checked _ hchecked =>
    rw [hchecked.chainBlockAt]
    exact ht (hchecked.currentTip ▸ htip)
  | unchanged => exact ht htip

end LevelsAfter

/-! ### Chains with many orphans -/

/-- A block whose parent nobody has, at a height that is also its hash. -/
def orphan (i : Nat) : P2Block := sampleBlock i FixedHash.zero i 1

theorem not_names_orphan {i j : Nat} (hj : j ≠ 0) : ¬Names (orphan i) j := by
  rintro (hprev | ⟨uncle, huncle, -⟩)
  · exact hj hprev.symm
  · cases huncle

theorem mem_orphans {base : Nat} {a : P2Block}
    (ha : a ∈ ((List.range' base n).map orphan).reverse ++ hist) :
    a ∈ hist ∨ ∃ i, i < base + n ∧ a = orphan i := by
  rcases List.mem_append.mp ha with hmem | hmem
  · obtain ⟨i, hi, rfl⟩ := List.mem_map.mp (List.mem_reverse.mp hmem)
    exact Or.inr ⟨i, (List.mem_range'_1.mp hi).2, rfl⟩
  · exact Or.inl hmem

theorem addBlockToChain_orphan (core : TariCore) (ord : IterOrder) {i : Nat}
    (hr : Recorded config hist c) (hd : Distinct hist) (hi : i ≠ 0)
    (hfits : i + maxUncleAge ≤ u64Max) (hfresh : ∀ a ∈ hist, a.hash ≠ i)
    (hnames : ∀ a ∈ hist, ¬Names a i) :
    ∃ result c₀, Writes c (orphan i) c₀ ∧
      addBlockToChain core ord (orphan i) c = .ok result c₀ := by
  obtain ⟨c₀, hinsert, hw⟩ := Writes.of_insertBlock c (orphan i)
  have hunused := hr.unused (b := orphan i) hfresh
  have hr₀ := hr.writes hunused hw
  have hb := hr.storedBlock_of_writes hunused hw
  have hd₀ : Distinct (orphan i :: hist) := hd.cons hi hfresh
  have hmissing : (c₀.missingReferences (orphan i).height (orphan i).hash
      (orphan i).prevHash).missingBlocks.size ≠ 0 := by
    rw [Ne, complete_iff hr₀.agree hb]
    intro hcomplete
    obtain ⟨⟨p, hp⟩, -⟩ := hcomplete hi
    exact hr₀.hash_ne_zero hd₀ (stored_of_parentOf hr₀.agree hp) (hash_of_parentOf hr₀.agree hp)
  have hnext : c₀.childrenAndNephews ord 0 (orphan i).height (orphan i).hash = [] :=
    (hr₀.unnamed (List.forall_mem_cons.mpr
      ⟨not_names_orphan hi, hnames⟩)).childrenAndNephews_eq_nil hr₀.agree
  have hfirst := verifyChainInner_of_missing core ord 0 hr₀.agree hb hmissing hfits
  rw [hnext] at hfirst
  have hallowed : ¬ParentIsUncle (orphan i) := by
    intro hrefused
    cases hrefused
  exact ⟨_, c₀, hw, addBlockToChain_of_first_visit hallowed hr hunused hinsert hfirst⟩

/-- The second chain is the first with `n` orphans at the heights from `base` on. -/
structure WithOrphans (c : P2Chain) (base n : Nat) (c' : P2Chain) : Prop where
  tip : SameMainChain c c'
  levels : ∀ height, (c'.levelAtHeight height).isSome =
    (decide (base ≤ height ∧ height < base + n) || (c.levelAtHeight height).isSome)
  size : c'.levels.size = c.levels.size + n
  above : ∀ height < base, c'.levelsAbove height = c.levelsAbove height + n
  stored : ∀ {height hash x}, c.storedBlock height hash = some x → c'.storedBlock height hash = some x

/-- Orphans can be added at any heights above those in use. -/
theorem exists_withOrphans (core : TariCore) (ord : IterOrder) (base : Nat)
    (hrun : Run core config P hist c) (hbase : base ≠ 0)
    (hlevels : ∀ height, base ≤ height → c.levelAtHeight height = none)
    (hfresh : ∀ a ∈ hist, a.hash < base) (hnames : ∀ a ∈ hist, ∀ i, base ≤ i → ¬Names a i) (n : Nat)
    (hfits : base + n + maxUncleAge ≤ u64Max)
    (hstep : ∀ i < n, ∀ hist' c', c'.config = config → c'.levels.size = c.levels.size + i →
      P hist' c' ord (orphan (base + i))) :
    ∃ c', Run core config P (((List.range' base n).map orphan).reverse ++ hist) c' ∧
      WithOrphans c base n c' ∧ c'.cachedShares = c.cachedShares := by
  induction n with
  | zero =>
    refine ⟨c, hrun, ⟨⟨rfl, fun _ => rfl, rfl⟩, fun height => ?_, rfl, fun _ _ => rfl, id⟩, rfl⟩
    rw [decide_eq_false (by omega), Bool.false_or]
  | succ n ih =>
    obtain ⟨c', hrun', hgrown, hcached⟩ := ih (by omega) fun i hi => hstep i (Nat.lt_succ_of_lt hi)
    have hfresh' : ∀ a ∈ ((List.range' base n).map orphan).reverse ++ hist, a.hash ≠ base + n := by
      intro a ha
      rcases mem_orphans ha with hmem | ⟨i, hi, rfl⟩
      · exact Nat.ne_of_lt ((hfresh a hmem).trans_le (Nat.le_add_right base n))
      · exact Nat.ne_of_lt hi
    have hnames' : ∀ a ∈ ((List.range' base n).map orphan).reverse ++ hist,
        ¬Names a (base + n) := by
      intro a ha
      rcases mem_orphans ha with hmem | ⟨i, -, rfl⟩
      · exact hnames a hmem _ (Nat.le_add_right base n)
      · exact not_names_orphan (by omega)
    obtain ⟨result, c₀, hw, hcall⟩ := addBlockToChain_orphan core ord hrun'.recorded hrun'.distinct
      (i := base + n) (by omega) (by omega) hfresh' hnames'
    have hnext : Run core config P (orphan (base + n) ::
        (((List.range' base n).map orphan).reverse ++ hist))
        (addBlockToChain core ord (orphan (base + n)) c').state := hrun'.added (by
        show base + n ≠ 0
        omega) hfresh' (fun hrefused => by cases hrefused)
        (hstep n (Nat.lt_succ_self n) _ c' hrun'.recorded.config_eq hgrown.size) (Returns.of_ok hcall)
    rw [hcall, EStateM.Result.state_ok] at hnext
    have hnone : c'.levelAtHeight (base + n) = none := by
      rw [← Option.not_isSome_iff_eq_none, hgrown.levels, decide_eq_false (by omega),
        hlevels _ (Nat.le_add_right base n)]
      simp
    have hperm := heights_perm_cons hnone hw.levels
    refine ⟨c₀, ?_, ⟨hgrown.tip.trans ⟨hw.currentTip, hw.chainBlockAt, hw.lwma⟩, fun height => ?_, ?_,
      fun height hlt => ?_, fun {height hash x} hx => ?_⟩, hw.cachedShares.trans hcached⟩
    · rwa [List.range'_1_concat, List.map_append, List.reverse_append]
    · rw [hw.levels, hgrown.levels, ← Bool.or_assoc]
      congr 1
      rw [Bool.eq_iff_iff, Bool.or_eq_true, decide_eq_true_eq, decide_eq_true_eq, decide_eq_true_eq,
        show (orphan (base + n)).height = base + n from rfl]
      omega
    · have hlength := hperm.length_eq
      rw [List.length_cons, List.length_map, List.length_map] at hlength
      exact hlength.trans (congrArg Nat.succ hgrown.size)
    · rw [levelsAbove, hperm.countP_eq, List.countP_cons_of_pos (by simpa using by omega)]
      exact congrArg Nat.succ (hgrown.above height hlt)
    · rw [hw.storedBlock hrun'.recorded.agree (hrun'.recorded.unused hfresh'), if_neg ?_]
      · exact hgrown.stored hx
      · rintro ⟨-, rfl⟩
        obtain ⟨a, ha, heq⟩ := hrun'.recorded.mem_hashes (hgrown.stored hx)
        exact hfresh' a ha heq

/-! ### The number of levels -/

theorem Writes.size_levels_le (hw : Writes c b c') : c'.levels.size ≤ c.levels.size + 1 := by
  cases hlevel : c.levelAtHeight b.height with
  | none =>
    have hlength := (heights_perm_cons hlevel hw.levels).length_eq
    rw [List.length_cons, List.length_map, List.length_map] at hlength
    exact hlength.le
  | some level =>
    refine (size_levels_congr (fun height => ?_)).le.trans (Nat.le_succ _)
    rw [hw.levels]
    by_cases heq : height = b.height
    · rw [heq, hlevel]
      simp
    · rw [decide_eq_false heq, Bool.false_or]

theorem Writes.size_levels_eq (hw : Writes c b c')
    (hlevel : (c.levelAtHeight b.height).isSome = true) : c'.levels.size = c.levels.size := by
  refine size_levels_congr (fun height => ?_)
  rw [hw.levels]
  by_cases heq : height = b.height
  · rw [heq, hlevel, Bool.or_true]
  · rw [decide_eq_false heq, Bool.false_or]

/-! ### The share window of the tip -/

/-- The chain that the verification of a new block starts from. -/
def received (c : P2Chain) (b : P2Block) : P2Chain :=
  if ParentIsUncle b then c
  else
    match c.insertBlock b with
    | .ok c₀ => c₀
    | .error _ => c

theorem received_of_allowed (hallowed : ¬ParentIsUncle b) (hinsert : c.insertBlock b = .ok c₀) :
    c.received b = c₀ := by
  rw [received, if_neg hallowed, hinsert]

theorem writes_received (hallowed : ¬ParentIsUncle b) : Writes c b (c.received b) := by
  obtain ⟨c₀, hinsert, hw⟩ := Writes.of_insertBlock c b
  rwa [received_of_allowed hallowed hinsert]

/-- What is known of the chain while a call keeps the levels that it ends with in the window of
`t`. -/
structure LiveAt (config : ChainConfig) (hist : List P2Block) (c₀ : P2Chain) (t : Nat) (c : P2Chain) :
    Prop where
  recorded : Recorded config hist c
  levels : ∀ height, t - config.shareWindow ≤ height → height ≤ t →
    (c₀.levelAtHeight height).isSome = true → (c.levelAtHeight height).isSome = true
  blocks : ∀ height hash x, t - config.shareWindow ≤ height → height ≤ t →
    c₀.storedBlock height hash = some x → ∃ x', c.storedBlock height hash = some x'
  below : ∀ height, (c.levelAtHeight height).isSome = true → (c₀.levelAtHeight height).isSome = true
  tip : c.currentTip = t → c.chainBlockAt t ≠ FixedHash.zero

/-- One verification keeps the window if there is room above its levels. -/
theorem LiveAt.outcome {t : Nat} (hlive : LiveAt config hist c₀ t c) (hd : Distinct hist)
    (ho : Outcome core ord n height hash c r) (hreturns : Returns r)
    (hroom : SetsNewTip core c height hash → ∀ height', t - config.shareWindow ≤ height' →
      height' ≤ t → (c₀.levelAtHeight height').isSome = true →
      c.levelsAbove height' < maxLevels config) : LiveAt config hist c₀ t r.state := by
  have hr := hlive.recorded
  have hafter := levelsAfter hr.agree ho hreturns
  have hlevels (height' : Nat) (hlow : t - config.shareWindow ≤ height') (hhigh : height' ≤ t)
      (h : (c₀.levelAtHeight height').isSome = true) :
      (r.state.levelAtHeight height').isSome = true := by
    by_cases hset : SetsNewTip core c height hash
    · rw [hafter.set hr.agree hset, hr.config_eq, hlive.levels height' hlow hhigh h,
        decide_eq_true (hroom hset height' hlow hhigh h)]
      rfl
    · rw [hafter.unset hr.agree hset]
      exact hlive.levels height' hlow hhigh h
  refine ⟨hr.outcome ho hreturns, hlevels, fun height' hash' x hlow hhigh hx => ?_,
    fun height' h => hlive.below height' (hafter.levels_le hr.agree h), fun htip => ?_⟩
  · obtain ⟨x', hx'⟩ := hlive.blocks height' hash' x hlow hhigh hx
    refine hafter.exists_storedBlock hr.agree hx' (hlevels height' hlow hhigh ?_)
    obtain ⟨level, hlevel, -⟩ := hr.agree.level_of_storedBlock hx'
    exact hlive.below height' (by rw [hlevel]; rfl)
  · refine hafter.tip_ne_zero hr hd hlive.tip (fun hset heq => ?_) htip
    obtain ⟨x, v, hx, -⟩ := id hset
    obtain ⟨level, hlevel, -⟩ := hr.agree.level_of_storedBlock hx
    exact hroom hset t (Nat.sub_le _ _) le_rfl
      (hlive.below t (by rw [← heq, hlevel]; rfl))

def firstChain : P2Chain := addAll sampleCore .stored [sampleBlock 1 0 0 1] (newEmpty (sampleConfig 10))

def crowdedBlock : P2Block := sampleBlock 10000 1 1 2

structure HasFirst (c : P2Chain) : Prop where
  heights : c.levels.values.map (·.height) = [0]
  tipHash : c.tipHash = 1
  stored : ∃ g, c.storedBlock 0 1 = some g ∧ g.totalPow = 1

theorem hasFirst_firstChain : HasFirst firstChain :=
  ⟨by decide, by decide, _, (Option.some_get (by decide)).symm, by decide⟩

theorem HasFirst.levelAtHeight_eq_none (hfirst : HasFirst c) (hne : height ≠ 0) :
    c.levelAtHeight height = none := by
  rw [Option.eq_none_iff_forall_ne_some]
  intro level hlevel
  have hmem := mem_heights_iff.mpr ⟨level, hlevel⟩
  rw [hfirst.heights, List.mem_singleton] at hmem
  exact hne hmem

theorem not_names_first {a : P2Block} (ha : a ∈ [sampleBlock 1 0 0 1]) (i : FixedHash) (hi : 2 ≤ i) :
    ¬Names a i := by
  rw [List.mem_singleton] at ha
  subst ha
  rintro (hprev | ⟨uncle, huncle, -⟩)
  · obtain rfl : (0 : Nat) = i := hprev
    exact absurd hi (by decide)
  · cases huncle

theorem HasFirst.setsNewTip (hfirst : HasFirst c₁) {shareWindow : Nat} (hgrown : WithOrphans c₁ 2 n c)
    (hr : Recorded (sampleConfig shareWindow) hist c) (hfresh : ∀ a ∈ hist, a.hash ≠ crowdedBlock.hash)
    (hw : Writes c crowdedBlock c₀) :
    SetsNewTip sampleCore c₀ crowdedBlock.height crowdedBlock.hash := by
  have hr₀ := hr.writes (hr.unused hfresh) hw
  have hb := hr.storedBlock_of_writes (hr.unused hfresh) hw
  obtain ⟨g, hg, hpow⟩ := hfirst.stored
  have hg₀ : c₀.storedBlock 0 1 = some g := by
    rw [hw.storedBlock hr.agree (hr.unused hfresh), if_neg (by decide)]
    exact hgrown.stored hg
  have hparent : c₀.parentOf crowdedBlock = some g := hg₀
  have htip : c₀.tipHash = 1 := by
    rw [P2Chain.tipHash, hw.chainBlockAt, hw.currentTip, hgrown.tip.chainBlockAt,
      hgrown.tip.currentTip]
    exact hfirst.tipHash
  have hpassed : c₀.verifyPowAndParents crowdedBlock = .ok true :=
    verifyPowAndParents_of_work hr₀.agree le_rfl rfl hparent (by rw [hpow]; decide) (by rw [hpow]; rfl)
  have hchecks : c₀.runChecks sampleCore crowdedBlock = .ok ⟨true, true, true, true, true⟩ := by
    rw [runChecks_serverBypass (by rw [hr₀.config_eq]; rfl), hpassed]
    rfl
  refine ⟨crowdedBlock, _, hb, ?_, hchecks, Or.inr ⟨rfl, ?_, rfl⟩⟩
  · exact (complete_iff hr₀.agree hb).mpr (fun _ => ⟨⟨g, hparent⟩, by simp [crowdedBlock, sampleBlock]⟩)
  · rw [buildsOnTip_iff, htip]
    exact ⟨by decide, rfl⟩

/-- The levels above one of the two blocks: the orphans, and above height 0 the level of the
second. -/
theorem HasFirst.levelsAbove (hfirst : HasFirst c₁) (hgrown : WithOrphans c₁ 2 n c)
    (hw : Writes c crowdedBlock c₀) (hlow : height ≤ 1) :
    c₀.levelsAbove height = [1].countP (height < ·) + n := by
  have hnone : c.levelAtHeight crowdedBlock.height = none := by
    rw [← Option.not_isSome_iff_eq_none, hgrown.levels, hfirst.levelAtHeight_eq_none (by decide),
      decide_eq_false (fun hle => absurd hle.1 (by decide))]
    exact Bool.false_ne_true
  rw [P2Chain.levelsAbove, (heights_perm_cons hnone hw.levels).countP_eq, ← List.singleton_append,
    List.countP_append]
  congr 1
  rw [← P2Chain.levelsAbove, hgrown.above height (Nat.lt_succ_of_le hlow), P2Chain.levelsAbove,
    hfirst.heights]
  simp

/-- A chain with orphans above height 1 to which the block after the first one was added. -/
structure Crowded (P : List P2Block → P2Chain → IterOrder → P2Block → Prop) (shareWindow n : Nat)
    (hist : List P2Block) (c c' : P2Chain) : Prop where
  run : Run sampleCore (sampleConfig shareWindow) P hist c
  size : c.levels.size = n + 1
  bottom : (c.levelAtHeight 0).isSome = true
  tipHash : c.tipHash = 1
  fresh : ∀ a ∈ hist, a.hash ≠ crowdedBlock.hash
  visit : ∃ w, Visits sampleCore IterOrder.stored crowdedBlock c w ∧
    w.nextLevel = [(crowdedBlock.height, crowdedBlock.hash)] ∧ w.chain.StoresAgree ∧
    SetsNewTip sampleCore w.chain crowdedBlock.height crowdedBlock.hash
  call : ∃ result, addBlockToChain sampleCore IterOrder.stored crowdedBlock c = .ok result c'
  recorded : Recorded (sampleConfig shareWindow) (crowdedBlock :: hist) c'
  cachedShares : c'.cachedShares = none
  currentTip : c'.currentTip = 1
  chainBlock : (c'.levelAtHeight 1).isSome = true → c'.chainBlockAt 1 = crowdedBlock.hash
  first : (c'.levelAtHeight 0).isSome = true → n + 1 < maxLevels (sampleConfig shareWindow)
  second : (c'.levelAtHeight 1).isSome = decide (n < maxLevels (sampleConfig shareWindow))

/-- Any number of orphans can come before the block. -/
theorem exists_crowded {shareWindow : Nat} (hfirst : HasFirst c₁)
    (hrun₁ : Run sampleCore (sampleConfig shareWindow) P [sampleBlock 1 0 0 1] c₁)
    (hcached : c₁.cachedShares = none) (hn : n < 5000)
    (hstep : ∀ i < n, ∀ hist c, c.config = sampleConfig shareWindow → c.levels.size = i + 1 →
      P hist c IterOrder.stored (orphan (2 + i))) :
    ∃ hist c c', Crowded P shareWindow n hist c c' := by
  have hlevels : ∀ height, 2 ≤ height → c₁.levelAtHeight height = none :=
    fun height hheight => hfirst.levelAtHeight_eq_none (by omega)
  have hroom : 2 + n + maxUncleAge ≤ u64Max :=
    (Nat.add_le_add_right (Nat.add_le_add_left hn.le 2) maxUncleAge).trans (by decide)
  have hone : c₁.levels.size = 1 := by
    rw [KeyedMap.size, ← List.length_map (·.height), hfirst.heights]
    rfl
  obtain ⟨c, hrun, hgrown, hcached'⟩ :=
    exists_withOrphans sampleCore IterOrder.stored 2 hrun₁ (by decide) hlevels (by decide)
      (fun a ha => not_names_first ha) n hroom
      (fun i hi hist c hconfig hsize => hstep i hi hist c hconfig (by rw [hsize, hone, Nat.add_comm]))
  have hr := hrun.recorded
  have hfresh : ∀ a ∈ ((List.range' 2 n).map orphan).reverse ++ [sampleBlock 1 0 0 1],
      a.hash ≠ crowdedBlock.hash := by
    intro a ha
    rcases mem_orphans ha with hmem | ⟨i, hi, rfl⟩
    · rw [List.mem_singleton.mp hmem]
      decide
    · exact Nat.ne_of_lt (hi.trans ((Nat.add_lt_add_left hn 2).trans (by decide)))
  have hunnamed : ∀ a ∈ crowdedBlock :: (((List.range' 2 n).map orphan).reverse ++
      [sampleBlock 1 0 0 1]), ¬Names a crowdedBlock.hash := by
    refine List.forall_mem_cons.mpr ⟨by decide, fun a ha => ?_⟩
    rcases mem_orphans ha with hmem | ⟨i, -, rfl⟩
    · exact not_names_first hmem _ (by decide)
    · exact not_names_orphan (by decide)
  obtain ⟨c₀, hinsert, hw⟩ := Writes.of_insertBlock c crowdedBlock
  have hr₀ := hr.writes (hr.unused hfresh) hw
  have hset := hfirst.setsNewTip hgrown hr hfresh hw
  obtain ⟨b, b₁, c₁', c₂, result, next, hchecked, hmoves, hvisit, hnext⟩ :=
    exists_of_setsNewTip sampleCore IterOrder.stored 0 hr₀.agree hset (by decide)
  have ho := outcome_verifyChainInner sampleCore IterOrder.stored 0 crowdedBlock.height
    crowdedBlock.hash hr₀.agree
  rw [hvisit] at ho
  have hreturns : Returns (EStateM.Result.ok (result, next) c₂.cleanupChain :
      EStateM.Result Fault P2Chain (ChainAddResult × List (Nat × FixedHash))) := by
    intro p c' h
    cases h
  have hr' : Recorded (sampleConfig shareWindow) _ c₂.cleanupChain := hr₀.outcome ho hreturns
  -- the new block has no descendants, so the call ends after it
  rw [(hr'.unnamed hunnamed).childrenAndNephews_eq_nil hr'.agree, List.subset_nil] at hnext
  subst hnext
  have hcall := addBlockToChain_of_first_visit (by decide) hr (hr.unused hfresh) hinsert hvisit
  have hafter : LevelsAfter sampleCore c₀ crowdedBlock.height crowdedBlock.hash c₂.cleanupChain :=
    levelsAfter hr₀.agree ho hreturns
  have hprunes := Prunes.cleanupChain (hmoves.same.storesAgree (hchecked.storesAgree hr₀.agree))
  have hheight := hchecked.height_eq hr₀.agree
  have habove (height : Nat) (hlow : height ≤ 1) := hfirst.levelsAbove hgrown hw hlow
  have hlevel (height : Nat) := hafter.set hr₀.agree hset height
  rw [hr₀.config_eq] at hlevel
  have hbottom : (c.levelAtHeight 0).isSome = true := by
    obtain ⟨g, hg, -⟩ := hfirst.stored
    obtain ⟨level, hlevel, -⟩ := hr.agree.level_of_storedBlock (hgrown.stored hg)
    rw [hlevel]
    rfl
  refine ⟨_, c, c₂.cleanupChain, hrun, by rw [hgrown.size, hone, Nat.add_comm], hbottom, ?_, hfresh,
    ⟨_, ⟨by decide, c₀, hinsert, Reaches.refl⟩, rfl, hr₀.agree, hset⟩, ⟨_, hcall⟩, hr', ?_, ?_,
    fun hkept => ?_, fun hkept => ?_, ?_⟩
  · rw [P2Chain.tipHash, hgrown.tip.chainBlockAt, hgrown.tip.currentTip]
    exact hfirst.tipHash
  · rw [hprunes.cachedShares, hmoves.cachedShares, hchecked.cachedShares, hw.cachedShares, hcached',
      hcached]
  · rw [hprunes.currentTip, hmoves.currentTip, hheight]
    rfl
  · rw [hprunes.chainBlockAt, if_pos hkept, hmoves.chainBlockAt, hheight,
      if_pos (show 1 = crowdedBlock.height from rfl)]
    exact hchecked.hash_eq hr₀.agree
  · rw [hlevel, habove 0 (Nat.zero_le 1), Bool.and_eq_true, decide_eq_true_eq, Nat.add_comm] at hkept
    exact hkept.1
  · rw [hlevel, habove 1 le_rfl, hw.levels,
      decide_eq_true (show 1 = crowdedBlock.height from rfl), Bool.true_or, Bool.and_true,
      show [1].countP (1 < ·) = 0 from rfl, Nat.zero_add]

end P2Chain

end ShaP2Pool
