import ShaP2Pool.Library.Tally
import ShaP2Pool.Proof.Ancestry

/-!
# Payout weights

The walk over the share window adds up the credits of its blocks and their uncles. The template's
own credits are then inserted over what their miners had, so the payout list is that of all counted
blocks exactly when nobody is credited twice by the template or both by it and in the window.
-/

namespace ShaP2Pool

namespace P2Chain

open Lineage Tally

variable {core : TariCore} {ord : IterOrder} {config : ChainConfig} {n height i : Nat}
variable {hash : FixedHash} {c c' c₀ c₁ c₂ : P2Chain} {a b b₁ : P2Block} {hist : List P2Block}
variable {P : List P2Block → P2Chain → IterOrder → P2Block → Prop}
variable {shares shares' : MinerShares} {credits : List (CompressedKey × Nat)}

/-! ### Credits -/

def uncleCredits (hist : List P2Block) (uncles : List (Nat × FixedHash)) :
    List (CompressedKey × Nat) :=
  uncles.filterMap fun uncle => (blockWith hist uncle.2).map fun u =>
    (u.minerWalletAddress.publicSpendKey, uncleRewardShare)

def blockCredits (hist : List P2Block) (b : P2Block) : List (CompressedKey × Nat) :=
  (b.minerWalletAddress.publicSpendKey, mainRewardShare) :: uncleCredits hist b.uncles

/-- The credits of the given number of recorded blocks that end at `b`. -/
def windowCredits (n : Nat) (hist : List P2Block) (b : P2Block) : List (CompressedKey × Nat) :=
  (lineage (parentIn hist) n b).flatMap (blockCredits hist)

/-- The payout list has one entry for each credited spend key, with its weight. -/
structure PaysWeights (credits : List (CompressedKey × Nat)) (coinbases : List NewBlockCoinbase) :
    Prop where
  once : (coinbases.map (·.address.publicSpendKey)).Nodup
  value : ∀ coinbase ∈ coinbases, coinbase.address.publicSpendKey ∈ keys credits ∧
    coinbase.value = weight credits coinbase.address.publicSpendKey
  paid : ∀ k ∈ keys credits, ∃ coinbase ∈ coinbases, coinbase.address.publicSpendKey = k

def Counts (shares : MinerShares) (credits : List (CompressedKey × Nat)) : Prop :=
  ∀ k, (shares.find? k).map (·.shareCount) =
    if k ∈ keys credits then some (weight credits k) else none

theorem counts_empty : Counts KeyedMap.empty [] := by
  intro k
  rfl

theorem Counts.updateInsert (h : Counts shares credits) (miner : TariAddress) (newShare : Nat)
    (extra : List Nat) : Counts (updateInsert shares miner newShare extra)
      (credits ++ [(miner.publicSpendKey, newShare)]) := by
  intro k
  have hk := h k
  rw [P2Chain.updateInsert, keys_append, weight_append, weight_cons, weight_nil, Nat.add_zero]
  cases hold : shares.find? miner.publicSpendKey with
  | none =>
    simp only [KeyedMap.find?_insert]
    by_cases heq : k = miner.publicSpendKey
    · rw [heq, hold] at hk
      have habsent : miner.publicSpendKey ∉ keys credits := by
        intro hmem
        rw [if_pos hmem] at hk
        cases hk
      simp [heq, weight_eq_zero habsent]
    · rw [if_neg heq, hk, if_neg (Ne.symm heq)]
      simp [heq]
  | some share =>
    have hkey := KeyedMap.key_of_find? hold
    simp only [KeyedMap.find?_insert, hkey]
    by_cases heq : k = miner.publicSpendKey
    · rw [heq, hold] at hk
      have hmem : miner.publicSpendKey ∈ keys credits := by
        by_contra habsent
        rw [if_neg habsent] at hk
        cases hk
      rw [if_pos hmem, Option.map_some, Option.some.injEq] at hk
      simp [heq, hk]
    · rw [if_neg heq, hk, if_neg (Ne.symm heq)]
      simp [heq]

/-- The entries of a map form a payout list of its weights. -/
theorem paysWeights_iff (ord : IterOrder) (shares : MinerShares)
    (credits : List (CompressedKey × Nat)) :
    PaysWeights credits (InMemoryShareChain.coinbasesOf ord shares) ↔ Counts shares credits := by
  have hmem (coinbase : NewBlockCoinbase) :
      coinbase ∈ InMemoryShareChain.coinbasesOf ord shares ↔ ∃ share ∈ shares.values,
        coinbase = { address := share.miner, value := share.shareCount,
                     coinbaseExtra := share.coinbaseExtra } := by
    rw [InMemoryShareChain.coinbasesOf, List.mem_map]
    simp only [IterOrder.mem_run]
    constructor
    · intro h
      obtain ⟨share, hshare, heq⟩ := h
      exact ⟨share, hshare, heq.symm⟩
    · intro h
      obtain ⟨share, hshare, heq⟩ := h
      exact ⟨share, hshare, heq.symm⟩
  constructor
  · intro h k
    cases hfind : shares.find? k with
    | none =>
      rw [if_neg, Option.map_none]
      intro hk
      obtain ⟨coinbase, hcoinbase, hkey⟩ := h.paid k hk
      obtain ⟨share, hshare, rfl⟩ := (hmem coinbase).mp hcoinbase
      exact KeyedMap.find?_eq_none_iff.mp hfind share hshare hkey
    | some share =>
      obtain ⟨hshare, rfl⟩ := KeyedMap.find?_eq_some_iff.mp hfind
      obtain ⟨hk, hvalue⟩ := h.value _ ((hmem _).mpr ⟨share, hshare, rfl⟩)
      rw [if_pos hk, Option.map_some]
      exact congrArg some hvalue
  · intro h
    refine ⟨?_, fun coinbase hcoinbase => ?_, fun k hk => ?_⟩
    · rw [InMemoryShareChain.coinbasesOf, List.map_map]
      exact ((ord.perm 0 shares.values).map _).nodup_iff.mpr shares.nodup
    · obtain ⟨share, hshare, rfl⟩ := (hmem coinbase).mp hcoinbase
      have hk := h share.miner.publicSpendKey
      rw [KeyedMap.find?_of_mem_values hshare, Option.map_some] at hk
      split_ifs at hk with hmem'
      exact ⟨hmem', Option.some.inj hk⟩
    · have hfound := h k
      rw [if_pos hk, Option.map_eq_some_iff] at hfound
      obtain ⟨share, hshare, -⟩ := hfound
      obtain ⟨hvalues, hkey⟩ := KeyedMap.find?_eq_some_iff.mp hshare
      exact ⟨_, (hmem _).mpr ⟨share, hvalues, rfl⟩, hkey⟩

/-! ### The walk over the window -/

theorem uncleCredits_cons (hfresh : ∀ a ∈ hist, a.hash ≠ b.hash) {uncles : List (Nat × FixedHash)}
    (h : ∀ uncle ∈ uncles, Known hist uncle.2) :
    uncleCredits (b :: hist) uncles = uncleCredits hist uncles := by
  refine List.filterMap_congr (fun uncle huncle => ?_)
  rw [blockWith_cons hfresh (h uncle huncle)]

theorem uncleCredits_of_blockWith {uncle : Nat × FixedHash} {uncles : List (Nat × FixedHash)}
    (h : blockWith hist uncle.2 = some b) : uncleCredits hist (uncle :: uncles) =
      (b.minerWalletAddress.publicSpendKey, uncleRewardShare) :: uncleCredits hist uncles := by
  rw [uncleCredits, List.filterMap_cons, h]
  rfl

theorem blockCredits_congr {x x' : P2Block} (h : x.withoutStatus = x'.withoutStatus) :
    blockCredits hist x = blockCredits hist x' :=
  field_eq (blockCredits hist) (fun _ _ => rfl) h

theorem Recorded.countUncles (hr : Recorded config hist c) (hd : Distinct hist)
    {uncles : List (Nat × FixedHash)} (h : c.countUncles uncles shares = .ok shares')
    (hcounts : Counts shares credits) : Counts shares' (credits ++ uncleCredits hist uncles) ∧
      ∀ uncle ∈ uncles, Known hist uncle.2 := by
  induction uncles generalizing shares credits with
  | nil =>
    cases h
    exact ⟨by rwa [uncleCredits, List.filterMap_nil, List.append_nil], by simp⟩
  | cons uncle rest ih =>
    obtain ⟨height, hash⟩ := uncle
    rw [P2Chain.countUncles, hr.agree.getBlockHeaderAtHeight_eq] at h
    cases hstored : c.storedBlock height hash with
    | none => simp [hstored] at h
    | some u =>
      simp only [hstored, Option.map_some, P2Block.header_walletAddress,
        P2Block.header_coinbaseExtra] at h
      obtain ⟨x, hx, hgrows⟩ := hr.blockWith hd hstored
      obtain ⟨hrest, hknown⟩ := ih h (hcounts.updateInsert u.minerWalletAddress uncleRewardShare
        u.minerCoinbaseExtra)
      have hminer : x.minerWalletAddress = u.minerWalletAddress :=
        field_eq P2Block.minerWalletAddress (fun _ _ => rfl) hgrows.content.symm
      refine ⟨?_, List.forall_mem_cons.mpr ⟨hr.mem_hashes hstored, hknown⟩⟩
      rw [uncleCredits_of_blockWith hx, hminer]
      rwa [List.append_assoc, List.singleton_append] at hrest

theorem Recorded.countBlock (hr : Recorded config hist c) (hd : Distinct hist)
    (h : c.countBlock b.header shares = .ok shares') (hcounts : Counts shares credits) :
    Counts shares' (credits ++ blockCredits hist b) ∧ UnclesKnown hist b := by
  obtain ⟨hrest, hknown⟩ := hr.countUncles hd h
    (hcounts.updateInsert b.minerWalletAddress mainRewardShare b.minerCoinbaseExtra)
  rw [List.append_assoc, List.singleton_append] at hrest
  exact ⟨hrest, hknown⟩

/-- A walk that returns has counted the stored ancestors, and found them as far as it went. -/
theorem Recorded.countAncestors (hr : Recorded config hist c) (hd : Distinct hist) {steps : Nat}
    (h : c.countAncestors steps b.header shares = .ok shares') (hbottom : b.height = 0 → steps = 0)
    (hcounts : Counts shares credits) :
    Counts shares' (credits ++
      (lineage c.parentOf (steps + 1) b).tail.flatMap (blockCredits hist)) ∧
      StoredBack steps c b ∧ ∀ x ∈ (lineage c.parentOf (steps + 1) b).tail, UnclesKnown hist x := by
  induction steps generalizing b shares credits with
  | zero =>
    cases h
    rw [lineage_one]
    exact ⟨by simpa using hcounts, fun i hi => absurd hi (Nat.not_lt_zero i), by simp⟩
  | succ steps ih =>
    have hheight : b.height ≠ 0 := fun hzero => absurd (hbottom hzero) (Nat.succ_ne_zero steps)
    rw [P2Chain.countAncestors, header_lookup_eq hr.agree hheight] at h
    cases hparent : c.parentOf b with
    | none => simp [hparent] at h
    | some p =>
      simp only [hparent, Option.map_some] at h
      cases hblock : c.countBlock p.header shares with
      | error e => simp [hblock] at h
      | ok counted =>
        simp only [hblock] at h
        obtain ⟨hcounted, hknown⟩ := hr.countBlock hd hblock hcounts
        -- the walk beyond the parent, which height 0 cuts short
        have hrest : Counts shares' (credits ++ blockCredits hist p ++
            (lineage c.parentOf (steps + 1) p).tail.flatMap (blockCredits hist)) ∧
              StoredBack steps c p ∧
                ∀ x ∈ (lineage c.parentOf (steps + 1) p).tail, UnclesKnown hist x := by
          by_cases hzero : p.height = 0
          · rw [if_pos (show p.header.height = 0 from hzero)] at h
            cases h
            rw [lineage_succ_of_none (by rw [parentOf, if_pos hzero])]
            refine ⟨by simpa using hcounted, fun i _ x hx hne => ?_, by simp⟩
            have := height_of_ancestorOf hr.agree hx
            omega
          · rw [if_neg (show p.header.height ≠ 0 from hzero)] at h
            exact ih h (fun hzero' => absurd hzero' hzero) hcounted
        obtain ⟨hrest, hback, hknowns⟩ := hrest
        rw [lineage_succ_of_some hparent, List.tail_cons, lineage_succ, List.flatMap_cons]
        rw [lineage_succ, List.tail_cons] at hrest hknowns
        refine ⟨by rwa [← List.append_assoc], fun i hi x hx hne => ?_,
          List.forall_mem_cons.mpr ⟨hknown, hknowns⟩⟩
        cases i with
        | zero =>
          cases hx
          exact ⟨p, hparent⟩
        | succ i =>
          rw [ancestorOf, ancestor_succ, hparent] at hx
          exact hback i (by omega) x hx hne

/-- The map holds the weights of the share window that ends at the recorded block `a`, as the next
block finds it. -/
structure WindowCounted (config : ChainConfig) (hist : List P2Block) (a : P2Block)
    (shares : MinerShares) : Prop where
  window : 2 ≤ config.shareWindow
  recorded : a ∈ hist
  back : RecordedBack (config.shareWindow - 2) hist a
  known : ∀ x ∈ lineage (parentIn hist) (config.shareWindow - 1) a, UnclesKnown hist x
  counts : Counts shares (windowCredits (config.shareWindow - 1) hist a)

/-- A new block changes no counted window. -/
theorem WindowCounted.cons (hfresh : ∀ a ∈ hist, a.hash ≠ b.hash)
    (h : WindowCounted config hist a shares) : WindowCounted config (b :: hist) a shares := by
  have hlength : config.shareWindow - 1 = config.shareWindow - 2 + 1 := by
    have := h.window
    omega
  have hlineage : lineage (parentIn (b :: hist)) (config.shareWindow - 1) a =
      lineage (parentIn hist) (config.shareWindow - 1) a := by
    rw [hlength]
    exact lineage_cons hfresh h.back
  refine ⟨h.window, List.mem_cons_of_mem _ h.recorded, h.back.cons hfresh, ?_, ?_⟩
  · intro x hx uncle huncle
    rw [hlineage] at hx
    obtain ⟨y, hy, heq⟩ := h.known x hx uncle huncle
    exact ⟨y, List.mem_cons_of_mem _ hy, heq⟩
  · have hcredits : windowCredits (config.shareWindow - 1) (b :: hist) a =
        windowCredits (config.shareWindow - 1) hist a := by
      rw [windowCredits, windowCredits, hlineage]
      refine List.flatMap_congr (fun x hx => ?_)
      rw [blockCredits, blockCredits, uncleCredits_cons hfresh (h.known x hx)]
    rw [hcredits]
    exact h.counts

/-- A count that returns has found no level at height 0, or the block, and has walked down from
it. -/
theorem getCalculateAndCacheHashmapOfShares_cases (hc : c.StoresAgree)
    (h : c.getCalculateAndCacheHashmapOfShares height hash = .ok shares) :
    (c.levelAtHeight height = none ∧ shares = KeyedMap.empty) ∨
      2 ≤ c.config.shareWindow ∧ ∃ b counted, c.storedBlock height hash = some b ∧
        c.countBlock b.header KeyedMap.empty = .ok counted ∧
        c.countAncestors (height - (height - (c.config.shareWindow - 2))) b.header counted =
          .ok shares := by
  rw [getCalculateAndCacheHashmapOfShares] at h
  cases hlevel : c.levelAtHeight height with
  | none =>
    simp only [hlevel] at h
    split_ifs at h
    cases h
    exact Or.inl ⟨rfl, rfl⟩
  | some level =>
    simp only [hlevel] at h
    split_ifs at h with hwindow
    have hlookup : c.getBlockHeaderAtHeight height hash = level.getHeader hash := by
      rw [getBlockHeaderAtHeight, hlevel, Option.bind_some]
    rw [← hlookup, hc.getBlockHeaderAtHeight_eq] at h
    cases hstored : c.storedBlock height hash with
    | none => simp [hstored] at h
    | some b =>
      simp only [hstored, Option.map_some] at h
      cases hblock : c.countBlock b.header KeyedMap.empty with
      | error e => simp [hblock] at h
      | ok counted =>
        simp only [hblock] at h
        have hheight : b.header.height = height := hc.height_of_storedBlock hstored
        rw [height_of_levelAtHeight hlevel, hheight] at h
        cases hwalk : c.countAncestors (height - (height - (c.config.shareWindow - 2))) b.header
            counted with
        | error e => simp [hwalk] at h
        | ok walked =>
          simp only [hwalk, Except.ok.injEq] at h
          subst h
          exact Or.inr ⟨by omega, b, counted, rfl, hblock, hwalk⟩

theorem storedBack_window {n : Nat} (hc : c.StoresAgree) (hheight : b.height = height)
    (hback : StoredBack (height - (height - n)) c b) :
    StoredBack n c b ∧
      lineage c.parentOf (height - (height - n) + 1) b = lineage c.parentOf (n + 1) b := by
  obtain hle | hle := Nat.le_total n height
  · rw [Nat.sub_sub_self hle] at hback ⊢
    exact ⟨hback, rfl⟩
  · rw [Nat.sub_eq_zero_of_le hle, Nat.sub_zero] at hback ⊢
    rw [← hheight] at hback ⊢
    exact ⟨hback.of_height hc, (lineage_eq_of_height hc (Nat.le_refl _) (by omega)).symm⟩

/-- A count that returns found the level of its block, or height 0 without one. -/
theorem Recorded.windowCounted (hr : Recorded config hist c) (hd : Distinct hist)
    (h : c.getCalculateAndCacheHashmapOfShares height hash = .ok shares) :
    (c.levelAtHeight height = none ∧ shares = KeyedMap.empty) ∨
      ∃ a, P2Chain.recordedBlock hist height hash = some a ∧ WindowCounted config hist a shares := by
  obtain hnone | ⟨hwindow, b, counted, hstored, hblock, hwalk⟩ :=
    getCalculateAndCacheHashmapOfShares_cases hr.agree h
  · exact Or.inl hnone
  refine Or.inr ?_
  rw [hr.config_eq] at hwindow hwalk
  have hheight : b.height = height := hr.agree.height_of_storedBlock hstored
  obtain ⟨a, ha, hgrows⟩ := hr.recordedBlock hd hstored
  obtain ⟨hcounted, hknown⟩ := hr.countBlock hd hblock counts_empty
  obtain ⟨hcounts, hback, hknowns⟩ := hr.countAncestors hd hwalk
    (fun hzero => by rw [← hheight, hzero, Nat.zero_sub]) hcounted
  rw [List.nil_append] at hcounts
  obtain ⟨hstoredBack, hlineage⟩ := storedBack_window hr.agree hheight hback
  have hlength : config.shareWindow - 1 = config.shareWindow - 2 + 1 := by omega
  rw [← hlength] at hlineage
  have hblocks {γ : Type} (f : P2Block → γ) (hf : ∀ y y₁, Grows y y₁ → f y₁ = f y) :
      (lineage c.parentOf (config.shareWindow - 1) b).map f =
        (lineage (P2Chain.parentIn hist) (config.shareWindow - 1) a).map f := by
    rw [hlength]
    exact hr.lineage_eq hd hgrows hstoredBack hf
  refine ⟨a, ha, by omega, (mem_of_recordedBlock ha).1,
    hr.recordedBack hd hgrows hstoredBack, fun x hx => ?_, ?_⟩
  · have hmem : x.uncles ∈ (lineage c.parentOf (config.shareWindow - 1) b).map
        P2Block.uncles := by
      rw [hblocks P2Block.uncles (fun _ _ hg => hg.uncles_eq)]
      exact List.mem_map_of_mem hx
    obtain ⟨y, hy, heq⟩ := List.mem_map.mp hmem
    rw [← hlineage, lineage_succ] at hy
    rw [lineage_succ, List.tail_cons] at hknowns
    have hy' : UnclesKnown hist y := by
      obtain rfl | hy := List.mem_cons.mp hy
      · exact hknown
      · exact hknowns y hy
    exact fun uncle huncle => hy' uncle (heq ▸ huncle)
  · have hcredits : windowCredits (config.shareWindow - 1) hist a = blockCredits hist b ++
        (lineage c.parentOf (height - (height - (config.shareWindow - 2)) + 1) b).tail.flatMap
          (blockCredits hist) := by
      rw [windowCredits, List.flatMap_def,
        ← hblocks (blockCredits hist) (fun _ _ hg => blockCredits_congr hg.content),
        ← hlineage, ← List.flatMap_def, lineage_succ, List.flatMap_cons, List.tail_cons]
    rwa [← hcredits] at hcounts

/-! ### The cache -/

/-- The invariant: cached shares that are not empty are those of the block they are cached for. -/
def CachedCounted (config : ChainConfig) (hist : List P2Block) (c : P2Chain) : Prop :=
  ∀ cached, c.cachedShares = some cached → cached.shares.size ≠ 0 →
    ∃ a, a.hash = cached.atHash ∧ WindowCounted config hist a cached.shares

theorem cachedShares_of_outcome (hc : c.StoresAgree)
    {r : EStateM.Result Fault P2Chain (ChainAddResult × List (Nat × FixedHash))}
    (ho : Outcome core ord n height hash c r) (hreturns : Returns r) :
    r.state.cachedShares = c.cachedShares ∨ r.state.cachedShares = none := by
  have hmoved {b b₁ : P2Block} {c₁ c₂ : P2Chain} (hchecked : Checked core c height hash b b₁ c₁)
      (hmoves : MovesTip c₁ b₁ c₂) : c₂.cleanupChain.cachedShares = c.cachedShares :=
    (Prunes.cleanupChain (hmoves.same.storesAgree (hchecked.storesAgree hc))).cachedShares.trans
      (hmoves.cachedShares.trans hchecked.cachedShares)
  cases ho with
  | overflow c' => exact absurd rfl (hreturns _ c')
  | absent | waiting | refused => exact Or.inl rfl
  | started hchecked _ _ hmoves | extended hchecked _ _ _ _ hmoves =>
    exact Or.inl (hmoved hchecked hmoves)
  | unverified hchecked | badUncles hchecked => exact Or.inl hchecked.cachedShares
  | scanFault hoff | blocked hoff => exact Or.inl hoff.cachedShares
  | stayed hcandidate | reorgFault hcandidate => exact Or.inl hcandidate.cachedShares
  | reorganised hcandidate _ hreorg =>
    exact Or.inr (hcandidate.reorganises hc hreorg).cachedShares

theorem Recorded.calculated (hr : Recorded config hist c) (hd : Distinct hist)
    {c' : P2Chain} (h : InMemoryShareChain.calculateAndCacheHashmapShares height hash c =
      .ok shares c') : c.getTip = none ∨ c.levelAtHeight height = none ∨
      ∃ a, P2Chain.recordedBlock hist height hash = some a ∧ WindowCounted config hist a shares := by
  rw [InMemoryShareChain.calculateAndCacheHashmapShares] at h
  simp only [EStateM.bind_apply, EStateM.get_apply] at h
  cases htip : c.getTip with
  | none => exact Or.inl rfl
  | some tip =>
    simp only [htip, EStateM.bind_apply] at h
    cases hshares : c.getCalculateAndCacheHashmapOfShares height hash with
    | error fault =>
      rw [hshares] at h
      cases h
    | ok counted =>
      have heq : counted = shares := by
        simp only [hshares, EStateM.ofExcept_ok] at h
        split_ifs at h <;> cases h <;> rfl
      rw [← heq]
      rcases hr.windowCounted hd hshares with ⟨hlevel, -⟩ | hcounted
      · exact Or.inr (Or.inl hlevel)
      · exact Or.inr (Or.inr hcounted)

theorem CachedCounted.calculated (hI : CachedCounted config hist c) (hr : Recorded config hist c)
    (hd : Distinct hist) (height : Nat) (hash : FixedHash) : CachedCounted config hist
      (InMemoryShareChain.calculateAndCacheHashmapShares height hash c).state := by
  rw [InMemoryShareChain.calculateAndCacheHashmapShares]
  simp only [EStateM.bind_apply, EStateM.get_apply]
  cases c.getTip with
  | none => exact hI
  | some tip =>
    simp only [EStateM.bind_apply]
    cases hshares : c.getCalculateAndCacheHashmapOfShares height hash with
    | error fault => exact hI
    | ok shares =>
      simp only [EStateM.ofExcept_ok]
      split_ifs with htip
      · intro cached hcached hsize
        cases hcached
        rcases hr.windowCounted hd hshares with ⟨-, hempty⟩ | ⟨a, ha, hcounted⟩
        · rw [hempty] at hsize
          exact absurd rfl hsize
        · exact ⟨a, (mem_of_recordedBlock ha).2.2.trans htip.symm, hcounted⟩
      · exact hI

theorem CachedCounted.filtered (hI : CachedCounted config hist c) (keep : CachedShares → Bool) :
    CachedCounted config hist { c with cachedShares := c.cachedShares.filter keep } :=
  fun cached hcached => hI cached (Option.filter_eq_some_iff.mp hcached).1

theorem CachedCounted.sharesForTemplate (hI : CachedCounted config hist c)
    (hr : Recorded config hist c) (hd : Distinct hist) (template : P2Block) :
    CachedCounted config hist (InMemoryShareChain.sharesForTemplate template c).state := by
  rw [InMemoryShareChain.sharesForTemplate]
  simp only [EStateM.bind_apply, EStateM.get_apply, EStateM.set_apply]
  have hfiltered := hI.filtered fun cached => decide (template.prevHash = cached.atHash)
  split_ifs
  · exact hfiltered.calculated (hr.withCachedShares _) hd _ _
  · exact hfiltered

theorem Recorded.cachedShares_added (hr : Recorded config hist c)
    (hfresh : ∀ a ∈ hist, a.hash ≠ b.hash) (hallowed : ¬ParentIsUncle b)
    (hreturns : Returns (addBlockToChain core ord b c)) :
    (addBlockToChain core ord b c).state.cachedShares = c.cachedShares ∨
      (addBlockToChain core ord b c).state.cachedShares = none := by
  have hinv := addBlock_inv
    (I := fun c' => c'.StoresAgree ∧ (c'.cachedShares = c.cachedShares ∨ c'.cachedShares = none))
    hallowed hreturns
    (fun c₀ hw => ⟨(hr.writes (hr.unused hfresh) hw).agree, Or.inl hw.cachedShares⟩)
    (fun w height hash rest _ _ hI hret => by
      have ho := outcome_verifyChainInner core ord w.numProcessed height hash hI.1
      refine ⟨ho.storesAgree hI.1 hret, ?_⟩
      rcases cachedShares_of_outcome hI.1 ho hret with heq | hnone
      · rw [heq]
        exact hI.2
      · exact Or.inr hnone)
  exact hinv.2

theorem Run.cachedCounted (hrun : Run core config P hist c) : CachedCounted config hist c := by
  induction hrun with
  | empty =>
    intro cached hcached
    cases hcached
  | refused _ _ ih => exact ih
  | @added hist c ord b hrun _ hfresh hallowed _ hreturns ih =>
    intro cached hcached hsize
    obtain heq | hnone := hrun.recorded.cachedShares_added hfresh hallowed hreturns
    · rw [heq] at hcached
      obtain ⟨a, ha, hcounted⟩ := ih cached hcached hsize
      exact ⟨a, ha, hcounted.cons hfresh⟩
    · rw [hnone] at hcached
      cases hcached
  | @generated hist c s ord template soloMine hrun _ ih =>
    rw [generate_state_eq]
    split_ifs
    · exact ih
    · exact ih.sharesForTemplate hrun.recorded hrun.distinct template

/-! ### Payout lists -/

/-- The shares a template on the tip starts from are those of the window below it. -/
theorem counted_of_sharesForTemplate (hI : CachedCounted config hist c)
    (hr : Recorded config hist c) (hd : Distinct hist) {tip : P2ChainLevel}
    (htip : c.getTip = some tip) (hprev : b.prevHash = tip.chainBlock)
    (hheight : b.height = tip.height + 1)
    (h : InMemoryShareChain.sharesForTemplate b c = .ok shares c') :
    ∃ a, P2Chain.parentIn hist b = some a ∧ WindowCounted config hist a shares := by
  -- the tip is recorded, and is the parent
  obtain ⟨t, ht⟩ := hr.exists_tip (exists_getTip_iff.mp ⟨tip, htip⟩)
  rw [← chainBlock_of_getTip htip, ← height_of_getTip htip] at ht
  obtain ⟨a, ha, -⟩ := hr.recordedBlock hd ht
  have hparent : P2Chain.parentIn hist b = some a := by
    rw [P2Chain.parentIn, if_neg (by omega), hprev, hheight]
    exact ha
  obtain ⟨hmem, -, hhash⟩ := mem_of_recordedBlock ha
  refine ⟨a, hparent, ?_⟩
  rw [InMemoryShareChain.sharesForTemplate] at h
  simp only [EStateM.bind_apply, EStateM.get_apply, EStateM.set_apply] at h
  split_ifs at h with hempty
  · rw [hheight, hprev, Nat.add_sub_cancel] at h
    rcases (hr.withCachedShares _).calculated hd h with hnone | hnone | ⟨a', ha', hcounted⟩
    · change c.getTip = none at hnone
      rw [htip] at hnone
      cases hnone
    · change c.levelAtHeight tip.height = none at hnone
      obtain ⟨level, hlevel, -⟩ := hr.agree.level_of_storedBlock ht
      rw [hlevel] at hnone
      cases hnone
    · rw [ha, Option.some.injEq] at ha'
      exact ha' ▸ hcounted
  · cases hcached : c.cachedShares.filter fun cached => b.prevHash = cached.atHash with
    | none =>
      rw [hcached] at hempty
      exact absurd rfl hempty
    | some cached =>
      rw [hcached] at h hempty
      obtain ⟨hsome, hat⟩ := Option.filter_eq_some_iff.mp hcached
      have hshares : cached.shares = shares := by
        cases h
        rfl
      obtain ⟨a', hhash', hcounted⟩ := hI cached hsome hempty
      have hsame : a' = a := hd.eq hcounted.recorded hmem (by
        rw [hhash', hhash, ← hprev]
        exact (of_decide_eq_true hat).symm)
      rw [← hsame, ← hshares]
      exact hcounted

/-- The shares of the miners of a list of uncles replace what these miners had. -/
theorem Recorded.insertUncleShares (hr : Recorded config hist c) (hd : Distinct hist)
    {uncles : List (Nat × FixedHash)} (h : c.insertUncleShares uncles shares = some shares')
    (k : CompressedKey) : (shares'.find? k).map (·.shareCount) =
      if k ∈ keys (uncleCredits hist uncles) then some uncleRewardShare
      else (shares.find? k).map (·.shareCount) := by
  induction uncles generalizing shares with
  | nil =>
    cases h
    rfl
  | cons uncle rest ih =>
    obtain ⟨height, hash⟩ := uncle
    rw [P2Chain.insertUncleShares] at h
    cases hfound : c.getBlockAtHeight height hash with
    | none => simp [hfound] at h
    | some u =>
      simp only [hfound] at h
      obtain ⟨-, -, hcached⟩ := Option.bind_eq_some_iff.mp hfound
      obtain ⟨x, hx, hgrows⟩ := hr.blockWith hd
        (hr.agree.storedBlock_eq_some_iff.mpr ⟨hcached, rfl⟩)
      have hminer : x.minerWalletAddress = u.minerWalletAddress :=
        field_eq P2Block.minerWalletAddress (fun _ _ => rfl) hgrows.content.symm
      rw [ih h, KeyedMap.find?_insert, uncleCredits_of_blockWith hx, hminer, keys_cons]
      simp only [List.mem_cons]
      by_cases hrest : k ∈ keys (uncleCredits hist rest)
      · rw [if_pos hrest, if_pos (Or.inr hrest)]
      · rw [if_neg hrest]
        by_cases hkey : k = u.minerWalletAddress.publicSpendKey
        · rw [if_pos hkey, if_pos (Or.inl hkey), Option.map_some]
        · rw [if_neg hkey, if_neg (by tauto)]

theorem uncleCredits_weight (uncles : List (Nat × FixedHash)) (k : CompressedKey) :
    weight (uncleCredits hist uncles) k =
      uncleRewardShare * (keys (uncleCredits hist uncles)).count k := by
  refine weight_eq_count (fun credit hcredit => ?_)
  obtain ⟨uncle, -, heq⟩ := List.mem_filterMap.mp hcredit
  obtain ⟨u, -, rfl⟩ := Option.map_eq_some_iff.mp heq
  rfl

theorem windowCredits_pos (n : Nat) (hist : List P2Block) (b : P2Block) :
    ∀ credit ∈ windowCredits n hist b, 0 < credit.2 := by
  intro credit hcredit
  obtain ⟨x, -, hx⟩ := List.mem_flatMap.mp hcredit
  rcases List.mem_cons.mp hx with rfl | hx
  · exact Nat.succ_pos _
  · obtain ⟨uncle, -, heq⟩ := List.mem_filterMap.mp hx
    obtain ⟨u, -, rfl⟩ := Option.map_eq_some_iff.mp heq
    exact Nat.succ_pos _

def earlierCredits (config : ChainConfig) (hist : List P2Block) (b : P2Block) :
    List (CompressedKey × Nat) :=
  ((parentIn hist b).map (windowCredits (config.shareWindow - 1) hist)).getD []

/-- No spend key is credited twice by the template, or both by it and in the window below. -/
structure CreditedOnce (config : ChainConfig) (hist : List P2Block) (b : P2Block) : Prop where
  own : (keys (blockCredits hist b)).Nodup
  window : ∀ k ∈ keys (blockCredits hist b), k ∉ keys (earlierCredits config hist b)

theorem weight_credits (k : CompressedKey) :
    weight (blockCredits hist b ++ earlierCredits config hist b) k =
      (if b.minerWalletAddress.publicSpendKey = k then mainRewardShare else 0) +
        uncleRewardShare * (keys (uncleCredits hist b.uncles)).count k +
          weight (earlierCredits config hist b) k := by
  rw [weight_append, blockCredits, weight_cons, uncleCredits_weight]

section Inserted

variable {before after : MinerShares} (hbefore : Counts before (earlierCredits config hist b))
  (hafter : ∀ k, (after.find? k).map (·.shareCount) =
    if k ∈ keys (uncleCredits hist b.uncles) then some uncleRewardShare
    else ((insertOwnShare b before).find? k).map (·.shareCount))

include hbefore hafter

theorem count_inserted (k : CompressedKey) : (after.find? k).map (·.shareCount) =
    if k ∈ keys (uncleCredits hist b.uncles) then some uncleRewardShare
    else if k = b.minerWalletAddress.publicSpendKey then some mainRewardShare
    else if k ∈ keys (earlierCredits config hist b) then
      some (weight (earlierCredits config hist b) k) else none := by
  rw [hafter, insertOwnShare, KeyedMap.find?_insert, ← hbefore k]
  split_ifs <;> rfl

theorem inserted_of_counts (h : Counts after (blockCredits hist b ++ earlierCredits config hist b))
    {k : CompressedKey} (hk : k ∈ keys (blockCredits hist b)) :
    (if k ∈ keys (uncleCredits hist b.uncles) then uncleRewardShare else mainRewardShare) =
      (if b.minerWalletAddress.publicSpendKey = k then mainRewardShare else 0) +
        uncleRewardShare * (keys (uncleCredits hist b.uncles)).count k +
          weight (earlierCredits config hist b) k := by
  have hcount := h k
  rw [count_inserted hbefore hafter, keys_append, if_pos (List.mem_append_left _ hk),
    weight_credits] at hcount
  rw [blockCredits, keys_cons, List.mem_cons] at hk
  by_cases huncle : k ∈ keys (uncleCredits hist b.uncles)
  · rw [if_pos huncle, Option.some.injEq] at hcount
    rw [if_pos huncle]
    exact hcount
  · rw [if_neg huncle, if_pos (hk.resolve_right huncle), Option.some.injEq] at hcount
    rw [if_neg huncle]
    exact hcount

theorem creditedOnce_of_counts (hpos : ∀ credit ∈ earlierCredits config hist b, 0 < credit.2)
    (h : Counts after (blockCredits hist b ++ earlierCredits config hist b)) :
    CreditedOnce config hist b := by
  have huncles (k : CompressedKey) (hk : k ∈ keys (uncleCredits hist b.uncles)) :
      k ≠ b.minerWalletAddress.publicSpendKey ∧
        (keys (uncleCredits hist b.uncles)).count k = 1 ∧
          weight (earlierCredits config hist b) k = 0 := by
    have hvalue := inserted_of_counts hbefore hafter h (List.mem_cons_of_mem _ hk)
    have hone := List.count_pos_iff.mpr hk
    rw [if_pos hk, uncleRewardShare, mainRewardShare] at hvalue
    split_ifs at hvalue with hmain
    · omega
    · exact ⟨Ne.symm hmain, by omega, by omega⟩
  have hminer : b.minerWalletAddress.publicSpendKey ∉ keys (uncleCredits hist b.uncles) :=
    fun hk => (huncles _ hk).1 rfl
  refine ⟨?_, fun k hk hmem => ?_⟩
  · rw [blockCredits, keys_cons, List.nodup_cons]
    refine ⟨hminer, List.nodup_iff_count_le_one.mpr (fun k => ?_)⟩
    by_cases hk : k ∈ keys (uncleCredits hist b.uncles)
    · exact (huncles k hk).2.1.le
    · rw [List.count_eq_zero_of_not_mem hk]
      exact Nat.zero_le 1
  · have hearlier := (weight_pos_iff hpos).mpr hmem
    have hk' := hk
    rw [blockCredits, keys_cons, List.mem_cons] at hk'
    obtain rfl | hk' := hk'
    · have hvalue := inserted_of_counts hbefore hafter h hk
      rw [if_neg hminer, if_pos rfl] at hvalue
      omega
    · have := (huncles k hk').2.2
      omega

theorem counts_of_creditedOnce (h : CreditedOnce config hist b) :
    Counts after (blockCredits hist b ++ earlierCredits config hist b) := by
  intro k
  have hown := h.own
  rw [blockCredits, keys_cons, List.nodup_cons] at hown
  rw [count_inserted hbefore hafter, keys_append, weight_credits]
  by_cases huncle : k ∈ keys (uncleCredits hist b.uncles)
  · have hmem : k ∈ keys (blockCredits hist b) := List.mem_cons_of_mem _ huncle
    rw [if_pos huncle, if_pos (List.mem_append_left _ hmem), if_neg (by
        rintro rfl
        exact hown.1 huncle),
      List.count_eq_one_of_mem hown.2 huncle, weight_eq_zero (h.window k hmem)]
    rfl
  · rw [if_neg huncle, List.count_eq_zero_of_not_mem huncle]
    by_cases hmain : k = b.minerWalletAddress.publicSpendKey
    · have hmem : k ∈ keys (blockCredits hist b) := hmain ▸ List.mem_cons_self
      rw [if_pos hmain, if_pos (List.mem_append_left _ hmem), if_pos hmain.symm,
        weight_eq_zero (h.window k hmem)]
      rfl
    · have hmem : k ∉ keys (blockCredits hist b) := by
        rw [blockCredits, keys_cons, List.mem_cons, not_or]
        exact ⟨hmain, huncle⟩
      rw [if_neg hmain, if_neg (Ne.symm hmain)]
      by_cases hearlier : k ∈ keys (earlierCredits config hist b)
      · rw [if_pos hearlier, if_pos (List.mem_append_right _ hearlier)]
        simp
      · rw [if_neg hearlier, if_neg (by simp [hmem, hearlier])]

theorem counts_inserted_iff (hpos : ∀ credit ∈ earlierCredits config hist b, 0 < credit.2) :
    Counts after (blockCredits hist b ++ earlierCredits config hist b) ↔
      CreditedOnce config hist b :=
  ⟨creditedOnce_of_counts hbefore hafter hpos, counts_of_creditedOnce hbefore hafter⟩

end Inserted

/-- In a run of blocks with distinct hashes, the payout list of a template on the tip pays the
weights of all counted blocks exactly when no spend key is credited twice by the template, or both
by it and in the window below. -/
theorem payout_weights_iff (hrun : Run core config P hist c) {s : InMemoryShareChain}
    {tip : P2ChainLevel} {coinbases : List NewBlockCoinbase} {d : Difficulty}
    (htip : c.getTip = some tip) (hprev : b.prevHash = tip.chainBlock)
    (hheight : b.height = tip.height + 1)
    (hok : s.generateSharesAndGetTargetDifficulty core ord b false c = .ok (coinbases, d) c') :
    PaysWeights (windowCredits config.shareWindow hist b) coinbases ↔
      CreditedOnce config hist b := by
  have hr := hrun.recorded
  have hd := hrun.distinct
  rw [InMemoryShareChain.generateSharesAndGetTargetDifficulty] at hok
  simp only [Bool.false_eq_true, if_false, EStateM.bind_apply] at hok
  cases hshares : InMemoryShareChain.sharesForTemplate b c with
  | error fault c₁ => simp [hshares] at hok
  | ok before c₁ =>
    simp only [hshares, EStateM.get_apply] at hok
    obtain ⟨a, ha, hcounted⟩ :=
      counted_of_sharesForTemplate hrun.cachedCounted hr hd htip hprev hheight hshares
    obtain ⟨cached, hstate⟩ := sharesForTemplate_state b c
    rw [hshares] at hstate
    have hr₁ : Recorded config hist c₁ := by
      rw [show c₁ = _ from hstate]
      exact hr.withCachedShares cached
    cases hinsert : c₁.insertUncleShares b.uncles (insertOwnShare b before) with
    | none =>
      rw [hinsert] at hok
      cases hok
    | some after =>
      rw [hinsert] at hok
      cases hok
      have hwindow : windowCredits config.shareWindow hist b =
          blockCredits hist b ++ earlierCredits config hist b := by
        have hlength : config.shareWindow = config.shareWindow - 1 + 1 := by
          have := hcounted.window
          omega
        rw [earlierCredits, ha, Option.map_some, Option.getD_some, windowCredits, hlength,
          lineage_succ_of_some ha, List.flatMap_cons, Nat.add_sub_cancel, windowCredits]
      have hearlier : earlierCredits config hist b = windowCredits (config.shareWindow - 1) hist a := by
        rw [earlierCredits, ha, Option.map_some, Option.getD_some]
      rw [paysWeights_iff, hwindow]
      refine counts_inserted_iff (hearlier ▸ hcounted.counts)
        (fun k => hr₁.insertUncleShares hd hinsert k) ?_
      rw [hearlier]
      exact windowCredits_pos _ _ _

/-- A miner who has mined the only block and asks for the next one is paid for the next one
alone. -/
theorem payout_loses_weight : ∃ hist c tip b coinbases d c',
    Run sampleCore (sampleConfig 10) Unrestricted hist c ∧ c.getTip = some tip ∧
      b.prevHash = tip.chainBlock ∧ b.height = tip.height + 1 ∧
      (sampleShareChain 10).generateSharesAndGetTargetDifficulty sampleCore IterOrder.stored b false c =
        .ok (coinbases, d) c' ∧
      coinbases.map (·.value) = [5] ∧
      keys (windowCredits 10 hist b) = [b.minerWalletAddress.publicSpendKey,
        b.minerWalletAddress.publicSpendKey] ∧
      weight (windowCredits 10 hist b) b.minerWalletAddress.publicSpendKey = 10 ∧
      ¬PaysWeights (windowCredits 10 hist b) coinbases := by
  refine ⟨[sampleBlock 1 0 0 1], addAll sampleCore .stored [sampleBlock 1 0 0 1]
      (newEmpty (sampleConfig 10)), _, sampleBlock 9 1 1 2, [⟨⟨0, 0⟩, 5, []⟩], 1, _,
    Run.of_blocks IterOrder.stored (fun _ _ _ => true) (fun _ _ _ _ => trivial)
      [sampleBlock 1 0 0 1] (by decide),
    (Option.some_get (by decide)).symm, by decide, by decide, eq_ok_of_valueOf (by decide),
    by decide, by decide, by decide, fun hpays => ?_⟩
  have hvalue := (hpays.value _ List.mem_cons_self).2
  exact absurd hvalue (by decide)

def newMinerBlock : P2Block := { sampleBlock 9 3 3 4 with minerWalletAddress := ⟨1, 1⟩ }

theorem payout_newMinerBlock : (sampleShareChain 10).generateSharesAndGetTargetDifficulty sampleCore
    IterOrder.stored newMinerBlock false sampleChain =
      .ok ([⟨⟨1, 1⟩, 5, []⟩, ⟨⟨0, 0⟩, 15, []⟩], 1)
        ((sampleShareChain 10).generateSharesAndGetTargetDifficulty sampleCore IterOrder.stored
          newMinerBlock false sampleChain).state :=
  eq_ok_of_valueOf (by decide)

/-- The payout list of the new miner. -/
theorem payout_weights_iff_new_miner :
    PaysWeights (windowCredits (sampleConfig 10).shareWindow sampleBlocks.reverse newMinerBlock)
      [⟨⟨1, 1⟩, 5, []⟩, ⟨⟨0, 0⟩, 15, []⟩] ↔
    CreditedOnce (sampleConfig 10) sampleBlocks.reverse newMinerBlock :=
  payout_weights_iff run_sampleChain (Option.some_get (by decide)).symm (by decide) (by decide)
    payout_newMinerBlock

end P2Chain

end ShaP2Pool
