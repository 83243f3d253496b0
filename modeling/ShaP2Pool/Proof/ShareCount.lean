import ShaP2Pool.Proof.Headers
import ShaP2Pool.Proof.Payout

/-!
# Counting the share window

The walk over the share window stops two short of its length above the height it starts from and
takes its first round before the loop. Together this makes one block less than the window, or all
blocks down to height 0. It returns exactly when these blocks and their uncles are stored where they
are named, on any chain, and then its map holds one share for every block and one for every
reference to an uncle.
-/

namespace ShaP2Pool

def P2BlockHeader.spendKey (x : P2BlockHeader) : CompressedKey := x.walletAddress.publicSpendKey

namespace P2Chain

open Lineage Tally

variable {c : P2Chain} {height n : Nat} {hash : FixedHash} {x p : P2BlockHeader}
variable {shares shares' : MinerShares} {credits : List (CompressedKey × Nat)} {k : CompressedKey}

def referenced (c : P2Chain) (uncles : List (Nat × FixedHash)) : List P2BlockHeader :=
  uncles.filterMap fun uncle => c.getBlockHeaderAtHeight uncle.1 uncle.2

def AllReferenced (c : P2Chain) (uncles : List (Nat × FixedHash)) : Prop :=
  ∀ uncle ∈ uncles, ∃ u, c.getBlockHeaderAtHeight uncle.1 uncle.2 = some u

/-- The number of blocks below the block being made that its share window takes in. -/
def windowLength (c : P2Chain) (height : Nat) : Nat := min (c.config.shareWindow - 1) (height + 1)

/-- The blocks of the share window that ends at `x`. -/
def windowHeaders (c : P2Chain) (x : P2BlockHeader) : List P2BlockHeader :=
  c.headerPath (c.windowLength x.height) x

/-- The references to uncles in the share window that ends at `x`. -/
def windowUncles (c : P2Chain) (x : P2BlockHeader) : List (Nat × FixedHash) :=
  (c.windowHeaders x).flatMap (·.uncles)

/-- The blocks of the share window and all uncles they list are stored. -/
structure WindowStored (c : P2Chain) (x : P2BlockHeader) : Prop where
  blocks : (c.windowHeaders x).length = c.windowLength x.height
  uncles : c.AllReferenced (c.windowUncles x)

def minedBy (k : CompressedKey) (headers : List P2BlockHeader) : Nat :=
  headers.countP (·.spendKey = k)

/-- The map counts the share window that ends at `x`: for each key its blocks and the references to
its uncles, and no other keys. -/
structure CountsWindow (c : P2Chain) (x : P2BlockHeader) (shares : MinerShares) : Prop where
  credited : ∀ k, (shares.find? k).map (·.shareCount) =
    if minedBy k (c.windowHeaders x) + minedBy k (c.referenced (c.windowUncles x)) = 0 then none
    else some (mainRewardShare * minedBy k (c.windowHeaders x) +
      uncleRewardShare * minedBy k (c.referenced (c.windowUncles x)))
  total : (shares.values.map (·.shareCount)).sum =
    mainRewardShare * c.windowLength x.height + uncleRewardShare * (c.windowUncles x).length

/-! ### Credits of headers -/

def headerCredits (c : P2Chain) (x : P2BlockHeader) : List (CompressedKey × Nat) :=
  (x.spendKey, mainRewardShare) ::
    (c.referenced x.uncles).map fun u => (u.spendKey, uncleRewardShare)

theorem AllReferenced.cons_iff {uncle : Nat × FixedHash} {rest : List (Nat × FixedHash)} :
    c.AllReferenced (uncle :: rest) ↔
      (∃ u, c.getBlockHeaderAtHeight uncle.1 uncle.2 = some u) ∧ c.AllReferenced rest :=
  List.forall_mem_cons

theorem referenced_cons {uncle : Nat × FixedHash} {rest : List (Nat × FixedHash)}
    {u : P2BlockHeader} (h : c.getBlockHeaderAtHeight uncle.1 uncle.2 = some u) :
    c.referenced (uncle :: rest) = u :: c.referenced rest :=
  List.filterMap_cons_some h

theorem AllReferenced.length {uncles : List (Nat × FixedHash)} (h : c.AllReferenced uncles) :
    (c.referenced uncles).length = uncles.length := by
  induction uncles with
  | nil => rfl
  | cons uncle rest ih =>
    obtain ⟨⟨u, hu⟩, hrest⟩ := AllReferenced.cons_iff.mp h
    rw [referenced_cons hu, List.length_cons, List.length_cons, ih hrest]

theorem referenced_flatMap (headers : List P2BlockHeader) :
    c.referenced (headers.flatMap (·.uncles)) = headers.flatMap fun x => c.referenced x.uncles :=
  List.filterMap_flatMap

theorem minedBy_append (k : CompressedKey) (headers headers' : List P2BlockHeader) :
    minedBy k (headers ++ headers') = minedBy k headers + minedBy k headers' :=
  List.countP_append

theorem minedBy_cons (k : CompressedKey) (x : P2BlockHeader) (headers : List P2BlockHeader) :
    minedBy k (x :: headers) = (if x.spendKey = k then 1 else 0) + minedBy k headers := by
  rw [minedBy, List.countP_cons, Nat.add_comm]
  simp only [decide_eq_true_eq, minedBy]

theorem weight_uncles (k : CompressedKey) (uncles : List P2BlockHeader) :
    weight (uncles.map fun u => (u.spendKey, uncleRewardShare)) k =
      uncleRewardShare * minedBy k uncles := by
  induction uncles with
  | nil => rfl
  | cons u uncles ih =>
    rw [List.map_cons, weight_cons, ih, minedBy_cons, uncleRewardShare]
    split_ifs <;> omega

theorem weight_headers (k : CompressedKey) (headers : List P2BlockHeader) :
    weight (headers.flatMap c.headerCredits) k = mainRewardShare * minedBy k headers +
      uncleRewardShare * minedBy k (c.referenced (headers.flatMap (·.uncles))) := by
  rw [referenced_flatMap]
  induction headers with
  | nil => rfl
  | cons x headers ih =>
    rw [List.flatMap_cons, weight_append, ih, headerCredits, weight_cons, weight_uncles,
      minedBy_cons, List.flatMap_cons, minedBy_append, mainRewardShare, uncleRewardShare]
    split_ifs <;> omega

theorem sum_headers (headers : List P2BlockHeader) :
    ((headers.flatMap c.headerCredits).map Prod.snd).sum = mainRewardShare * headers.length +
      uncleRewardShare * (c.referenced (headers.flatMap (·.uncles))).length := by
  rw [referenced_flatMap]
  induction headers with
  | nil => rfl
  | cons x headers ih =>
    have huncles : (((c.referenced x.uncles).map fun u => (u.spendKey, uncleRewardShare)).map
        Prod.snd).sum = uncleRewardShare * (c.referenced x.uncles).length := by
      rw [List.map_map, show Prod.snd ∘ (fun u : P2BlockHeader => (u.spendKey, uncleRewardShare)) =
        Function.const _ uncleRewardShare from rfl, List.map_const, List.sum_replicate_nat,
        Nat.mul_comm]
    rw [List.flatMap_cons, List.map_append, List.sum_append, ih, headerCredits, List.map_cons,
      List.sum_cons, huncles, List.flatMap_cons, List.length_append, List.length_cons,
      mainRewardShare, uncleRewardShare]
    omega

theorem headerCredits_pos (headers : List P2BlockHeader) :
    ∀ credit ∈ headers.flatMap c.headerCredits, 0 < credit.2 := by
  intro credit hcredit
  obtain ⟨x, -, hx⟩ := List.mem_flatMap.mp hcredit
  obtain rfl | hx := List.mem_cons.mp hx
  · exact Nat.succ_pos _
  · obtain ⟨u, -, rfl⟩ := List.mem_map.mp hx
    exact Nat.succ_pos _

/-- A map of the weights has as many shares as there are credits. -/
theorem Counts.total (h : Counts shares credits) :
    (shares.values.map (·.shareCount)).sum = (credits.map Prod.snd).sum := by
  have hvalues : shares.values.map (·.shareCount) =
      (shares.values.map fun share => share.miner.publicSpendKey).map (weight credits) := by
    rw [List.map_map]
    apply List.map_congr_left
    intro share hshare
    have hfound := h share.miner.publicSpendKey
    rw [KeyedMap.find?_of_mem_values hshare, Option.map_some] at hfound
    split_ifs at hfound
    exact Option.some.inj hfound
  rw [hvalues]
  apply sum_map_weight shares.nodup
  intro k hk
  have hfound := h k
  rw [if_pos hk, Option.map_eq_some_iff] at hfound
  obtain ⟨share, hshare, -⟩ := hfound
  obtain ⟨hmem, hkey⟩ := KeyedMap.find?_eq_some_iff.mp hshare
  exact List.mem_map.mpr ⟨share, hmem, hkey⟩

/-! ### The walk -/

theorem countUncles_ok {uncles : List (Nat × FixedHash)} (h : c.countUncles uncles shares = .ok shares')
    (hcounts : Counts shares credits) : c.AllReferenced uncles ∧
      Counts shares' (credits ++
        (c.referenced uncles).map fun u => (u.spendKey, uncleRewardShare)) := by
  induction uncles generalizing shares credits with
  | nil =>
    cases h
    refine ⟨fun uncle huncle => absurd huncle List.not_mem_nil, ?_⟩
    rwa [referenced, List.filterMap_nil, List.map_nil, List.append_nil]
  | cons uncle rest ih =>
    obtain ⟨height, hash⟩ := uncle
    rw [countUncles] at h
    cases hfound : c.getBlockHeaderAtHeight height hash with
    | none => simp [hfound] at h
    | some u =>
      simp only [hfound] at h
      obtain ⟨hstored, hrest⟩ :=
        ih h (hcounts.updateInsert u.walletAddress uncleRewardShare u.coinbaseExtra)
      refine ⟨AllReferenced.cons_iff.mpr ⟨⟨u, hfound⟩, hstored⟩, ?_⟩
      rw [List.append_assoc, List.singleton_append] at hrest
      rwa [referenced_cons hfound, List.map_cons]

theorem exists_countUncles {uncles : List (Nat × FixedHash)} (h : c.AllReferenced uncles)
    (shares : MinerShares) : ∃ shares', c.countUncles uncles shares = .ok shares' := by
  induction uncles generalizing shares with
  | nil => exact ⟨shares, rfl⟩
  | cons uncle rest ih =>
    obtain ⟨⟨u, hu⟩, hrest⟩ := AllReferenced.cons_iff.mp h
    rw [countUncles, hu]
    exact ih hrest _

theorem countBlock_ok (h : c.countBlock x shares = .ok shares') (hcounts : Counts shares credits) :
    c.AllReferenced x.uncles ∧ Counts shares' (credits ++ c.headerCredits x) := by
  obtain ⟨hstored, hrest⟩ :=
    countUncles_ok h (hcounts.updateInsert x.walletAddress mainRewardShare x.coinbaseExtra)
  rw [List.append_assoc, List.singleton_append] at hrest
  exact ⟨hstored, hrest⟩

/-- A walk over the ancestors that returns has found them and their uncles, and has counted them. -/
theorem countAncestors_ok {steps : Nat} (hbottom : x.height = 0 → steps = 0)
    (h : c.countAncestors steps x shares = .ok shares') (hcounts : Counts shares credits) :
    PathStored (steps + 1) c x ∧
      (∀ y ∈ (c.headerPath (steps + 1) x).tail, c.AllReferenced y.uncles) ∧
      Counts shares' (credits ++ (c.headerPath (steps + 1) x).tail.flatMap c.headerCredits) := by
  induction steps generalizing x shares credits with
  | zero =>
    cases h
    rw [headerPath_one]
    refine ⟨pathStored_one c x, fun y hy => absurd hy List.not_mem_nil, ?_⟩
    rwa [List.tail_cons, List.flatMap_nil, List.append_nil]
  | succ steps ih =>
    have hheight : x.height ≠ 0 := fun hzero => absurd (hbottom hzero) (Nat.succ_ne_zero steps)
    rw [countAncestors, ← parentHeader_of_ne_zero hheight] at h
    cases hparent : c.parentHeader x with
    | none => simp [hparent] at h
    | some p =>
      simp only [hparent] at h
      cases hblock : c.countBlock p shares with
      | error e => simp [hblock] at h
      | ok counted =>
        simp only [hblock] at h
        obtain ⟨hown, hcounted⟩ := countBlock_ok hblock hcounts
        -- the walk beyond the parent, which height 0 cuts short
        have hrest : PathStored (steps + 1) c p ∧
            (∀ y ∈ (c.headerPath (steps + 1) p).tail, c.AllReferenced y.uncles) ∧
            Counts shares' (credits ++ c.headerCredits p ++
              (c.headerPath (steps + 1) p).tail.flatMap c.headerCredits) := by
          by_cases hzero : p.height = 0
          · rw [if_pos hzero] at h
            cases h
            rw [headerPath_of_height_zero hzero]
            refine ⟨pathStored_of_height_zero hzero, fun y hy => absurd hy List.not_mem_nil, ?_⟩
            rwa [List.tail_cons, List.flatMap_nil, List.append_nil]
          · rw [if_neg hzero] at h
            exact ih (fun hzero' => absurd hzero' hzero) h hcounted
        obtain ⟨hstored, huncles, hcounts'⟩ := hrest
        have hpath : c.headerPath (steps + 1) p = p :: (c.headerPath (steps + 1) p).tail := by
          rw [headerPath, lineage_succ, List.tail_cons]
        rw [headerPath_of_some hparent, List.tail_cons, hpath, List.flatMap_cons,
          ← List.append_assoc]
        exact ⟨(pathStored_of_parent hparent).mpr hstored,
          List.forall_mem_cons.mpr ⟨hown, huncles⟩, hcounts'⟩

theorem exists_countAncestors {steps : Nat} (hbottom : x.height = 0 → steps = 0)
    (hstored : PathStored (steps + 1) c x)
    (huncles : ∀ y ∈ (c.headerPath (steps + 1) x).tail, c.AllReferenced y.uncles)
    (shares : MinerShares) : ∃ shares', c.countAncestors steps x shares = .ok shares' := by
  induction steps generalizing x shares with
  | zero => exact ⟨shares, rfl⟩
  | succ steps ih =>
    have hheight : x.height ≠ 0 := fun hzero => absurd (hbottom hzero) (Nat.succ_ne_zero steps)
    cases hparent : c.parentHeader x with
    | none => exact absurd hstored (not_pathStored hheight hparent)
    | some p =>
      rw [headerPath_of_some hparent, List.tail_cons, headerPath, lineage_succ,
        List.forall_mem_cons] at huncles
      obtain ⟨counted, hcounted⟩ := exists_countUncles huncles.1
        (updateInsert shares p.walletAddress mainRewardShare p.coinbaseExtra)
      rw [countAncestors, ← parentHeader_of_ne_zero hheight, hparent]
      simp only [countBlock, hcounted]
      by_cases hzero : p.height = 0
      · rw [if_pos hzero]
        exact ⟨counted, rfl⟩
      · rw [if_neg hzero]
        refine ih (fun hzero' => absurd hzero' hzero) ((pathStored_of_parent hparent).mp hstored) ?_ _
        rw [headerPath, lineage_succ, List.tail_cons]
        exact huncles.2

/-! ### The window -/

theorem windowHeaders_eq (hwindow : 2 ≤ c.config.shareWindow) (x : P2BlockHeader) :
    c.headerPath (x.height - (x.height - (c.config.shareWindow - 2)) + 1) x = c.windowHeaders x := by
  rw [windowHeaders, windowLength]
  congr 1
  omega

theorem windowStored_iff (hwindow : 2 ≤ c.config.shareWindow) : WindowStored c x ↔
    PathStored (x.height - (x.height - (c.config.shareWindow - 2)) + 1) c x ∧
      c.AllReferenced x.uncles ∧
      ∀ y ∈ (c.headerPath (x.height - (x.height - (c.config.shareWindow - 2)) + 1) x).tail,
        c.AllReferenced y.uncles := by
  have hlength : min (x.height - (x.height - (c.config.shareWindow - 2)) + 1) (x.height + 1) =
      c.windowLength x.height := by
    rw [windowLength]
    omega
  have hsplit : c.windowHeaders x = x :: (c.windowHeaders x).tail := by
    rw [← windowHeaders_eq hwindow, headerPath, lineage_succ, List.tail_cons]
  have huncles : c.AllReferenced (c.windowUncles x) ↔
      c.AllReferenced x.uncles ∧ ∀ y ∈ (c.windowHeaders x).tail, c.AllReferenced y.uncles := by
    rw [← List.forall_mem_cons (p := fun y : P2BlockHeader => c.AllReferenced y.uncles), ← hsplit]
    constructor
    · intro h y hy uncle huncle
      exact h uncle (List.mem_flatMap.mpr ⟨y, hy, huncle⟩)
    · intro h uncle huncle
      obtain ⟨y, hy, huncle⟩ := List.mem_flatMap.mp huncle
      exact h y hy uncle huncle
  rw [PathStored, windowHeaders_eq hwindow, hlength, ← huncles]
  exact ⟨fun h => ⟨h.blocks, h.uncles⟩, fun h => ⟨h.1, h.2⟩⟩

theorem getCalculateAndCacheHashmapOfShares_eq (hwindow : 2 ≤ c.config.shareWindow)
    (hstored : c.getBlockHeaderAtHeight height hash = some x) :
    c.getCalculateAndCacheHashmapOfShares height hash =
      match c.countBlock x KeyedMap.empty with
      | .error e => .error (.error e)
      | .ok shares =>
        match c.countAncestors (x.height - (x.height - (c.config.shareWindow - 2))) x shares with
        | .error e => .error (.error e)
        | .ok shares => .ok shares := by
  obtain ⟨level, hlevel, hheader⟩ := Option.bind_eq_some_iff.mp hstored
  have hheight : level.height = x.height :=
    (P2ChainLevel.height_of_getHeader hheader).symm
  rw [getCalculateAndCacheHashmapOfShares]
  simp only [hlevel, hheader, hheight]
  exact if_neg (Nat.not_lt.mpr hwindow)

theorem window_ok (hwindow : 2 ≤ c.config.shareWindow)
    (hstored : c.getBlockHeaderAtHeight height hash = some x)
    (h : c.getCalculateAndCacheHashmapOfShares height hash = .ok shares) :
    WindowStored c x ∧ Counts shares ((c.windowHeaders x).flatMap c.headerCredits) := by
  rw [getCalculateAndCacheHashmapOfShares_eq hwindow hstored] at h
  cases hblock : c.countBlock x KeyedMap.empty with
  | error e => simp [hblock] at h
  | ok counted =>
    simp only [hblock] at h
    cases hwalk : c.countAncestors (x.height - (x.height - (c.config.shareWindow - 2))) x counted with
    | error e => simp [hwalk] at h
    | ok walked =>
      simp only [hwalk, Except.ok.injEq] at h
      subst h
      obtain ⟨hown, hcounted⟩ := countBlock_ok hblock counts_empty
      obtain ⟨hpath, huncles, hcounts⟩ := countAncestors_ok (by omega) hwalk hcounted
      refine ⟨(windowStored_iff hwindow).mpr ⟨hpath, hown, huncles⟩, ?_⟩
      rw [List.nil_append, ← List.flatMap_cons] at hcounts
      rwa [← windowHeaders_eq hwindow, headerPath, lineage_succ]

theorem exists_of_windowStored (hwindow : 2 ≤ c.config.shareWindow)
    (hstored : c.getBlockHeaderAtHeight height hash = some x) (h : WindowStored c x) :
    ∃ shares, c.getCalculateAndCacheHashmapOfShares height hash = .ok shares := by
  obtain ⟨hpath, hown, huncles⟩ := (windowStored_iff hwindow).mp h
  obtain ⟨counted, hcounted⟩ := exists_countUncles hown
    (updateInsert KeyedMap.empty x.walletAddress mainRewardShare x.coinbaseExtra)
  obtain ⟨shares, hshares⟩ := exists_countAncestors (by omega) hpath huncles counted
  refine ⟨shares, ?_⟩
  rw [getCalculateAndCacheHashmapOfShares_eq hwindow hstored]
  simp only [countBlock, hcounted, hshares]

theorem countsWindow_of_counts (hstored : WindowStored c x)
    (h : Counts shares ((c.windowHeaders x).flatMap c.headerCredits)) : CountsWindow c x shares where
  credited k := by
    rw [h k, weight_headers, ← windowUncles]
    have hpos : ∀ credit ∈ (c.windowHeaders x).flatMap c.headerCredits, 0 < credit.2 :=
      headerCredits_pos _
    have hmem := weight_pos_iff (k := k) hpos
    rw [weight_headers, ← windowUncles, mainRewardShare, uncleRewardShare] at hmem
    by_cases hk : k ∈ keys ((c.windowHeaders x).flatMap c.headerCredits)
    · have hsome := hmem.mpr hk
      rw [if_pos hk, if_neg (by omega)]
    · have hnone := mt hmem.mp hk
      rw [if_neg hk, if_pos (by omega)]
  total := by
    rw [h.total, sum_headers, ← windowUncles, hstored.uncles.length, hstored.blocks]

/-- The share window is counted if and only if it is stored, and then it is counted exactly. -/
theorem shareWindow_counted (hwindow : 2 ≤ c.config.shareWindow)
    (hstored : c.getBlockHeaderAtHeight height hash = some x) :
    ((∃ shares, c.getCalculateAndCacheHashmapOfShares height hash = .ok shares) ↔
      WindowStored c x) ∧
      ∀ shares, c.getCalculateAndCacheHashmapOfShares height hash = .ok shares →
        CountsWindow c x shares := by
  refine ⟨⟨fun ⟨shares, h⟩ => ?_, exists_of_windowStored hwindow hstored⟩, fun shares h => ?_⟩
  · exact (window_ok hwindow hstored h).1
  · obtain ⟨hall, hcounts⟩ := window_ok hwindow hstored h
    exact countsWindow_of_counts hall hcounts

/-- The window of the chain of three, from its tip. -/
theorem shareWindow_counted_three : ∃ x, sampleChain.getBlockHeaderAtHeight 2 3 = some x ∧
    ((∃ shares, sampleChain.getCalculateAndCacheHashmapOfShares 2 3 = .ok shares) ↔
      WindowStored sampleChain x) ∧
      ∀ shares, sampleChain.getCalculateAndCacheHashmapOfShares 2 3 = .ok shares →
        CountsWindow sampleChain x shares :=
  ⟨_, (Option.some_get (by decide)).symm,
    shareWindow_counted (by decide) (Option.some_get (by decide)).symm⟩

end P2Chain

end ShaP2Pool
