import ShaP2Pool.Proof.Paging
import ShaP2Pool.Proof.Ancestry

/-!
# Catch-up requests

A catch-up request names blocks that the peer has, and the answer starts above one of them. That
skips nothing as long as the block it starts above is on the main chain: then every main-chain block
below is one of its ancestors. The last block that the peer received is taken as it is, on the main
chain or not.
-/

namespace ShaP2Pool

namespace P2Chain

open Lineage

variable {c : P2Chain} {theirBlocks : List (Nat × FixedHash)} {lastBlockReceived : Option (Nat × FixedHash)}
variable {height target : Nat} {hash : FixedHash} {b m : P2Block}

/-- The height that `requestSync` asks a page for. -/
def splitHeight (c : P2Chain) (theirBlocks : List (Nat × FixedHash))
    (lastBlockReceived : Option (Nat × FixedHash)) : Nat :=
  Nat.max (c.splitAfterLast lastBlockReceived) (c.splitOf theirBlocks)

def syncStart (c : P2Chain) (theirBlocks : List (Nat × FixedHash))
    (lastBlockReceived : Option (Nat × FixedHash)) : Nat :=
  c.pageStart (some (c.splitHeight theirBlocks lastBlockReceived))

def NamedIn (theirBlocks : List (Nat × FixedHash)) (lastBlockReceived : Option (Nat × FixedHash))
    (hash : FixedHash) : Prop :=
  (∃ item ∈ theirBlocks, item.2 = hash) ∨ ∃ item ∈ lastBlockReceived, item.2 = hash

/-- Every main-chain block below the start is named or an ancestor of a block that is. -/
def SkipsNothing (c : P2Chain) (theirBlocks : List (Nat × FixedHash))
    (lastBlockReceived : Option (Nat × FixedHash)) : Prop :=
  ∀ height m, height < c.syncStart theirBlocks lastBlockReceived →
    c.mainChainBlock height = some m → ∃ i z, c.storedBlock z.height z.hash = some z ∧
      NamedIn theirBlocks lastBlockReceived z.hash ∧ c.ancestorOf i z = some m

/-- No main-chain block is stored at the heights from `height` to `target`, without `target`. -/
def NoneBetween (c : P2Chain) (height target : Nat) : Prop :=
  ∀ height', height ≤ height' → height' < target → c.mainChainBlock height' = none

/-- What a request must respect. The main chain is in place and linked below the start; the last
block received, if the answer starts above it, is on the main chain or has nothing to skip below it;
the block of the peer at which the chains split is in the cache; and the page does not begin above
the split with main-chain blocks in between. -/
structure RequestGuarded (c : P2Chain) (theirBlocks : List (Nat × FixedHash))
    (lastBlockReceived : Option (Nat × FixedHash)) : Prop where
  inPlace : MainChainInPlace c
  linked : ∀ height m target x, height < target →
    (target < c.syncStart theirBlocks lastBlockReceived ∨ u64Max ≤ target) →
    c.mainChainBlock height = some m → c.mainChainBlock target = some x →
    ∃ y, c.mainChainBlock (height + 1) = some y ∧ y.prevHash = m.hash
  lastOnMain : ∀ last ∈ lastBlockReceived, ∀ b, c.getBlockAtHeight last.1 last.2 = some b →
    c.mainChainBlock b.height = some b ∨
      c.NoneBetween (c.splitOf theirBlocks) (c.splitAfterLast lastBlockReceived)
  splitCached : ∀ item, c.splitBlock theirBlocks = some item →
    (c.mainChainBlock item.1).isSome = true
  startsAtSplit : c.NoneBetween (c.splitHeight theirBlocks lastBlockReceived)
    (c.syncStart theirBlocks lastBlockReceived)

/-! ### Down the main chain -/

theorem MainChainInPlace.ancestorOf_of_linked (hplace : MainChainInPlace c) {x : P2Block}
    (hle : height ≤ target) (hm : c.mainChainBlock height = some m)
    (hx : c.mainChainBlock target = some x)
    (hlinked : ∀ height' m', height ≤ height' → height' < target →
      c.mainChainBlock height' = some m' →
      ∃ y, c.mainChainBlock (height' + 1) = some y ∧ y.prevHash = m'.hash) :
    c.ancestorOf (target - height) x = some m := by
  obtain ⟨k, rfl⟩ := Nat.exists_eq_add_of_le hle
  clear hle
  rw [Nat.add_sub_cancel_left]
  induction k generalizing height m with
  | zero =>
    rw [Nat.add_zero, hm] at hx
    exact hx.symm
  | succ k ih =>
    obtain ⟨y, hy, hprev⟩ := hlinked height m (Nat.le_refl _) (by omega) hm
    have hstep := ih hy (by rwa [Nat.add_right_comm, Nat.add_assoc])
      (fun height' m' hlo hhi => hlinked height' m' (by omega) (by omega))
    have hparent : c.parentOf y = some m := by
      rw [parentOf, hplace.height_eq hy, if_neg (Nat.succ_ne_zero height), Nat.add_sub_cancel, hprev]
      exact hplace.stored hm
    exact ancestor_succ'.trans (Option.bind_eq_some_iff.mpr ⟨y, hstep, hparent⟩)

theorem splitBlock_spec {item : Nat × FixedHash} (h : c.splitBlock theirBlocks = some item)
    (hcached : (c.mainChainBlock item.1).isSome = true) :
    item ∈ theirBlocks ∧ ∃ z, c.mainChainBlock item.1 = some z ∧ z.hash = item.2 := by
  have hmem := List.mem_of_find?_eq_some h
  have hfound := List.find?_some h
  rw [Option.any_eq_true] at hfound
  obtain ⟨level, hlevel, hmark⟩ := hfound
  rw [decide_eq_true_eq] at hmark
  refine ⟨(List.perm_insertionSort _ theirBlocks).mem_iff.mp hmem, ?_⟩
  obtain ⟨z, hz⟩ := Option.isSome_iff_exists.mp hcached
  refine ⟨z, hz, ?_⟩
  rw [mainChainBlock, hlevel, Option.bind_some, getBlockInMainChain, hmark] at hz
  exact hash_of_cached hz

theorem above_of_min_le {start : Nat} (h : Nat.min (target + 1) u64Max ≤ start) :
    target < start ∨ u64Max ≤ target := by
  obtain hlt | hge := Nat.lt_or_ge target u64Max
  · rw [show Nat.min (target + 1) u64Max = target + 1 from Nat.min_eq_left hlt] at h
    exact Or.inl h
  · exact Or.inr hge

/-- On every chain a request that meets the condition is answered from a height below which every
main-chain block is one that the peer names, or an ancestor of one. -/
theorem sync_skips_nothing (hguard : RequestGuarded c theirBlocks lastBlockReceived) :
    SkipsNothing c theirBlocks lastBlockReceived := by
  have hplace := hguard.inPlace
  intro height m hlt hm
  have hreaches {target : Nat} {z : P2Block} (hle : height ≤ target)
      (hstart : target < c.syncStart theirBlocks lastBlockReceived ∨ u64Max ≤ target)
      (hz : c.mainChainBlock target = some z) : c.ancestorOf (target - height) z = some m :=
    hplace.ancestorOf_of_linked hle hm hz fun height' m' _ hhi hm' =>
      hguard.linked height' m' target z hhi hstart hm' hz
  have stored {target : Nat} {z : P2Block} (hz : c.mainChainBlock target = some z) :
      c.storedBlock z.height z.hash = some z := by
    rw [hplace.height_eq hz]
    exact hplace.stored hz
  obtain hsplit | hsplit := Nat.lt_or_ge height (c.splitOf theirBlocks)
  · -- below the block at which the chains split
    cases hitem : c.splitBlock theirBlocks with
    | none =>
      rw [splitOf, hitem] at hsplit
      exact absurd hsplit (Nat.not_lt_zero height)
    | some item =>
      obtain ⟨hmem, z, hz, hhash⟩ := splitBlock_spec hitem (hguard.splitCached item hitem)
      have hsum : c.splitOf theirBlocks = Nat.min (item.1 + 1) u64Max := by
        rw [splitOf, hitem]
        rfl
      have hmax : c.splitOf theirBlocks ≤ c.syncStart theirBlocks lastBlockReceived :=
        Nat.le_trans (Nat.le_max_right _ _) le_pageStart
      rw [hsum] at hsplit hmax
      have hanc := hreaches (Nat.le_of_lt_succ (Nat.lt_of_lt_of_le hsplit (Nat.min_le_left _ _)))
        (above_of_min_le hmax) hz
      exact ⟨_, z, stored hz, Or.inl ⟨item, hmem, hhash.symm⟩, hanc⟩
  obtain hlast | hlast := Nat.lt_or_ge height (c.splitAfterLast lastBlockReceived)
  · -- below the last block received
    cases hfound : lastBlockReceived.bind fun last => c.getBlockAtHeight last.1 last.2 with
    | none =>
      rw [splitAfterLast, hfound] at hlast
      exact absurd hlast (Nat.not_lt_zero height)
    | some b =>
      obtain ⟨last, hmem, hb⟩ := Option.bind_eq_some_iff.mp hfound
      have hsum : c.splitAfterLast lastBlockReceived = Nat.min (b.height + 1) u64Max := by
        rw [splitAfterLast, hfound]
        rfl
      have hmax : c.splitAfterLast lastBlockReceived ≤ c.syncStart theirBlocks lastBlockReceived :=
        Nat.le_trans (Nat.le_max_left _ _) le_pageStart
      have hhash : b.hash = last.2 := by
        obtain ⟨level, -, hfind⟩ := Option.bind_eq_some_iff.mp hb
        exact hash_of_cached hfind
      obtain hmain | hnone := hguard.lastOnMain last hmem b hb
      · rw [hsum] at hlast hmax
        have hanc := hreaches (Nat.le_of_lt_succ (Nat.lt_of_lt_of_le hlast (Nat.min_le_left _ _)))
          (above_of_min_le hmax) hmain
        exact ⟨_, b, stored hmain, Or.inr ⟨last, hmem, hhash.symm⟩, hanc⟩
      · rw [hnone height hsplit hlast] at hm
        cases hm
  · -- the page begins above the split
    rw [hguard.startsAtSplit height (Nat.max_le.mpr ⟨hlast, hsplit⟩) hlt] at hm
    cases hm

theorem le_of_mainChainBlock {top : Nat} (htop : ∀ level ∈ c.levels.values, level.height ≤ top)
    (h : c.mainChainBlock height = some m) : height ≤ top := by
  obtain ⟨level, hlevel, -⟩ := Option.bind_eq_some_iff.mp h
  rw [← height_of_levelAtHeight hlevel]
  exact htop level (KeyedMap.mem_values_of_find? hlevel)

/-- Two branches of a chain: the tip was on the first, and then the second got longer. -/
def forkedBlocks : List P2Block :=
  [sampleBlock 1 0 0 1, sampleBlock 2 1 1 2, sampleBlock 3 2 2 3, sampleBlock 4 1 1 2,
    sampleBlock 5 4 2 3, sampleBlock 6 5 3 4]

def forkedChain : P2Chain := addAll sampleCore .stored forkedBlocks (newEmpty (sampleConfig 10))

theorem run_forkedChain :
    Run sampleCore (sampleConfig 10) Unrestricted forkedBlocks.reverse forkedChain :=
  Run.of_blocks IterOrder.stored (fun _ _ _ => true) (fun _ _ _ _ => trivial) forkedBlocks (by decide)

theorem sync_skips_nothing_forked : SkipsNothing forkedChain [(2, 3), (1, 2), (0, 1)] (some (1, 4)) := by
  have htop : ∀ level ∈ forkedChain.levels.values, level.height ≤ 3 := by decide
  have hstart : forkedChain.syncStart [(2, 3), (1, 2), (0, 1)] (some (1, 4)) = 2 := by decide
  have hsplit : forkedChain.splitHeight [(2, 3), (1, 2), (0, 1)] (some (1, 4)) = 2 := by decide
  refine sync_skips_nothing
    ⟨run_forkedChain.recorded.mainChainInPlace run_forkedChain.distinct, ?_, ?_, ?_, ?_⟩
  · intro height m target x hlt htarget hm hx
    have hle := le_of_mainChainBlock htop hx
    have hmax : 3 < u64Max := by decide
    obtain rfl : height = 0 := by omega
    obtain ⟨y, hy⟩ := Option.isSome_iff_exists.mp
      (show (forkedChain.mainChainBlock 1).isSome = true by decide)
    have hlink : (forkedChain.mainChainBlock 1).map (·.prevHash) =
        (forkedChain.mainChainBlock 0).map (·.hash) := by decide
    rw [hy, hm, Option.map_some, Option.map_some, Option.some.injEq] at hlink
    exact ⟨y, hy, hlink⟩
  · rintro last ⟨⟩ b hb
    have hmain : ∀ b ∈ forkedChain.getBlockAtHeight 1 4, forkedChain.mainChainBlock b.height = some b := by
      decide
    exact Or.inl (hmain b hb)
  · intro item hitem
    have hcached : ∀ item ∈ forkedChain.splitBlock [(2, 3), (1, 2), (0, 1)],
        (forkedChain.mainChainBlock item.1).isSome = true := by decide
    exact hcached item hitem
  · intro height hlo hhi
    omega

/-- A peer that has the first branch, and received its tip last, is answered from height 3: the
blocks 4 and 5 are skipped. -/
theorem reorganised_blocks_skipped : ∃ hist tip,
    Run sampleCore (sampleConfig 10) Unrestricted hist forkedChain ∧ forkedChain.getTip = some tip ∧
    forkedChain.syncStart [(2, 3), (1, 2), (0, 1)] (some (2, 3)) = 3 ∧
    ¬SkipsNothing forkedChain [(2, 3), (1, 2), (0, 1)] (some (2, 3)) := by
  have hc := run_forkedChain.recorded.agree
  refine ⟨_, _, run_forkedChain, (Option.some_get (by decide)).symm, by decide, fun hskips => ?_⟩
  obtain ⟨m, hm⟩ := Option.isSome_iff_exists.mp
    (show (forkedChain.mainChainBlock 1).isSome = true by decide)
  have hfour : ∀ m ∈ forkedChain.mainChainBlock 1, m.height = 1 ∧ m.hash = 4 := by decide
  obtain ⟨hheight, hhash⟩ := hfour m hm
  obtain ⟨i, z, hz, hnamed, hanc⟩ := hskips 1 m (by decide) hm
  have hsum := height_of_ancestorOf hc hanc
  -- the named blocks are those of the first branch
  have hbranch : z.hash ∈ [3, 2, 1] := by
    obtain ⟨item, hitem, heq⟩ | ⟨item, hitem, heq⟩ := hnamed
    · rw [← heq]
      exact List.mem_map_of_mem hitem
    · cases hitem
      rw [← heq]
      exact List.mem_cons_self
  have hstored : ∀ hash ∈ [3, 2, 1], (forkedChain.storedBlock (hash - 1) hash).isSome = true := by
    decide
  have hnever : ∀ hash ∈ [3, 2, 1], ∀ x ∈ forkedChain.storedBlock (hash - 1) hash, x.height ≤ 2 ∧
      ∀ i ∈ [0, 1], ∀ a ∈ forkedChain.ancestorOf i x, a.hash ≠ 4 := by decide
  obtain ⟨x, hx⟩ := Option.isSome_iff_exists.mp (hstored z.hash hbranch)
  obtain ⟨-, rfl⟩ := hc.storedBlock_inj hz hx
  obtain ⟨hle, hanc'⟩ := hnever z.hash hbranch z hx
  have hi : i ∈ [0, 1] := by
    obtain rfl | rfl : i = 0 ∨ i = 1 := by omega
    · exact List.mem_cons_self
    · exact List.mem_cons_of_mem _ List.mem_cons_self
  exact hanc' i hi m hanc hhash

end P2Chain

end ShaP2Pool
