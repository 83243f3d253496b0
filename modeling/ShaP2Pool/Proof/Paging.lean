import ShaP2Pool.Sharechain.Sync
import ShaP2Pool.Proof.Relinking
import Mathlib.Data.List.Induction
import Mathlib.Tactic.IntervalCases

/-!
# Pages of the main chain

A page is read off consecutive levels, from the start height or from the lowest height that the
chain claims to have, whichever is higher. The loop ends at the first height without a level, or
once it has taken more blocks than the page should hold. So a page keeps within its size only when
it is the last one.
-/

namespace ShaP2Pool

namespace P2Chain

variable {core : TariCore} {config : ChainConfig} {hist : List P2Block} {c : P2Chain}
variable {P : List P2Block → P2Chain → IterOrder → P2Block → Prop} {ord : IterOrder}
variable {height start lowest n k numActualBlocks pageSize rounds : Nat} {hash : FixedHash}
variable {b : P2Block} {level : P2ChainLevel} {res : List P2Block}
  {r : Except Fault (List P2Block)}

/-! ### The main chain by height -/

def mainChainBlock (c : P2Chain) (height : Nat) : Option P2Block :=
  (c.levelAtHeight height).bind c.getBlockInMainChain

/-- The heights with a main-chain block among the `n` from `height` on. -/
def mainHeights (c : P2Chain) (height n : Nat) : List Nat :=
  (List.range' height n).filter fun height => (c.mainChainBlock height).isSome

def withUncles (c : P2Chain) (height : Nat) : List P2Block :=
  ((c.mainChainBlock height).map fun block => c.storedUncles block ++ [block]).getD []

/-- The main-chain blocks of the `n` heights from `height` on, each after its uncles. -/
def servedFrom (c : P2Chain) (height n : Nat) : List P2Block :=
  (c.mainHeights height n).flatMap c.withUncles

theorem Recorded.mainChainBlock_eq_some_iff (hr : Recorded config hist c) (hd : Distinct hist) :
    c.mainChainBlock height = some b ↔ c.storedBlock height (c.chainBlockAt height) = some b := by
  constructor
  · intro h
    obtain ⟨level, hlevel, hfind⟩ := Option.bind_eq_some_iff.mp h
    have hmark : c.chainBlockAt height = level.chainBlock := by
      rw [chainBlockAt, hlevel, Option.map_some, Option.getD_some]
    have hstored : c.storedBlock b.height (c.chainBlockAt height) = some b :=
      hr.agree.storedBlock_eq_some_iff.mpr ⟨by rw [hmark]; exact hfind, rfl⟩
    obtain ⟨x, hx⟩ := hr.marks (hr.hash_ne_zero hd hstored)
    obtain ⟨-, rfl⟩ := hr.agree.storedBlock_inj hstored hx
    exact hx
  · intro h
    obtain ⟨level, hlevel, -⟩ := hr.agree.level_of_storedBlock h
    have hmark : c.chainBlockAt height = level.chainBlock := by
      rw [chainBlockAt, hlevel, Option.map_some, Option.getD_some]
    rw [mainChainBlock, hlevel, Option.bind_some, getBlockInMainChain, ← hmark]
    exact (hr.agree.storedBlock_eq_some_iff.mp h).1

/-- Every main-chain mark names a block that is stored in its level, and that the cache has with the
height of the level. So it is unless a hash is stored at two heights. -/
structure MainChainInPlace (c : P2Chain) : Prop where
  height_eq : ∀ {height b}, c.mainChainBlock height = some b → b.height = height
  stored : ∀ {height b}, c.mainChainBlock height = some b → c.storedBlock height b.hash = some b

theorem Recorded.mainChainInPlace (hr : Recorded config hist c) (hd : Distinct hist) :
    MainChainInPlace c where
  height_eq h := hr.agree.height_of_storedBlock ((hr.mainChainBlock_eq_some_iff hd).mp h)
  stored h := by
    have hstored := (hr.mainChainBlock_eq_some_iff hd).mp h
    rwa [← hr.agree.hash_of_storedBlock hstored] at hstored

theorem mem_mainHeights : start ∈ c.mainHeights height n ↔
    (height ≤ start ∧ start < height + n) ∧ (c.mainChainBlock start).isSome = true := by
  rw [mainHeights, List.mem_filter, List.mem_range'_1]

theorem mainHeights_append (height m n : Nat) :
    c.mainHeights height (m + n) = c.mainHeights height m ++ c.mainHeights (height + m) n := by
  rw [mainHeights, mainHeights, mainHeights, ← List.filter_append, List.range'_append_1]

theorem mainHeights_eq_nil (h : ∀ height', height ≤ height' → height' < height + n →
    c.mainChainBlock height' = none) : c.mainHeights height n = [] := by
  refine List.filter_eq_nil_iff.mpr fun height' hmem => ?_
  obtain ⟨hlo, hhi⟩ := List.mem_range'_1.mp hmem
  rw [h height' hlo hhi]
  exact Bool.false_ne_true

theorem mainHeights_eq_range' (h : ∀ height', height ≤ height' → height' < height + n →
    (c.mainChainBlock height').isSome = true) : c.mainHeights height n = List.range' height n := by
  refine List.filter_eq_self.mpr fun height' hmem => ?_
  obtain ⟨hlo, hhi⟩ := List.mem_range'_1.mp hmem
  exact h height' hlo hhi

theorem mainHeights_between {total : Nat} (hlo : height ≤ lowest) (hhi : lowest + n ≤ height + total)
    (hbelow : ∀ height', height ≤ height' → height' < lowest → c.mainChainBlock height' = none)
    (hmain : ∀ height', lowest ≤ height' → height' < lowest + n →
      (c.mainChainBlock height').isSome = true)
    (habove : ∀ height', lowest + n ≤ height' → height' < height + total →
      c.mainChainBlock height' = none) : c.mainHeights height total = List.range' lowest n := by
  obtain ⟨below, rfl⟩ := Nat.exists_eq_add_of_le hlo
  obtain ⟨above, rfl⟩ : ∃ above, total = below + n + above := ⟨total - (below + n), by omega⟩
  rw [mainHeights_append, mainHeights_append, mainHeights_eq_nil (by
      intro height' hlo hhi
      exact hbelow height' hlo hhi),
    mainHeights_eq_range' hmain, mainHeights_eq_nil (by
      intro height' hlo hhi
      exact habove height' (by omega) (by omega)), List.nil_append, List.append_nil]

theorem servedFrom_append (height m n : Nat) :
    c.servedFrom height (m + n) = c.servedFrom height m ++ c.servedFrom (height + m) n := by
  rw [servedFrom, mainHeights_append, List.flatMap_append]
  rfl

/-- How a page ends that has taken the levels from `height` to `height + k`. -/
inductive PageEnds (c : P2Chain) (pageSize numActualBlocks height k : Nat) (res : List P2Block) :
    Except Fault (List P2Block) → Prop
  | full (hfull : pageSize < numActualBlocks + (c.mainHeights height (k + 1)).length) :
    PageEnds c pageSize numActualBlocks height k res (.ok (res ++ c.servedFrom height (k + 1)))
  | noLevel (hroom : numActualBlocks + (c.mainHeights height (k + 1)).length ≤ pageSize)
    (hfits : height + k < u64Max) (hnone : c.levelAtHeight (height + k + 1) = none) :
    PageEnds c pageSize numActualBlocks height k res (.ok (res ++ c.servedFrom height (k + 1)))
  | overflow (htop : u64Max ≤ height + k) :
    PageEnds c pageSize numActualBlocks height k res (.error (.panic .overflow))

/-- A page that takes one more level first. -/
theorem PageEnds.head (h : PageEnds c pageSize
      (numActualBlocks + (c.mainHeights height 1).length) (height + 1) k
      (res ++ c.servedFrom height 1) r) :
    PageEnds c pageSize numActualBlocks height (k + 1) res r := by
  have hheights : (c.mainHeights height (k + 1 + 1)).length =
      (c.mainHeights height 1).length + (c.mainHeights (height + 1) (k + 1)).length := by
    rw [Nat.add_comm (k + 1) 1, mainHeights_append, List.length_append]
  have hserved : res ++ c.servedFrom height (k + 1 + 1) =
      res ++ c.servedFrom height 1 ++ c.servedFrom (height + 1) (k + 1) := by
    rw [Nat.add_comm (k + 1) 1, servedFrom_append, List.append_assoc]
  cases h with
  | full hfull =>
    rw [← hserved]
    exact .full (by omega)
  | noLevel hroom hfits hnone =>
    rw [← hserved]
    refine .noLevel (by omega) (by omega) ?_
    rwa [← Nat.add_assoc, Nat.add_right_comm height k 1]
  | overflow htop => exact .overflow (by omega)

theorem levelBlocks_main (hlevel : c.levelAtHeight height = some level) :
    c.levelBlocks ord true level = (c.servedFrom height 1, (c.mainHeights height 1).length) := by
  have hmain : c.mainChainBlock height = c.getBlockInMainChain level := by
    rw [mainChainBlock, hlevel, Option.bind_some]
  rw [levelBlocks, if_pos rfl, servedFrom, mainHeights, List.range'_one, List.filter_singleton,
    hmain]
  cases hblock : c.getBlockInMainChain level with
  | none => rfl
  | some block =>
    simp only [Option.isSome_some, cond_true, List.flatMap_singleton, withUncles, hmain, hblock,
      Option.map_some, Option.getD_some, List.length_singleton]

/-- With as many rounds as there are levels, the loop ends in one of the three ways. -/
theorem pageLoop_ends (hlevel : c.levelAtHeight height = some level)
    (hrounds : ∀ k, (∀ i ≤ k, (c.levelAtHeight (height + i)).isSome = true) → k < rounds) :
    ∃ k, (∀ i ≤ k, (c.levelAtHeight (height + i)).isSome = true) ∧
      PageEnds c pageSize numActualBlocks height k res
        (c.pageLoop ord pageSize true rounds level numActualBlocks res) := by
  have hself : ∀ i ≤ 0, (c.levelAtHeight (height + i)).isSome = true := by
    intro i hi
    obtain rfl := Nat.le_zero.mp hi
    rw [Nat.add_zero, hlevel, Option.isSome_some]
  induction rounds generalizing height level numActualBlocks res with
  | zero => exact absurd (hrounds 0 hself) (Nat.lt_irrefl 0)
  | succ rounds ih =>
    rw [pageLoop, levelBlocks_main hlevel, height_of_levelAtHeight hlevel]
    simp only
    split_ifs with hfull htop
    · exact ⟨0, hself, .full hfull⟩
    · exact ⟨0, hself, .overflow (by omega)⟩
    · cases hnext : c.levelAtHeight (height + 1) with
      | none => exact ⟨0, hself, .noLevel (by rw [Nat.zero_add]; omega) (by omega) hnext⟩
      | some newLevel =>
        have hcons {k : Nat} (hk : ∀ i ≤ k, (c.levelAtHeight (height + 1 + i)).isSome = true) :
            ∀ i ≤ k + 1, (c.levelAtHeight (height + i)).isSome = true := by
          intro i hi
          cases i with
          | zero => exact hself 0 (Nat.le_refl 0)
          | succ i =>
            rw [Nat.add_comm i 1, ← Nat.add_assoc]
            exact hk i (by omega)
        have hself' : ∀ i ≤ 0, (c.levelAtHeight (height + 1 + i)).isSome = true := by
          intro i hi
          obtain rfl := Nat.le_zero.mp hi
          rw [Nat.add_zero, hnext, Option.isSome_some]
        obtain ⟨k, hk, hends⟩ := ih hnext
          (fun k hk => Nat.lt_of_succ_lt_succ (hrounds (k + 1) (hcons hk))) hself'
        exact ⟨k + 1, hcons hk, hends.head⟩

theorem allBlocksWithLock_ends (c : P2Chain) (ord : IterOrder) (start pageSize : Nat) :
    (c.levelAtHeight (c.pageStart (some start)) = none ∧
      c.allBlocksWithLock ord (some start) pageSize true = .ok []) ∨
    ∃ k, (∀ i ≤ k, (c.levelAtHeight (c.pageStart (some start) + i)).isSome = true) ∧
      PageEnds c pageSize 0 (c.pageStart (some start)) k []
        (c.allBlocksWithLock ord (some start) pageSize true) := by
  rw [allBlocksWithLock]
  cases hlevel : c.levelAtHeight (c.pageStart (some start)) with
  | none => exact Or.inl ⟨rfl, rfl⟩
  | some level =>
    refine Or.inr (pageLoop_ends hlevel fun k hk => ?_)
    have hlevels : ∀ height', c.pageStart (some start) < height' →
        height' ≤ c.pageStart (some start) + k → (c.levelAtHeight height').isSome = true := by
      intro height' hlo hhi
      obtain ⟨i, rfl⟩ := Nat.exists_eq_add_of_lt hlo
      rw [Nat.add_assoc]
      exact hk (i + 1) (by omega)
    have hsize := gap_le_size hlevels
    omega

theorem le_pageStart : start ≤ c.pageStart (some start) := by
  rw [pageStart, Option.getD_some]
  split_ifs with hlow
  · exact Nat.le_of_lt hlow
  · exact Nat.le_refl _

theorem pageStart_eq_self {start' : Nat} (h : c.pageStart (some start) ≤ start') :
    c.pageStart (some start') = start' := by
  rw [pageStart, Option.getD_some] at h ⊢
  refine if_neg fun hlow => ?_
  split_ifs at h <;> omega

/-! ### Serving the main chain -/

/-- The rest of the main chain fits into one page: it starts at `lowest` and has no hole, at most
`pageSize` blocks are left, the levels lead from the start of the page to the tip and end below the
highest height there is, and no level that follows the tip is marked. -/
structure FitsOnePage (c : P2Chain) (pageSize start lowest last : Nat) : Prop where
  pageStart_le : c.pageStart (some start) ≤ lowest
  isLowest : ∀ height, start ≤ height → height < lowest → c.mainChainBlock height = none
  noHole : ∀ height, lowest ≤ height → height ≤ c.currentTip →
    (c.mainChainBlock height).isSome = true
  size : c.currentTip < lowest + pageSize
  lowest_le : lowest ≤ c.currentTip
  levels : ∀ height, c.pageStart (some start) ≤ height → height ≤ last →
    (c.levelAtHeight height).isSome = true
  tip_le : c.currentTip ≤ last
  noLevel : c.levelAtHeight (last + 1) = none
  last_lt : last < u64Max
  noMark : ∀ height, c.currentTip < height → height ≤ last → c.mainChainBlock height = none

section OnePage

variable {last : Nat} (hfits : FitsOnePage c pageSize start lowest last)
  (hn : c.currentTip = lowest + n)

include hfits hn

theorem FitsOnePage.mainHeights_eq {total : Nat} (hstart : start ≤ height) (hlo : height ≤ lowest)
    (hhi : c.currentTip < height + total) (hlast : height + total ≤ last + 1) :
    c.mainHeights height total = List.range' lowest (n + 1) := by
  refine mainHeights_between hlo (by omega) (fun height' hle hlt => ?_) (fun height' hle hlt => ?_)
    (fun height' hle hlt => ?_)
  · exact hfits.isLowest height' (Nat.le_trans hstart hle) hlt
  · exact hfits.noHole height' hle (by omega)
  · exact hfits.noMark height' (by omega) (by omega)

theorem FitsOnePage.servedFrom_eq {total : Nat} (hstart : start ≤ height) (hlo : height ≤ lowest)
    (hhi : c.currentTip < height + total) (hlast : height + total ≤ last + 1) :
    c.servedFrom height total = c.servedFrom lowest (n + 1) := by
  have htip := hfits.tip_le
  rw [servedFrom, servedFrom, hfits.mainHeights_eq hn hstart hlo hhi hlast,
    hfits.mainHeights_eq hn (Nat.le_trans hstart hlo) (Nat.le_refl _) (by omega) (by omega)]

/-- No more blocks are taken than the page may hold. -/
theorem FitsOnePage.length_le (hle : c.pageStart (some start) + k ≤ last) :
    (c.mainHeights (c.pageStart (some start)) (k + 1)).length ≤ pageSize := by
  have hfirst : start ≤ c.pageStart (some start) := le_pageStart
  have hsub : c.mainHeights (c.pageStart (some start)) (k + 1) ⊆ List.range' lowest (n + 1) := by
    intro height hmem
    obtain ⟨⟨hlo, hhi⟩, hmain⟩ := mem_mainHeights.mp hmem
    rw [List.mem_range'_1]
    constructor
    · by_contra hlt
      rw [hfits.isLowest height (by omega) (by omega)] at hmain
      cases hmain
    · by_contra hlt
      rw [hfits.noMark height (by omega) (by omega)] at hmain
      cases hmain
  have hlen := (List.subperm_of_subset (List.Nodup.filter _ List.nodup_range') hsub).length_le
  rw [List.length_range'] at hlen
  have hsize := hfits.size
  change (c.mainHeights (c.pageStart (some start)) (k + 1)).length ≤ n + 1 at hlen
  omega

/-- The loop ends at the last level, and takes the rest of the main chain. -/
theorem FitsOnePage.result (ord : IterOrder) :
    c.allBlocksWithLock ord (some start) pageSize true = .ok (c.servedFrom lowest (n + 1)) := by
  have hfirst : start ≤ c.pageStart (some start) := le_pageStart
  have hpos := hfits.pageStart_le
  have htip := hfits.tip_le
  obtain ⟨hnone, -⟩ | ⟨k, hk, hends⟩ := allBlocksWithLock_ends c ord start pageSize
  · have hlevel := hfits.levels _ (Nat.le_refl _) (by omega)
    rw [hnone] at hlevel
    cases hlevel
  · have hle : c.pageStart (some start) + k ≤ last := by
      by_contra hlt
      have hlevel := hk (last + 1 - c.pageStart (some start)) (by omega)
      rw [Nat.add_sub_cancel' (by omega), hfits.noLevel] at hlevel
      cases hlevel
    generalize c.allBlocksWithLock ord (some start) pageSize true = r at hends ⊢
    cases hends with
    | full hfull =>
      have hlen := hfits.length_le hn hle
      omega
    | noLevel hroom hfitsTop hnone =>
      have heq : c.pageStart (some start) + k = last := by
        by_contra hne
        have hlevel := hfits.levels (c.pageStart (some start) + k + 1) (by omega) (by omega)
        rw [hnone] at hlevel
        cases hlevel
      rw [List.nil_append, hfits.servedFrom_eq hn hfirst hpos (by omega) (by omega)]
    | overflow htop =>
      have := hfits.last_lt
      omega

end OnePage

end P2Chain

end ShaP2Pool
