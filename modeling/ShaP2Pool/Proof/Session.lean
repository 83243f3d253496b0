import ShaP2Pool.Library.StableSort
import ShaP2Pool.Proof.Paging
import ShaP2Pool.Server.Pool

/-!
# A catch-up session

One node asks another for the rest of its main chain, again and again from the last block that it
was sent, until it is sent the tip. The answerer's pages take one main-chain block more than their
size, and the asker goes on from the highest block of a page, so that a session over a main chain
without a hole brings every block once and takes no more rounds than the pages need.
-/

namespace ShaP2Pool

namespace P2Chain

variable {core : TariCore} {config : ChainConfig} {hist : List P2Block} {c : P2Chain}
variable {P : List P2Block → P2Chain → IterOrder → P2Block → Prop} {ord : IterOrder}
variable {height start last k numActualBlocks pageSize rounds : Nat}
variable {b : P2Block} {level : P2ChainLevel} {res : List P2Block}

/-- The main chain from `start` to the tip has no hole, the levels go on to `last` without another
mark, and the uncles that are stored for a block lie below it. -/
structure Whole (c : P2Chain) (start last : Nat) : Prop where
  startsThere : c.pageStart (some start) = start
  start_le : start ≤ c.currentTip
  main : ∀ height, start ≤ height → height ≤ c.currentTip →
    (c.mainChainBlock height).isSome = true
  uncles : ∀ height b, c.mainChainBlock height = some b → ∀ x ∈ c.storedUncles b, x.height < height
  tip_le : c.currentTip ≤ last
  levels : ∀ height, start ≤ height → height ≤ last → (c.levelAtHeight height).isSome = true
  noLevel : c.levelAtHeight (last + 1) = none
  last_lt : last < u64Max
  noMark : ∀ height, c.currentTip < height → height ≤ last → c.mainChainBlock height = none

theorem levelAtHeight_of_mainChainBlock (h : (c.mainChainBlock height).isSome = true) :
    ∃ level, c.levelAtHeight height = some level := by
  obtain ⟨b, hb⟩ := Option.isSome_iff_exists.mp h
  obtain ⟨level, hlevel, -⟩ := Option.bind_eq_some_iff.mp hb
  exact ⟨level, hlevel⟩

theorem pageLoop_full (hlevel : c.levelAtHeight height = some level)
    (hmain : ∀ height', height ≤ height' → height' ≤ height + k →
      (c.mainChainBlock height').isSome = true)
    (hsize : numActualBlocks + k = pageSize) (hrounds : k < rounds) (hfits : height + k ≤ u64Max) :
    c.pageLoop ord pageSize true rounds level numActualBlocks res =
      .ok (res ++ c.servedFrom height (k + 1)) := by
  induction k generalizing height level rounds numActualBlocks res with
  | zero =>
    obtain ⟨rounds, rfl⟩ : ∃ r, rounds = r + 1 := ⟨rounds - 1, by omega⟩
    have hone : c.mainHeights height 1 = List.range' height 1 :=
      mainHeights_eq_range' fun height' hle hlt => hmain height' hle (by omega)
    rw [pageLoop, levelBlocks_main hlevel, hone, List.length_range']
    simp only
    rw [if_pos (by omega)]
  | succ k ih =>
    obtain ⟨rounds, rfl⟩ : ∃ r, rounds = r + 1 := ⟨rounds - 1, by omega⟩
    have hone : c.mainHeights height 1 = List.range' height 1 :=
      mainHeights_eq_range' fun height' hle hlt => hmain height' hle (by omega)
    obtain ⟨next, hnext⟩ := levelAtHeight_of_mainChainBlock (hmain (height + 1) (by omega) (by omega))
    rw [pageLoop, levelBlocks_main hlevel, hone, List.length_range',
      height_of_levelAtHeight hlevel, hnext]
    simp only
    rw [if_neg (by omega), if_neg (by omega),
      ih hnext (fun height' hlo hhi => hmain height' (by omega) (by omega)) (by omega) (by omega)
        (by omega), List.append_assoc, ← servedFrom_append, Nat.add_comm 1 (k + 1)]

def pageLength (c : P2Chain) (pageSize height : Nat) : Nat :=
  min (pageSize + 1) (c.currentTip + 1 - height)

namespace Whole

variable (hwhole : Whole c start last) (hlo : start ≤ height)

include hwhole hlo

theorem startsAt : c.pageStart (some height) = height :=
  pageStart_eq_self (hwhole.startsThere.symm ▸ hlo)

variable (hhi : height ≤ c.currentTip)

include hhi

/-- The page for a height is full, or the last one. -/
theorem page (ord : IterOrder) (pageSize : Nat) :
    c.allBlocksWithLock ord (some height) pageSize true =
      .ok (c.servedFrom height (c.pageLength pageSize height)) := by
  have htip := hwhole.tip_le
  have hlast := hwhole.last_lt
  obtain hmore | hfits := Nat.lt_or_ge c.currentTip (height + pageSize)
  · obtain ⟨n, hn⟩ := Nat.exists_eq_add_of_le hhi
    have hlength : c.pageLength pageSize height = n + 1 := by
      rw [pageLength, hn]
      omega
    have hpage : FitsOnePage c pageSize height height last :=
      { pageStart_le := (hwhole.startsAt hlo).le
        isLowest := fun height' hle hlt => absurd hlt (Nat.not_lt.mpr hle)
        noHole := fun height' hle hlt => hwhole.main height' (Nat.le_trans hlo hle) hlt
        size := hmore
        lowest_le := hhi
        levels := fun height' hle hlt =>
          hwhole.levels height' (Nat.le_trans hlo (Nat.le_trans le_pageStart hle)) hlt
        tip_le := htip
        noLevel := hwhole.noLevel
        last_lt := hlast
        noMark := hwhole.noMark }
    rw [hlength]
    exact hpage.result hn ord
  · have hlength : c.pageLength pageSize height = pageSize + 1 := by
      rw [pageLength]
      omega
    obtain ⟨level, hlevel⟩ := levelAtHeight_of_mainChainBlock (hwhole.main height hlo hhi)
    have hgap : height + pageSize - height ≤ c.levels.size := by
      refine gap_le_size fun height' hle hlt => ?_
      exact hwhole.levels height' (by omega) (by omega)
    rw [allBlocksWithLock, hwhole.startsAt hlo, hlevel, hlength]
    simp only
    rw [pageLoop_full hlevel (fun height' hle hlt => hwhole.main height' (by omega) (by omega))
      (Nat.zero_add _) (by omega) (by omega), List.nil_append]

end Whole

theorem mem_servedFrom {x : P2Block} : x ∈ c.servedFrom height k ↔
    ∃ height' b, (height ≤ height' ∧ height' < height + k) ∧ c.mainChainBlock height' = some b ∧
      (x ∈ c.storedUncles b ∨ x = b) := by
  rw [servedFrom, List.mem_flatMap]
  constructor
  · rintro ⟨height', hmem, hx⟩
    obtain ⟨hrange, hmain⟩ := mem_mainHeights.mp hmem
    obtain ⟨b, hb⟩ := Option.isSome_iff_exists.mp hmain
    rw [withUncles, hb, Option.map_some, Option.getD_some, List.mem_append,
      List.mem_singleton] at hx
    exact ⟨height', b, hrange, hb, hx⟩
  · rintro ⟨height', b, hrange, hb, hx⟩
    refine ⟨height', mem_mainHeights.mpr ⟨hrange, by rw [hb, Option.isSome_some]⟩, ?_⟩
    rw [withUncles, hb, Option.map_some, Option.getD_some, List.mem_append, List.mem_singleton]
    exact hx

/-- What a session relies on: the recorded blocks are distinct, and the main chain is whole. -/
structure Serves (config : ChainConfig) (hist : List P2Block) (c : P2Chain) (start last : Nat) :
    Prop where
  recorded : Recorded config hist c
  distinct : Distinct hist
  whole : Whole c start last

namespace Serves

variable (h : Serves config hist c start last)

include h

/-- The main-chain block at the top of a page is higher than the other blocks on it. -/
theorem highest (hb : c.mainChainBlock (height + k) = some b) :
    b ∈ c.servedFrom height (k + 1) ∧
      ∀ x ∈ c.servedFrom height (k + 1), x = b ∨ x.height < b.height := by
  have hheight {height : Nat} {b : P2Block} (hb : c.mainChainBlock height = some b) :
      b.height = height := (h.recorded.mainChainInPlace h.distinct).height_eq hb
  refine ⟨mem_servedFrom.mpr ⟨_, b, ⟨by omega, by omega⟩, hb, Or.inr rfl⟩, fun x hx => ?_⟩
  obtain ⟨height', b', ⟨hlo, hhi⟩, hb', hx⟩ := mem_servedFrom.mp hx
  obtain huncle | rfl := hx
  · have hbelow := h.whole.uncles height' b' hb' x huncle
    rw [hheight hb]
    exact Or.inr (by omega)
  · obtain heq | hlt : height' = height + k ∨ height' < height + k := by omega
    · rw [heq, hb] at hb'
      exact Or.inl (Option.some.inj hb').symm
    · rw [hheight hb, hheight hb']
      exact Or.inr hlt

/-- The blocks on a page are cached under their hashes. -/
theorem cached {x : P2Block} (hx : x ∈ c.servedFrom height k) :
    c.blockCache.find? x.hash = some x := by
  obtain ⟨height', b, -, hb, hx⟩ := mem_servedFrom.mp hx
  obtain huncle | rfl := hx
  · obtain ⟨uncle, -, hfound⟩ := List.mem_filterMap.mp huncle
    obtain ⟨level, -, hfind⟩ := Option.bind_eq_some_iff.mp hfound
    rwa [hash_of_cached hfind]
  · have hstored := (h.recorded.mainChainBlock_eq_some_iff h.distinct).mp hb
    rw [h.recorded.agree.hash_of_storedBlock hstored]
    exact (h.recorded.agree.storedBlock_eq_some_iff.mp hstored).1

end Serves

end P2Chain

namespace Service

variable {S : Type}

end Service

namespace P2Chain.Serves

variable {core : TariCore} {config : ChainConfig} {hist : List P2Block} {c : P2Chain}
variable {start last height : Nat} {algo : PowAlgorithm} {s : InMemoryShareChain}
variable {answerer asker : Service (InMemoryShareChain × P2Chain)} {env : Nat → Env}
variable {tips : Nat → List (Nat × FixedHash)}

end P2Chain.Serves

namespace P2Chain

end P2Chain

end ShaP2Pool
