import ShaP2Pool.Proof.History
import ShaP2Pool.Proof.Upkeep

/-!
# What the chain stores

The block cache only ever takes in a block that a caller hands over, and what it does to a block
afterwards is to set verification flags. So a property of the content of blocks that every stored
block and every new one has is kept by every call, whatever the state of the chain and however the
call ends.
-/

namespace ShaP2Pool

namespace P2Chain

variable {Q : P2Block → Prop} {core : TariCore} {ord : IterOrder} {c c' : P2Chain} {b : P2Block}
  {n height : Nat} {hash : FixedHash}

/-- Every stored block has a content with `Q`. -/
def AllStored (Q : P2Block → Prop) (c : P2Chain) : Prop := ∀ b ∈ c.blockCache.values, Q b.withoutStatus

theorem AllStored.newEmpty (config : ChainConfig) : (newEmpty config).AllStored Q := by
  intro b hb
  cases hb

theorem AllStored.of_cache (hall : c.AllStored Q) (hcache : c'.blockCache = c.blockCache) :
    c'.AllStored Q := by
  intro b hb
  rw [hcache] at hb
  exact hall b hb

theorem AllStored.withCachedShares (hall : c.AllStored Q) (cached : Option CachedShares) :
    AllStored Q { c with cachedShares := cached } :=
  hall

theorem AllStored.of_find? (hall : c.AllStored Q) (hb : c.blockCache.find? hash = some b) :
    Q b.withoutStatus :=
  hall b (KeyedMap.mem_values_of_find? hb)

theorem AllStored.of_insert (hall : c.AllStored Q) (hb : Q b.withoutStatus)
    (hcache : c'.blockCache = c.blockCache.insert b) : c'.AllStored Q := by
  intro x hx
  rw [hcache, KeyedMap.mem_values_insert] at hx
  obtain rfl | ⟨hx, -⟩ := hx
  · exact hb
  · exact hall x hx

private theorem mem_values_foldl_erase (headers : List P2BlockHeader)
    (cache : KeyedMap P2Block.hash)
    (h : b ∈ (headers.foldl (fun cache header => cache.erase header.hash) cache).values) :
    b ∈ cache.values := by
  induction headers generalizing cache with
  | nil => exact h
  | cons header rest ih => exact (KeyedMap.mem_values_erase.mp (ih _ h)).1

theorem AllStored.removeLevel (hall : c.AllStored Q) : (c.removeLevel height).AllStored Q := by
  rw [P2Chain.removeLevel]
  cases c.levelAtHeight height with
  | none => exact hall
  | some level =>
    intro b hb
    exact hall b (mem_values_foldl_erase _ _ hb)

theorem AllStored.keptByWrites : KeptByWrites (AllStored Q) where
  same hsame _ hall := hall.of_cache hsame.cache
  removed _ hall := hall.removeLevel
  checked hb _ hw hall := by
    have hQ := hall.of_find? hb
    refine hall.of_insert ?_ hw.cache
    exact hQ

/-! ### Adding and submitting blocks -/

theorem AllStored.addBlockToChain (hall : c.AllStored Q) (hb : Q b.withoutStatus) :
    (P2Chain.addBlockToChain core ord b c).state.AllStored Q :=
  AllStored.keptByWrites.addBlockToChain (fun _ hw => hall.of_insert hb hw.cache) hall

variable {s : InMemoryShareChain} {now : EpochTime} {b' : P2Block} {syncing : Bool}

theorem withoutStatus_of_validateBlock (h : s.validateBlock core now c b = .ok b') :
    b'.withoutStatus = b.withoutStatus := by
  rw [InMemoryShareChain.validateBlock] at h
  split at h
  · cases h
  · split_ifs at h
    split at h
    · cases h
    · split_ifs at h
      split at h
      · cases h
        rfl
      · split_ifs at h
        cases h
        rfl

theorem powAlgo_of_validateClaimedDifficulty {d : Difficulty}
    (h : s.validateClaimedDifficulty core b = .ok d) : b.originalHeader.powAlgo = s.powAlgo := by
  rw [InMemoryShareChain.validateClaimedDifficulty] at h
  split_ifs at h with halgo
  exact not_not.mp halgo

/-- Only a block that passes the validation and is mined with the algorithm of the chain is
stored. -/
theorem AllStored.submitBlockWithLock_of_algo (hall : c.AllStored Q)
    (hb : ∀ b', s.validateBlock core now c b = .ok b' → b.originalHeader.powAlgo = s.powAlgo →
      Q b.withoutStatus) :
    (s.submitBlockWithLock core ord now b syncing c).state.AllStored Q := by
  refine EStateM.inv_ofExcept_bind hall fun already _ => ?_
  split_ifs
  · exact hall
  · exact hall
  · cases hvalid : s.validateBlock core now c b with
    | error e => exact hall
    | ok b' =>
      have hsame := withoutStatus_of_validateBlock hvalid
      cases hclaimed : s.validateClaimedDifficulty core b' with
      | error e =>
        simp only [hclaimed]
        exact hall
      | ok d =>
        have halgo : b.originalHeader.powAlgo = s.powAlgo :=
          (congrArg (fun x : P2Block => x.originalHeader.powAlgo) hsame).symm.trans
            (powAlgo_of_validateClaimedDifficulty hclaimed)
        have hQ : Q b'.withoutStatus := by
          rw [hsame]
          exact hb b' hvalid halgo
        simp only [hclaimed]
        exact hall.addBlockToChain hQ

theorem AllStored.submitBlockWithLock (hall : c.AllStored Q)
    (hb : ∀ b', s.validateBlock core now c b = .ok b' → Q b.withoutStatus) :
    (s.submitBlockWithLock core ord now b syncing c).state.AllStored Q :=
  hall.submitBlockWithLock_of_algo fun b' hvalid _ => hb b' hvalid

/-- What is known of a block that a share chain takes: its version, its squad and its algorithm. -/
def OfChain (s : InMemoryShareChain) (b : P2Block) : Prop :=
  b.version = protocolVersion ∧ b.squad = s.squad ∧ b.originalHeader.powAlgo = s.powAlgo

theorem AllStored.submitBlock_of_chain (hall : c.AllStored Q)
    (hb : OfChain s b → Q b.withoutStatus) :
    (s.submitBlock core ord now b c).state.AllStored Q := by
  rw [InMemoryShareChain.submitBlock]
  split_ifs with hversion hsquad
  · exact hall
  · exact hall
  · exact hall.submitBlockWithLock_of_algo fun _ _ halgo =>
      hb ⟨not_not.mp hversion, not_not.mp hsquad, halgo⟩

theorem AllStored.submitBlock (hall : c.AllStored Q)
    (hb : ∀ b', s.validateBlock core now c b = .ok b' → Q b.withoutStatus) :
    (s.submitBlock core ord now b c).state.AllStored Q := by
  rw [InMemoryShareChain.submitBlock]
  split_ifs
  · exact hall
  · exact hall
  · exact hall.submitBlockWithLock hb

private theorem addSyncedLoop_inv {I : P2Chain → Prop} {ords : Nat → IterOrder}
    {known : List FixedHash} {i : Nat} {blocks : List P2Block} {result : ChainAddResult} (h : I c)
    (hblocks : ∀ b ∈ blocks, b.version = protocolVersion → b.squad = s.squad → ∀ c ord, I c →
      I (s.submitBlockWithLock core ord now b true c).state) :
    I (s.addSyncedLoop core ords now known i blocks result c).state := by
  induction blocks generalizing c i result with
  | nil => exact h
  | cons b rest ih =>
    have hrest := fun x hx => hblocks x (List.mem_cons_of_mem b hx)
    rw [InMemoryShareChain.addSyncedLoop]
    split_ifs with hversion hsquad
    · exact h
    · exact h
    · have hb := hblocks b List.mem_cons_self (not_not.mp hversion) (not_not.mp hsquad) c (ords i) h
      refine EStateM.inv_bind hb fun tipChange c' _ h' => ?_
      simp only
      split_ifs
      · exact h'
      · exact ih h' hrest

theorem AllStored.addSyncedLoop {ords : Nat → IterOrder} {known : List FixedHash} {i : Nat}
    {blocks : List P2Block} {result : ChainAddResult} (hall : c.AllStored Q)
    (hblocks : ∀ b ∈ blocks, ∀ c b', s.validateBlock core now c b = .ok b' → Q b.withoutStatus) :
    (s.addSyncedLoop core ords now known i blocks result c).state.AllStored Q :=
  addSyncedLoop_inv hall fun b hb _ _ c _ hall => hall.submitBlockWithLock (hblocks b hb c)

theorem AllStored.addSyncedBlocks_of_chain {ords : Nat → IterOrder} {blocks : List P2Block}
    (hall : c.AllStored Q) (hblocks : ∀ b ∈ blocks, OfChain s b → Q b.withoutStatus) :
    (s.addSyncedBlocks core ords now blocks c).state.AllStored Q := by
  refine addSyncedLoop_inv hall fun b hb hversion hsquad c ord hall => ?_
  have hmem := (List.mem_insertionSort _).mp hb
  exact hall.submitBlockWithLock_of_algo fun _ _ halgo => hblocks b hmem ⟨hversion, hsquad, halgo⟩

theorem AllStored.addSyncedBlocks {ords : Nat → IterOrder} {blocks : List P2Block}
    (hall : c.AllStored Q)
    (hblocks : ∀ b ∈ blocks, ∀ c b', s.validateBlock core now c b = .ok b' → Q b.withoutStatus) :
    (s.addSyncedBlocks core ords now blocks c).state.AllStored Q :=
  hall.addSyncedLoop fun b hb => hblocks b ((List.mem_insertionSort _).mp hb)

theorem AllStored.generateShares {template : P2Block} {soloMine : Bool} (hall : c.AllStored Q) :
    (s.generateSharesAndGetTargetDifficulty core ord template soloMine c).state.AllStored Q := by
  obtain ⟨cached, heq⟩ := generate_state core s ord template soloMine c
  rw [heq]
  exact hall.withCachedShares cached

end P2Chain

end ShaP2Pool
