import ShaP2Pool.Sharechain.VerifyChain

/-!
# Loading a stored chain

`all_blocks` of `lmdb_block_storage.rs` and `try_load` of `p2chain.rs`. On a restart the blocks of
the old block cache are added to an empty chain with a fresh cache, in order of height. The date
before which blocks are too old is computed from the clock and is an argument, as are the orders in
which the calls iterate hash maps.
-/

namespace ShaP2Pool

namespace P2Chain

/-- The store is iterated by key, and the blocks are then sorted by height. -/
def allBlocks (blockCache : KeyedMap P2Block.hash) : List P2Block :=
  (blockCache.values.insertionSort fun a b => a.hash ≤ b.hash).insertionSort fun a b =>
    a.height ≤ b.height

/-- The loop of `try_load`: some blocks are skipped, and the error of a block is logged. -/
def loadBlocks (core : TariCore) (ord : Nat → IterOrder) (squad : String)
    (earliestDate : EpochTime) : Nat → List P2Block → ChainM Unit
  | _, [] => pure ()
  | i, block :: rest =>
    if block.version ≠ protocolVersion then loadBlocks core ord squad earliestDate (i + 1) rest
    else if block.squad ≠ squad then loadBlocks core ord squad earliestDate (i + 1) rest
    else if !block.verified.targetDifficulty then
      loadBlocks core ord squad earliestDate (i + 1) rest
    else if block.timestamp < earliestDate then
      loadBlocks core ord squad earliestDate (i + 1) rest
    else fun c =>
      match addBlockToChain core (ord i) block c with
      | .ok _ c => loadBlocks core ord squad earliestDate (i + 1) rest c
      | .error (.error _) c => loadBlocks core ord squad earliestDate (i + 1) rest c
      | .error (.panic p) c => .error (.panic p) c

/-- The chain that is loaded from a block cache. -/
def tryLoad (core : TariCore) (config : ChainConfig) (ord : Nat → IterOrder) (squad : String)
    (earliestDate : EpochTime) (fromBlockCache : KeyedMap P2Block.hash) :
    EStateM.Result Fault P2Chain Unit :=
  loadBlocks core ord squad earliestDate 0 (allBlocks fromBlockCache) (newEmpty config)

end P2Chain

end ShaP2Pool
