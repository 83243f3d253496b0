import ShaP2Pool.Sharechain.InMemory

/-!
# Serving blocks

The part of `in_memory.rs` that answers catch-up requests of peers: `all_blocks_with_lock`, which
goes up the levels from a start height, and `request_sync`, which derives the start height from what
the peer says it has. Also what goes into this node's own requests.
-/

namespace ShaP2Pool

namespace P2Chain

/-- The level `total_size` below the tip, if it exists. -/
def lowestChainLevelHeight (c : P2Chain) : Option Nat :=
  let minSize := c.currentTip - c.config.totalSize
  if (c.levelAtHeight minSize).isSome then some minSize else none

/-- `P2ChainLevel::get_block_in_main_chain` -/
def getBlockInMainChain (c : P2Chain) (level : P2ChainLevel) : Option P2Block :=
  c.blockCache.find? level.chainBlock

def storedUncles (c : P2Chain) (block : P2Block) : List P2Block :=
  block.uncles.filterMap fun uncle => c.getBlockAtHeight uncle.1 uncle.2

/-- What one level adds to a page, and how much of it counts for the page's size. -/
def levelBlocks (c : P2Chain) (ord : IterOrder) (mainChainOnly : Bool) (level : P2ChainLevel) :
    List P2Block × Nat :=
  if mainChainOnly then
    match c.getBlockInMainChain level with
    | some block => (c.storedUncles block ++ [block], 1)
    | none => ([], 0)
  else
    let blocks := InMemoryShareChain.allBlocks ord level.height c level
    (blocks, blocks.length)

/-- Go up the levels until one is missing or the page is full. Every round takes another level, so
the number of levels bounds the rounds. -/
def pageLoop (c : P2Chain) (ord : IterOrder) (pageSize : Nat) (mainChainOnly : Bool) :
    Nat → P2ChainLevel → Nat → List P2Block → Except Fault (List P2Block)
  | 0, _, _, _ => .error (.panic .outOfFuel)
  | rounds + 1, level, numActualBlocks, res =>
    let (blocks, counted) := c.levelBlocks ord mainChainOnly level
    if pageSize < numActualBlocks + counted then .ok (res ++ blocks)
    else if u64Max < level.height + 1 then .error (.panic .overflow)
    else
      match c.levelAtHeight (level.height + 1) with
      | some newLevel =>
        c.pageLoop ord pageSize mainChainOnly rounds newLevel (numActualBlocks + counted)
          (res ++ blocks)
      | none => .ok (res ++ blocks)

def pageStart (c : P2Chain) (startHeight : Option Nat) : Nat :=
  let lowestHeight := c.lowestChainLevelHeight.getD 0
  if startHeight.getD 0 < lowestHeight then lowestHeight else startHeight.getD 0

def allBlocksWithLock (c : P2Chain) (ord : IterOrder) (startHeight : Option Nat) (pageSize : Nat)
    (mainChainOnly : Bool) : Except Fault (List P2Block) :=
  match c.levelAtHeight (c.pageStart startHeight) with
  | none => .ok []
  | some level => c.pageLoop ord pageSize mainChainOnly (c.levels.size + 1) level 0 []

/-- The height after the last block that a peer has received, if that block is stored. -/
def splitAfterLast (c : P2Chain) (lastBlockReceived : Option (Nat × FixedHash)) : Nat :=
  match lastBlockReceived.bind fun last => c.getBlockAtHeight last.1 last.2 with
  | some block => saturatingAdd block.height 1
  | none => 0

/-- The first of a peer's blocks, from the highest to the lowest, that is on the main chain. -/
def splitBlock (c : P2Chain) (theirBlocks : List (Nat × FixedHash)) : Option (Nat × FixedHash) :=
  (theirBlocks.insertionSort fun a b => b.1 ≤ a.1).find? fun theirBlock =>
    (c.levelAtHeight theirBlock.1).any fun level => level.chainBlock = theirBlock.2

/-- The height after the split of the two chains. -/
def splitOf (c : P2Chain) (theirBlocks : List (Nat × FixedHash)) : Nat :=
  ((c.splitBlock theirBlocks).map fun theirBlock => saturatingAdd theirBlock.1 1).getD 0

/-- The blocks for a peer, the main chain's block at the tip, and the work of the chain. -/
def requestSync (c : P2Chain) (ord : IterOrder) (theirBlocks : List (Nat × FixedHash)) (limit : Nat)
    (lastBlockReceived : Option (Nat × FixedHash)) :
    Except Fault (List P2Block × Option (Nat × FixedHash) × AccumulatedDifficulty) :=
  match c.allBlocksWithLock ord
      (some (Nat.max (c.splitAfterLast lastBlockReceived) (c.splitOf theirBlocks))) limit true with
  | .error fault => .error fault
  | .ok blocks => .ok (blocks, c.getTip.map fun tipLevel => (tipLevel.height, tipLevel.chainBlock),
      c.totalAccumulatedTipDifficulty)

/-- The stored blocks of a request. A hash that is not stored is answered with the main chain's
block of the height it was asked for at. -/
def getBlocks (c : P2Chain) (requestedBlocks : List (Nat × FixedHash)) : List P2Block :=
  requestedBlocks.filterMap fun block =>
    (c.levelAtHeight block.1).bind fun level =>
      (c.blockCache.find? block.2).or (c.getBlockInMainChain level)

/-! ### Asking for blocks -/

/-- The main chain from a height down, at most `size` blocks. -/
def mainChainDown (c : P2Chain) : Nat → Nat → List (Nat × FixedHash)
  | 0, _ => []
  | size + 1, height =>
    match (c.levelAtHeight height).bind (·.blockHeaderInMainChain) with
    | none => []
    | some block =>
      (height, block.hash) :: if height = 0 then [] else c.mainChainDown size (block.height - 1)

/-- How far back the older blocks of a catch-up request lie: halved while above 100. -/
def countsBack : List Nat := [4196, 2098, 1049, 524, 262, 131]

/-- The blocks of the main chain that lie these distances below the tip. -/
def olderBlocks (c : P2Chain) (tipHeight : Nat) : List (Nat × FixedHash) :=
  countsBack.filterMap fun countBack =>
    if countBack ≤ tipHeight then
      ((c.levelAtHeight (tipHeight - countBack)).bind (·.blockHeaderInMainChain)).map fun block =>
        (tipHeight - countBack, block.hash)
    else none

/-- What a catch-up request says this node has: the end of the main chain, with the last entries
replaced by older blocks if the request is full. -/
def createCatchupSyncBlocks (c : P2Chain) (size : Nat) : List (Nat × FixedHash) :=
  match c.getTip with
  | none => []
  | some tip =>
    let iHaveBlocks := c.mainChainDown size tip.height
    if iHaveBlocks.length < size then iHaveBlocks
    else
      (c.olderBlocks tip.height).zipIdx.foldl
        (fun blocks older => blocks.set (blocks.length - older.2 - 1) older.1) iHaveBlocks

def doBlocksExist (c : P2Chain) (requested : List (Nat × FixedHash)) : List (Nat × FixedHash) :=
  requested.filter fun block => (c.levelAtHeight block.1).any (·.contains block.2)

end P2Chain

end ShaP2Pool
