import ShaP2Pool.Sharechain.P2ChainLevel
import Mathlib.Data.List.Sort

/-!
# The chain and its checks

The state of `p2chain.rs` and the functions that only read it: lookups, the share window, and the
five checks of a block.
-/

namespace ShaP2Pool

structure MinerShare where
  miner : TariAddress
  shareCount : Nat
  coinbaseExtra : List Nat
  deriving DecidableEq, Repr

abbrev MinerShares := KeyedMap (fun share : MinerShare => share.miner.publicSpendKey)

structure CachedShares where
  atHash : FixedHash
  shares : MinerShares

/-- The fields of the source's `P2Chain` that are set once and for all. -/
structure ChainConfig where
  algo : PowAlgorithm := .sha3x
  blockTime : Nat
  totalSize : Nat
  shareWindow : Nat
  minimumRandomxTargetDifficulty : Difficulty
  minimumSha3TargetDifficulty : Difficulty
  bypassChecks : VerifiedStatus
  /-- whether there are `BlockValidationParams` -/
  params : Bool := false
  deriving DecidableEq, Repr

structure P2Chain where
  config : ChainConfig
  blockCache : KeyedMap P2Block.hash
  cachedShares : Option CachedShares
  levels : KeyedMap P2ChainLevel.height
  currentTip : Nat
  lwma : LinearWeightedMovingAverage

namespace P2Chain

def newEmpty (config : ChainConfig) : P2Chain where
  config := config
  blockCache := KeyedMap.empty
  cachedShares := none
  levels := KeyedMap.empty
  currentTip := 0
  lwma := Window.empty

/-! ### Lookups -/

def levelAtHeight (c : P2Chain) (height : Nat) : Option P2ChainLevel := c.levels.find? height

/-- The block cache is asked for the hash alone, once the level is known to exist. -/
def getBlockAtHeight (c : P2Chain) (height : Nat) (hash : FixedHash) : Option P2Block :=
  (c.levelAtHeight height).bind fun _ => c.blockCache.find? hash

def getBlockHeaderAtHeight (c : P2Chain) (height : Nat) (hash : FixedHash) :
    Option P2BlockHeader :=
  (c.levelAtHeight height).bind fun level => level.getHeader hash

def blockExists (c : P2Chain) (height : Nat) (hash : FixedHash) : Bool :=
  (c.levelAtHeight height).any fun level => level.contains hash

def getParentOf (c : P2Chain) (height : Nat) (hash : FixedHash) : Option FixedHash :=
  (c.levelAtHeight height).bind fun level => level.getPrevHash hash

/-- The source unwraps the level; its only caller has just found the block there. -/
def getUncles (c : P2Chain) (height : Nat) (hash : FixedHash) : List (Nat × FixedHash) :=
  ((c.levelAtHeight height).map fun level => level.getUncles hash).getD []

/-- The parent is looked up by hash in the block cache if there is a level below. -/
def getParentBlock (c : P2Chain) (block : P2Block) : Option P2Block :=
  if block.height = 0 then none else c.getBlockAtHeight (block.height - 1) block.prevHash

def getTip (c : P2Chain) : Option P2ChainLevel :=
  (c.levelAtHeight c.currentTip).filter fun level => level.chainBlock ≠ FixedHash.zero

def getHeight (c : P2Chain) : Nat := (c.getTip.map (·.height)).getD 0

def totalAccumulatedTipDifficulty (c : P2Chain) : AccumulatedDifficulty :=
  match c.getTip with
  | some tip => (tip.blockHeaderInMainChain.map (·.totalPow)).getD AccumulatedDifficulty.min
  | none => AccumulatedDifficulty.min

def isVerified (c : P2Chain) (hash : FixedHash) (height : Nat) : Except Fault Bool :=
  match c.levelAtHeight height with
  | none => .error (.error .blockLevelNotFound)
  | some level => .ok (level.isVerified hash)

/-! ### Target difficulty -/

def minimumTargetDifficulty (config : ChainConfig) : PowAlgorithm → Difficulty
  | .randomX => config.minimumRandomxTargetDifficulty
  | .sha3x => config.minimumSha3TargetDifficulty

def getLwmaDifficultyForBlock (core : TariCore) (c : P2Chain) (lwma : LinearWeightedMovingAverage)
    (block : P2Block) : Difficulty :=
  let min := minimumTargetDifficulty c.config block.originalHeader.powAlgo
  match core.lwmaDifficulty c.config.blockTime lwma.items with
  | some val => if val < min then min else val
  | none => min

/-- Walk back from `current` until the window is full or a block of height 0 has been added. Each
step adds a sample, so the window's capacity bounds the number of steps. -/
def lwmaFromHeaders (c : P2Chain) :
    Nat → P2BlockHeader → LinearWeightedMovingAverage → Option LinearWeightedMovingAverage
  | 0, _, lwma => some lwma
  | steps + 1, current, lwma =>
    if lwma.isFull then some lwma
    else
      match c.getBlockHeaderAtHeight (current.height - 1) current.prevHash with
      | none => none
      | some next =>
        let lwma := lwma.pushFront (next.timestamp, next.targetDifficulty)
        if next.height = 0 then some lwma else lwmaFromHeaders c steps next lwma

def getTargetDifficultyForBlock (core : TariCore) (c : P2Chain) (block : P2Block) :
    Option Difficulty :=
  let tipHeaderHash :=
    ((c.getTip.bind (·.blockHeaderInMainChain)).map (·.hash)).getD FixedHash.zero
  if block.prevHash = tipHeaderHash then some (c.getLwmaDifficultyForBlock core c.lwma block)
  else
    match c.getBlockHeaderAtHeight (block.height - 1) block.prevHash with
    | none => none
    | some current =>
      let lwma := Window.empty.pushFront (current.timestamp, current.targetDifficulty)
      match c.lwmaFromHeaders (difficultyAdjustmentWindow + 1) current lwma with
      | none => none
      | some lwma => some (c.getLwmaDifficultyForBlock core lwma block)

/-! ### Median timestamp -/

/-- The timestamps of `current`'s ancestors, newest first, until `steps` of them have been taken or
a block of height 0 has been reached. -/
def ancestorTimestamps (c : P2Chain) : Nat → P2BlockHeader → Except ShareChainError (List EpochTime)
  | 0, _ => .ok []
  | steps + 1, current =>
    if current.height = 0 then .ok []
    else
      match c.levelAtHeight (current.height - 1) with
      | none => .error .blockLevelNotFound
      | some level =>
        match level.getHeader current.prevHash with
        | none => .error .blockNotFound
        | some parent =>
          match c.ancestorTimestamps steps parent with
          | .error e => .error e
          | .ok timestamps => .ok (parent.timestamp :: timestamps)

def medianOf (timestamps : List EpochTime) : EpochTime :=
  let sorted := timestamps.insertionSort (· ≤ ·)
  let midIndex := sorted.length / 2
  if sorted.length % 2 = 0 then
    (sorted.getD (midIndex - 1) 0 + sorted.getD midIndex 0) / 2
  else
    sorted.getD midIndex 0

def calculateMedianTimestampForBlock (c : P2Chain) (blockHeight : Nat) (blockPrevHash : FixedHash) :
    Except ShareChainError EpochTime :=
  match c.levelAtHeight (blockHeight - 1) with
  | none => .error .blockLevelNotFound
  | some level =>
    match level.getHeader blockPrevHash with
    | none => .error .blockNotFound
    | some current =>
      match c.ancestorTimestamps (medianTimestampWindow - 1) current with
      | .error e => .error e
      | .ok timestamps => .ok (medianOf (current.timestamp :: timestamps))

/-! ### Shares -/

def updateInsert (minerShares : MinerShares) (miner : TariAddress) (newShare : Nat)
    (coinbaseExtra : List Nat) : MinerShares :=
  match minerShares.find? miner.publicSpendKey with
  | some share =>
    minerShares.insert
      { share with shareCount := share.shareCount + newShare, coinbaseExtra := coinbaseExtra }
  | none =>
    minerShares.insert { miner := miner, shareCount := newShare, coinbaseExtra := coinbaseExtra }

def countUncles (c : P2Chain) :
    List (Nat × FixedHash) → MinerShares → Except ShareChainError MinerShares
  | [], shares => .ok shares
  | (height, hash) :: rest, shares =>
    match c.getBlockHeaderAtHeight height hash with
    | none => .error .uncleBlockNotFound
    | some uncle =>
      c.countUncles rest
        (updateInsert shares uncle.walletAddress uncleRewardShare uncle.coinbaseExtra)

def countBlock (c : P2Chain) (block : P2BlockHeader) (shares : MinerShares) :
    Except ShareChainError MinerShares :=
  c.countUncles block.uncles
    (updateInsert shares block.walletAddress mainRewardShare block.coinbaseExtra)

/-- Count the next `steps` ancestors of `current`, or those down to height 0. -/
def countAncestors (c : P2Chain) :
    Nat → P2BlockHeader → MinerShares → Except ShareChainError MinerShares
  | 0, _, shares => .ok shares
  | steps + 1, current, shares =>
    match c.getBlockHeaderAtHeight (current.height - 1) current.prevHash with
    | none => .error .blockNotFound
    | some parent =>
      match c.countBlock parent shares with
      | .error e => .error e
      | .ok shares =>
        if parent.height = 0 then .ok shares else c.countAncestors steps parent shares

/-- The walk goes on while the block's height is above the stop height; it descends one height at a
time, so the difference of the two is the number of steps. -/
def getCalculateAndCacheHashmapOfShares (c : P2Chain) (calculatingHeight : Nat)
    (blockHash : FixedHash) : Except Fault MinerShares :=
  match c.levelAtHeight calculatingHeight with
  | none =>
    if calculatingHeight = 0 then .ok KeyedMap.empty
    else .error (.error .blockLevelNotFound)
  | some startLevel =>
    if c.config.shareWindow < 2 then .error (.panic .overflow)
    else
      let stopHeight := startLevel.height - (c.config.shareWindow - 2)
      match startLevel.getHeader blockHash with
      | none => .error (.error .blockNotFound)
      | some block =>
        match c.countBlock block KeyedMap.empty with
        | .error e => .error (.error e)
        | .ok shares =>
          match c.countAncestors (block.height - stopHeight) block shares with
          | .error e => .error (.error e)
          | .ok shares => .ok shares

/-- Put the shares of a new block's uncles into the map, replacing what their miners had. -/
def insertUncleShares (c : P2Chain) : List (Nat × FixedHash) → MinerShares → Option MinerShares
  | [], shares => some shares
  | (height, hash) :: rest, shares =>
    match c.getBlockAtHeight height hash with
    | none => none
    | some uncle =>
      c.insertUncleShares rest
        (shares.insert
          { miner := uncle.minerWalletAddress
            shareCount := uncleRewardShare
            coinbaseExtra := uncle.minerCoinbaseExtra })

/-- Put the share of a new block's miner into the map, replacing what the miner had. -/
def insertOwnShare (block : P2Block) (shares : MinerShares) : MinerShares :=
  shares.insert
    { miner := block.minerWalletAddress
      shareCount := mainRewardShare
      coinbaseExtra := block.minerCoinbaseExtra }

/-- One pass over the outputs, with the running sum of shares and of paid values. -/
def checkCoinbases (shares : MinerShares) (totalShares blockReward : Nat) :
    List TransactionOutput → Nat → Nat → Except ValidationError Unit
  | [], _, _ => .ok ()
  | output :: rest, curShareSum, prevCoinbaseValue =>
    match output.script.head? with
    | some (.pushPubKey spendKey) =>
      match shares.find? spendKey with
      | none => .error .invalidCoinbase
      | some share =>
        let curShareSum := curShareSum + share.shareCount
        let exact := Nat.min (curShareSum * blockReward) u128Max / totalShares - prevCoinbaseValue
        let value := if exact ≤ u64Max then exact else 0
        let outputValue := output.minimumValuePromise
        if value ≤ outputValue - 10 ∨ value ≥ saturatingAdd outputValue 10 then
          .error .invalidCoinbase
        else if share.coinbaseExtra ≠ output.coinbaseExtra then .error .invalidCoinbase
        else checkCoinbases shares totalShares blockReward rest curShareSum
          (prevCoinbaseValue + value)
    | _ => .error .invalidCoinbase

/-- The shares a block on top of `block.prevHash` starts from: the cached ones if they are those of
its parent, else counted anew. -/
def sharesBefore (c : P2Chain) (block : P2Block) : Except Fault MinerShares :=
  match c.cachedShares with
  | some cached =>
    if block.prevHash = cached.atHash then .ok cached.shares
    else c.getCalculateAndCacheHashmapOfShares (block.height - 1) block.prevHash
  | none => c.getCalculateAndCacheHashmapOfShares (block.height - 1) block.prevHash

/-! ### The five checks -/

/-- Add the work of a block's uncles; `none` when one of them is absent or not yet checked. -/
def addUncleWork (c : P2Chain) :
    List (Nat × FixedHash) → AccumulatedDifficulty → Except Fault (Option AccumulatedDifficulty)
  | [], total => .ok (some total)
  | (height, hash) :: rest, total =>
    match c.getBlockAtHeight height hash with
    | none => .ok none
    | some uncle =>
      if !uncle.verified.targetDifficulty || !uncle.verified.difficulty then .ok none
      else
        match checkedAddDifficulty total uncle.targetDifficulty with
        | none => .error (.error .difficultyOverflow)
        | some total => c.addUncleWork rest total

def compareWork (block : P2Block) (totalWork : AccumulatedDifficulty) : Except Fault Bool :=
  if block.totalPow = totalWork then .ok true
  else .error (.error (.validationError .difficultyTarget))

def verifyPowAndParents (c : P2Chain) (block : P2Block) : Except Fault Bool :=
  if block.verified.parents || c.config.bypassChecks.parents then .ok true
  else if block.targetDifficulty < 1 then .error (.panic .unwrapNone)
  else
    match c.addUncleWork block.uncles block.targetDifficulty with
    | .error fault => .error fault
    | .ok none => .ok false
    | .ok (some totalWork) =>
      -- special edge case for start, there is no parent
      if block.height = 0 then compareWork block totalWork
      else
        match c.getBlockAtHeight (block.height - 1) block.prevHash with
        | none => .ok false
        | some parent =>
          if totalWork + parent.totalPow ≤ u128Max then
            compareWork block (totalWork + parent.totalPow)
          else .error (.panic .overflow)

/-- The achieved difficulty of a header; RandomX needs the validation parameters. -/
def achievedDifficulty (core : TariCore) (params : Bool) (header : BlockHeader) :
    Except ValidationError Difficulty :=
  match header.powAlgo with
  | .randomX =>
    if params then
      match core.randomxDifficulty header with
      | .ok difficulty => .ok difficulty
      | .error reason => .error (.randomXDifficulty reason)
    else .error .missingBlockValidationParams
  | .sha3x =>
    match core.sha3xDifficulty header with
    | .ok difficulty => .ok difficulty
    | .error reason => .error (.difficulty reason)

def verifyDifficulty (core : TariCore) (c : P2Chain) (block : P2Block) : Except Fault Bool :=
  if block.verified.difficulty || c.config.bypassChecks.difficulty then .ok true
  else
    match achievedDifficulty core c.config.params block.originalHeader with
    | .error e => .error (.error (.validationError e))
    | .ok difficulty => .ok (!decide (difficulty < block.targetDifficulty))

def verifyTargetDifficulty (core : TariCore) (c : P2Chain) (block : P2Block) : Bool :=
  if block.verified.targetDifficulty || c.config.bypassChecks.targetDifficulty then true
  else
    match c.getTargetDifficultyForBlock core block with
    | some difficulty => difficulty = block.targetDifficulty
    | none => false

def verifyMedianTimestampForBlock (c : P2Chain) (block : P2Block) : Except Fault Bool :=
  if block.verified.medianTimestamp || c.config.bypassChecks.medianTimestamp ||
      block.height = 0 then .ok true
  else
    match c.calculateMedianTimestampForBlock block.height block.prevHash with
    | .error _ => .ok false
    | .ok medianTimestamp =>
      if medianTimestamp < block.timestamp then .ok true
      else .error (.error (.validationError .medianTimestamp))

def verifySharesForBlock (c : P2Chain) (block : P2Block) : Except Fault Bool :=
  if block.verified.correctShares || c.config.bypassChecks.correctShares || block.height = 0 then
    .ok true
  else
    match c.sharesBefore block with
    | .error (.panic p) => .error (.panic p)
    | .error (.error _) => .ok false
    | .ok before =>
      match c.insertUncleShares block.uncles (insertOwnShare block before) with
      | none => .ok false
      | some shares =>
        let blockReward := (block.coinbases.map (·.minimumValuePromise)).sum
        let totalShares := (shares.values.map (·.shareCount)).sum
        if block.coinbases.isEmpty then .error (.error (.validationError .invalidCoinbase))
        else
          match checkCoinbases shares totalShares blockReward block.coinbases 0 0 with
          | .error e => .error (.error (.validationError e))
          | .ok () => .ok true

/-- The flags of a block after the five checks of `verify_block`, in the source's order. -/
def runChecks (core : TariCore) (c : P2Chain) (block : P2Block) : Except Fault VerifiedStatus := do
  let parents ← c.verifyPowAndParents block
  let difficulty ← c.verifyDifficulty core block
  let targetDifficulty := c.verifyTargetDifficulty core block
  let medianTimestamp ← c.verifyMedianTimestampForBlock block
  let correctShares ← c.verifySharesForBlock block
  return {
    parents := block.verified.parents || parents
    targetDifficulty := block.verified.targetDifficulty || targetDifficulty
    difficulty := block.verified.difficulty || difficulty
    correctShares := block.verified.correctShares || correctShares
    medianTimestamp := block.verified.medianTimestamp || medianTimestamp }

end P2Chain

end ShaP2Pool
