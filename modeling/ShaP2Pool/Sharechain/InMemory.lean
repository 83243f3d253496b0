import ShaP2Pool.Sharechain.VerifyChain

/-!
# The share chain service

`in_memory.rs`: validation and submission of blocks that come from miners and peers, mining
templates and payout lists. The chain behind the service's lock is the state of each call; the
current time and the orders in which hash maps are iterated are arguments.
-/

namespace ShaP2Pool

open P2Chain

/-- The fields of `InMemoryShareChain` besides the chain itself. -/
structure InMemoryShareChain where
  powAlgo : PowAlgorithm
  /-- whether there are `BlockValidationParams` -/
  blockValidationParams : Bool
  /-- `config.share_window` -/
  shareWindow : Nat
  blockTime : Nat
  squad : String
  minimumRandomxTargetDifficulty : Difficulty
  minimumSha3TargetDifficulty : Difficulty
  bypassChecks : VerifiedStatus

/-- The checks that the server tells its share chains to skip: all but `PARENTS`. -/
def serverBypass : VerifiedStatus where
  correctShares := true
  medianTimestamp := true
  difficulty := true
  targetDifficulty := true

structure NewBlockCoinbase where
  address : TariAddress
  value : Nat
  coinbaseExtra : List Nat
  deriving DecidableEq, Repr

namespace InMemoryShareChain

/-- The configuration of the chain that `InMemoryShareChain::new` creates. -/
def chainConfig (s : InMemoryShareChain) : ChainConfig where
  algo := s.powAlgo
  blockTime := s.blockTime
  totalSize := s.shareWindow * 2
  shareWindow := s.shareWindow
  minimumRandomxTargetDifficulty := s.minimumRandomxTargetDifficulty
  minimumSha3TargetDifficulty := s.minimumSha3TargetDifficulty
  bypassChecks := s.bypassChecks
  params := s.blockValidationParams

/-! ### Submitting blocks -/

def validateClaimedDifficulty (core : TariCore) (s : InMemoryShareChain) (block : P2Block) :
    Except ValidationError Difficulty :=
  if block.originalHeader.powAlgo ≠ s.powAlgo then .error .invalidPowAlgorithm
  else
    match achievedDifficulty core s.blockValidationParams block.originalHeader with
    | .error e => .error e
    | .ok difficulty =>
      if difficulty < block.targetDifficulty && !s.bypassChecks.difficulty then
        .error .difficultyTarget
      else .ok difficulty

def validateUncleAges (height : Nat) : List (Nat × FixedHash) → Except ValidationError Unit
  | [] => .ok ()
  | uncle :: rest =>
    if uncle.1 < height - maxUncleAge then .error .uncleTooOld
    else if height ≤ uncle.1 then .error .unclesOnSameHeightOrHigher
    else validateUncleAges height rest

/-- The number of uncles, the height from which they are allowed, and their ages. -/
def validateUncles (block : P2Block) : Except ValidationError Unit :=
  if uncleLimit < block.uncles.length then .error .tooManyUncles
  else if block.height < uncleStartHeight && !block.uncles.isEmpty then
    .error .unclesBeforeStartHeight
  else validateUncleAges block.height block.uncles

def maxTimestamp (now : EpochTime) : EpochTime :=
  if now + maxFutureBlockTime ≤ u64Max then now + maxFutureBlockTime else now

/-- The block on success has its target difficulty marked as checked if it could be computed. -/
def validateBlock (core : TariCore) (s : InMemoryShareChain) (now : EpochTime) (c : P2Chain)
    (block : P2Block) : Except ValidationError P2Block :=
  match validateUncles block with
  | .error e => .error e
  | .ok () =>
    if maxTimestamp now < block.timestamp then .error .futureTimestamp
    else
      match core.outputMerkleRoot
          (block.coinbases.map core.outputHash ++ [block.otherOutputHash]) with
      | none => .error .invalidOutputs
      | some outputHash =>
        if block.originalHeader.outputMr = outputHash then .error .outputMismatch
        else
          match c.getTargetDifficultyForBlock core block with
          | none => .ok block
          | some difficulty =>
            if difficulty ≠ block.targetDifficulty && !s.bypassChecks.targetDifficulty then
              .error .difficultyTarget
            else .ok { block with verified := { block.verified with targetDifficulty := true } }

/-- The block stored under the hash of a submitted block, if its level has the hash. The source
unwraps it. -/
def blockAlreadyAdded (c : P2Chain) (block : P2Block) : Except Fault (Option P2Block) :=
  match c.levelAtHeight block.height with
  | none => .ok none
  | some level =>
    if level.contains block.hash then
      match c.blockCache.find? block.hash with
      | none => .error (.panic .unwrapNone)
      | some inChain => .ok (some inChain)
    else .ok none

def olderThanShareWindow (s : InMemoryShareChain) (c : P2Chain) (block : P2Block) : Bool :=
  match c.getTip with
  | some tip => block.height < tip.height - s.shareWindow
  | none => false

def submitBlockWithLock (core : TariCore) (s : InMemoryShareChain) (ord : IterOrder)
    (now : EpochTime) (block : P2Block) (syncing : Bool) : ChainM ChainAddResult := do
  let c ← get
  let already ← EStateM.ofExcept (blockAlreadyAdded c block)
  if already.any (·.verified.isVerified) then return {}
  else if s.olderThanShareWindow c block && !syncing then
    throw (.error (.blockValidation "Block is older than share window"))
  else
    match s.validateBlock core now c block with
    | .error e => throw (.error (.validationError e))
    | .ok block =>
      match s.validateClaimedDifficulty core block with
      | .error e => throw (.error (.validationError e))
      | .ok _ =>
        addBlockToChain core ord { block with verified := { block.verified with difficulty := true } }

def submitBlock (core : TariCore) (s : InMemoryShareChain) (ord : IterOrder) (now : EpochTime)
    (block : P2Block) : ChainM ChainAddResult := do
  if block.version ≠ protocolVersion then
    throw (.error (.blockValidation "Block version not supported"))
  else if block.squad ≠ s.squad then
    throw (.error (.blockValidation "Block squad not supported"))
  else s.submitBlockWithLock core ord now block false

/-- Add what one block of a batch was missing to the report of the batch. The answer is whether the
report has overflowed. -/
def reportMissing (known : List FixedHash) (result : ChainAddResult) :
    List (FixedHash × Nat) → Bool × ChainAddResult
  | [] => (false, result)
  | missing :: rest =>
    if known.contains missing.1 then reportMissing known result rest
    else
      let result := result.addMissing missing.1 missing.2
      if maxMissingParents < result.missingBlocks.size then (true, result)
      else reportMissing known result rest

def laterTip (addResult tipChange : ChainAddResult) : Option (FixedHash × Nat) :=
  match addResult.newTip, tipChange.newTip with
  | some currentTip, some otherTip =>
    if currentTip.2 < otherTip.2 then some otherTip else some currentTip
  | none, some newTip => some newTip
  | current, none => current

/-- The blocks of a sorted batch, one after the other; the `i`-th call uses `ord i`. -/
def addSyncedLoop (core : TariCore) (s : InMemoryShareChain) (ord : Nat → IterOrder)
    (now : EpochTime) (known : List FixedHash) :
    Nat → List P2Block → ChainAddResult → ChainM ChainAddResult
  | _, [], addResult => pure addResult
  | i, block :: rest, addResult => do
    if block.version ≠ protocolVersion then
      throw (.error (.blockValidation "Block version is too low"))
    else if block.squad ≠ s.squad then
      throw (.error (.blockValidation "Block squad not supported"))
    else
      let tipChange ← s.submitBlockWithLock core (ord i) now block true
      let (full, addResult) := reportMissing known
        { addResult with newTip := laterTip addResult tipChange }
        ((ord i).run 0 tipChange.missingBlocks.values)
      if full then pure addResult else addSyncedLoop core s ord now known (i + 1) rest addResult

/-- A batch is added in order of height. -/
def addSyncedBlocks (core : TariCore) (s : InMemoryShareChain) (ord : Nat → IterOrder)
    (now : EpochTime) (blocks : List P2Block) : ChainM ChainAddResult :=
  let blocks := blocks.insertionSort (fun a b => a.height ≤ b.height)
  s.addSyncedLoop core ord now (blocks.map (·.hash)) 0 blocks {}

/-! ### Mining templates -/

def allBlocks (ord : IterOrder) (n : Nat) (c : P2Chain) (level : P2ChainLevel) : List P2Block :=
  (ord.run n level.blockHeaders.values).filterMap fun header => c.blockCache.find? header.hash

/-- The hashes excluded by the main chain at the given heights, and all blocks at these heights. -/
def gatherUncles (ord : IterOrder) (c : P2Chain) :
    List Nat → Except Fault (List FixedHash × List P2Block)
  | [] => .ok ([], [])
  | height :: heights =>
    match c.levelAtHeight height with
    | none => gatherUncles ord c heights
    | some olderLevel =>
      match olderLevel.blockHeaderInMainChain with
      | none => .error (.error .blockNotFound)
      | some chainBlock =>
        match gatherUncles ord c heights with
        | .error fault => .error fault
        | .ok (excluded, uncles) =>
          .ok (chainBlock.hash :: chainBlock.uncles.map (·.2) ++ excluded,
            allBlocks ord height c olderLevel ++ uncles)

def unlinkedUncles (c : P2Chain) : List P2Block → Except Fault (List FixedHash)
  | [] => .ok []
  | uncle :: rest =>
    match unlinkedUncles c rest with
    | .error fault => .error fault
    | .ok excluded =>
      if (c.levelAtHeight uncle.height).isNone then .ok (uncle.hash :: excluded)
      else
        match c.getParentBlock uncle with
        | none => .ok (uncle.hash :: excluded)
        | some parent =>
          match c.levelAtHeight parent.height with
          | none => .error (.error .blockLevelNotFound)
          | some level =>
            if level.chainBlock ≠ parent.hash then .ok (uncle.hash :: excluded) else .ok excluded

/-- The uncles of a new block at `newHeight`. -/
def selectUncles (ord : IterOrder) (c : P2Chain) (newHeight : Nat) :
    Except Fault (List P2Block) :=
  if uncleStartHeight ≤ newHeight then
    match gatherUncles ord c (List.range' (newHeight - maxUncleAge)
        (newHeight - (newHeight - maxUncleAge))) with
    | .error fault => .error fault
    | .ok (excluded, uncles) =>
      match unlinkedUncles c uncles with
      | .error fault => .error fault
      | .ok unlinked =>
        .ok ((uncles.filter fun uncle => !(excluded ++ unlinked).contains uncle.hash).take
          uncleLimit)
  else .ok []

/-- Move a timestamp past the median, in at most `steps` rounds. -/
def raiseTimestamp (medianTimestamp : EpochTime) : Nat → EpochTime → Except Fault EpochTime
  | 0, timestamp => .ok timestamp
  | steps + 1, timestamp =>
    if timestamp ≤ medianTimestamp then
      if medianTimestamp + 1 ≤ u64Max then
        raiseTimestamp medianTimestamp steps (medianTimestamp + 1)
      else .error (.panic .unwrapNone)
    else .ok timestamp

/-- The timestamp of a new block on top of `prevBlock`. -/
def templateTimestamp (c : P2Chain) (now : EpochTime) :
    Option P2BlockHeader → Except Fault EpochTime
  | none => .ok now
  | some prevHeader =>
    match c.calculateMedianTimestampForBlock prevHeader.height prevHeader.prevHash with
    | .error _ => .ok now
    | .ok medianTimestamp => raiseTimestamp medianTimestamp maxFutureBlockTime now

def generateNewTipBlock (core : TariCore) (s : InMemoryShareChain) (ord : IterOrder)
    (now : EpochTime) (minerAddress : TariAddress) (coinbaseExtra : List Nat) (c : P2Chain) :
    Except Fault P2Block := do
  -- edge case for chain start
  let prevBlock := c.getTip.bind (·.blockHeaderInMainChain)
  let newHeight :=
    match prevBlock with
    | some prevBlock => saturatingAdd prevBlock.height 1
    | none => 0
  let uncles ← selectUncles ord c newHeight
  let timestamp ← templateTimestamp c now prevBlock
  let builder := ((P2BlockBuilder.new (prevBlock.map fun b => (b.hash, b.totalPow))).withTimestamp
    timestamp).withHeight newHeight
  match builder.withUncles uncles with
  | .error e => .error (.error e)
  | .ok builder =>
    match (((builder.withMinerWalletAddress minerAddress).withMinerCoinbaseExtra
        coinbaseExtra).withSquad s.squad).build core with
    | .error e => .error (.error e)
    | .ok block => .ok block

/-! ### Payout lists -/

def calculateAndCacheHashmapShares (calculatingHeight : Nat) (blockHash : FixedHash) :
    ChainM MinerShares := do
  let c ← get
  match c.getTip with
  | none => return KeyedMap.empty
  | some tip =>
    let shares ← EStateM.ofExcept (c.getCalculateAndCacheHashmapOfShares calculatingHeight blockHash)
    if tip.chainBlock = blockHash then
      -- we update the cached shares if this is for the tip
      set { c with cachedShares := some { atHash := tip.chainBlock, shares := shares } }
      return shares
    else return shares

/-- The shares that a new tip block starts from: the cached ones when they are those of its parent,
else counted anew. Shares cached for another block are dropped. -/
def sharesForTemplate (newTipBlock : P2Block) : ChainM MinerShares := do
  let c ← get
  let cached := c.cachedShares.filter fun cached => newTipBlock.prevHash = cached.atHash
  let shares := (cached.map (·.shares)).getD KeyedMap.empty
  set { c with cachedShares := cached }
  if shares.size = 0 then
    calculateAndCacheHashmapShares (newTipBlock.height - 1) newTipBlock.prevHash
  else return shares

def coinbasesOf (ord : IterOrder) (shares : MinerShares) : List NewBlockCoinbase :=
  (ord.run 0 shares.values).map fun share =>
    { address := share.miner, value := share.shareCount, coinbaseExtra := share.coinbaseExtra }

def generateSharesAndGetTargetDifficulty (core : TariCore) (s : InMemoryShareChain)
    (ord : IterOrder) (newTipBlock : P2Block) (soloMine : Bool) :
    ChainM (List NewBlockCoinbase × Difficulty) := do
  let before ← if soloMine then pure KeyedMap.empty else sharesForTemplate newTipBlock
  let c ← get
  let own := insertOwnShare newTipBlock before
  let shares ←
    if soloMine then pure own
    else EStateM.ofOption (.error .uncleBlockNotFound) (c.insertUncleShares newTipBlock.uncles own)
  let min :=
    match s.powAlgo with
    | .randomX => s.minimumRandomxTargetDifficulty
    | .sha3x => s.minimumSha3TargetDifficulty
  return (coinbasesOf ord shares, (c.getTargetDifficultyForBlock core newTipBlock).getD min)

end InMemoryShareChain

end ShaP2Pool
