import ShaP2Pool.Sharechain.VerifyChain

/-!
# The loops of a verification, round by round

The loops that `p2chain.rs` runs while it verifies one block, each as the step from the variables
of one round to those of the next, with the exits where the source has them. Nothing here counts
rounds that the source does not count. The functions that the chain's operations are written with
recurse on a bound instead; that the bound never cuts a loop off is proved of the two together.
-/

namespace ShaP2Pool

namespace P2Chain

/-- The variables of the search for the beginning of the chain, the fork or the end of the share
window. -/
structure ScanState where
  currentCountingBlock : P2BlockHeader
  counter : Nat := 1
  chainAddResult : ChainAddResult := {}

def scanRound (c : P2Chain) (s : ScanState) :
    ScanState ⊕ Except Fault (Bool × ChainAddResult) :=
  let current := s.currentCountingBlock
  if current.height = 0 then .inr (.ok (true, s.chainAddResult))
  else
    match c.getBlockHeaderAtHeight (current.height - 1) current.prevHash with
    | none =>
      .inr (.ok (true, s.chainAddResult.addMissing current.prevHash (current.height - 1)))
    | some parent =>
      if !parent.verified.isVerified then .inr (.ok (false, c.missingBelow parent s.chainAddResult))
      else if c.config.shareWindow ≤ s.counter + 1 then .inr (.ok (true, s.chainAddResult))
      else
        match c.levelAtHeight current.height with
        | none => .inr (.error (.error .blockLevelNotFound))
        | some level =>
          if level.chainBlock = current.hash then .inr (.ok (true, s.chainAddResult))
          else .inl { s with currentCountingBlock := parent, counter := s.counter + 1 }

/-- The loop that goes up and resets the links of the main chain; the height is the source's
`current_height`. -/
def resetRound : P2Chain × Nat → (P2Chain × Nat) ⊕ Except Fault P2Chain
  | (c, currentHeight) =>
    match c.levelAtHeight (saturatingAdd currentHeight 1) with
    | none => .inr (.ok c)
    | some level =>
      if u64Max < currentHeight + 1 then .inr (.error (.panic .overflow))
      else .inl (c.putLevel (level.setChainBlock FixedHash.zero), currentHeight + 1)

/-- The variables of the loop that goes down from a new tip. -/
structure RelinkState where
  chain : P2Chain
  currentBlock : P2BlockHeader
  counter : Nat := 1
  lwma : LinearWeightedMovingAverage

def relinkNext (s : RelinkState) :
    RelinkState ⊕ Except Fault (P2Chain × LinearWeightedMovingAverage) :=
  if s.currentBlock.height = 0 ∨ s.chain.config.shareWindow ≤ s.counter then
    .inr (.ok (s.chain, s.lwma))
  else .inl s

def relinkRound (s : RelinkState) :
    RelinkState ⊕ Except Fault (P2Chain × LinearWeightedMovingAverage) :=
  let current := s.currentBlock
  match s.chain.levelAtHeight (current.height - 1) with
  | none => .inr (.ok (s.chain, s.lwma))
  | some parentLevel =>
    if current.prevHash ≠ parentLevel.chainBlock then
      match parentLevel.getHeader current.prevHash with
      | none => .inr (.error (.panic .corruptedChain))
      | some next =>
        relinkNext {
          chain := s.chain.putLevel (parentLevel.setChainBlock current.prevHash)
          currentBlock := next
          counter := s.counter + 1
          lwma := s.lwma.pushFront (next.timestamp, next.targetDifficulty) }
    else if !s.lwma.isFull then
      match parentLevel.getHeader current.prevHash with
      | none =>
        if current.height = 0 then .inr (.ok (s.chain, s.lwma))
        else .inr (.error (.panic .corruptedChain))
      | some next =>
        relinkNext { s with
          currentBlock := next
          counter := s.counter + 1
          lwma := s.lwma.pushFront (next.timestamp, next.targetDifficulty) }
    else .inr (.ok (s.chain, s.lwma))

/-- The loop of `get_target_difficulty_for_block`. -/
def lwmaRound (c : P2Chain) : P2BlockHeader × LinearWeightedMovingAverage →
    (P2BlockHeader × LinearWeightedMovingAverage) ⊕ Option LinearWeightedMovingAverage
  | (currentBlock, lwma) =>
    if lwma.isFull then .inr (some lwma)
    else
      match c.getBlockHeaderAtHeight (currentBlock.height - 1) currentBlock.prevHash with
      | none => .inr none
      | some next =>
        let lwma := lwma.pushFront (next.timestamp, next.targetDifficulty)
        if next.height = 0 then .inr (some lwma) else .inl (next, lwma)

/-- The loop of `calculate_median_timestamp_for_block`. -/
def medianRound (c : P2Chain) : P2BlockHeader × List EpochTime →
    (P2BlockHeader × List EpochTime) ⊕ Except ShareChainError (List EpochTime)
  | (currentBlock, timestamps) =>
    if medianTimestampWindow ≤ timestamps.length then .inr (.ok timestamps)
    else if currentBlock.height = 0 then .inr (.ok timestamps)
    else
      match c.levelAtHeight (currentBlock.height - 1) with
      | none => .inr (.error .blockLevelNotFound)
      | some level =>
        match level.getHeader currentBlock.prevHash with
        | none => .inr (.error .blockNotFound)
        | some parent => .inl (parent, timestamps ++ [parent.timestamp])

/-- The loop of `get_calculate_and_cache_hashmap_of_shares`. -/
def shareRound (c : P2Chain) (stopHeight : Nat) : P2BlockHeader × MinerShares →
    (P2BlockHeader × MinerShares) ⊕ Except ShareChainError MinerShares
  | (curBlock, minersToShares) =>
    if curBlock.height ≤ stopHeight then .inr (.ok minersToShares)
    else
      match c.getBlockHeaderAtHeight (curBlock.height - 1) curBlock.prevHash with
      | none => .inr (.error .blockNotFound)
      | some parent =>
        match c.countBlock parent minersToShares with
        | .error e => .inr (.error e)
        | .ok shares => if parent.height = 0 then .inr (.ok shares) else .inl (parent, shares)

end P2Chain

end ShaP2Pool
