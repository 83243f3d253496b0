import ShaP2Pool.Library.Loop
import ShaP2Pool.Sharechain.P2Chain

/-!
# Adding a block

The part of `p2chain.rs` that changes the chain: a new block is stored, verified, and may extend the
main chain or reorganise it; then the stored blocks that were waiting for it are verified in turn.
A call that fails keeps the changes made up to the failure.
-/

namespace ShaP2Pool

abbrev ChainM := EStateM Fault P2Chain

structure ChainAddResult where
  newTip : Option (FixedHash × Nat) := none
  missingBlocks : KeyedMap (fun entry : FixedHash × Nat => entry.1) := KeyedMap.empty

namespace ChainAddResult

def insertMissing (missing : KeyedMap (fun entry : FixedHash × Nat => entry.1)) :
    List (FixedHash × Nat) → KeyedMap (fun entry : FixedHash × Nat => entry.1)
  | [] => missing
  | entry :: rest =>
    if maxMissingParents ≤ missing.size then missing
    else insertMissing (missing.insert entry) rest

def combine (ord : IterOrder) (n : Nat) (self other : ChainAddResult) : ChainAddResult where
  newTip :=
    match self.newTip, other.newTip with
    | some currentTip, some otherTip =>
      if currentTip.2 < otherTip.2 then some otherTip else some currentTip
    | none, some newTip => some newTip
    | current, none => current
  missingBlocks := insertMissing self.missingBlocks (ord.run n other.missingBlocks.values)

def setNewTip (self : ChainAddResult) (hash : FixedHash) (height : Nat) : ChainAddResult :=
  match self.newTip with
  | some (_, currentHeight) =>
    if currentHeight < height then { self with newTip := some (hash, height) } else self
  | none => { self with newTip := some (hash, height) }

def addMissing (self : ChainAddResult) (hash : FixedHash) (height : Nat) : ChainAddResult :=
  { self with missingBlocks := self.missingBlocks.insert (hash, height) }

end ChainAddResult

namespace P2Chain

/-! ### Storing blocks and moving the tip -/

/-- The most levels `cleanup_chain` keeps. -/
def maxLevels (config : ChainConfig) : Nat := config.totalSize + safetyMargin + maxExtraSync

def removeLevel (c : P2Chain) (height : Nat) : P2Chain :=
  match c.levelAtHeight height with
  | none => c
  | some level =>
    { c with
      levels := c.levels.erase height
      blockCache :=
        level.blockHeaders.values.foldl (fun cache header => cache.erase header.hash) c.blockCache }

def cleanupLoop : List Nat → P2Chain → P2Chain
  | [], c => c
  | key :: keys, c =>
    if maxLevels c.config < c.levels.size then cleanupLoop keys (c.removeLevel key) else c

def cleanupChain (c : P2Chain) : P2Chain :=
  cleanupLoop ((c.levels.values.map (·.height)).insertionSort (· ≤ ·)) c

def putLevel (c : P2Chain) (level : P2ChainLevel) : P2Chain :=
  { c with levels := c.levels.insert level }

/-- `P2ChainLevel::add_block` on a level of the chain. -/
def addToLevel (c : P2Chain) (level : P2ChainLevel) (block : P2Block) : Except Fault P2Chain :=
  match level.addBlock block with
  | .error e => .error (.error e)
  | .ok level => .ok { c.putLevel level with blockCache := c.blockCache.insert block }

/-- `P2ChainLevel::new` and its insertion into the chain. -/
def addLevel (c : P2Chain) (block : P2Block) : P2Chain :=
  { c.putLevel (P2ChainLevel.new block) with blockCache := c.blockCache.insert block }

def setNewTip (newHeight : Nat) (hash : FixedHash) : ChainM Unit := do
  let c ← get
  let block ← EStateM.ofOption (.error .blockNotFound) (c.getBlockAtHeight newHeight hash)
  let c := { c with lwma := c.lwma.pushBack (block.timestamp, block.targetDifficulty) }
  set c
  let level ← EStateM.ofOption (.error .blockLevelNotFound) (c.levelAtHeight newHeight)
  set (cleanupChain
    { c.putLevel (level.setChainBlock hash) with currentTip := level.height })

/-! ### Verifying one block -/

/-- The stored blocks that list `hash` as an uncle or as their parent, in the heights that the
source scans: `height + 1` up to, but without, `height + MAX_UNCLE_AGE`. -/
def childrenAndNephews (ord : IterOrder) (n : Nat) (c : P2Chain) (height : Nat)
    (hash : FixedHash) : List (Nat × FixedHash) :=
  (List.range' (height + 1) (maxUncleAge - 1)).flatMap fun checkHeight =>
    match c.levelAtHeight checkHeight with
    | none => []
    | some level => level.allChildrenAndNephewsOf ord n hash

def getAllChildrenAndNephews (ord : IterOrder) (n : Nat) (c : P2Chain) (height : Nat)
    (hash : FixedHash) : Except Fault (List (Nat × FixedHash)) :=
  if u64Max < height + maxUncleAge then .error (.panic .overflow)
  else .ok (c.childrenAndNephews ord n height hash)

def verifyBlock (core : TariCore) (hash : FixedHash) (height : Nat) : ChainM Unit := do
  let c ← get
  let done ← EStateM.ofExcept (c.isVerified hash height)
  if done then return ()
  let level ← EStateM.ofOption (.error .blockLevelNotFound) (c.levelAtHeight height)
  let block ← EStateM.ofOption (.error .blockNotFound) (c.blockCache.find? hash)
  let verified ← EStateM.ofExcept (c.runChecks core block)
  let c ← EStateM.ofExcept (c.addToLevel level { block with verified := verified })
  set c

/-- The missing parents of the uncles that are stored, and the uncles that are not. -/
def missingUncles (c : P2Chain) : List (Nat × FixedHash) → ChainAddResult → ChainAddResult
  | [], result => result
  | (height, hash) :: rest, result =>
    match c.getParentOf height hash with
    | some uncleParentHash =>
      if c.blockExists (height - 1) uncleParentHash then c.missingUncles rest result
      else c.missingUncles rest (result.addMissing uncleParentHash (height - 1))
    | none => c.missingUncles rest (result.addMissing hash height)

/-- What a block references that is not stored. The chain start is not checked. -/
def missingReferences (c : P2Chain) (height : Nat) (hash prevHash : FixedHash) : ChainAddResult :=
  if height = 0 then {}
  else
    c.missingUncles (c.getUncles height hash)
      (if c.blockExists (height - 1) prevHash then {}
       else ChainAddResult.addMissing {} prevHash (height - 1))

/-- The uncle checks of a block that extends the tip, against the main chain of the moment. -/
def checkUncles (c : P2Chain) : List (Nat × FixedHash) → Except Fault Unit
  | [] => .ok ()
  | (height, hash) :: rest =>
    match c.getBlockAtHeight height hash with
    | none => .error (.error .blockNotFound)
    | some uncleBlock =>
      match c.getParentBlock uncleBlock with
      | none => .error (.error .blockNotFound)
      | some uncleParent =>
        match c.levelAtHeight (height - 1) with
        | none => .error (.error .blockLevelNotFound)
        | some uncleLevel =>
          if uncleLevel.chainBlock ≠ uncleParent.hash then
            .error (.error .uncleParentNotInMainChain)
          else
            match c.levelAtHeight height with
            | none => .error (.error .blockLevelNotFound)
            | some ownLevel =>
              if ownLevel.chainBlock = hash then .error (.error (.uncleInMainChain height hash))
              else c.checkUncles rest

def missingBelow (c : P2Chain) (parent : P2BlockHeader) (result : ChainAddResult) :
    ChainAddResult :=
  (parent.uncles.filter fun uncle => !c.blockExists uncle.1 uncle.2).foldl
    (fun result uncle => result.addMissing uncle.2 uncle.1)
    (if c.blockExists (parent.height - 1) parent.prevHash then result
     else result.addMissing parent.prevHash (parent.height - 1))

/-- The search for the beginning of the chain, the fork or the end of the share window. `steps` is
the share window less the source's counter. The answer is whether all blocks met were verified, and
the report with what was found missing. -/
def scanAncestors (c : P2Chain) :
    Nat → P2BlockHeader → ChainAddResult → Except Fault (Bool × ChainAddResult)
  | 0, _, result => .ok (true, result)
  | steps + 1, current, result =>
    if current.height = 0 then .ok (true, result)
    else
      match c.getBlockHeaderAtHeight (current.height - 1) current.prevHash with
      | none => .ok (true, result.addMissing current.prevHash (current.height - 1))
      | some parent =>
        if !parent.verified.isVerified then .ok (false, c.missingBelow parent result)
        else if steps = 0 then .ok (true, result)
        else
          match c.levelAtHeight current.height with
          | none => .error (.error .blockLevelNotFound)
          | some level =>
            if level.chainBlock = current.hash then .ok (true, result)
            else c.scanAncestors steps parent result

/-- The number of rounds of the two loops that count up to the share window from one. -/
def windowRounds (config : ChainConfig) : Nat := Nat.max 1 (config.shareWindow - 1)

/-- Reset the links of the levels directly above `height`. Every round clears another level, so the
number of levels bounds the rounds. -/
def resetLinksAbove : Nat → P2Chain → Nat → Except Fault P2Chain
  | 0, c, _ => .ok c
  | rounds + 1, c, height =>
    match c.levelAtHeight (saturatingAdd height 1) with
    | none => .ok c
    | some level =>
      let c := c.putLevel (level.setChainBlock FixedHash.zero)
      if u64Max < height + 1 then .error (.panic .overflow)
      else resetLinksAbove rounds c (height + 1)

/-- Walk down from a new tip, link the ancestors that are not on the main chain yet and fill the
difficulty window. `steps` is the share window less the source's counter. -/
def relinkAncestors : Nat → P2Chain → P2BlockHeader → LinearWeightedMovingAverage →
    Except Fault (P2Chain × LinearWeightedMovingAverage)
  | 0, c, _, lwma => .ok (c, lwma)
  | steps + 1, c, current, lwma =>
    match c.levelAtHeight (current.height - 1) with
    | none => .ok (c, lwma)
    | some parentLevel =>
      if current.prevHash ≠ parentLevel.chainBlock then
        match parentLevel.getHeader current.prevHash with
        | none => .error (.panic .corruptedChain)
        | some next =>
          let c := c.putLevel (parentLevel.setChainBlock current.prevHash)
          let lwma := lwma.pushFront (next.timestamp, next.targetDifficulty)
          if next.height = 0 then .ok (c, lwma) else relinkAncestors steps c next lwma
      else if !lwma.isFull then
        -- we still need more blocks to fill up the lwma
        match parentLevel.getHeader current.prevHash with
        | none =>
          if current.height = 0 then .ok (c, lwma) else .error (.panic .corruptedChain)
        | some next =>
          let lwma := lwma.pushFront (next.timestamp, next.targetDifficulty)
          if next.height = 0 then .ok (c, lwma) else relinkAncestors steps c next lwma
      else .ok (c, lwma)

/-- Make `block` the tip although it does not build on the tip. -/
def reorg (c : P2Chain) (block : P2BlockHeader) : Except Fault P2Chain := do
  let lwma := Window.empty.pushFront (block.timestamp, block.targetDifficulty)
  match c.levelAtHeight block.height with
  | none => .error (.panic .corruptedChain)
  | some level =>
    let c := { c.putLevel (level.setChainBlock block.hash) with
      cachedShares := none
      currentTip := block.height }
    let c ← resetLinksAbove (c.levels.size + 1) c block.height
    let (c, lwma) ← relinkAncestors (windowRounds c.config) c block lwma
    return { c with lwma := lwma }

/-- Whether `block` names the block at the tip as its parent. -/
def buildsOnTip (c : P2Chain) (block : P2BlockHeader) : Bool :=
  match c.getTip with
  | some tip => tip.chainBlock = block.prevHash
  | none => false

/-- The verified block at `height` is on the tip: check its uncles and move the tip. -/
def extendTip (ord : IterOrder) (n : Nat) (height : Nat) (hash : FixedHash)
    (block : P2BlockHeader) : ChainM (ChainAddResult × List (Nat × FixedHash)) := do
  let c ← get
  EStateM.ofExcept (c.checkUncles block.uncles)
  setNewTip height hash
  let c ← get
  let next ← EStateM.ofExcept (c.getAllChildrenAndNephews ord n height hash)
  return (ChainAddResult.setNewTip {} hash height, next)

/-- The verified block at `height` is not on the tip: look for a reorg. -/
def checkReorg (ord : IterOrder) (n : Nat) (height : Nat) (hash : FixedHash)
    (block : P2BlockHeader) : ChainM (ChainAddResult × List (Nat × FixedHash)) := do
  let c ← get
  let (allBlocksVerified, result) ←
    EStateM.ofExcept (c.scanAncestors (windowRounds c.config) block {})
  if !allBlocksVerified || result.missingBlocks.size != 0 then
    let next ← EStateM.ofExcept (c.getAllChildrenAndNephews ord n height hash)
    return (result, next)
  else if c.totalAccumulatedTipDifficulty < block.totalPow then
    let c ← EStateM.ofExcept (c.reorg block)
    set c
    let next ← EStateM.ofExcept (c.getAllChildrenAndNephews ord n height hash)
    return (result.setNewTip hash height, next)
  else
    let next ← EStateM.ofExcept (c.getAllChildrenAndNephews ord n height hash)
    return (result, next)

/-- Verify one stored block and let it move the tip. The answer also lists the stored blocks to look
at next. -/
def verifyChainInner (core : TariCore) (ord : IterOrder) (n : Nat) (newBlockHeight : Nat)
    (hash : FixedHash) : ChainM (ChainAddResult × List (Nat × FixedHash)) := do
  let c ← get
  let blockPrevHash ←
    EStateM.ofOption (.error .blockNotFound) (c.getParentOf newBlockHeight hash)
  let missing := c.missingReferences newBlockHeight hash blockPrevHash
  if missing.missingBlocks.size != 0 then
    let descendants ← EStateM.ofExcept (c.getAllChildrenAndNephews ord n newBlockHeight hash)
    return (missing, descendants)
  else
    verifyBlock core hash newBlockHeight
    let c ← get
    let block ←
      EStateM.ofOption (.error .blockNotFound) (c.getBlockHeaderAtHeight newBlockHeight hash)
    -- edge case for chain start
    if c.getTip.isNone && newBlockHeight == 0 then
      setNewTip newBlockHeight hash
      return (ChainAddResult.setNewTip {} hash newBlockHeight, [])
    else if !block.verified.isVerified then return ({}, [])
    else if c.buildsOnTip block then extendTip ord n newBlockHeight hash block
    else checkReorg ord n newBlockHeight hash block

/-! ### The walk over the waiting blocks -/

/-- The variables of the loop of `verify_chain`, with the chain it works on. -/
structure WalkState where
  chain : P2Chain
  nextLevel : List (Nat × FixedHash)
  processed : List FixedHash := []
  numProcessed : Nat := 0
  newTip : ChainAddResult := {}

def enqueue (processed : List FixedHash) (current : Nat × FixedHash) :
    List (Nat × FixedHash) → List (Nat × FixedHash) → List (Nat × FixedHash)
  | [], nextLevel => nextLevel
  | item :: rest, nextLevel =>
    if nextLevel.contains item || processed.contains item.2 then
      enqueue processed current rest nextLevel
    else if item ≠ current then enqueue processed current rest (nextLevel ++ [item])
    else enqueue processed current rest nextLevel

/-- One round of the loop of `verify_chain`: the next state, or the result it returns with. -/
def verifyChainStep (core : TariCore) (ord : IterOrder) (w : WalkState) :
    WalkState ⊕ EStateM.Result Fault P2Chain ChainAddResult :=
  match w.nextLevel with
  | [] => .inr (.ok w.newTip w.chain)
  | (nextHeight, nextHash) :: rest =>
    match verifyChainInner core ord w.numProcessed nextHeight nextHash w.chain with
    | .error fault chain => .inr (.error fault chain)
    | .ok (addResult, doNextLevel) chain =>
      let processed := nextHash :: w.processed
      let newTip := w.newTip.combine ord w.numProcessed addResult
      if maxMissingParents ≤ newTip.missingBlocks.size then .inr (.ok newTip chain)
      else
        .inl {
          chain := chain
          nextLevel := enqueue processed (nextHeight, nextHash) doNextLevel rest
          processed := processed
          numProcessed := w.numProcessed + 1
          newTip := newTip }

def numHeaders (c : P2Chain) : Nat := (c.levels.values.map (·.blockHeaders.size)).sum

def verifyChain (core : TariCore) (ord : IterOrder) (newBlockHeight : Nat) (hash : FixedHash) :
    ChainM ChainAddResult := fun c =>
  let start : WalkState := { chain := c, nextLevel := [(newBlockHeight, hash)] }
  match runLoop (verifyChainStep core ord) (c.numHeaders + 2) start with
  | some result => result
  | none => .error (.panic .outOfFuel) c

/-- Store a block in the level of its height, which is created if there is none. -/
def insertBlock (c : P2Chain) (block : P2Block) : Except Fault P2Chain :=
  match c.levelAtHeight block.height with
  | some level => c.addToLevel level block
  | none => .ok (c.addLevel block)

def addBlockInner (core : TariCore) (ord : IterOrder) (block : P2Block) :
    ChainM ChainAddResult := do
  let c ← get
  let c ← EStateM.ofExcept (c.insertBlock block)
  set c
  verifyChain core ord block.height block.hash

def addBlockToChain (core : TariCore) (ord : IterOrder) (block : P2Block) :
    ChainM ChainAddResult := do
  -- Uncle cannot be the same as prev_hash
  if block.uncles.any (fun uncle => uncle.2 == block.prevHash) then
    throw (.error (.invalidBlock "Uncle cannot be the same as prev_hash"))
  else addBlockInner core ord block

end P2Chain

end ShaP2Pool
