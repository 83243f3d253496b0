import ShaP2Pool.Sharechain.InMemory

/-!
# The gRPC service

`server/grpc/p2pool.rs`: miners fetch templates and send back the headers they mined. The source
keeps a share chain, a template store and a difficulty cache for each of the two algorithms and a
request goes to those of its algorithm; the service here is one of the two halves. The base node is
an argument of each call.
-/

namespace ShaP2Pool

open P2Chain

/-- A request fails with a status, of which the text is kept without what it quotes of another
error, or by a panic. -/
inductive GrpcFault
  | status (message : String)
  | panic (p : Panic)
  deriving DecidableEq, Repr

/-- The answer of the base node to a request for a block with given coinbases. -/
structure NewBlockTemplate where
  block : TariBlock
  /-- `miner_data.target_difficulty`, a `u64` -/
  targetDifficulty : Nat

structure Template where
  tariHash : FixedHash
  block : P2Block

structure GetNewBlockResponse where
  block : TariBlock
  minerTargetDifficulty : Nat
  targetDifficulty : Difficulty

/-- `MAX_STORED_TEMPLATES_RX` and `MAX_STORED_TEMPLATES_SHA3X` -/
def maxStoredTemplates : Nat := 100

/-- The fields of `ShaP2PoolGrpc` for one algorithm. -/
structure ShaP2PoolGrpc where
  shareChain : P2Chain
  templateStore : KeyedMap Template.tariHash
  /-- a queue of keys, oldest first -/
  listOfTemplates : List FixedHash
  blockHeightDifficultyCache : KeyedMap (fun entry : Nat × Difficulty => entry.1)

abbrev GrpcM := EStateM GrpcFault ShaP2PoolGrpc

namespace ShaP2PoolGrpc

/-- The service with the share chain that `InMemoryShareChain::new` creates. -/
def new (s : InMemoryShareChain) : ShaP2PoolGrpc where
  shareChain := newEmpty s.chainConfig
  templateStore := KeyedMap.empty
  listOfTemplates := []
  blockHeightDifficultyCache := KeyedMap.empty

def onShareChain {α : Type} (message : String) (call : ChainM α) : GrpcM α := fun g =>
  match call g.shareChain with
  | .ok a c => .ok a { g with shareChain := c }
  | .error (.error _) c => .error (.status message) { g with shareChain := c }
  | .error (.panic p) c => .error (.panic p) { g with shareChain := c }

def orStatus {α : Type} (message : String) : Except ShareChainError α → GrpcM α
  | .ok a => pure a
  | .error _ => throw (.status message)

/-- Append a key to the queue, from which the oldest is dropped when there are too many. -/
def pushTemplate (templates : List FixedHash) (tariHash : FixedHash) : List FixedHash :=
  let templates := templates ++ [tariHash]
  if maxStoredTemplates < templates.length then templates.tail else templates

/-- A template for `minerAddress`: a block on the tip, filled with the base node's block for the
shares and stored under the hash of its header. -/
def getNewBlock (core : TariCore) (headerHash : BlockHeader → FixedHash) (s : InMemoryShareChain)
    (ord : IterOrder) (now : EpochTime) (minerAddress : TariAddress) (coinbaseExtra : List Nat)
    (synced : Bool) (baseNode : List NewBlockCoinbase → Except String NewBlockTemplate) :
    GrpcM GetNewBlockResponse := do
  let newTipBlock ← onShareChain "failed to get new tip block" (do
    let c ← get
    EStateM.ofExcept (s.generateNewTipBlock core ord now minerAddress coinbaseExtra c))
  let (shares, targetDifficulty) ← onShareChain "failed to generate shares"
    (s.generateSharesAndGetTargetDifficulty core ord newTipBlock (!synced))
  match baseNode shares with
  | .error message => throw (.status message)
  | .ok response =>
    -- we set the nonce to 0 in order to find the template again
    let tariBlock := { response.block with header := { response.block.header with nonce := 0 } }
    let newTipBlock ← orStatus "Could not convert gprc block to p2p block"
      (newTipBlock.populateTariData tariBlock)
    let tariHash := headerHash newTipBlock.originalHeader
    if response.targetDifficulty < 1 then throw (.status "Invalid target difficulty")
    else
      modify fun g => { g with
        blockHeightDifficultyCache := g.blockHeightDifficultyCache.insert
          (response.block.header.height, response.targetDifficulty) }
      let newTipBlock ← orStatus "Invalid target difficulty"
        (newTipBlock.changeTargetDifficulty core targetDifficulty)
      modify fun g => { g with listOfTemplates := pushTemplate g.listOfTemplates tariHash }
      modify fun g => { g with
        templateStore := g.templateStore.insert { tariHash := tariHash, block := newTipBlock } }
      return {
        block := response.block
        minerTargetDifficulty :=
          if targetDifficulty < response.targetDifficulty && synced then targetDifficulty
          else response.targetDifficulty
        targetDifficulty := if synced then targetDifficulty else response.targetDifficulty }

/-- The share chain takes a mined block only once the node is synced, and an error is logged. -/
def submitShareChainBlock (core : TariCore) (s : InMemoryShareChain) (ord : IterOrder)
    (now : EpochTime) (synced : Bool) (block : P2Block) : GrpcM Unit := fun g =>
  if !synced then .ok () g
  else
    match s.submitBlock core ord now block g.shareChain with
    | .ok _ c => .ok () { g with shareChain := c }
    | .error (.error _) c => .ok () { g with shareChain := c }
    | .error (.panic p) c => .error (.panic p) { g with shareChain := c }

/-- A mined header is put into the template it was made from. The block goes to the base node if it
is difficult enough for the main chain, and then to the share chain. The texts of the errors are
logged and the miner sees one text for all of them. -/
def submitBlock (core : TariCore) (headerHash : BlockHeader → FixedHash) (s : InMemoryShareChain)
    (ord : IterOrder) (now : EpochTime) (synced : Bool) (header : BlockHeader)
    (baseNode : BlockHeader → Except String Unit) : GrpcM FixedHash := do
  let tariHash := headerHash { header with nonce := 0, powData := [] }
  let g ← get
  match g.templateStore.find? tariHash with
  | none => throw (.status "submit_block failed")
  | some template =>
    let p2poolBlock := { template.block with originalHeader := header }
    match achievedDifficulty core true header with
    | .error _ => throw (.status "submit_block failed")
    | .ok requestBlockDifficulty =>
      let networkDifficulty :=
        ((g.blockHeightDifficultyCache.find? header.height).map (·.2)).getD Difficulty.min
      if networkDifficulty ≤ requestBlockDifficulty then
        match baseNode header with
        | .error _ => throw (.status "submit_block failed")
        | .ok () =>
          submitShareChainBlock core s ord now synced p2poolBlock
          return tariHash
      else
        submitShareChainBlock core s ord now synced p2poolBlock
        return tariHash

end ShaP2PoolGrpc

end ShaP2Pool
