import ShaP2Pool.Server.Network

/-!
# Answering and publishing

The other half of `network.rs`: the handlers that answer requests for blocks from the share chains,
the gossip topics, and what a node publishes once its share chain has taken a mined block
(`submit_share_chain_block` of `grpc/p2pool.rs`). What a node says of itself and of other peers is
not part of it.
-/

namespace ShaP2Pool

/-- The rest of the trait `ShareChain`: what miners and other nodes ask of it. -/
structure ServingChain (S : Type) extends ShareChain S where
  submitBlock : Env → P2Block → EStateM Fault S ChainAddResult
  getBlocks : S → List (Nat × FixedHash) → List P2Block
  requestSync : Env → S → List (Nat × FixedHash) → Nat → Option (Nat × FixedHash) →
    Except Fault (List P2Block × Option (Nat × FixedHash) × AccumulatedDifficulty)

/-- The share chains of the program. -/
def InMemoryShareChain.servingChain (core : TariCore) :
    ServingChain (InMemoryShareChain × P2Chain) where
  toShareChain := InMemoryShareChain.shareChain core
  submitBlock env block := fun (s, c) =>
    match s.submitBlock core (env.ord 0) env.now block c with
    | .ok result c => .ok result (s, c)
    | .error fault c => .error fault (s, c)
  getBlocks := fun (_, c) => c.getBlocks
  requestSync env := fun (_, c) => c.requestSync (env.ord 0)

/-! ### Topics -/

/-- `PEER_INFO_TOPIC` -/
def peerInfoTopic : String := "peer_info"

/-- `BLOCK_NOTIFY_TOPIC` -/
def blockNotifyTopic : String := "block_notify"

/-- `BLOCK_NOTIFY_RX_TOPIC` -/
def blockNotifyRxTopic : String := "block_notify_rx"

/-- `BLOCK_NOTIFY_SHA3X_TOPIC` -/
def blockNotifySha3xTopic : String := "block_notify_sha3x"

/-- The Tari network that nodes are on, and its chain id. -/
structure TariNetwork where
  network : String
  chainId : String

/-- `network_topic` -/
def TariNetwork.networkTopic (net : TariNetwork) (topic : String) : String :=
  net.network ++ "_" ++ net.chainId ++ "_" ++ topic ++ "_" ++ toString protocolVersion

/-- `squad_topic` -/
def TariNetwork.squadTopic (net : TariNetwork) (squad topic : String) : String :=
  net.network ++ "_" ++ net.chainId ++ "_" ++ squad ++ "_" ++ topic ++ "_" ++ toString protocolVersion

/-- `subscribe_to_topics` outside of the diagnostic mode -/
def TariNetwork.subscriptions (net : TariNetwork) (squad : String) (config : Config) : List String :=
  [net.networkTopic peerInfoTopic, net.squadTopic squad blockNotifyTopic] ++
    (if config.randomxEnabled then [net.squadTopic squad blockNotifyRxTopic] else []) ++
    if config.sha3xEnabled then [net.squadTopic squad blockNotifySha3xTopic] else []

/-- The bytes of a gossip message, by what they can be read as. -/
inductive Published
  | peerInfo (info : PeerInfo)
  | newTip (payload : NotifyNewTipBlock)
  | unreadable

def TariNetwork.readGossip (net : TariNetwork) (squad topic : String) (published : Published) :
    GossipPayload :=
  if topic = net.networkTopic peerInfoTopic then
    .peerInfo (match published with
      | .peerInfo info => some info
      | _ => none)
  else if topic = net.squadTopic squad blockNotifyTopic ∨
      topic = net.squadTopic squad blockNotifyRxTopic ∨
      topic = net.squadTopic squad blockNotifySha3xTopic then
    .blockNotify (match published with
      | .newTip payload => some payload
      | _ => none)
  else .unknownTopic

/-- `MAX_CATCH_UP_BLOCKS_TO_RETURN` -/
def maxCatchUpBlocksToReturn : Nat := 5

namespace Service

variable {S : Type} (sc : ServingChain S) (env : Env)

/-! ### Answers -/

def handleSyncMissingBlocksRequest (request : SyncMissingBlocksRequest) (s : Service S) :
    Except String SyncMissingBlocksResponse :=
  let algo := messageAlgo request.algo
  let blocks := sc.getBlocks (s.shareChain algo) request.missingBlocks
  if blocks.isEmpty then .error "No blocks found"
  else .ok { peerId := s.localPeerId, algo := algo.asU64, blocks := blocks }

def handleCatchUpSyncRequest (request : CatchUpSyncRequest) (s : Service S) :
    Except Panic (Except String CatchUpSyncResponse) :=
  let algo := messageAlgo request.algo
  match sc.requestSync env (s.shareChain algo) request.iHave maxCatchUpBlocksToReturn
      request.lastBlockReceived with
  | .error (.panic p) => .error p
  | .error (.error _) => .ok (.error "Failed to get blocks, tip and pow from share chain")
  | .ok (blocks, ourTip, ourAchievedPow) =>
    .ok (.ok
      { peerId := s.localPeerId
        algo := algo.asU64
        blocks := blocks
        tip := ourTip.getD (0, FixedHash.zero)
        achievedPow := some ourAchievedPow })

/-! ### Mined blocks -/

/-- A mined block that has become the tip is published after its uncles. The answer is the blocks to
publish. -/
def submitShareChainBlock (block : P2Block) (s : Service S) : Service S × List P2Block :=
  let algo := block.originalHeader.powAlgo
  if !s.areWeSynced algo then (s, [])
  else
    match sc.submitBlock env block (s.shareChain algo) with
    | .error _ chain => (s.withShareChain algo chain, [])
    | .ok newTip chain =>
      (s.withShareChain algo chain,
        if newTip.newTip.isSome then sc.getBlocks chain block.uncles ++ [block] else [])

/-- The topic that a block is published under. -/
def blockTopic (net : TariNetwork) (block : P2Block) (s : Service S) : String :=
  if block.version ≤ 35 then net.squadTopic s.squad blockNotifyTopic
  else
    match block.originalHeader.powAlgo with
    | .randomX => net.squadTopic s.squad blockNotifyRxTopic
    | .sha3x => net.squadTopic s.squad blockNotifySha3xTopic

/-- What `broadcast_block` publishes. -/
def newTipMessage (block : P2Block) (s : Service S) : NotifyNewTipBlock where
  peerId := s.localPeerId
  newBlocks := [block]
  timestamp := env.now

end Service

end ShaP2Pool
