import ShaP2Pool.Server.Messages
import ShaP2Pool.Sharechain.Sync

/-!
# The p2p service

The handlers of `server/p2p/network.rs` that act on what peers send: gossip, the answers of the four
request protocols, failed requests, and the service's own queue of inner requests. A handler changes
the service and has effects: it queues inner requests, starts tasks, sends requests, and punishes
peers. The fields that the source keeps once for each algorithm are functions of the algorithm.
Answering requests, dialing, trimming surplus connections, publishing, statistics and the diagnostic
mode are left out, and so is what only they read. Reasons of a grey listing are kept without what
they quote of another error.
-/

namespace ShaP2Pool

/-- What a handler reads besides the service: the iteration orders of hash maps, the clocks and the
peers that the swarm is connected to. -/
structure Env where
  ord : Nat → IterOrder
  now : EpochTime
  instant : Instant
  connectedPeers : List PeerId

/-- The part of the trait `ShareChain` that the service uses. -/
structure ShareChain (S : Type) where
  addSyncedBlocks : Env → List P2Block → EStateM Fault S ChainAddResult
  tipHeight : S → Except ShareChainError Nat
  getTip : S → Except ShareChainError (Option (Nat × FixedHash))
  getTotalChainPow : S → AccumulatedDifficulty
  chainPow : S → AccumulatedDifficulty
  doBlocksExist : S → List (Nat × FixedHash) → List (Nat × FixedHash)
  createCatchupSyncBlocks : S → Nat → List (Nat × FixedHash)

/-- The share chains of the program. -/
def InMemoryShareChain.shareChain (core : TariCore) : ShareChain (InMemoryShareChain × P2Chain) where
  addSyncedBlocks env blocks := fun (s, c) =>
    match s.addSyncedBlocks core env.ord env.now blocks c with
    | .ok result c => .ok result (s, c)
    | .error fault c => .error fault (s, c)
  tipHeight := fun (_, c) => .ok c.getHeight
  getTip := fun (_, c) => .ok (c.getTip.map fun tip => (tip.height, tip.chainBlock))
  getTotalChainPow := fun (_, c) => c.totalAccumulatedTipDifficulty
  chainPow := fun (_, c) => c.totalAccumulatedTipDifficulty
  doBlocksExist := fun (_, c) => c.doBlocksExist
  createCatchupSyncBlocks := fun (_, c) => c.createCatchupSyncBlocks

/-- `ChainAddResult::into_missing_parents_vec` -/
def ChainAddResult.intoMissingParentsVec (env : Env) (result : ChainAddResult) :
    List (Nat × FixedHash) :=
  ((env.ord 0).run 0 result.missingBlocks.values).map fun missing => (missing.2, missing.1)

/-! ### Inner requests and effects -/

/-- The id of a request to a peer; each of the two protocols counts its own. -/
abbrev OutboundRequestId := Nat

/-- A permit, by the semaphore that it was taken from. -/
structure OwnedSemaphorePermit where
  semaphore : PowAlgorithm
  deriving DecidableEq, Repr

structure SyncMissingBlocks where
  algo : PowAlgorithm
  peer : PeerId
  missingParents : List (Nat × FixedHash)
  isFromNewBlockNotify : Bool
  depth : Nat

structure PerformCatchUpSync where
  algo : PowAlgorithm
  peer : PeerId
  lastBlockFromThem : Option (Nat × FixedHash)
  theirHeight : Nat
  permit : Option OwnedSemaphorePermit

inductive InnerRequest
  | doSyncMissingBlocks (request : SyncMissingBlocks)
  | performCatchUpSync (request : PerformCatchUpSync)
  | addSyncedBlock (algo : PowAlgorithm) (block : P2Block) (sourcePeer : PeerId) (depth : Nat)

/-- How far a task that processes a catch-up response has come. -/
inductive CatchUpStage
  /-- the blocks that are still to be queued -/
  | sending (blocks : List P2Block)
  | comparing
  | finishing (mustContinueSync : Bool)

/-- The task that `handle_catch_up_sync_response` spawns, with what it has captured. -/
structure CatchUpTask where
  algo : PowAlgorithm
  peer : PeerId
  stage : CatchUpStage
  /-- false if the response had their tip -/
  mustContinueSync : Bool
  lastBlockFromThem : Option (Nat × FixedHash)
  theirHeight : Nat
  theirPow : Nat
  permit : Option OwnedSemaphorePermit

/-- What a handler does besides changing the service. -/
inductive Effect
  | send (request : InnerRequest)
  | spawn (task : CatchUpTask)
  | requestMissingBlocks (id : OutboundRequestId) (peer : PeerId) (request : SyncMissingBlocksRequest)
  | requestCatchUp (id : OutboundRequestId) (peer : PeerId) (request : CatchUpSyncRequest)
  | moveToGreyList (peer : PeerId) (reason : String)
  | moveToBlacklist (peer : PeerId)
  | disconnect (peer : PeerId)
  /-- the process ends -/
  | panic

inductive MessageAcceptance
  | accept
  | reject
  | ignore
  deriving DecidableEq, Repr

/-! ### Events -/

inductive OutboundFailure
  | dialFailure
  | connectionClosed
  | other
  deriving DecidableEq, Repr

/-- What the swarm reports. The peer of a message is the one that libp2p delivers it from. -/
inductive SwarmEvent
  | connectionEstablished (peer : PeerId) (isDialer : Bool)
  | outgoingConnectionError (peer : PeerId) (isTransport : Bool)
  | gossip (message : GossipMessage) (propagationSource : PeerId)
  | metaDataRequest (peer : PeerId) (request : MetaDataRequest)
  | metaDataResponse (peer : PeerId) (response : Except String MetaDataResponse)
  | directPeerExchangeRequest (peer : PeerId) (request : DirectPeerInfoRequest)
  | directPeerExchangeResponse (peer : PeerId) (response : Except String DirectPeerInfoResponse)
  | shareChainSyncResponse (peer : PeerId) (requestId : OutboundRequestId)
    (response : Except String SyncMissingBlocksResponse)
  | shareChainSyncFailure (peer : PeerId) (requestId : OutboundRequestId) (error : OutboundFailure)
  | catchUpSyncResponse (peer : PeerId) (requestId : OutboundRequestId)
    (response : Except String CatchUpSyncResponse)
  | catchUpSyncFailure (peer : PeerId) (requestId : OutboundRequestId) (error : OutboundFailure)
  | identified (peer : PeerId) (supportsCatchUpSync : Bool)
  | ping (peer : PeerId)

/-! ### The service -/

/-- `MAX_CATCH_UP_ATTEMPTS` -/
def maxCatchUpAttempts : Nat := 500

/-- `CATCH_UP_SYNC_BLOCKS_IN_I_HAVE` -/
def catchUpSyncBlocksInIHave : Nat := 100

structure Config where
  isSeedPeer : Bool := false
  sha3xEnabled : Bool := true
  randomxEnabled : Bool := true
  numConcurrentSyncs : Nat := 1
  numSyncTipsToKeep : Nat := 10
  maxMissingBlocksSyncDepth : Nat := 8

def Config.enabled (config : Config) : PowAlgorithm → Bool
  | .randomX => config.randomxEnabled
  | .sha3x => config.sha3xEnabled

structure InProgressSync where
  peer : PeerId
  requestId : OutboundRequestId
  permit : OwnedSemaphorePermit
  deriving DecidableEq, Repr

structure Service (S : Type) where
  squad : String
  localPeerId : PeerId
  config : Config
  shareWindow : Nat
  shareChain : PowAlgorithm → S
  networkPeerStore : PeerStore
  areWeSynced : PowAlgorithm → Bool
  /-- the number of permits that are not taken -/
  syncSemaphore : PowAlgorithm → Nat
  lastSyncRequestedBlock : PowAlgorithm → Option (Nat × FixedHash)
  inProgressSyncs : PowAlgorithm → KeyedMap InProgressSync.peer
  lastFailedPeer : PowAlgorithm → Option PeerId
  /-- the last block of each peer, most recent first -/
  recentSyncedTips : PowAlgorithm → List (PeerId × (Nat × FixedHash))
  missingBlocksSyncRequestDepth : KeyedMap (fun entry : OutboundRequestId × Nat => entry.1)
  dialedSeedPeers : List PeerId
  nextShareChainSyncId : OutboundRequestId
  nextCatchUpSyncId : OutboundRequestId

namespace Service

variable {S : Type} (sc : ShareChain S) (env : Env)

/-- A service without peers. -/
def new (squad : String) (localPeerId : PeerId) (config : Config) (shareWindow : Nat)
    (shareChain : PowAlgorithm → S) : Service S where
  squad := squad
  localPeerId := localPeerId
  config := config
  shareWindow := shareWindow
  shareChain := shareChain
  networkPeerStore := PeerStore.new squad
  areWeSynced _ := false
  syncSemaphore _ := config.numConcurrentSyncs
  lastSyncRequestedBlock _ := none
  inProgressSyncs _ := KeyedMap.empty
  lastFailedPeer _ := none
  recentSyncedTips _ := []
  missingBlocksSyncRequestDepth := KeyedMap.empty
  dialedSeedPeers := []
  nextShareChainSyncId := 0
  nextCatchUpSyncId := 0

def withShareChain (s : Service S) (algo : PowAlgorithm) (chain : S) : Service S :=
  { s with shareChain := Function.update s.shareChain algo chain }

def dropPermit (s : Service S) : Option OwnedSemaphorePermit → Service S
  | none => s
  | some permit =>
    { s with
      syncSemaphore :=
        Function.update s.syncSemaphore permit.semaphore (s.syncSemaphore permit.semaphore + 1) }

/-- `Semaphore::try_acquire_owned` -/
def tryAcquire (s : Service S) (algo : PowAlgorithm) : Option (Service S × OwnedSemaphorePermit) :=
  if s.syncSemaphore algo = 0 then none
  else
    some ({ s with
      syncSemaphore := Function.update s.syncSemaphore algo (s.syncSemaphore algo - 1) }, ⟨algo⟩)

/-! ### Peer infos -/

def addPeer (payload : PeerInfo) (peer : PeerId) (s : Service S) : Service S × Bool :=
  if peer = s.localPeerId then (s, false)
  else if payload.version ≠ protocolVersion then (s, false)
  else
    let (store, status) := s.networkPeerStore.add env.instant peer payload
    ({ s with networkPeerStore := store }, status != .blacklisted)

/-- Add the peers of a list under the ids in their infos, with a new timestamp each. The answer is
how many were added. -/
def addPeers (payloads : List PeerInfo) (s : Service S) : Service S × Nat :=
  payloads.foldl (fun (s, added) payload =>
    match payload.peerId with
    | none => (s, added)
    | some peer =>
      let (s, new) := s.addPeer env { payload with timestamp := env.now } peer
      (s, if new then added + 1 else added)) (s, 0)

def handleDirectPeerExchangeRequest (request : DirectPeerInfoRequest) (s : Service S) : Service S :=
  if request.myInfo.version ≠ protocolVersion then s
  else
    match request.peerId with
    | none => s
    | some peerId => (((s.addPeer env request.myInfo peerId).1).addPeers env request.bestPeers).1

def handleMetaDataExchangeRequest (request : MetaDataRequest) (s : Service S) : Service S :=
  if request.myInfo.version ≠ protocolVersion then s
  else
    match request.peerId with
    | none => s
    | some peerId => (s.addPeer env request.myInfo peerId).1

def handleDirectPeerExchangeResponse (response : DirectPeerInfoResponse) (s : Service S) :
    Service S × List Effect :=
  match response.peerId with
  | none => (s, [])
  | some peerId =>
    if response.info.version ≠ protocolVersion then (s, [.disconnect peerId])
    else
      let s := (s.addPeers env response.bestPeers).1
      if s.config.isSeedPeer then (s, [])
      else if s.dialedSeedPeers.contains peerId then
        ({ s with dialedSeedPeers := s.dialedSeedPeers.filter (· ≠ peerId) }, [.disconnect peerId])
      else (s, [])

def catchUpOf (info : PeerInfo) (peer : PeerId) (s : Service S) (algo : PowAlgorithm) : List Effect :=
  if s.config.enabled algo && decide (sc.chainPow (s.shareChain algo) < info.currentPow algo) then
    [.send (.performCatchUpSync
      { algo := algo
        peer := peer
        lastBlockFromThem := none
        theirHeight := info.currentHeight algo
        permit := none })]
  else []

def handleMetaDataExchangeResponse (response : MetaDataResponse) (s : Service S) :
    Service S × List Effect :=
  match response.peerId with
  | none => (s, [])
  | some peerId =>
    if response.info.version ≠ protocolVersion then (s, [.disconnect peerId])
    else
      let s := (s.addPeer env response.info peerId).1
      if s.networkPeerStore.isSeedPeer peerId || response.info.squad != s.squad ||
          s.config.isSeedPeer then (s, [])
      else
        (s, s.catchUpOf sc response.info peerId .sha3x ++ s.catchUpOf sc response.info peerId .randomX)

/-! ### Gossip -/

def ourTip (s : Service S) (algo : PowAlgorithm) : Nat :=
  match sc.tipHeight (s.shareChain algo) with
  | .ok height => height
  | .error _ => 0

/-- The checks of a block notification that come before its blocks are added. `none` lets the blocks
through. -/
def screenNotify (payload : NotifyNewTipBlock) (s : Service S) : Option MessageAcceptance :=
  let ourTip := s.ourTip sc payload.algo
  if payload.version ≠ protocolVersion then some .reject
  else if payload.timestamp < env.now - 60 then some .ignore
  else if !s.config.enabled payload.algo then some .ignore
  else if payload.newBlocks.isEmpty then some .reject
  else if payload.totalProofOfWork < sc.getTotalChainPow (s.shareChain payload.algo) ∧
      payload.maxHeight ≤ ourTip - 4 then some .ignore
  -- a block much higher than ours may be fake, or on a part of the network that we can't get to
  else if saturatingAdd ourTip 10 < payload.maxHeight then some .accept
  else none

def handleNotifyNewTipBlock (payload : NotifyNewTipBlock) (propagationSource : PeerId)
    (s : Service S) : Service S × List Effect × MessageAcceptance :=
  match s.screenNotify sc env payload with
  | some acceptance => (s, [], acceptance)
  | none =>
    let algo := payload.algo
    let ourTip := s.ourTip sc algo
    match sc.addSyncedBlocks env (payload.newBlocks.map (·.received)) (s.shareChain algo) with
    | .error (.panic _) chain => (s.withShareChain algo chain, [.panic], .ignore)
    | .error (.error _) chain =>
      (s.withShareChain algo chain, [.moveToGreyList payload.peerId "Block failed validation"], .ignore)
    | .ok newTip chain =>
      let missingParents := newTip.intoMissingParentsVec env
      if missingParents.isEmpty then (s.withShareChain algo chain, [], .accept)
      else if 5 < missingParents.length then (s.withShareChain algo chain, [], .ignore)
      else if ourTip < payload.maxHeight - 10 ∨ saturatingAdd payload.maxHeight 5 < ourTip then
        (s.withShareChain algo chain, [], .accept)
      else
        (s.withShareChain algo chain, [.send (.doSyncMissingBlocks
          { algo := algo
            peer := propagationSource
            missingParents := missingParents
            isFromNewBlockNotify := true
            depth := 0 })], .accept)

def handleNewGossipsubMessage (message : GossipMessage) (propagationSource : PeerId)
    (s : Service S) : Service S × List Effect × MessageAcceptance :=
  match message.source, message.payload with
  | none, _ => (s, [], .reject)
  | some _, .unknownTopic => (s, [], .reject)
  | some _, .peerInfo none => (s, [], .reject)
  | some sourcePeer, .peerInfo (some payload) =>
    if payload.version ≠ protocolVersion then (s, [], .reject)
    else if payload.timestamp < env.now - 60 then (s, [], .ignore)
    else ((s.addPeer env payload sourcePeer).1, [], .accept)
  | some sourcePeer, .blockNotify none =>
    (s, [.moveToGreyList sourcePeer "Node sent a block that could not be deserialized"], .reject)
  | some _, .blockNotify (some payload) => s.handleNotifyNewTipBlock sc env payload propagationSource

/-! ### Missing blocks -/

def handleSyncMissingBlocksResponse (response : SyncMissingBlocksResponse) (depth : Nat) :
    List Effect :=
  if response.version ≠ protocolVersion then []
  else
    response.blocks.map fun block =>
      .send (.addSyncedBlock (messageAlgo response.algo) block.received response.peerId depth)

def requestMissingBlocks (algo : PowAlgorithm) (missingParents : List (Nat × FixedHash)) (depth : Nat)
    (s : Service S) (peer : PeerId) : Service S × List Effect :=
  ({ s with
      nextShareChainSyncId := s.nextShareChainSyncId + 1
      missingBlocksSyncRequestDepth :=
        s.missingBlocksSyncRequestDepth.insert (s.nextShareChainSyncId, depth + 1) },
    [.requestMissingBlocks s.nextShareChainSyncId peer (.new algo missingParents)])

def requestFromPeers (algo : PowAlgorithm) (missingParents : List (Nat × FixedHash)) (depth : Nat) :
    List PeerId → Service S → Service S × List Effect
  | [], s => (s, [])
  | peer :: peers, s =>
    let (s, effects) := s.requestMissingBlocks algo missingParents depth peer
    let (s, more) := requestFromPeers algo missingParents depth peers s
    (s, effects ++ more)

def mayHave (s : Service S) (algo : PowAlgorithm) (minHeight : Nat) (peer : PeerId) : Bool :=
  match s.networkPeerStore.get peer with
  | some record => decide (minHeight ≤ saturatingAdd (record.peerInfo.currentHeight algo) 20)
  | none => true

/-- The missing parents of a request that are not too old for its peer. -/
def recentParents (s : Service S) (request : SyncMissingBlocks) : List (Nat × FixedHash) :=
  let peerHeight :=
    match s.networkPeerStore.get request.peer with
    | some record => record.peerInfo.currentHeight request.algo
    | none => 0
  request.missingParents.filter fun parent => decide (peerHeight - 10 - s.shareWindow * 2 ≤ parent.1)

def stillMissing (s : Service S) (request : SyncMissingBlocks) : List (Nat × FixedHash) :=
  let missingParents := s.recentParents request
  let blocksAlreadyReceived := sc.doBlocksExist (s.shareChain request.algo) missingParents
  missingParents.filter fun parent => !blocksAlreadyReceived.contains parent

/-- The peers that a request for missing blocks goes to: the peer that sent the blocks, or after a
notification every connected peer that is high enough. -/
def peersToAsk (s : Service S) (request : SyncMissingBlocks)
    (missingParents : List (Nat × FixedHash)) : List PeerId :=
  if request.isFromNewBlockNotify then
    let minHeight := ((missingParents.map (·.1)).min?).getD 0
    env.connectedPeers.filter (s.mayHave request.algo minHeight)
  else [request.peer]

def syncMissingBlocks (request : SyncMissingBlocks) (s : Service S) : Service S × List Effect :=
  if s.config.maxMissingBlocksSyncDepth < request.depth + 1 then (s, [])
  else
    let missingParents := s.stillMissing sc request
    if missingParents.isEmpty then (s, [])
    else
      s.requestFromPeers request.algo missingParents request.depth
        (s.peersToAsk env request missingParents)

/-! ### Catch-up -/

/-- Take a sync out of the syncs in progress of an algorithm, by its request. Request ids are
distinct, so there is at most one. -/
def releaseFrom (algo : PowAlgorithm) (requestId : OutboundRequestId) (s : Service S) :
    Option (Service S × OwnedSemaphorePermit) :=
  ((s.inProgressSyncs algo).values.find? fun sync => sync.requestId = requestId).map fun sync =>
    ({ s with
      lastFailedPeer := Function.update s.lastFailedPeer algo none
      inProgressSyncs :=
        Function.update s.inProgressSyncs algo ((s.inProgressSyncs algo).erase sync.peer) },
      sync.permit)

def releaseCatchupSyncPermit (requestId : OutboundRequestId) (s : Service S) :
    Service S × Option OwnedSemaphorePermit :=
  match (s.releaseFrom .randomX requestId).or (s.releaseFrom .sha3x requestId) with
  | some (s, permit) => (s, some permit)
  | none => (s, none)

def sortedBlocks (response : CatchUpSyncResponse) : List P2Block :=
  (response.blocks.map (·.received)).insertionSort fun a b => a.height ≤ b.height

def handleCatchUpSyncResponse (response : CatchUpSyncResponse) (permit : Option OwnedSemaphorePermit)
    (s : Service S) : Service S × List Effect :=
  if response.version ≠ protocolVersion then (s.dropPermit permit, [])
  else
    let algo := messageAlgo response.algo
    let s := { s with
      lastSyncRequestedBlock := Function.update s.lastSyncRequestedBlock algo none }
    if response.blocks.isEmpty then
      (s.dropPermit permit, [.disconnect response.peerId, .moveToBlacklist response.peerId])
    else
      (s, [.spawn
        { algo := algo
          peer := response.peerId
          stage := .sending (sortedBlocks response)
          mustContinueSync := !response.blocks.any fun block => block.hash = response.tip.2
          lastBlockFromThem :=
            (sortedBlocks response).getLast?.map fun block => (block.height, block.hash)
          theirHeight := response.tip.1
          theirPow := response.achievedPow.getD 0
          permit := permit }])

/-- `LruCache::put` on the tips of an algorithm -/
def putTip (s : Service S) (algo : PowAlgorithm) (peer : PeerId) (tip : Nat × FixedHash) : Service S :=
  { s with
    recentSyncedTips := Function.update s.recentSyncedTips algo
      (((peer, tip) :: (s.recentSyncedTips algo).filter (·.1 ≠ peer)).take
        s.config.numSyncTipsToKeep) }

def finishCatchUp (task : CatchUpTask) (mustContinueSync : Bool) (s : Service S) :
    Service S × List Effect :=
  if mustContinueSync &&
      ((s.networkPeerStore.numCatchUps task.peer).map fun n => decide (n < maxCatchUpAttempts)).getD
        true then
    ({ s with
      networkPeerStore := s.networkPeerStore.addCatchUpAttempt task.peer
      areWeSynced := Function.update s.areWeSynced task.algo false },
      [.send (.performCatchUpSync
        { algo := task.algo
          peer := task.peer
          lastBlockFromThem := task.lastBlockFromThem
          theirHeight := task.theirHeight
          permit := task.permit })])
  else
    ({ s.dropPermit task.permit with
      networkPeerStore := s.networkPeerStore.resetCatchUpAttempts task.peer }, [])

def stepTask (task : CatchUpTask) (s : Service S) :
    Service S × List Effect × Option CatchUpTask :=
  match task.stage with
  | .sending (block :: blocks) =>
    (s, [.send (.addSyncedBlock task.algo block task.peer 0)],
      some { task with stage := .sending blocks })
  | .sending [] =>
    ((task.lastBlockFromThem.map (s.putTip task.algo task.peer)).getD s, [],
      some { task with stage := .comparing })
  | .comparing =>
    (s, [], some { task with
      stage := .finishing (task.mustContinueSync &&
        decide (sc.getTotalChainPow (s.shareChain task.algo) < task.theirPow)) })
  | .finishing mustContinueSync =>
    let (s, effects) := s.finishCatchUp task mustContinueSync
    (s, effects, none)

/-- What a catch-up request asks from: the last block received and, unless a sync goes on, the
blocks this node has. -/
def catchUpBlocks (s : Service S) (algo : PowAlgorithm)
    (lastBlockFromThem lastProgress : Option (Nat × FixedHash)) :
    List (Nat × FixedHash) × Option (Nat × FixedHash) :=
  match lastBlockFromThem with
  | some last => ([], some last)
  | none => (sc.createCatchupSyncBlocks (s.shareChain algo) catchUpSyncBlocksInIHave, lastProgress)

def sendCatchUp (request : PerformCatchUpSync) (permit : OwnedSemaphorePermit)
    (lastProgress : Option (Nat × FixedHash)) (s : Service S) : Service S × List Effect :=
  let algo := request.algo
  let (iHaveBlocks, lastBlockFromThem) := s.catchUpBlocks sc algo request.lastBlockFromThem lastProgress
  let iHaveBlocks := ((s.recentSyncedTips algo).map (·.2)).reverse ++ iHaveBlocks
  let s := { s with
    lastSyncRequestedBlock := Function.update s.lastSyncRequestedBlock algo lastBlockFromThem }
  match sc.getTip (s.shareChain algo) with
  | .error _ => (s.dropPermit (some permit), [])
  | .ok tip =>
    let areWeSynced :=
      if (tip.map (·.1)).getD 0 < request.theirHeight - 10 then
        Function.update s.areWeSynced algo false
      else s.areWeSynced
    ({ s with
        areWeSynced := areWeSynced
        nextCatchUpSyncId := s.nextCatchUpSyncId + 1
        inProgressSyncs := Function.update s.inProgressSyncs algo
          ((s.inProgressSyncs algo).insert ⟨request.peer, s.nextCatchUpSyncId, permit⟩)
        networkPeerStore :=
          s.networkPeerStore.updateLastSyncAttempt env.instant request.peer algo },
      [.requestCatchUp s.nextCatchUpSyncId request.peer (.new algo iHaveBlocks lastBlockFromThem)])

def performCatchUpSync (request : PerformCatchUpSync) (s : Service S) : Service S × List Effect :=
  let algo := request.algo
  if s.networkPeerStore.isBlacklisted request.peer then (s.dropPermit request.permit, [])
  else if s.lastFailedPeer algo = some request.peer then
    ({ s.dropPermit request.permit with
      lastFailedPeer := Function.update s.lastFailedPeer algo none }, [])
  else
    let lastProgress := s.lastSyncRequestedBlock algo
    let s := { s with
      lastSyncRequestedBlock := Function.update s.lastSyncRequestedBlock algo none }
    if (s.inProgressSyncs algo).contains request.peer then (s.dropPermit request.permit, [])
    else
      match request.permit with
      | some permit => s.sendCatchUp sc env request permit lastProgress
      | none =>
        match s.tryAcquire algo with
        | none => (s, [])
        | some (s, permit) => s.sendCatchUp sc env request permit lastProgress

/-! ### The queue -/

def addSyncedBlock (algo : PowAlgorithm) (block : P2Block) (sourcePeer : PeerId) (depth : Nat)
    (s : Service S) : Service S × List Effect :=
  if s.networkPeerStore.isBlacklisted sourcePeer then (s, [])
  else
    match sc.addSyncedBlocks env [block] (s.shareChain algo) with
    | .error (.panic _) chain => (s.withShareChain algo chain, [.panic])
    | .error (.error _) chain =>
      (s.withShareChain algo chain, [.disconnect sourcePeer, .moveToBlacklist sourcePeer])
    | .ok result chain =>
      let missingParents := result.intoMissingParentsVec env
      let s := s.withShareChain algo chain
      let maxKnownNetworkPow := (s.networkPeerStore.maxKnownNetworkHeight (env.ord 1) env.now algo).2.1
      ({ s with
        areWeSynced :=
          if maxKnownNetworkPow ≤ sc.getTotalChainPow chain then Function.update s.areWeSynced algo true
          else s.areWeSynced },
        if !missingParents.isEmpty && decide (depth < s.config.maxMissingBlocksSyncDepth) then
          [.send (.doSyncMissingBlocks
            { algo := algo
              peer := sourcePeer
              missingParents := missingParents
              isFromNewBlockNotify := false
              depth := depth + 1 })]
        else [])

def handleInnerRequest (request : InnerRequest) (s : Service S) : Service S × List Effect :=
  match request with
  | .doSyncMissingBlocks request => s.syncMissingBlocks sc env request
  | .performCatchUpSync request => s.performCatchUpSync sc env request
  | .addSyncedBlock algo block sourcePeer depth => s.addSyncedBlock sc env algo block sourcePeer depth

/-! ### Failures -/

/-- A closed connection may come back, so the peer is not grey listed for it. -/
def greyListAfter (peer : PeerId) (reason : String) : OutboundFailure → List Effect
  | .connectionClosed => []
  | _ => [.moveToGreyList peer reason]

def handleSyncMissingBlocksFailure (peer : PeerId) (requestId : OutboundRequestId)
    (error : OutboundFailure) (s : Service S) : Service S × List Effect :=
  ({ s with missingBlocksSyncRequestDepth := s.missingBlocksSyncRequestDepth.erase requestId },
    greyListAfter peer "ShareChainError during share chain sync" error)

/-- End the sync of an algorithm with a peer if it is that of the request. -/
def failSync (peer : PeerId) (requestId : OutboundRequestId) (s : Service S) (algo : PowAlgorithm) :
    Service S :=
  match ((s.inProgressSyncs algo).find? peer).filter fun sync => sync.requestId = requestId with
  | none => s
  | some sync =>
    { s.dropPermit (some sync.permit) with
      inProgressSyncs := Function.update s.inProgressSyncs algo ((s.inProgressSyncs algo).erase peer)
      lastFailedPeer := Function.update s.lastFailedPeer algo (some peer) }

def handleCatchUpSyncFailure (peer : PeerId) (requestId : OutboundRequestId)
    (error : OutboundFailure) (s : Service S) : Service S × List Effect :=
  ((s.failSync peer requestId .randomX).failSync peer requestId .sha3x,
    greyListAfter peer "ShareChainError during catch up sync" error)

/-! ### The swarm -/

/-- A peer on the blacklist is disconnected, a seed peer that was dialed is noted. -/
def handleConnectionEstablished (peer : PeerId) (isDialer : Bool) (s : Service S) :
    Service S × List Effect :=
  if s.networkPeerStore.isBlacklisted peer then (s, [.disconnect peer])
  else if isDialer && s.networkPeerStore.isSeedPeer peer && !s.dialedSeedPeers.contains peer then
    ({ s with dialedSeedPeers := peer :: s.dialedSeedPeers }, [])
  else (s, [])

def handlePeerIdentified (peer : PeerId) (supportsCatchUpSync : Bool) (s : Service S) : List Effect :=
  if peer = s.localPeerId || s.config.isSeedPeer || supportsCatchUpSync then []
  else [.disconnect peer]

/-- The answer to a request for missing blocks counts only if the request is known. -/
def handleShareChainSyncResponse (requestId : OutboundRequestId)
    (response : Except String SyncMissingBlocksResponse) (s : Service S) : Service S × List Effect :=
  match s.missingBlocksSyncRequestDepth.find? requestId with
  | none => (s, [])
  | some (_, depth) =>
    ({ s with missingBlocksSyncRequestDepth := s.missingBlocksSyncRequestDepth.erase requestId },
      match response with
      | .ok response => handleSyncMissingBlocksResponse response depth
      | .error _ => [])

def handleCatchUpSyncEvent (requestId : OutboundRequestId)
    (response : Except String CatchUpSyncResponse) (s : Service S) : Service S × List Effect :=
  let (s, permit) := s.releaseCatchupSyncPermit requestId
  match response with
  | .ok response => s.handleCatchUpSyncResponse response permit
  | .error _ => (s.dropPermit permit, [])

def handleEvent (event : SwarmEvent) (s : Service S) : Service S × List Effect :=
  match event with
  | .connectionEstablished peer isDialer => s.handleConnectionEstablished peer isDialer
  -- there are a lot of cancelled errors, so transport errors are ignored
  | .outgoingConnectionError peer isTransport =>
    (s, if isTransport then [] else [.moveToGreyList peer "Outgoing connection error"])
  | .gossip message propagationSource =>
    let (s, effects, _) := s.handleNewGossipsubMessage sc env message propagationSource
    (s, effects)
  | .metaDataRequest _ request => (s.handleMetaDataExchangeRequest env request, [])
  | .metaDataResponse _ (.ok response) => s.handleMetaDataExchangeResponse sc env response
  | .metaDataResponse _ (.error _) => (s, [])
  | .directPeerExchangeRequest _ request => (s.handleDirectPeerExchangeRequest env request, [])
  | .directPeerExchangeResponse _ (.ok response) => s.handleDirectPeerExchangeResponse env response
  | .directPeerExchangeResponse _ (.error _) => (s, [])
  | .shareChainSyncResponse _ requestId response => s.handleShareChainSyncResponse requestId response
  | .shareChainSyncFailure peer requestId error => s.handleSyncMissingBlocksFailure peer requestId error
  | .catchUpSyncResponse _ requestId response => s.handleCatchUpSyncEvent requestId response
  | .catchUpSyncFailure peer requestId error => s.handleCatchUpSyncFailure peer requestId error
  | .identified peer supportsCatchUpSync => (s, s.handlePeerIdentified peer supportsCatchUpSync)
  | .ping peer =>
    ({ s with networkPeerStore := s.networkPeerStore.setLastPing peer env.now }, [])

end Service

end ShaP2Pool
