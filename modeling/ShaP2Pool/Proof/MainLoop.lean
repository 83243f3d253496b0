import ShaP2Pool.Proof.Run
import ShaP2Pool.Server.MainLoop

/-!
# One step of the p2p service

What a step can do to the service with its queue and tasks. The effects of a handler only append to
the queue and to the tasks, note punishments and the causes of requests, and change the peer store
of the service, so a property of the requests in flight is kept by a step if the handler keeps it
and its effects have it. `Net.step_induction` splits a step into its handlers once for every
invariant.
-/

namespace ShaP2Pool

variable {S : Type}

def Effect.sent : Effect → Option InnerRequest
  | .send request => some request
  | _ => none

def Effect.spawned : Effect → Option CatchUpTask
  | .spawn task => some task
  | _ => none

def Effect.punishes : Effect → Option PeerId
  | .moveToGreyList peer _ => some peer
  | .moveToBlacklist peer => some peer
  | .disconnect peer => some peer
  | _ => none

def Effect.asked : Effect → Option OutboundRequestId
  | .requestMissingBlocks id _ _ => some id
  | _ => none

def SwarmEvent.EndsCatchUp : SwarmEvent → Prop
  | .catchUpSyncResponse _ _ _ => True
  | .catchUpSyncFailure _ _ _ => True
  | _ => False

def SwarmEvent.EndsShareChainSync : SwarmEvent → Prop
  | .shareChainSyncResponse _ _ _ => True
  | .shareChainSyncFailure _ _ _ => True
  | _ => False

theorem Effect.sent_eq_some_iff {effect : Effect} {request : InnerRequest} :
    effect.sent = some request ↔ effect = .send request := by
  cases effect <;> simp [Effect.sent]

theorem Effect.spawned_eq_some_iff {effect : Effect} {task : CatchUpTask} :
    effect.spawned = some task ↔ effect = .spawn task := by
  cases effect <;> simp [Effect.spawned]

namespace Service

structure Slots where
  config : Config
  syncSemaphore : PowAlgorithm → Nat
  inProgressSyncs : PowAlgorithm → KeyedMap InProgressSync.peer

def slots (s : Service S) : Slots := ⟨s.config, s.syncSemaphore, s.inProgressSyncs⟩

structure Depths where
  config : Config
  missingBlocksSyncRequestDepth : KeyedMap (fun entry : OutboundRequestId × Nat => entry.1)
  nextShareChainSyncId : OutboundRequestId

def depths (s : Service S) : Depths :=
  ⟨s.config, s.missingBlocksSyncRequestDepth, s.nextShareChainSyncId⟩

/-- The requests of a service, which most handlers leave alone. -/
def requests (s : Service S) : Slots × Depths := (s.slots, s.depths)

variable {s s' : Service S} (sc : ShareChain S) (env : Env)

theorem slots_of_requests (h : s'.requests = s.requests) : s'.slots = s.slots := congrArg Prod.fst h

theorem depths_of_requests (h : s'.requests = s.requests) : s'.depths = s.depths :=
  congrArg Prod.snd h

/-! ### Handlers that leave the requests alone -/

@[simp] theorem requests_withShareChain (algo : PowAlgorithm) (chain : S) :
    (s.withShareChain algo chain).requests = s.requests := rfl

@[simp] theorem requests_addPeer (payload : PeerInfo) (peer : PeerId) :
    (s.addPeer env payload peer).1.requests = s.requests := by
  rw [addPeer]
  split_ifs <;> rfl

@[simp] theorem requests_addPeers (payloads : List PeerInfo) :
    (s.addPeers env payloads).1.requests = s.requests := by
  rw [addPeers]
  apply List.foldlRecOn payloads _ (motive := fun (result : Service S × Nat) =>
    result.1.requests = s.requests) rfl
  intro result hresult payload _
  cases payload.peerId with
  | none => exact hresult
  | some peer => exact (requests_addPeer env _ peer).trans hresult

theorem dialedSeedPeers_addPeers (payloads : List PeerInfo) :
    (s.addPeers env payloads).1.dialedSeedPeers = s.dialedSeedPeers := by
  rw [addPeers]
  apply List.foldlRecOn payloads _ (motive := fun (result : Service S × Nat) =>
    result.1.dialedSeedPeers = s.dialedSeedPeers) rfl
  intro result hresult payload _
  have hadd : ∀ info peer, (result.1.addPeer env info peer).1.dialedSeedPeers =
      result.1.dialedSeedPeers := by
    intro info peer
    rw [addPeer]
    split_ifs <;> rfl
  cases payload.peerId with
  | none => exact hresult
  | some peer => exact (hadd _ peer).trans hresult

theorem requests_handleDirectPeerExchangeRequest (request : DirectPeerInfoRequest) :
    (s.handleDirectPeerExchangeRequest env request).requests = s.requests := by
  rw [handleDirectPeerExchangeRequest]
  split_ifs
  · rfl
  · cases request.peerId <;> simp

theorem requests_handleMetaDataExchangeRequest (request : MetaDataRequest) :
    (s.handleMetaDataExchangeRequest env request).requests = s.requests := by
  rw [handleMetaDataExchangeRequest]
  split_ifs
  · rfl
  · cases request.peerId <;> simp

theorem requests_handleDirectPeerExchangeResponse (response : DirectPeerInfoResponse) :
    (s.handleDirectPeerExchangeResponse env response).1.requests = s.requests := by
  rw [handleDirectPeerExchangeResponse]
  have hadd := requests_addPeers (s := s) env response.bestPeers
  cases response.peerId with
  | none => rfl
  | some peerId =>
    simp only
    split_ifs
    · rfl
    · exact hadd
    · exact hadd
    · exact hadd

theorem requests_handleMetaDataExchangeResponse (response : MetaDataResponse) :
    (s.handleMetaDataExchangeResponse sc env response).1.requests = s.requests := by
  rw [handleMetaDataExchangeResponse]
  cases response.peerId with
  | none => rfl
  | some peerId =>
    simp only
    split_ifs <;> simp

theorem requests_handleNotifyNewTipBlock (payload : NotifyNewTipBlock) (propagationSource : PeerId) :
    (s.handleNotifyNewTipBlock sc env payload propagationSource).1.requests = s.requests := by
  rw [handleNotifyNewTipBlock]
  split
  · rfl
  · simp only
    split
    · rfl
    · rfl
    · split_ifs <;> rfl

theorem requests_handleNewGossipsubMessage (message : GossipMessage) (propagationSource : PeerId) :
    (s.handleNewGossipsubMessage sc env message propagationSource).1.requests = s.requests := by
  rw [handleNewGossipsubMessage]
  split
  · rfl
  · rfl
  · rfl
  · split_ifs <;> simp
  · rfl
  · exact requests_handleNotifyNewTipBlock sc env _ _

theorem requests_addSyncedBlock (algo : PowAlgorithm) (block : P2Block) (sourcePeer : PeerId)
    (depth : Nat) : (s.addSyncedBlock sc env algo block sourcePeer depth).1.requests = s.requests := by
  rw [addSyncedBlock]
  split_ifs
  · rfl
  · split <;> rfl

theorem requests_handleConnectionEstablished (peer : PeerId) (isDialer : Bool) :
    (s.handleConnectionEstablished peer isDialer).1.requests = s.requests := by
  rw [handleConnectionEstablished]
  split_ifs <;> rfl

/-! ### Missing blocks leave the permits alone -/

theorem slots_requestFromPeers {algo : PowAlgorithm} {missingParents : List (Nat × FixedHash)}
    {depth : Nat} (peers : List PeerId) :
    (requestFromPeers algo missingParents depth peers s).1.slots = s.slots := by
  induction peers generalizing s with
  | nil => rfl
  | cons asked peers ih => exact ih

theorem slots_syncMissingBlocks (request : SyncMissingBlocks) :
    (s.syncMissingBlocks sc env request).1.slots = s.slots := by
  rw [syncMissingBlocks]
  dsimp only
  split_ifs
  · rfl
  · rfl
  · exact slots_requestFromPeers _

theorem slots_handleShareChainSyncResponse (requestId : OutboundRequestId)
    (response : Except String SyncMissingBlocksResponse) :
    (s.handleShareChainSyncResponse requestId response).1.slots = s.slots := by
  rw [handleShareChainSyncResponse]
  split <;> rfl

/-! ### Catch-up leaves the depths alone -/

@[simp] theorem depths_dropPermit (permit : Option OwnedSemaphorePermit) :
    (s.dropPermit permit).depths = s.depths := by
  cases permit <;> rfl

theorem depths_tryAcquire {algo : PowAlgorithm} {permit : OwnedSemaphorePermit}
    (h : s.tryAcquire algo = some (s', permit)) : s'.depths = s.depths := by
  rw [tryAcquire] at h
  split_ifs at h
  rw [← (Prod.mk.inj (Option.some.inj h)).1]
  rfl

theorem depths_sendCatchUp (request : PerformCatchUpSync) (permit : OwnedSemaphorePermit)
    (lastProgress : Option (Nat × FixedHash)) :
    (s.sendCatchUp sc env request permit lastProgress).1.depths = s.depths := by
  simp only [sendCatchUp]
  split
  · rw [depths_dropPermit]
    rfl
  · rfl

theorem depths_performCatchUpSync (request : PerformCatchUpSync) :
    (s.performCatchUpSync sc env request).1.depths = s.depths := by
  rw [performCatchUpSync]
  dsimp only
  split_ifs
  · exact depths_dropPermit _
  · exact depths_dropPermit _
  · exact depths_dropPermit _
  · split
    · exact depths_sendCatchUp sc env _ _ _
    · split
      · rfl
      · rename_i hacquire
        have htaken := depths_tryAcquire hacquire
        exact (depths_sendCatchUp sc env _ _ _).trans htaken

theorem depths_releaseCatchupSyncPermit (requestId : OutboundRequestId) :
    (s.releaseCatchupSyncPermit requestId).1.depths = s.depths := by
  have hrelease : ∀ algo released, s.releaseFrom algo requestId = some released →
      released.1.depths = s.depths := by
    intro algo released h
    rw [releaseFrom, Option.map_eq_some_iff] at h
    obtain ⟨sync, -, rfl⟩ := h
    rfl
  rw [releaseCatchupSyncPermit]
  split
  · rename_i released hreleased
    obtain h | ⟨-, h⟩ := Option.or_eq_some_iff.mp hreleased
    · exact hrelease _ _ h
    · exact hrelease _ _ h
  · rfl

theorem depths_handleCatchUpSyncEvent (requestId : OutboundRequestId)
    (response : Except String CatchUpSyncResponse) :
    (s.handleCatchUpSyncEvent requestId response).1.depths = s.depths := by
  rw [handleCatchUpSyncEvent]
  have hrelease := depths_releaseCatchupSyncPermit (s := s) requestId
  cases response with
  | error _ => exact (depths_dropPermit _).trans hrelease
  | ok response =>
    simp only [handleCatchUpSyncResponse]
    split_ifs
    · exact (depths_dropPermit _).trans hrelease
    · exact (depths_dropPermit _).trans hrelease
    · exact hrelease

theorem depths_failSync (peer : PeerId) (requestId : OutboundRequestId) (algo : PowAlgorithm) :
    (s.failSync peer requestId algo).depths = s.depths := by
  rw [failSync]
  split
  · rfl
  · exact depths_dropPermit _

theorem depths_stepTask (task : CatchUpTask) : (s.stepTask sc task).1.depths = s.depths := by
  rw [stepTask]
  split
  · rfl
  · cases task.lastBlockFromThem <;> rfl
  · rfl
  · dsimp only [finishCatchUp]
    split_ifs
    · rfl
    · exact depths_dropPermit _

/-! ### The configuration -/

theorem config_of_slots (h : s'.slots = s.slots) : s'.config = s.config := congrArg Slots.config h

theorem config_of_depths (h : s'.depths = s.depths) : s'.config = s.config :=
  congrArg Depths.config h

theorem config_of_requests (h : s'.requests = s.requests) : s'.config = s.config :=
  config_of_slots (slots_of_requests h)

theorem requests_handleEvent {event : SwarmEvent} (hcatchUp : ¬event.EndsCatchUp)
    (hmissing : ¬event.EndsShareChainSync) :
    (s.handleEvent sc env event).1.requests = s.requests := by
  cases event with
  | connectionEstablished peer isDialer => exact requests_handleConnectionEstablished peer isDialer
  | outgoingConnectionError _ _ => rfl
  | gossip message propagationSource =>
    exact requests_handleNewGossipsubMessage sc env message propagationSource
  | metaDataRequest _ request => exact requests_handleMetaDataExchangeRequest env request
  | metaDataResponse _ response =>
    cases response with
    | error _ => rfl
    | ok response => exact requests_handleMetaDataExchangeResponse sc env response
  | directPeerExchangeRequest _ request => exact requests_handleDirectPeerExchangeRequest env request
  | directPeerExchangeResponse _ response =>
    cases response with
    | error _ => rfl
    | ok response => exact requests_handleDirectPeerExchangeResponse env response
  | shareChainSyncResponse _ _ _ => exact absurd trivial hmissing
  | shareChainSyncFailure _ _ _ => exact absurd trivial hmissing
  | catchUpSyncResponse _ _ _ => exact absurd trivial hcatchUp
  | catchUpSyncFailure _ _ _ => exact absurd trivial hcatchUp
  | identified _ _ => rfl
  | ping _ => rfl

theorem slots_handleEvent {event : SwarmEvent} (hcatchUp : ¬event.EndsCatchUp) :
    (s.handleEvent sc env event).1.slots = s.slots := by
  by_cases hmissing : event.EndsShareChainSync
  · cases event with
    | shareChainSyncResponse _ requestId response =>
      exact slots_handleShareChainSyncResponse requestId response
    | shareChainSyncFailure _ _ _ => rfl
    | _ => exact hmissing.elim
  · exact slots_of_requests (requests_handleEvent sc env hcatchUp hmissing)

theorem depths_handleEvent {event : SwarmEvent} (hmissing : ¬event.EndsShareChainSync) :
    (s.handleEvent sc env event).1.depths = s.depths := by
  by_cases hcatchUp : event.EndsCatchUp
  · cases event with
    | catchUpSyncResponse _ requestId response =>
      exact depths_handleCatchUpSyncEvent requestId response
    | catchUpSyncFailure peer requestId _ =>
      exact (depths_failSync peer requestId _).trans (depths_failSync peer requestId _)
    | _ => exact hcatchUp.elim
  · exact depths_of_requests (requests_handleEvent sc env hcatchUp hmissing)

theorem config_handleEvent (event : SwarmEvent) : (s.handleEvent sc env event).1.config = s.config := by
  by_cases hcatchUp : event.EndsCatchUp
  · have hmissing : ¬event.EndsShareChainSync := by
      cases event with
      | catchUpSyncResponse _ _ _ => exact id
      | catchUpSyncFailure _ _ _ => exact id
      | _ => exact hcatchUp.elim
    exact config_of_depths (depths_handleEvent sc env hmissing)
  · exact config_of_slots (slots_handleEvent sc env hcatchUp)

theorem config_handleInnerRequest (request : InnerRequest) :
    (s.handleInnerRequest sc env request).1.config = s.config := by
  cases request with
  | doSyncMissingBlocks request => exact config_of_slots (slots_syncMissingBlocks sc env request)
  | performCatchUpSync request => exact config_of_depths (depths_performCatchUpSync sc env request)
  | addSyncedBlock algo block sourcePeer depth =>
    exact config_of_requests (requests_addSyncedBlock sc env algo block sourcePeer depth)

/-! ### What the handlers do -/

def Refuses (s : Service S) (payload : NotifyNewTipBlock) : Prop :=
  s.screenNotify sc env payload = none ∧ ∃ error chain,
    sc.addSyncedBlocks env (payload.newBlocks.map (·.received)) (s.shareChain payload.algo) =
      .error (.error error) chain

inductive EventEffect (s : Service S) : SwarmEvent → Effect → Prop
  | blacklisted (peer : PeerId) (isDialer : Bool) :
    EventEffect s (.connectionEstablished peer isDialer) (.disconnect peer)
  | unreachable (peer : PeerId) (isTransport : Bool) (reason : String) :
    EventEffect s (.outgoingConnectionError peer isTransport) (.moveToGreyList peer reason)
  | unreadable (source propagationSource : PeerId) (reason : String) :
    EventEffect s (.gossip ⟨some source, .blockNotify none⟩ propagationSource)
      (.moveToGreyList source reason)
  | refused (source propagationSource : PeerId) (payload : NotifyNewTipBlock) (reason : String)
    (hrefuses : s.Refuses sc env payload) :
    EventEffect s (.gossip ⟨some source, .blockNotify (some payload)⟩ propagationSource)
      (.moveToGreyList payload.peerId reason)
  | panic (source propagationSource : PeerId) (payload : NotifyNewTipBlock) :
    EventEffect s (.gossip ⟨some source, .blockNotify (some payload)⟩ propagationSource) .panic
  | parentsMissing (source propagationSource : PeerId) (payload : NotifyNewTipBlock)
    (request : SyncMissingBlocks) (hdepth : request.depth = 0) :
    EventEffect s (.gossip ⟨some source, .blockNotify (some payload)⟩ propagationSource)
      (.send (.doSyncMissingBlocks request))
  | metaDataOutdated (peer named : PeerId) (response : MetaDataResponse)
    (hnamed : response.peerId = some named) (hversion : response.info.version ≠ protocolVersion) :
    EventEffect s (.metaDataResponse peer (.ok response)) (.disconnect named)
  | catchUp (peer : PeerId) (response : MetaDataResponse) (request : PerformCatchUpSync)
    (hpermit : request.permit = none) :
    EventEffect s (.metaDataResponse peer (.ok response)) (.send (.performCatchUpSync request))
  | peerInfoOutdated (peer named : PeerId) (response : DirectPeerInfoResponse)
    (hnamed : response.peerId = some named) (hversion : response.info.version ≠ protocolVersion) :
    EventEffect s (.directPeerExchangeResponse peer (.ok response)) (.disconnect named)
  | seedPeer (peer named : PeerId) (response : DirectPeerInfoResponse)
    (hnamed : response.peerId = some named) (hdialed : named ∈ s.dialedSeedPeers) :
    EventEffect s (.directPeerExchangeResponse peer (.ok response)) (.disconnect named)
  | missingBlock (peer : PeerId) (requestId : OutboundRequestId)
    (response : SyncMissingBlocksResponse) (block : P2Block) (depth : Nat)
    (hrequest : (requestId, depth) ∈ s.missingBlocksSyncRequestDepth.values)
    (hversion : response.version = protocolVersion) (hblock : block ∈ response.blocks) :
    EventEffect s (.shareChainSyncResponse peer requestId (.ok response))
      (.send (.addSyncedBlock (messageAlgo response.algo) block.received response.peerId depth))
  | shareChainSyncFailed (peer : PeerId) (requestId : OutboundRequestId) (error : OutboundFailure)
    (reason : String) :
    EventEffect s (.shareChainSyncFailure peer requestId error) (.moveToGreyList peer reason)
  | noBlocks (peer : PeerId) (requestId : OutboundRequestId) (response : CatchUpSyncResponse)
    (hversion : response.version = protocolVersion) :
    EventEffect s (.catchUpSyncResponse peer requestId (.ok response)) (.disconnect response.peerId)
  | noBlocksListed (peer : PeerId) (requestId : OutboundRequestId) (response : CatchUpSyncResponse)
    (hversion : response.version = protocolVersion) :
    EventEffect s (.catchUpSyncResponse peer requestId (.ok response))
      (.moveToBlacklist response.peerId)
  | blocks (peer : PeerId) (requestId : OutboundRequestId) (response : CatchUpSyncResponse)
    (task : CatchUpTask) (hversion : response.version = protocolVersion)
    (hblocks : response.blocks ≠ []) (hpeer : task.peer = response.peerId)
    (halgo : task.algo = messageAlgo response.algo)
    (hpermit : task.permit = (s.releaseCatchupSyncPermit requestId).2) :
    EventEffect s (.catchUpSyncResponse peer requestId (.ok response)) (.spawn task)
  | catchUpSyncFailed (peer : PeerId) (requestId : OutboundRequestId) (error : OutboundFailure)
    (reason : String) :
    EventEffect s (.catchUpSyncFailure peer requestId error) (.moveToGreyList peer reason)
  | unsupported (peer : PeerId) (supportsCatchUpSync : Bool) :
    EventEffect s (.identified peer supportsCatchUpSync) (.disconnect peer)

inductive RequestEffect (s : Service S) : InnerRequest → Effect → Prop
  | missingBlocks (request : SyncMissingBlocks) (id : OutboundRequestId) (peer : PeerId)
    (asked : SyncMissingBlocksRequest) :
    RequestEffect s (.doSyncMissingBlocks request) (.requestMissingBlocks id peer asked)
  | catchUp (request : PerformCatchUpSync) (id : OutboundRequestId) (peer : PeerId)
    (asked : CatchUpSyncRequest) :
    RequestEffect s (.performCatchUpSync request) (.requestCatchUp id peer asked)
  | panic (algo : PowAlgorithm) (block : P2Block) (sourcePeer : PeerId) (depth : Nat) :
    RequestEffect s (.addSyncedBlock algo block sourcePeer depth) .panic
  | refused (algo : PowAlgorithm) (block : P2Block) (sourcePeer : PeerId) (depth : Nat) :
    RequestEffect s (.addSyncedBlock algo block sourcePeer depth) (.disconnect sourcePeer)
  | refusedListed (algo : PowAlgorithm) (block : P2Block) (sourcePeer : PeerId) (depth : Nat) :
    RequestEffect s (.addSyncedBlock algo block sourcePeer depth) (.moveToBlacklist sourcePeer)
  | parentsMissing (algo : PowAlgorithm) (block : P2Block) (sourcePeer : PeerId) (depth : Nat)
    (request : SyncMissingBlocks) (hdepth : depth < s.config.maxMissingBlocksSyncDepth)
    (hrequest : request.depth = depth + 1) :
    RequestEffect s (.addSyncedBlock algo block sourcePeer depth) (.send (.doSyncMissingBlocks request))

inductive TaskEffect (task : CatchUpTask) : Effect → Prop
  | block (block : P2Block) : TaskEffect task (.send (.addSyncedBlock task.algo block task.peer 0))
  | goOn (request : PerformCatchUpSync) (halgo : request.algo = task.algo)
    (hpermit : request.permit = task.permit) : TaskEffect task (.send (.performCatchUpSync request))

theorem eventEffect_handleNotifyNewTipBlock {effect : Effect} {payload : NotifyNewTipBlock}
    {source propagationSource : PeerId}
    (hmem : effect ∈ (s.handleNotifyNewTipBlock sc env payload propagationSource).2.1) :
    EventEffect sc env s (.gossip ⟨some source, .blockNotify (some payload)⟩ propagationSource)
      effect := by
  rw [handleNotifyNewTipBlock] at hmem
  split at hmem
  · exact absurd hmem List.not_mem_nil
  · rename_i hscreen
    dsimp only at hmem
    split at hmem
    · rw [List.mem_singleton.mp hmem]
      exact .panic source propagationSource payload
    · rename_i error chain hadd
      rw [List.mem_singleton.mp hmem]
      exact .refused source propagationSource payload _ ⟨hscreen, error, chain, hadd⟩
    · split_ifs at hmem
      · exact absurd hmem List.not_mem_nil
      · exact absurd hmem List.not_mem_nil
      · exact absurd hmem List.not_mem_nil
      · rw [List.mem_singleton.mp hmem]
        exact .parentsMissing source propagationSource payload _ rfl

theorem eventEffect_handleNewGossipsubMessage {effect : Effect} {message : GossipMessage}
    {propagationSource : PeerId}
    (hmem : effect ∈ (s.handleNewGossipsubMessage sc env message propagationSource).2.1) :
    EventEffect sc env s (.gossip message propagationSource) effect := by
  obtain ⟨source, payload⟩ := message
  cases source with
  | none => exact absurd hmem List.not_mem_nil
  | some source =>
    match payload with
    | .unknownTopic => exact absurd hmem List.not_mem_nil
    | .peerInfo none => exact absurd hmem List.not_mem_nil
    | .peerInfo (some info) =>
      simp only [handleNewGossipsubMessage] at hmem
      split_ifs at hmem <;> exact absurd hmem List.not_mem_nil
    | .blockNotify none =>
      rw [List.mem_singleton.mp hmem]
      exact .unreadable source propagationSource _
    | .blockNotify (some payload) => exact eventEffect_handleNotifyNewTipBlock sc env hmem

theorem eventEffect_handleMetaDataExchangeResponse {effect : Effect} {peer : PeerId}
    {response : MetaDataResponse}
    (hmem : effect ∈ (s.handleMetaDataExchangeResponse sc env response).2) :
    EventEffect sc env s (.metaDataResponse peer (.ok response)) effect := by
  rw [handleMetaDataExchangeResponse] at hmem
  split at hmem
  · exact absurd hmem List.not_mem_nil
  · rename_i named hnamed
    dsimp only at hmem
    split_ifs at hmem with hversion
    · rw [List.mem_singleton.mp hmem]
      exact .metaDataOutdated peer named response hnamed hversion
    · exact absurd hmem List.not_mem_nil
    · have hcatchUp : ∀ algo, effect ∈ catchUpOf sc response.info named
          (s.addPeer env response.info named).1 algo →
          EventEffect sc env s (.metaDataResponse peer (.ok response)) effect := by
        intro algo h
        rw [catchUpOf] at h
        split_ifs at h
        · rw [List.mem_singleton.mp h]
          exact .catchUp peer response _ rfl
        · exact absurd h List.not_mem_nil
      exact (List.mem_append.mp hmem).elim (hcatchUp _) (hcatchUp _)

theorem eventEffect_handleDirectPeerExchangeResponse {effect : Effect} {peer : PeerId}
    {response : DirectPeerInfoResponse}
    (hmem : effect ∈ (s.handleDirectPeerExchangeResponse env response).2) :
    EventEffect sc env s (.directPeerExchangeResponse peer (.ok response)) effect := by
  rw [handleDirectPeerExchangeResponse] at hmem
  split at hmem
  · exact absurd hmem List.not_mem_nil
  · rename_i named hnamed
    dsimp only at hmem
    split_ifs at hmem with hversion _ hdialed
    · rw [List.mem_singleton.mp hmem]
      exact .peerInfoOutdated peer named response hnamed hversion
    · exact absurd hmem List.not_mem_nil
    · rw [List.mem_singleton.mp hmem]
      rw [dialedSeedPeers_addPeers, List.contains_iff_mem] at hdialed
      exact .seedPeer peer named response hnamed hdialed
    · exact absurd hmem List.not_mem_nil

theorem eventEffect_handleShareChainSyncResponse {effect : Effect} {peer : PeerId}
    {requestId : OutboundRequestId} {response : Except String SyncMissingBlocksResponse}
    (hmem : effect ∈ (s.handleShareChainSyncResponse requestId response).2) :
    EventEffect sc env s (.shareChainSyncResponse peer requestId response) effect := by
  rw [handleShareChainSyncResponse] at hmem
  split at hmem
  · exact absurd hmem List.not_mem_nil
  · rename_i known depth hfind
    obtain rfl : known = requestId := KeyedMap.key_of_find? hfind
    cases response with
    | error _ => exact absurd hmem List.not_mem_nil
    | ok response =>
      simp only [handleSyncMissingBlocksResponse] at hmem
      split_ifs at hmem with hversion
      · exact absurd hmem List.not_mem_nil
      · obtain ⟨block, hblock, rfl⟩ := List.mem_map.mp hmem
        exact .missingBlock peer known response block depth (KeyedMap.mem_values_of_find? hfind)
          (not_not.mp hversion) hblock

theorem eventEffect_handleCatchUpSyncEvent {effect : Effect} {peer : PeerId}
    {requestId : OutboundRequestId} {response : Except String CatchUpSyncResponse}
    (hmem : effect ∈ (s.handleCatchUpSyncEvent requestId response).2) :
    EventEffect sc env s (.catchUpSyncResponse peer requestId response) effect := by
  rw [handleCatchUpSyncEvent] at hmem
  cases response with
  | error _ => exact absurd hmem List.not_mem_nil
  | ok response =>
    simp only [handleCatchUpSyncResponse] at hmem
    split_ifs at hmem with hversion hempty
    · exact absurd hmem List.not_mem_nil
    · obtain rfl | hmem := List.mem_cons.mp hmem
      · exact .noBlocks peer requestId response (not_not.mp hversion)
      · rw [List.mem_singleton.mp hmem]
        exact .noBlocksListed peer requestId response (not_not.mp hversion)
    · rw [List.mem_singleton.mp hmem]
      exact .blocks peer requestId response _ (not_not.mp hversion)
        (fun h => hempty (List.isEmpty_iff.mpr h)) rfl rfl rfl

theorem eventEffect_greyListAfter {effect : Effect} {peer : PeerId} {reason : String}
    {error : OutboundFailure} (hmem : effect ∈ greyListAfter peer reason error) :
    effect = .moveToGreyList peer reason := by
  cases error with
  | connectionClosed => exact absurd hmem List.not_mem_nil
  | _ => exact List.mem_singleton.mp hmem

theorem eventEffect_of_mem {effect : Effect} {event : SwarmEvent}
    (hmem : effect ∈ (s.handleEvent sc env event).2) : EventEffect sc env s event effect := by
  cases event with
  | connectionEstablished peer isDialer =>
    rw [handleEvent, handleConnectionEstablished] at hmem
    split_ifs at hmem
    · rw [List.mem_singleton.mp hmem]
      exact .blacklisted peer isDialer
    · exact absurd hmem List.not_mem_nil
    · exact absurd hmem List.not_mem_nil
  | outgoingConnectionError peer isTransport =>
    rw [handleEvent] at hmem
    dsimp only at hmem
    split_ifs at hmem
    · exact absurd hmem List.not_mem_nil
    · rw [List.mem_singleton.mp hmem]
      exact .unreachable peer isTransport _
  | gossip message propagationSource => exact eventEffect_handleNewGossipsubMessage sc env hmem
  | metaDataRequest _ _ => exact absurd hmem List.not_mem_nil
  | metaDataResponse _ response =>
    cases response with
    | error _ => exact absurd hmem List.not_mem_nil
    | ok response => exact eventEffect_handleMetaDataExchangeResponse sc env hmem
  | directPeerExchangeRequest _ _ => exact absurd hmem List.not_mem_nil
  | directPeerExchangeResponse _ response =>
    cases response with
    | error _ => exact absurd hmem List.not_mem_nil
    | ok response => exact eventEffect_handleDirectPeerExchangeResponse sc env hmem
  | shareChainSyncResponse _ _ _ => exact eventEffect_handleShareChainSyncResponse sc env hmem
  | shareChainSyncFailure peer requestId error =>
    rw [eventEffect_greyListAfter hmem]
    exact .shareChainSyncFailed peer requestId error _
  | catchUpSyncResponse _ _ _ => exact eventEffect_handleCatchUpSyncEvent sc env hmem
  | catchUpSyncFailure peer requestId error =>
    rw [eventEffect_greyListAfter hmem]
    exact .catchUpSyncFailed peer requestId error _
  | identified peer supportsCatchUpSync =>
    rw [handleEvent, handlePeerIdentified] at hmem
    dsimp only at hmem
    split_ifs at hmem
    · exact absurd hmem List.not_mem_nil
    · rw [List.mem_singleton.mp hmem]
      exact .unsupported peer supportsCatchUpSync
  | ping _ => exact absurd hmem List.not_mem_nil

theorem mem_requestFromPeers {effect : Effect} {algo : PowAlgorithm}
    {missingParents : List (Nat × FixedHash)} {depth : Nat} {peers : List PeerId}
    (hmem : effect ∈ (requestFromPeers algo missingParents depth peers s).2) :
    ∃ id peer asked, effect = .requestMissingBlocks id peer asked := by
  induction peers generalizing s with
  | nil => exact absurd hmem List.not_mem_nil
  | cons asked peers ih =>
    rw [requestFromPeers] at hmem
    obtain hfirst | hmore := List.mem_append.mp hmem
    · exact ⟨_, _, _, List.mem_singleton.mp hfirst⟩
    · exact ih hmore

theorem mem_sendCatchUp {effect : Effect} {request : PerformCatchUpSync}
    {permit : OwnedSemaphorePermit} {lastProgress : Option (Nat × FixedHash)}
    (hmem : effect ∈ (s.sendCatchUp sc env request permit lastProgress).2) :
    ∃ id peer asked, effect = .requestCatchUp id peer asked := by
  simp only [sendCatchUp] at hmem
  split at hmem
  · exact absurd hmem List.not_mem_nil
  · exact ⟨_, _, _, List.mem_singleton.mp hmem⟩

theorem mem_performCatchUpSync {effect : Effect} {request : PerformCatchUpSync}
    (hmem : effect ∈ (s.performCatchUpSync sc env request).2) :
    ∃ id peer asked, effect = .requestCatchUp id peer asked := by
  rw [performCatchUpSync] at hmem
  dsimp only at hmem
  split_ifs at hmem
  · exact absurd hmem List.not_mem_nil
  · exact absurd hmem List.not_mem_nil
  · exact absurd hmem List.not_mem_nil
  · split at hmem
    · exact mem_sendCatchUp sc env hmem
    · split at hmem
      · exact absurd hmem List.not_mem_nil
      · exact mem_sendCatchUp sc env hmem

theorem requestEffect_of_mem {effect : Effect} {request : InnerRequest}
    (hmem : effect ∈ (s.handleInnerRequest sc env request).2) : RequestEffect s request effect := by
  cases request with
  | doSyncMissingBlocks request =>
    rw [handleInnerRequest, syncMissingBlocks] at hmem
    dsimp only at hmem
    split_ifs at hmem
    · exact absurd hmem List.not_mem_nil
    · exact absurd hmem List.not_mem_nil
    · obtain ⟨id, peer, asked, rfl⟩ := mem_requestFromPeers hmem
      exact .missingBlocks request id peer asked
  | performCatchUpSync request =>
    obtain ⟨id, peer, asked, rfl⟩ := mem_performCatchUpSync sc env hmem
    exact .catchUp request id peer asked
  | addSyncedBlock algo block sourcePeer depth =>
    rw [handleInnerRequest, addSyncedBlock] at hmem
    split_ifs at hmem
    · exact absurd hmem List.not_mem_nil
    · split at hmem
      · rw [List.mem_singleton.mp hmem]
        exact .panic algo block sourcePeer depth
      · obtain rfl | hmem := List.mem_cons.mp hmem
        · exact .refused algo block sourcePeer depth
        · rw [List.mem_singleton.mp hmem]
          exact .refusedListed algo block sourcePeer depth
      · dsimp only at hmem
        split_ifs at hmem with hmissing
        · rw [List.mem_singleton.mp hmem]
          rw [Bool.and_eq_true, decide_eq_true_eq] at hmissing
          exact .parentsMissing algo block sourcePeer depth _ hmissing.2 rfl
        · exact absurd hmem List.not_mem_nil

theorem taskEffect_of_mem {effect : Effect} {task : CatchUpTask}
    (hmem : effect ∈ (s.stepTask sc task).2.1) : TaskEffect task effect := by
  rw [stepTask] at hmem
  split at hmem
  · rw [List.mem_singleton.mp hmem]
    exact .block _
  · exact absurd hmem List.not_mem_nil
  · exact absurd hmem List.not_mem_nil
  · dsimp only [finishCatchUp] at hmem
    split_ifs at hmem
    · rw [List.mem_singleton.mp hmem]
      exact .goOn _ rfl rfl
    · exact absurd hmem List.not_mem_nil

theorem stepTask_next {task next : CatchUpTask} (h : (s.stepTask sc task).2.2 = some next) :
    next.peer = task.peer ∧ next.algo = task.algo ∧ next.permit = task.permit := by
  rw [stepTask] at h
  split at h
  · rw [← Option.some.inj h]
    exact ⟨rfl, rfl, rfl⟩
  · rw [← Option.some.inj h]
    exact ⟨rfl, rfl, rfl⟩
  · rw [← Option.some.inj h]
    exact ⟨rfl, rfl, rfl⟩
  · cases h

end Service

namespace Net

variable {net : Net S} {cause : Cause} {effects : List Effect} {result : Service S × List Effect}

/-! ### Effects -/

theorem performAll_nil : net.performAll cause [] = net := rfl

theorem performAll_cons (effect : Effect) :
    net.performAll cause (effect :: effects) = (net.perform cause effect).performAll cause effects :=
  rfl

theorem queue_performAll : (net.performAll cause effects).queue =
    net.queue ++ (effects.filterMap Effect.sent).map fun request => (request, cause) := by
  induction effects generalizing net with
  | nil => simp [performAll_nil]
  | cons effect effects ih =>
    rw [performAll_cons, ih]
    cases effect <;> simp [List.filterMap_cons, perform, Effect.sent, punish, withStore]

theorem tasks_performAll : (net.performAll cause effects).tasks =
    net.tasks ++ (effects.filterMap Effect.spawned).map fun task => (task, cause) := by
  induction effects generalizing net with
  | nil => simp [performAll_nil]
  | cons effect effects ih =>
    rw [performAll_cons, ih]
    cases effect <;> simp [List.filterMap_cons, perform, Effect.spawned, punish, withStore]

theorem punished_performAll : (net.performAll cause effects).punished =
    ((effects.filterMap Effect.punishes).map fun peer => (peer, cause.deliveredBy)).reverse ++
      net.punished := by
  induction effects generalizing net with
  | nil => simp [performAll_nil]
  | cons effect effects ih =>
    rw [performAll_cons, ih]
    cases effect <;> simp [List.filterMap_cons, perform, Effect.punishes, punish, withStore]

theorem requests_performAll :
    (net.performAll cause effects).service.requests = net.service.requests := by
  induction effects generalizing net with
  | nil => rfl
  | cons effect effects ih =>
    rw [performAll_cons, ih]
    cases effect <;> rfl

theorem requestCause_performAll (id : OutboundRequestId) :
    (net.performAll cause effects).requestCause id =
      if id ∈ effects.filterMap Effect.asked then { cause with requests := cause.requests + 1 }
      else net.requestCause id := by
  induction effects generalizing net with
  | nil => rfl
  | cons effect effects ih =>
    rw [performAll_cons, ih]
    cases effect with
    | requestMissingBlocks asked peer request =>
      have hmem : id ∈ (Effect.requestMissingBlocks asked peer request :: effects).filterMap
          Effect.asked ↔ id = asked ∨ id ∈ effects.filterMap Effect.asked := by
        simp [Effect.asked]
      have hperform : (net.perform cause (.requestMissingBlocks asked peer request)).requestCause id =
          if id = asked then { cause with requests := cause.requests + 1 }
          else net.requestCause id := Function.update_apply _ _ _ _
      rw [hperform]
      by_cases hlater : id ∈ effects.filterMap Effect.asked
      · rw [if_pos hlater, if_pos (hmem.mpr (Or.inr hlater))]
      · rw [if_neg hlater]
        by_cases hasked : id = asked
        · rw [if_pos hasked, if_pos (hmem.mpr (Or.inl hasked))]
        · rw [if_neg hasked, if_neg fun h => (hmem.mp h).elim hasked hlater]
    | _ => rfl

/-! ### Handled messages -/

theorem mem_queue_handled {entry : InnerRequest × Cause} :
    entry ∈ (net.handled cause result).queue ↔
      entry ∈ net.queue ∨ Effect.send entry.1 ∈ result.2 ∧ entry.2 = cause := by
  rw [handled, queue_performAll, List.mem_append]
  simp only [List.mem_map, List.mem_filterMap, Effect.sent_eq_some_iff]
  constructor
  · rintro (hmem | ⟨request, ⟨effect, hmem, rfl⟩, rfl⟩)
    · exact Or.inl hmem
    · exact Or.inr ⟨hmem, rfl⟩
  · rintro (hmem | ⟨hmem, rfl⟩)
    · exact Or.inl hmem
    · exact Or.inr ⟨entry.1, ⟨_, hmem, rfl⟩, rfl⟩

theorem mem_tasks_handled {entry : CatchUpTask × Cause} :
    entry ∈ (net.handled cause result).tasks ↔
      entry ∈ net.tasks ∨ Effect.spawn entry.1 ∈ result.2 ∧ entry.2 = cause := by
  rw [handled, tasks_performAll, List.mem_append]
  simp only [List.mem_map, List.mem_filterMap, Effect.spawned_eq_some_iff]
  constructor
  · rintro (hmem | ⟨task, ⟨effect, hmem, rfl⟩, rfl⟩)
    · exact Or.inl hmem
    · exact Or.inr ⟨hmem, rfl⟩
  · rintro (hmem | ⟨hmem, rfl⟩)
    · exact Or.inl hmem
    · exact Or.inr ⟨entry.1, ⟨_, hmem, rfl⟩, rfl⟩

theorem mem_punished_handled {entry : PeerId × Option PeerId} :
    entry ∈ (net.handled cause result).punished ↔
      entry ∈ net.punished ∨
        (∃ effect ∈ result.2, effect.punishes = some entry.1) ∧ entry.2 = cause.deliveredBy := by
  rw [handled, punished_performAll, List.mem_append, List.mem_reverse, or_comm]
  simp only [List.mem_map, List.mem_filterMap]
  constructor
  · rintro (hmem | ⟨peer, hpunishes, rfl⟩)
    · exact Or.inl hmem
    · exact Or.inr ⟨hpunishes, rfl⟩
  · rintro (hmem | ⟨hpunishes, hcause⟩)
    · exact Or.inl hmem
    · exact Or.inr ⟨entry.1, hpunishes, by rw [← hcause]⟩

theorem requests_handled : (net.handled cause result).service.requests = result.1.requests := by
  rw [handled, requests_performAll]

def withTask (net : Net S) (i : Nat) (cause : Cause) (next : Option CatchUpTask) : Net S :=
  { net with
    tasks :=
      match next with
      | some task => net.tasks.set i (task, cause)
      | none => net.tasks.eraseIdx i }

theorem stepTask_eq {sc : ShareChain S} {i : Nat} {task : CatchUpTask} :
    net.stepTask sc i task cause =
      (net.withTask i cause (net.service.stepTask sc task).2.2).handled cause
        ((net.service.stepTask sc task).1, (net.service.stepTask sc task).2.1) := rfl

theorem mem_tasks_withTask {i : Nat} {next : Option CatchUpTask} {entry : CatchUpTask × Cause}
    (h : entry ∈ (net.withTask i cause next).tasks) :
    entry ∈ net.tasks ∨ next = some entry.1 ∧ entry.2 = cause := by
  cases next with
  | none => exact Or.inl (List.mem_of_mem_eraseIdx h)
  | some task =>
    obtain hold | rfl := List.mem_or_eq_of_mem_set h
    · exact Or.inl hold
    · exact Or.inr ⟨rfl, rfl⟩

/-- What every handler keeps is kept by a step. -/
theorem step_induction {I : Net S → Prop} {sc : ShareChain S} {input : Env × Input S} (hI : I net)
    (hevent : ∀ event, input.2 = .event event → net.halted = false →
      I (net.handled (net.causeOf event) (net.service.handleEvent sc input.1 event)))
    (hrequest : ∀ request cause queue, input.2 = .innerRequest → net.halted = false →
      net.queue = (request, cause) :: queue →
      I (({ net with queue := queue } : Net S).handled cause
        (net.service.handleInnerRequest sc input.1 request)))
    (htask : ∀ i task cause, net.tasks[i]? = some (task, cause) → I (net.stepTask sc i task cause))
    (hstore : ∀ store, I (net.withStore store))
    (hchain : ∀ algo chain, I { net with service := net.service.withShareChain algo chain }) :
    I (net.step sc input) := by
  rw [step]
  split_ifs with hhalted
  · exact hI
  · have hruns : net.halted = false := Bool.eq_false_iff.mpr hhalted
    cases hinput : input.2 with
    | event event => exact hevent event hinput hruns
    | innerRequest =>
      cases hqueue : net.queue with
      | nil => exact hI
      | cons entry queue => exact hrequest entry.1 entry.2 queue hinput hruns hqueue
    | task i =>
      simp only
      cases htaken : net.tasks[i]? with
      | none => exact hI
      | some entry => exact htask i entry.1 entry.2 htaken
    | addSeedPeers peers => exact hstore _
    | clearGreyList => exact hstore _
    | clearBlackList => exact hstore _
    | useChain algo chain => exact hchain algo chain

theorem config_step {sc : ShareChain S} {input : Env × Input S} :
    (net.step sc input).service.config = net.service.config := by
  have hhandled : ∀ {net : Net S} {cause result},
      (net.handled cause result).service.config = result.1.config :=
    Service.config_of_requests requests_handled
  refine step_induction (I := fun after => after.service.config = net.service.config) rfl ?_ ?_ ?_
    (fun _ => rfl) (fun _ _ => rfl)
  · intro event _ _
    exact hhandled.trans (Service.config_handleEvent sc input.1 event)
  · intro request cause queue _ _ _
    exact hhandled.trans (Service.config_handleInnerRequest sc input.1 request)
  · intro i task cause _
    rw [stepTask_eq]
    exact hhandled.trans (Service.config_of_depths (Service.depths_stepTask sc task))

end Net

/-! ### Small runs -/

def sampleEnv : Env where
  ord _ := IterOrder.stored
  now := 100
  instant := 0
  connectedPeers := [7]

def sampleShareChains (algo : PowAlgorithm) : InMemoryShareChain × P2Chain :=
  ({ P2Chain.sampleShareChain 10 with powAlgo := algo }, P2Chain.newEmpty (P2Chain.sampleConfig 10))

def sentBlock (hash prevHash : FixedHash) (height : Nat) : P2Block :=
  { P2Chain.sampleBlock hash prevHash height (height + 1) with
    squad := ""
    originalHeader := { outputMr := 7 } }

def sampleInfo (peer : PeerId) (height : Nat) (pow : Nat) : PeerInfo where
  peerId := some peer
  currentRandomXHeight := height
  currentRandomXPow := pow
  squad := "default"
  timestamp := 100

end ShaP2Pool
