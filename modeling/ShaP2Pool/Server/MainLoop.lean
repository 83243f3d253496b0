import ShaP2Pool.Server.Network
import ShaP2Pool.Library.Trace

/-!
# Runs of the p2p service

The main loop takes one swarm event, inner request or timer at a time; the tasks that handlers have
spawned run beside it, and the rest of the program changes the share chains. Everything in flight
carries its cause: which peer delivered the message that led to it, and how many requests for
missing blocks lie between the start of its chain and it. Causes are not part of the program, which
never reads them.
-/

namespace ShaP2Pool

open Trace

/-- What can start a chain of requests for missing blocks. -/
inductive ChainStart
  | notification
  | catchUp
  deriving DecidableEq, Repr

structure Cause where
  /-- the peer that delivered the message, if a message led to it -/
  deliveredBy : Option PeerId
  start : ChainStart
  /-- the requests for missing blocks of the chain so far -/
  requests : Nat
  deriving DecidableEq, Repr

/-- The service with its queue and tasks. -/
structure Net (S : Type) where
  service : Service S
  /-- the channel of inner requests, oldest first -/
  queue : List (InnerRequest × Cause)
  tasks : List (CatchUpTask × Cause)
  /-- the causes of the requests for missing blocks, each counted with itself -/
  requestCause : OutboundRequestId → Cause
  /-- the peers that were punished, each with the peer that delivered the message it was for -/
  punished : List (PeerId × Option PeerId)
  /-- a panic has ended the process -/
  halted : Bool

def SwarmEvent.sender : SwarmEvent → Option PeerId
  | .connectionEstablished _ _ => none
  | .outgoingConnectionError _ _ => none
  | .gossip _ propagationSource => some propagationSource
  | .metaDataRequest peer _ => some peer
  | .metaDataResponse peer _ => some peer
  | .directPeerExchangeRequest peer _ => some peer
  | .directPeerExchangeResponse peer _ => some peer
  | .shareChainSyncResponse peer _ _ => some peer
  | .shareChainSyncFailure _ _ _ => none
  | .catchUpSyncResponse peer _ _ => some peer
  | .catchUpSyncFailure _ _ _ => none
  | .identified peer _ => some peer
  | .ping _ => none

/-- What the main loop or a task does next. -/
inductive Input (S : Type)
  | event (event : SwarmEvent)
  | innerRequest
  /-- the task at a position takes a step -/
  | task (i : Nat)
  | addSeedPeers (peers : List PeerId)
  | clearGreyList
  | clearBlackList
  /-- another part of the program has changed a share chain -/
  | useChain (algo : PowAlgorithm) (chain : S)

namespace Net

variable {S : Type} (sc : ShareChain S)

def start (service : Service S) : Net S where
  service := service
  queue := []
  tasks := []
  requestCause _ := ⟨none, .catchUp, 0⟩
  punished := []
  halted := false

def withStore (net : Net S) (store : PeerStore) : Net S :=
  { net with service := { net.service with networkPeerStore := store } }

def punish (net : Net S) (cause : Cause) (peer : PeerId) : Net S :=
  { net with punished := (peer, cause.deliveredBy) :: net.punished }

def perform (cause : Cause) (net : Net S) : Effect → Net S
  | .send request => { net with queue := net.queue ++ [(request, cause)] }
  | .spawn task => { net with tasks := net.tasks ++ [(task, cause)] }
  | .requestMissingBlocks id _ _ =>
    { net with
      requestCause :=
        Function.update net.requestCause id { cause with requests := cause.requests + 1 } }
  | .requestCatchUp _ _ _ => net
  | .moveToGreyList peer reason =>
    (net.withStore (net.service.networkPeerStore.moveToGreyList peer reason)).punish cause peer
  | .moveToBlacklist peer =>
    (net.withStore (net.service.networkPeerStore.moveToBlacklist peer)).punish cause peer
  | .disconnect peer => net.punish cause peer
  | .panic => { net with halted := true }

def performAll (cause : Cause) (net : Net S) (effects : List Effect) : Net S :=
  effects.foldl (perform cause) net

def causeOf (net : Net S) : SwarmEvent → Cause
  | .gossip _ propagationSource => ⟨some propagationSource, .notification, 0⟩
  | .shareChainSyncResponse peer requestId _ =>
    { net.requestCause requestId with deliveredBy := some peer }
  | event => ⟨event.sender, .catchUp, 0⟩

/-- The net after a handler has changed the service and had its effects. -/
def handled (net : Net S) (cause : Cause) (result : Service S × List Effect) : Net S :=
  ({ net with service := result.1 } : Net S).performAll cause result.2

def stepTask (net : Net S) (i : Nat) (task : CatchUpTask) (cause : Cause) : Net S :=
  let (s, effects, next) := net.service.stepTask sc task
  let tasks :=
    match next with
    | some task => net.tasks.set i (task, cause)
    | none => net.tasks.eraseIdx i
  ({ net with tasks := tasks } : Net S).handled cause (s, effects)

def step (net : Net S) (input : Env × Input S) : Net S :=
  if net.halted then net
  else
    match input.2 with
    | .event event =>
      net.handled (net.causeOf event) (net.service.handleEvent sc input.1 event)
    | .innerRequest =>
      match net.queue with
      | [] => net
      | (request, cause) :: queue =>
        ({ net with queue := queue } : Net S).handled cause
          (net.service.handleInnerRequest sc input.1 request)
    | .task i =>
      match net.tasks[i]? with
      | none => net
      | some (task, cause) => net.stepTask sc i task cause
    | .addSeedPeers peers => net.withStore (net.service.networkPeerStore.addSeedPeers peers)
    | .clearGreyList => net.withStore net.service.networkPeerStore.clearGreyList
    | .clearBlackList => net.withStore net.service.networkPeerStore.clearBlackList
    | .useChain algo chain => { net with service := net.service.withShareChain algo chain }

end Net

end ShaP2Pool
