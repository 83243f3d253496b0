import ShaP2Pool.Server.Answers
import ShaP2Pool.Server.MainLoop

/-!
# The pool

Any number of nodes that run the program, and the messages between them. Whatever a node has sent
may be delivered any number of times, in any order and at any time, or never; a gossip message
reaches the nodes that subscribe to its topic, by way of any peer. Miners hand blocks to the nodes,
and others who do not run the program may send what they like.
-/

namespace ShaP2Pool

inductive Packet
  | gossip (topic : String) (source : Option PeerId) (published : Published)
  | missingBlocksRequest (sender receiver : PeerId) (id : OutboundRequestId)
    (request : SyncMissingBlocksRequest)
  | missingBlocksResponse (sender receiver : PeerId) (id : OutboundRequestId)
    (response : Except String SyncMissingBlocksResponse)
  | catchUpRequest (sender receiver : PeerId) (id : OutboundRequestId) (request : CatchUpSyncRequest)
  | catchUpResponse (sender receiver : PeerId) (id : OutboundRequestId)
    (response : Except String CatchUpSyncResponse)

/-- The blocks in a message. -/
def Packet.blocks : Packet → List P2Block
  | .gossip _ _ (.newTip payload) => payload.newBlocks
  | .missingBlocksResponse _ _ _ (.ok response) => response.blocks
  | .catchUpResponse _ _ _ (.ok response) => response.blocks
  | _ => []

def InnerRequest.blocks : InnerRequest → List P2Block
  | .addSyncedBlock _ block _ _ => [block]
  | _ => []

/-- The blocks that a task has still to queue. -/
def CatchUpTask.blocks (task : CatchUpTask) : List P2Block :=
  match task.stage with
  | .sending blocks => blocks
  | _ => []

def Effect.blocks : Effect → List P2Block
  | .send request => request.blocks
  | .spawn task => task.blocks
  | _ => []

/-- The blocks in the message of an event. -/
def SwarmEvent.blocks : SwarmEvent → List P2Block
  | .gossip ⟨_, .blockNotify (some payload)⟩ _ => payload.newBlocks
  | .shareChainSyncResponse _ _ (.ok response) => response.blocks
  | .catchUpSyncResponse _ _ (.ok response) => response.blocks
  | _ => []

def SwarmEvent.isLocal : SwarmEvent → Bool
  | .gossip ⟨_, .blockNotify _⟩ _ => false
  | .shareChainSyncResponse _ _ _ => false
  | .catchUpSyncResponse _ _ _ => false
  | _ => true

/-- The input comes neither with blocks nor from another part of the program. -/
def Input.isLocal {S : Type} : Input S → Bool
  | .event received => received.isLocal
  | .useChain _ _ => false
  | _ => true

structure Node (S : Type) where
  net : Net S
  /-- the channel of blocks to publish, oldest first -/
  broadcasts : List P2Block

/-- What happens next in the pool. -/
inductive PoolEvent (S : Type)
  /-- a message, by its position, is delivered to a node; gossip comes from the peer `via` -/
  | deliver (node via : PeerId) (env : Env) (position : Nat)
  /-- the main loop of a node or one of its tasks goes on -/
  | proceed (node : PeerId) (env : Env) (input : Input S)
  /-- the network silence at the start of a node is over -/
  | silenceOver (node : PeerId)
  /-- a miner hands a block to a node -/
  | mine (node : PeerId) (env : Env) (block : P2Block)
  /-- a node publishes the next block of its channel -/
  | publish (node : PeerId) (env : Env)
  /-- somebody who does not run the program sends a message -/
  | outsider (packet : Packet)

structure Pool (S : Type) where
  nodes : PeerId → Node S
  /-- all that was ever sent -/
  packets : List Packet

/-- What the nodes of a pool are started with. -/
structure PoolSetup where
  tari : TariNetwork
  squad : PeerId → String
  config : PeerId → Config
  shareWindow : PeerId → Nat
  /-- the settings of a node's share chains, apart from their algorithm and squad -/
  shareChain : PeerId → PowAlgorithm → InMemoryShareChain

/-- A share chain of a node. -/
def PoolSetup.shareChainOf (setup : PoolSetup) (node : PeerId) (algo : PowAlgorithm) :
    InMemoryShareChain :=
  { setup.shareChain node algo with powAlgo := algo, squad := setup.squad node }

def Effect.packet (node : PeerId) : Effect → Option Packet
  | .requestMissingBlocks id peer request => some (.missingBlocksRequest node peer id request)
  | .requestCatchUp id peer request => some (.catchUpRequest node peer id request)
  | _ => none

namespace Net

variable {S : Type} (sc : ShareChain S)

def stepEffects (net : Net S) (input : Env × Input S) : List Effect :=
  if net.halted then []
  else
    match input.2 with
    | .event event => (net.service.handleEvent sc input.1 event).2
    | .innerRequest =>
      match net.queue with
      | [] => []
      | (request, _) :: _ => (net.service.handleInnerRequest sc input.1 request).2
    | .task i =>
      match net.tasks[i]? with
      | none => []
      | some (task, _) => (net.service.stepTask sc task).2.1
    | _ => []

end Net

namespace Pool

variable {S : Type} (sc : ServingChain S) (tari : TariNetwork)

/-- A fresh pool of nodes with empty share chains. -/
def start (setup : PoolSetup) : Pool (InMemoryShareChain × P2Chain) where
  nodes p :=
    { net := Net.start (Service.new (setup.squad p) p (setup.config p) (setup.shareWindow p)
        fun algo => (setup.shareChainOf p algo, P2Chain.newEmpty (setup.shareChainOf p algo).chainConfig))
      broadcasts := [] }
  packets := []

def send (pool : Pool S) (packets : List Packet) : Pool S :=
  { pool with packets := pool.packets ++ packets }

def setNode (pool : Pool S) (p : PeerId) (node : Node S) : Pool S :=
  { pool with nodes := Function.update pool.nodes p node }

/-- A node takes an input, and the requests it sends are on their way. -/
def proceed (pool : Pool S) (p : PeerId) (env : Env) (input : Input S) : Pool S :=
  let node := pool.nodes p
  (pool.setNode p { node with net := node.net.step sc.toShareChain (env, input) }).send
    ((node.net.stepEffects sc.toShareChain (env, input)).filterMap (Effect.packet p))

/-- A node gets a message that is for it. -/
def receive (pool : Pool S) (p via : PeerId) (env : Env) : Packet → Pool S
  | .gossip topic source published =>
    let service := (pool.nodes p).net.service
    if topic ∈ tari.subscriptions service.squad service.config then
      pool.proceed sc p env
        (.event (.gossip ⟨source, tari.readGossip service.squad topic published⟩ via))
    else pool
  | .missingBlocksRequest sender receiver id request =>
    if receiver = p ∧ (pool.nodes p).net.halted = false then
      pool.send [.missingBlocksResponse p sender id
        ((pool.nodes p).net.service.handleSyncMissingBlocksRequest sc request)]
    else pool
  | .missingBlocksResponse sender receiver id response =>
    if receiver = p then
      pool.proceed sc p env (.event (.shareChainSyncResponse sender id response))
    else pool
  | .catchUpRequest sender receiver id request =>
    if receiver = p ∧ (pool.nodes p).net.halted = false then
      match (pool.nodes p).net.service.handleCatchUpSyncRequest sc env request with
      | .error _ =>
        pool.setNode p { pool.nodes p with net := { (pool.nodes p).net with halted := true } }
      | .ok response => pool.send [.catchUpResponse p sender id response]
    else pool
  | .catchUpResponse sender receiver id response =>
    if receiver = p then
      pool.proceed sc p env (.event (.catchUpSyncResponse sender id response))
    else pool

def mine (pool : Pool S) (p : PeerId) (env : Env) (block : P2Block) : Pool S :=
  let node := pool.nodes p
  if node.net.halted then pool
  else
    let (service, blocks) := node.net.service.submitShareChainBlock sc env block
    pool.setNode p
      { net := { node.net with service := service }, broadcasts := node.broadcasts ++ blocks }

def publish (pool : Pool S) (p : PeerId) (env : Env) : Pool S :=
  let node := pool.nodes p
  match node.broadcasts with
  | [] => pool
  | block :: rest =>
    if node.net.halted then pool
    else
      (pool.setNode p { node with broadcasts := rest }).send
        [.gossip (node.net.service.blockTopic tari block) (some p)
          (.newTip (node.net.service.newTipMessage env block))]

def step (pool : Pool S) : PoolEvent S → Pool S
  | .deliver p via env position =>
    match pool.packets[position]? with
    | none => pool
    | some packet => pool.receive sc tari p via env packet
  | .proceed p env input => if input.isLocal then pool.proceed sc p env input else pool
  | .silenceOver p =>
    let node := pool.nodes p
    pool.setNode p
      { node with net := { node.net with service := { node.net.service with
          areWeSynced := fun _ => true } } }
  | .mine p env block => pool.mine sc p env block
  | .publish p env => pool.publish tari p env
  | .outsider packet => pool.send [packet]

end Pool

end ShaP2Pool
