import ShaP2Pool.Server.PeerStore
import ShaP2Pool.Sharechain.P2Block

/-!
# Messages between nodes

`server/p2p/messages.rs`: what a node sends to its peers. A message carries the protocol version and
the peer id that its writer has put in; the connection it came over is not part of it. A peer id
that is sent as text is `none` if it does not parse.
-/

namespace ShaP2Pool

/-- `PowAlgorithm::try_from` -/
def PowAlgorithm.tryFrom : Nat → Option PowAlgorithm
  | 0 => some .randomX
  | 1 => some .sha3x
  | _ => none

/-- `PowAlgorithm::as_u64` -/
def PowAlgorithm.asU64 : PowAlgorithm → Nat
  | .randomX => 0
  | .sha3x => 1

def messageAlgo (algo : Nat) : PowAlgorithm := (PowAlgorithm.tryFrom algo).getD .randomX

/-- A block as it is taken out of a message: without the sender's marks. -/
def P2Block.received (block : P2Block) : P2Block := { block with verified := VerifiedStatus.new }

structure SyncMissingBlocksRequest where
  algo : Nat
  missingBlocks : List (Nat × FixedHash)
  deriving DecidableEq, Repr

def SyncMissingBlocksRequest.new (algo : PowAlgorithm) (missingBlocks : List (Nat × FixedHash)) :
    SyncMissingBlocksRequest := ⟨algo.asU64, missingBlocks⟩

structure SyncMissingBlocksResponse where
  version : Nat := protocolVersion
  peerId : PeerId
  algo : Nat
  blocks : List P2Block

structure CatchUpSyncRequest where
  algo : Nat
  iHave : List (Nat × FixedHash)
  lastBlockReceived : Option (Nat × FixedHash)
  deriving DecidableEq, Repr

def CatchUpSyncRequest.new (algo : PowAlgorithm) (iHave : List (Nat × FixedHash))
    (lastBlockReceived : Option (Nat × FixedHash)) : CatchUpSyncRequest :=
  ⟨algo.asU64, iHave, lastBlockReceived⟩

structure CatchUpSyncResponse where
  version : Nat := protocolVersion
  peerId : PeerId
  algo : Nat
  blocks : List P2Block
  /-- works out whether to go on syncing from the peer -/
  tip : Nat × FixedHash
  achievedPow : Option Nat

structure MetaDataRequest where
  peerId : Option PeerId
  myInfo : PeerInfo

structure MetaDataResponse where
  peerId : Option PeerId
  info : PeerInfo

structure DirectPeerInfoRequest where
  peerId : Option PeerId
  myInfo : PeerInfo
  bestPeers : List PeerInfo

structure DirectPeerInfoResponse where
  peerId : Option PeerId
  info : PeerInfo
  bestPeers : List PeerInfo

structure NotifyNewTipBlock where
  version : Nat := protocolVersion
  peerId : PeerId
  newBlocks : List P2Block
  timestamp : EpochTime

namespace NotifyNewTipBlock

def algo (payload : NotifyNewTipBlock) : PowAlgorithm :=
  (payload.newBlocks.head?.map (·.originalHeader.powAlgo)).getD .randomX

def totalProofOfWork (payload : NotifyNewTipBlock) : AccumulatedDifficulty :=
  match payload.newBlocks with
  | [] => AccumulatedDifficulty.min
  | block :: blocks =>
    (blocks.foldl (fun best block => if best.height ≤ block.height then block else best)
      block).totalPow

def maxHeight (payload : NotifyNewTipBlock) : Nat :=
  (payload.newBlocks.map (·.height)).foldl Nat.max 0

end NotifyNewTipBlock

/-- The topic of a gossip message, with its payload if it could be read. -/
inductive GossipPayload
  | peerInfo (payload : Option PeerInfo)
  | blockNotify (payload : Option NotifyNewTipBlock)
  | unknownTopic

structure GossipMessage where
  source : Option PeerId
  payload : GossipPayload

end ShaP2Pool
