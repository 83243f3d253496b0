import ShaP2Pool.Server.PeerStore
import ShaP2Pool.Sharechain.Basic

/-!
# The diagnostics collector

`server/diagnostics/diagnostics_collector.rs`: events about peers are collected in one map for each
type of peer. The source keys its maps by the text of a peer's id, which is a name of the id. The
reports, which clone a map or list the connected peers of one, change nothing and are left out.
-/

namespace ShaP2Pool

inductive PeerType
  | seedPeer
  | relayPeer
  | privatePeer
  | nonSquadPeer
  | unknown
  deriving DecidableEq, Repr

/-- A reading of the wall clock, in nanoseconds. -/
abbrev SystemTime := Nat

structure DiagnosticPeerInfo where
  peerId : PeerId
  connectedAt : Option SystemTime := none
  requestedPeersAt : Option SystemTime := none
  numberOfPeersReceived : Option Nat := none
  numberOfPeersAdded : Option Nat := none
  responseTime : Option Nat := none
  deriving DecidableEq, Repr

/-- What is broadcast, with the time at which it was sent. -/
inductive DiagnosticData
  | newPeer (peerId : PeerId) (peerType : PeerType) (timestamp : SystemTime)
  | peerConnected (peerId : PeerId) (peerType : PeerType) (timestamp : SystemTime)
  | peerRequest (peerId : PeerId) (peerType : PeerType) (timestamp : SystemTime)
  | peerResponse (peerId : PeerId) (peerType : PeerType) (numberOfPeersReceived : Nat)
    (numberOfPeersAdded : Nat) (timestamp : SystemTime)
  deriving DecidableEq, Repr

namespace DiagnosticData

def peerId : DiagnosticData → PeerId
  | newPeer peerId _ _ | peerConnected peerId _ _ | peerRequest peerId _ _
  | peerResponse peerId _ _ _ _ => peerId

def peerType : DiagnosticData → PeerType
  | newPeer _ peerType _ | peerConnected _ peerType _ | peerRequest _ peerType _
  | peerResponse _ peerType _ _ _ => peerType

def timestamp : DiagnosticData → SystemTime
  | newPeer _ _ timestamp | peerConnected _ _ timestamp | peerRequest _ _ timestamp
  | peerResponse _ _ _ _ timestamp => timestamp

end DiagnosticData

structure DiagnosticsCollector where
  firstDataReceived : Option SystemTime
  /-- the map of each type of peer -/
  peerInfo : PeerType → KeyedMap DiagnosticPeerInfo.peerId

namespace DiagnosticsCollector

def new : DiagnosticsCollector where
  firstDataReceived := none
  peerInfo _ := KeyedMap.empty

def insertInfo (c : DiagnosticsCollector) (peerType : PeerType) (info : DiagnosticPeerInfo) :
    DiagnosticsCollector :=
  { c with peerInfo := Function.update c.peerInfo peerType ((c.peerInfo peerType).insert info) }

def removeInfo (c : DiagnosticsCollector) (peerType : PeerType) (peerId : PeerId) :
    DiagnosticsCollector :=
  { c with peerInfo := Function.update c.peerInfo peerType ((c.peerInfo peerType).erase peerId) }

/-- The maps in the order in which a peer that may have to move is looked for. -/
def hydrateOrder : List PeerType := [.unknown, .privatePeer, .seedPeer, .relayPeer, .nonSquadPeer]

def lookupOrder : List PeerType := [.privatePeer, .seedPeer, .relayPeer, .nonSquadPeer, .unknown]

/-- The peer type could have changed: move the record to the map of the new type. -/
def hydrate (c : DiagnosticsCollector) (peerId : PeerId) (peerType : PeerType) :
    DiagnosticsCollector :=
  match hydrateOrder.find? (fun category => (c.peerInfo category).contains peerId) with
  | none => c
  | some category =>
    if peerType = category then c
    else
      match (c.peerInfo category).find? peerId with
      | none => c
      | some peer => (c.removeInfo category peerId).insertInfo peerType peer

def getExisting (c : DiagnosticsCollector) (peerId : PeerId) :
    Option (PeerType × DiagnosticPeerInfo) :=
  lookupOrder.findSome? fun category =>
    ((c.peerInfo category).find? peerId).map fun peer => (category, peer)

/-- `usize::saturating_add` on a count that may not have begun. -/
def addCount (count : Option Nat) (number : Nat) : Option Nat :=
  (count.map fun count => saturatingAdd count number).or (some number)

/-- An event that is handled at the time `now`. The record that the source changes in place goes
back into the map it was found in. -/
def handleDiagnostic (now : SystemTime) (data : DiagnosticData) (c : DiagnosticsCollector) :
    DiagnosticsCollector :=
  let c := c.hydrate data.peerId data.peerType
  match data with
  | .newPeer peerId peerType _ =>
    match c.getExisting peerId with
    | some _ => c
    | none => c.insertInfo peerType { peerId := peerId }
  | .peerConnected peerId peerType _ =>
    match c.getExisting peerId with
    | some (category, peer) =>
      if peer.connectedAt.isNone then c.insertInfo category { peer with connectedAt := some now }
      else c
    | none => c.insertInfo peerType { peerId := peerId, connectedAt := some now }
  | .peerRequest peerId _ _ =>
    match c.getExisting peerId with
    | some (category, peer) =>
      if peer.requestedPeersAt.isNone then
        c.insertInfo category { peer with requestedPeersAt := some now }
      else c
    | none => c
  | .peerResponse peerId _ numberOfPeersReceived numberOfPeersAdded _ =>
    match c.getExisting peerId with
    | some (category, peer) =>
      c.insertInfo category { peer with
        numberOfPeersReceived := addCount peer.numberOfPeersReceived numberOfPeersReceived
        numberOfPeersAdded := addCount peer.numberOfPeersAdded numberOfPeersAdded
        responseTime := peer.responseTime.or
          (peer.requestedPeersAt.map fun requestedPeersAt => now - requestedPeersAt) }
    | none => c

/-- An event is received at the time of the first component. -/
def receive (c : DiagnosticsCollector) (event : SystemTime × DiagnosticData) :
    DiagnosticsCollector :=
  handleDiagnostic event.1 event.2
    { c with firstDataReceived := c.firstDataReceived.or (some event.2.timestamp) }

end DiagnosticsCollector

end ShaP2Pool
