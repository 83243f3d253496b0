import ShaP2Pool.Server.PeerStore

/-!
# Connections

The jobs of the main loop in `network.rs` that keep up connections: trimming them, dialing peers and
reserving relays, with `relay_store.rs`. What the swarm is asked to do (disconnect, dial, listen) is
returned in its order; the connected peers and whether the swarm can listen are arguments.
-/

namespace ShaP2Pool

/-- `MAX_OUTBOUND_SQUAD_PEERS` -/
def maxOutboundSquadPeers : Nat := 8

/-- `MAX_OUTBOUND_NON_SQUAD_PEERS` -/
def maxOutboundNonSquadPeers : Nat := 2

/-! ### Relays -/

/-- `libp2p::multiaddr::Protocol`, as far as relays need it -/
inductive Protocol
  | p2p (peer : PeerId)
  | p2pCircuit
  | other (text : String)
  deriving DecidableEq, Repr

abbrev Multiaddr := List Protocol

def isP2pAddressWithoutCircuit (address : Multiaddr) : Bool :=
  (address.any fun p => p matches .p2p _) && !(address.any fun p => p matches .p2pCircuit)

structure PossibleRelay where
  peer : PeerId
  /-- a set of addresses -/
  addresses : List Multiaddr
  deriving DecidableEq, Repr

structure Reservation where
  peer : PeerId
  address : Multiaddr
  expiresAt : Option Instant
  pending : Bool
  deriving DecidableEq, Repr

structure RelayStore where
  possibleRelays : KeyedMap PossibleRelay.peer
  activeReservations : KeyedMap Reservation.peer

/-- `Duration::from_secs` -/
def durationFromSecs (secs : Nat) : Nat := secs * 1000000000

namespace RelayStore

/-- `RelayStore::default()` -/
def empty : RelayStore := ⟨KeyedMap.empty, KeyedMap.empty⟩

def addressesOf (s : RelayStore) (peer : PeerId) : List Multiaddr :=
  ((s.possibleRelays.find? peer).map (·.addresses)).getD []

def addPossibleRelay (s : RelayStore) (peer : PeerId) (address : Multiaddr) : RelayStore × Bool :=
  if (s.addressesOf peer).contains address then (s, false)
  else
    ({ s with possibleRelays := s.possibleRelays.insert ⟨peer, s.addressesOf peer ++ [address]⟩ }, true)

def confirmReservation (s : RelayStore) (peer : PeerId) (expiresAt : Instant) : RelayStore :=
  { s with activeReservations := s.activeReservations.update peer fun reservation =>
      { reservation with pending := false, expiresAt := some expiresAt } }

def addPendingReservation (s : RelayStore) (peer : PeerId) (address : Multiaddr) : RelayStore :=
  match s.activeReservations.find? peer with
  | some reservation =>
    { s with activeReservations :=
        s.activeReservations.insert { reservation with pending := true, address := address } }
  | none => { s with activeReservations := s.activeReservations.insert ⟨peer, address, none, true⟩ }

def getPotentialRelays (ord : IterOrder) (s : RelayStore) : List (PeerId × Multiaddr) :=
  (ord.run 0 s.possibleRelays.values).flatMap fun relay =>
    (ord.run 1 relay.addresses).map fun address => (relay.peer, address)

def getExpiringReservations (ord : IterOrder) (now : Instant) (s : RelayStore) (withinDuration : Nat) :
    List (PeerId × Multiaddr) :=
  (ord.run 2 s.activeReservations.values).filterMap fun r =>
    match r.expiresAt with
    | some expiresAt => if expiresAt < now + withinDuration then some (r.peer, r.address) else none
    | none => none

/-- The relays whose reservations are confirmed and have not expired. -/
def getRelayPeerIds (ord : IterOrder) (now : Instant) (s : RelayStore) : List PeerId :=
  (ord.run 3 s.activeReservations.values).filterMap fun r =>
    match r.expiresAt with
    | some expires => if now < expires then some r.peer else none
    | none => none

def isRelay (s : RelayStore) (peerId : PeerId) : Bool := s.possibleRelays.contains peerId

end RelayStore

/-- What a peer says of itself when it identifies itself. -/
structure Info where
  /-- `HOP_PROTOCOL_NAME` is among the protocols -/
  isRelay : Bool
  listenAddrs : List Multiaddr

/-- The part of `handle_peer_identified` that notes relays. -/
def RelayStore.handlePeerIdentified (s : RelayStore) (isSelf isSeedNode isSeedPeer : Bool)
    (peerId : PeerId) (info : Info) : RelayStore :=
  if isSelf then s
  else if isSeedNode then s
  else
    info.listenAddrs.foldl (fun s addr =>
      if isP2pAddressWithoutCircuit addr && info.isRelay && !isSeedPeer then
        (s.addPossibleRelay peerId addr).1
      else s) s

/-- The event `ReservationReqAccepted`: a reservation without a limit is not expected. A limit may
come without a duration. -/
def RelayStore.reservationReqAccepted (s : RelayStore) (now : Instant) (relayPeerId : PeerId) :
    Option (Option Nat) → RelayStore
  | some duration => s.confirmReservation relayPeerId (now + duration.getD (durationFromSecs 60))
  | none => s

/-- Note the address and try to listen on it by way of the relay, until one address works. -/
def RelayStore.attemptRelayReservation (listenOn : Multiaddr → Bool) (peerId : PeerId) :
    List Multiaddr → RelayStore → RelayStore × List Multiaddr
  | [], s => (s, [])
  | addr :: addresses, s =>
    if !isP2pAddressWithoutCircuit addr then attemptRelayReservation listenOn peerId addresses s
    else
      let s := s.addPendingReservation peerId addr
      let listenAddr := addr ++ [.p2pCircuit]
      if listenOn listenAddr then (s, [listenAddr])
      else
        let (s, more) := attemptRelayReservation listenOn peerId addresses s
        (s, listenAddr :: more)

def RelayStore.attemptAll (listenOn : Multiaddr → Bool) :
    List (PeerId × Multiaddr) → RelayStore → RelayStore × List Multiaddr
  | [], s => (s, [])
  | (peerId, address) :: relays, s =>
    let (s, listens) := s.attemptRelayReservation listenOn peerId [address]
    let (s, more) := attemptAll listenOn relays s
    (s, listens ++ more)

/-- The relay job: renew what expires within a minute, and look for relays as long as this node has
no external address and is behind a NAT. -/
def RelayStore.relayJob (ord : IterOrder) (now : Instant) (listenOn : Multiaddr → Bool)
    (numExternalAddresses : Nat) (isPrivateNat : Bool) (s : RelayStore) :
    RelayStore × List Multiaddr :=
  let (s, renewed) := s.attemptAll listenOn (s.getExpiringReservations ord now (durationFromSecs 60))
  if numExternalAddresses = 0 && isPrivateNat then
    let (s, more) := s.attemptAll listenOn ((s.getPotentialRelays ord).take 3)
    (s, renewed ++ more)
  else (s, renewed)

/-! ### Trimming connections -/

/-- Take away the peer that claims the least work for an algorithm. Without a peer the source
panics. -/
def removeWorst (algo : PowAlgorithm) (squadPeers : List PeerStoreRecord) :
    Option (List PeerStoreRecord × PeerStoreRecord) :=
  let sorted := squadPeers.insertionSort fun a b =>
    b.peerInfo.currentPow algo ≤ a.peerInfo.currentPow algo
  sorted.getLast?.map fun peer => (sorted.dropLast, peer)

/-- Take away peers by twos, one for each algorithm, while there are too many. The peers that are
disconnected, and those that are left. -/
def churnSquadPeers : Nat → List PeerStoreRecord →
    Option (List PeerStoreRecord × List PeerStoreRecord)
  | rounds, squadPeers =>
    if squadPeers.length ≤ maxOutboundSquadPeers - 2 then some ([], squadPeers)
    else
      match rounds with
      | 0 => none
      | rounds + 1 => do
        let (squadPeers, sha3x) ← removeWorst .sha3x squadPeers
        let (squadPeers, randomX) ← removeWorst .randomX squadPeers
        let (gone, kept) ← churnSquadPeers rounds squadPeers
        return (sha3x :: randomX :: gone, kept)

/-- The peers that are not of the squad and are disconnected: `numNonSquads` have been seen so
far. -/
def churnNonSquadPeers (relays : List PeerId) : Nat → List PeerId → List PeerId
  | _, [] => []
  | numNonSquads, peerId :: peers =>
    if relays.contains peerId then churnNonSquadPeers relays (numNonSquads + 1) peers
    else if 1 < numNonSquads + 1 then
      peerId :: churnNonSquadPeers relays (numNonSquads + 1) peers
    else churnNonSquadPeers relays (numNonSquads + 1) peers

namespace PeerStore

def isSquadPeer (s : PeerStore) (peer : PeerId) : Bool :=
  match s.peerType peer with
  | some .greylisted | some .newPeer | some .existing => true
  | _ => false

/-- The connection churn of a node that is not a seed peer: the peers that it disconnects. -/
def connectionChurn (s : PeerStore) (relays connectedPeers : List PeerId) : Option (List PeerId) := do
  let squadPeers := (connectedPeers.filter s.isSquadPeer).filterMap s.get
  let nonSquadPeers := connectedPeers.filter fun peer => !s.isSquadPeer peer
  let (gone, _) ← churnSquadPeers squadPeers.length squadPeers
  return churnNonSquadPeers relays 0 nonSquadPeers ++ gone.map (·.peerId)

/-! ### Dialing -/

/-- Dial the peers of a list that are neither connected nor seed peers, and note the attempts, until
enough have been dialed. -/
def dialPeers (connectedPeers : List PeerId) (now : Instant) (enough : Nat → Bool) :
    Nat → List PeerStoreRecord → PeerStore → PeerStore × List PeerStoreRecord
  | _, [], s => (s, [])
  | numDialed, record :: records, s =>
    if !connectedPeers.contains record.peerId && !s.isSeedPeer record.peerId then
      let s := s.updateLastDialAttempt now record.peerId
      if enough (numDialed + 1) then (s, [record])
      else
        let (s, more) := dialPeers connectedPeers now enough (numDialed + 1) records s
        (s, record :: more)
    else dialPeers connectedPeers now enough numDialed records s

/-- The records of the connected peers that are known and not of another squad. -/
def connectedSquadPeers (s : PeerStore) (connectedPeers : List PeerId) : List PeerStoreRecord :=
  (connectedPeers.filter fun peer =>
    (s.peerType peer).any fun peerType => peerType ≠ .nonSquad).filterMap s.get

def connectedNonSquadPeers (s : PeerStore) (connectedPeers : List PeerId) : List PeerId :=
  connectedPeers.filter fun peer => s.peerType peer = some .nonSquad

/-- The first half of the search for connections: peers of other squads. -/
def seekNonSquadPeers (ord : IterOrder) (isAddress : String → Bool) (now : Instant)
    (connectedPeers : List PeerId) (s : PeerStore) : PeerStore × List PeerStoreRecord :=
  if (s.connectedNonSquadPeers connectedPeers).length < maxOutboundNonSquadPeers then
    dialPeers connectedPeers now (fun numDialed => decide (maxOutboundNonSquadPeers ≤ numDialed)) 0
      (s.randomNonSquadPeersToDial ord isAddress now 20) s
  else (s, [])

/-- The second half: the best peers of the squad. `squadPeers` are connected. -/
def seekSquadPeers (ord : IterOrder) (isAddress : String → Bool) (now : Instant)
    (randomxEnabled sha3xEnabled : Bool) (connectedPeers : List PeerId) (squadPeers : Nat)
    (s : PeerStore) : PeerStore × List PeerStoreRecord :=
  if squadPeers < maxOutboundSquadPeers then
    dialPeers connectedPeers now
      (fun numDialed => decide (maxOutboundSquadPeers - squadPeers < numDialed)) 0
      (s.bestSquadPeersToDial ord isAddress now 100 randomxEnabled sha3xEnabled) s
  else (s, [])

/-- The search for connections of a node that is not a seed peer: the store after it, and the peers
that were dialed. -/
def seekConnections (ord : IterOrder) (isAddress : String → Bool) (now : Instant)
    (randomxEnabled sha3xEnabled : Bool) (connectedPeers : List PeerId) (s : PeerStore) :
    PeerStore × List PeerStoreRecord :=
  let squadPeers := s.connectedSquadPeers connectedPeers
  let (s, nonSquad) := s.seekNonSquadPeers ord isAddress now connectedPeers
  let (s, squad) := s.seekSquadPeers ord isAddress now randomxEnabled sha3xEnabled connectedPeers
    squadPeers.length
  (s, nonSquad ++ squad)

end PeerStore

end ShaP2Pool
