import ShaP2Pool.Server.Connections
import ShaP2Pool.Server.Diagnostics

/-!
# The diagnostic mode

`main_loop_diagnostic_mode` of `network.rs`: in place of its main loop a node dials the seed peers,
then private peers, then relays, waits each time for the answers to its peer exchange, and writes
down what the diagnostics collector has gathered. The loop acts once a second; what the rest of the
service does between two ticks shows in the stores and the collector that a tick finds.
-/

namespace ShaP2Pool

/-! ### Reports of the collector -/

namespace DiagnosticsCollector

/-- The answer to `GetConnectedPeers` -/
def getConnectedPeers (c : DiagnosticsCollector) (peerType : PeerType) : List PeerId :=
  ((c.peerInfo peerType).values.filter (·.connectedAt.isSome)).map (·.peerId)

/-- The records in the answer to `GetPeerInfo` -/
def getPeerDiagnosticInfo (c : DiagnosticsCollector) (peerType : PeerType) : List DiagnosticPeerInfo :=
  (c.peerInfo peerType).values

end DiagnosticsCollector

def PeerStore.getKnownSameSquadPeerRecords (s : PeerStore) : List PeerStoreRecord :=
  s.whitelistPeers.values ++ s.greylistPeers.values ++ s.blacklistPeers.values

/-! ### States -/

inductive DiagnosticState
  | connectToSeedPeers
  | waitForSeedPeersDownload
  | connectToPrivatePeers
  | waitForPrivatePeersDownload
  | connectToRelayPeers
  | waitForRelayPeersDownload
  | done
  deriving DecidableEq, Repr

/-- `CONNECT_INITIAL_WAIT` -/
def connectInitialWait : Nat := durationFromSecs 20

/-- `CONNECT_TIMEOUT` -/
def connectTimeout : Nat := durationFromSecs 60

/-- `RESPONSE_TIMEOUT` -/
def responseTimeout : Nat := durationFromSecs 150

namespace DiagnosticState

def successNextState : DiagnosticState → DiagnosticState
  | connectToSeedPeers => waitForSeedPeersDownload
  | waitForSeedPeersDownload => connectToPrivatePeers
  | connectToPrivatePeers => waitForPrivatePeersDownload
  | waitForPrivatePeersDownload => connectToRelayPeers
  | connectToRelayPeers => waitForRelayPeersDownload
  | waitForRelayPeersDownload => done
  | done => done

def failedNextState : DiagnosticState → DiagnosticState
  | connectToSeedPeers => done
  | waitForSeedPeersDownload => done
  | connectToPrivatePeers => connectToRelayPeers
  | waitForPrivatePeersDownload => connectToRelayPeers
  | connectToRelayPeers => done
  | waitForRelayPeersDownload => done
  | done => done

end DiagnosticState

structure DiagnosticMode where
  diagnosticState : DiagnosticState := .connectToSeedPeers
  /-- when the state was entered -/
  start : Instant
  dialedSeedPeers : List PeerId := []
  dialedPrivatePeers : List PeerId := []
  dialedRelayPeers : List PeerId := []

structure DiagnosticTick where
  now : Instant
  /-- the order of a random choice -/
  ord : IterOrder
  /-- the peers that `parse_seed_peers` returns -/
  seedPeers : Except String (List PeerId)
  store : PeerStore
  relays : RelayStore
  /-- whether the swarm takes a dial -/
  dialIsOk : PeerId → Bool
  /-- the collector, unless it has stopped -/
  collector : Option DiagnosticsCollector

/-- What is written of one type of peer: its first ten records, and sums over them. -/
structure DiagnosticSection where
  peers : List DiagnosticPeerInfo
  connected : Nat
  responded : Nat
  peersReceived : Nat
  peersAdded : Nat

structure DiagnosticReport where
  seeds : DiagnosticSection
  relays : DiagnosticSection
  privatePeers : DiagnosticSection

inductive DiagnosticEffect
  | addSeedPeers (peers : List PeerId)
  | dial (peer : PeerId) (peerType : PeerType)
  | sendNewPeer (peer : PeerId) (peerType : PeerType)
  | writeReport (report : DiagnosticReport)
  | triggerShutdown

namespace DiagnosticMode

def dialAll (tick : DiagnosticTick) (peerType : PeerType) (peers : List PeerId) :
    List DiagnosticEffect :=
  peers.flatMap fun peer =>
    .dial peer peerType :: if tick.dialIsOk peer then [.sendNewPeer peer peerType] else []

/-- Go to the next state if there is a verdict. -/
def proceed (m : DiagnosticMode) (now : Instant) : Option Bool → DiagnosticMode
  | some true => { m with diagnosticState := m.diagnosticState.successNextState, start := now }
  | some false => { m with diagnosticState := m.diagnosticState.failedNextState, start := now }
  | none => m

/-! ### Seed peers -/

def dialSeedPeers (m : DiagnosticMode) (tick : DiagnosticTick) :
    Except String (DiagnosticMode × List DiagnosticEffect) :=
  if m.dialedSeedPeers.isEmpty then
    match tick.seedPeers with
    | .error e => .error e
    | .ok seedPeers =>
      .ok ({ m with dialedSeedPeers := seedPeers },
        .addSeedPeers seedPeers :: dialAll tick .seedPeer seedPeers)
  else .ok (m, [])

def seedsConnected (elapsed : Nat) (seeds : List PeerId) : Option Bool :=
  if connectInitialWait < elapsed && !seeds.isEmpty then some true
  else if connectTimeout < elapsed then some false
  else none

def answered (elapsed : Nat) (enough : Bool) (seenCount : Nat) : Option Bool :=
  if enough then some true
  else if responseTimeout < elapsed && decide (0 < seenCount) then some true
  else if responseTimeout < elapsed then some false
  else none

def seenCount (records : List DiagnosticPeerInfo) : Nat :=
  records.countP (·.responseTime.isSome)

def seedsAnswered (elapsed : Nat) (seedsData : List DiagnosticPeerInfo) : Option Bool :=
  answered elapsed (seedsData.all (·.responseTime.isSome)) (seenCount seedsData)

/-! ### Private peers and relays -/

/-- `get_same_squad_peer_records` -/
def getSameSquadPeerRecords (localPeerId : PeerId) (tick : DiagnosticTick)
    (filterPeers : List PeerId) (isRelay : Bool) : List PeerStoreRecord :=
  let knownRelays := tick.relays.getRelayPeerIds (.stored) tick.now
  tick.store.getKnownSameSquadPeerRecords.filter fun record =>
    !(filterPeers ++ [localPeerId]).contains record.peerId &&
      isRelay == knownRelays.contains record.peerId

def peersToDial (localPeerId : PeerId) (m : DiagnosticMode) (tick : DiagnosticTick) (isRelay : Bool)
    (dialed : List PeerId) : List PeerId :=
  (((tick.ord.run 0 (getSameSquadPeerRecords localPeerId tick m.dialedSeedPeers isRelay)).take 50).filter
    fun record => !dialed.contains record.peerId).map (·.peerId)

def peersConnected (elapsed : Nat) (peers : List PeerId) : Option Bool :=
  if decide (10 ≤ peers.length) || (connectTimeout < elapsed && !peers.isEmpty) then some true
  else if connectTimeout < elapsed && peers.isEmpty then some false
  else none

def peersAnswered (elapsed : Nat) (peersData : List DiagnosticPeerInfo) : Option Bool :=
  answered elapsed (5 ≤ seenCount peersData) (seenCount peersData)

/-! ### The report -/

/-- The peers from which the most peers were received first, then those that were connected
first. -/
def reportOrder (a b : DiagnosticPeerInfo) : Ordering :=
  (compare b.numberOfPeersReceived a.numberOfPeersReceived).then (compare a.connectedAt b.connectedAt)

def sectionOf (records : List DiagnosticPeerInfo) : DiagnosticSection :=
  let peers := (records.insertionSort fun a b => reportOrder a b ≠ .gt).take 10
  { peers := peers
    connected := peers.countP (·.connectedAt.isSome)
    responded := seenCount peers
    peersReceived := (peers.map fun peer => peer.numberOfPeersReceived.getD 0).sum
    peersAdded := (peers.map fun peer => peer.numberOfPeersAdded.getD 0).sum }

def diagnosticInfo (tick : DiagnosticTick) (peerType : PeerType) : List DiagnosticPeerInfo :=
  (tick.collector.map (·.getPeerDiagnosticInfo peerType)).getD []

def report (tick : DiagnosticTick) : DiagnosticReport where
  seeds := sectionOf (diagnosticInfo tick .seedPeer)
  relays := sectionOf (diagnosticInfo tick .relayPeer)
  privatePeers := sectionOf (diagnosticInfo tick .privatePeer)

/-! ### Ticks -/

/-- One tick of the interval. An error ends the loop. -/
def step (localPeerId : PeerId) (m : DiagnosticMode) (tick : DiagnosticTick) :
    Except String (DiagnosticMode × List DiagnosticEffect) :=
  let elapsed := tick.now - m.start
  let connected (peerType : PeerType) := tick.collector.map (·.getConnectedPeers peerType)
  match m.diagnosticState with
  | .connectToSeedPeers =>
    match m.dialSeedPeers tick with
    | .error e => .error e
    | .ok (m, effects) =>
      .ok (m.proceed tick.now ((connected .seedPeer).bind (seedsConnected elapsed)), effects)
  | .waitForSeedPeersDownload =>
    .ok (m.proceed tick.now (seedsAnswered elapsed (diagnosticInfo tick .seedPeer)), [])
  | .connectToPrivatePeers =>
    let peers := m.peersToDial localPeerId tick false m.dialedPrivatePeers
    -- a private peer is noted only if the swarm takes the dial
    let m := { m with dialedPrivatePeers := m.dialedPrivatePeers ++ peers.filter tick.dialIsOk }
    .ok (m.proceed tick.now ((connected .privatePeer).bind (peersConnected elapsed)),
      dialAll tick .privatePeer peers)
  | .waitForPrivatePeersDownload =>
    .ok (m.proceed tick.now (peersAnswered elapsed (diagnosticInfo tick .privatePeer)), [])
  | .connectToRelayPeers =>
    let peers := m.peersToDial localPeerId tick true m.dialedRelayPeers
    let m := { m with dialedRelayPeers := m.dialedRelayPeers ++ peers }
    .ok (m.proceed tick.now ((connected .relayPeer).bind (peersConnected elapsed)),
      dialAll tick .relayPeer peers)
  | .waitForRelayPeersDownload =>
    .ok (m.proceed tick.now (peersAnswered elapsed (diagnosticInfo tick .relayPeer)), [])
  | .done => .ok (m, [.writeReport (report tick), .triggerShutdown])

end DiagnosticMode

end ShaP2Pool
