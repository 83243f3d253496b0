import ShaP2Pool.Library.KeyedMap
import ShaP2Pool.Sharechain.Basic
import Mathlib.Data.List.Sort

/-!
# The peer store

`server/p2p/peer_store.rs` with the peer info of `messages.rs`. The four maps are keyed by the text
of a peer id, which is the id of the record under it. Texts that are only logged and the statistics
that are sent out are left out; the current time is an argument.
-/

namespace ShaP2Pool

/-- A `libp2p` identity. -/
abbrev PeerId := Nat

/-- A reading of the monotonic clock, in nanoseconds. -/
abbrev Instant := Nat

/-- `now.duration_since(earlier).as_secs()` -/
def Instant.elapsedSecs (now earlier : Instant) : Nat := (now - earlier) / 1000000000

structure PeerInfo where
  version : Nat := protocolVersion
  peerId : Option PeerId := none
  currentSha3xHeight : Nat := 0
  currentRandomXHeight : Nat := 0
  currentSha3xPow : Nat := 0
  currentRandomXPow : Nat := 0
  squad : String
  timestamp : EpochTime := 0
  userAgent : Option String := none
  userAgentVersion : Option String := none
  publicAddresses : List String := []
  deriving DecidableEq, Repr

/-- `PeerInfo::public_addresses()`: the addresses that parse. -/
def PeerInfo.parsedAddresses (isAddress : String → Bool) (info : PeerInfo) : List String :=
  info.publicAddresses.filter isAddress

def PeerInfo.currentHeight (info : PeerInfo) : PowAlgorithm → Nat
  | .randomX => info.currentRandomXHeight
  | .sha3x => info.currentSha3xHeight

def PeerInfo.currentPow (info : PeerInfo) : PowAlgorithm → Nat
  | .randomX => info.currentRandomXPow
  | .sha3x => info.currentSha3xPow

structure PeerStoreRecord where
  peerId : PeerId
  peerInfo : PeerInfo
  created : Instant
  lastRxSyncAttempt : Option Instant := none
  lastSha3xSyncAttempt : Option Instant := none
  numGreyListings : Nat := 0
  lastGreyListReason : Option String := none
  catchUpAttempts : Nat := 0
  lastPing : Option EpochTime := none
  lastDialAttempt : Option Instant := none
  deriving DecidableEq, Repr

namespace PeerStoreRecord

/-- A record without any history. -/
def new (now : Instant) (peerId : PeerId) (peerInfo : PeerInfo) : PeerStoreRecord where
  peerId := peerId
  peerInfo := peerInfo
  created := now

def lastSeen (record : PeerStoreRecord) : EpochTime :=
  record.lastPing.getD record.peerInfo.timestamp

def withLastPing (record : PeerStoreRecord) (timestamp : EpochTime) : PeerStoreRecord :=
  { record with lastPing := some timestamp }

def withLastDialAttempt (record : PeerStoreRecord) (now : Instant) : PeerStoreRecord :=
  { record with lastDialAttempt := some now }

def withSyncAttempt (record : PeerStoreRecord) (now : Instant) : PowAlgorithm → PeerStoreRecord
  | .randomX => { record with lastRxSyncAttempt := some now }
  | .sha3x => { record with lastSha3xSyncAttempt := some now }

def withCatchUpAttempts (record : PeerStoreRecord) (attempts : Nat) : PeerStoreRecord :=
  { record with catchUpAttempts := attempts }

def greylisted (record : PeerStoreRecord) (reason : String) : PeerStoreRecord :=
  { record with
    lastGreyListReason := some reason
    numGreyListings := record.numGreyListings + 1 }

def pardoned (record : PeerStoreRecord) : PeerStoreRecord :=
  { record with catchUpAttempts := 0, lastGreyListReason := none, numGreyListings := 0 }

/-- The record of a whitelisted peer that is added again: a new one, into which fields of the old
one are copied. -/
def renewed (entry : PeerStoreRecord) (now : Instant) (peerId : PeerId) (peerInfo : PeerInfo) :
    PeerStoreRecord :=
  { new now peerId peerInfo with
    catchUpAttempts := entry.catchUpAttempts
    lastRxSyncAttempt := entry.lastRxSyncAttempt
    lastSha3xSyncAttempt := entry.lastSha3xSyncAttempt
    created := entry.created
    lastPing := entry.lastPing
    numGreyListings := entry.numGreyListings
    lastGreyListReason := entry.lastGreyListReason }

section

variable (record : PeerStoreRecord) (now : Instant)

@[simp] theorem peerId_new (peerId : PeerId) (peerInfo : PeerInfo) :
    (new now peerId peerInfo).peerId = peerId := rfl

@[simp] theorem peerId_withLastPing (timestamp : EpochTime) :
    (record.withLastPing timestamp).peerId = record.peerId := rfl

@[simp] theorem peerId_withLastDialAttempt :
    (record.withLastDialAttempt now).peerId = record.peerId := rfl

@[simp] theorem peerId_withSyncAttempt (algo : PowAlgorithm) :
    (record.withSyncAttempt now algo).peerId = record.peerId := by
  cases algo <;> rfl

@[simp] theorem peerId_withCatchUpAttempts (attempts : Nat) :
    (record.withCatchUpAttempts attempts).peerId = record.peerId := rfl

@[simp] theorem peerId_greylisted (reason : String) :
    (record.greylisted reason).peerId = record.peerId := rfl

@[simp] theorem peerId_pardoned : record.pardoned.peerId = record.peerId := rfl

@[simp] theorem peerId_renewed (peerId : PeerId) (peerInfo : PeerInfo) :
    (record.renewed now peerId peerInfo).peerId = peerId := rfl

end

end PeerStoreRecord

inductive AddPeerStatus
  | newPeer
  | existing
  | blacklisted
  | greylisted
  | nonSquad
  deriving DecidableEq, Repr

abbrev PeerMap := KeyedMap PeerStoreRecord.peerId

structure PeerStore where
  whitelistPeers : PeerMap
  greylistPeers : PeerMap
  blacklistPeers : PeerMap
  nonSquadPeers : PeerMap
  seedPeers : List PeerId
  mySquad : String

/-- `MAX_GREY_LISTINGS` -/
def maxGreyListings : Nat := 5

namespace PeerStore

def new (mySquad : String) : PeerStore where
  whitelistPeers := KeyedMap.empty
  greylistPeers := KeyedMap.empty
  blacklistPeers := KeyedMap.empty
  nonSquadPeers := KeyedMap.empty
  seedPeers := []
  mySquad := mySquad

/-! ### Lookups -/

def get (s : PeerStore) (peerId : PeerId) : Option PeerStoreRecord :=
  ((s.whitelistPeers.find? peerId).or (s.greylistPeers.find? peerId)).or
    (s.blacklistPeers.find? peerId)

def isSeedPeer (s : PeerStore) (peerId : PeerId) : Bool := s.seedPeers.contains peerId

def numCatchUps (s : PeerStore) (peer : PeerId) : Option Nat :=
  (s.whitelistPeers.find? peer).map (·.catchUpAttempts)

def isBlacklisted (s : PeerStore) (peerId : PeerId) : Bool := s.blacklistPeers.contains peerId

def peerType (s : PeerStore) (peerId : PeerId) : Option AddPeerStatus :=
  if s.whitelistPeers.contains peerId then some .existing
  else if s.greylistPeers.contains peerId then some .greylisted
  else if s.blacklistPeers.contains peerId then some .blacklisted
  else if s.nonSquadPeers.contains peerId then some .nonSquad
  else none

/-! ### Choosing peers -/

/-- The peers that other nodes are told of: those of the squad first, and the ones seen last. -/
def bestPeersToShare (ord : IterOrder) (isAddress : String → Bool) (s : PeerStore) (count : Nat)
    (squad : String) (otherNodesPeers : List PeerId) : List PeerStoreRecord :=
  let peers := ord.run 0 s.whitelistPeers.values ++ ord.run 1 s.nonSquadPeers.values
  let peers := peers.filter fun peer =>
    !(peer.peerInfo.parsedAddresses isAddress).isEmpty && peer.lastPing.isSome
  let foreign (peer : PeerStoreRecord) : Nat := if peer.peerInfo.squad = squad then 0 else 1
  let peers := peers.insertionSort fun a b =>
    foreign a < foreign b ∨ (foreign a = foreign b ∧ b.lastSeen ≤ a.lastSeen)
  (peers.filter fun peer => !otherNodesPeers.contains peer.peerId).take count

/-- A peer may be dialed if it has an address and the last attempt is long enough ago. -/
def mayDial (isAddress : String → Bool) (now : Instant) (peer : PeerStoreRecord) : Bool :=
  !(peer.peerInfo.parsedAddresses isAddress).isEmpty &&
    (match peer.lastDialAttempt with
     | none => true
     | some attempt => decide (120 < now.elapsedSecs attempt))

/-- Peers with few grey listings first, then those with more work on the included chains. -/
def dialOrder (includeRandomx includeSha3 : Bool) (a b : PeerStoreRecord) : Ordering :=
  (compare a.numGreyListings b.numGreyListings).then
    ((if includeRandomx then compare b.peerInfo.currentRandomXPow a.peerInfo.currentRandomXPow
      else .eq).then
      (if includeSha3 then compare b.peerInfo.currentSha3xPow a.peerInfo.currentSha3xPow else .eq))

def bestSquadPeersToDial (ord : IterOrder) (isAddress : String → Bool) (now : Instant)
    (s : PeerStore) (count : Nat) (includeRandomx includeSha3 : Bool) : List PeerStoreRecord :=
  let peers := (ord.run 0 s.whitelistPeers.values).filter (mayDial isAddress now)
  (peers.insertionSort fun a b => dialOrder includeRandomx includeSha3 a b ≠ .gt).take count

def randomNonSquadPeersToDial (ord : IterOrder) (isAddress : String → Bool) (now : Instant)
    (s : PeerStore) (count : Nat) : List PeerStoreRecord :=
  (ord.run 0 (s.nonSquadPeers.values.filter (mayDial isAddress now))).take count

/-- The highest work that a peer we have heard from in the last minute claims for an algorithm, with
its height and the peer. -/
def maxKnownNetworkHeight (ord : IterOrder) (now : EpochTime) (s : PeerStore) (algo : PowAlgorithm) :
    Nat × Nat × Option PeerId :=
  let heard := (ord.run 0 s.whitelistPeers.values).filter fun record =>
    (record.lastPing.map fun ping => decide (now - 60 ≤ ping)).getD false &&
      decide (now - 60 ≤ record.peerInfo.timestamp)
  heard.foldl (fun best record =>
    if best.2.1 < record.peerInfo.currentPow algo then
      (record.peerInfo.currentHeight algo, record.peerInfo.currentPow algo, some record.peerId)
    else best) (0, 0, none)

/-! ### Bookkeeping -/

def setLastPing (s : PeerStore) (peerId : PeerId) (timestamp : EpochTime) : PeerStore :=
  let s := { s with
    whitelistPeers := s.whitelistPeers.update peerId (·.withLastPing timestamp) }
  let s :=
    match s.greylistPeers.find? peerId with
    | some entry =>
      { s with
        greylistPeers := s.greylistPeers.erase peerId
        whitelistPeers :=
          s.whitelistPeers.insert { entry.withLastPing timestamp with numGreyListings := 0 } }
    | none => s
  { s with blacklistPeers := s.blacklistPeers.update peerId (·.withLastPing timestamp) }

def addSeedPeers (s : PeerStore) (peerIds : List PeerId) : PeerStore :=
  { s with seedPeers := s.seedPeers ++ peerIds }

def addCatchUpAttempt (s : PeerStore) (peerId : PeerId) : PeerStore :=
  { s with whitelistPeers := s.whitelistPeers.update peerId fun record =>
      record.withCatchUpAttempts (record.catchUpAttempts + 1) }

def resetCatchUpAttempts (s : PeerStore) (peerId : PeerId) : PeerStore :=
  { s with whitelistPeers := s.whitelistPeers.update peerId (·.withCatchUpAttempts 0) }

def updateLastDialAttempt (s : PeerStore) (now : Instant) (peerId : PeerId) : PeerStore :=
  { s with
    whitelistPeers := s.whitelistPeers.update peerId (·.withLastDialAttempt now)
    greylistPeers := s.greylistPeers.update peerId (·.withLastDialAttempt now)
    nonSquadPeers := s.nonSquadPeers.update peerId (·.withLastDialAttempt now) }

def updateLastSyncAttempt (s : PeerStore) (now : Instant) (peerId : PeerId) (algo : PowAlgorithm) :
    PeerStore :=
  { s with
    whitelistPeers := s.whitelistPeers.update peerId (·.withSyncAttempt now algo)
    greylistPeers := s.greylistPeers.update peerId (·.withSyncAttempt now algo) }

/-! ### Adding peers -/

/-- Add a new peer to the store. The source says that an existing peer is just replaced. -/
def add (s : PeerStore) (now : Instant) (peerId : PeerId) (peerInfo : PeerInfo) :
    PeerStore × AddPeerStatus :=
  let record := PeerStoreRecord.new now peerId peerInfo
  if peerInfo.squad ≠ s.mySquad then
    ({ s with nonSquadPeers := s.nonSquadPeers.insert record },
      if s.nonSquadPeers.contains peerId then .existing else .nonSquad)
  -- seed peers are greylisted so that they are not overwhelmed with syncs
  else if s.seedPeers.contains peerId then
    ({ s with greylistPeers :=
        s.greylistPeers.insert { record with lastGreyListReason := some "Seed peer" } }, .greylisted)
  else if s.blacklistPeers.contains peerId then (s, .blacklisted)
  else if s.greylistPeers.contains peerId then (s, .greylisted)
  else
    match s.whitelistPeers.find? peerId with
    | some entry =>
      ({ s with whitelistPeers := s.whitelistPeers.insert (entry.renewed now peerId peerInfo) },
        .existing)
    | none => ({ s with whitelistPeers := s.whitelistPeers.insert record }, .newPeer)

/-! ### Moving peers -/

/-- Where a record of the drained grey list goes. Seed peers go nowhere. -/
def releaseGreyRecord (s : PeerStore) (record : PeerStoreRecord) : PeerStore :=
  if maxGreyListings ≤ record.numGreyListings then
    { s with blacklistPeers := s.blacklistPeers.insert record }
  else if s.seedPeers.contains record.peerId then s
  else { s with whitelistPeers := s.whitelistPeers.insert record }

/-- The keys are distinct, so that the order in which the map is drained does not matter. -/
def clearGreyList (s : PeerStore) : PeerStore :=
  s.greylistPeers.values.foldl releaseGreyRecord { s with greylistPeers := KeyedMap.empty }

def releaseBlackRecord (s : PeerStore) (record : PeerStoreRecord) : PeerStore :=
  { s with whitelistPeers := s.whitelistPeers.insert record.pardoned }

def clearBlackList (s : PeerStore) : PeerStore :=
  s.blacklistPeers.values.foldl releaseBlackRecord { s with blacklistPeers := KeyedMap.empty }

def moveToGreyList (s : PeerStore) (peerId : PeerId) (reason : String) : PeerStore :=
  match s.whitelistPeers.find? peerId with
  | some record =>
    { s with
      whitelistPeers := s.whitelistPeers.erase peerId
      greylistPeers := s.greylistPeers.insert (record.greylisted reason) }
  | none => s

/-- The record of the grey list is taken before that of the whitelist. The reason is only logged. -/
def moveToBlacklist (s : PeerStore) (peer : PeerId) : PeerStore :=
  match (s.greylistPeers.find? peer).or (s.whitelistPeers.find? peer) with
  | some record =>
    { s with
      whitelistPeers := s.whitelistPeers.erase peer
      greylistPeers := s.greylistPeers.erase peer
      blacklistPeers := s.blacklistPeers.insert record }
  | none => s

end PeerStore

end ShaP2Pool
