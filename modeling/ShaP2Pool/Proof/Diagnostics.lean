import ShaP2Pool.Server.Diagnostics
import ShaP2Pool.Library.Trace

/-!
# One record for each peer

The five maps of the collector stand for one partial map from peers to records, each with the type
under which it is kept. An event moves and changes the record of its own peer only, so the record of
a peer is a fold of the peer's own events and is read off those that follow its introduction.
-/

namespace ShaP2Pool

open Trace

namespace DiagnosticsCollector

variable {c : DiagnosticsCollector} {peer other : PeerId} {category peerType : PeerType}
variable {info : DiagnosticPeerInfo} {now : SystemTime} {data : DiagnosticData}

/-! ### The maps as one -/

abbrev Record := PeerType × DiagnosticPeerInfo

/-- The maps hold this record of the peer, in the map of its type, and no other. -/
def Holds (c : DiagnosticsCollector) (peer : PeerId) (r : Option Record) : Prop :=
  ∀ category, (c.peerInfo category).find? peer =
    (r.filter fun record => record.1 = category).map (·.2)

theorem Holds.find?_eq (h : c.Holds peer (some (peerType, info))) (category : PeerType) :
    (c.peerInfo category).find? peer = if peerType = category then some info else none := by
  rw [h category, Option.filter_some]
  by_cases heq : peerType = category
  · simp [heq]
  · simp [heq]

theorem Holds.peerId_eq (h : c.Holds peer (some (peerType, info))) : info.peerId = peer := by
  have hfind := h.find?_eq peerType
  rw [if_pos rfl] at hfind
  exact KeyedMap.key_of_find? hfind

theorem find?_insertInfo (c : DiagnosticsCollector) (peerType category : PeerType)
    (info : DiagnosticPeerInfo) (peer : PeerId) :
    ((c.insertInfo peerType info).peerInfo category).find? peer =
      if category = peerType ∧ peer = info.peerId then some info
      else (c.peerInfo category).find? peer := by
  change (Function.update c.peerInfo peerType ((c.peerInfo peerType).insert info) category).find? peer = _
  by_cases hcategory : category = peerType
  · subst hcategory
    rw [Function.update_self, KeyedMap.find?_insert]
    simp
  · rw [Function.update_of_ne hcategory, if_neg fun h => hcategory h.1]

theorem find?_removeInfo (c : DiagnosticsCollector) (peerType category : PeerType)
    (peer other : PeerId) : ((c.removeInfo peerType other).peerInfo category).find? peer =
      if category = peerType ∧ peer = other then none else (c.peerInfo category).find? peer := by
  change (Function.update c.peerInfo peerType ((c.peerInfo peerType).erase other) category).find? peer = _
  by_cases hcategory : category = peerType
  · subst hcategory
    rw [Function.update_self, KeyedMap.find?_erase]
    simp
  · rw [Function.update_of_ne hcategory, if_neg fun h => hcategory h.1]

theorem Holds.insertInfo {r : Option Record} (h : c.Holds info.peerId r)
    (htype : ∀ record ∈ r, record.1 = peerType) :
    (c.insertInfo peerType info).Holds info.peerId (some (peerType, info)) := by
  intro category
  rw [find?_insertInfo, Option.filter_some]
  by_cases heq : category = peerType
  · simp [heq]
  · rw [if_neg fun hand => heq hand.1, h category]
    cases r with
    | none => simp [Ne.symm heq]
    | some record =>
      have hrecord : record.1 = peerType := htype record rfl
      rw [Option.filter_some]
      simp [hrecord, Ne.symm heq]

theorem Holds.insertInfo_of_ne {r : Option Record} (h : c.Holds peer r) (hne : peer ≠ info.peerId) :
    (c.insertInfo peerType info).Holds peer r := by
  intro category
  rw [find?_insertInfo, if_neg fun hand => hne hand.2]
  exact h category

/-! ### Moving a record -/

theorem Holds.getExisting_eq {r : Option Record} (h : c.Holds peer r) : c.getExisting peer = r := by
  cases r with
  | none =>
    rw [getExisting, List.findSome?_eq_none_iff]
    intro category _
    rw [h category]
    rfl
  | some record =>
    obtain ⟨peerType, info⟩ := record
    simp only [getExisting, lookupOrder, List.findSome?_cons, List.findSome?_nil, h.find?_eq]
    cases peerType <;> rfl

theorem Holds.hydrateOrder_find? {r : Option Record} (h : c.Holds peer r) :
    hydrateOrder.find? (fun category => (c.peerInfo category).contains peer) = r.map (·.1) := by
  cases r with
  | none =>
    rw [Option.map_none, List.find?_eq_none]
    intro category _
    rw [KeyedMap.contains, h category]
    simp
  | some record =>
    obtain ⟨peerType, info⟩ := record
    simp only [hydrateOrder, List.find?_cons, List.find?_nil, KeyedMap.contains, h.find?_eq]
    cases peerType <;> rfl

theorem Holds.hydrate {r : Option Record} (h : c.Holds peer r) (peerType : PeerType) :
    (c.hydrate peer peerType).Holds peer (r.map fun record => (peerType, record.2)) := by
  rw [DiagnosticsCollector.hydrate, h.hydrateOrder_find?]
  cases r with
  | none => exact h
  | some record =>
    obtain ⟨category, info⟩ := record
    simp only [Option.map_some]
    by_cases heq : peerType = category
    · rw [if_pos heq, heq]
      exact h
    · rw [if_neg heq, h.find?_eq, if_pos rfl]
      have hid := h.peerId_eq
      subst hid
      apply Holds.insertInfo (r := none) _ (fun _ hmem => by cases hmem)
      intro other
      rw [find?_removeInfo]
      by_cases hother : other = category
      · rw [if_pos ⟨hother, rfl⟩]
        rfl
      · rw [if_neg fun hand => hother hand.1, h.find?_eq, if_neg (Ne.symm hother)]
        rfl

theorem Holds.hydrate_of_ne {r : Option Record} (h : c.Holds peer r) (hne : peer ≠ other)
    (peerType : PeerType) : (c.hydrate other peerType).Holds peer r := by
  rw [DiagnosticsCollector.hydrate]
  split
  · exact h
  · split_ifs
    · exact h
    · split
      · exact h
      · rename_i moved hmoved
        have hid : moved.peerId = other := KeyedMap.key_of_find? hmoved
        apply Holds.insertInfo_of_ne _ (by rw [hid]; exact hne)
        intro category
        rw [find?_removeInfo, if_neg fun hand => hne hand.2]
        exact h category

/-! ### What an event does to the record of its peer -/

def recordAfter (event : SystemTime × DiagnosticData) : Option Record → Option Record
  | none =>
    match event.2 with
    | .newPeer peerId peerType _ => some (peerType, { peerId := peerId })
    | .peerConnected peerId peerType _ =>
      some (peerType, { peerId := peerId, connectedAt := some event.1 })
    | .peerRequest .. | .peerResponse .. => none
  | some (_, peer) =>
    some (event.2.peerType, match event.2 with
      | .newPeer .. => peer
      | .peerConnected .. =>
        if peer.connectedAt.isNone then { peer with connectedAt := some event.1 } else peer
      | .peerRequest .. =>
        if peer.requestedPeersAt.isNone then { peer with requestedPeersAt := some event.1 } else peer
      | .peerResponse _ _ numberOfPeersReceived numberOfPeersAdded _ =>
        { peer with
          numberOfPeersReceived := addCount peer.numberOfPeersReceived numberOfPeersReceived
          numberOfPeersAdded := addCount peer.numberOfPeersAdded numberOfPeersAdded
          responseTime := peer.responseTime.or
            (peer.requestedPeersAt.map fun requestedPeersAt => event.1 - requestedPeersAt) })

/-- The changed record of a peer goes back into the map that it was found in. -/
theorem Holds.update {updated : DiagnosticPeerInfo} (h : c.Holds peer (some (peerType, info)))
    (hid : updated.peerId = info.peerId) :
    (c.insertInfo peerType updated).Holds peer (some (peerType, updated)) := by
  rw [h.peerId_eq] at hid
  subst hid
  exact h.insertInfo (by rintro record ⟨rfl⟩; rfl)

theorem Holds.handleDiagnostic {r : Option Record} (h : c.Holds data.peerId r) :
    (handleDiagnostic now data c).Holds data.peerId (recordAfter (now, data) r) := by
  have hmoved := h.hydrate data.peerType
  have hfound := hmoved.getExisting_eq
  cases data with
  | newPeer peerId peerType timestamp =>
    simp only [DiagnosticsCollector.handleDiagnostic, DiagnosticData.peerId,
      DiagnosticData.peerType] at hmoved hfound ⊢
    rw [hfound]
    cases r with
    | none => exact hmoved.insertInfo (fun _ hmem => by cases hmem)
    | some record => exact hmoved
  | peerConnected peerId peerType timestamp =>
    simp only [DiagnosticsCollector.handleDiagnostic, DiagnosticData.peerId,
      DiagnosticData.peerType] at hmoved hfound ⊢
    rw [hfound]
    cases r with
    | none => exact hmoved.insertInfo (fun _ hmem => by cases hmem)
    | some record =>
      simp only [Option.map_some, recordAfter] at hmoved ⊢
      split_ifs
      · exact hmoved.update rfl
      · exact hmoved
  | peerRequest peerId peerType timestamp =>
    simp only [DiagnosticsCollector.handleDiagnostic, DiagnosticData.peerId,
      DiagnosticData.peerType] at hmoved hfound ⊢
    rw [hfound]
    cases r with
    | none => exact hmoved
    | some record =>
      simp only [Option.map_some, recordAfter] at hmoved ⊢
      split_ifs
      · exact hmoved.update rfl
      · exact hmoved
  | peerResponse peerId peerType received added timestamp =>
    simp only [DiagnosticsCollector.handleDiagnostic, DiagnosticData.peerId,
      DiagnosticData.peerType] at hmoved hfound ⊢
    rw [hfound]
    cases r with
    | none => exact hmoved
    | some record => exact hmoved.update rfl

/-- The records of other peers are left alone. -/
theorem Holds.handleDiagnostic_of_ne {r : Option Record} (h : c.Holds peer r)
    (hne : peer ≠ data.peerId) :
    (DiagnosticsCollector.handleDiagnostic now data c).Holds peer r := by
  have hmoved := h.hydrate_of_ne hne data.peerType
  have hinsert {category : PeerType} {found updated : DiagnosticPeerInfo}
      (hfound : (c.hydrate data.peerId data.peerType).getExisting data.peerId = some (category, found))
      (hid : updated.peerId = found.peerId) :
      ((c.hydrate data.peerId data.peerType).insertInfo category updated).Holds peer r := by
    obtain ⟨t, -, hmapped⟩ := List.exists_of_findSome?_eq_some hfound
    obtain ⟨stored, hstored, heq⟩ := Option.map_eq_some_iff.mp hmapped
    cases heq
    apply hmoved.insertInfo_of_ne
    rw [hid, KeyedMap.key_of_find? hstored]
    exact hne
  cases data with
  | newPeer peerId peerType timestamp =>
    simp only [DiagnosticsCollector.handleDiagnostic, DiagnosticData.peerId,
      DiagnosticData.peerType] at hmoved ⊢
    split
    · exact hmoved
    · exact hmoved.insertInfo_of_ne hne
  | peerConnected peerId peerType timestamp =>
    simp only [DiagnosticsCollector.handleDiagnostic, DiagnosticData.peerId,
      DiagnosticData.peerType] at hmoved ⊢
    split
    · rename_i hfound
      split_ifs
      · exact hinsert hfound rfl
      · exact hmoved
    · exact hmoved.insertInfo_of_ne hne
  | peerRequest peerId peerType timestamp =>
    simp only [DiagnosticsCollector.handleDiagnostic, DiagnosticData.peerId,
      DiagnosticData.peerType] at hmoved ⊢
    split
    · rename_i hfound
      split_ifs
      · exact hinsert hfound rfl
      · exact hmoved
    · exact hmoved
  | peerResponse peerId peerType received added timestamp =>
    simp only [DiagnosticsCollector.handleDiagnostic, DiagnosticData.peerId,
      DiagnosticData.peerType] at hmoved ⊢
    split
    · rename_i hfound
      exact hinsert hfound rfl
    · exact hmoved

/-! ### Runs -/

def recordOf (peer : PeerId) (events : List (SystemTime × DiagnosticData)) : Option Record :=
  (events.filter fun event => event.2.peerId = peer).foldl (fun r event => recordAfter event r) none

theorem holds_after (events : List (SystemTime × DiagnosticData)) (peer : PeerId) :
    (after receive new events).Holds peer (recordOf peer events) := by
  induction events using List.reverseRecOn with
  | nil => exact fun category => KeyedMap.find?_empty peer
  | append_singleton events event ih =>
    rw [after_snoc, receive, recordOf, List.filter_append, List.foldl_append]
    by_cases hpeer : event.2.peerId = peer
    · rw [List.filter_singleton, decide_eq_true hpeer]
      subst hpeer
      exact Holds.handleDiagnostic ih
    · rw [List.filter_singleton, decide_eq_false hpeer]
      exact Holds.handleDiagnostic_of_ne ih (Ne.symm hpeer)

/-! ### The record as a summary of the peer's events -/

def introduces : DiagnosticData → Bool
  | .newPeer .. | .peerConnected .. => true
  | .peerRequest .. | .peerResponse .. => false

def connects : DiagnosticData → Bool
  | .peerConnected .. => true
  | _ => false

def requests : DiagnosticData → Bool
  | .peerRequest .. => true
  | _ => false

/-- The numbers of peers that a response counts: received, and of these added. -/
def responseCounts : DiagnosticData → Option (Nat × Nat)
  | .peerResponse _ _ received added _ => some (received, added)
  | _ => none

/-- The events of a peer since it became known. -/
def sinceKnown (peer : PeerId) (events : List (SystemTime × DiagnosticData)) :
    List (SystemTime × DiagnosticData) :=
  (events.filter fun event => event.2.peerId = peer).dropWhile fun event => !introduces event.2

def firstTime (kind : DiagnosticData → Bool) (events : List (SystemTime × DiagnosticData)) :
    Option SystemTime :=
  (events.find? fun event => kind event.2).map (·.1)

def saturatingSum : List Nat → Option Nat
  | [] => none
  | number :: numbers => some (numbers.foldl saturatingAdd number)

def countsOf (count : Nat × Nat → Nat) (events : List (SystemTime × DiagnosticData)) : List Nat :=
  (events.filterMap fun event => responseCounts event.2).map count

theorem addCount_saturatingSum (numbers : List Nat) (number : Nat) :
    addCount (saturatingSum numbers) number = saturatingSum (numbers ++ [number]) := by
  cases numbers with
  | nil => rfl
  | cons first rest =>
    rw [List.cons_append, saturatingSum, saturatingSum, List.foldl_append]
    rfl

/-- What the record of a peer says about its events since it became known. -/
def Reflects (history : List (SystemTime × DiagnosticData)) : Option Record → Prop
  | none => history = []
  | some (peerType, info) =>
    (∃ last, history.getLast? = some last ∧ last.2.peerType = peerType) ∧
      info.connectedAt = firstTime connects history ∧
      info.requestedPeersAt = firstTime requests history ∧
      info.numberOfPeersReceived = saturatingSum (countsOf (·.1) history) ∧
      info.numberOfPeersAdded = saturatingSum (countsOf (·.2) history)

theorem firstTime_snoc (kind : DiagnosticData → Bool) (history : List (SystemTime × DiagnosticData))
    (event : SystemTime × DiagnosticData) : firstTime kind (history ++ [event]) =
      (firstTime kind history).or (if kind event.2 then some event.1 else none) := by
  rw [firstTime, firstTime, List.find?_append, List.find?_singleton]
  cases history.find? fun event => kind event.2 with
  | some first => rfl
  | none =>
    cases kind event.2 <;> rfl

theorem countsOf_snoc (count : Nat × Nat → Nat) (history : List (SystemTime × DiagnosticData))
    (event : SystemTime × DiagnosticData) : countsOf count (history ++ [event]) =
      countsOf count history ++ ((responseCounts event.2).map count).toList := by
  rw [countsOf, countsOf, List.filterMap_append, List.map_append]
  congr 1
  cases hcounts : responseCounts event.2 with
  | none => simp [hcounts]
  | some counts => simp [hcounts]

/-- An event of a known peer. -/
theorem Reflects.snoc {history : List (SystemTime × DiagnosticData)} {record : Record}
    (h : Reflects history (some record)) (event : SystemTime × DiagnosticData) :
    Reflects (history ++ [event]) (recordAfter event (some record)) := by
  obtain ⟨peerType, info⟩ := record
  obtain ⟨-, hconnected, hrequested, hreceived, hadded⟩ := h
  obtain ⟨now, data⟩ := event
  simp only [recordAfter]
  refine ⟨⟨(now, data), List.getLast?_concat .., rfl⟩, ?_, ?_, ?_, ?_⟩
  · rw [firstTime_snoc, ← hconnected]
    cases data with
    | peerConnected => cases hfirst : info.connectedAt <;> simp [connects, hfirst]
    | peerRequest =>
      simp only [connects, Bool.false_eq_true, if_false, Option.or_none]
      split_ifs <;> rfl
    | newPeer | peerResponse => simp [connects]
  · rw [firstTime_snoc, ← hrequested]
    cases data with
    | peerRequest => cases hfirst : info.requestedPeersAt <;> simp [requests, hfirst]
    | peerConnected =>
      simp only [requests, Bool.false_eq_true, if_false, Option.or_none]
      split_ifs <;> rfl
    | newPeer | peerResponse => simp [requests]
  · rw [countsOf_snoc]
    cases data with
    | peerResponse => exact (congrArg (addCount · _) hreceived).trans (addCount_saturatingSum _ _)
    | newPeer => simpa [responseCounts] using hreceived
    | peerConnected | peerRequest =>
      simp only [responseCounts, Option.map_none, Option.toList_none, List.append_nil, ← hreceived]
      split_ifs <;> rfl
  · rw [countsOf_snoc]
    cases data with
    | peerResponse => exact (congrArg (addCount · _) hadded).trans (addCount_saturatingSum _ _)
    | newPeer => simpa [responseCounts] using hadded
    | peerConnected | peerRequest =>
      simp only [responseCounts, Option.map_none, Option.toList_none, List.append_nil, ← hadded]
      split_ifs <;> rfl

/-- An event of a peer that is not known. -/
theorem Reflects.first (event : SystemTime × DiagnosticData) :
    Reflects (if introduces event.2 then [event] else []) (recordAfter event none) := by
  obtain ⟨now, data⟩ := event
  cases data with
  | newPeer => exact ⟨⟨_, rfl, rfl⟩, rfl, rfl, rfl, rfl⟩
  | peerConnected => exact ⟨⟨_, rfl, rfl⟩, rfl, rfl, rfl, rfl⟩
  | peerRequest | peerResponse => rfl

theorem sinceKnown_snoc (peer : PeerId) (events : List (SystemTime × DiagnosticData))
    (event : SystemTime × DiagnosticData) (hpeer : event.2.peerId = peer) :
    sinceKnown peer (events ++ [event]) =
      if sinceKnown peer events = [] then (if introduces event.2 then [event] else [])
      else sinceKnown peer events ++ [event] := by
  rw [sinceKnown, sinceKnown, List.filter_append, List.filter_singleton, decide_eq_true hpeer,
    List.dropWhile_append]
  simp only [List.isEmpty_iff]
  split_ifs with hunknown hintroduces
  · simp [hintroduces]
  · simp [hintroduces]
  · rfl

theorem reflects_recordOf (peer : PeerId) (events : List (SystemTime × DiagnosticData)) :
    Reflects (sinceKnown peer events) (recordOf peer events) := by
  induction events using List.reverseRecOn with
  | nil => exact rfl
  | append_singleton events event ih =>
    by_cases hpeer : event.2.peerId = peer
    · rw [sinceKnown_snoc peer events event hpeer]
      have hrecord : recordOf peer (events ++ [event]) = recordAfter event (recordOf peer events) := by
        rw [recordOf, List.filter_append, List.foldl_append, List.filter_singleton,
          decide_eq_true hpeer]
        rfl
      rw [hrecord]
      cases hbefore : recordOf peer events with
      | none =>
        rw [hbefore] at ih
        have hunknown : sinceKnown peer events = [] := ih
        rw [if_pos hunknown]
        exact Reflects.first event
      | some record =>
        rw [hbefore] at ih
        obtain ⟨⟨last, hlast, -⟩, -⟩ := id ih
        rw [if_neg (by intro hnil; rw [hnil] at hlast; cases hlast)]
        exact ih.snoc event
    · have hfilter : (events ++ [event]).filter (fun event => event.2.peerId = peer) =
          events.filter fun event => event.2.peerId = peer := by
        rw [List.filter_append, List.filter_singleton, decide_eq_false hpeer]
        exact List.append_nil _
      rw [sinceKnown, recordOf, hfilter]
      exact ih

/-- What the maps say about a peer whose events since it became known are `history`: it is in the
map of its last event's type, in no other, and its record sums its events up. -/
structure KeepsRecord (c : DiagnosticsCollector) (peer : PeerId)
    (history : List (SystemTime × DiagnosticData)) : Prop where
  single : ∀ category category', (c.peerInfo category).contains peer = true →
    (c.peerInfo category').contains peer = true → category = category'
  located : ∀ last, history.getLast? = some last →
    (c.peerInfo last.2.peerType).contains peer = true
  unknown : history = [] → ∀ category, (c.peerInfo category).contains peer = false
  connectedAt : ∀ category info, (c.peerInfo category).find? peer = some info →
    info.connectedAt = firstTime connects history
  requestedPeersAt : ∀ category info, (c.peerInfo category).find? peer = some info →
    info.requestedPeersAt = firstTime requests history
  received : ∀ category info, (c.peerInfo category).find? peer = some info →
    info.numberOfPeersReceived = saturatingSum (countsOf (·.1) history)
  added : ∀ category info, (c.peerInfo category).find? peer = some info →
    info.numberOfPeersAdded = saturatingSum (countsOf (·.2) history)

theorem keepsRecord_of_holds {history : List (SystemTime × DiagnosticData)} {r : Option Record}
    (h : c.Holds peer r) (hreflects : Reflects history r) : c.KeepsRecord peer history := by
  cases r with
  | none =>
    have hnil : history = [] := hreflects
    have hempty (category : PeerType) : (c.peerInfo category).find? peer = none := h category
    refine ⟨fun category _ hin => ?_, fun last hlast => ?_, fun _ category => ?_,
      fun category info hinfo => ?_, fun category info hinfo => ?_, fun category info hinfo => ?_,
      fun category info hinfo => ?_⟩
    · rw [KeyedMap.contains, hempty] at hin
      cases hin
    · rw [hnil] at hlast
      cases hlast
    · rw [KeyedMap.contains, hempty]
      rfl
    all_goals
      rw [hempty] at hinfo
      cases hinfo
  | some record =>
    obtain ⟨peerType, summary⟩ := record
    obtain ⟨⟨last, hlast, htype⟩, hconnected, hrequested, hreceived, hadded⟩ := hreflects
    have hin {category : PeerType} (hcontains : (c.peerInfo category).contains peer = true) :
        peerType = category := by
      by_contra hne
      rw [KeyedMap.contains, h.find?_eq, if_neg hne] at hcontains
      cases hcontains
    have hsame {category : PeerType} {info : DiagnosticPeerInfo}
        (hinfo : (c.peerInfo category).find? peer = some info) : summary = info := by
      have heq := hin (Option.isSome_of_eq_some hinfo)
      rw [h.find?_eq, if_pos heq] at hinfo
      exact Option.some.inj hinfo
    refine ⟨fun category category' hleft hright => (hin hleft).symm.trans (hin hright),
      fun other hother => ?_, fun hnil => ?_, fun category info hinfo => ?_,
      fun category info hinfo => ?_, fun category info hinfo => ?_, fun category info hinfo => ?_⟩
    · rw [hlast, Option.some.injEq] at hother
      rw [← hother, KeyedMap.contains, h.find?_eq, if_pos htype.symm]
      rfl
    · rw [hnil] at hlast
      cases hlast
    · rw [← hsame hinfo, hconnected]
    · rw [← hsame hinfo, hrequested]
    · rw [← hsame hinfo, hreceived]
    · rw [← hsame hinfo, hadded]

theorem firstTime_append {kind : DiagnosticData → Bool} {time : SystemTime}
    {history more : List (SystemTime × DiagnosticData)}
    (h : firstTime kind history = some time) : firstTime kind (history ++ more) = some time := by
  rw [firstTime, Option.map_eq_some_iff] at h
  obtain ⟨first, hfirst, htime⟩ := h
  rw [firstTime, List.find?_append, hfirst, Option.some_or, Option.map_some, htime]

theorem sinceKnown_append (peer : PeerId) (events more : List (SystemTime × DiagnosticData))
    (hknown : sinceKnown peer events ≠ []) :
    ∃ added, sinceKnown peer (events ++ more) = sinceKnown peer events ++ added := by
  refine ⟨more.filter fun event => event.2.peerId = peer, ?_⟩
  rw [sinceKnown, List.filter_append, List.dropWhile_append, if_neg]
  · rfl
  · rw [List.isEmpty_iff]
    exact hknown

/-- After any events, a peer is in at most one of the five maps, that of the type of its last event,
with the times of its first connection and request and the saturating sums of its responses since it
became known; and a time that was set is never changed by later events. -/
theorem diagnostics_kept (events more : List (SystemTime × DiagnosticData)) (peer : PeerId) :
    (after receive new events).KeepsRecord peer (sinceKnown peer events) ∧
      ∀ category info, ((after receive new events).peerInfo category).find? peer = some info →
        ∃ category' info',
          ((after receive new (events ++ more)).peerInfo category').find? peer = some info' ∧
          (∀ time, info.connectedAt = some time → info'.connectedAt = some time) ∧
          ∀ time, info.requestedPeersAt = some time → info'.requestedPeersAt = some time := by
  have hkept := keepsRecord_of_holds (holds_after events peer) (reflects_recordOf peer events)
  refine ⟨hkept, fun category info hinfo => ?_⟩
  have hlater := keepsRecord_of_holds (holds_after (events ++ more) peer)
    (reflects_recordOf peer (events ++ more))
  have hknown : sinceKnown peer events ≠ [] := by
    intro hnil
    have hnone := hkept.unknown hnil category
    rw [KeyedMap.contains, hinfo] at hnone
    cases hnone
  obtain ⟨rest, hrest⟩ := sinceKnown_append peer events more hknown
  have hnonempty : sinceKnown peer (events ++ more) ≠ [] := by
    rw [hrest]
    exact List.append_ne_nil_of_left_ne_nil hknown rest
  have hin := hlater.located _ (List.getLast?_eq_some_getLast hnonempty)
  obtain ⟨info', hinfo'⟩ := Option.isSome_iff_exists.mp hin
  refine ⟨_, info', hinfo', fun time htime => ?_, fun time htime => ?_⟩
  · rw [hkept.connectedAt category info hinfo] at htime
    rw [hlater.connectedAt _ info' hinfo', hrest]
    exact firstTime_append htime
  · rw [hkept.requestedPeersAt category info hinfo] at htime
    rw [hlater.requestedPeersAt _ info' hinfo', hrest]
    exact firstTime_append htime

end DiagnosticsCollector

end ShaP2Pool
