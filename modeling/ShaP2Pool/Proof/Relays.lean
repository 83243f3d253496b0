import ShaP2Pool.Server.Connections
import ShaP2Pool.Library.Trace

/-!
# Relays

Whatever events arrive in whatever order, a node listens by way of a relay only on addresses which
some peer gave of itself when it offered to relay, and a peer counts as an active relay only until
the last reservation that it granted runs out. Reservations that run out soon are renewed.
-/

namespace ShaP2Pool

namespace RelayStore

open Trace

/-- What happens to a relay store. -/
inductive RelayOp
  | identified (isSelf isSeedNode isSeedPeer : Bool) (peerId : PeerId) (info : Info)
  | accepted (now : Instant) (relayPeerId : PeerId) (limit : Option (Option Nat))
  | job (ord : IterOrder) (now : Instant) (listenOn : Multiaddr → Bool) (numExternalAddresses : Nat)
      (isPrivateNat : Bool)

def step (s : RelayStore) : RelayOp → RelayStore
  | .identified isSelf isSeedNode isSeedPeer peerId info =>
    s.handlePeerIdentified isSelf isSeedNode isSeedPeer peerId info
  | .accepted now relayPeerId limit => s.reservationReqAccepted now relayPeerId limit
  | .job ord now listenOn numExternalAddresses isPrivateNat =>
    (s.relayJob ord now listenOn numExternalAddresses isPrivateNat).1

/-- The addresses that the swarm is asked to listen on. -/
def listens (s : RelayStore) : RelayOp → List Multiaddr
  | .job ord now listenOn numExternalAddresses isPrivateNat =>
    (s.relayJob ord now listenOn numExternalAddresses isPrivateNat).2
  | _ => []

/-- The peer, no seed, identified itself as a relay at the address. -/
def Offers (op : RelayOp) (peer : PeerId) (address : Multiaddr) : Prop :=
  ∃ info, op = .identified false false false peer info ∧ info.isRelay = true ∧
    address ∈ info.listenAddrs ∧ isP2pAddressWithoutCircuit address = true

def grant (peer : PeerId) : RelayOp → Option Instant
  | .accepted now relayPeerId (some duration) =>
    if relayPeerId = peer then some (now + duration.getD (durationFromSecs 60)) else none
  | _ => none

/-- Until when the last reservation that the peer granted lasts. -/
def lastGrant (peer : PeerId) (ops : List RelayOp) : Option Instant := ops.reverse.findSome? (grant peer)

variable {s : RelayStore} {ops : List RelayOp} {op : RelayOp} {peer : PeerId} {address : Multiaddr}
  {relays : List (PeerId × Multiaddr)} {listenOn : Multiaddr → Bool}

theorem lastGrant_snoc : lastGrant peer (ops ++ [op]) = (grant peer op).or (lastGrant peer ops) := by
  rw [lastGrant, List.reverse_append, List.reverse_singleton, List.singleton_append,
    List.findSome?_cons]
  cases grant peer op <;> rfl

/-! ### Attempts -/

def noteAttempt (s : RelayStore) (relay : PeerId × Multiaddr) : RelayStore :=
  if isP2pAddressWithoutCircuit relay.2 then s.addPendingReservation relay.1 relay.2 else s

theorem attemptAll_eq : s.attemptAll listenOn relays =
    (relays.foldl noteAttempt s, (relays.filter fun relay => isP2pAddressWithoutCircuit relay.2).map
      fun relay => relay.2 ++ [.p2pCircuit]) := by
  induction relays generalizing s with
  | nil => rfl
  | cons relay relays ih =>
    obtain ⟨peer, address⟩ := relay
    have hone : s.attemptRelayReservation listenOn peer [address] =
        (s.noteAttempt (peer, address),
          if isP2pAddressWithoutCircuit address then [address ++ [.p2pCircuit]] else []) := by
      simp only [attemptRelayReservation, noteAttempt]
      cases isP2pAddressWithoutCircuit address
      · rfl
      · cases listenOn (address ++ [.p2pCircuit]) <;> rfl
    simp only [attemptAll, hone, ih, List.filter_cons]
    cases isP2pAddressWithoutCircuit address <;> rfl

theorem find?_addPendingReservation (s : RelayStore) (peer : PeerId) (address : Multiaddr)
    (p : PeerId) : (s.addPendingReservation peer address).activeReservations.find? p =
      if p = peer then some ⟨peer, address, (s.activeReservations.find? peer).bind (·.expiresAt), true⟩
      else s.activeReservations.find? p := by
  rw [addPendingReservation]
  cases hfind : s.activeReservations.find? peer with
  | none =>
    dsimp only
    rw [KeyedMap.find?_insert]
    rfl
  | some reservation =>
    have hkey := KeyedMap.key_of_find? hfind
    dsimp only
    rw [KeyedMap.find?_insert, hkey]
    subst hkey
    rfl

/-! ### What the store holds is backed by what happened -/

structure Backed (ops : List RelayOp) (s : RelayStore) : Prop where
  offered : ∀ p a, a ∈ s.addressesOf p → ∃ op ∈ ops, Offers op p a
  reserved : ∀ p r, s.activeReservations.find? p = some r → ∃ op ∈ ops, Offers op p r.address
  granted : ∀ p r t, s.activeReservations.find? p = some r → r.expiresAt = some t →
    lastGrant p ops = some t

theorem backed_empty : empty.Backed [] where
  offered p a ha := by cases ha
  reserved p r hr := by cases hr
  granted p r t hr := by cases hr

namespace Backed

variable (h : s.Backed ops)

include h

theorem addPendingReservation (hoffer : ∃ op ∈ ops, Offers op peer address) :
    (s.addPendingReservation peer address).Backed ops where
  offered p a ha := by
    have hsame : (s.addPendingReservation peer address).possibleRelays = s.possibleRelays := by
      rw [RelayStore.addPendingReservation]
      cases s.activeReservations.find? peer <;> rfl
    rw [addressesOf, hsame] at ha
    exact h.offered p a ha
  reserved p r hr := by
    rw [find?_addPendingReservation] at hr
    split_ifs at hr with hp
    · cases hr
      exact hp ▸ hoffer
    · exact h.reserved p r hr
  granted p r t hr ht := by
    rw [find?_addPendingReservation] at hr
    split_ifs at hr with hp
    · cases hr
      obtain ⟨old, hold, hexpires⟩ := Option.bind_eq_some_iff.mp ht
      exact hp ▸ h.granted peer old t hold hexpires
    · exact h.granted p r t hr ht

theorem foldl_noteAttempt (hoffers : ∀ relay ∈ relays, ∃ op ∈ ops, Offers op relay.1 relay.2) :
    (relays.foldl noteAttempt s).Backed ops := by
  induction relays generalizing s with
  | nil => exact h
  | cons relay relays ih =>
    have hnext : (s.noteAttempt relay).Backed ops := by
      rw [noteAttempt]
      split_ifs
      · exact h.addPendingReservation (hoffers relay List.mem_cons_self)
      · exact h
    exact ih hnext fun relay' hrelay => hoffers relay' (List.mem_cons_of_mem relay hrelay)

theorem snoc (hgrant : ∀ p, grant p op = none) : s.Backed (ops ++ [op]) where
  offered p a ha := by
    obtain ⟨offer, hmem, hoffers⟩ := h.offered p a ha
    exact ⟨offer, List.mem_append_left _ hmem, hoffers⟩
  reserved p r hr := by
    obtain ⟨offer, hmem, hoffers⟩ := h.reserved p r hr
    exact ⟨offer, List.mem_append_left _ hmem, hoffers⟩
  granted p r t hr ht := by
    rw [lastGrant_snoc, hgrant, Option.none_or]
    exact h.granted p r t hr ht

theorem addPossibleRelay (hoffer : ∃ op ∈ ops, Offers op peer address) :
    (s.addPossibleRelay peer address).1.Backed ops := by
  rw [RelayStore.addPossibleRelay]
  split_ifs
  · exact h
  · refine ⟨fun p a ha => ?_, h.reserved, h.granted⟩
    simp only [addressesOf, KeyedMap.find?_insert] at ha
    split_ifs at ha with hp
    · subst hp
      obtain ha | ha := List.mem_append.mp ha
      · exact h.offered p a ha
      · exact List.mem_singleton.mp ha ▸ hoffer
    · exact h.offered p a ha

theorem identified {isSelf isSeedNode isSeedPeer : Bool} {info : Info} :
    (s.handlePeerIdentified isSelf isSeedNode isSeedPeer peer info).Backed
      (ops ++ [.identified isSelf isSeedNode isSeedPeer peer info]) := by
  have hsame : s.Backed (ops ++ [.identified isSelf isSeedNode isSeedPeer peer info]) :=
    h.snoc fun _ => rfl
  cases isSelf with
  | true => exact hsame
  | false =>
    cases isSeedNode with
    | true => exact hsame
    | false =>
      suffices hall : ∀ addrs ⊆ info.listenAddrs, ∀ s : RelayStore,
          s.Backed (ops ++ [.identified false false isSeedPeer peer info]) →
            (addrs.foldl (fun s addr =>
              if isP2pAddressWithoutCircuit addr && info.isRelay && !isSeedPeer then
                (s.addPossibleRelay peer addr).1
              else s) s).Backed (ops ++ [.identified false false isSeedPeer peer info]) from
        hall info.listenAddrs (List.Subset.refl _) s hsame
      intro addrs hsub
      induction addrs with
      | nil => exact fun s hs => hs
      | cons addr addrs ih =>
        obtain ⟨hlisted, hrest⟩ := List.cons_subset.mp hsub
        intro s hs
        rw [List.foldl_cons]
        refine ih hrest _ ?_
        split_ifs with hrelay
        · simp only [Bool.and_eq_true, Bool.not_eq_true'] at hrelay
          obtain ⟨⟨haddr, hhop⟩, rfl⟩ := hrelay
          exact hs.addPossibleRelay ⟨_, List.mem_append_right _ (List.mem_singleton_self _), info, rfl,
            hhop, hlisted, haddr⟩
        · exact hs

theorem accepted {now : Instant} {limit : Option (Option Nat)} :
    (s.reservationReqAccepted now peer limit).Backed (ops ++ [.accepted now peer limit]) := by
  cases limit with
  | none => exact h.snoc fun _ => rfl
  | some duration =>
    let confirmed (r : Reservation) : Reservation :=
      { r with pending := false, expiresAt := some (now + duration.getD (durationFromSecs 60)) }
    have hconfirmed (p : PeerId) :
        (s.reservationReqAccepted now peer (some duration)).activeReservations.find? p =
          if p = peer then (s.activeReservations.find? peer).map confirmed
          else s.activeReservations.find? p :=
      KeyedMap.find?_update (f := confirmed) (fun _ => rfl) peer p
    refine ⟨fun p a ha => ?_, fun p r hr => ?_, fun p r t hr ht => ?_⟩
    · obtain ⟨offer, hmem, hoffers⟩ := h.offered p a ha
      exact ⟨offer, List.mem_append_left _ hmem, hoffers⟩
    · obtain ⟨old, hold, haddress⟩ :
          ∃ old, s.activeReservations.find? p = some old ∧ old.address = r.address := by
        rw [hconfirmed] at hr
        split_ifs at hr with hp
        · obtain ⟨old, hold, rfl⟩ := Option.map_eq_some_iff.mp hr
          exact ⟨old, hp ▸ hold, rfl⟩
        · exact ⟨r, hr, rfl⟩
      obtain ⟨offer, hmem, hoffers⟩ := h.reserved p old hold
      exact ⟨offer, List.mem_append_left _ hmem, haddress ▸ hoffers⟩
    · rw [hconfirmed] at hr
      rw [lastGrant_snoc, grant]
      split_ifs at hr with hp
      · obtain ⟨old, -, rfl⟩ := Option.map_eq_some_iff.mp hr
        rw [if_pos hp.symm, Option.some_or]
        exact ht
      · rw [if_neg (Ne.symm hp), Option.none_or]
        exact h.granted p r t hr ht

theorem offers_of_mem_expiring {ord : IterOrder} {now : Instant} {withinDuration : Nat}
    {relay : PeerId × Multiaddr} (hrelay : relay ∈ s.getExpiringReservations ord now withinDuration) :
    ∃ op ∈ ops, Offers op relay.1 relay.2 := by
  obtain ⟨r, hr, hsome⟩ := List.mem_filterMap.mp hrelay
  have hfind := KeyedMap.find?_of_mem_values ((ord.mem_run 2).mp hr)
  obtain ⟨t, ht⟩ : ∃ t, r.expiresAt = some t := by
    cases hexpires : r.expiresAt with
    | none => simp [hexpires] at hsome
    | some t => exact ⟨t, rfl⟩
  simp only [ht] at hsome
  split_ifs at hsome
  cases hsome
  exact h.reserved r.peer r hfind

theorem offers_of_mem_potential {ord : IterOrder} {relay : PeerId × Multiaddr}
    (hrelay : relay ∈ s.getPotentialRelays ord) : ∃ op ∈ ops, Offers op relay.1 relay.2 := by
  obtain ⟨r, hr, haddress⟩ := List.mem_flatMap.mp hrelay
  obtain ⟨a, ha, rfl⟩ := List.mem_map.mp haddress
  have hfind := KeyedMap.find?_of_mem_values ((ord.mem_run 0).mp hr)
  refine h.offered r.peer a ?_
  rw [addressesOf, hfind]
  exact (ord.mem_run 1).mp ha

theorem attemptAll (listenOn : Multiaddr → Bool)
    (hoffers : ∀ relay ∈ relays, ∃ op ∈ ops, Offers op relay.1 relay.2) :
    (s.attemptAll listenOn relays).1.Backed ops ∧ ∀ l ∈ (s.attemptAll listenOn relays).2,
      ∃ op ∈ ops, ∃ p a, Offers op p a ∧ l = a ++ [.p2pCircuit] := by
  rw [attemptAll_eq]
  refine ⟨h.foldl_noteAttempt hoffers, fun l hl => ?_⟩
  obtain ⟨relay, hrelay, rfl⟩ := List.mem_map.mp hl
  obtain ⟨op, hop, hoffer⟩ := hoffers relay (List.mem_of_mem_filter hrelay)
  exact ⟨op, hop, relay.1, relay.2, hoffer, rfl⟩

theorem relayJob {ord : IterOrder} {now : Instant} {numExternalAddresses : Nat} {isPrivateNat : Bool} :
    (s.relayJob ord now listenOn numExternalAddresses isPrivateNat).1.Backed ops ∧
      ∀ l ∈ (s.relayJob ord now listenOn numExternalAddresses isPrivateNat).2,
        ∃ op ∈ ops, ∃ p a, Offers op p a ∧ l = a ++ [.p2pCircuit] := by
  have hrenewal := h.attemptAll listenOn
    fun relay (hrelay : relay ∈ s.getExpiringReservations ord now (durationFromSecs 60)) =>
      h.offers_of_mem_expiring hrelay
  rw [RelayStore.relayJob]
  generalize s.attemptAll listenOn (s.getExpiringReservations ord now (durationFromSecs 60)) = renewal
    at hrenewal
  obtain ⟨s', renewed⟩ := renewal
  obtain ⟨hrenewed, hlistens⟩ := hrenewal
  have hsearch := hrenewed.attemptAll listenOn
    fun relay (hrelay : relay ∈ (s'.getPotentialRelays ord).take 3) =>
      hrenewed.offers_of_mem_potential (List.mem_of_mem_take hrelay)
  dsimp only
  split_ifs
  · refine ⟨hsearch.1, fun l hl => ?_⟩
    obtain hl | hl := List.mem_append.mp hl
    · exact hlistens l hl
    · exact hsearch.2 l hl
  · exact ⟨hrenewed, hlistens⟩

end Backed

/-- Everything that happens keeps the store backed. -/
theorem Backed.step (h : s.Backed ops) : (s.step op).Backed (ops ++ [op]) := by
  cases op with
  | identified isSelf isSeedNode isSeedPeer peerId info => exact h.identified
  | accepted now relayPeerId limit => exact h.accepted
  | job ord now listenOn numExternalAddresses isPrivateNat => exact h.relayJob.1.snoc fun _ => rfl

theorem backed_after (ops : List RelayOp) : (after step empty ops).Backed ops := by
  induction ops using List.reverseRecOn with
  | nil => exact backed_empty
  | append_singleton ops op ih => exact after_snoc ▸ ih.step

/-! ### Renewals -/

theorem mem_listens_of_expiring (h : s.Backed ops) {ord : IterOrder} {now t : Instant}
    {numExternalAddresses : Nat} {isPrivateNat : Bool} {r : Reservation}
    (hr : s.activeReservations.find? peer = some r) (ht : r.expiresAt = some t)
    (hsoon : t < now + durationFromSecs 60) :
    r.address ++ [.p2pCircuit] ∈
      s.listens (.job ord now listenOn numExternalAddresses isPrivateNat) := by
  have hexpiring : (r.peer, r.address) ∈ s.getExpiringReservations ord now (durationFromSecs 60) := by
    refine List.mem_filterMap.mpr ⟨r, (ord.mem_run 2).mpr (KeyedMap.mem_values_of_find? hr), ?_⟩
    simp only [ht, if_pos hsoon]
  obtain ⟨-, -, -, -, -, -, hcircuit⟩ := h.reserved peer r hr
  have hrenewed : r.address ++ [.p2pCircuit] ∈
      (s.attemptAll listenOn (s.getExpiringReservations ord now (durationFromSecs 60))).2 := by
    rw [attemptAll_eq]
    exact List.mem_map.mpr ⟨_, List.mem_filter.mpr ⟨hexpiring, hcircuit⟩, rfl⟩
  rw [listens, relayJob]
  generalize s.attemptAll listenOn (s.getExpiringReservations ord now (durationFromSecs 60)) = renewal
    at hrenewed
  obtain ⟨s', renewed⟩ := renewal
  dsimp only
  split_ifs
  · exact List.mem_append_left _ hrenewed
  · exact hrenewed

/-! ### Nodes that can be reached -/

/-- The operation looks for relays. -/
def Searches : RelayOp → Prop
  | .job _ _ _ numExternalAddresses isPrivateNat => numExternalAddresses = 0 ∧ isPrivateNat = true
  | _ => False

theorem activeReservations_handlePeerIdentified {isSelf isSeedNode isSeedPeer : Bool} {info : Info} :
    (s.handlePeerIdentified isSelf isSeedNode isSeedPeer peer info).activeReservations =
      s.activeReservations := by
  rw [handlePeerIdentified]
  split_ifs
  · rfl
  · rfl
  · induction info.listenAddrs generalizing s with
    | nil => rfl
    | cons addr addrs ih =>
      rw [List.foldl_cons, ih]
      split_ifs
      · rw [addPossibleRelay]
        split_ifs <;> rfl
      · rfl

theorem unreserved_step (h : s.activeReservations = KeyedMap.empty) (hop : ¬Searches op) :
    (s.step op).activeReservations = KeyedMap.empty := by
  cases op with
  | identified isSelf isSeedNode isSeedPeer peerId info =>
    exact activeReservations_handlePeerIdentified.trans h
  | accepted now relayPeerId limit =>
    cases limit with
    | none => exact h
    | some duration =>
      rw [step, reservationReqAccepted, confirmReservation, h]
      rfl
  | job ord now listenOn numExternalAddresses isPrivateNat =>
    have hnone : s.getExpiringReservations ord now (durationFromSecs 60) = [] := by
      have hvalues : ord.run 2 s.activeReservations.values = [] := by
        rw [h]
        exact (ord.perm 2 []).eq_nil
      rw [getExpiringReservations, hvalues, List.filterMap_nil]
    rw [step, relayJob, hnone]
    simp only [attemptAll]
    rw [if_neg]
    · exact h
    · intro hsearch
      simp only [Bool.and_eq_true, decide_eq_true_eq] at hsearch
      exact hop hsearch

theorem unreserved_after (hops : ∀ op ∈ ops, ¬Searches op) :
    (after step empty ops).activeReservations = KeyedMap.empty := by
  induction ops using List.reverseRecOn with
  | nil => rfl
  | append_singleton ops op ih =>
    rw [after_snoc]
    have hbefore := ih fun op' hop' => hops op' (List.mem_append_left _ hop')
    exact unreserved_step hbefore (hops op (List.mem_append_right _ (List.mem_singleton_self op)))

/-- Along every run of a node, which starts without relays: what is listened on leads by way of an
address at which a peer offered itself as a relay before, and a reservation is noted with an address
that its own peer offered; an active relay offered itself, and the last reservation that it granted
has not run out; a job renews every reservation that runs out within a minute; and a node that never
was without external addresses behind a NAT has no reservations. -/
theorem relays_backed (ops : List RelayOp) (op : RelayOp) :
    (∀ l ∈ (after step empty ops).listens op, ∃ offer ∈ ops, ∃ peer address,
      Offers offer peer address ∧ l = address ++ [.p2pCircuit]) ∧
    (∀ peer r, (after step empty ops).activeReservations.find? peer = some r →
      ∃ offer ∈ ops, Offers offer peer r.address) ∧
    (∀ ord now, ∀ peer ∈ (after step empty ops).getRelayPeerIds ord now,
      (∃ offer ∈ ops, ∃ address, Offers offer peer address) ∧
        ∃ t, lastGrant peer ops = some t ∧ now < t) ∧
    (∀ ord now listenOn numExternalAddresses isPrivateNat peer r,
      op = .job ord now listenOn numExternalAddresses isPrivateNat →
      (after step empty ops).activeReservations.find? peer = some r →
      (∃ t, r.expiresAt = some t ∧ t < now + durationFromSecs 60) →
      r.address ++ [.p2pCircuit] ∈ (after step empty ops).listens op) ∧
    ((∀ op ∈ ops, ¬Searches op) → (after step empty ops).activeReservations = KeyedMap.empty) := by
  have hbacked := backed_after ops
  refine ⟨fun l hl => ?_, hbacked.reserved, fun ord now peer hpeer => ?_, ?_, unreserved_after⟩
  · cases op with
    | identified isSelf isSeedNode isSeedPeer peerId info => cases hl
    | accepted now relayPeerId limit => cases hl
    | job ord now listenOn numExternalAddresses isPrivateNat => exact hbacked.relayJob.2 l hl
  · obtain ⟨r, hr, hsome⟩ := List.mem_filterMap.mp hpeer
    have hfind := KeyedMap.find?_of_mem_values ((ord.mem_run 3).mp hr)
    cases hexpires : r.expiresAt with
    | none => simp [hexpires] at hsome
    | some t =>
      simp only [hexpires] at hsome
      split_ifs at hsome with hlate
      cases hsome
      obtain ⟨offer, hmem, hoffers⟩ := hbacked.reserved r.peer r hfind
      exact ⟨⟨offer, hmem, r.address, hoffers⟩, t, hbacked.granted r.peer r t hfind hexpires, hlate⟩
  · rintro ord now listenOn numExternalAddresses isPrivateNat peer r rfl hr ⟨t, ht, hsoon⟩
    exact mem_listens_of_expiring hbacked hr ht hsoon

end RelayStore

end ShaP2Pool
