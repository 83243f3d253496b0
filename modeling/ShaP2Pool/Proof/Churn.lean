import ShaP2Pool.Proof.Peers
import ShaP2Pool.Server.Connections

/-!
# Connection churn

Squad peers are disconnected by twos, the one that claims the least work for each algorithm among
those that are left. So five or six of them stay, according to parity, and whoever goes claims no
more than anyone who stays for one of the algorithms. Of the peers of other squads the relays stay,
and at most one that is no relay.
-/

namespace ShaP2Pool

variable {squadPeers : List PeerStoreRecord} {rounds : Nat}

theorem removeWorst_spec (algo : PowAlgorithm) (h : squadPeers ≠ []) : ∃ rest worst,
    removeWorst algo squadPeers = some (rest, worst) ∧ squadPeers.Perm (worst :: rest) ∧
      ∀ r ∈ rest, worst.peerInfo.currentPow algo ≤ r.peerInfo.currentPow algo := by
  let claimsMore (a b : PeerStoreRecord) : Prop :=
    b.peerInfo.currentPow algo ≤ a.peerInfo.currentPow algo
  have : Std.Total claimsMore := ⟨fun a b => Nat.le_total _ _⟩
  have : IsTrans PeerStoreRecord claimsMore := ⟨fun a b c h h' => Nat.le_trans h' h⟩
  have hperm := List.perm_insertionSort claimsMore squadPeers
  have hsorted := List.pairwise_insertionSort claimsMore squadPeers
  change ∃ rest worst, ((squadPeers.insertionSort claimsMore).getLast?.map fun peer =>
    ((squadPeers.insertionSort claimsMore).dropLast, peer)) = some (rest, worst) ∧ _
  generalize squadPeers.insertionSort claimsMore = sorted at hperm hsorted
  obtain rfl | ⟨rest, worst, rfl⟩ := List.eq_nil_or_concat' sorted
  · exact absurd hperm.nil_eq.symm h
  · refine ⟨rest, worst, ?_, ?_, fun r hr => ?_⟩
    · rw [List.getLast?_concat, Option.map_some, List.dropLast_concat]
    · exact hperm.symm.trans (List.perm_append_singleton worst rest)
    · exact (List.pairwise_append.mp hsorted).2.2 r hr worst (List.mem_singleton_self worst)

def peersKept (n : Nat) : Nat := min n (6 - n % 2)

/-- The loop ends, as it takes two peers away in each round, and never runs out of peers. -/
theorem churnSquadPeers_spec (hrounds : squadPeers.length ≤ 6 + 2 * rounds) : ∃ gone kept,
    churnSquadPeers rounds squadPeers = some (gone, kept) ∧ squadPeers.Perm (gone ++ kept) ∧
      kept.length = peersKept squadPeers.length ∧
      ∀ g ∈ gone, ∃ algo, ∀ k ∈ kept, g.peerInfo.currentPow algo ≤ k.peerInfo.currentPow algo := by
  induction rounds generalizing squadPeers with
  | zero =>
    refine ⟨[], squadPeers, ?_, List.Perm.refl _, ?_, fun g hg => absurd hg List.not_mem_nil⟩
    · rw [churnSquadPeers, if_pos]
      exact hrounds
    · rw [peersKept]
      omega
  | succ rounds ih =>
    have hlimit : maxOutboundSquadPeers - 2 = 6 := rfl
    by_cases hfew : squadPeers.length ≤ maxOutboundSquadPeers - 2
    · refine ⟨[], squadPeers, ?_, List.Perm.refl _, ?_, fun g hg => absurd hg List.not_mem_nil⟩
      · rw [churnSquadPeers, if_pos hfew]
      · rw [peersKept]
        omega
    · obtain ⟨rest, sha3x, hfirst, hperm, hleast⟩ :=
        removeWorst_spec .sha3x (List.ne_nil_of_length_pos (by omega : 0 < squadPeers.length))
      have hlength := hperm.length_eq
      rw [List.length_cons] at hlength
      obtain ⟨rest', randomX, hsecond, hperm', hleast'⟩ :=
        removeWorst_spec .randomX (List.ne_nil_of_length_pos (by omega : 0 < rest.length))
      have hlength' := hperm'.length_eq
      rw [List.length_cons] at hlength'
      obtain ⟨gone, kept, hmore, hparts, hkept, hworst⟩ := ih (show rest'.length ≤ 6 + 2 * rounds by omega)
      have hsub {k : PeerStoreRecord} (hk : k ∈ kept) : k ∈ rest' :=
        hparts.mem_iff.mpr (List.mem_append_right gone hk)
      refine ⟨sha3x :: randomX :: gone, kept, ?_, ?_, ?_, fun g hg => ?_⟩
      · rw [churnSquadPeers, if_neg hfew]
        simp only [hfirst, hsecond, hmore, Option.bind_eq_bind, Option.bind_some, Option.pure_def]
      · exact hperm.trans ((hperm'.trans (hparts.cons randomX)).cons sha3x)
      · rw [hkept, peersKept, peersKept]
        omega
      · obtain rfl | hg := List.mem_cons.mp hg
        · refine ⟨.sha3x, fun k hk => hleast k ?_⟩
          exact hperm'.mem_iff.mpr (List.mem_cons_of_mem randomX (hsub hk))
        · obtain rfl | hg := List.mem_cons.mp hg
          · exact ⟨.randomX, fun k hk => hleast' k (hsub hk)⟩
          · exact hworst g hg

theorem churnNonSquadPeers_eq (relays peers : List PeerId) :
    churnNonSquadPeers relays 0 peers = peers.tail.filter fun peer => !relays.contains peer := by
  have hlater (peers : List PeerId) (n : Nat) : churnNonSquadPeers relays (n + 1) peers =
      peers.filter fun peer => !relays.contains peer := by
    induction peers generalizing n with
    | nil => rfl
    | cons peer peers ih =>
      rw [churnNonSquadPeers, ih, if_pos (by omega : 1 < n + 1 + 1), List.filter_cons]
      cases relays.contains peer <;> rfl
  cases peers with
  | nil => rfl
  | cons peer peers =>
    rw [churnNonSquadPeers, hlater, if_neg (by omega : ¬1 < 0 + 1), ite_self, List.tail_cons]

namespace PeerStore

variable {s : PeerStore} {p : PeerId} {relays connectedPeers : List PeerId}

theorem peerId_of_get {r : PeerStoreRecord} (h : s.get p = some r) : r.peerId = p := by
  obtain h | ⟨-, h⟩ := Option.or_eq_some_iff.mp h
  · obtain h | ⟨-, h⟩ := Option.or_eq_some_iff.mp h
    · exact KeyedMap.key_of_find? h
    · exact KeyedMap.key_of_find? h
  · exact KeyedMap.key_of_find? h

theorem exists_get_of_isSquadPeer (h : s.isSquadPeer p = true) : ∃ r, s.get p = some r := by
  rw [isSquadPeer, peerType] at h
  rw [get, ← Option.isSome_iff_exists, Option.isSome_or, Option.isSome_or]
  split_ifs at h with hwhite hgrey
  · rw [show (s.whitelistPeers.find? p).isSome = true from hwhite]
    rfl
  · rw [show (s.greylistPeers.find? p).isSome = true from hgrey, Bool.or_true]
    rfl

theorem map_get_squadPeers (peers : List PeerId) (h : ∀ p ∈ peers, s.isSquadPeer p = true) :
    (peers.filterMap s.get).map (·.peerId) = peers := by
  induction peers with
  | nil => rfl
  | cons peer peers ih =>
    obtain ⟨r, hr⟩ := exists_get_of_isSquadPeer (h peer List.mem_cons_self)
    rw [List.filterMap_cons, hr]
    simp only
    rw [List.map_cons, peerId_of_get hr, ih fun p hp => h p (List.mem_cons_of_mem peer hp)]

def claimedPow (s : PeerStore) (algo : PowAlgorithm) (p : PeerId) : Nat :=
  ((s.get p).map fun r => r.peerInfo.currentPow algo).getD 0

/-- What the churn does to the connections. -/
structure Churned (s : PeerStore) (relays connectedPeers gone : List PeerId) : Prop where
  connected : ∀ p ∈ gone, p ∈ connectedPeers
  squadPeersKept : ((connectedPeers.filter s.isSquadPeer).filter fun p => !gone.contains p).length =
    peersKept (connectedPeers.filter s.isSquadPeer).length
  /-- a squad peer that goes claims no more than any that stays, for one of the algorithms -/
  weakest : ∀ p ∈ gone, s.isSquadPeer p = true → ∃ algo, ∀ q ∈ connectedPeers,
    s.isSquadPeer q = true → q ∉ gone → s.claimedPow algo p ≤ s.claimedPow algo q
  relaysKept : ∀ p ∈ relays, s.isSquadPeer p = false → p ∉ gone
  oneOther : (connectedPeers.filter fun p =>
    !s.isSquadPeer p && !relays.contains p && !gone.contains p).length ≤ 1

theorem exists_squadParts (s : PeerStore) (connectedPeers : List PeerId) : ∃ gone kept,
    churnSquadPeers ((connectedPeers.filter s.isSquadPeer).filterMap s.get).length
        ((connectedPeers.filter s.isSquadPeer).filterMap s.get) = some (gone, kept) ∧
      (connectedPeers.filter s.isSquadPeer).Perm (gone.map (·.peerId) ++ kept.map (·.peerId)) ∧
      (∀ r ∈ gone ++ kept, s.get r.peerId = some r) ∧
      kept.length = peersKept (connectedPeers.filter s.isSquadPeer).length ∧
      ∀ g ∈ gone, ∃ algo, ∀ k ∈ kept, g.peerInfo.currentPow algo ≤ k.peerInfo.currentPow algo := by
  have hids := map_get_squadPeers (connectedPeers.filter s.isSquadPeer)
    fun p hp => (List.mem_filter.mp hp).2
  have hrecord : ∀ r ∈ (connectedPeers.filter s.isSquadPeer).filterMap s.get,
      s.get r.peerId = some r := by
    intro r hr
    obtain ⟨p, -, hp⟩ := List.mem_filterMap.mp hr
    rwa [peerId_of_get hp]
  generalize (connectedPeers.filter s.isSquadPeer).filterMap s.get = records at hids hrecord
  obtain ⟨gone, kept, hchurn, hparts, hkept, hweakest⟩ :=
    churnSquadPeers_spec (show records.length ≤ 6 + 2 * records.length by omega)
  have hidParts := hparts.map (·.peerId)
  rw [hids, List.map_append] at hidParts
  refine ⟨gone, kept, hchurn, hidParts, fun r hr => hrecord r (hparts.mem_iff.mpr hr), ?_, hweakest⟩
  rw [hkept, ← hids, List.length_map]

theorem churnNonSquadPeers_spec (relays peers : List PeerId) :
    (∀ p ∈ churnNonSquadPeers relays 0 peers, p ∈ peers ∧ p ∉ relays) ∧
      (peers.filter fun p =>
        !relays.contains p && !(churnNonSquadPeers relays 0 peers).contains p).length ≤ 1 := by
  rw [churnNonSquadPeers_eq]
  constructor
  · intro p hp
    obtain ⟨htail, hrelay⟩ := List.mem_filter.mp hp
    exact ⟨List.mem_of_mem_tail htail, by simpa using hrelay⟩
  · cases peers with
    | nil => exact Nat.zero_le 1
    | cons first peers =>
      have hnone : (peers.filter fun p => !relays.contains p &&
          !(peers.filter fun p => !relays.contains p).contains p) = [] := by
        refine List.filter_eq_nil_iff.mpr fun p hp => ?_
        simp [hp]
      rw [List.tail_cons, List.filter_cons, hnone]
      split_ifs
      · exact Nat.le_refl 1
      · exact Nat.zero_le 1

/-- The churn never fails, and trims the connections in this way, whatever the peers claim. -/
theorem connectionChurn_trims (s : PeerStore) (relays connectedPeers : List PeerId)
    (hnodup : connectedPeers.Nodup) :
    ∃ gone, s.connectionChurn relays connectedPeers = some gone ∧
      s.Churned relays connectedPeers gone := by
  obtain ⟨gone, kept, hchurn, hparts, hrecord, hkept, hweakest⟩ :=
    exists_squadParts s connectedPeers
  obtain ⟨hother, hone⟩ :=
    churnNonSquadPeers_spec relays (connectedPeers.filter fun p => !s.isSquadPeer p)
  have hrun : s.connectionChurn relays connectedPeers =
      some (churnNonSquadPeers relays 0 (connectedPeers.filter fun p => !s.isSquadPeer p) ++
        gone.map (·.peerId)) := by
    simp only [connectionChurn, hchurn, Option.bind_eq_bind, Option.bind_some, Option.pure_def]
  generalize churnNonSquadPeers relays 0 (connectedPeers.filter fun p => !s.isSquadPeer p) = other
    at hother hone hrun
  obtain ⟨-, -, hdisjoint⟩ := List.nodup_append.mp (hparts.nodup_iff.mp (hnodup.filter _))
  have hgoneSquad {p : PeerId} (hp : p ∈ gone.map (·.peerId)) :
      p ∈ connectedPeers ∧ s.isSquadPeer p = true :=
    List.mem_filter.mp (hparts.mem_iff.mpr (List.mem_append_left _ hp))
  have hkeptSquad {p : PeerId} (hp : p ∈ kept.map (·.peerId)) :
      p ∈ connectedPeers ∧ s.isSquadPeer p = true :=
    List.mem_filter.mp (hparts.mem_iff.mpr (List.mem_append_right _ hp))
  have hotherSpec {p : PeerId} (hp : p ∈ other) :
      p ∈ connectedPeers ∧ s.isSquadPeer p = false ∧ p ∉ relays := by
    obtain ⟨hmem, hrelay⟩ := hother p hp
    obtain ⟨hconnected, hnot⟩ := List.mem_filter.mp hmem
    exact ⟨hconnected, by simpa using hnot, hrelay⟩
  -- a squad peer goes or stays as the loop says
  have hgone_iff {p : PeerId} (hsquad : s.isSquadPeer p = true) :
      p ∈ other ++ gone.map (·.peerId) ↔ p ∈ gone.map (·.peerId) := by
    rw [List.mem_append, or_iff_right]
    intro hp
    rw [(hotherSpec hp).2.1] at hsquad
    cases hsquad
  refine ⟨_, hrun, ?_, ?_, ?_, ?_, ?_⟩
  · intro p hp
    obtain hp | hp := List.mem_append.mp hp
    · exact (hotherSpec hp).1
    · exact (hgoneSquad hp).1
  · have hleave : (gone.map (·.peerId)).filter
        (fun p => !(other ++ gone.map (·.peerId)).contains p) = [] := by
      refine List.filter_eq_nil_iff.mpr fun p hp => ?_
      rw [List.contains_iff_mem.mpr (List.mem_append_right other hp)]
      exact Bool.false_ne_true
    have hstay : (kept.map (·.peerId)).filter
        (fun p => !(other ++ gone.map (·.peerId)).contains p) = kept.map (·.peerId) := by
      refine List.filter_eq_self.mpr fun p hp => ?_
      have hnot : p ∉ other ++ gone.map (·.peerId) := by
        rw [hgone_iff (hkeptSquad hp).2]
        exact fun hgone => hdisjoint p hgone p hp rfl
      rw [Bool.eq_false_iff.mpr (mt List.contains_iff_mem.mp hnot)]
      rfl
    rw [(hparts.filter _).length_eq, List.filter_append, hleave, hstay, List.nil_append,
      List.length_map, hkept]
  · intro p hp hsquad
    obtain ⟨g, hg, rfl⟩ := List.mem_map.mp ((hgone_iff hsquad).mp hp)
    obtain ⟨algo, hleast⟩ := hweakest g hg
    refine ⟨algo, fun q hq hqSquad hqStays => ?_⟩
    have hqParts := hparts.mem_iff.mp (List.mem_filter.mpr ⟨hq, hqSquad⟩)
    rw [List.mem_append, or_iff_right (mt (hgone_iff hqSquad).mpr hqStays)] at hqParts
    obtain ⟨k, hk, rfl⟩ := List.mem_map.mp hqParts
    rw [claimedPow, claimedPow, hrecord g (List.mem_append_left _ hg),
      hrecord k (List.mem_append_right _ hk)]
    exact hleast k hk
  · intro p hrelay hsquad hp
    obtain hp | hp := List.mem_append.mp hp
    · exact (hotherSpec hp).2.2 hrelay
    · rw [(hgoneSquad hp).2] at hsquad
      cases hsquad
  · rw [List.filter_filter] at hone
    refine Nat.le_trans (List.Sublist.length_le (List.monotone_filter_right _ fun p hp => ?_)) hone
    simp only [Bool.and_eq_true, Bool.not_eq_true', List.contains_eq_mem,
      decide_eq_false_iff_not, List.mem_append, not_or] at hp ⊢
    exact ⟨⟨hp.1.2, hp.2.1⟩, hp.1.1⟩

def churnSample : PeerStore :=
  (List.range 9).foldl (fun s i => (s.add 0 i
    { squad := "", currentSha3xPow := i, currentRandomXPow := 3 * i % 7 }).1) (new "")

theorem connectionChurn_trims_nine : ∃ gone,
    churnSample.connectionChurn [20] (List.range 9 ++ [10, 20, 11]) = some gone ∧
      churnSample.Churned [20] (List.range 9 ++ [10, 20, 11]) gone :=
  connectionChurn_trims churnSample [20] (List.range 9 ++ [10, 20, 11]) (by decide)

end PeerStore

end ShaP2Pool
