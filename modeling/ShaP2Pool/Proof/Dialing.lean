import ShaP2Pool.Proof.Peers
import ShaP2Pool.Server.Connections

/-!
# Dialing

The search for connections goes through lists of peers, best ones first, and dials those that are
neither connected nor seed peers until enough have been dialed. An attempt is noted in every record
of the peer except those of the blacklist, and all operations but `add` carry the note along, so
that a peer that is not announced again is not dialed twice within two minutes.
-/

namespace ShaP2Pool

namespace PeerStore

open Trace

variable {s : PeerStore} {p q : PeerId} {l l' : PeerList} {now t : Instant}
  {r r' : PeerStoreRecord} {connectedPeers : List PeerId} {records : List PeerStoreRecord}

/-! ### The dialing loop -/

def MayConnect (s : PeerStore) (connectedPeers : List PeerId) (r : PeerStoreRecord) : Prop :=
  r.peerId ∉ connectedPeers ∧ r.peerId ∉ s.seedPeers

instance (s : PeerStore) (connectedPeers : List PeerId) (r : PeerStoreRecord) :
    Decidable (s.MayConnect connectedPeers r) :=
  inferInstanceAs (Decidable (_ ∧ _))

def afterDials (now : Instant) (records : List PeerStoreRecord) (s : PeerStore) : PeerStore :=
  records.foldl (fun s r => s.updateLastDialAttempt now r.peerId) s

def connectable (s : PeerStore) (connectedPeers : List PeerId) (records : List PeerStoreRecord) :
    List PeerStoreRecord :=
  records.filter fun r => s.MayConnect connectedPeers r

/-- The loop dials the first peers of the list that may be connected to, up to its limit, and notes
just these attempts. -/
theorem dialPeers_eq (limit : Nat) {numDialed : Nat} (hroom : numDialed < limit) :
    dialPeers connectedPeers now (fun numDialed => decide (limit ≤ numDialed)) numDialed records s =
      (s.afterDials now ((s.connectable connectedPeers records).take (limit - numDialed)),
        (s.connectable connectedPeers records).take (limit - numDialed)) := by
  induction records generalizing numDialed s with
  | nil =>
    rw [dialPeers, connectable, List.filter_nil, List.take_nil]
    rfl
  | cons record records ih =>
    have hseeds : (s.updateLastDialAttempt now record.peerId).connectable connectedPeers records =
        s.connectable connectedPeers records := rfl
    have hmay : (!connectedPeers.contains record.peerId && !s.isSeedPeer record.peerId) = true ↔
        s.MayConnect connectedPeers record := by
      simp [MayConnect, isSeedPeer]
    rw [dialPeers]
    by_cases hconnect : s.MayConnect connectedPeers record
    · have hcons : s.connectable connectedPeers (record :: records) =
          record :: s.connectable connectedPeers records :=
        List.filter_cons_of_pos (decide_eq_true hconnect)
      obtain ⟨room, hlimit⟩ : ∃ room, limit - numDialed = room + 1 := ⟨limit - numDialed - 1, by omega⟩
      rw [if_pos (hmay.mpr hconnect), hcons, hlimit, List.take_succ_cons]
      simp only [decide_eq_true_eq]
      by_cases hlast : limit ≤ numDialed + 1
      · obtain rfl : room = 0 := by omega
        rw [if_pos hlast, List.take_zero]
        rfl
      · rw [if_neg hlast, ih (by omega), hseeds, show limit - (numDialed + 1) = room by omega]
        rfl
    · have hcons : s.connectable connectedPeers (record :: records) =
          s.connectable connectedPeers records :=
        List.filter_cons_of_neg (mt of_decide_eq_true hconnect)
      rw [if_neg (mt hmay.mp hconnect), hcons, ih hroom]

/-! ### Noted attempts -/

/-- Every record of a peer notes an attempt at the instant `t` or later. -/
def AttemptedSince (t : Instant) (p : PeerId) (s : PeerStore) : Prop :=
  ∀ l r, (s.list l).find? p = some r → ∃ attempt, r.lastDialAttempt = some attempt ∧ t ≤ attempt

def NotesAttempt (t : Instant) (p : PeerId) (r : PeerStoreRecord) : Prop :=
  r.peerId = p → ∃ attempt, r.lastDialAttempt = some attempt ∧ t ≤ attempt

namespace AttemptedSince

variable (h : s.AttemptedSince t p)

include h

theorem notes (hr : (s.list l).find? q = some r) : NotesAttempt t p r := by
  intro hpeer
  rw [KeyedMap.key_of_find? hr] at hpeer
  rw [hpeer] at hr
  exact h l r hr

theorem put (hr : NotesAttempt t p r) : (s.put l r).AttemptedSince t p := by
  intro l' r' hr'
  rw [list_put] at hr'
  split_ifs at hr' with hl
  · rw [KeyedMap.find?_insert] at hr'
    split_ifs at hr' with hkey
    · cases hr'
      exact hr hkey.symm
    · exact h l r' hr'
  · exact h l' r' hr'

theorem drop : (s.drop l q).AttemptedSince t p := by
  intro l' r' hr'
  rw [list_drop] at hr'
  split_ifs at hr' with hl
  · rw [KeyedMap.find?_erase] at hr'
    split_ifs at hr'
    exact h l r' hr'
  · exact h l' r' hr'

theorem touch {f : PeerStoreRecord → PeerStoreRecord} (hid : ∀ r, (f r).peerId = r.peerId)
    (hf : ∀ r, NotesAttempt t p r → NotesAttempt t p (f r)) : (s.touch l q f).AttemptedSince t p := by
  intro l' r' hr'
  rw [list_touch] at hr'
  split_ifs at hr' with hl
  · rw [KeyedMap.find?_update hid] at hr'
    split_ifs at hr' with hq
    · obtain ⟨old, hold, rfl⟩ := Option.map_eq_some_iff.mp hr'
      exact hf old (h.notes hold) ((hid old).trans ((KeyedMap.key_of_find? hold).trans hq.symm))
    · exact h l r' hr'
  · exact h l' r' hr'

theorem setLastPing {timestamp : EpochTime} : (s.setLastPing q timestamp).AttemptedSince t p := by
  have hping (r : PeerStoreRecord) : (r.withLastPing timestamp).peerId = r.peerId := rfl
  cases hgrey : s.greylistPeers.find? q with
  | none =>
    have heq : s.setLastPing q timestamp =
        (s.touch .whitelist q (·.withLastPing timestamp)).touch .blacklist q
          (·.withLastPing timestamp) := by
      simp only [PeerStore.setLastPing, hgrey]
      rfl
    rw [heq]
    exact (h.touch hping fun _ hr => hr).touch hping fun _ hr => hr
  | some entry =>
    have heq : s.setLastPing q timestamp =
        (((s.touch .whitelist q (·.withLastPing timestamp)).drop .greylist q).put .whitelist
          { entry.withLastPing timestamp with numGreyListings := 0 }).touch .blacklist q
            (·.withLastPing timestamp) := by
      simp only [PeerStore.setLastPing, hgrey]
      rfl
    have hentry : NotesAttempt t p entry :=
      h.notes (show (s.list .greylist).find? q = some entry from hgrey)
    have hput : (((s.touch .whitelist q (·.withLastPing timestamp)).drop .greylist q).put .whitelist
        { entry.withLastPing timestamp with numGreyListings := 0 }).AttemptedSince t p :=
      ((h.touch hping fun _ hr => hr).drop).put hentry
    rw [heq]
    exact hput.touch hping fun _ hr => hr

theorem moveToGreyList {reason : String} : (s.moveToGreyList q reason).AttemptedSince t p := by
  rw [PeerStore.moveToGreyList]
  cases hwhite : s.whitelistPeers.find? q with
  | none => exact h
  | some record =>
    have hrecord : NotesAttempt t p record :=
      h.notes (show (s.list .whitelist).find? q = some record from hwhite)
    have hmoved : ((s.drop .whitelist q).put .greylist (record.greylisted reason)).AttemptedSince t p :=
      (h.drop).put hrecord
    exact hmoved

theorem moveToBlacklist : (s.moveToBlacklist q).AttemptedSince t p := by
  rw [PeerStore.moveToBlacklist]
  cases hfound : (s.greylistPeers.find? q).or (s.whitelistPeers.find? q) with
  | none => exact h
  | some record =>
    have hrecord : NotesAttempt t p record := by
      obtain hgrey | ⟨-, hwhite⟩ := Option.or_eq_some_iff.mp hfound
      · exact h.notes (show (s.list .greylist).find? q = some record from hgrey)
      · exact h.notes (show (s.list .whitelist).find? q = some record from hwhite)
    have hmoved : (((s.drop .whitelist q).drop .greylist q).put .blacklist record).AttemptedSince t p :=
      ((h.drop).drop).put hrecord
    exact hmoved

theorem foldl_release (hrecords : ∀ r ∈ records, NotesAttempt t p r) :
    (records.foldl releaseGreyRecord s).AttemptedSince t p := by
  induction records generalizing s with
  | nil => exact h
  | cons r records ih =>
    have hr := hrecords r List.mem_cons_self
    have hnext : (s.releaseGreyRecord r).AttemptedSince t p := by
      rw [releaseGreyRecord]
      split_ifs
      · exact h.put (l := .blacklist) hr
      · exact h
      · exact h.put (l := .whitelist) hr
    exact ih hnext fun r' hr' => hrecords r' (List.mem_cons_of_mem r hr')

theorem foldl_pardon (hrecords : ∀ r ∈ records, NotesAttempt t p r) :
    (records.foldl releaseBlackRecord s).AttemptedSince t p := by
  induction records generalizing s with
  | nil => exact h
  | cons r records ih =>
    have hr := hrecords r List.mem_cons_self
    have hnext : (s.put .whitelist r.pardoned).AttemptedSince t p := h.put hr
    exact ih hnext fun r' hr' => hrecords r' (List.mem_cons_of_mem r hr')

theorem notes_of_mem (hr : r ∈ (s.list l).values) : NotesAttempt t p r :=
  h.notes (KeyedMap.find?_of_mem_values hr)

theorem clearGreyList : s.clearGreyList.AttemptedSince t p := by
  have hempty : ({ s with greylistPeers := KeyedMap.empty } : PeerStore).AttemptedSince t p := by
    intro l r hr
    cases l with
    | greylist => cases hr
    | whitelist => exact h .whitelist r hr
    | blacklist => exact h .blacklist r hr
    | nonSquad => exact h .nonSquad r hr
  exact hempty.foldl_release fun r hr =>
    h.notes_of_mem (show r ∈ (s.list .greylist).values from hr)

theorem clearBlackList : s.clearBlackList.AttemptedSince t p := by
  have hempty : ({ s with blacklistPeers := KeyedMap.empty } : PeerStore).AttemptedSince t p := by
    intro l r hr
    cases l with
    | blacklist => cases hr
    | whitelist => exact h .whitelist r hr
    | greylist => exact h .greylist r hr
    | nonSquad => exact h .nonSquad r hr
  exact hempty.foldl_pardon fun r hr =>
    h.notes_of_mem (show r ∈ (s.list .blacklist).values from hr)

theorem updateLastDialAttempt (hnow : t ≤ now) :
    (s.updateLastDialAttempt now q).AttemptedSince t p := by
  have hdial (r : PeerStoreRecord) : (r.withLastDialAttempt now).peerId = r.peerId := rfl
  have hnotes (r : PeerStoreRecord) (_ : NotesAttempt t p r) :
      NotesAttempt t p (r.withLastDialAttempt now) := fun _ => ⟨now, rfl, hnow⟩
  have heq : s.updateLastDialAttempt now q =
      ((s.touch .whitelist q (·.withLastDialAttempt now)).touch .greylist q
        (·.withLastDialAttempt now)).touch .nonSquad q (·.withLastDialAttempt now) := rfl
  rw [heq]
  exact ((h.touch hdial hnotes).touch hdial hnotes).touch hdial hnotes

theorem updateLastSyncAttempt {algo : PowAlgorithm} :
    (s.updateLastSyncAttempt now q algo).AttemptedSince t p := by
  have hsync (r : PeerStoreRecord) := r.peerId_withSyncAttempt now algo
  have hnotes (r : PeerStoreRecord) (hr : NotesAttempt t p r) :
      NotesAttempt t p (r.withSyncAttempt now algo) := by
    cases algo <;> exact hr
  have heq : s.updateLastSyncAttempt now q algo =
      (s.touch .whitelist q (·.withSyncAttempt now algo)).touch .greylist q
        (·.withSyncAttempt now algo) := rfl
  rw [heq]
  exact (h.touch hsync hnotes).touch hsync hnotes

theorem add {info : PeerInfo} (hne : q ≠ p) : (s.add now q info).1.AttemptedSince t p := by
  obtain ⟨-, heq⟩ | ⟨l, r, -, hr, heq⟩ := add_eq s now q info
  · rw [heq]
    exact h
  · rw [heq]
    exact h.put fun hp => absurd (hr.symm.trans hp) hne

end AttemptedSince

/-- The operation does not add the peer, and its clock is not behind. -/
def PassesOn (t : Instant) (p : PeerId) : PeerStoreOp → Prop
  | .add _ q _ => q ≠ p
  | .updateLastDialAttempt now _ => t ≤ now
  | _ => True

/-- All operations but those that add the peer carry the note along. -/
theorem AttemptedSince.step {op : PeerStoreOp} (h : s.AttemptedSince t p) (hop : PassesOn t p op) :
    (s.step op).AttemptedSince t p := by
  cases op with
  | add now q info => exact h.add hop
  | addSeedPeers peerIds =>
    intro l r hr
    have hsame : (s.addSeedPeers peerIds).list l = s.list l := by cases l <;> rfl
    exact h l r (hsame ▸ hr)
  | setLastPing q timestamp => exact h.setLastPing
  | moveToGreyList q reason => exact h.moveToGreyList
  | moveToBlacklist q => exact h.moveToBlacklist
  | clearGreyList => exact h.clearGreyList
  | clearBlackList => exact h.clearBlackList
  | updateLastDialAttempt now q => exact h.updateLastDialAttempt hop
  | updateLastSyncAttempt now q algo => exact h.updateLastSyncAttempt
  | addCatchUpAttempt q =>
    have htouched : (s.touch .whitelist q fun r =>
        r.withCatchUpAttempts (r.catchUpAttempts + 1)).AttemptedSince t p :=
      h.touch (fun _ => rfl) fun _ hr => hr
    exact htouched
  | resetCatchUpAttempts q =>
    have htouched : (s.touch .whitelist q (·.withCatchUpAttempts 0)).AttemptedSince t p :=
      h.touch (fun _ => rfl) fun _ hr => hr
    exact htouched

theorem attemptedSince_updateLastDialAttempt (hblack : s.isBlacklisted p = false) :
    (s.updateLastDialAttempt now p).AttemptedSince now p := by
  have hdialed {m : PeerMap} {r : PeerStoreRecord}
      (hr : (m.update p (·.withLastDialAttempt now)).find? p = some r) :
      ∃ attempt, r.lastDialAttempt = some attempt ∧ now ≤ attempt := by
    rw [KeyedMap.find?_update fun r => r.peerId_withLastDialAttempt now, if_pos rfl] at hr
    obtain ⟨old, -, rfl⟩ := Option.map_eq_some_iff.mp hr
    exact ⟨now, rfl, Nat.le_refl now⟩
  intro l r hr
  cases l with
  | whitelist => exact hdialed hr
  | greylist => exact hdialed hr
  | nonSquad => exact hdialed hr
  | blacklist =>
    have hnone := KeyedMap.contains_eq_false_iff.mp hblack
    exact absurd (hr.symm.trans hnone) (Option.some_ne_none r)

theorem AttemptedSince.afterDials (h : s.AttemptedSince t p) (hnow : t ≤ now) :
    (s.afterDials now records).AttemptedSince t p := by
  induction records generalizing s with
  | nil => exact h
  | cons r records ih => exact ih (h.updateLastDialAttempt hnow)

theorem attemptedSince_afterDials (hblack : s.isBlacklisted p = false)
    (hmem : p ∈ records.map (·.peerId)) : (s.afterDials now records).AttemptedSince now p := by
  induction records generalizing s with
  | nil => cases hmem
  | cons r records ih =>
    rw [List.map_cons, List.mem_cons] at hmem
    obtain rfl | hmem := hmem
    · exact (attemptedSince_updateLastDialAttempt hblack).afterDials (Nat.le_refl now)
    · exact ih (show (s.updateLastDialAttempt now r.peerId).isBlacklisted p = false from hblack) hmem

theorem AttemptedSince.elapsed {isAddress : String → Bool} (h : s.AttemptedSince t p)
    (hr : (s.list l).find? p = some r) (hmay : mayDial isAddress now r = true) :
    120 < Instant.elapsedSecs now t := by
  obtain ⟨attempt, hattempt, hle⟩ := h l r hr
  rw [mayDial, hattempt, Bool.and_eq_true, decide_eq_true_eq] at hmay
  exact Nat.lt_of_lt_of_le hmay.2 (Nat.div_le_div_right (Nat.sub_le_sub_left hle now))

/-! ### Searches for connections -/

theorem seekNonSquadPeers_eq {ord : IterOrder} {isAddress : String → Bool} :
    s.seekNonSquadPeers ord isAddress now connectedPeers =
      (s.afterDials now (s.seekNonSquadPeers ord isAddress now connectedPeers).2,
        if (s.connectedNonSquadPeers connectedPeers).length < maxOutboundNonSquadPeers then
          (s.connectable connectedPeers (s.randomNonSquadPeersToDial ord isAddress now 20)).take
            maxOutboundNonSquadPeers
        else []) := by
  rw [seekNonSquadPeers]
  split_ifs
  · rw [dialPeers_eq maxOutboundNonSquadPeers (by decide), Nat.sub_zero]
  · rfl

theorem seekNonSquadPeers_fst {ord : IterOrder} {isAddress : String → Bool} :
    (s.seekNonSquadPeers ord isAddress now connectedPeers).1 =
      s.afterDials now (s.seekNonSquadPeers ord isAddress now connectedPeers).2 :=
  congrArg Prod.fst seekNonSquadPeers_eq

theorem seekSquadPeers_eq {ord : IterOrder} {isAddress : String → Bool}
    {randomxEnabled sha3xEnabled : Bool} {squadPeers : Nat} :
    s.seekSquadPeers ord isAddress now randomxEnabled sha3xEnabled connectedPeers squadPeers =
      (s.afterDials now (s.seekSquadPeers ord isAddress now randomxEnabled sha3xEnabled connectedPeers
          squadPeers).2,
        if squadPeers < maxOutboundSquadPeers then
          (s.connectable connectedPeers
            (s.bestSquadPeersToDial ord isAddress now 100 randomxEnabled sha3xEnabled)).take
            (maxOutboundSquadPeers - squadPeers + 1)
        else []) := by
  rw [seekSquadPeers]
  split_ifs
  · have henough : (fun numDialed => decide (maxOutboundSquadPeers - squadPeers < numDialed)) =
        fun numDialed => decide (maxOutboundSquadPeers - squadPeers + 1 ≤ numDialed) := rfl
    rw [henough, dialPeers_eq _ (Nat.succ_pos _), Nat.sub_zero]
  · rfl

/-! ### One search -/

theorem find?_update_of_ne {m : PeerMap} {f : PeerStoreRecord → PeerStoreRecord}
    (hf : ∀ r, (f r).peerId = r.peerId) (hne : p ≠ q) : (m.update q f).find? p = m.find? p := by
  rw [KeyedMap.find?_update hf, if_neg hne]

theorem find?_afterDials (hnot : p ∉ records.map (·.peerId)) (l : PeerList) :
    ((s.afterDials now records).list l).find? p = (s.list l).find? p := by
  induction records generalizing s with
  | nil => rfl
  | cons r records ih =>
    rw [List.map_cons, List.mem_cons, not_or] at hnot
    have hdial (r : PeerStoreRecord) : (r.withLastDialAttempt now).peerId = r.peerId := rfl
    have hnext : ((s.updateLastDialAttempt now r.peerId).list l).find? p = (s.list l).find? p := by
      cases l with
      | whitelist => exact find?_update_of_ne hdial hnot.1
      | greylist => exact find?_update_of_ne hdial hnot.1
      | nonSquad => exact find?_update_of_ne hdial hnot.1
      | blacklist => rfl
    exact (ih hnot.2).trans hnext

@[simp] theorem seedPeers_afterDials : (s.afterDials now records).seedPeers = s.seedPeers := by
  induction records generalizing s with
  | nil => rfl
  | cons r records ih => exact ih

theorem find?_afterDials_of_mem {r : PeerStoreRecord} (hmem : p ∈ records.map (·.peerId))
    (hr : (s.afterDials now records).whitelistPeers.find? p = some r) :
    r.lastDialAttempt = some now := by
  induction records using List.reverseRecOn generalizing r with
  | nil => cases hmem
  | append_singleton records last ih =>
    have hlast : (s.afterDials now (records ++ [last])).whitelistPeers =
        (s.afterDials now records).whitelistPeers.update last.peerId
          (·.withLastDialAttempt now) := by
      rw [afterDials, List.foldl_append]
      rfl
    rw [hlast, KeyedMap.find?_update fun r => r.peerId_withLastDialAttempt now] at hr
    split_ifs at hr with heq
    · obtain ⟨old, -, rfl⟩ := Option.map_eq_some_iff.mp hr
      rfl
    · rw [List.map_append, List.mem_append] at hmem
      refine ih (hmem.resolve_right fun h => heq ?_) hr
      exact List.mem_singleton.mp h

theorem then_ne_gt_iff {m n : Nat} {o : Ordering} :
    (compare m n).then o ≠ .gt ↔ m < n ∨ m = n ∧ o ≠ .gt := by
  obtain hlt | rfl | hgt := Nat.lt_trichotomy m n
  · rw [Nat.compare_eq_lt.mpr hlt]
    exact iff_of_true Ordering.noConfusion (Or.inl hlt)
  · rw [Nat.compare_eq_eq.mpr rfl, Ordering.eq_then]
    simp
  · rw [Nat.compare_eq_gt.mpr hgt, Ordering.gt_then]
    simp only [ne_eq, not_true_eq_false, false_iff, not_or]
    omega

variable {randomxEnabled sha3xEnabled : Bool}

def countedPow (counts : Bool) (pow : AccumulatedDifficulty) : Nat := if counts then pow else 0

theorem dialOrder_ne_gt_iff {a b : PeerStoreRecord} :
    dialOrder randomxEnabled sha3xEnabled a b ≠ .gt ↔
      a.numGreyListings < b.numGreyListings ∨ a.numGreyListings = b.numGreyListings ∧
        (countedPow randomxEnabled b.peerInfo.currentRandomXPow <
            countedPow randomxEnabled a.peerInfo.currentRandomXPow ∨
          countedPow randomxEnabled b.peerInfo.currentRandomXPow =
            countedPow randomxEnabled a.peerInfo.currentRandomXPow ∧
          countedPow sha3xEnabled b.peerInfo.currentSha3xPow ≤
            countedPow sha3xEnabled a.peerInfo.currentSha3xPow) := by
  have hcounted (counts : Bool) (m n : Nat) :
      (if counts then compare m n else .eq) = compare (countedPow counts m) (countedPow counts n) := by
    cases counts <;> rfl
  rw [dialOrder, hcounted, hcounted, then_ne_gt_iff, then_ne_gt_iff, Nat.compare_ne_gt]

theorem rel_of_prefix {α : Type} {R : α → α → Prop} {before all : List α} {a b : α}
    (hinitial : before <+: all) (hall : all.Pairwise R) (ha : a ∈ before) (hb : b ∈ all)
    (hnot : b ∉ before) : R a b := by
  obtain ⟨rest, rfl⟩ := hinitial
  exact (List.pairwise_append.mp hall).2.2 a ha b ((List.mem_append.mp hb).resolve_left hnot)

theorem nodup_connectable (hnodup : (records.map (·.peerId)).Nodup) (limit : Nat) :
    (((s.connectable connectedPeers records).take limit).map (·.peerId)).Nodup :=
  hnodup.sublist (((List.take_sublist _ _).trans List.filter_sublist).map _)

theorem mayConnect_of_mem {limit : Nat}
    (hr : r ∈ (s.connectable connectedPeers records).take limit) :
    r ∈ records ∧ s.MayConnect connectedPeers r := by
  obtain ⟨hmem, hmay⟩ := List.mem_filter.mp (List.mem_of_mem_take hr)
  exact ⟨hmem, of_decide_eq_true hmay⟩

theorem nodup_randomNonSquadPeersToDial {ord : IterOrder} {isAddress : String → Bool} {count : Nat} :
    ((s.randomNonSquadPeersToDial ord isAddress now count).map (·.peerId)).Nodup := by
  have hall := s.nonSquadPeers.nodup.sublist
    ((List.filter_sublist (p := mayDial isAddress now)).map PeerStoreRecord.peerId)
  have hshuffled := ((ord.perm 0 _).map PeerStoreRecord.peerId).nodup_iff.mpr hall
  exact hshuffled.sublist ((List.take_sublist _ _).map _)

def GoesFirst (randomxEnabled sha3xEnabled : Bool) (a b : PeerStoreRecord) : Prop :=
  dialOrder randomxEnabled sha3xEnabled a b ≠ .gt

instance : DecidableRel (GoesFirst randomxEnabled sha3xEnabled) :=
  fun _ _ => inferInstanceAs (Decidable (_ ≠ _))

def squadCandidates (ord : IterOrder) (isAddress : String → Bool) (now : Instant)
    (randomxEnabled sha3xEnabled : Bool) (s : PeerStore) : List PeerStoreRecord :=
  ((ord.run 0 s.whitelistPeers.values).filter (mayDial isAddress now)).insertionSort fun a b =>
    dialOrder randomxEnabled sha3xEnabled a b ≠ .gt

section squad

variable {ord : IterOrder} {isAddress : String → Bool}

theorem mem_squadCandidates :
    r ∈ s.squadCandidates ord isAddress now randomxEnabled sha3xEnabled ↔
      r ∈ s.whitelistPeers.values ∧ mayDial isAddress now r = true := by
  rw [squadCandidates, List.mem_insertionSort, List.mem_filter, ord.mem_run]

theorem nodup_squadCandidates :
    ((s.squadCandidates ord isAddress now randomxEnabled sha3xEnabled).map (·.peerId)).Nodup := by
  have hall := ((ord.perm 0 s.whitelistPeers.values).map PeerStoreRecord.peerId).nodup_iff.mpr
    s.whitelistPeers.nodup
  have hfiltered := hall.sublist
    ((List.filter_sublist (p := mayDial isAddress now)).map PeerStoreRecord.peerId)
  exact ((List.perm_insertionSort _ _).map PeerStoreRecord.peerId).nodup_iff.mpr hfiltered

theorem pairwise_squadCandidates :
    (s.squadCandidates ord isAddress now randomxEnabled sha3xEnabled).Pairwise
      (GoesFirst randomxEnabled sha3xEnabled) := by
  have : Std.Total (GoesFirst randomxEnabled sha3xEnabled) := ⟨fun a b => by
    simp only [GoesFirst, dialOrder_ne_gt_iff]
    omega⟩
  have : IsTrans PeerStoreRecord (GoesFirst randomxEnabled sha3xEnabled) := ⟨fun a b c => by
    simp only [GoesFirst, dialOrder_ne_gt_iff]
    omega⟩
  exact List.pairwise_insertionSort (GoesFirst randomxEnabled sha3xEnabled) _

theorem prefix_squadCandidates (limit : Nat) :
    (s.connectable connectedPeers
      (s.bestSquadPeersToDial ord isAddress now 100 randomxEnabled sha3xEnabled)).take limit <+:
        s.connectable connectedPeers
          (s.squadCandidates ord isAddress now randomxEnabled sha3xEnabled) :=
  (List.take_prefix _ _).trans ((List.take_prefix 100 _).filter _)

theorem seekNonSquadPeers_spec {others : List PeerStoreRecord}
    (h : (s.seekNonSquadPeers ord isAddress now connectedPeers).2 = others) :
    (∀ r ∈ others, s.nonSquadPeers.find? r.peerId = some r ∧ mayDial isAddress now r = true ∧
      s.MayConnect connectedPeers r) ∧ (others.map (·.peerId)).Nodup ∧
      (others ≠ [] → (s.connectedNonSquadPeers connectedPeers).length < maxOutboundNonSquadPeers ∧
        others.length ≤ maxOutboundNonSquadPeers) := by
  rw [seekNonSquadPeers_eq] at h
  dsimp only at h
  split_ifs at h with hroom
  · subst h
    refine ⟨fun r hr => ?_, nodup_connectable nodup_randomNonSquadPeersToDial _,
      fun _ => ⟨hroom, List.length_take_le _ _⟩⟩
    obtain ⟨hmem, hconnect⟩ := mayConnect_of_mem hr
    obtain ⟨hvalue, hmay⟩ := mem_of_randomNonSquadPeersToDial hmem
    exact ⟨KeyedMap.find?_of_mem_values hvalue, hmay, hconnect⟩
  · subst h
    exact ⟨fun r hr => absurd hr List.not_mem_nil, List.nodup_nil, fun hne => absurd rfl hne⟩

/-- The second half. -/
theorem seekSquadPeers_spec {squadPeers : Nat} {squad : List PeerStoreRecord}
    (h : (s.seekSquadPeers ord isAddress now randomxEnabled sha3xEnabled connectedPeers
      squadPeers).2 = squad) :
    (∀ r ∈ squad, s.whitelistPeers.find? r.peerId = some r ∧ mayDial isAddress now r = true ∧
      s.MayConnect connectedPeers r) ∧ (squad.map (·.peerId)).Nodup ∧
      (squad ≠ [] → squadPeers < maxOutboundSquadPeers ∧
        squadPeers + squad.length ≤ maxOutboundSquadPeers + 1) ∧
      (∀ d ∈ squad, ∀ r, s.whitelistPeers.find? r.peerId = some r → mayDial isAddress now r = true →
        s.MayConnect connectedPeers r → r ∉ squad →
        GoesFirst randomxEnabled sha3xEnabled d r) := by
  rw [seekSquadPeers_eq] at h
  dsimp only at h
  split_ifs at h with hroom
  · subst h
    refine ⟨fun r hr => ?_, nodup_connectable ?_ _, fun _ => ?_, fun d hd r hr hmay hconnect hnot => ?_⟩
    · obtain ⟨hmem, hconnect⟩ := mayConnect_of_mem hr
      obtain ⟨hvalue, hmay⟩ := mem_of_bestSquadPeersToDial hmem
      exact ⟨KeyedMap.find?_of_mem_values hvalue, hmay, hconnect⟩
    · exact nodup_squadCandidates.sublist ((List.take_sublist 100 _).map _)
    · have hlength := List.length_take_le (maxOutboundSquadPeers - squadPeers + 1)
        (s.connectable connectedPeers
          (s.bestSquadPeersToDial ord isAddress now 100 randomxEnabled sha3xEnabled))
      exact ⟨hroom, by omega⟩
    · have hcandidate : r ∈ s.connectable connectedPeers
          (s.squadCandidates ord isAddress now randomxEnabled sha3xEnabled) :=
        List.mem_filter.mpr ⟨mem_squadCandidates.mpr ⟨KeyedMap.mem_values_of_find? hr, hmay⟩,
          decide_eq_true hconnect⟩
      have hsorted : (s.connectable connectedPeers
          (s.squadCandidates ord isAddress now randomxEnabled sha3xEnabled)).Pairwise
            (GoesFirst randomxEnabled sha3xEnabled) := pairwise_squadCandidates.filter _
      exact rel_of_prefix (prefix_squadCandidates _) hsorted hd hcandidate hnot
  · subst h
    exact ⟨fun r hr => absurd hr List.not_mem_nil, List.nodup_nil, fun hne => absurd rfl hne,
      fun d hd => absurd hd List.not_mem_nil⟩

theorem mayDial_afterDials (hr : (s.afterDials now records).whitelistPeers.find? r.peerId = some r)
    (hmay : mayDial isAddress now r = true) :
    r.peerId ∉ records.map (·.peerId) ∧ s.whitelistPeers.find? r.peerId = some r := by
  have hnot : r.peerId ∉ records.map (·.peerId) := by
    intro hmem
    rw [mayDial, find?_afterDials_of_mem hmem hr, Bool.and_eq_true, decide_eq_true_eq,
      Instant.elapsedSecs, Nat.sub_self] at hmay
    exact absurd hmay.2 (by decide)
  exact ⟨hnot, (find?_afterDials hnot .whitelist).symm.trans hr⟩

end squad

theorem seekConnections_snd {ord : IterOrder} {isAddress : String → Bool} :
    (s.seekConnections ord isAddress now randomxEnabled sha3xEnabled connectedPeers).2 =
      (s.seekNonSquadPeers ord isAddress now connectedPeers).2 ++
        ((s.afterDials now (s.seekNonSquadPeers ord isAddress now connectedPeers).2).seekSquadPeers ord
          isAddress now randomxEnabled sha3xEnabled connectedPeers
            (s.connectedSquadPeers connectedPeers).length).2 := by
  rw [← seekNonSquadPeers_fst]
  rfl

theorem seekConnections_fst {ord : IterOrder} {isAddress : String → Bool} :
    (s.seekConnections ord isAddress now randomxEnabled sha3xEnabled connectedPeers).1 =
      s.afterDials now
        (s.seekConnections ord isAddress now randomxEnabled sha3xEnabled connectedPeers).2 := by
  have hsecond (s : PeerStore) (squadPeers : Nat) :
      (s.seekSquadPeers ord isAddress now randomxEnabled sha3xEnabled connectedPeers squadPeers).1 =
        s.afterDials now (s.seekSquadPeers ord isAddress now randomxEnabled sha3xEnabled
          connectedPeers squadPeers).2 :=
    congrArg Prod.fst seekSquadPeers_eq
  simp only [seekConnections]
  rw [hsecond, seekNonSquadPeers_fst]
  exact List.foldl_append.symm

/-- A search for connections that dials the peers `others` of other squads and the peers `squad`. -/
structure Sought (isAddress : String → Bool) (now : Instant) (randomxEnabled sha3xEnabled : Bool)
    (connectedPeers : List PeerId) (s : PeerStore) (others squad : List PeerStoreRecord)
    (after : PeerStore) : Prop where
  others_known : ∀ r ∈ others, s.nonSquadPeers.find? r.peerId = some r
  squad_known : ∀ r ∈ squad, s.whitelistPeers.find? r.peerId = some r
  may_dial : ∀ r ∈ others ++ squad, mayDial isAddress now r = true ∧ s.MayConnect connectedPeers r
  nodup : ((others ++ squad).map (·.peerId)).Nodup
  few_others : others ≠ [] →
    (s.connectedNonSquadPeers connectedPeers).length < maxOutboundNonSquadPeers ∧
      others.length ≤ maxOutboundNonSquadPeers
  /-- one more than there is room for, and none if there is no room -/
  few_squad : squad ≠ [] →
    (s.connectedSquadPeers connectedPeers).length < maxOutboundSquadPeers ∧
      (s.connectedSquadPeers connectedPeers).length + squad.length ≤ maxOutboundSquadPeers + 1
  /-- no candidate that is passed over goes before one that is dialed -/
  best : ∀ d ∈ squad, ∀ r, s.whitelistPeers.find? r.peerId = some r →
    mayDial isAddress now r = true → s.MayConnect connectedPeers r →
    r.peerId ∉ (others ++ squad).map (·.peerId) → GoesFirst randomxEnabled sha3xEnabled d r
  noted : ∀ r ∈ others ++ squad, s.isBlacklisted r.peerId = false →
    after.AttemptedSince now r.peerId
  kept : ∀ p ∉ (others ++ squad).map (·.peerId), ∀ l,
    (after.list l).find? p = (s.list l).find? p

/-- Each search dials peers at most once, only those that may be dialed, and the best of the
squad. -/
theorem seekConnections_sought (s : PeerStore) (ord : IterOrder) (isAddress : String → Bool)
    (now : Instant) (randomxEnabled sha3xEnabled : Bool) (connectedPeers : List PeerId) :
    ∃ others squad after,
      s.seekConnections ord isAddress now randomxEnabled sha3xEnabled connectedPeers =
        (after, others ++ squad) ∧
      s.Sought isAddress now randomxEnabled sha3xEnabled connectedPeers others squad after := by
  obtain ⟨others, hothers⟩ : ∃ others,
      (s.seekNonSquadPeers ord isAddress now connectedPeers).2 = others := ⟨_, rfl⟩
  obtain ⟨squad, hsquad⟩ : ∃ squad, ((s.afterDials now others).seekSquadPeers ord isAddress now
      randomxEnabled sha3xEnabled connectedPeers
      (s.connectedSquadPeers connectedPeers).length).2 = squad := ⟨_, rfl⟩
  have hdialed : (s.seekConnections ord isAddress now randomxEnabled sha3xEnabled connectedPeers).2 =
      others ++ squad := by
    rw [seekConnections_snd, hothers, hsquad]
  obtain ⟨hothersDialed, hothersNodup, hfewOthers⟩ := seekNonSquadPeers_spec hothers
  obtain ⟨hsquadDialed, hsquadNodup, hfewSquad, hbest⟩ := seekSquadPeers_spec hsquad
  have hseeds : (s.afterDials now others).MayConnect connectedPeers = s.MayConnect connectedPeers := by
    funext r
    rw [MayConnect, MayConnect, seedPeers_afterDials]
  have hfresh (r : PeerStoreRecord) (hr : r ∈ squad) := mayDial_afterDials (hsquadDialed r hr).1
    (hsquadDialed r hr).2.1
  refine ⟨others, squad, s.afterDials now (others ++ squad), ?_, ?_⟩
  · rw [← hdialed, ← seekConnections_fst]
  · constructor
    · exact fun r hr => (hothersDialed r hr).1
    · exact fun r hr => (hfresh r hr).2
    · intro r hr
      obtain hr | hr := List.mem_append.mp hr
      · exact (hothersDialed r hr).2
      · exact hseeds ▸ (hsquadDialed r hr).2
    · rw [List.map_append, List.nodup_append]
      refine ⟨hothersNodup, hsquadNodup, ?_⟩
      rintro p hp q hq rfl
      obtain ⟨r, hr, rfl⟩ := List.mem_map.mp hq
      exact (hfresh r hr).1 hp
    · exact hfewOthers
    · exact hfewSquad
    · intro d hd r hr hmay hconnect hnot
      rw [List.map_append, List.mem_append, not_or] at hnot
      have hkept : (s.afterDials now others).whitelistPeers.find? r.peerId = some r :=
        (find?_afterDials hnot.1 .whitelist).trans hr
      exact hbest d hd r hkept hmay (hseeds ▸ hconnect) fun hmem => hnot.2 (List.mem_map_of_mem hmem)
    · exact fun r hr hblack => attemptedSince_afterDials hblack (List.mem_map_of_mem hr)
    · exact fun p hp l => find?_afterDials hp l

/-! ### Searches one after another -/

/-- What happens to a peer store when the main loop keeps up connections too. -/
inductive DialOp
  | store (op : PeerStoreOp)
  | seek (ord : IterOrder) (isAddress : String → Bool) (now : Instant)
      (randomxEnabled sha3xEnabled : Bool) (connectedPeers : List PeerId)

def dialStep (s : PeerStore) : DialOp → PeerStore
  | .store op => s.step op
  | .seek ord isAddress now randomxEnabled sha3xEnabled connectedPeers =>
    (s.seekConnections ord isAddress now randomxEnabled sha3xEnabled connectedPeers).1

/-- The peers that an operation dials, with the instant. -/
def dials (s : PeerStore) : DialOp → List (Instant × PeerId)
  | .store _ => []
  | .seek ord isAddress now randomxEnabled sha3xEnabled connectedPeers =>
    (s.seekConnections ord isAddress now randomxEnabled sha3xEnabled connectedPeers).2.map fun r =>
      (now, r.peerId)

/-- The peer is not announced, and clocks are not behind the instant. -/
def DialOp.PassesOn (t : Instant) (p : PeerId) : DialOp → Prop
  | .store op => PeerStore.PassesOn t p op
  | .seek _ _ now _ _ _ => t ≤ now

theorem AttemptedSince.dialStep {op : DialOp} (h : s.AttemptedSince t p) (hop : op.PassesOn t p) :
    (s.dialStep op).AttemptedSince t p := by
  cases op with
  | store op => exact h.step hop
  | seek ord isAddress now randomxEnabled sha3xEnabled connectedPeers =>
    have hnow : t ≤ now := hop
    rw [PeerStore.dialStep, seekConnections_fst]
    exact h.afterDials hnow

theorem AttemptedSince.foldl_dialStep {ops : List DialOp} (h : s.AttemptedSince t p)
    (hops : ∀ op ∈ ops, op.PassesOn t p) : (ops.foldl PeerStore.dialStep s).AttemptedSince t p := by
  induction ops generalizing s with
  | nil => exact h
  | cons op ops ih =>
    exact ih (h.dialStep (hops op List.mem_cons_self))
      fun op' hop' => hops op' (List.mem_cons_of_mem op hop')

theorem recorded_of_dials {op : DialOp} (h : (now, p) ∈ s.dials op) : ∃ isAddress l r,
    (s.list l).find? p = some r ∧ mayDial isAddress now r = true := by
  cases op with
  | store op => cases h
  | seek ord isAddress now' randomxEnabled sha3xEnabled connectedPeers =>
    obtain ⟨r, hr, hpair⟩ := List.mem_map.mp h
    cases hpair
    rw [seekConnections_snd, List.mem_append] at hr
    obtain hothers | hsquad := hr
    · obtain ⟨hr, hmay, -⟩ := (seekNonSquadPeers_spec rfl).1 r hothers
      exact ⟨isAddress, .nonSquad, r, hr, hmay⟩
    · obtain ⟨hr, hmay, -⟩ := (seekSquadPeers_spec rfl).1 r hsquad
      exact ⟨isAddress, .whitelist, r, (mayDial_afterDials hr hmay).2, hmay⟩

theorem attemptedSince_dialStep {op : DialOp} (h : (t, p) ∈ s.dials op)
    (hblack : s.isBlacklisted p = false) : (s.dialStep op).AttemptedSince t p := by
  cases op with
  | store op => cases h
  | seek ord isAddress now randomxEnabled sha3xEnabled connectedPeers =>
    obtain ⟨r, hr, hpair⟩ := List.mem_map.mp h
    cases hpair
    rw [dialStep, seekConnections_fst]
    exact attemptedSince_afterDials hblack (List.mem_map_of_mem hr)

/-- A peer that is not blacklisted when it is dialed is dialed again after more than two minutes
only, whatever happens in between, as long as nobody announces it. -/
theorem dials_apart (s : PeerStore) (p : PeerId) (t t' : Instant) (op op' : DialOp)
    (between : List DialOp) (hdialed : (t, p) ∈ s.dials op) (hblack : s.isBlacklisted p = false)
    (hbetween : ∀ o ∈ between, o.PassesOn t p)
    (hagain : (t', p) ∈ ((op :: between).foldl dialStep s).dials op') :
    120 < Instant.elapsedSecs t' t := by
  have hnoted : ((op :: between).foldl dialStep s).AttemptedSince t p :=
    (attemptedSince_dialStep hdialed hblack).foldl_dialStep hbetween
  obtain ⟨isAddress, l, r, hr, hmay⟩ := recorded_of_dials hagain
  exact hnoted.elapsed hr hmay

def dialSample : PeerStore :=
  ((new "").add 0 7 { squad := "", publicAddresses := ["address"] }).1

def seekAt (secs : Nat) : DialOp := .seek .stored (fun _ => true) (durationFromSecs secs) true true []

theorem dials_apart_sample : 120 < Instant.elapsedSecs (durationFromSecs 121) (durationFromSecs 0) :=
  dials_apart dialSample 7 (durationFromSecs 0) (durationFromSecs 121) (seekAt 0) (seekAt 121)
    [.store (.setLastPing 7 5), .store (.moveToGreyList 7 "slow"), seekAt 20, .store .clearGreyList]
    (by decide) (by decide) (by simp [DialOp.PassesOn, PassesOn, seekAt, durationFromSecs])
    (by decide +kernel)

end PeerStore

end ShaP2Pool
