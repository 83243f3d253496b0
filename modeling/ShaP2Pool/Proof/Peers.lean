import ShaP2Pool.Library.Trace
import ShaP2Pool.Server.PeerStore
import Mathlib.Data.Fintype.Basic

/-!
# The lists of the peer store

The store keeps four maps and moves records between them. Only `add` puts a record into a map
without looking at the others, so it alone can list a peer twice; and a seed peer comes into the
whitelist by a ping or when the blacklist is cleared.
-/

namespace ShaP2Pool

/-- The operations that change a peer store. -/
inductive PeerStoreOp
  | add (now : Instant) (peerId : PeerId) (peerInfo : PeerInfo)
  | addSeedPeers (peerIds : List PeerId)
  | setLastPing (peerId : PeerId) (timestamp : EpochTime)
  | moveToGreyList (peerId : PeerId) (reason : String)
  | moveToBlacklist (peerId : PeerId)
  | clearGreyList
  | clearBlackList
  | updateLastDialAttempt (now : Instant) (peerId : PeerId)
  | updateLastSyncAttempt (now : Instant) (peerId : PeerId) (algo : PowAlgorithm)
  | addCatchUpAttempt (peerId : PeerId)
  | resetCatchUpAttempts (peerId : PeerId)
  deriving DecidableEq, Repr

inductive PeerList
  | whitelist
  | greylist
  | blacklist
  | nonSquad
  deriving DecidableEq, Repr

instance : Fintype PeerList :=
  ⟨{.whitelist, .greylist, .blacklist, .nonSquad}, fun l => by cases l <;> decide⟩

namespace PeerStore

open Trace

variable {s : PeerStore} {p q : PeerId} {l : PeerList} {now : Instant} {info : PeerInfo}
  {r : PeerStoreRecord} {ops pre : List PeerStoreOp} {op : PeerStoreOp} {squad : String}

def step (s : PeerStore) : PeerStoreOp → PeerStore
  | .add now peerId peerInfo => (s.add now peerId peerInfo).1
  | .addSeedPeers peerIds => s.addSeedPeers peerIds
  | .setLastPing peerId timestamp => s.setLastPing peerId timestamp
  | .moveToGreyList peerId reason => s.moveToGreyList peerId reason
  | .moveToBlacklist peerId => s.moveToBlacklist peerId
  | .clearGreyList => s.clearGreyList
  | .clearBlackList => s.clearBlackList
  | .updateLastDialAttempt now peerId => s.updateLastDialAttempt now peerId
  | .updateLastSyncAttempt now peerId algo => s.updateLastSyncAttempt now peerId algo
  | .addCatchUpAttempt peerId => s.addCatchUpAttempt peerId
  | .resetCatchUpAttempts peerId => s.resetCatchUpAttempts peerId

def list (s : PeerStore) : PeerList → PeerMap
  | .whitelist => s.whitelistPeers
  | .greylist => s.greylistPeers
  | .blacklist => s.blacklistPeers
  | .nonSquad => s.nonSquadPeers

/-- A peer is on a list. -/
def Listed (s : PeerStore) (l : PeerList) (p : PeerId) : Prop := (s.list l).contains p = true

instance (s : PeerStore) (l : PeerList) (p : PeerId) : Decidable (s.Listed l p) :=
  inferInstanceAs (Decidable (_ = true))

/-- Every peer is on one list at most. -/
def Exclusive (s : PeerStore) : Prop := ∀ p l l', s.Listed l p → s.Listed l' p → l = l'

theorem listed_iff : s.Listed l p ↔ ∃ r, (s.list l).find? p = some r := KeyedMap.contains_iff

theorem not_listed_of_find? (h : (s.list l).find? p = none) : ¬s.Listed l p := by
  rw [Listed, KeyedMap.contains_eq_false_iff.mpr h]
  exact Bool.false_ne_true

theorem not_listed_new : ¬(new squad).Listed l p := by
  cases l <;> exact Bool.false_ne_true

theorem Exclusive.new (squad : String) : (new squad).Exclusive :=
  fun _ _ _ h => absurd h not_listed_new

/-! ### Single changes -/

def put (s : PeerStore) (l : PeerList) (r : PeerStoreRecord) : PeerStore :=
  match l with
  | .whitelist => { s with whitelistPeers := s.whitelistPeers.insert r }
  | .greylist => { s with greylistPeers := s.greylistPeers.insert r }
  | .blacklist => { s with blacklistPeers := s.blacklistPeers.insert r }
  | .nonSquad => { s with nonSquadPeers := s.nonSquadPeers.insert r }

def drop (s : PeerStore) (l : PeerList) (p : PeerId) : PeerStore :=
  match l with
  | .whitelist => { s with whitelistPeers := s.whitelistPeers.erase p }
  | .greylist => { s with greylistPeers := s.greylistPeers.erase p }
  | .blacklist => { s with blacklistPeers := s.blacklistPeers.erase p }
  | .nonSquad => { s with nonSquadPeers := s.nonSquadPeers.erase p }

def touch (s : PeerStore) (l : PeerList) (p : PeerId) (f : PeerStoreRecord → PeerStoreRecord) :
    PeerStore :=
  match l with
  | .whitelist => { s with whitelistPeers := s.whitelistPeers.update p f }
  | .greylist => { s with greylistPeers := s.greylistPeers.update p f }
  | .blacklist => { s with blacklistPeers := s.blacklistPeers.update p f }
  | .nonSquad => { s with nonSquadPeers := s.nonSquadPeers.update p f }

theorem list_put (s : PeerStore) (l l' : PeerList) (r : PeerStoreRecord) :
    (s.put l r).list l' = if l' = l then (s.list l).insert r else s.list l' := by
  cases l <;> cases l' <;> rfl

theorem list_drop (s : PeerStore) (l l' : PeerList) (p : PeerId) :
    (s.drop l p).list l' = if l' = l then (s.list l).erase p else s.list l' := by
  cases l <;> cases l' <;> rfl

theorem list_touch (s : PeerStore) (l l' : PeerList) (p : PeerId)
    (f : PeerStoreRecord → PeerStoreRecord) :
    (s.touch l p f).list l' = if l' = l then (s.list l).update p f else s.list l' := by
  cases l <;> cases l' <;> rfl

@[simp] theorem seedPeers_put (l : PeerList) : (s.put l r).seedPeers = s.seedPeers := by
  cases l <;> rfl

@[simp] theorem seedPeers_drop (l : PeerList) : (s.drop l p).seedPeers = s.seedPeers := by
  cases l <;> rfl

@[simp] theorem seedPeers_touch (l : PeerList) (f : PeerStoreRecord → PeerStoreRecord) :
    (s.touch l p f).seedPeers = s.seedPeers := by
  cases l <;> rfl

variable {l' : PeerList}

@[simp] theorem listed_put :
    (s.put l r).Listed l' q ↔ (q = r.peerId ∧ l' = l) ∨ s.Listed l' q := by
  rw [Listed, list_put, Listed]
  by_cases hl : l' = l
  · subst hl
    rw [if_pos rfl, KeyedMap.contains_insert, Bool.or_eq_true, beq_iff_eq]
    simp
  · rw [if_neg hl]
    simp [hl]

@[simp] theorem listed_drop :
    (s.drop l p).Listed l' q ↔ s.Listed l' q ∧ ¬(q = p ∧ l' = l) := by
  rw [Listed, list_drop, Listed]
  by_cases hl : l' = l
  · subst hl
    rw [if_pos rfl, KeyedMap.contains_erase, Bool.and_eq_true, bne_iff_ne, and_comm]
    simp
  · rw [if_neg hl]
    simp [hl]

theorem listed_touch {f : PeerStoreRecord → PeerStoreRecord} (hf : ∀ r, (f r).peerId = r.peerId) :
    (s.touch l p f).Listed l' q ↔ s.Listed l' q := by
  rw [Listed, list_touch, Listed]
  by_cases hl : l' = l
  · subst hl
    rw [if_pos rfl, KeyedMap.contains_update hf]
  · rw [if_neg hl]

/-! ### What each operation does to the lists -/

/-- The list on which `add` puts a record. -/
def addTarget (s : PeerStore) (p : PeerId) (info : PeerInfo) : Option PeerList :=
  if info.squad ≠ s.mySquad then some .nonSquad
  else if s.seedPeers.contains p then some .greylist
  else if s.blacklistPeers.contains p then none
  else if s.greylistPeers.contains p then none
  else some .whitelist

theorem add_eq (s : PeerStore) (now : Instant) (p : PeerId) (info : PeerInfo) :
    (s.addTarget p info = none ∧ (s.add now p info).1 = s) ∨
      ∃ l r, s.addTarget p info = some l ∧ r.peerId = p ∧ (s.add now p info).1 = s.put l r := by
  rw [add, addTarget]
  split_ifs
  · exact Or.inr ⟨.nonSquad, _, rfl, rfl, rfl⟩
  · exact Or.inr ⟨.nonSquad, _, rfl, rfl, rfl⟩
  · exact Or.inr ⟨.greylist, _, rfl, rfl, rfl⟩
  · exact Or.inl ⟨rfl, rfl⟩
  · exact Or.inl ⟨rfl, rfl⟩
  · cases hwhite : s.whitelistPeers.find? p with
    | none => exact Or.inr ⟨.whitelist, _, rfl, PeerStoreRecord.peerId_new now p info, rfl⟩
    | some entry => exact Or.inr ⟨.whitelist, _, rfl, entry.peerId_renewed now p info, rfl⟩

theorem listed_add : (s.add now p info).1.Listed l q ↔
    (q = p ∧ s.addTarget p info = some l) ∨ s.Listed l q := by
  obtain ⟨htarget, heq⟩ | ⟨target, r, htarget, hr, heq⟩ := add_eq s now p info
  · rw [heq, htarget]
    simp
  · rw [heq, htarget, listed_put, hr]
    simp [eq_comm]

theorem listed_setLastPing {timestamp : EpochTime} : (s.setLastPing p timestamp).Listed l q ↔
    (q = p ∧ s.Listed .greylist p ∧ l = .whitelist) ∨
      (s.Listed l q ∧ ¬(q = p ∧ l = .greylist)) := by
  have hping (r : PeerStoreRecord) : (r.withLastPing timestamp).peerId = r.peerId := rfl
  cases hgrey : s.greylistPeers.find? p with
  | none =>
    have hnot : ¬s.Listed .greylist p := not_listed_of_find? hgrey
    have heq : s.setLastPing p timestamp =
        (s.touch .whitelist p (·.withLastPing timestamp)).touch .blacklist p
          (·.withLastPing timestamp) := by
      rw [setLastPing]
      simp only [hgrey]
      rfl
    rw [heq, listed_touch hping, listed_touch hping]
    constructor
    · refine fun h => Or.inr ⟨h, ?_⟩
      rintro ⟨rfl, rfl⟩
      exact hnot h
    · rintro (⟨-, h, -⟩ | ⟨h, -⟩)
      · exact absurd h hnot
      · exact h
  | some entry =>
    have hin : s.Listed .greylist p := listed_iff.mpr ⟨entry, hgrey⟩
    have heq : s.setLastPing p timestamp =
        (((s.touch .whitelist p (·.withLastPing timestamp)).drop .greylist p).put .whitelist
          { entry.withLastPing timestamp with numGreyListings := 0 }).touch .blacklist p
            (·.withLastPing timestamp) := by
      rw [setLastPing]
      simp only [hgrey]
      rfl
    rw [heq, listed_touch hping, listed_put, listed_drop, listed_touch hping]
    simp [hin, KeyedMap.key_of_find? hgrey, PeerStoreRecord.withLastPing]

theorem listed_moveToGreyList {reason : String} : (s.moveToGreyList p reason).Listed l q ↔
    (q = p ∧ s.Listed .whitelist p ∧ l = .greylist) ∨
      (s.Listed l q ∧ ¬(q = p ∧ l = .whitelist)) := by
  cases hwhite : s.whitelistPeers.find? p with
  | none =>
    have hnot : ¬s.Listed .whitelist p := not_listed_of_find? hwhite
    rw [moveToGreyList, hwhite]
    constructor
    · refine fun h => Or.inr ⟨h, ?_⟩
      rintro ⟨rfl, rfl⟩
      exact hnot h
    · rintro (⟨-, h, -⟩ | ⟨h, -⟩)
      · exact absurd h hnot
      · exact h
  | some record =>
    have hin : s.Listed .whitelist p := listed_iff.mpr ⟨record, hwhite⟩
    have heq : s.moveToGreyList p reason =
        (s.drop .whitelist p).put .greylist (record.greylisted reason) := by
      rw [moveToGreyList, hwhite]
      rfl
    rw [heq, listed_put, listed_drop]
    simp [hin, KeyedMap.key_of_find? hwhite]

theorem listed_moveToBlacklist : (s.moveToBlacklist p).Listed l q ↔
    (q = p ∧ (s.Listed .whitelist p ∨ s.Listed .greylist p) ∧ l = .blacklist) ∨
      (s.Listed l q ∧ ¬(q = p ∧ (l = .whitelist ∨ l = .greylist))) := by
  cases hfound : (s.greylistPeers.find? p).or (s.whitelistPeers.find? p) with
  | none =>
    obtain ⟨hgrey, hwhite⟩ := Option.or_eq_none_iff.mp hfound
    have hnot : ¬(s.Listed .whitelist p ∨ s.Listed .greylist p) :=
      not_or.mpr ⟨not_listed_of_find? hwhite, not_listed_of_find? hgrey⟩
    rw [moveToBlacklist, hfound]
    constructor
    · refine fun h => Or.inr ⟨h, ?_⟩
      rintro ⟨rfl, rfl | rfl⟩
      · exact hnot (Or.inl h)
      · exact hnot (Or.inr h)
    · rintro (⟨-, h, -⟩ | ⟨h, -⟩)
      · exact absurd h hnot
      · exact h
  | some record =>
    have hin : (s.Listed .whitelist p ∨ s.Listed .greylist p) ∧ record.peerId = p := by
      obtain hgrey | ⟨-, hwhite⟩ := Option.or_eq_some_iff.mp hfound
      · exact ⟨Or.inr (listed_iff.mpr ⟨record, hgrey⟩), KeyedMap.key_of_find? hgrey⟩
      · exact ⟨Or.inl (listed_iff.mpr ⟨record, hwhite⟩), KeyedMap.key_of_find? hwhite⟩
    have heq : s.moveToBlacklist p =
        ((s.drop .whitelist p).drop .greylist p).put .blacklist record := by
      rw [moveToBlacklist, hfound]
      rfl
    rw [heq, listed_put, listed_drop, listed_drop, hin.2]
    constructor
    · rintro (⟨rfl, rfl⟩ | ⟨⟨h, hwhite⟩, hgrey⟩)
      · exact Or.inl ⟨rfl, hin.1, rfl⟩
      · refine Or.inr ⟨h, ?_⟩
        rintro ⟨rfl, hl | hl⟩
        · exact hwhite ⟨rfl, hl⟩
        · exact hgrey ⟨rfl, hl⟩
    · rintro (⟨rfl, -, rfl⟩ | ⟨h, hnot⟩)
      · exact Or.inl ⟨rfl, rfl⟩
      · exact Or.inr ⟨⟨h, fun hwhite => hnot ⟨hwhite.1, Or.inl hwhite.2⟩⟩,
          fun hgrey => hnot ⟨hgrey.1, Or.inr hgrey.2⟩⟩

def releaseTarget (s : PeerStore) (r : PeerStoreRecord) : Option PeerList :=
  if maxGreyListings ≤ r.numGreyListings then some .blacklist
  else if s.seedPeers.contains r.peerId then none
  else some .whitelist

theorem listed_releaseGreyRecord : (s.releaseGreyRecord r).Listed l q ↔
    (q = r.peerId ∧ s.releaseTarget r = some l) ∨ s.Listed l q := by
  rw [releaseGreyRecord, releaseTarget]
  split_ifs
  · exact (listed_put (l := .blacklist)).trans (by simp [eq_comm])
  · simp
  · exact (listed_put (l := .whitelist)).trans (by simp [eq_comm])

theorem seedPeers_releaseGreyRecord : (s.releaseGreyRecord r).seedPeers = s.seedPeers := by
  rw [releaseGreyRecord]
  split_ifs <;> rfl

theorem releaseTarget_congr {s' : PeerStore} (h : s'.seedPeers = s.seedPeers) :
    s'.releaseTarget r = s.releaseTarget r := by
  rw [releaseTarget, releaseTarget, h]

theorem listed_foldl_release (records : List PeerStoreRecord) :
    (records.foldl releaseGreyRecord s).Listed l q ↔
      (∃ r ∈ records, q = r.peerId ∧ s.releaseTarget r = some l) ∨ s.Listed l q := by
  induction records generalizing s with
  | nil => simp
  | cons r records ih =>
    have htarget (r' : PeerStoreRecord) :
        (s.releaseGreyRecord r).releaseTarget r' = s.releaseTarget r' :=
      releaseTarget_congr seedPeers_releaseGreyRecord
    rw [List.foldl_cons, ih, listed_releaseGreyRecord, List.exists_mem_cons_iff]
    simp only [htarget]
    rw [or_assoc, or_left_comm]

theorem listed_clearGreyList : s.clearGreyList.Listed l q ↔
    (∃ r, s.greylistPeers.find? q = some r ∧ s.releaseTarget r = some l) ∨
      (s.Listed l q ∧ l ≠ .greylist) := by
  have hempty : ({ s with greylistPeers := KeyedMap.empty } : PeerStore).Listed l q ↔
      s.Listed l q ∧ l ≠ .greylist := by
    cases l <;> simp [Listed, list, KeyedMap.contains_empty]
  rw [clearGreyList, listed_foldl_release, hempty]
  refine or_congr_left ⟨?_, ?_⟩
  · rintro ⟨r, hmem, rfl, htarget⟩
    exact ⟨r, KeyedMap.find?_of_mem_values hmem, htarget⟩
  · rintro ⟨r, hfind, htarget⟩
    exact ⟨r, KeyedMap.mem_values_of_find? hfind, (KeyedMap.key_of_find? hfind).symm, htarget⟩

theorem listed_foldl_pardon (records : List PeerStoreRecord) :
    (records.foldl releaseBlackRecord s).Listed l q ↔
      (∃ r ∈ records, q = r.peerId ∧ l = .whitelist) ∨ s.Listed l q := by
  induction records generalizing s with
  | nil => simp
  | cons r records ih =>
    have hput : s.releaseBlackRecord r = s.put .whitelist r.pardoned := rfl
    rw [List.foldl_cons, ih, hput, listed_put, List.exists_mem_cons_iff,
      PeerStoreRecord.peerId_pardoned, or_assoc, or_left_comm]

theorem listed_clearBlackList : s.clearBlackList.Listed l q ↔
    (s.Listed .blacklist q ∧ l = .whitelist) ∨ (s.Listed l q ∧ l ≠ .blacklist) := by
  have hempty : ({ s with blacklistPeers := KeyedMap.empty } : PeerStore).Listed l q ↔
      s.Listed l q ∧ l ≠ .blacklist := by
    cases l <;> simp [Listed, list, KeyedMap.contains_empty]
  rw [clearBlackList, listed_foldl_pardon, hempty]
  refine or_congr_left ⟨?_, ?_⟩
  · rintro ⟨r, hmem, rfl, hl⟩
    exact ⟨listed_iff.mpr ⟨r, KeyedMap.find?_of_mem_values hmem⟩, hl⟩
  · rintro ⟨hlisted, hl⟩
    obtain ⟨r, hfind⟩ := listed_iff.mp hlisted
    exact ⟨r, KeyedMap.mem_values_of_find? hfind, (KeyedMap.key_of_find? hfind).symm, hl⟩

theorem listed_updateLastDialAttempt :
    (s.updateLastDialAttempt now p).Listed l q ↔ s.Listed l q := by
  have hdial (r : PeerStoreRecord) : (r.withLastDialAttempt now).peerId = r.peerId := rfl
  have heq : s.updateLastDialAttempt now p = ((s.touch .whitelist p (·.withLastDialAttempt now)).touch
      .greylist p (·.withLastDialAttempt now)).touch .nonSquad p (·.withLastDialAttempt now) := rfl
  rw [heq, listed_touch hdial, listed_touch hdial, listed_touch hdial]

theorem listed_updateLastSyncAttempt {algo : PowAlgorithm} :
    (s.updateLastSyncAttempt now p algo).Listed l q ↔ s.Listed l q := by
  have hsync (r : PeerStoreRecord) : (r.withSyncAttempt now algo).peerId = r.peerId :=
    r.peerId_withSyncAttempt now algo
  have heq : s.updateLastSyncAttempt now p algo =
      (s.touch .whitelist p (·.withSyncAttempt now algo)).touch .greylist p
        (·.withSyncAttempt now algo) := rfl
  rw [heq, listed_touch hsync, listed_touch hsync]

theorem listed_addCatchUpAttempt : (s.addCatchUpAttempt p).Listed l q ↔ s.Listed l q :=
  listed_touch (l := .whitelist) fun _ => rfl

theorem listed_resetCatchUpAttempts : (s.resetCatchUpAttempts p).Listed l q ↔ s.Listed l q :=
  listed_touch (l := .whitelist) fun _ => rfl

/-! ### One list for each peer -/

theorem Exclusive.of_step {s' : PeerStore} (h : s.Exclusive)
    (hstep : ∀ q, (∀ l, s'.Listed l q → s.Listed l q) ∨ ∃ t, ∀ l, s'.Listed l q → l = t) :
    s'.Exclusive := by
  intro q l l' hl hl'
  obtain hkeeps | ⟨t, ht⟩ := hstep q
  · exact h q l l' (hkeeps l hl) (hkeeps l' hl')
  · rw [ht l hl, ht l' hl']

theorem Exclusive.of_move {s' : PeerStore} (source target : PeerList) (h : s.Exclusive)
    (hmove : ∀ q l, s'.Listed l q → (q = p ∧ s.Listed source p ∧ l = target) ∨
      (s.Listed l q ∧ ¬(q = p ∧ l = source))) : s'.Exclusive := by
  refine h.of_step fun q => ?_
  by_cases hq : q = p ∧ s.Listed source p
  · obtain ⟨rfl, hsource⟩ := hq
    refine Or.inr ⟨target, fun l hl => ?_⟩
    obtain ⟨-, -, rfl⟩ | ⟨hl, hnot⟩ := hmove q l hl
    · rfl
    · exact absurd ⟨rfl, h q l source hl hsource⟩ hnot
  · refine Or.inl fun l hl => ?_
    obtain ⟨heq, hsource, -⟩ | ⟨hl, -⟩ := hmove q l hl
    · exact absurd ⟨heq, hsource⟩ hq
    · exact hl

/-- `add` puts no peer on a list while it is on another. -/
def AddGuarded (s : PeerStore) (p : PeerId) (info : PeerInfo) : Prop :=
  ∀ l l', s.addTarget p info = some l → s.Listed l' p → l' = l

instance (s : PeerStore) (p : PeerId) (info : PeerInfo) : Decidable (s.AddGuarded p info) :=
  inferInstanceAs (Decidable (∀ l l' : PeerList,
    s.addTarget p info = some l → s.Listed l' p → l' = l))

/-- What an operation must respect. -/
def KeepsLists (s : PeerStore) : PeerStoreOp → Prop
  | .add _ p info => s.AddGuarded p info
  | _ => True

instance (s : PeerStore) : (op : PeerStoreOp) → Decidable (s.KeepsLists op)
  | .add _ p info => inferInstanceAs (Decidable (s.AddGuarded p info))
  | .addSeedPeers _ | .setLastPing _ _ | .moveToGreyList _ _ | .moveToBlacklist _ | .clearGreyList
  | .clearBlackList | .updateLastDialAttempt _ _ | .updateLastSyncAttempt _ _ _
  | .addCatchUpAttempt _ | .resetCatchUpAttempts _ => inferInstanceAs (Decidable True)

theorem exclusive_add_iff (h : s.Exclusive) :
    (s.add now p info).1.Exclusive ↔ s.AddGuarded p info := by
  constructor
  · intro hafter l l' htarget hl'
    exact hafter p l' l (listed_add.mpr (Or.inr hl')) (listed_add.mpr (Or.inl ⟨rfl, htarget⟩))
  · intro hguard
    refine h.of_step fun q => ?_
    by_cases hq : q = p ∧ ∃ l, s.addTarget p info = some l
    · obtain ⟨rfl, t, ht⟩ := hq
      refine Or.inr ⟨t, fun l hl => ?_⟩
      obtain ⟨-, htarget⟩ | hl := listed_add.mp hl
      · rw [ht, Option.some.injEq] at htarget
        exact htarget.symm
      · exact hguard t l ht hl
    · refine Or.inl fun l hl => ?_
      obtain ⟨heq, htarget⟩ | hl := listed_add.mp hl
      · exact absurd ⟨heq, l, htarget⟩ hq
      · exact hl

theorem Exclusive.clearGreyList (h : s.Exclusive) : s.clearGreyList.Exclusive := by
  refine h.of_step fun q => ?_
  by_cases hgrey : s.Listed .greylist q
  · obtain ⟨r, hr⟩ := listed_iff.mp hgrey
    change s.greylistPeers.find? q = some r at hr
    refine Or.inr ⟨(s.releaseTarget r).getD .greylist, fun l hl => ?_⟩
    obtain ⟨r', hr', htarget⟩ | ⟨hl, hne⟩ := listed_clearGreyList.mp hl
    · rw [hr, Option.some.injEq] at hr'
      rw [hr', htarget, Option.getD_some]
    · exact absurd (h q l .greylist hl hgrey) hne
  · refine Or.inl fun l hl => ?_
    obtain ⟨r, hr, -⟩ | ⟨hl, -⟩ := listed_clearGreyList.mp hl
    · exact absurd ((listed_iff (l := .greylist)).mpr ⟨r, hr⟩) hgrey
    · exact hl

theorem Exclusive.moveToBlacklist (h : s.Exclusive) : (s.moveToBlacklist p).Exclusive := by
  refine h.of_step fun q => ?_
  by_cases hq : q = p ∧ (s.Listed .whitelist p ∨ s.Listed .greylist p)
  · obtain ⟨rfl, hin⟩ := hq
    refine Or.inr ⟨.blacklist, fun l hl => ?_⟩
    obtain ⟨-, -, rfl⟩ | ⟨hl, hnot⟩ := listed_moveToBlacklist.mp hl
    · rfl
    · obtain hwhite | hgrey := hin
      · exact absurd ⟨rfl, Or.inl (h q l .whitelist hl hwhite)⟩ hnot
      · exact absurd ⟨rfl, Or.inr (h q l .greylist hl hgrey)⟩ hnot
  · refine Or.inl fun l hl => ?_
    obtain ⟨heq, hin, -⟩ | ⟨hl, -⟩ := listed_moveToBlacklist.mp hl
    · exact absurd ⟨heq, hin⟩ hq
    · exact hl

theorem exclusive_step_iff (h : s.Exclusive) : (s.step op).Exclusive ↔ s.KeepsLists op := by
  have hsame {s' : PeerStore} (hsame : ∀ l q, s'.Listed l q ↔ s.Listed l q) : s'.Exclusive :=
    h.of_step fun q => Or.inl fun l => (hsame l q).mp
  cases op with
  | add now p info => exact exclusive_add_iff h
  | addSeedPeers peerIds => exact iff_of_true (hsame fun l q => by cases l <;> rfl) trivial
  | setLastPing p timestamp =>
    exact iff_of_true (h.of_move .greylist .whitelist fun _ _ => listed_setLastPing.mp) trivial
  | moveToGreyList p reason =>
    exact iff_of_true (h.of_move .whitelist .greylist fun _ _ => listed_moveToGreyList.mp) trivial
  | moveToBlacklist p => exact iff_of_true h.moveToBlacklist trivial
  | clearGreyList => exact iff_of_true h.clearGreyList trivial
  | clearBlackList =>
    refine iff_of_true (h.of_step fun q => ?_) trivial
    by_cases hblack : s.Listed .blacklist q
    · refine Or.inr ⟨.whitelist, fun l hl => ?_⟩
      obtain ⟨-, rfl⟩ | ⟨hl, hne⟩ := listed_clearBlackList.mp hl
      · rfl
      · exact absurd (h q l .blacklist hl hblack) hne
    · refine Or.inl fun l hl => ?_
      obtain ⟨hlisted, -⟩ | ⟨hl, -⟩ := listed_clearBlackList.mp hl
      · exact absurd hlisted hblack
      · exact hl
  | updateLastDialAttempt now p =>
    exact iff_of_true (hsame fun _ _ => listed_updateLastDialAttempt) trivial
  | updateLastSyncAttempt now p algo =>
    exact iff_of_true (hsame fun _ _ => listed_updateLastSyncAttempt) trivial
  | addCatchUpAttempt p => exact iff_of_true (hsame fun _ _ => listed_addCatchUpAttempt) trivial
  | resetCatchUpAttempts p => exact iff_of_true (hsame fun _ _ => listed_resetCatchUpAttempts) trivial

/-! ### The blacklist -/

theorem blacklisted_step (hop : op ≠ .clearBlackList) (h : s.Listed .blacklist p) :
    (s.step op).Listed .blacklist p := by
  cases op with
  | add now q info => exact listed_add.mpr (Or.inr h)
  | addSeedPeers peerIds => exact h
  | setLastPing q timestamp => exact listed_setLastPing.mpr (Or.inr ⟨h, by simp⟩)
  | moveToGreyList q reason => exact listed_moveToGreyList.mpr (Or.inr ⟨h, by simp⟩)
  | moveToBlacklist q => exact listed_moveToBlacklist.mpr (Or.inr ⟨h, by simp⟩)
  | clearGreyList => exact listed_clearGreyList.mpr (Or.inr ⟨h, by simp⟩)
  | clearBlackList => exact absurd rfl hop
  | updateLastDialAttempt now q => exact listed_updateLastDialAttempt.mpr h
  | updateLastSyncAttempt now q algo => exact listed_updateLastSyncAttempt.mpr h
  | addCatchUpAttempt q => exact listed_addCatchUpAttempt.mpr h
  | resetCatchUpAttempts q => exact listed_resetCatchUpAttempts.mpr h

theorem blacklisted_after {more : List PeerStoreOp} (hmore : .clearBlackList ∉ more)
    (h : s.Listed .blacklist p) : (after step s more).Listed .blacklist p := by
  induction more generalizing s with
  | nil => exact h
  | cons op more ih =>
    obtain ⟨hop, hmore⟩ := not_or.mp (fun hmem => hmore (List.mem_cons.mpr hmem))
    exact ih hmore (blacklisted_step (Ne.symm hop) h)

/-- A peer is neither dialed nor told of nor synced from: syncs take their peers from the
whitelist. -/
structure OutOfUse (s : PeerStore) (p : PeerId) : Prop where
  dialed : ∀ ord isAddress now count includeRandomx includeSha3,
    ∀ r ∈ s.bestSquadPeersToDial ord isAddress now count includeRandomx includeSha3, r.peerId ≠ p
  dialedNonSquad : ∀ ord isAddress now count,
    ∀ r ∈ s.randomNonSquadPeersToDial ord isAddress now count, r.peerId ≠ p
  shared : ∀ ord isAddress count squad others,
    ∀ r ∈ s.bestPeersToShare ord isAddress count squad others, r.peerId ≠ p
  synced : s.whitelistPeers.find? p = none

theorem mem_of_bestSquadPeersToDial {ord : IterOrder} {isAddress : String → Bool} {count : Nat}
    {includeRandomx includeSha3 : Bool}
    (h : r ∈ s.bestSquadPeersToDial ord isAddress now count includeRandomx includeSha3) :
    r ∈ s.whitelistPeers.values ∧ mayDial isAddress now r = true := by
  have hsorted := (List.perm_insertionSort _ _).mem_iff.mp (List.mem_of_mem_take h)
  obtain ⟨hmem, hmay⟩ := List.mem_filter.mp hsorted
  exact ⟨(ord.mem_run 0).mp hmem, hmay⟩

theorem mem_of_randomNonSquadPeersToDial {ord : IterOrder} {isAddress : String → Bool} {count : Nat}
    (h : r ∈ s.randomNonSquadPeersToDial ord isAddress now count) :
    r ∈ s.nonSquadPeers.values ∧ mayDial isAddress now r = true :=
  List.mem_filter.mp ((ord.mem_run 0).mp (List.mem_of_mem_take h))

theorem mem_of_bestPeersToShare {ord : IterOrder} {isAddress : String → Bool} {count : Nat}
    {squad : String} {others : List PeerId}
    (h : r ∈ s.bestPeersToShare ord isAddress count squad others) :
    r ∈ s.whitelistPeers.values ∨ r ∈ s.nonSquadPeers.values := by
  have hsorted := List.mem_of_mem_filter (List.mem_of_mem_take h)
  have hmem := List.mem_of_mem_filter ((List.perm_insertionSort _ _).mem_iff.mp hsorted)
  rwa [List.mem_append, ord.mem_run, ord.mem_run] at hmem

theorem Exclusive.outOfUse (h : s.Exclusive) (hblack : s.Listed .blacklist p) : s.OutOfUse p := by
  have hwhite (r : PeerStoreRecord) (hr : r ∈ s.whitelistPeers.values) : r.peerId ≠ p := by
    rintro rfl
    cases h _ .whitelist .blacklist (listed_iff.mpr ⟨r, KeyedMap.find?_of_mem_values hr⟩) hblack
  have hother (r : PeerStoreRecord) (hr : r ∈ s.nonSquadPeers.values) : r.peerId ≠ p := by
    rintro rfl
    cases h _ .nonSquad .blacklist (listed_iff.mpr ⟨r, KeyedMap.find?_of_mem_values hr⟩) hblack
  refine ⟨?_, ?_, ?_, KeyedMap.find?_eq_none_iff.mpr hwhite⟩
  · intro ord isAddress now count includeRandomx includeSha3 r hr
    exact hwhite r (mem_of_bestSquadPeersToDial hr).1
  · intro ord isAddress now count r hr
    exact hother r (mem_of_randomNonSquadPeersToDial hr).1
  · intro ord isAddress count squad others r hr
    exact (mem_of_bestPeersToShare hr).elim (hwhite r) (hother r)

/-- All along a sequence of operations every peer is on one list at most, exactly when no `add` puts
a peer on a list while it is on another; and then a blacklisted peer is out of use until the
blacklist is cleared. -/
theorem one_list_iff (squad : String) (ops : List PeerStoreOp) :
    (Along step (new squad) ops Exclusive ↔
      ∀ pre op, Takes ops pre op → (after step (new squad) pre).KeepsLists op) ∧
    (Along step (new squad) ops Exclusive → ∀ pre more p, pre ++ more <+: ops →
      .clearBlackList ∉ more → (after step (new squad) pre).isBlacklisted p = true →
      (after step (new squad) (pre ++ more)).OutOfUse p) := by
  refine ⟨along_iff (Exclusive.new squad) fun pre op _ h => exclusive_step_iff h, ?_⟩
  intro halong pre more p hpre hmore hblack
  have hstays := blacklisted_after hmore hblack
  rw [← after_append] at hstays
  exact (halong _ hpre).outOfUse hstays

/-- A blacklisted peer of our squad is out of use, also after the grey list has been cleared. -/
theorem one_list_sample :
    (after step (new "default") [.add 0 1 { squad := "default" }, .moveToBlacklist 1,
      .clearGreyList]).OutOfUse 1 := by
  obtain ⟨hiff, hout⟩ := one_list_iff "default" [.add 0 1 { squad := "default" }, .moveToBlacklist 1,
    .clearGreyList]
  refine hout (hiff.mpr fun pre op htakes => ?_) [.add 0 1 { squad := "default" }, .moveToBlacklist 1]
    [.clearGreyList] 1 List.prefix_rfl (by decide) (by decide)
  exact of_decide_eq_true (of_testAll
    (show testAll step (fun s op => decide (s.KeepsLists op)) _ _ = true by decide) htakes)

/-- A peer of another squad that comes over to ours is on two lists, and it stays in use when it is
blacklisted. -/
theorem listed_twice :
    let ops : List PeerStoreOp := [.add 0 1 { squad := "other" }, .add 1 1 { squad := "default" },
      .moveToBlacklist 1]
    (after step (new "default") ops).isBlacklisted 1 = true ∧
      (after step (new "default") ops).Listed .nonSquad 1 ∧
      ¬Along step (new "default") ops Exclusive := by
  refine ⟨by decide, by decide, fun h => ?_⟩
  have hlast := h _ (List.prefix_rfl) 1 .blacklist .nonSquad (by decide) (by decide)
  cases hlast

/-! ### Seed peers -/

theorem seedPeers_foldl {f : PeerStore → PeerStoreRecord → PeerStore}
    (hf : ∀ s r, (f s r).seedPeers = s.seedPeers) (records : List PeerStoreRecord) :
    (records.foldl f s).seedPeers = s.seedPeers := by
  induction records generalizing s with
  | nil => rfl
  | cons r records ih => rw [List.foldl_cons, ih, hf]

theorem seedPeers_step : (s.step op).seedPeers =
    match op with
    | .addSeedPeers peerIds => s.seedPeers ++ peerIds
    | _ => s.seedPeers := by
  cases op with
  | add now p info =>
    obtain ⟨-, heq⟩ | ⟨l, r, -, -, heq⟩ := add_eq s now p info
    · exact congrArg seedPeers heq
    · exact (congrArg seedPeers heq).trans (seedPeers_put l)
  | addSeedPeers peerIds => rfl
  | setLastPing p timestamp =>
    simp only [step, setLastPing]
    cases s.greylistPeers.find? p <;> rfl
  | moveToGreyList p reason =>
    simp only [step, moveToGreyList]
    cases s.whitelistPeers.find? p <;> rfl
  | moveToBlacklist p =>
    simp only [step, moveToBlacklist]
    cases (s.greylistPeers.find? p).or (s.whitelistPeers.find? p) <;> rfl
  | clearGreyList => exact seedPeers_foldl (fun _ _ => seedPeers_releaseGreyRecord) _
  | clearBlackList => exact seedPeers_foldl (f := releaseBlackRecord) (fun _ _ => rfl) _
  | updateLastDialAttempt now p => rfl
  | updateLastSyncAttempt now p algo => rfl
  | addCatchUpAttempt p => rfl
  | resetCatchUpAttempts p => rfl

theorem mem_seedPeers_after {peerIds : List PeerId} (hmem : .addSeedPeers peerIds ∈ pre)
    (hp : p ∈ peerIds) : p ∈ (after step s pre).seedPeers := by
  induction pre using List.reverseRecOn with
  | nil => cases hmem
  | append_singleton pre op ih =>
    rw [after_snoc, seedPeers_step]
    obtain hmem | hmem := List.mem_append.mp hmem
    · have hbefore := ih hmem
      cases op with
      | addSeedPeers peerIds => exact List.mem_append_left _ hbefore
      | _ => exact hbefore
    · rw [← List.mem_singleton.mp hmem]
      exact List.mem_append_right _ hp

/-- The peer is registered with `add_seed_peers` before it is added for the first time. -/
def RegisteredFirst (ops : List PeerStoreOp) (p : PeerId) : Prop :=
  ∀ pre now info, Takes ops pre (.add now p info) → ∃ peerIds, .addSeedPeers peerIds ∈ pre ∧ p ∈ peerIds

theorem registeredFirst_cons (p : PeerId) (ops : List PeerStoreOp) :
    RegisteredFirst (.addSeedPeers [p] :: ops) p := by
  rintro pre now info ⟨rest, h⟩
  cases pre with
  | nil => simp at h
  | cons first pre =>
    rw [List.cons_append, List.cons_append, List.cons.injEq] at h
    exact ⟨[p], by rw [h.1]; exact List.mem_cons_self, List.mem_cons_self⟩

/-- An operation that whitelists a peer from another list, whatever the seed peers are. -/
def Promotes (s : PeerStore) (p : PeerId) : PeerStoreOp → Prop
  | .setLastPing q _ => q = p ∧ s.Listed .greylist p
  | .clearBlackList => s.Listed .blacklist p
  | _ => False

/-- A seed peer is not on the whitelist, and it is on no list before it is a seed peer. -/
structure SeedKept (p : PeerId) (s : PeerStore) : Prop where
  notWhite : ¬s.Listed .whitelist p
  seed : ∀ l, s.Listed l p → p ∈ s.seedPeers

theorem addTarget_ne_whitelist (hseed : p ∈ s.seedPeers) : s.addTarget p info ≠ some .whitelist := by
  rw [addTarget, if_pos (List.contains_iff_mem.mpr hseed)]
  split_ifs <;> simp

/-- What is on a list after an operation was on one before, or has been added. -/
theorem exists_listed_before (h : (s.step op).Listed l p) :
    (∃ l', s.Listed l' p) ∨ ∃ now info, op = .add now p info := by
  cases op with
  | add now q info =>
    obtain ⟨rfl, -⟩ | h := listed_add.mp h
    · exact Or.inr ⟨now, info, rfl⟩
    · exact Or.inl ⟨l, h⟩
  | addSeedPeers peerIds =>
    refine Or.inl ⟨l, ?_⟩
    cases l <;> exact h
  | setLastPing q timestamp =>
    obtain ⟨rfl, h, -⟩ | ⟨h, -⟩ := listed_setLastPing.mp h
    · exact Or.inl ⟨_, h⟩
    · exact Or.inl ⟨l, h⟩
  | moveToGreyList q reason =>
    obtain ⟨rfl, h, -⟩ | ⟨h, -⟩ := listed_moveToGreyList.mp h
    · exact Or.inl ⟨_, h⟩
    · exact Or.inl ⟨l, h⟩
  | moveToBlacklist q =>
    obtain ⟨rfl, h | h, -⟩ | ⟨h, -⟩ := listed_moveToBlacklist.mp h
    · exact Or.inl ⟨_, h⟩
    · exact Or.inl ⟨_, h⟩
    · exact Or.inl ⟨l, h⟩
  | clearGreyList =>
    obtain ⟨r, hr, -⟩ | ⟨h, -⟩ := listed_clearGreyList.mp h
    · exact Or.inl ⟨.greylist, listed_iff.mpr ⟨r, hr⟩⟩
    · exact Or.inl ⟨l, h⟩
  | clearBlackList =>
    obtain ⟨h, -⟩ | ⟨h, -⟩ := listed_clearBlackList.mp h
    · exact Or.inl ⟨_, h⟩
    · exact Or.inl ⟨l, h⟩
  | updateLastDialAttempt now q => exact Or.inl ⟨l, listed_updateLastDialAttempt.mp h⟩
  | updateLastSyncAttempt now q algo => exact Or.inl ⟨l, listed_updateLastSyncAttempt.mp h⟩
  | addCatchUpAttempt q => exact Or.inl ⟨l, listed_addCatchUpAttempt.mp h⟩
  | resetCatchUpAttempts q => exact Or.inl ⟨l, listed_resetCatchUpAttempts.mp h⟩

/-- One operation whitelists a seed peer exactly when it promotes it. -/
theorem whitelisted_step_iff (h : SeedKept p s)
    (hadd : ∀ now info, op = .add now p info → p ∈ s.seedPeers) :
    (s.step op).Listed .whitelist p ↔ s.Promotes p op := by
  have hnot {P : Prop} (hP : P ↔ s.Listed .whitelist p) : P ↔ False :=
    hP.trans (iff_false_intro h.notWhite)
  cases op with
  | add now q info =>
    refine iff_of_false (fun hwhite => ?_) id
    obtain ⟨rfl, htarget⟩ | hwhite := listed_add.mp hwhite
    · exact addTarget_ne_whitelist (hadd now info rfl) htarget
    · exact h.notWhite hwhite
  | addSeedPeers peerIds => exact hnot Iff.rfl
  | setLastPing q timestamp =>
    rw [step, listed_setLastPing, Promotes]
    constructor
    · rintro (⟨rfl, hgrey, -⟩ | ⟨hwhite, -⟩)
      · exact ⟨rfl, hgrey⟩
      · exact absurd hwhite h.notWhite
    · rintro ⟨rfl, hgrey⟩
      exact Or.inl ⟨rfl, hgrey, rfl⟩
  | moveToGreyList q reason =>
    refine iff_of_false (fun hwhite => ?_) id
    obtain ⟨-, -, hl⟩ | ⟨hwhite, -⟩ := listed_moveToGreyList.mp hwhite
    · cases hl
    · exact h.notWhite hwhite
  | moveToBlacklist q =>
    refine iff_of_false (fun hwhite => ?_) id
    obtain ⟨-, -, hl⟩ | ⟨hwhite, -⟩ := listed_moveToBlacklist.mp hwhite
    · cases hl
    · exact h.notWhite hwhite
  | clearGreyList =>
    refine iff_of_false (fun hwhite => ?_) id
    obtain ⟨r, hr, htarget⟩ | ⟨hwhite, -⟩ := listed_clearGreyList.mp hwhite
    · have hseed := h.seed .greylist (listed_iff.mpr ⟨r, hr⟩)
      rw [← KeyedMap.key_of_find? hr] at hseed
      rw [releaseTarget, if_pos (List.contains_iff_mem.mpr hseed)] at htarget
      split_ifs at htarget
      cases htarget
    · exact h.notWhite hwhite
  | clearBlackList =>
    rw [step, listed_clearBlackList, Promotes]
    exact ⟨fun hwhite => hwhite.elim And.left fun hwhite => absurd hwhite.1 h.notWhite,
      fun hblack => Or.inl ⟨hblack, rfl⟩⟩
  | updateLastDialAttempt now q => exact hnot listed_updateLastDialAttempt
  | updateLastSyncAttempt now q algo => exact hnot listed_updateLastSyncAttempt
  | addCatchUpAttempt q => exact hnot listed_addCatchUpAttempt
  | resetCatchUpAttempts q => exact hnot listed_resetCatchUpAttempts

theorem mem_seedPeers_step (h : p ∈ s.seedPeers) : p ∈ (s.step op).seedPeers := by
  rw [seedPeers_step]
  cases op with
  | addSeedPeers peerIds => exact List.mem_append_left _ h
  | _ => exact h

/-- A peer that is a seed peer before it is added is never on the whitelist, exactly when it is
never pinged while it is greylisted and the blacklist is never cleared while it is on it. -/
theorem seed_never_whitelisted_iff (squad : String) (hfirst : RegisteredFirst ops p) :
    Along step (new squad) ops (fun s => ¬s.Listed .whitelist p) ↔
      ∀ pre op, Takes ops pre op → ¬(after step (new squad) pre).Promotes p op := by
  have hadded {pre : List PeerStoreOp} {op : PeerStoreOp} (htakes : Takes ops pre op) (now : Instant)
      (info : PeerInfo) (hop : op = .add now p info) : p ∈ (after step (new squad) pre).seedPeers := by
    subst hop
    obtain ⟨peerIds, hmem, hp⟩ := hfirst pre now info htakes
    exact mem_seedPeers_after hmem hp
  have hseed : Along step (new squad) ops (fun s => ∀ l, s.Listed l p → p ∈ s.seedPeers) := by
    refine along_of_step (fun l h => absurd h not_listed_new) fun pre op htakes hbefore l h => ?_
    refine mem_seedPeers_step ?_
    obtain ⟨l', h'⟩ | ⟨now, info, hop⟩ := exists_listed_before h
    · exact hbefore l' h'
    · exact hadded htakes now info hop
  refine along_iff (I := fun s => ¬Listed s .whitelist p) (G := fun s op => ¬Promotes s p op)
    not_listed_new fun pre op htakes hwhite => not_congr ?_
  exact whitelisted_step_iff ⟨hwhite, hseed pre ((List.prefix_append pre [op]).trans htakes)⟩
    (hadded htakes)

/-- A seed peer that is only added and released from the grey list. -/
theorem seed_never_whitelisted_sample : Along step (new "default")
    [.addSeedPeers [1], .add 0 1 { squad := "default" }, .clearGreyList]
    (fun s => ¬s.Listed .whitelist 1) := by
  refine (seed_never_whitelisted_iff "default" (registeredFirst_cons 1 _)).mpr
    fun pre op htakes => ?_
  have hop := of_testAll (show testAll step (fun _ op => op matches .addSeedPeers _ | .add _ _ _ |
    .clearGreyList) (new "default") _ = true by decide) htakes
  cases op with
  | addSeedPeers _ => exact id
  | add _ _ _ => exact id
  | clearGreyList => exact id
  | _ => cases hop

/-- A ping brings a seed peer to the whitelist, and so does the clearing of the blacklist. -/
theorem seed_whitelisted :
    let pinged : List PeerStoreOp :=
      [.addSeedPeers [1], .add 0 1 { squad := "default" }, .setLastPing 1 5]
    let pardoned : List PeerStoreOp :=
      [.addSeedPeers [1], .add 0 1 { squad := "default" }, .moveToBlacklist 1, .clearBlackList]
    (RegisteredFirst pinged 1 ∧ (after step (new "default") pinged).Listed .whitelist 1) ∧
      RegisteredFirst pardoned 1 ∧ (after step (new "default") pardoned).Listed .whitelist 1 := by
  exact ⟨⟨registeredFirst_cons 1 _, by decide⟩, registeredFirst_cons 1 _, by decide⟩

/-! ### Adding a peer again -/

/-- Adding a peer changes nothing but the peer info in the records that it leaves on the whitelist
and among the peers of other squads. -/
def KeepsRecords (s : PeerStore) (now : Instant) (p : PeerId) (info : PeerInfo) : Prop :=
  ∀ l, l = .whitelist ∨ l = .nonSquad → ∀ r r', (s.list l).find? p = some r →
    ((s.add now p info).1.list l).find? p = some r' → r' = { r with peerInfo := r'.peerInfo }

/-- What adding a peer again must respect: a whitelisted peer has not been dialed, and a peer of
another squad has not been dialed either and was created at this very instant. -/
structure ReannounceGuarded (s : PeerStore) (now : Instant) (p : PeerId) (info : PeerInfo) : Prop where
  whitelisted : s.addTarget p info = some .whitelist → ∀ r, s.whitelistPeers.find? p = some r →
    r.lastDialAttempt = none
  otherSquad : s.addTarget p info = some .nonSquad → ∀ r, s.nonSquadPeers.find? p = some r →
    r.lastDialAttempt = none ∧ r.created = now

def NonSquadFresh (s : PeerStore) : Prop :=
  ∀ p r, s.nonSquadPeers.find? p = some r → r =
    { PeerStoreRecord.new r.created r.peerId r.peerInfo with lastDialAttempt := r.lastDialAttempt }

theorem nonSquadPeers_foldl {f : PeerStore → PeerStoreRecord → PeerStore}
    (hf : ∀ s r, (f s r).nonSquadPeers = s.nonSquadPeers) (records : List PeerStoreRecord) :
    (records.foldl f s).nonSquadPeers = s.nonSquadPeers := by
  induction records generalizing s with
  | nil => rfl
  | cons r records ih => rw [List.foldl_cons, ih, hf]

theorem add_otherSquad (h : info.squad ≠ s.mySquad) : (s.add now p info).1 =
    { s with nonSquadPeers := s.nonSquadPeers.insert (PeerStoreRecord.new now p info) } := by
  rw [add, if_pos h]

theorem nonSquadPeers_add_of_mySquad (h : info.squad = s.mySquad) :
    (s.add now p info).1.nonSquadPeers = s.nonSquadPeers := by
  rw [add, if_neg (not_not.mpr h)]
  split_ifs
  · rfl
  · rfl
  · rfl
  · cases s.whitelistPeers.find? p <;> rfl

theorem nonSquadPeers_step (s : PeerStore) (op : PeerStoreOp) :
    (s.step op).nonSquadPeers = s.nonSquadPeers ∨
    (∃ now p info, op = .add now p info ∧ info.squad ≠ s.mySquad) ∨
      ∃ now p, op = .updateLastDialAttempt now p := by
  cases op with
  | add now p info =>
    by_cases hsquad : info.squad = s.mySquad
    · exact Or.inl (nonSquadPeers_add_of_mySquad hsquad)
    · exact Or.inr (Or.inl ⟨now, p, info, rfl, hsquad⟩)
  | addSeedPeers peerIds => exact Or.inl rfl
  | setLastPing p timestamp =>
    simp only [step, setLastPing]
    cases s.greylistPeers.find? p <;> exact Or.inl rfl
  | moveToGreyList p reason =>
    simp only [step, moveToGreyList]
    cases s.whitelistPeers.find? p <;> exact Or.inl rfl
  | moveToBlacklist p =>
    simp only [step, moveToBlacklist]
    cases (s.greylistPeers.find? p).or (s.whitelistPeers.find? p) <;> exact Or.inl rfl
  | clearGreyList =>
    refine Or.inl (nonSquadPeers_foldl (f := releaseGreyRecord) (fun s r => ?_) _)
    rw [releaseGreyRecord]
    split_ifs <;> rfl
  | clearBlackList => exact Or.inl (nonSquadPeers_foldl (f := releaseBlackRecord) (fun _ _ => rfl) _)
  | updateLastDialAttempt now p => exact Or.inr (Or.inr ⟨now, p, rfl⟩)
  | updateLastSyncAttempt now p algo => exact Or.inl rfl
  | addCatchUpAttempt p => exact Or.inl rfl
  | resetCatchUpAttempts p => exact Or.inl rfl

theorem NonSquadFresh.step (h : s.NonSquadFresh) : (s.step op).NonSquadFresh := by
  intro q r hr
  obtain heq | ⟨now, p, info, rfl, hsquad⟩ | ⟨now, p, rfl⟩ := nonSquadPeers_step s op
  · rw [heq] at hr
    exact h q r hr
  · simp only [PeerStore.step, add_otherSquad hsquad] at hr
    rw [KeyedMap.find?_insert] at hr
    split_ifs at hr
    · cases hr
      rfl
    · exact h q r hr
  · change (s.nonSquadPeers.update p (·.withLastDialAttempt now)).find? q = some r at hr
    rw [KeyedMap.find?_update fun r => r.peerId_withLastDialAttempt now] at hr
    split_ifs at hr
    · obtain ⟨old, hold, rfl⟩ := Option.map_eq_some_iff.mp hr
      rw [h p old hold]
      rfl
    · exact h q r hr

theorem nonSquadFresh_after (squad : String) (ops : List PeerStoreOp) :
    (after step (new squad) ops).NonSquadFresh := by
  have halong : Along step (new squad) ops NonSquadFresh :=
    along_of_step (fun _ _ h => by cases h) fun _ _ _ h => NonSquadFresh.step h
  exact halong ops List.prefix_rfl

theorem list_add_of_ne (h : s.addTarget p info ≠ some l) :
    (s.add now p info).1.list l = s.list l := by
  obtain ⟨-, heq⟩ | ⟨target, r, htarget, -, heq⟩ := add_eq s now p info
  · rw [heq]
  · rw [heq, list_put, if_neg]
    rintro rfl
    exact h htarget

theorem addTarget_eq_nonSquad_iff : s.addTarget p info = some .nonSquad ↔ info.squad ≠ s.mySquad := by
  rw [addTarget]
  split_ifs with hsquad <;> simp [hsquad]

theorem find?_add_nonSquad (now : Instant) (h : s.addTarget p info = some .nonSquad) :
    (s.add now p info).1.nonSquadPeers.find? p = some (PeerStoreRecord.new now p info) := by
  rw [add_otherSquad (addTarget_eq_nonSquad_iff.mp h)]
  exact KeyedMap.find?_insert_self _ _

theorem find?_add_whitelist (now : Instant) (h : s.addTarget p info = some .whitelist)
    (hr : s.whitelistPeers.find? p = some r) :
    (s.add now p info).1.whitelistPeers.find? p = some (r.renewed now p info) := by
  rw [addTarget] at h
  rw [add]
  split_ifs at h ⊢
  all_goals try cases h
  simp only [hr]
  exact KeyedMap.find?_insert_self _ (r.renewed now p info)

theorem renewed_eq_iff (hr : r.peerId = p) :
    r.renewed now p info = { r with peerInfo := (r.renewed now p info).peerInfo } ↔
      r.lastDialAttempt = none := by
  subst hr
  constructor
  · intro h
    exact (congrArg PeerStoreRecord.lastDialAttempt h).symm
  · intro h
    obtain ⟨_, _, _, _, _, _, _, _, _, _⟩ := r
    cases h
    rfl

theorem new_eq_iff (hr : r.peerId = p) (hfresh : r =
    { PeerStoreRecord.new r.created r.peerId r.peerInfo with lastDialAttempt := r.lastDialAttempt }) :
    PeerStoreRecord.new now p info =
        { r with peerInfo := (PeerStoreRecord.new now p info).peerInfo } ↔
      r.lastDialAttempt = none ∧ r.created = now := by
  subst hr
  constructor
  · intro h
    exact ⟨(congrArg PeerStoreRecord.lastDialAttempt h).symm,
      (congrArg PeerStoreRecord.created h).symm⟩
  · rintro ⟨hdial, rfl⟩
    rw [hdial] at hfresh
    rw [hfresh]
    rfl

theorem keepsRecords_iff (h : s.NonSquadFresh) :
    s.KeepsRecords now p info ↔ s.ReannounceGuarded now p info := by
  constructor
  · intro hkeeps
    refine ⟨fun htarget r hr => ?_, fun htarget r hr => ?_⟩
    · exact (renewed_eq_iff (KeyedMap.key_of_find? hr)).mp
        (hkeeps .whitelist (Or.inl rfl) r _ hr (find?_add_whitelist now htarget hr))
    · exact (new_eq_iff (KeyedMap.key_of_find? hr) (h p r hr)).mp
        (hkeeps .nonSquad (Or.inr rfl) r _ hr (find?_add_nonSquad now htarget))
  · intro hguard l hl r r' hr hr'
    by_cases htarget : s.addTarget p info = some l
    · obtain rfl | rfl := hl
      · have hrenewed := (find?_add_whitelist now htarget hr).symm.trans hr'
        rw [Option.some.injEq] at hrenewed
        rw [← hrenewed]
        exact (renewed_eq_iff (KeyedMap.key_of_find? hr)).mpr (hguard.whitelisted htarget r hr)
      · have hnew := (find?_add_nonSquad now htarget).symm.trans hr'
        rw [Option.some.injEq] at hnew
        rw [← hnew]
        exact (new_eq_iff (KeyedMap.key_of_find? hr) (h p r hr)).mpr (hguard.otherSquad htarget r hr)
    · rw [list_add_of_ne htarget, hr, Option.some.injEq] at hr'
      rw [← hr']

/-- A peer that was dialed at most 120 seconds ago is not offered for dialing after it is added
again. -/
def KeepsThrottle (s : PeerStore) (now : Instant) (p : PeerId) (info : PeerInfo) : Prop :=
  ∀ later r attempt, r.lastDialAttempt = some attempt → Instant.elapsedSecs later attempt ≤ 120 →
    (s.whitelistPeers.find? p = some r → ∀ ord isAddress count includeRandomx includeSha3,
      ∀ r' ∈ (s.add now p info).1.bestSquadPeersToDial ord isAddress later count includeRandomx
        includeSha3, r'.peerId ≠ p) ∧
    (s.nonSquadPeers.find? p = some r → ∀ ord isAddress count,
      ∀ r' ∈ (s.add now p info).1.randomNonSquadPeersToDial ord isAddress later count, r'.peerId ≠ p)

theorem not_mayDial {isAddress : String → Bool} {later attempt : Instant}
    (hdial : r.lastDialAttempt = some attempt) (hrecent : Instant.elapsedSecs later attempt ≤ 120) :
    mayDial isAddress later r = false := by
  rw [mayDial, hdial]
  simp only [Bool.and_eq_false_iff, decide_eq_false_iff_not, not_lt]
  exact Or.inr hrecent

theorem KeepsRecords.keepsThrottle (h : s.KeepsRecords now p info) : s.KeepsThrottle now p info := by
  intro later r attempt hdial hrecent
  have hoffered (l : PeerList) (hl : l = .whitelist ∨ l = .nonSquad) (isAddress : String → Bool)
      (r' : PeerStoreRecord) (hr : (s.list l).find? p = some r)
      (hr' : r' ∈ ((s.add now p info).1.list l).values) (hmay : mayDial isAddress later r' = true) :
      r'.peerId ≠ p := by
    rintro rfl
    have hsame := h l hl r r' hr (KeyedMap.find?_of_mem_values hr')
    have hdial' : r'.lastDialAttempt = some attempt := by rw [hsame, hdial]
    rw [not_mayDial hdial' hrecent] at hmay
    cases hmay
  refine ⟨fun hr ord isAddress count includeRandomx includeSha3 r' hr' => ?_,
    fun hr ord isAddress count r' hr' => ?_⟩
  · obtain ⟨hmem, hmay⟩ := mem_of_bestSquadPeersToDial hr'
    exact hoffered .whitelist (Or.inl rfl) isAddress r' hr hmem hmay
  · obtain ⟨hmem, hmay⟩ := mem_of_randomNonSquadPeersToDial hr'
    exact hoffered .nonSquad (Or.inr rfl) isAddress r' hr hmem hmay

/-- After any operations, adding a peer again changes only the peer info of its record on the
whitelist or among the peers of other squads, exactly when no dial attempt is lost and no record of
another squad is made anew; and then the peer is not offered for dialing any earlier. -/
theorem reannounce_keeps_records_iff (squad : String) (ops : List PeerStoreOp) (now : Instant)
    (p : PeerId) (info : PeerInfo) :
    ((after step (new squad) ops).KeepsRecords now p info ↔
      (after step (new squad) ops).ReannounceGuarded now p info) ∧
    ((after step (new squad) ops).KeepsRecords now p info →
      (after step (new squad) ops).KeepsThrottle now p info) :=
  ⟨keepsRecords_iff (nonSquadFresh_after squad ops), KeepsRecords.keepsThrottle⟩

/-- A whitelisted peer that has been pinged but not dialed keeps its record. -/
theorem reannounce_keeps_records_sample :
    (after step (new "default") [.add 0 1 { squad := "default" }, .setLastPing 1 5]).KeepsThrottle
      7 1 { squad := "default", timestamp := 7 } := by
  obtain ⟨hiff, hthrottle⟩ := reannounce_keeps_records_iff "default"
    [.add 0 1 { squad := "default" }, .setLastPing 1 5] 7 1 { squad := "default", timestamp := 7 }
  refine hthrottle (hiff.mpr ⟨fun _ r hr => ?_, fun htarget => absurd htarget (by decide)⟩)
  have hnone : ∀ r ∈ (after step (new "default") [.add 0 1 { squad := "default" },
    .setLastPing 1 5]).whitelistPeers.find? 1, r.lastDialAttempt = none := by decide
  exact hnone r hr

/-- A peer that was dialed at second 10 and is added again at second 11 may be dialed at second 12,
in our squad and in another one. -/
theorem dial_attempt_lost :
    let second : Nat := 1000000000
    let ours : PeerInfo := { squad := "default", publicAddresses := ["/ip4/1.2.3.4"] }
    let other : PeerInfo := { squad := "other", publicAddresses := ["/ip4/1.2.3.4"] }
    let dialed (info : PeerInfo) := after step (new "default")
      [.add 0 1 info, .updateLastDialAttempt (10 * second) 1]
    (((dialed ours).add (11 * second) 1 ours).1.bestSquadPeersToDial .stored (fun _ => true)
        (12 * second) 1 false false).map (·.peerId) = [1] ∧
      ¬(dialed ours).KeepsRecords (11 * second) 1 ours ∧
      (((dialed other).add (11 * second) 1 other).1.randomNonSquadPeersToDial .stored (fun _ => true)
        (12 * second) 1).map (·.peerId) = [1] ∧
      ¬(dialed other).KeepsRecords (11 * second) 1 other := by
  intro second ours other dialed
  have hkeeps (info : PeerInfo) : (dialed info).KeepsRecords (11 * second) 1 info ↔
      (dialed info).ReannounceGuarded (11 * second) 1 info :=
    keepsRecords_iff (nonSquadFresh_after "default" _)
  have hours : ((dialed ours).whitelistPeers.find? 1).map (·.lastDialAttempt) =
      some (some (10 * second)) := by decide
  have hother : ((dialed other).nonSquadPeers.find? 1).map (·.lastDialAttempt) =
      some (some (10 * second)) := by decide
  obtain ⟨r, hr, hdial⟩ := Option.map_eq_some_iff.mp hours
  obtain ⟨r', hr', hdial'⟩ := Option.map_eq_some_iff.mp hother
  refine ⟨by decide, fun h => ?_, by decide, fun h => ?_⟩
  · have hnone := ((hkeeps ours).mp h).whitelisted (by decide) r hr
    rw [hnone] at hdial
    cases hdial
  · have hnone := ((hkeeps other).mp h).otherSquad (by decide) r' hr'
    rw [hnone.1] at hdial'
    cases hdial'

end PeerStore

end ShaP2Pool
