import ShaP2Pool.Proof.MainLoop

/-!
# Where a catch-up resumes

The service remembers the last block that it requested, for a later sync to resume from. The block
is taken out of the state before the last two tests that can turn a catch-up away, and only a
request that is sent puts one back.
-/

namespace ShaP2Pool

open Trace

namespace Service

variable {S : Type} {core : TariCore} {env : Env} {request : PerformCatchUpSync}

/-- The peer is not asked now, whatever else is going on. -/
def SkipsPeer (s : Service S) (request : PerformCatchUpSync) : Prop :=
  s.networkPeerStore.isBlacklisted request.peer = true ∨
    s.lastFailedPeer request.algo = some request.peer

/-- There is a sync with the peer already, or no permit for one. -/
def Superfluous (s : Service S) (request : PerformCatchUpSync) : Prop :=
  (s.inProgressSyncs request.algo).contains request.peer = true ∨
    (request.permit = none ∧ s.syncSemaphore request.algo = 0)

/-- The state that a later catch-up resumes from is as before. -/
def SameProgress (s s' : Service S) : Prop :=
  s'.lastSyncRequestedBlock = s.lastSyncRequestedBlock ∧ s'.inProgressSyncs = s.inProgressSyncs

theorem SameProgress.dropPermit (s : Service S) (permit : Option OwnedSemaphorePermit) :
    SameProgress s (s.dropPermit permit) := by
  cases permit <;> exact ⟨rfl, rfl⟩

def takeLastRequested (s : Service S) (algo : PowAlgorithm) : Service S :=
  { s with lastSyncRequestedBlock := Function.update s.lastSyncRequestedBlock algo none }

theorem takeLastRequested_same_iff {s : Service S} {algo : PowAlgorithm} :
    SameProgress s (s.takeLastRequested algo) ↔ s.lastSyncRequestedBlock algo = none := by
  constructor
  · rintro ⟨hlast, -⟩
    rw [← hlast]
    exact Function.update_self ..
  · intro hnone
    refine ⟨?_, rfl⟩
    rw [takeLastRequested, ← hnone]
    exact Function.update_eq_self ..

theorem sendCatchUp_ne_nil (s : Service (InMemoryShareChain × P2Chain))
    (permit : OwnedSemaphorePermit) (lastProgress : Option (Nat × FixedHash)) :
    (s.sendCatchUp (InMemoryShareChain.shareChain core) env request permit lastProgress).2 ≠ [] :=
  List.cons_ne_nil _ _

theorem performCatchUpSync_of_skipsPeer (sc : ShareChain S) {s : Service S}
    (hskips : s.SkipsPeer request) :
    SameProgress s (s.performCatchUpSync sc env request).1 := by
  rw [performCatchUpSync]
  dsimp only
  by_cases hblacklisted : s.networkPeerStore.isBlacklisted request.peer = true
  · rw [if_pos hblacklisted]
    exact SameProgress.dropPermit s request.permit
  · rw [if_neg hblacklisted, if_pos (hskips.resolve_left hblacklisted)]
    exact SameProgress.dropPermit s request.permit

theorem performCatchUpSync_of_superfluous (sc : ShareChain S) {s : Service S}
    (hasks : ¬s.SkipsPeer request) (hsuperfluous : s.Superfluous request) :
    (s.performCatchUpSync sc env request).2 = [] ∧
      SameProgress (s.takeLastRequested request.algo) (s.performCatchUpSync sc env request).1 := by
  obtain ⟨hblacklisted, hfailed⟩ := not_or.mp hasks
  rw [performCatchUpSync]
  dsimp only
  rw [if_neg hblacklisted, if_neg hfailed]
  by_cases hrunning : (s.inProgressSyncs request.algo).contains request.peer = true
  · rw [if_pos hrunning]
    exact ⟨rfl, SameProgress.dropPermit _ request.permit⟩
  · obtain ⟨hpermit, hnone⟩ := hsuperfluous.resolve_left hrunning
    rw [if_neg hrunning, hpermit, tryAcquire, if_pos hnone]
    exact ⟨rfl, rfl, rfl⟩

theorem performCatchUpSync_of_needed {s : Service (InMemoryShareChain × P2Chain)}
    (hasks : ¬s.SkipsPeer request) (hneeded : ¬s.Superfluous request) :
    (s.performCatchUpSync (InMemoryShareChain.shareChain core) env request).2 ≠ [] := by
  obtain ⟨hblacklisted, hfailed⟩ := not_or.mp hasks
  obtain ⟨hrunning, hpermit⟩ := not_or.mp hneeded
  rw [performCatchUpSync]
  dsimp only
  rw [if_neg hblacklisted, if_neg hfailed, if_neg hrunning]
  cases hcarried : request.permit with
  | some permit => exact sendCatchUp_ne_nil _ permit _
  | none =>
    rw [tryAcquire, if_neg fun hnone => hpermit ⟨hcarried, hnone⟩]
    exact sendCatchUp_ne_nil _ _ _

/-- A catch-up that sends no request leaves the remembered blocks and the syncs in progress as they
were if and only if its peer is skipped, or it is not superfluous (it is sent then), or no block was
remembered. -/
theorem performCatchUpSync_forgets_nothing_iff (core : TariCore) (env : Env)
    (request : PerformCatchUpSync) (s : Service (InMemoryShareChain × P2Chain)) :
    ((s.performCatchUpSync (InMemoryShareChain.shareChain core) env request).2 = [] →
      SameProgress s (s.performCatchUpSync (InMemoryShareChain.shareChain core) env request).1) ↔
    s.SkipsPeer request ∨ ¬s.Superfluous request ∨
      s.lastSyncRequestedBlock request.algo = none := by
  by_cases hskips : s.SkipsPeer request
  · exact ⟨fun _ => Or.inl hskips, fun _ _ => performCatchUpSync_of_skipsPeer _ hskips⟩
  · by_cases hsuperfluous : s.Superfluous request
    · obtain ⟨hunsent, hlast, hsyncs⟩ := performCatchUpSync_of_superfluous
        (InMemoryShareChain.shareChain core) hskips hsuperfluous
      constructor
      · intro hkeeps
        obtain ⟨hlast', hsyncs'⟩ := hkeeps hunsent
        have hsame : SameProgress s (s.takeLastRequested request.algo) :=
          ⟨hlast.symm.trans hlast', hsyncs.symm.trans hsyncs'⟩
        exact Or.inr (Or.inr (takeLastRequested_same_iff.mp hsame))
      · intro hcondition _
        have hnone := (hcondition.resolve_left hskips).resolve_left (not_not.mpr hsuperfluous)
        obtain ⟨hlast', hsyncs'⟩ := takeLastRequested_same_iff.mpr hnone
        exact ⟨hlast.trans hlast', hsyncs.trans hsyncs'⟩
    · refine ⟨fun _ => Or.inr (Or.inl hsuperfluous), fun _ hunsent => ?_⟩
      exact absurd hunsent (performCatchUpSync_of_needed hskips hsuperfluous)

end Service

namespace Net

def sha3xInfo (peer : PeerId) : PeerInfo :=
  { sampleInfo peer 0 0 with currentSha3xHeight := 3, currentSha3xPow := 5 }

/-- Peer 7 is asked for Sha3x blocks, answers with one that is not its tip, and is asked for the
next ones. Then peer 8 announces as much work. -/
def resumedSync : List (Env × Input (InMemoryShareChain × P2Chain)) :=
  [(sampleEnv, .event (.metaDataResponse 7 (.ok ⟨some 7, sha3xInfo 7⟩))),
    (sampleEnv, .innerRequest),
    (sampleEnv, .event (.catchUpSyncResponse 7 0 (.ok
      { peerId := 7, algo := 1, blocks := [sentBlock 1 0 0], tip := (9, 9)
        achievedPow := some 1000 }))),
    (sampleEnv, .task 0), (sampleEnv, .task 0), (sampleEnv, .task 0), (sampleEnv, .task 0),
    (sampleEnv, .innerRequest), (sampleEnv, .innerRequest),
    (sampleEnv, .event (.metaDataResponse 8 (.ok ⟨some 8, sha3xInfo 8⟩)))]

/-- The service when the sync with peer 7 goes on and the catch-up with peer 8 is queued. -/
def resumed : Net (InMemoryShareChain × P2Chain) :=
  after (Net.step (InMemoryShareChain.shareChain P2Chain.sampleCore))
    (Net.start (Service.new "default" 0 {} 10 sampleShareChains)) resumedSync

def announced : PerformCatchUpSync where
  algo := .sha3x
  peer := 8
  lastBlockFromThem := none
  theirHeight := 3
  permit := none

/-- The catch-up with peer 8 is not sent, as the only permit is taken, and the block up to which
peer 7 was asked for blocks is forgotten. -/
theorem superfluous_forgets_progress :
    resumed.queue.map (·.1) = [.performCatchUpSync announced] ∧
      resumed.service.lastSyncRequestedBlock .sha3x = some (0, 1) ∧
      ¬((resumed.service.performCatchUpSync (InMemoryShareChain.shareChain P2Chain.sampleCore)
            sampleEnv announced).2 = [] →
          Service.SameProgress resumed.service (resumed.service.performCatchUpSync
            (InMemoryShareChain.shareChain P2Chain.sampleCore) sampleEnv announced).1) := by
  have hsome : resumed.service.lastSyncRequestedBlock .sha3x = some (0, 1) := by decide
  refine ⟨rfl, hsome, fun hkeeps => ?_⟩
  have hafter : (resumed.service.performCatchUpSync
      (InMemoryShareChain.shareChain P2Chain.sampleCore) sampleEnv announced).1.lastSyncRequestedBlock
        .sha3x = none := by decide
  obtain ⟨hlast, -⟩ := hkeeps rfl
  rw [hlast, hsome] at hafter
  cases hafter

end Net

end ShaP2Pool
