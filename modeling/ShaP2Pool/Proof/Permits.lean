import ShaP2Pool.Proof.MainLoop
import Mathlib.Algebra.BigOperators.Group.List.Basic

/-!
# The permits of catch-up syncs

A permit is taken from the semaphore of its algorithm, goes with the sync into the map of syncs in
progress, from there with the answer into a task, with the next request of the task into the queue
and back into a map. No step makes or loses one, so the permits of a semaphore, free or held, are
always as many as at the start. A map therefore has at most that many syncs if each holds a permit
of its own semaphore, and that breaks where an answer carries the other algorithm than the request.
-/

namespace ShaP2Pool

open Trace

variable {S : Type}

def permitCount (algo : PowAlgorithm) : Option OwnedSemaphorePermit → Nat
  | some permit => if permit.semaphore = algo then 1 else 0
  | none => 0

@[simp] theorem permitCount_none (algo : PowAlgorithm) : permitCount algo none = 0 := rfl

def InnerRequest.permit : InnerRequest → Option OwnedSemaphorePermit
  | .performCatchUpSync request => request.permit
  | _ => none

def Effect.permit : Effect → Option OwnedSemaphorePermit
  | .send request => request.permit
  | .spawn task => task.permit
  | _ => none

def carried (algo : PowAlgorithm) (effects : List Effect) : Nat :=
  (effects.map fun effect => permitCount algo effect.permit).sum

@[simp] theorem carried_nil (algo : PowAlgorithm) : carried algo [] = 0 := rfl

@[simp] theorem carried_cons (algo : PowAlgorithm) (effect : Effect) (effects : List Effect) :
    carried algo (effect :: effects) = permitCount algo effect.permit + carried algo effects :=
  List.sum_cons

theorem carried_eq_zero {algo : PowAlgorithm} {effects : List Effect}
    (h : ∀ effect ∈ effects, effect.permit = none) : carried algo effects = 0 := by
  rw [carried, List.sum_eq_zero]
  intro n hn
  obtain ⟨effect, hmem, rfl⟩ := List.mem_map.mp hn
  rw [h effect hmem, permitCount_none]

namespace Service

variable {s s' : Service S} (sc : ShareChain S) (env : Env) (algo : PowAlgorithm)

/-! ### No permit is made or lost -/

def occupied (syncs : KeyedMap InProgressSync.peer) : Nat :=
  (syncs.values.map fun sync => permitCount algo (some sync.permit)).sum

theorem occupied_erase {syncs : KeyedMap InProgressSync.peer} {sync : InProgressSync}
    (h : syncs.find? sync.peer = some sync) :
    occupied algo (syncs.erase sync.peer) + permitCount algo (some sync.permit) =
      occupied algo syncs := by
  rw [occupied, occupied, ((KeyedMap.perm_erase h).map _).sum_eq, List.map_cons, List.sum_cons,
    Nat.add_comm]

theorem occupied_insert {syncs : KeyedMap InProgressSync.peer} {sync : InProgressSync}
    (h : syncs.find? sync.peer = none) :
    occupied algo (syncs.insert sync) = occupied algo syncs + permitCount algo (some sync.permit) := by
  rw [occupied, KeyedMap.insert, List.map_cons, List.sum_cons, KeyedMap.values_erase_of_find?_none h,
    occupied, Nat.add_comm]

theorem occupied_eq_size {syncs : KeyedMap InProgressSync.peer}
    (h : ∀ sync ∈ syncs.values, sync.permit.semaphore = algo) : occupied algo syncs = syncs.size := by
  have hone : (syncs.values.map fun sync => permitCount algo (some sync.permit)) =
      syncs.values.map fun _ => 1 :=
    List.map_congr_left fun sync hmem => if_pos (h sync hmem)
  rw [occupied, hone, List.map_const', List.sum_replicate_nat, Nat.mul_one, KeyedMap.size]

/-- The permits of a semaphore that are free, or held by a sync in progress. -/
def Slots.permits (slots : Slots) : Nat :=
  slots.syncSemaphore algo +
    (occupied algo (slots.inProgressSyncs .randomX) + occupied algo (slots.inProgressSyncs .sha3x))

theorem permits_dropPermit (permit : Option OwnedSemaphorePermit) :
    (s.dropPermit permit).slots.permits algo = s.slots.permits algo + permitCount algo permit := by
  cases permit with
  | none => rfl
  | some permit =>
    have hfree : (s.dropPermit (some permit)).syncSemaphore algo =
        s.syncSemaphore algo + permitCount algo (some permit) := by
      by_cases hown : permit.semaphore = algo
      · subst hown
        simp [dropPermit, permitCount]
      · simp [dropPermit, permitCount, hown, Function.update_of_ne (Ne.symm hown)]
    simp only [Slots.permits]
    exact (congrArg (· + _) hfree).trans (Nat.add_right_comm _ _ _)

theorem permits_tryAcquire {used : PowAlgorithm} {permit : OwnedSemaphorePermit}
    (h : s.tryAcquire used = some (s', permit)) :
    s'.slots.permits algo + permitCount algo (some permit) = s.slots.permits algo ∧
      permit.semaphore = used ∧ s'.inProgressSyncs = s.inProgressSyncs := by
  rw [tryAcquire] at h
  split_ifs at h with hfree
  obtain ⟨rfl, rfl⟩ := Prod.mk.inj (Option.some.inj h)
  refine ⟨?_, rfl, rfl⟩
  simp only [Slots.permits, slots, permitCount]
  by_cases hown : used = algo
  · subst hown
    rw [Function.update_self, if_pos rfl]
    omega
  · rw [Function.update_of_ne (Ne.symm hown), if_neg hown]
    rfl

def Slots.withSyncs (slots : Slots) (used : PowAlgorithm) (syncs : KeyedMap InProgressSync.peer) :
    Slots :=
  { slots with inProgressSyncs := Function.update slots.inProgressSyncs used syncs }

theorem permits_withSyncs (slots : Slots) (used : PowAlgorithm)
    (syncs : KeyedMap InProgressSync.peer) :
    (slots.withSyncs used syncs).permits algo + occupied algo (slots.inProgressSyncs used) =
      slots.permits algo + occupied algo syncs := by
  cases used
  · simp [Slots.permits, Slots.withSyncs]
    omega
  · simp [Slots.permits, Slots.withSyncs]
    omega

theorem permits_erase (slots : Slots) {used : PowAlgorithm} {sync : InProgressSync}
    (h : (slots.inProgressSyncs used).find? sync.peer = some sync) :
    (slots.withSyncs used ((slots.inProgressSyncs used).erase sync.peer)).permits algo +
      permitCount algo (some sync.permit) = slots.permits algo := by
  have hmoved := permits_withSyncs algo slots used ((slots.inProgressSyncs used).erase sync.peer)
  have herase := occupied_erase algo h
  omega

theorem permits_insert (slots : Slots) {used : PowAlgorithm} (sync : InProgressSync)
    (h : (slots.inProgressSyncs used).find? sync.peer = none) :
    (slots.withSyncs used ((slots.inProgressSyncs used).insert sync)).permits algo =
      slots.permits algo + permitCount algo (some sync.permit) := by
  have hmoved := permits_withSyncs algo slots used ((slots.inProgressSyncs used).insert sync)
  have hinsert := occupied_insert algo h
  omega

theorem releaseFrom_eq_some {used : PowAlgorithm} {requestId : OutboundRequestId}
    {permit : OwnedSemaphorePermit} (h : s.releaseFrom used requestId = some (s', permit)) :
    ∃ sync, (s.inProgressSyncs used).find? sync.peer = some sync ∧ sync.permit = permit ∧
      s'.slots = s.slots.withSyncs used ((s.inProgressSyncs used).erase sync.peer) := by
  rw [releaseFrom, Option.map_eq_some_iff] at h
  obtain ⟨sync, hfind, hsync⟩ := h
  obtain ⟨rfl, rfl⟩ := Prod.mk.inj hsync
  exact ⟨sync, KeyedMap.find?_of_mem_values (List.mem_of_find?_eq_some hfind), rfl, rfl⟩

theorem permits_releaseFrom {used : PowAlgorithm} {requestId : OutboundRequestId}
    {permit : OwnedSemaphorePermit} (h : s.releaseFrom used requestId = some (s', permit)) :
    s'.slots.permits algo + permitCount algo (some permit) = s.slots.permits algo := by
  obtain ⟨sync, hfind, rfl, hslots⟩ := releaseFrom_eq_some h
  rw [hslots]
  exact permits_erase algo s.slots hfind

theorem permits_releaseCatchupSyncPermit (requestId : OutboundRequestId) :
    (s.releaseCatchupSyncPermit requestId).1.slots.permits algo +
      permitCount algo (s.releaseCatchupSyncPermit requestId).2 = s.slots.permits algo := by
  rw [releaseCatchupSyncPermit]
  split
  · rename_i hreleased
    obtain h | ⟨-, h⟩ := Option.or_eq_some_iff.mp hreleased
    · exact permits_releaseFrom algo h
    · exact permits_releaseFrom algo h
  · rfl

theorem permits_handleCatchUpSyncResponse (response : CatchUpSyncResponse)
    (permit : Option OwnedSemaphorePermit) :
    (s.handleCatchUpSyncResponse response permit).1.slots.permits algo +
        carried algo (s.handleCatchUpSyncResponse response permit).2 =
      s.slots.permits algo + permitCount algo permit := by
  rw [handleCatchUpSyncResponse]
  split_ifs
  · exact permits_dropPermit algo permit
  · exact permits_dropPermit algo permit
  · rfl

theorem permits_handleCatchUpSyncEvent (requestId : OutboundRequestId)
    (response : Except String CatchUpSyncResponse) :
    (s.handleCatchUpSyncEvent requestId response).1.slots.permits algo +
      carried algo (s.handleCatchUpSyncEvent requestId response).2 = s.slots.permits algo := by
  have hrelease := permits_releaseCatchupSyncPermit (s := s) algo requestId
  rw [handleCatchUpSyncEvent]
  cases response with
  | error _ => exact (permits_dropPermit algo _).trans hrelease
  | ok response => exact (permits_handleCatchUpSyncResponse algo response _).trans hrelease

theorem permits_failSync (peer : PeerId) (requestId : OutboundRequestId) (used : PowAlgorithm) :
    (s.failSync peer requestId used).slots.permits algo = s.slots.permits algo := by
  rw [failSync]
  split
  · rfl
  · rename_i sync hsync
    obtain ⟨hfind, -⟩ := Option.filter_eq_some_iff.mp hsync
    have hpeer := KeyedMap.key_of_find? hfind
    subst hpeer
    have hdrop := permits_dropPermit (s := s) algo (some sync.permit)
    have herase := permits_erase algo (s.dropPermit (some sync.permit)).slots hfind
    exact Nat.add_right_cancel (herase.trans hdrop)

theorem permits_sendCatchUp {request : PerformCatchUpSync} {permit : OwnedSemaphorePermit}
    {lastProgress : Option (Nat × FixedHash)}
    (hfree : (s.inProgressSyncs request.algo).find? request.peer = none) :
    (s.sendCatchUp sc env request permit lastProgress).1.slots.permits algo =
      s.slots.permits algo + permitCount algo (some permit) := by
  simp only [sendCatchUp]
  split
  · exact permits_dropPermit algo (some permit)
  · exact permits_insert algo s.slots ⟨request.peer, s.nextCatchUpSyncId, permit⟩ hfree

theorem permits_performCatchUpSync (request : PerformCatchUpSync) :
    (s.performCatchUpSync sc env request).1.slots.permits algo =
      s.slots.permits algo + permitCount algo request.permit := by
  rw [performCatchUpSync]
  dsimp only
  split_ifs with _ _ hbusy
  · exact permits_dropPermit algo request.permit
  · exact permits_dropPermit algo request.permit
  · exact permits_dropPermit algo request.permit
  · have hfree := KeyedMap.contains_eq_false_iff.mp (Bool.eq_false_iff.mpr hbusy)
    split
    · rename_i permit hpermit
      rw [hpermit]
      exact permits_sendCatchUp sc env algo hfree
    · rename_i hpermit
      rw [hpermit]
      split
      · rfl
      · rename_i hacquire
        obtain ⟨htaken, -, hsyncs⟩ := permits_tryAcquire algo hacquire
        rw [← hsyncs] at hfree
        exact (permits_sendCatchUp sc env algo hfree).trans htaken

theorem permits_stepTask (task : CatchUpTask) :
    (s.stepTask sc task).1.slots.permits algo + carried algo (s.stepTask sc task).2.1 +
        permitCount algo ((s.stepTask sc task).2.2.bind (·.permit)) =
      s.slots.permits algo + permitCount algo task.permit := by
  rw [stepTask]
  split
  · rfl
  · cases task.lastBlockFromThem <;> rfl
  · rfl
  · dsimp only [finishCatchUp]
    split_ifs
    · rfl
    · exact permits_dropPermit algo task.permit

theorem permits_handleEvent (event : SwarmEvent) :
    (s.handleEvent sc env event).1.slots.permits algo +
      carried algo (s.handleEvent sc env event).2 = s.slots.permits algo := by
  by_cases hcatchUp : event.EndsCatchUp
  · cases event with
    | catchUpSyncResponse _ requestId response =>
      exact permits_handleCatchUpSyncEvent algo requestId response
    | catchUpSyncFailure peer requestId error =>
      have hnone : carried algo (greyListAfter peer "ShareChainError during catch up sync" error) = 0 :=
        carried_eq_zero fun effect hmem => by
          rw [eventEffect_greyListAfter hmem]
          rfl
      rw [handleEvent, handleCatchUpSyncFailure, hnone, Nat.add_zero, permits_failSync,
        permits_failSync]
    | _ => exact hcatchUp.elim
  · have hnone : carried algo (s.handleEvent sc env event).2 = 0 := by
      refine carried_eq_zero fun effect hmem => ?_
      cases eventEffect_of_mem sc env hmem with
      | catchUp _ _ request hpermit => exact hpermit
      | noBlocks _ _ _ _ => exact absurd trivial hcatchUp
      | noBlocksListed _ _ _ _ => exact absurd trivial hcatchUp
      | blocks _ _ _ _ _ _ _ _ _ => exact absurd trivial hcatchUp
      | _ => rfl
    rw [hnone, Nat.add_zero, slots_handleEvent sc env hcatchUp]

theorem permits_handleInnerRequest (request : InnerRequest) :
    (s.handleInnerRequest sc env request).1.slots.permits algo +
        carried algo (s.handleInnerRequest sc env request).2 =
      s.slots.permits algo + permitCount algo request.permit := by
  have hnone : carried algo (s.handleInnerRequest sc env request).2 = 0 := by
    refine carried_eq_zero fun effect hmem => ?_
    cases requestEffect_of_mem sc env hmem <;> rfl
  rw [hnone, Nat.add_zero]
  cases request with
  | doSyncMissingBlocks request =>
    rw [handleInnerRequest, slots_syncMissingBlocks]
    rfl
  | performCatchUpSync request => exact permits_performCatchUpSync sc env algo request
  | addSyncedBlock used block sourcePeer depth =>
    rw [handleInnerRequest, slots_of_requests (requests_addSyncedBlock sc env _ _ _ _)]
    rfl

end Service

namespace Net

variable {sc : ShareChain S} {net : Net S} {cause : Cause} (algo : PowAlgorithm)

def permits (net : Net S) : Nat :=
  net.service.slots.permits algo +
    ((net.queue.map fun entry => permitCount algo entry.1.permit).sum +
      (net.tasks.map fun entry => permitCount algo entry.1.permit).sum)

theorem permits_performAll (effects : List Effect) :
    (net.performAll cause effects).permits algo = net.permits algo + carried algo effects := by
  induction effects generalizing net with
  | nil => rfl
  | cons effect effects ih =>
    have hperform : (net.perform cause effect).permits algo =
        net.permits algo + permitCount algo effect.permit := by
      cases effect with
      | send request =>
        simp [perform, permits, Effect.permit]
        omega
      | spawn task =>
        simp [perform, permits, Effect.permit]
        omega
      | _ => rfl
    rw [performAll_cons, ih, hperform, carried_cons, Nat.add_assoc]

theorem permits_handled {result : Service S × List Effect} {given : Nat}
    (h : result.1.slots.permits algo + carried algo result.2 =
      net.service.slots.permits algo + given) :
    (net.handled cause result).permits algo = net.permits algo + given := by
  rw [handled, permits_performAll]
  simp only [permits]
  omega

theorem permits_withTask {i : Nat} {task : CatchUpTask} (next : Option CatchUpTask)
    (htaken : net.tasks[i]? = some (task, cause)) :
    (net.withTask i cause next).permits algo + permitCount algo task.permit =
      net.permits algo + permitCount algo (next.bind (·.permit)) := by
  obtain ⟨hlt, hget⟩ := List.getElem?_eq_some_iff.mp htaken
  have hset : ∀ entry, net.tasks.set i entry =
      net.tasks.take i ++ entry :: net.tasks.drop (i + 1) := fun entry => by
    rw [List.set_eq_take_append_cons_drop, if_pos hlt]
  have hsplit : net.tasks = net.tasks.take i ++ (task, cause) :: net.tasks.drop (i + 1) := by
    rw [← hset, ← hget, List.set_getElem_self hlt]
  have hsum := congrArg (fun tasks =>
    (tasks.map fun entry : CatchUpTask × Cause => permitCount algo entry.1.permit).sum) hsplit
  simp only [List.map_append, List.map_cons, List.sum_append, List.sum_cons] at hsum
  cases next with
  | none =>
    simp only [permits, withTask, List.eraseIdx_eq_take_drop_succ, List.map_append, List.sum_append,
      Option.bind_none, permitCount_none]
    omega
  | some next =>
    simp only [permits, withTask, hset, List.map_append, List.map_cons, List.sum_append,
      List.sum_cons, Option.bind_some]
    omega

theorem permits_step {input : Env × Input S} :
    (net.step sc input).permits algo = net.permits algo := by
  refine step_induction (I := fun after => after.permits algo = net.permits algo) rfl ?_ ?_ ?_
    (fun _ => rfl) (fun _ _ => rfl)
  · intro event _ _
    have hbalance := Service.permits_handleEvent (s := net.service) sc input.1 algo event
    exact permits_handled algo (hbalance.trans (Nat.add_zero _).symm)
  · intro request cause queue _ _ hqueue
    have hpopped : ({ net with queue := queue } : Net S).permits algo +
        permitCount algo request.permit = net.permits algo := by
      simp only [permits, hqueue, List.map_cons, List.sum_cons]
      omega
    exact (permits_handled algo
      (Service.permits_handleInnerRequest sc input.1 algo request)).trans hpopped
  · intro i task cause htaken
    have hnext := permits_withTask algo (net.service.stepTask sc task).2.2 htaken
    have htask := Service.permits_stepTask (s := net.service) sc algo task
    rw [stepTask_eq, handled, permits_performAll]
    simp only [permits, withTask] at hnext ⊢
    omega

end Net

/-! ### Permits of the own semaphore -/

/-- A queued sync holds a permit of its own algorithm, if it holds one. -/
def InnerRequest.OwnPermit : InnerRequest → Prop
  | .performCatchUpSync request => ∀ permit ∈ request.permit, permit.semaphore = request.algo
  | _ => True

def CatchUpTask.OwnPermit (task : CatchUpTask) : Prop :=
  ∀ permit ∈ task.permit, permit.semaphore = task.algo

def Effect.OwnPermit : Effect → Prop
  | .send request => request.OwnPermit
  | .spawn task => task.OwnPermit
  | _ => True

def OwnSyncs (syncs : PowAlgorithm → KeyedMap InProgressSync.peer) : Prop :=
  ∀ algo, ∀ sync ∈ (syncs algo).values, sync.permit.semaphore = algo

namespace Service

variable {s s' : Service S} (sc : ShareChain S) (env : Env)

theorem inProgressSyncs_dropPermit (permit : Option OwnedSemaphorePermit) :
    (s.dropPermit permit).inProgressSyncs = s.inProgressSyncs := by
  cases permit <;> rfl

theorem own_erase {syncs : PowAlgorithm → KeyedMap InProgressSync.peer} (h : OwnSyncs syncs)
    (used : PowAlgorithm) (peer : PeerId) :
    OwnSyncs (Function.update syncs used ((syncs used).erase peer)) := by
  intro algo sync hmem
  by_cases hused : algo = used
  · subst hused
    rw [Function.update_self] at hmem
    exact h algo sync (KeyedMap.mem_values_erase.mp hmem).1
  · rw [Function.update_of_ne hused] at hmem
    exact h algo sync hmem

theorem own_insert {syncs : PowAlgorithm → KeyedMap InProgressSync.peer} (h : OwnSyncs syncs)
    {used : PowAlgorithm} {sync : InProgressSync} (hsync : sync.permit.semaphore = used) :
    OwnSyncs (Function.update syncs used ((syncs used).insert sync)) := by
  intro algo other hmem
  by_cases hused : algo = used
  · subst hused
    rw [Function.update_self] at hmem
    obtain rfl | ⟨hold, -⟩ := KeyedMap.mem_values_insert.mp hmem
    · exact hsync
    · exact h algo other hold
  · rw [Function.update_of_ne hused] at hmem
    exact h algo other hmem

theorem own_sendCatchUp {request : PerformCatchUpSync} {permit : OwnedSemaphorePermit}
    {lastProgress : Option (Nat × FixedHash)} (h : OwnSyncs s.inProgressSyncs)
    (hpermit : permit.semaphore = request.algo) :
    OwnSyncs (s.sendCatchUp sc env request permit lastProgress).1.inProgressSyncs := by
  simp only [sendCatchUp]
  split
  · rw [inProgressSyncs_dropPermit]
    exact h
  · exact own_insert h hpermit

theorem own_performCatchUpSync {request : PerformCatchUpSync} (h : OwnSyncs s.inProgressSyncs)
    (hpermit : (InnerRequest.performCatchUpSync request).OwnPermit) :
    OwnSyncs (s.performCatchUpSync sc env request).1.inProgressSyncs := by
  rw [performCatchUpSync]
  dsimp only
  split_ifs
  · rwa [inProgressSyncs_dropPermit]
  · rwa [inProgressSyncs_dropPermit]
  · rwa [inProgressSyncs_dropPermit]
  · split
    · rename_i permit hsome
      exact own_sendCatchUp sc env h (hpermit permit hsome)
    · split
      · exact h
      · rename_i hacquire
        obtain ⟨-, hown, hsyncs⟩ := permits_tryAcquire request.algo hacquire
        refine own_sendCatchUp sc env ?_ hown
        rw [hsyncs]
        exact h

theorem own_stepTask {task : CatchUpTask} (h : OwnSyncs s.inProgressSyncs) :
    OwnSyncs (s.stepTask sc task).1.inProgressSyncs := by
  rw [stepTask]
  split
  · exact h
  · cases task.lastBlockFromThem <;> exact h
  · exact h
  · dsimp only [finishCatchUp]
    split_ifs
    · exact h
    · rwa [inProgressSyncs_dropPermit]

theorem own_failSync {peer : PeerId} {requestId : OutboundRequestId} {algo : PowAlgorithm}
    (h : OwnSyncs s.inProgressSyncs) : OwnSyncs (s.failSync peer requestId algo).inProgressSyncs := by
  rw [failSync]
  split
  · exact h
  · exact own_erase h algo peer

def algoOf (requestId : OutboundRequestId) (s : Service S) : Option PowAlgorithm :=
  [PowAlgorithm.randomX, .sha3x].find? fun algo => (s.releaseFrom algo requestId).isSome

theorem own_releaseFrom {algo : PowAlgorithm} {requestId : OutboundRequestId}
    {permit : OwnedSemaphorePermit} (h : OwnSyncs s.inProgressSyncs)
    (hrelease : s.releaseFrom algo requestId = some (s', permit)) :
    OwnSyncs s'.inProgressSyncs ∧ permit.semaphore = algo := by
  obtain ⟨sync, hfind, rfl, hslots⟩ := releaseFrom_eq_some hrelease
  refine ⟨?_, h algo sync (KeyedMap.mem_values_of_find? hfind)⟩
  have hsyncs : s'.inProgressSyncs = _ := congrArg Slots.inProgressSyncs hslots
  rw [hsyncs]
  exact own_erase h algo sync.peer

theorem own_releaseCatchupSyncPermit (requestId : OutboundRequestId)
    (h : OwnSyncs s.inProgressSyncs) :
    OwnSyncs (s.releaseCatchupSyncPermit requestId).1.inProgressSyncs ∧
      (s.releaseCatchupSyncPermit requestId).2.map (·.semaphore) = s.algoOf requestId := by
  rw [releaseCatchupSyncPermit, algoOf]
  cases hrandomX : s.releaseFrom .randomX requestId with
  | some released =>
    obtain ⟨hown, hpermit⟩ := own_releaseFrom h hrandomX
    exact ⟨hown, by simp [hrandomX, hpermit]⟩
  | none =>
    cases hsha3x : s.releaseFrom .sha3x requestId with
    | some released =>
      obtain ⟨hown, hpermit⟩ := own_releaseFrom h hsha3x
      exact ⟨hown, by simp [hrandomX, hsha3x, hpermit]⟩
    | none => exact ⟨h, by simp [hrandomX, hsha3x]⟩

theorem own_handleEvent {event : SwarmEvent} (h : OwnSyncs s.inProgressSyncs) :
    OwnSyncs (s.handleEvent sc env event).1.inProgressSyncs := by
  by_cases hcatchUp : event.EndsCatchUp
  · cases event with
    | catchUpSyncResponse _ requestId response =>
      have hrelease := (own_releaseCatchupSyncPermit requestId h).1
      rw [handleEvent, handleCatchUpSyncEvent]
      cases response with
      | error _ =>
        dsimp only
        rwa [inProgressSyncs_dropPermit]
      | ok response =>
        simp only [handleCatchUpSyncResponse]
        split_ifs
        · rwa [inProgressSyncs_dropPermit]
        · rwa [inProgressSyncs_dropPermit]
        · exact hrelease
    | catchUpSyncFailure _ _ _ => exact own_failSync (own_failSync h)
    | _ => exact hcatchUp.elim
  · have hsyncs : (s.handleEvent sc env event).1.inProgressSyncs = s.inProgressSyncs :=
      congrArg Slots.inProgressSyncs (slots_handleEvent sc env hcatchUp)
    rwa [hsyncs]

theorem own_handleInnerRequest {request : InnerRequest} (h : OwnSyncs s.inProgressSyncs)
    (hpermit : request.OwnPermit) :
    OwnSyncs (s.handleInnerRequest sc env request).1.inProgressSyncs := by
  cases request with
  | doSyncMissingBlocks request =>
    have hsyncs : (s.syncMissingBlocks sc env request).1.inProgressSyncs = s.inProgressSyncs :=
      congrArg Slots.inProgressSyncs (slots_syncMissingBlocks sc env request)
    rwa [handleInnerRequest, hsyncs]
  | performCatchUpSync request => exact own_performCatchUpSync sc env h hpermit
  | addSyncedBlock algo block sourcePeer depth =>
    have hsyncs : (s.addSyncedBlock sc env algo block sourcePeer depth).1.inProgressSyncs =
        s.inProgressSyncs :=
      congrArg Slots.inProgressSyncs (slots_of_requests (requests_addSyncedBlock sc env _ _ _ _))
    rwa [handleInnerRequest, hsyncs]

theorem spawn_of_blocks (peer : PeerId) (requestId : OutboundRequestId)
    {response : CatchUpSyncResponse} (hversion : response.version = protocolVersion)
    (hblocks : response.blocks ≠ []) :
    ∃ task, (s.handleEvent sc env (.catchUpSyncResponse peer requestId (.ok response))).2 =
      [.spawn task] ∧ task.algo = messageAlgo response.algo ∧
      task.permit = (s.releaseCatchupSyncPermit requestId).2 := by
  have hempty : ¬response.blocks.isEmpty = true := fun h => hblocks (List.isEmpty_iff.mp h)
  simp only [handleEvent, handleCatchUpSyncEvent, handleCatchUpSyncResponse]
  rw [if_neg (not_not.mpr hversion), if_neg hempty]
  exact ⟨_, rfl, rfl, rfl⟩

end Service

namespace Net

variable {sc : ShareChain S} {net : Net S} {cause : Cause} {result : Service S × List Effect}

/-- Syncs stay in the slots of their own algorithm, from the request to the task that processes the
answer and the next request that it queues. -/
structure OwnPermits (net : Net S) : Prop where
  own : OwnSyncs net.service.inProgressSyncs
  queue : ∀ entry ∈ net.queue, entry.1.OwnPermit
  tasks : ∀ entry ∈ net.tasks, entry.1.OwnPermit

/-- And the requests in flight of each algorithm are no more than may run at once. -/
structure SlotsKept (net : Net S) : Prop extends OwnPermits net where
  few : ∀ algo, (net.service.inProgressSyncs algo).size ≤ net.service.config.numConcurrentSyncs

/-- An answer whose blocks are taken is for the chain that was asked about. -/
def AnswersOwnChain (net : Net S) (input : Input S) : Prop :=
  ∀ peer requestId response, input = .event (.catchUpSyncResponse peer requestId (.ok response)) →
    net.halted = false → response.version = protocolVersion → response.blocks ≠ [] →
    ∀ algo ∈ net.service.algoOf requestId, messageAlgo response.algo = algo

theorem few_of_own (hown : OwnSyncs net.service.inProgressSyncs) {n : Nat} {algo : PowAlgorithm}
    (hpermits : net.permits algo = n) : (net.service.inProgressSyncs algo).size ≤ n := by
  have hsize := Service.occupied_eq_size algo (hown algo)
  simp only [permits, Service.Slots.permits, Service.slots] at hpermits
  cases algo <;> omega

theorem OwnPermits.handled (h : net.OwnPermits) (hown : OwnSyncs result.1.inProgressSyncs)
    (heffects : ∀ effect ∈ result.2, effect.OwnPermit) : (net.handled cause result).OwnPermits where
  own := by
    have hsyncs : (net.handled cause result).service.inProgressSyncs = result.1.inProgressSyncs :=
      congrArg Service.Slots.inProgressSyncs (Service.slots_of_requests requests_handled)
    rwa [hsyncs]
  queue := by
    intro entry hmem
    obtain hold | ⟨hsent, -⟩ := mem_queue_handled.mp hmem
    · exact h.queue entry hold
    · exact heffects _ hsent
  tasks := by
    intro entry hmem
    obtain hold | ⟨hspawned, -⟩ := mem_tasks_handled.mp hmem
    · exact h.tasks entry hold
    · exact heffects _ hspawned

theorem OwnPermits.step {input : Env × Input S} (h : net.OwnPermits)
    (hanswers : net.AnswersOwnChain input.2) : (net.step sc input).OwnPermits := by
  refine step_induction h ?_ ?_ ?_ (fun _ => ⟨h.own, h.queue, h.tasks⟩)
    (fun _ _ => ⟨h.own, h.queue, h.tasks⟩)
  · intro event hinput hruns
    refine h.handled (Service.own_handleEvent sc input.1 h.own) fun effect hmem => ?_
    cases Service.eventEffect_of_mem sc input.1 hmem with
    | catchUp _ _ request hpermit => exact fun permit hsome => absurd hsome (by simp [hpermit])
    | blocks peer requestId response task hversion hblocks hpeer halgo hpermit =>
      intro permit hsome
      have hreleased := (Service.own_releaseCatchupSyncPermit requestId h.own).2
      rw [← hpermit, hsome] at hreleased
      rw [halgo]
      exact (hanswers peer requestId response hinput hruns hversion hblocks _ hreleased.symm).symm
    | _ => trivial
  · intro request cause queue _ _ hqueue
    have hpopped : ({ net with queue := queue } : Net S).OwnPermits :=
      ⟨h.own, fun entry hmem => h.queue entry (hqueue ▸ List.mem_cons_of_mem _ hmem), h.tasks⟩
    have hrequest : request.OwnPermit := h.queue (request, cause) (hqueue ▸ List.mem_cons_self)
    refine hpopped.handled (Service.own_handleInnerRequest sc input.1 h.own hrequest)
      fun effect hmem => ?_
    cases Service.requestEffect_of_mem sc input.1 hmem <;> trivial
  · intro i task cause htaken
    have htask : task.OwnPermit := h.tasks _ (List.mem_of_getElem? htaken)
    have hnext : (net.withTask i cause (net.service.stepTask sc task).2.2).OwnPermits := by
      refine ⟨h.own, h.queue, fun entry hmem => ?_⟩
      obtain hold | ⟨hentry, -⟩ := mem_tasks_withTask hmem
      · exact h.tasks entry hold
      · obtain ⟨-, halgo, hpermit⟩ := Service.stepTask_next sc hentry
        rw [CatchUpTask.OwnPermit, halgo, hpermit]
        exact htask
    rw [stepTask_eq]
    refine hnext.handled (Service.own_stepTask sc h.own) fun effect hmem => ?_
    cases Service.taskEffect_of_mem sc hmem with
    | block _ => trivial
    | goOn request halgo hpermit =>
      intro permit hsome
      rw [hpermit] at hsome
      rw [halgo]
      exact htask permit hsome

/-- Where the blocks of an answer for the other chain are taken, their task holds a permit of the
chain that was asked about. -/
theorem answersOwnChain_of_step {input : Env × Input S} (h : net.OwnPermits)
    (hafter : (net.step sc input).OwnPermits) : net.AnswersOwnChain input.2 := by
  obtain ⟨env, input⟩ := input
  intro peer requestId response hinput hruns hversion hblocks algo halgo
  subst hinput
  obtain ⟨task, htask, htaskAlgo, hpermit⟩ :=
    Service.spawn_of_blocks (s := net.service) sc env peer requestId hversion hblocks
  have hmem : (task, net.causeOf (.catchUpSyncResponse peer requestId (.ok response))) ∈
      (net.step sc (env, .event (.catchUpSyncResponse peer requestId (.ok response)))).tasks := by
    rw [step, if_neg (by simp [hruns])]
    exact mem_tasks_handled.mpr (Or.inr ⟨by rw [htask]; exact List.mem_singleton_self _, rfl⟩)
  have hown := hafter.tasks _ hmem
  have hreleased := (Service.own_releaseCatchupSyncPermit requestId h.own).2
  rw [← hpermit, halgo] at hreleased
  obtain ⟨permit, hsome, hsemaphore⟩ := Option.map_eq_some_iff.mp hreleased
  rw [← htaskAlgo, ← hown permit hsome, hsemaphore]

theorem slotsKept_step_iff {input : Env × Input S} {n : Nat} (h : net.SlotsKept)
    (hpermits : ∀ algo, net.permits algo = n) (hconfig : net.service.config.numConcurrentSyncs = n) :
    (net.step sc input).SlotsKept ↔ net.AnswersOwnChain input.2 := by
  constructor
  · intro hafter
    exact answersOwnChain_of_step h.toOwnPermits hafter.toOwnPermits
  · intro hanswers
    have hown : (net.step sc input).OwnPermits := h.toOwnPermits.step hanswers
    refine ⟨hown, fun algo => ?_⟩
    rw [config_step, hconfig]
    exact few_of_own hown.own ((permits_step algo).trans (hpermits algo))

/-- All along a run, every sync holds a permit of its own algorithm and no more than the configured
number of requests are in flight, exactly if every answer whose blocks are taken is for the chain
that was asked about. -/
theorem slots_kept_iff (sc : ShareChain S) (squad : String) (localPeerId : PeerId) (config : Config)
    (shareWindow : Nat) (chains : PowAlgorithm → S) (ops : List (Env × Input S)) :
    Along (Net.step sc) (Net.start (Service.new squad localPeerId config shareWindow chains)) ops
        SlotsKept ↔
      ∀ pre op, Takes ops pre op →
        (after (Net.step sc) (Net.start (Service.new squad localPeerId config shareWindow chains))
          pre).AnswersOwnChain op.2 := by
  have hcounts : Along (Net.step sc)
      (Net.start (Service.new squad localPeerId config shareWindow chains)) ops fun net =>
        (∀ algo, net.permits algo = config.numConcurrentSyncs) ∧ net.service.config = config := by
    refine along_of_step ⟨fun algo => rfl, rfl⟩ fun pre op _ h => ⟨fun algo => ?_, ?_⟩
    · exact (permits_step algo).trans (h.1 algo)
    · exact config_step.trans h.2
  have hstart : (Net.start (Service.new squad localPeerId config shareWindow chains)).SlotsKept := by
    refine ⟨⟨fun _ _ hmem => ?_, fun _ hmem => ?_, fun _ hmem => ?_⟩, fun _ => Nat.zero_le _⟩
    · exact absurd hmem List.not_mem_nil
    · exact absurd hmem List.not_mem_nil
    · exact absurd hmem List.not_mem_nil
  refine along_iff (G := fun net (op : Env × Input S) => net.AnswersOwnChain op.2)
    hstart fun pre op htakes h => ?_
  obtain ⟨hpermits, hconfig⟩ := hcounts pre ((List.prefix_append pre [op]).trans htakes)
  exact slotsKept_step_iff h hpermits (by rw [hconfig])

/-- Peer 7 is asked for RandomX blocks and answers with a Sha3x block; then peer 8 announces more
work on the Sha3x chain. -/
def otherChainAnswer : List (Env × Input (InMemoryShareChain × P2Chain)) :=
  [(sampleEnv, .event (.metaDataResponse 7 (.ok ⟨some 7, sampleInfo 7 3 5⟩))),
    (sampleEnv, .innerRequest),
    (sampleEnv, .event (.catchUpSyncResponse 7 0 (.ok
      { peerId := 7, algo := 1, blocks := [sentBlock 1 0 0], tip := (9, 9)
        achievedPow := some 1000 }))),
    (sampleEnv, .task 0), (sampleEnv, .task 0), (sampleEnv, .task 0), (sampleEnv, .task 0),
    (sampleEnv, .event (.metaDataResponse 8
      (.ok ⟨some 8, { sampleInfo 8 0 0 with currentSha3xHeight := 3, currentSha3xPow := 5 }⟩))),
    (sampleEnv, .innerRequest), (sampleEnv, .innerRequest), (sampleEnv, .innerRequest)]

def otherChainAnswered : Net (InMemoryShareChain × P2Chain) :=
  after (Net.step (InMemoryShareChain.shareChain P2Chain.sampleCore))
    (Net.start (Service.new "default" 0 {} 10 sampleShareChains)) otherChainAnswer

/-- The RandomX permit goes into the map of the Sha3x syncs, which then holds two syncs of one that
may run. -/
theorem sha3x_sync_in_randomX_slot :
    otherChainAnswered.service.config.numConcurrentSyncs = 1 ∧
      (otherChainAnswered.service.inProgressSyncs .sha3x).values.map
        (fun sync => (sync.peer, sync.permit.semaphore)) = [(8, .sha3x), (7, .randomX)] ∧
      ¬Along (Net.step (InMemoryShareChain.shareChain P2Chain.sampleCore))
        (Net.start (Service.new "default" 0 {} 10 sampleShareChains)) otherChainAnswer SlotsKept := by
  have hconfig : otherChainAnswered.service.config.numConcurrentSyncs = 1 := by decide
  refine ⟨hconfig, by decide, fun halong => ?_⟩
  have hsize : (otherChainAnswered.service.inProgressSyncs .sha3x).size = 2 := by decide
  have hfew := (halong _ List.prefix_rfl).few .sha3x
  exact absurd (hsize ▸ hconfig ▸ hfew) (by decide)

end Net

end ShaP2Pool
