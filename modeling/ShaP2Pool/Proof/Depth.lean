import ShaP2Pool.Proof.MainLoop

/-!
# The depth of missing-block requests

A chain of requests for missing blocks passes its depth along: from the queue to a request, with the
answer to the blocks that are added, and from a block without its parent back to the queue. The
depth goes up by one on the way out and by one on the way back, so it is twice the number of
requests, less one in a chain that a notification has started. The depth never passes the limit, so
a chain ends, but after half as many requests as the limit allows.
-/

namespace ShaP2Pool

open Trace

variable {S : Type}

/-- How far the depth of a chain lags behind twice the number of its requests. -/
def ChainStart.lag : ChainStart → Nat
  | .notification => 1
  | .catchUp => 0

theorem ChainStart.lag_le (start : ChainStart) : start.lag ≤ 1 := by
  cases start
  · exact Nat.le_refl 1
  · exact Nat.zero_le 1

theorem ChainStart.eq_notification {start : ChainStart} (h : start.lag = 1) :
    start = .notification := by
  cases start with
  | notification => rfl
  | catchUp => exact absurd h Nat.zero_ne_one

def InnerRequest.Counts (max : Nat) (cause : Cause) : InnerRequest → Prop
  | .doSyncMissingBlocks request =>
    request.depth + cause.start.lag = 2 * cause.requests + 1 ∧ request.depth ≤ max
  | .addSyncedBlock _ _ _ depth => depth + cause.start.lag = 2 * cause.requests ∧ depth ≤ max
  | .performCatchUpSync _ => True

namespace Service

variable {s : Service S} (sc : ShareChain S) (env : Env)

/-! ### Requests for missing blocks -/

def Wants (s : Service S) (request : SyncMissingBlocks) : Prop :=
  s.stillMissing sc request ≠ [] ∧ s.peersToAsk env request (s.stillMissing sc request) ≠ []

/-- A block is taken whose parents are missing. -/
def LacksParents (s : Service S) (algo : PowAlgorithm) (block : P2Block) (sourcePeer : PeerId) :
    Prop :=
  s.networkPeerStore.isBlacklisted sourcePeer = false ∧ ∃ result chain,
    sc.addSyncedBlocks env [block] (s.shareChain algo) = .ok result chain ∧
      result.intoMissingParentsVec env ≠ []

def Asks (effects : List Effect) : Prop :=
  ∃ id peer asked, Effect.requestMissingBlocks id peer asked ∈ effects

def Queues (effects : List Effect) : Prop :=
  ∃ request, Effect.send (.doSyncMissingBlocks request) ∈ effects

theorem next_requestFromPeers {algo : PowAlgorithm} {missingParents : List (Nat × FixedHash)}
    {depth : Nat} (peers : List PeerId) :
    (requestFromPeers algo missingParents depth peers s).1.nextShareChainSyncId =
      s.nextShareChainSyncId + peers.length := by
  induction peers generalizing s with
  | nil => rfl
  | cons peer peers ih =>
    rw [requestFromPeers]
    dsimp only
    rw [ih]
    exact Nat.succ_add_eq_add_succ s.nextShareChainSyncId peers.length

theorem asked_range {first count id : Nat} :
    first ≤ id ∧ id < first + (count + 1) ↔
      id = first ∨ first + 1 ≤ id ∧ id < first + 1 + count := by
  omega

theorem asked_requestFromPeers {algo : PowAlgorithm} {missingParents : List (Nat × FixedHash)}
    {depth : Nat} {peers : List PeerId} {id : OutboundRequestId} :
    id ∈ (requestFromPeers algo missingParents depth peers s).2.filterMap Effect.asked ↔
      s.nextShareChainSyncId ≤ id ∧ id < s.nextShareChainSyncId + peers.length := by
  induction peers generalizing s with
  | nil =>
    rw [requestFromPeers, List.filterMap_nil, List.length_nil]
    simp
  | cons peer peers ih =>
    rw [requestFromPeers]
    dsimp only
    rw [List.filterMap_append, List.mem_append, ih, List.length_cons, asked_range]
    exact or_congr List.mem_singleton Iff.rfl

theorem recorded_requestFromPeers {algo : PowAlgorithm} {missingParents : List (Nat × FixedHash)}
    {depth : Nat} {peers : List PeerId} {entry : OutboundRequestId × Nat} :
    entry ∈ (requestFromPeers algo missingParents depth peers s).1.missingBlocksSyncRequestDepth.values
      ↔ (s.nextShareChainSyncId ≤ entry.1 ∧ entry.1 < s.nextShareChainSyncId + peers.length) ∧
          entry.2 = depth + 1 ∨
        ¬(s.nextShareChainSyncId ≤ entry.1 ∧ entry.1 < s.nextShareChainSyncId + peers.length) ∧
          entry ∈ s.missingBlocksSyncRequestDepth.values := by
  induction peers generalizing s with
  | nil =>
    rw [requestFromPeers, List.length_nil]
    have hnone : ¬(s.nextShareChainSyncId ≤ entry.1 ∧ entry.1 < s.nextShareChainSyncId + 0) :=
      fun h => absurd h.1 (not_le.mpr h.2)
    tauto
  | cons peer peers ih =>
    rw [requestFromPeers]
    dsimp only
    rw [ih, List.length_cons, asked_range]
    simp only [requestMissingBlocks]
    rw [KeyedMap.mem_values_insert, Prod.ext_iff]
    dsimp only
    have hlater : entry.1 = s.nextShareChainSyncId → ¬s.nextShareChainSyncId + 1 ≤ entry.1 :=
      fun h => not_le.mpr (h ▸ Nat.lt_succ_self _)
    tauto

theorem syncMissingBlocks_of_wants {request : SyncMissingBlocks}
    (hdepth : request.depth < s.config.maxMissingBlocksSyncDepth) (hwants : s.Wants sc env request) :
    s.syncMissingBlocks sc env request =
      s.requestFromPeers request.algo (s.stillMissing sc request) request.depth
        (s.peersToAsk env request (s.stillMissing sc request)) := by
  rw [syncMissingBlocks, if_neg (not_lt.mpr hdepth)]
  exact if_neg fun hempty => hwants.1 (List.isEmpty_iff.mp hempty)

theorem syncMissingBlocks_of_not {request : SyncMissingBlocks}
    (h : ¬(request.depth < s.config.maxMissingBlocksSyncDepth ∧ s.Wants sc env request)) :
    s.syncMissingBlocks sc env request = (s, []) := by
  rw [syncMissingBlocks]
  dsimp only
  split_ifs with hdepth hempty
  · rfl
  · rfl
  · have hpeers : s.peersToAsk env request (s.stillMissing sc request) = [] := by
      by_contra hpeers
      exact h ⟨not_lt.mp hdepth, fun hnone => hempty (List.isEmpty_iff.mpr hnone), hpeers⟩
    rw [hpeers, requestFromPeers]

theorem asks_syncMissingBlocks_iff {request : SyncMissingBlocks} (hwants : s.Wants sc env request) :
    Asks (s.syncMissingBlocks sc env request).2 ↔
      request.depth < s.config.maxMissingBlocksSyncDepth := by
  constructor
  · rintro ⟨id, peer, asked, hmem⟩
    by_contra hdepth
    rw [syncMissingBlocks_of_not sc env fun h => hdepth h.1] at hmem
    exact absurd hmem List.not_mem_nil
  · intro hdepth
    rw [syncMissingBlocks_of_wants sc env hdepth hwants]
    obtain ⟨peer, peers, hpeers⟩ := List.exists_cons_of_ne_nil hwants.2
    rw [hpeers, requestFromPeers]
    exact ⟨_, _, _, List.mem_append_left _ (List.mem_singleton_self _)⟩

theorem queues_addSyncedBlock_iff {algo : PowAlgorithm} {block : P2Block} {sourcePeer : PeerId}
    {depth : Nat} (hlacks : s.LacksParents sc env algo block sourcePeer) :
    Queues (s.addSyncedBlock sc env algo block sourcePeer depth).2 ↔
      depth < s.config.maxMissingBlocksSyncDepth := by
  obtain ⟨hallowed, result, chain, hadd, hmissing⟩ := hlacks
  have hsome : (!(result.intoMissingParentsVec env).isEmpty) = true := by
    rw [Bool.not_eq_true', Bool.eq_false_iff]
    exact fun h => hmissing (List.isEmpty_iff.mp h)
  rw [addSyncedBlock, if_neg (Bool.eq_false_iff.mp hallowed), hadd]
  dsimp only
  have hconfig : (s.withShareChain algo chain).config = s.config := rfl
  rw [hsome, Bool.true_and, hconfig]
  constructor
  · rintro ⟨request, hmem⟩
    by_contra hdepth
    rw [if_neg fun h => hdepth (of_decide_eq_true h)] at hmem
    exact absurd hmem List.not_mem_nil
  · intro hdepth
    rw [if_pos (decide_eq_true hdepth)]
    exact ⟨_, List.mem_singleton_self _⟩

theorem recorded_of_depths {s' : Service S} (h : s'.depths = s.depths) :
    s'.missingBlocksSyncRequestDepth = s.missingBlocksSyncRequestDepth :=
  congrArg Depths.missingBlocksSyncRequestDepth h

theorem next_of_depths {s' : Service S} (h : s'.depths = s.depths) :
    s'.nextShareChainSyncId = s.nextShareChainSyncId :=
  congrArg Depths.nextShareChainSyncId h

theorem recorded_handleEvent {event : SwarmEvent} {entry : OutboundRequestId × Nat}
    (hmem : entry ∈ (s.handleEvent sc env event).1.missingBlocksSyncRequestDepth.values) :
    entry ∈ s.missingBlocksSyncRequestDepth.values := by
  by_cases hmissing : event.EndsShareChainSync
  · cases event with
    | shareChainSyncResponse _ requestId response =>
      rw [handleEvent, handleShareChainSyncResponse] at hmem
      split at hmem
      · exact hmem
      · exact (KeyedMap.mem_values_erase.mp hmem).1
    | shareChainSyncFailure _ _ _ => exact (KeyedMap.mem_values_erase.mp hmem).1
    | _ => exact hmissing.elim
  · rwa [recorded_of_depths (depths_handleEvent sc env hmissing)] at hmem

theorem next_handleEvent (event : SwarmEvent) :
    (s.handleEvent sc env event).1.nextShareChainSyncId = s.nextShareChainSyncId := by
  by_cases hmissing : event.EndsShareChainSync
  · cases event with
    | shareChainSyncResponse _ requestId response =>
      rw [handleEvent, handleShareChainSyncResponse]
      split <;> rfl
    | shareChainSyncFailure _ _ _ => rfl
    | _ => exact hmissing.elim
  · exact next_of_depths (depths_handleEvent sc env hmissing)

theorem depths_handleInnerRequest {request : InnerRequest}
    (hother : ∀ missing, request ≠ .doSyncMissingBlocks missing) :
    (s.handleInnerRequest sc env request).1.depths = s.depths := by
  cases request with
  | doSyncMissingBlocks missing => exact absurd rfl (hother missing)
  | performCatchUpSync request => exact depths_performCatchUpSync sc env request
  | addSyncedBlock algo block sourcePeer depth =>
    exact depths_of_requests (requests_addSyncedBlock sc env algo block sourcePeer depth)

theorem asked_handleInnerRequest {request : InnerRequest}
    (hother : ∀ missing, request ≠ .doSyncMissingBlocks missing) {effect : Effect}
    (hmem : effect ∈ (s.handleInnerRequest sc env request).2) : effect.asked = none := by
  cases requestEffect_of_mem sc env hmem with
  | missingBlocks missing _ _ _ => exact absurd rfl (hother missing)
  | _ => rfl

end Service

namespace Net

variable {sc : ShareChain S} {net : Net S} {cause : Cause} {result : Service S × List Effect}

/-- What the depths of everything in flight say about their chains. -/
structure Measured (net : Net S) : Prop where
  queue : ∀ entry ∈ net.queue,
    entry.1.Counts net.service.config.maxMissingBlocksSyncDepth entry.2
  tasks : ∀ entry ∈ net.tasks, entry.2.start = .catchUp ∧ entry.2.requests = 0
  fresh : ∀ entry ∈ net.service.missingBlocksSyncRequestDepth.values,
    entry.1 < net.service.nextShareChainSyncId
  recorded : ∀ entry ∈ net.service.missingBlocksSyncRequestDepth.values,
    entry.2 + (net.requestCause entry.1).start.lag = 2 * (net.requestCause entry.1).requests ∧
      1 ≤ entry.2 ∧ entry.2 ≤ net.service.config.maxMissingBlocksSyncDepth

/-- The depth of every request that was sent is the number of requests in its chain. -/
def DepthExact (net : Net S) : Prop :=
  ∀ entry ∈ net.service.missingBlocksSyncRequestDepth.values,
    entry.2 = (net.requestCause entry.1).requests

/-- The depth of the blocks in the queue is the number of requests in their chain. -/
def BlocksExact (net : Net S) : Prop :=
  ∀ entry ∈ net.queue, ∀ algo block sourcePeer depth,
    entry.1 = .addSyncedBlock algo block sourcePeer depth → depth = entry.2.requests

/-- The request that the main loop takes off the queue. -/
def taken (net : Net S) : Input S → Option (InnerRequest × Cause)
  | .innerRequest => if net.halted then none else net.queue.head?
  | _ => none

/-- A chain that wants to go on does so as long as it has sent fewer requests than the limit, and
sends none after. -/
def CutOffExact (sc : ShareChain S) (net : Net S) (op : Env × Input S) : Prop :=
  ∀ request cause, net.taken op.2 = some (request, cause) →
    match request with
    | .doSyncMissingBlocks missing => net.service.Wants sc op.1 missing →
      (Service.Asks (net.service.handleInnerRequest sc op.1 request).2 ↔
        cause.requests < net.service.config.maxMissingBlocksSyncDepth)
    | .addSyncedBlock algo block sourcePeer _ =>
      net.service.LacksParents sc op.1 algo block sourcePeer →
      cause.requests < net.service.config.maxMissingBlocksSyncDepth →
      Service.Queues (net.service.handleInnerRequest sc op.1 request).2
    | .performCatchUpSync _ => True

/-- A request that asks for missing blocks is the first one of a chain that a notification has
started. -/
def AsksFirst (sc : ShareChain S) (net : Net S) (op : Env × Input S) : Prop :=
  ∀ missing cause, net.taken op.2 = some (.doSyncMissingBlocks missing, cause) →
    net.service.Wants sc op.1 missing → cause.start = .notification ∧ cause.requests = 0

theorem depths_handled : (net.handled cause result).service.depths = result.1.depths :=
  Service.depths_of_requests requests_handled

theorem recorded_handled : (net.handled cause result).service.missingBlocksSyncRequestDepth =
    result.1.missingBlocksSyncRequestDepth :=
  Service.recorded_of_depths depths_handled

theorem requestCause_handled (id : OutboundRequestId) :
    (net.handled cause result).requestCause id =
      if id ∈ result.2.filterMap Effect.asked then { cause with requests := cause.requests + 1 }
      else net.requestCause id :=
  requestCause_performAll id

theorem requestCause_handled_of_asks_none (h : ∀ effect ∈ result.2, effect.asked = none)
    (id : OutboundRequestId) : (net.handled cause result).requestCause id = net.requestCause id := by
  rw [requestCause_handled, if_neg]
  intro hmem
  obtain ⟨effect, heffect, hasked⟩ := List.mem_filterMap.mp hmem
  exact absurd hasked (by simp [h effect heffect])

/-- A handler keeps the depths if what it sends fits its cause and what it records fits the causes
of the requests. -/
theorem Measured.handled (h : net.Measured) (hconfig : result.1.config = net.service.config)
    (hsent : ∀ request, .send request ∈ result.2 →
      request.Counts net.service.config.maxMissingBlocksSyncDepth cause)
    (hspawned : ∀ task, .spawn task ∈ result.2 → cause.start = .catchUp ∧ cause.requests = 0)
    (hfresh : ∀ entry ∈ result.1.missingBlocksSyncRequestDepth.values,
      entry.1 < result.1.nextShareChainSyncId)
    (hrecorded : ∀ entry ∈ result.1.missingBlocksSyncRequestDepth.values,
      entry.2 + ((net.handled cause result).requestCause entry.1).start.lag =
          2 * ((net.handled cause result).requestCause entry.1).requests ∧
        1 ≤ entry.2 ∧ entry.2 ≤ net.service.config.maxMissingBlocksSyncDepth) :
    (net.handled cause result).Measured := by
  have hlimit : (net.handled cause result).service.config = net.service.config :=
    (Service.config_of_requests requests_handled).trans hconfig
  have hnext : (net.handled cause result).service.nextShareChainSyncId =
      result.1.nextShareChainSyncId := Service.next_of_depths depths_handled
  refine ⟨fun entry hmem => ?_, fun entry hmem => ?_, ?_, ?_⟩
  · rw [hlimit]
    obtain hold | ⟨heffect, hcause⟩ := mem_queue_handled.mp hmem
    · exact h.queue entry hold
    · rw [hcause]
      exact hsent entry.1 heffect
  · obtain hold | ⟨heffect, hcause⟩ := mem_tasks_handled.mp hmem
    · exact h.tasks entry hold
    · rw [hcause]
      exact hspawned entry.1 heffect
  · rw [recorded_handled, hnext]
    exact hfresh
  · rw [recorded_handled, hlimit]
    exact hrecorded

theorem Measured.handled_of_asks_none (h : net.Measured)
    (hconfig : result.1.config = net.service.config)
    (hsent : ∀ request, .send request ∈ result.2 →
      request.Counts net.service.config.maxMissingBlocksSyncDepth cause)
    (hspawned : ∀ task, .spawn task ∈ result.2 → cause.start = .catchUp ∧ cause.requests = 0)
    (hasks : ∀ effect ∈ result.2, effect.asked = none)
    (hnext : result.1.nextShareChainSyncId = net.service.nextShareChainSyncId)
    (hold : ∀ entry ∈ result.1.missingBlocksSyncRequestDepth.values,
      entry ∈ net.service.missingBlocksSyncRequestDepth.values) :
    (net.handled cause result).Measured := by
  refine h.handled hconfig hsent hspawned (fun entry hmem => ?_) fun entry hmem => ?_
  · rw [hnext]
    exact h.fresh entry (hold entry hmem)
  · rw [requestCause_handled_of_asks_none hasks]
    exact h.recorded entry (hold entry hmem)

theorem Measured.handleEvent (h : net.Measured) (env : Env) (event : SwarmEvent) :
    (net.handled (net.causeOf event) (net.service.handleEvent sc env event)).Measured := by
  refine h.handled_of_asks_none (Service.config_handleEvent sc env event) (fun request hmem => ?_)
    (fun task hmem => ?_) (fun effect hmem => ?_) (Service.next_handleEvent sc env event)
    fun entry hmem => Service.recorded_handleEvent sc env hmem
  · cases Service.eventEffect_of_mem sc env hmem with
    | parentsMissing source propagationSource payload missing hdepth =>
      exact ⟨by rw [hdepth]; rfl, by rw [hdepth]; exact Nat.zero_le _⟩
    | catchUp _ _ _ _ => trivial
    | missingBlock peer requestId response block depth hrequest hversion hblock =>
      obtain ⟨hcount, -, hlimit⟩ := h.recorded _ hrequest
      exact ⟨hcount, hlimit⟩
  · cases Service.eventEffect_of_mem sc env hmem with
    | blocks _ _ _ _ _ _ _ _ _ => exact ⟨rfl, rfl⟩
  · cases Service.eventEffect_of_mem sc env hmem <;> rfl

/-- The request that a chain sends next is recorded with its cause. -/
theorem Measured.syncMissingBlocks (h : net.Measured) (env : Env) {request : SyncMissingBlocks}
    (hrequest : (InnerRequest.doSyncMissingBlocks request).Counts
      net.service.config.maxMissingBlocksSyncDepth cause) :
    (net.handled cause (net.service.syncMissingBlocks sc env request)).Measured := by
  by_cases hgoesOn : request.depth < net.service.config.maxMissingBlocksSyncDepth ∧
      net.service.Wants sc env request
  · rw [Service.syncMissingBlocks_of_wants sc env hgoesOn.1 hgoesOn.2]
    refine h.handled (Service.config_of_slots (Service.slots_requestFromPeers _))
      (fun sent hmem => ?_) (fun task hmem => ?_) (fun entry hmem => ?_) fun entry hmem => ?_
    · obtain ⟨_, _, _, hasked⟩ := Service.mem_requestFromPeers hmem
      cases hasked
    · obtain ⟨_, _, _, hasked⟩ := Service.mem_requestFromPeers hmem
      cases hasked
    · rw [Service.next_requestFromPeers]
      obtain ⟨hrange, -⟩ | ⟨-, hold⟩ := Service.recorded_requestFromPeers.mp hmem
      · exact hrange.2
      · exact Nat.lt_add_right _ (h.fresh entry hold)
    · rw [requestCause_handled]
      obtain ⟨hrange, hdepth⟩ | ⟨hrange, hold⟩ := Service.recorded_requestFromPeers.mp hmem
      · rw [if_pos (Service.asked_requestFromPeers.mpr hrange), hdepth]
        have hcount := hrequest.1
        exact ⟨by dsimp only; omega, Nat.le_add_left 1 _, hgoesOn.1⟩
      · rw [if_neg fun hasked => hrange (Service.asked_requestFromPeers.mp hasked)]
        exact h.recorded entry hold
  · rw [Service.syncMissingBlocks_of_not sc env hgoesOn]
    exact h.handled_of_asks_none rfl (fun _ hmem => absurd hmem List.not_mem_nil)
      (fun _ hmem => absurd hmem List.not_mem_nil) (fun _ hmem => absurd hmem List.not_mem_nil) rfl
      fun _ hmem => hmem

theorem Measured.handleInnerRequest (h : net.Measured) (env : Env) {request : InnerRequest}
    (hrequest : request.Counts net.service.config.maxMissingBlocksSyncDepth cause) :
    (net.handled cause (net.service.handleInnerRequest sc env request)).Measured := by
  by_cases hmissing : ∃ missing, request = .doSyncMissingBlocks missing
  · obtain ⟨missing, rfl⟩ := hmissing
    exact h.syncMissingBlocks env hrequest
  · have hother : ∀ missing, request ≠ .doSyncMissingBlocks missing := not_exists.mp hmissing
    have hdepths := Service.depths_handleInnerRequest (s := net.service) sc env hother
    refine h.handled_of_asks_none (Service.config_of_depths hdepths) (fun sent hmem => ?_)
      (fun task hmem => ?_) (fun effect hmem => Service.asked_handleInnerRequest sc env hother hmem)
      (Service.next_of_depths hdepths) fun entry hmem => ?_
    · cases Service.requestEffect_of_mem sc env hmem with
      | parentsMissing algo block sourcePeer depth missing hdepth hincremented =>
        obtain ⟨hcount, -⟩ := hrequest
        rw [InnerRequest.Counts, hincremented]
        exact ⟨by omega, hdepth⟩
    · cases Service.requestEffect_of_mem sc env hmem
    · rwa [Service.recorded_of_depths hdepths] at hmem

theorem Measured.step {input : Env × Input S} (h : net.Measured) : (net.step sc input).Measured := by
  refine step_induction h (fun event _ _ => h.handleEvent input.1 event) ?_ ?_
    (fun _ => ⟨h.queue, h.tasks, h.fresh, h.recorded⟩)
    (fun _ _ => ⟨h.queue, h.tasks, h.fresh, h.recorded⟩)
  · intro request cause queue _ _ hqueue
    have hpopped : ({ net with queue := queue } : Net S).Measured :=
      ⟨fun entry hmem => h.queue entry (hqueue ▸ List.mem_cons_of_mem _ hmem), h.tasks, h.fresh,
        h.recorded⟩
    exact hpopped.handleInnerRequest input.1 (h.queue (request, cause) (hqueue ▸ List.mem_cons_self))
  · intro i task cause htaken
    obtain ⟨hstart, hrequests⟩ := h.tasks _ (List.mem_of_getElem? htaken)
    have hnext : (net.withTask i cause (net.service.stepTask sc task).2.2).Measured := by
      refine ⟨h.queue, fun entry hmem => ?_, h.fresh, h.recorded⟩
      obtain hold | ⟨-, hcause⟩ := mem_tasks_withTask hmem
      · exact h.tasks entry hold
      · rw [hcause]
        exact ⟨hstart, hrequests⟩
    have hdepths := Service.depths_stepTask (s := net.service) sc task
    rw [stepTask_eq]
    refine hnext.handled_of_asks_none (Service.config_of_depths hdepths) (fun request hmem => ?_)
      (fun _ _ => ⟨hstart, hrequests⟩) (fun effect hmem => ?_)
      (Service.next_of_depths hdepths) fun entry hmem => ?_
    · cases Service.taskEffect_of_mem sc hmem with
      | block _ => exact ⟨by rw [hstart, hrequests]; rfl, Nat.zero_le _⟩
      | goOn _ _ _ => trivial
    · cases Service.taskEffect_of_mem sc hmem with
      | block _ => rfl
      | goOn _ _ _ => rfl
    · rwa [Service.recorded_of_depths hdepths] at hmem

theorem Measured.requests_le (h : net.Measured) {entry : OutboundRequestId × Nat}
    (hmem : entry ∈ net.service.missingBlocksSyncRequestDepth.values) :
    (net.requestCause entry.1).requests ≤ net.service.config.maxMissingBlocksSyncDepth := by
  obtain ⟨hcount, hpos, hlimit⟩ := h.recorded entry hmem
  have hlag := (net.requestCause entry.1).start.lag_le
  omega

/-! ### Exact counts -/

/-- Both depths that are compared with the number of requests are that number. -/
def Exact (net : Net S) : Prop := net.DepthExact ∧ net.BlocksExact

/-- A handler keeps the counts exact if what it sends and records is. -/
theorem Exact.handled (h : net.Exact)
    (hsent : ∀ algo block sourcePeer depth,
      .send (.addSyncedBlock algo block sourcePeer depth) ∈ result.2 → depth = cause.requests)
    (hrecorded : ∀ entry ∈ result.1.missingBlocksSyncRequestDepth.values,
      entry.2 = ((net.handled cause result).requestCause entry.1).requests) :
    (net.handled cause result).Exact := by
  refine ⟨?_, fun entry hmem algo block sourcePeer depth hentry => ?_⟩
  · rw [DepthExact, recorded_handled]
    exact hrecorded
  · obtain hold | ⟨heffect, hcause⟩ := mem_queue_handled.mp hmem
    · exact h.2 entry hold algo block sourcePeer depth hentry
    · rw [hentry] at heffect
      rw [hcause]
      exact hsent algo block sourcePeer depth heffect

theorem Exact.handled_of_asks_none (h : net.Exact)
    (hsent : ∀ algo block sourcePeer depth,
      .send (.addSyncedBlock algo block sourcePeer depth) ∈ result.2 → depth = cause.requests)
    (hasks : ∀ effect ∈ result.2, effect.asked = none)
    (hold : ∀ entry ∈ result.1.missingBlocksSyncRequestDepth.values,
      entry ∈ net.service.missingBlocksSyncRequestDepth.values) :
    (net.handled cause result).Exact := by
  refine h.handled hsent fun entry hmem => ?_
  rw [requestCause_handled_of_asks_none hasks]
  exact h.1 entry (hold entry hmem)

/-- The first request of a chain that a notification has started carries the depth one. -/
theorem Exact.syncMissingBlocks (h : net.Exact) (env : Env) {request : SyncMissingBlocks}
    (hrequest : (InnerRequest.doSyncMissingBlocks request).Counts
      net.service.config.maxMissingBlocksSyncDepth cause)
    (hfirst : net.service.Wants sc env request → cause.start = .notification ∧ cause.requests = 0) :
    (net.handled cause (net.service.syncMissingBlocks sc env request)).Exact := by
  by_cases hgoesOn : request.depth < net.service.config.maxMissingBlocksSyncDepth ∧
      net.service.Wants sc env request
  · obtain ⟨hstart, hrequests⟩ := hfirst hgoesOn.2
    have hdepth : request.depth = 0 := by
      have hcount := hrequest.1
      rw [hstart, hrequests] at hcount
      exact Nat.succ.inj hcount
    rw [Service.syncMissingBlocks_of_wants sc env hgoesOn.1 hgoesOn.2]
    refine h.handled (fun _ _ _ _ hmem => ?_) fun entry hmem => ?_
    · obtain ⟨_, _, _, hasked⟩ := Service.mem_requestFromPeers hmem
      cases hasked
    · rw [requestCause_handled]
      obtain ⟨hrange, hentry⟩ | ⟨hrange, hold⟩ := Service.recorded_requestFromPeers.mp hmem
      · rw [if_pos (Service.asked_requestFromPeers.mpr hrange), hentry, hdepth, hrequests]
      · rw [if_neg fun hasked => hrange (Service.asked_requestFromPeers.mp hasked)]
        exact h.1 entry hold
  · rw [Service.syncMissingBlocks_of_not sc env hgoesOn]
    exact h.handled_of_asks_none (fun _ _ _ _ hmem => absurd hmem List.not_mem_nil)
      (fun _ hmem => absurd hmem List.not_mem_nil) fun _ hmem => hmem

theorem taken_of_queue {input : Input S} {request : InnerRequest}
    {queue : List (InnerRequest × Cause)} (hinput : input = .innerRequest)
    (hruns : net.halted = false) (hqueue : net.queue = (request, cause) :: queue) :
    net.taken input = some (request, cause) := by
  rw [hinput, taken, hruns, hqueue]
  rfl

theorem Exact.handleInnerRequest (h : net.Exact) (env : Env) {request : InnerRequest}
    (hrequest : request.Counts net.service.config.maxMissingBlocksSyncDepth cause)
    (hfirst : ∀ missing, request = .doSyncMissingBlocks missing →
      net.service.Wants sc env missing → cause.start = .notification ∧ cause.requests = 0) :
    (net.handled cause (net.service.handleInnerRequest sc env request)).Exact := by
  by_cases hmissing : ∃ missing, request = .doSyncMissingBlocks missing
  · obtain ⟨missing, rfl⟩ := hmissing
    exact h.syncMissingBlocks env hrequest (hfirst missing rfl)
  · have hother : ∀ missing, request ≠ .doSyncMissingBlocks missing := not_exists.mp hmissing
    have hdepths := Service.depths_handleInnerRequest (s := net.service) sc env hother
    refine h.handled_of_asks_none (fun _ _ _ _ hmem => ?_)
      (fun effect hmem => Service.asked_handleInnerRequest sc env hother hmem) fun entry hmem => ?_
    · cases Service.requestEffect_of_mem sc env hmem
    · rwa [Service.recorded_of_depths hdepths] at hmem

theorem Exact.step {input : Env × Input S} (h : net.Exact) (hmeasured : net.Measured)
    (hfirst : net.AsksFirst sc input) : (net.step sc input).Exact := by
  refine step_induction h ?_ ?_ ?_ (fun _ => ⟨h.1, h.2⟩) (fun _ _ => ⟨h.1, h.2⟩)
  · intro event _ _
    refine h.handled_of_asks_none (fun algo block sourcePeer depth hmem => ?_) (fun effect hmem => ?_)
      fun entry hmem => Service.recorded_handleEvent sc input.1 hmem
    · cases Service.eventEffect_of_mem sc input.1 hmem with
      | missingBlock peer requestId response block depth hrequest hversion hblock =>
        exact h.1 _ hrequest
    · cases Service.eventEffect_of_mem sc input.1 hmem <;> rfl
  · intro request cause queue hinput hruns hqueue
    have hpopped : ({ net with queue := queue } : Net S).Exact :=
      ⟨h.1, fun entry hmem => h.2 entry (hqueue ▸ List.mem_cons_of_mem _ hmem)⟩
    refine hpopped.handleInnerRequest input.1
      (hmeasured.queue (request, cause) (hqueue ▸ List.mem_cons_self)) ?_
    intro missing hrequest
    subst hrequest
    exact hfirst missing cause (taken_of_queue hinput hruns hqueue)
  · intro i task cause htaken
    obtain ⟨-, hrequests⟩ := hmeasured.tasks _ (List.mem_of_getElem? htaken)
    have hdepths := Service.depths_stepTask (s := net.service) sc task
    have hnext : (net.withTask i cause (net.service.stepTask sc task).2.2).Exact := ⟨h.1, h.2⟩
    rw [stepTask_eq]
    refine hnext.handled_of_asks_none (fun algo block sourcePeer depth hmem => ?_)
      (fun effect hmem => ?_) fun entry hmem => ?_
    · cases Service.taskEffect_of_mem sc hmem with
      | block _ => exact hrequests.symm
    · cases Service.taskEffect_of_mem sc hmem with
      | block _ => rfl
      | goOn _ _ _ => rfl
    · rwa [Service.recorded_of_depths hdepths] at hmem

theorem queue_of_taken {input : Input S} {request : InnerRequest}
    (h : net.taken input = some (request, cause)) :
    input = .innerRequest ∧ net.halted = false ∧ ∃ queue, net.queue = (request, cause) :: queue := by
  cases input with
  | innerRequest =>
    rw [taken] at h
    split_ifs at h with hhalted
    exact ⟨rfl, Bool.eq_false_iff.mpr hhalted, List.head?_eq_some_iff.mp h⟩
  | _ => cases h

theorem cutOffExact_of_exact {op : Env × Input S} (hmeasured : net.Measured) (hexact : net.Exact)
    (hfirst : net.AsksFirst sc op) : net.CutOffExact sc op := by
  intro request cause htaken
  obtain ⟨-, -, queue, hqueue⟩ := queue_of_taken htaken
  have hmem : (request, cause) ∈ net.queue := hqueue ▸ List.mem_cons_self
  cases request with
  | doSyncMissingBlocks missing =>
    intro hwants
    obtain ⟨hstart, hrequests⟩ := hfirst missing cause htaken hwants
    have hdepth : missing.depth = 0 := by
      have hcount := (hmeasured.queue _ hmem).1
      rw [hstart, hrequests] at hcount
      exact Nat.succ.inj hcount
    rw [Service.handleInnerRequest, Service.asks_syncMissingBlocks_iff sc op.1 hwants, hdepth,
      hrequests]
  | addSyncedBlock algo block sourcePeer depth =>
    intro hlacks hfew
    rw [← hexact.2 _ hmem algo block sourcePeer depth rfl] at hfew
    exact (Service.queues_addSyncedBlock_iff sc op.1 hlacks).mpr hfew
  | performCatchUpSync _ => trivial

/-- A request that is recorded with the exact depth, or rightly cut off, is the first one of a chain
that a notification has started. -/
theorem asksFirst_of_cutOffExact {op : Env × Input S} (hmeasured : net.Measured)
    (hafter : (net.step sc op).DepthExact) (hcutOff : net.CutOffExact sc op) :
    net.AsksFirst sc op := by
  intro missing cause htaken hwants
  obtain ⟨hinput, hruns, queue, hqueue⟩ := queue_of_taken htaken
  have hmem : (InnerRequest.doSyncMissingBlocks missing, cause) ∈ net.queue :=
    hqueue ▸ List.mem_cons_self
  have hcount : missing.depth + cause.start.lag = 2 * cause.requests + 1 :=
    (hmeasured.queue _ hmem).1
  have hlimit := (hmeasured.queue _ hmem).2
  have hlag := cause.start.lag_le
  suffices h : missing.depth ≤ cause.requests by
    exact ⟨ChainStart.eq_notification (by omega), by omega⟩
  by_cases hdepth : missing.depth < net.service.config.maxMissingBlocksSyncDepth
  · -- a first peer is asked, under the next id
    have hstep : net.step sc op = ({ net with queue := queue } : Net S).handled cause
        (net.service.syncMissingBlocks sc op.1 missing) := by
      rw [step, if_neg (by simp [hruns]), hinput]
      simp only [hqueue]
      rfl
    rw [hstep, Service.syncMissingBlocks_of_wants sc op.1 hdepth hwants] at hafter
    have hpeers := List.length_pos_of_ne_nil hwants.2
    have hrange := And.intro (Nat.le_refl net.service.nextShareChainSyncId)
      (Nat.lt_add_of_pos_right (n := net.service.nextShareChainSyncId) hpeers)
    rw [DepthExact, recorded_handled] at hafter
    have hexact := hafter (net.service.nextShareChainSyncId, missing.depth + 1)
      (Service.recorded_requestFromPeers.mpr (Or.inl ⟨hrange, rfl⟩))
    rw [requestCause_handled, if_pos (Service.asked_requestFromPeers.mpr hrange)] at hexact
    exact (Nat.succ.inj hexact).le
  · have hcut : ¬cause.requests < net.service.config.maxMissingBlocksSyncDepth := fun hfew =>
      hdepth ((Service.asks_syncMissingBlocks_iff sc op.1 hwants).mp
        ((hcutOff _ cause htaken hwants).mpr hfew))
    exact hlimit.trans (not_lt.mp hcut)

/-- No chain sends more requests for missing blocks than the limit. And the depth of every request
is the number of requests in its chain, and chains are cut off exactly at the limit, all along a run
if and only if no request is sent in it but first ones of chains that notifications have started. -/
theorem missing_blocks_counted_iff (sc : ShareChain S) (squad : String) (localPeerId : PeerId)
    (config : Config) (shareWindow : Nat) (chains : PowAlgorithm → S) (ops : List (Env × Input S)) :
    Along (Net.step sc) (Net.start (Service.new squad localPeerId config shareWindow chains)) ops
        (fun net => ∀ entry ∈ net.service.missingBlocksSyncRequestDepth.values,
          (net.requestCause entry.1).requests ≤ config.maxMissingBlocksSyncDepth) ∧
      (Along (Net.step sc) (Net.start (Service.new squad localPeerId config shareWindow chains)) ops
          DepthExact ∧
        (∀ pre op, Takes ops pre op →
          (after (Net.step sc) (Net.start (Service.new squad localPeerId config shareWindow chains))
            pre).CutOffExact sc op) ↔
        ∀ pre op, Takes ops pre op →
          (after (Net.step sc) (Net.start (Service.new squad localPeerId config shareWindow chains))
            pre).AsksFirst sc op) := by
  have hnone : ∀ {p : Prop} {entry : OutboundRequestId × Nat}, entry ∈ (KeyedMap.empty :
      KeyedMap (fun entry : OutboundRequestId × Nat => entry.1)).values → p :=
    fun hmem => absurd hmem List.not_mem_nil
  have hmeasured : Along (Net.step sc)
      (Net.start (Service.new squad localPeerId config shareWindow chains)) ops fun net =>
        net.Measured ∧ net.service.config = config := by
    refine along_of_step ⟨⟨?_, ?_, ?_, ?_⟩, rfl⟩ fun pre op _ h => ⟨h.1.step, config_step.trans h.2⟩
    · exact fun _ hmem => absurd hmem List.not_mem_nil
    · exact fun _ hmem => absurd hmem List.not_mem_nil
    · exact fun _ hmem => hnone hmem
    · exact fun _ hmem => hnone hmem
  have hbefore : ∀ {pre op}, Takes ops pre op → _ := fun {pre op} htakes =>
    (hmeasured pre ((List.prefix_append pre [op]).trans htakes)).1
  refine ⟨fun pre hpre entry hmem => ?_, ?_, ?_⟩
  · obtain ⟨hnet, hconfig⟩ := hmeasured pre hpre
    exact (hnet.requests_le hmem).trans (congrArg Config.maxMissingBlocksSyncDepth hconfig).le
  · rintro ⟨hexact, hcutOff⟩ pre op htakes
    have hafter := hexact (pre ++ [op]) htakes
    rw [after_snoc] at hafter
    exact asksFirst_of_cutOffExact (hbefore htakes) hafter (hcutOff pre op htakes)
  · intro hfirst
    have hexact : Along (Net.step sc)
        (Net.start (Service.new squad localPeerId config shareWindow chains)) ops Exact :=
      along_of_step ⟨fun _ hmem => hnone hmem, fun _ hmem => absurd hmem List.not_mem_nil⟩
        fun pre op htakes h => h.step (hbefore htakes) (hfirst pre op htakes)
    refine ⟨fun pre hpre => (hexact pre hpre).1, fun pre op htakes => ?_⟩
    exact cutOffExact_of_exact (hbefore htakes)
      (hexact pre ((List.prefix_append pre [op]).trans htakes)) (hfirst pre op htakes)

/-- Peer 7 answers a catch-up request with a Sha3x block whose parent is missing. -/
def orphanAnswer : List (Env × Input (InMemoryShareChain × P2Chain)) :=
  [(sampleEnv, .event (.metaDataResponse 7
      (.ok ⟨some 7, { sampleInfo 7 0 0 with currentSha3xHeight := 3, currentSha3xPow := 5 }⟩))),
    (sampleEnv, .innerRequest),
    (sampleEnv, .event (.catchUpSyncResponse 7 0 (.ok
      { peerId := 7, algo := 1, blocks := [sentBlock 3 2 1], tip := (1, 3), achievedPow := some 5 }))),
    (sampleEnv, .task 0), (sampleEnv, .innerRequest), (sampleEnv, .innerRequest)]

def orphanAnswered (limit : Nat) : Net (InMemoryShareChain × P2Chain) :=
  after (Net.step (InMemoryShareChain.shareChain P2Chain.sampleCore))
    (Net.start (Service.new "default" 0 { maxMissingBlocksSyncDepth := limit } 10 sampleShareChains))
    orphanAnswer

/-- The first request of the chain carries the depth two, and is not sent at all under a limit of
one. -/
theorem first_request_counted_twice :
    (orphanAnswered 8).service.missingBlocksSyncRequestDepth.values = [(0, 2)] ∧
      ((orphanAnswered 8).requestCause 0).requests = 1 ∧
      (orphanAnswered 1).service.missingBlocksSyncRequestDepth.values = [] ∧
      ¬Along (Net.step (InMemoryShareChain.shareChain P2Chain.sampleCore))
        (Net.start (Service.new "default" 0 {} 10 sampleShareChains)) orphanAnswer DepthExact := by
  refine ⟨by decide, by decide, by decide, fun halong => ?_⟩
  have hrecorded : (0, 2) ∈ (orphanAnswered 8).service.missingBlocksSyncRequestDepth.values := by
    decide
  have hcount : ((orphanAnswered 8).requestCause 0).requests = 1 := by decide
  have hexact : 2 = ((orphanAnswered 8).requestCause 0).requests :=
    halong _ List.prefix_rfl (0, 2) hrecorded
  rw [hcount] at hexact
  exact absurd hexact (by decide)

end Net

end ShaP2Pool
