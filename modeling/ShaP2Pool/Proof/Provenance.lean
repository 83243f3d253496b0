import ShaP2Pool.Proof.Commitment
import ShaP2Pool.Proof.Content
import ShaP2Pool.Proof.MainLoop
import ShaP2Pool.Server.Pool

/-!
# Where blocks come from

A node stores blocks that miners hand to it and blocks from messages, and puts into its messages
only what it stores or what a miner has handed to it. So whatever holds of the blocks that enter a
pool holds of every block in it: in the share chains, in the queues and tasks of the nodes and on
the way between them. Taken for the property of being one of the blocks that entered, this says that
no node ever makes up a block.
-/

namespace ShaP2Pool

open Trace

/-! ### What the handlers pass on -/

theorem SwarmEvent.blocks_of_isLocal {event : SwarmEvent} (h : event.isLocal = true) :
    event.blocks = [] := by
  cases event with
  | gossip message propagationSource =>
    obtain ⟨source, payload⟩ := message
    cases payload with
    | blockNotify payload => cases h
    | peerInfo payload => rfl
    | unknownTopic => rfl
  | shareChainSyncResponse _ _ _ => cases h
  | catchUpSyncResponse _ _ _ => cases h
  | _ => rfl

namespace Service

variable {S : Type} {s : Service S} (sc : ShareChain S) (env : Env)
variable {effect : Effect} {block : P2Block} {Q : P2Block → Prop}

theorem blocks_handleEvent {event : SwarmEvent} (hmem : effect ∈ (s.handleEvent sc env event).2)
    (hblock : block ∈ effect.blocks) : ∃ b ∈ event.blocks, block = b.received := by
  have heffect := eventEffect_of_mem sc env hmem
  cases heffect with
  | missingBlock peer requestId response b depth _ _ hb =>
    exact ⟨b, hb, List.mem_singleton.mp hblock⟩
  | blocks peer requestId response task _ _ _ _ _ =>
    -- the inversion says nothing of the task's blocks, so the handler is read once more
    have hspawn : task.stage = .sending (sortedBlocks response) := by
      change Effect.spawn task ∈ (handleCatchUpSyncResponse response _ _).2 at hmem
      rw [handleCatchUpSyncResponse] at hmem
      dsimp only at hmem
      split_ifs at hmem
      · cases hmem
      · simp at hmem
      · rw [Effect.spawn.inj (List.mem_singleton.mp hmem)]
    rw [Effect.blocks, CatchUpTask.blocks, hspawn] at hblock
    obtain ⟨b, hb, rfl⟩ := List.mem_map.mp ((List.mem_insertionSort _).mp hblock)
    exact ⟨b, hb, rfl⟩
  | _ => cases hblock

theorem blocks_handleInnerRequest {request : InnerRequest}
    (hmem : effect ∈ (s.handleInnerRequest sc env request).2) : effect.blocks = [] := by
  cases requestEffect_of_mem sc env hmem <;> rfl

theorem blocks_stepTask {task : CatchUpTask} (hmem : effect ∈ (s.stepTask sc task).2.1)
    (hblock : block ∈ effect.blocks) : block ∈ task.blocks := by
  rw [stepTask] at hmem
  split at hmem
  · rename_i b blocks hstage
    rw [CatchUpTask.blocks, hstage]
    rw [List.mem_singleton.mp hmem] at hblock
    exact List.mem_cons.mpr (Or.inl (List.mem_singleton.mp hblock))
  · cases hmem
  · cases hmem
  · dsimp only [finishCatchUp] at hmem
    split_ifs at hmem
    · rw [List.mem_singleton.mp hmem] at hblock
      cases hblock
    · cases hmem

theorem blocks_stepTask_next {task next : CatchUpTask} (h : (s.stepTask sc task).2.2 = some next)
    (hblock : block ∈ next.blocks) : block ∈ task.blocks := by
  rw [stepTask] at h
  split at h
  · rename_i b blocks hstage
    rw [← Option.some.inj h] at hblock
    rw [CatchUpTask.blocks, hstage]
    exact List.mem_cons_of_mem b hblock
  · rw [← Option.some.inj h] at hblock
    cases hblock
  · rw [← Option.some.inj h] at hblock
    cases hblock
  · cases h

/-! ### The share chains -/

def home (s : Service S) : String × PeerId × Config × (PowAlgorithm → S) :=
  (s.squad, s.localPeerId, s.config, s.shareChain)

@[simp] theorem home_dropPermit (permit : Option OwnedSemaphorePermit) :
    (s.dropPermit permit).home = s.home := by
  cases permit <;> rfl

@[simp] theorem home_addPeer (payload : PeerInfo) (peer : PeerId) :
    (s.addPeer env payload peer).1.home = s.home := by
  rw [addPeer]
  split_ifs <;> rfl

@[simp] theorem home_addPeers (payloads : List PeerInfo) :
    (s.addPeers env payloads).1.home = s.home := by
  rw [addPeers]
  apply List.foldlRecOn payloads _ (motive := fun (result : Service S × Nat) =>
    result.1.home = s.home) rfl
  intro result hresult payload _
  cases payload.peerId with
  | none => exact hresult
  | some peer => exact (home_addPeer env _ peer).trans hresult

theorem home_requestFromPeers {algo : PowAlgorithm} {missingParents : List (Nat × FixedHash)}
    {depth : Nat} (peers : List PeerId) :
    (requestFromPeers algo missingParents depth peers s).1.home = s.home := by
  induction peers generalizing s with
  | nil => rfl
  | cons asked peers ih => exact ih

theorem home_sendCatchUp (request : PerformCatchUpSync) (permit : OwnedSemaphorePermit)
    (lastProgress : Option (Nat × FixedHash)) :
    (s.sendCatchUp sc env request permit lastProgress).1.home = s.home := by
  simp only [sendCatchUp]
  split
  · rw [home_dropPermit]
    rfl
  · rfl

theorem home_performCatchUpSync (request : PerformCatchUpSync) :
    (s.performCatchUpSync sc env request).1.home = s.home := by
  rw [performCatchUpSync]
  dsimp only
  split_ifs
  · exact home_dropPermit _
  · exact home_dropPermit _
  · exact home_dropPermit _
  · split
    · exact home_sendCatchUp sc env _ _ _
    · split
      · rfl
      · rename_i hacquire
        rw [tryAcquire] at hacquire
        split_ifs at hacquire
        rw [home_sendCatchUp, ← (Prod.mk.inj (Option.some.inj hacquire)).1]
        rfl

theorem home_releaseCatchupSyncPermit (requestId : OutboundRequestId) :
    (s.releaseCatchupSyncPermit requestId).1.home = s.home := by
  have hrelease : ∀ algo released, s.releaseFrom algo requestId = some released →
      released.1.home = s.home := by
    intro algo released h
    rw [releaseFrom, Option.map_eq_some_iff] at h
    obtain ⟨sync, -, rfl⟩ := h
    rfl
  rw [releaseCatchupSyncPermit]
  split
  · rename_i released hreleased
    obtain h | ⟨-, h⟩ := Option.or_eq_some_iff.mp hreleased
    · exact hrelease _ _ h
    · exact hrelease _ _ h
  · rfl

theorem home_handleCatchUpSyncEvent (requestId : OutboundRequestId)
    (response : Except String CatchUpSyncResponse) :
    (s.handleCatchUpSyncEvent requestId response).1.home = s.home := by
  rw [handleCatchUpSyncEvent]
  have hrelease := home_releaseCatchupSyncPermit (s := s) requestId
  cases response with
  | error _ => exact (home_dropPermit _).trans hrelease
  | ok response =>
    simp only [handleCatchUpSyncResponse]
    split_ifs
    · exact (home_dropPermit _).trans hrelease
    · exact (home_dropPermit _).trans hrelease
    · exact hrelease

theorem home_failSync (peer : PeerId) (requestId : OutboundRequestId) (algo : PowAlgorithm) :
    (s.failSync peer requestId algo).home = s.home := by
  rw [failSync]
  split
  · rfl
  · exact home_dropPermit _

theorem home_stepTask (task : CatchUpTask) : (s.stepTask sc task).1.home = s.home := by
  rw [stepTask]
  split
  · rfl
  · cases task.lastBlockFromThem <;> rfl
  · rfl
  · dsimp only [finishCatchUp]
    split_ifs
    · rfl
    · exact home_dropPermit _

/-- The service after its share chain of an algorithm has been given some blocks. -/
def Took (algo : PowAlgorithm) (blocks : List P2Block) (s s' : Service S) : Prop :=
  s'.home = (s.withShareChain algo
    (sc.addSyncedBlocks env blocks (s.shareChain algo)).state).home

theorem took_handleNotifyNewTipBlock (payload : NotifyNewTipBlock) (propagationSource : PeerId) :
    (s.handleNotifyNewTipBlock sc env payload propagationSource).1.home = s.home ∨
      Took sc env payload.algo (payload.newBlocks.map (·.received)) s
        (s.handleNotifyNewTipBlock sc env payload propagationSource).1 := by
  rw [handleNotifyNewTipBlock]
  split
  · exact Or.inl rfl
  · refine Or.inr ?_
    rw [Took]
    cases hadd : sc.addSyncedBlocks env (payload.newBlocks.map (·.received))
        (s.shareChain payload.algo) with
    | error fault chain =>
      simp only [hadd]
      cases fault <;> rfl
    | ok result chain =>
      simp only [hadd]
      split_ifs <;> rfl

/-- Only the blocks of a notification reach a share chain. -/
theorem took_handleEvent (event : SwarmEvent) :
    (s.handleEvent sc env event).1.home = s.home ∨
      ∃ algo, Took sc env algo (event.blocks.map (·.received)) s
        (s.handleEvent sc env event).1 := by
  cases event with
  | connectionEstablished peer isDialer =>
    left
    change (s.handleConnectionEstablished peer isDialer).1.home = s.home
    rw [handleConnectionEstablished]
    split_ifs <;> rfl
  | outgoingConnectionError _ _ => exact Or.inl rfl
  | gossip message propagationSource =>
    obtain ⟨source, payload⟩ := message
    change (s.handleNewGossipsubMessage sc env ⟨source, payload⟩ propagationSource).1.home = s.home ∨ _
    cases source with
    | none => exact Or.inl rfl
    | some source =>
      cases payload with
      | unknownTopic => exact Or.inl rfl
      | peerInfo info =>
        cases info with
        | none => exact Or.inl rfl
        | some info =>
          left
          simp only [handleNewGossipsubMessage]
          split_ifs
          · rfl
          · rfl
          · exact home_addPeer env info source
      | blockNotify payload =>
        cases payload with
        | none => exact Or.inl rfl
        | some payload =>
          obtain h | h := took_handleNotifyNewTipBlock (s := s) sc env payload propagationSource
          · exact Or.inl h
          · exact Or.inr ⟨payload.algo, h⟩
  | metaDataRequest _ request =>
    left
    change (s.handleMetaDataExchangeRequest env request).home = s.home
    rw [handleMetaDataExchangeRequest]
    split_ifs
    · rfl
    · cases request.peerId <;> simp
  | metaDataResponse _ response =>
    left
    cases response with
    | error _ => rfl
    | ok response =>
      change (s.handleMetaDataExchangeResponse sc env response).1.home = s.home
      rw [handleMetaDataExchangeResponse]
      cases response.peerId with
      | none => rfl
      | some peerId =>
        simp only
        split_ifs <;> simp
  | directPeerExchangeRequest _ request =>
    left
    change (s.handleDirectPeerExchangeRequest env request).home = s.home
    rw [handleDirectPeerExchangeRequest]
    split_ifs
    · rfl
    · cases request.peerId <;> simp
  | directPeerExchangeResponse _ response =>
    left
    cases response with
    | error _ => rfl
    | ok response =>
      have hadd := home_addPeers (s := s) env response.bestPeers
      change (s.handleDirectPeerExchangeResponse env response).1.home = s.home
      rw [handleDirectPeerExchangeResponse]
      cases response.peerId with
      | none => rfl
      | some peerId =>
        simp only
        split_ifs
        · rfl
        · exact hadd
        · exact hadd
        · exact hadd
  | shareChainSyncResponse _ requestId response =>
    left
    change (s.handleShareChainSyncResponse requestId response).1.home = s.home
    rw [handleShareChainSyncResponse]
    split <;> rfl
  | shareChainSyncFailure _ _ _ => exact Or.inl rfl
  | catchUpSyncResponse _ requestId response =>
    exact Or.inl (home_handleCatchUpSyncEvent requestId response)
  | catchUpSyncFailure peer requestId _ =>
    exact Or.inl ((home_failSync peer requestId _).trans (home_failSync peer requestId _))
  | identified _ _ => exact Or.inl rfl
  | ping _ => exact Or.inl rfl

theorem took_handleInnerRequest (request : InnerRequest) :
    (s.handleInnerRequest sc env request).1.home = s.home ∨
      ∃ algo, Took sc env algo request.blocks s (s.handleInnerRequest sc env request).1 := by
  cases request with
  | doSyncMissingBlocks request =>
    left
    change (s.syncMissingBlocks sc env request).1.home = s.home
    rw [syncMissingBlocks]
    dsimp only
    split_ifs
    · rfl
    · rfl
    · exact home_requestFromPeers _
  | performCatchUpSync request => exact Or.inl (home_performCatchUpSync sc env request)
  | addSyncedBlock algo block sourcePeer depth =>
    change (s.addSyncedBlock sc env algo block sourcePeer depth).1.home = s.home ∨ _
    rw [handleInnerRequest, addSyncedBlock]
    split_ifs
    · exact Or.inl rfl
    · refine Or.inr ⟨algo, ?_⟩
      rw [Took, InnerRequest.blocks]
      cases hadd : sc.addSyncedBlocks env [block] (s.shareChain algo) with
      | error fault chain => cases fault <;> rfl
      | ok result chain => rfl

end Service

namespace Net

variable {S : Type} {net : Net S} {cause : Cause} {effects : List Effect}
variable {result : Service S × List Effect}

theorem home_performAll : (net.performAll cause effects).service.home = net.service.home := by
  induction effects generalizing net with
  | nil => rfl
  | cons effect effects ih =>
    rw [performAll_cons, ih]
    cases effect <;> rfl

theorem home_handled : (net.handled cause result).service.home = result.1.home := home_performAll

end Net

/-! ### Pools -/

namespace Pool

/-- The share chains of the program as the nodes run them. -/
abbrev Chains := InMemoryShareChain × P2Chain

variable {core : TariCore} {setup : PoolSetup} {Q : P2Block → Prop} {p : PeerId} {env : Env}

/-- A node has the squad and settings it was started with, and every stored block has `Q` and is of
the version, squad and algorithm of its share chain. -/
structure Keeps (setup : PoolSetup) (Q : P2Block → Prop) (p : PeerId) (s : Service Chains) :
    Prop where
  squad : s.squad = setup.squad p
  config : s.config = setup.config p
  chains : ∀ algo, ∃ c, s.shareChain algo = (setup.shareChainOf p algo, c) ∧
    c.AllStored fun b => P2Chain.OfChain (setup.shareChainOf p algo) b ∧ Q b

/-- What is in flight in a node has `Q` as well. -/
structure NetKeeps (setup : PoolSetup) (Q : P2Block → Prop) (p : PeerId) (net : Net Chains) :
    Prop where
  service : Keeps setup Q p net.service
  queue : ∀ entry ∈ net.queue, ∀ b ∈ entry.1.blocks, Q b.withoutStatus
  tasks : ∀ entry ∈ net.tasks, ∀ b ∈ entry.1.blocks, Q b.withoutStatus

variable {s s' : Service Chains} {net : Net Chains} {blocks : List P2Block} {algo : PowAlgorithm}

theorem Keeps.of_home (h : Keeps setup Q p s) (hhome : s'.home = s.home) : Keeps setup Q p s' := by
  simp only [Service.home, Prod.mk.injEq] at hhome
  obtain ⟨hsquad, -, hconfig, hchain⟩ := hhome
  refine ⟨hsquad.trans h.squad, hconfig.trans h.config, fun algo => ?_⟩
  rw [hchain]
  exact h.chains algo

theorem Keeps.withShareChain (h : Keeps setup Q p s) {c : P2Chain}
    (hc : c.AllStored fun b => P2Chain.OfChain (setup.shareChainOf p algo) b ∧ Q b) :
    Keeps setup Q p (s.withShareChain algo (setup.shareChainOf p algo, c)) := by
  refine ⟨h.squad, h.config, fun algo' => ?_⟩
  by_cases heq : algo' = algo
  · subst heq
    exact ⟨c, Function.update_self _ _ _, hc⟩
  · obtain ⟨c', hc', hall⟩ := h.chains algo'
    exact ⟨c', (Function.update_of_ne heq _ _).trans hc', hall⟩

theorem Keeps.of_took (h : Keeps setup Q p s)
    (htook : Service.Took (InMemoryShareChain.shareChain core) env algo blocks s s')
    (hblocks : ∀ b ∈ blocks, Q b.withoutStatus) : Keeps setup Q p s' := by
  obtain ⟨c, hc, hall⟩ := h.chains algo
  have hadded : ((setup.shareChainOf p algo).addSyncedBlocks core env.ord env.now blocks
      c).state.AllStored fun b => P2Chain.OfChain (setup.shareChainOf p algo) b ∧ Q b :=
    hall.addSyncedBlocks_of_chain fun b hb hchain => ⟨hchain, hblocks b hb⟩
  have hstate : ((InMemoryShareChain.shareChain core).addSyncedBlocks env blocks
      (s.shareChain algo)).state = (setup.shareChainOf p algo,
        ((setup.shareChainOf p algo).addSyncedBlocks core env.ord env.now blocks c).state) := by
    rw [hc]
    simp only [InMemoryShareChain.shareChain]
    split
    all_goals
      rename_i heq
      rw [heq]
      rfl
  rw [Service.Took, hstate] at htook
  exact (h.withShareChain hadded).of_home htook

theorem NetKeeps.handled {cause : Cause} {result : Service Chains × List Effect}
    (h : NetKeeps setup Q p net) (hservice : Keeps setup Q p result.1)
    (heffects : ∀ effect ∈ result.2, ∀ b ∈ effect.blocks, Q b.withoutStatus) :
    NetKeeps setup Q p (net.handled cause result) := by
  refine ⟨hservice.of_home Net.home_handled, fun entry hentry => ?_, fun entry hentry => ?_⟩
  · obtain hold | ⟨hnew, -⟩ := Net.mem_queue_handled.mp hentry
    · exact h.queue entry hold
    · exact heffects _ hnew
  · obtain hold | ⟨hnew, -⟩ := Net.mem_tasks_handled.mp hentry
    · exact h.tasks entry hold
    · exact heffects _ hnew

/-- An input whose blocks have `Q` keeps to it. -/
theorem NetKeeps.step {input : Input Chains} (h : NetKeeps setup Q p net)
    (hchain : ∀ algo chain, input ≠ .useChain algo chain)
    (hevent : ∀ event, input = .event event → ∀ b ∈ event.blocks, Q b.withoutStatus) :
    NetKeeps setup Q p (net.step (InMemoryShareChain.shareChain core) (env, input)) := by
  have hstore (store : PeerStore) : NetKeeps setup Q p (net.withStore store) :=
    ⟨h.service.of_home rfl, h.queue, h.tasks⟩
  rw [Net.step]
  split_ifs
  · exact h
  · cases input with
    | event event =>
      have hQ := hevent event rfl
      refine h.handled ?_ fun effect hmem b hb => ?_
      · obtain hsame | ⟨algo, htook⟩ := Service.took_handleEvent (s := net.service)
          (InMemoryShareChain.shareChain core) env event
        · exact h.service.of_home hsame
        · refine h.service.of_took htook fun b hb => ?_
          obtain ⟨x, hx, rfl⟩ := List.mem_map.mp hb
          exact hQ x hx
      · obtain ⟨x, hx, rfl⟩ := Service.blocks_handleEvent _ env hmem hb
        exact hQ x hx
    | innerRequest =>
      cases hqueue : net.queue with
      | nil => exact h
      | cons entry queue =>
        obtain ⟨request, cause⟩ := entry
        have hrequest := h.queue (request, cause) (hqueue ▸ List.mem_cons_self)
        have hrest : NetKeeps setup Q p { net with queue := queue } :=
          ⟨h.service, fun entry hentry => h.queue entry (hqueue ▸ List.mem_cons_of_mem _ hentry),
            h.tasks⟩
        refine hrest.handled ?_ fun effect hmem b hb => ?_
        · obtain hsame | ⟨algo, htook⟩ := Service.took_handleInnerRequest (s := net.service)
            (InMemoryShareChain.shareChain core) env request
          · exact h.service.of_home hsame
          · exact h.service.of_took htook hrequest
        · rw [Service.blocks_handleInnerRequest _ env hmem] at hb
          cases hb
    | task i =>
      simp only
      cases htaken : net.tasks[i]? with
      | none => exact h
      | some entry =>
        obtain ⟨task, cause⟩ := entry
        have htask := h.tasks (task, cause) (List.mem_of_getElem? htaken)
        have hnext : NetKeeps setup Q p (net.withTask i cause
            (net.service.stepTask (InMemoryShareChain.shareChain core) task).2.2) := by
          refine ⟨h.service, h.queue, fun entry hentry => ?_⟩
          obtain hold | ⟨hnext, -⟩ := Net.mem_tasks_withTask hentry
          · exact h.tasks entry hold
          · exact fun b hb => htask b (Service.blocks_stepTask_next _ hnext hb)
        change NetKeeps setup Q p (net.stepTask _ i task cause)
        rw [Net.stepTask_eq]
        exact hnext.handled (h.service.of_home (Service.home_stepTask _ task))
          fun effect hmem b hb => htask b (Service.blocks_stepTask _ hmem hb)
    | addSeedPeers peers => exact hstore _
    | clearGreyList => exact hstore _
    | clearBlackList => exact hstore _
    | useChain algo chain => exact absurd rfl (hchain algo chain)

/-! ### Answers and mined blocks -/

end Pool

namespace P2Chain

variable {c : P2Chain} {b : P2Block} {ord : IterOrder}

theorem mem_getBlocks {requested : List (Nat × FixedHash)} (h : b ∈ c.getBlocks requested) :
    b ∈ c.blockCache.values := by
  obtain ⟨asked, -, hfound⟩ := List.mem_filterMap.mp h
  obtain ⟨level, -, hor⟩ := Option.bind_eq_some_iff.mp hfound
  obtain hfind | ⟨-, hfind⟩ := Option.or_eq_some_iff.mp hor
  · exact KeyedMap.mem_values_of_find? hfind
  · exact KeyedMap.mem_values_of_find? hfind

theorem mem_levelBlocks {level : P2ChainLevel} (h : b ∈ (c.levelBlocks ord true level).1) :
    b ∈ c.blockCache.values := by
  rw [levelBlocks, if_pos rfl] at h
  cases hmain : c.getBlockInMainChain level with
  | none =>
    rw [hmain] at h
    cases h
  | some main =>
    rw [hmain] at h
    obtain huncle | hself := List.mem_append.mp h
    · obtain ⟨uncle, -, hfind⟩ := List.mem_filterMap.mp huncle
      obtain ⟨_, -, hcached⟩ := Option.bind_eq_some_iff.mp hfind
      exact KeyedMap.mem_values_of_find? hcached
    · rw [List.mem_singleton.mp hself]
      exact KeyedMap.mem_values_of_find? hmain

theorem mem_pageLoop {pageSize rounds n : Nat} {level : P2ChainLevel} {res blocks : List P2Block}
    (hres : ∀ x ∈ res, x ∈ c.blockCache.values)
    (h : c.pageLoop ord pageSize true rounds level n res = .ok blocks) :
    ∀ x ∈ blocks, x ∈ c.blockCache.values := by
  induction rounds generalizing level n res with
  | zero => cases h
  | succ rounds ih =>
    have hpage : ∀ x ∈ res ++ (c.levelBlocks ord true level).1, x ∈ c.blockCache.values := by
      intro x hx
      obtain hold | hnew := List.mem_append.mp hx
      · exact hres x hold
      · exact mem_levelBlocks hnew
    rw [pageLoop] at h
    generalize c.levelBlocks ord true level = taken at h hpage
    obtain ⟨new, counted⟩ := taken
    simp only at h
    split_ifs at h
    · cases h
      exact hpage
    · split at h
      · exact ih hpage h
      · cases h
        exact hpage

theorem mem_requestSync {theirBlocks : List (Nat × FixedHash)} {limit : Nat}
    {lastBlockReceived : Option (Nat × FixedHash)} {blocks : List P2Block}
    {rest : Option (Nat × FixedHash) × AccumulatedDifficulty}
    (h : c.requestSync ord theirBlocks limit lastBlockReceived = .ok (blocks, rest)) :
    ∀ x ∈ blocks, x ∈ c.blockCache.values := by
  rw [requestSync] at h
  split at h
  · cases h
  · rename_i page hpage
    cases h
    rw [allBlocksWithLock] at hpage
    split at hpage
    · cases hpage
      exact fun x hx => absurd hx List.not_mem_nil
    · exact mem_pageLoop (fun x hx => absurd hx List.not_mem_nil) hpage

end P2Chain

theorem InMemoryShareChain.squad_of_submitBlock {core : TariCore} {s : InMemoryShareChain}
    {ord : IterOrder} {now : EpochTime} {b : P2Block} {c c' : P2Chain} {result : ChainAddResult}
    (h : s.submitBlock core ord now b c = .ok result c') : b.squad = s.squad := by
  rw [InMemoryShareChain.submitBlock] at h
  split_ifs at h with hversion hsquad
  · cases h
  · cases h
  · exact not_not.mp hsquad

namespace Pool

variable {core : TariCore} {setup : PoolSetup} {Q : P2Block → Prop} {p : PeerId} {env : Env}
variable {s : Service Chains} {block : P2Block}

theorem Keeps.of_stored (h : Keeps setup Q p s) {algo : PowAlgorithm}
    (hb : block ∈ (s.shareChain algo).2.blockCache.values) :
    P2Chain.OfChain (setup.shareChainOf p algo) block ∧ Q block.withoutStatus := by
  obtain ⟨c, hc, hall⟩ := h.chains algo
  rw [hc] at hb
  exact hall block hb

theorem Keeps.handleSyncMissingBlocksRequest (h : Keeps setup Q p s)
    {request : SyncMissingBlocksRequest} {response : SyncMissingBlocksResponse}
    (hanswer : s.handleSyncMissingBlocksRequest (InMemoryShareChain.servingChain core) request =
      .ok response) : ∀ b ∈ response.blocks, Q b.withoutStatus := by
  rw [Service.handleSyncMissingBlocksRequest] at hanswer
  split_ifs at hanswer
  cases hanswer
  exact fun b hb => (h.of_stored (P2Chain.mem_getBlocks hb)).2

theorem Keeps.handleCatchUpSyncRequest (h : Keeps setup Q p s) {request : CatchUpSyncRequest}
    {response : CatchUpSyncResponse}
    (hanswer : s.handleCatchUpSyncRequest (InMemoryShareChain.servingChain core) env request =
      .ok (.ok response)) : ∀ b ∈ response.blocks, Q b.withoutStatus := by
  rw [Service.handleCatchUpSyncRequest] at hanswer
  split at hanswer
  · cases hanswer
  · cases hanswer
  · rename_i hsync
    cases hanswer
    exact fun b hb => (h.of_stored (P2Chain.mem_requestSync hsync b hb)).2

/-- A block that a miner hands in gets into the share chain and among the blocks to publish only if
it is of the node's squad. -/
theorem Keeps.submitShareChainBlock (core : TariCore) (env : Env) (h : Keeps setup Q p s)
    (hblock : block.squad = setup.squad p → Q block.withoutStatus) :
    Keeps setup Q p
        (s.submitShareChainBlock (InMemoryShareChain.servingChain core) env block).1 ∧
      ∀ b ∈ (s.submitShareChainBlock (InMemoryShareChain.servingChain core) env block).2,
        Q b.withoutStatus := by
  have hsquad {algo : PowAlgorithm} (hchain : P2Chain.OfChain (setup.shareChainOf p algo) block) :
      block.squad = setup.squad p := hchain.2.1
  obtain ⟨c, hc, hall⟩ := h.chains block.originalHeader.powAlgo
  have hkept : ((setup.shareChainOf p block.originalHeader.powAlgo).submitBlock core (env.ord 0)
      env.now block c).state.AllStored _ :=
    hall.submitBlock_of_chain fun hchain => ⟨hchain, hblock (hsquad hchain)⟩
  rw [Service.submitShareChainBlock]
  split_ifs
  · exact ⟨h, fun b hb => absurd hb List.not_mem_nil⟩
  · simp only [InMemoryShareChain.servingChain, hc]
    cases hsubmit : (setup.shareChainOf p block.originalHeader.powAlgo).submitBlock core (env.ord 0)
        env.now block c with
    | error fault c' =>
      rw [hsubmit] at hkept
      exact ⟨h.withShareChain hkept, fun b hb => absurd hb List.not_mem_nil⟩
    | ok result c' =>
      rw [hsubmit] at hkept
      refine ⟨h.withShareChain hkept, fun b hb => ?_⟩
      simp only at hb
      split_ifs at hb
      · obtain huncle | hself := List.mem_append.mp hb
        · exact (hkept b (P2Chain.mem_getBlocks huncle)).2
        · rw [List.mem_singleton.mp hself]
          exact hblock (InMemoryShareChain.squad_of_submitBlock hsubmit)
      · cases hb

/-! ### Runs -/

/-- Every block in the pool has `Q`. -/
structure Holds (setup : PoolSetup) (Q : P2Block → Prop) (pool : Pool Chains) : Prop where
  nodes : ∀ p, NetKeeps setup Q p (pool.nodes p).net
  broadcasts : ∀ p, ∀ b ∈ (pool.nodes p).broadcasts, Q b.withoutStatus
  packets : ∀ packet ∈ pool.packets, ∀ b ∈ packet.blocks, Q b.withoutStatus

variable {pool : Pool Chains} {packets : List Packet} {node : Node Chains}

theorem Holds.start (setup : PoolSetup) (Q : P2Block → Prop) : Holds setup Q (start setup) := by
  refine ⟨fun p => ⟨⟨rfl, rfl, fun algo => ⟨_, rfl, P2Chain.AllStored.newEmpty _⟩⟩, ?_, ?_⟩, ?_, ?_⟩
  · exact fun entry hentry => absurd hentry List.not_mem_nil
  · exact fun entry hentry => absurd hentry List.not_mem_nil
  · exact fun p b hb => absurd hb List.not_mem_nil
  · exact fun packet hpacket => absurd hpacket List.not_mem_nil

theorem Holds.send (h : Holds setup Q pool)
    (hpackets : ∀ packet ∈ packets, ∀ b ∈ packet.blocks, Q b.withoutStatus) :
    Holds setup Q (pool.send packets) := by
  refine ⟨h.nodes, h.broadcasts, fun packet hpacket => ?_⟩
  obtain hold | hnew := List.mem_append.mp hpacket
  · exact h.packets packet hold
  · exact hpackets packet hnew

theorem Holds.setNode (h : Holds setup Q pool) (hnet : NetKeeps setup Q p node.net)
    (hbroadcasts : ∀ b ∈ node.broadcasts, Q b.withoutStatus) :
    Holds setup Q (pool.setNode p node) := by
  have hupdate (q : PeerId) : (pool.setNode p node).nodes q = if q = p then node else pool.nodes q :=
    Function.update_apply _ _ _ _
  refine ⟨fun q => ?_, fun q => ?_, h.packets⟩
  · rw [hupdate]
    split_ifs with heq
    · rw [heq]
      exact hnet
    · exact h.nodes q
  · rw [hupdate]
    split_ifs
    · exact hbroadcasts
    · exact h.broadcasts q

theorem blocks_of_packet {effect : Effect} {packet : Packet} (h : effect.packet p = some packet) :
    packet.blocks = [] := by
  cases effect with
  | requestMissingBlocks id peer request =>
    cases h
    rfl
  | requestCatchUp id peer request =>
    cases h
    rfl
  | _ => cases h

theorem Holds.proceed (h : Holds setup Q pool) {input : Input Chains}
    (hchain : ∀ algo chain, input ≠ .useChain algo chain)
    (hevent : ∀ event, input = .event event → ∀ b ∈ event.blocks, Q b.withoutStatus) :
    Holds setup Q (pool.proceed (InMemoryShareChain.servingChain core) p env input) := by
  have hnode : Holds setup Q (pool.setNode p { pool.nodes p with
      net := (pool.nodes p).net.step (InMemoryShareChain.shareChain core) (env, input) }) :=
    h.setNode ((h.nodes p).step hchain hevent) (h.broadcasts p)
  refine hnode.send fun packet hpacket => ?_
  obtain ⟨effect, -, heffect⟩ := List.mem_filterMap.mp hpacket
  rw [blocks_of_packet heffect]
  exact fun b hb => absurd hb List.not_mem_nil

theorem blocks_readGossip {tari : TariNetwork} {squad topic : String} {published : Published}
    {source : Option PeerId} {via : PeerId}
    (h : block ∈ (SwarmEvent.gossip ⟨source, tari.readGossip squad topic published⟩ via).blocks) :
    block ∈ (Packet.gossip topic source published).blocks := by
  cases published with
  | newTip payload =>
    simp only [TariNetwork.readGossip] at h
    split_ifs at h
    · cases h
    · exact h
    · cases h
  | peerInfo info =>
    simp only [TariNetwork.readGossip] at h
    split_ifs at h <;> cases h
  | unreadable =>
    simp only [TariNetwork.readGossip] at h
    split_ifs at h <;> cases h

theorem Holds.receive (h : Holds setup Q pool) {tari : TariNetwork} {via : PeerId} {packet : Packet}
    (hpacket : ∀ b ∈ packet.blocks, Q b.withoutStatus) :
    Holds setup Q (pool.receive (InMemoryShareChain.servingChain core) tari p via env packet) := by
  cases packet with
  | gossip topic source published =>
    rw [Pool.receive]
    split_ifs
    · refine h.proceed (fun _ _ heq => by cases heq) fun event heq b hb => ?_
      cases heq
      exact hpacket b (blocks_readGossip hb)
    · exact h
  | missingBlocksRequest sender receiver id request =>
    rw [Pool.receive]
    split_ifs
    · refine h.send fun packet hsent b hb => ?_
      rw [List.mem_singleton.mp hsent] at hb
      cases hanswer : (pool.nodes p).net.service.handleSyncMissingBlocksRequest
          (InMemoryShareChain.servingChain core) request with
      | error message =>
        rw [hanswer] at hb
        cases hb
      | ok response =>
        rw [hanswer] at hb
        exact (h.nodes p).service.handleSyncMissingBlocksRequest hanswer b hb
    · exact h
  | missingBlocksResponse sender receiver id response =>
    rw [Pool.receive]
    split_ifs
    · refine h.proceed (fun _ _ heq => by cases heq) fun event heq b hb => ?_
      cases heq
      cases response with
      | error message => cases hb
      | ok response => exact hpacket b hb
    · exact h
  | catchUpRequest sender receiver id request =>
    rw [Pool.receive]
    split_ifs
    · cases hanswer : (pool.nodes p).net.service.handleCatchUpSyncRequest
          (InMemoryShareChain.servingChain core) env request with
      | error panic =>
        have hnet := h.nodes p
        exact h.setNode ⟨hnet.service, hnet.queue, hnet.tasks⟩ (h.broadcasts p)
      | ok answer =>
        refine h.send fun packet hsent b hb => ?_
        rw [List.mem_singleton.mp hsent] at hb
        cases answer with
        | error message => cases hb
        | ok response => exact (h.nodes p).service.handleCatchUpSyncRequest hanswer b hb
    · exact h
  | catchUpResponse sender receiver id response =>
    rw [Pool.receive]
    split_ifs
    · refine h.proceed (fun _ _ heq => by cases heq) fun event heq b hb => ?_
      cases heq
      cases response with
      | error message => cases hb
      | ok response => exact hpacket b hb
    · exact h

/-- The blocks that enter the pool with an event have `Q`. A block that a miner hands in enters if
it is of the node's squad. -/
def Enters (setup : PoolSetup) (Q : P2Block → Prop) : PoolEvent Chains → Prop
  | .mine p _ block => block.squad = setup.squad p → Q block.withoutStatus
  | .outsider packet => ∀ b ∈ packet.blocks, Q b.withoutStatus
  | _ => True

/-- What holds of the blocks that enter with an event is kept by it. -/
theorem Holds.step (h : Holds setup Q pool) {tari : TariNetwork} {event : PoolEvent Chains}
    (henters : Enters setup Q event) :
    Holds setup Q (pool.step (InMemoryShareChain.servingChain core) tari event) := by
  cases event with
  | deliver p via env position =>
    rw [Pool.step]
    cases hpacket : pool.packets[position]? with
    | none => exact h
    | some packet => exact h.receive (h.packets packet (List.mem_of_getElem? hpacket))
  | proceed p env input =>
    rw [Pool.step]
    split_ifs with hlocal
    · refine h.proceed (fun _ _ heq => by rw [heq] at hlocal; cases hlocal) fun event heq b hb => ?_
      rw [heq] at hlocal
      rw [SwarmEvent.blocks_of_isLocal hlocal] at hb
      cases hb
    · exact h
  | silenceOver p =>
    have hnet := h.nodes p
    exact h.setNode ⟨hnet.service.of_home rfl, hnet.queue, hnet.tasks⟩ (h.broadcasts p)
  | mine p env block =>
    rw [Pool.step, Pool.mine]
    dsimp only
    split_ifs
    · exact h
    · have hnet := h.nodes p
      obtain ⟨hservice, hblocks⟩ := hnet.service.submitShareChainBlock core env henters
      refine h.setNode ⟨hservice, hnet.queue, hnet.tasks⟩ fun b hb => ?_
      obtain hold | hnew := List.mem_append.mp hb
      · exact h.broadcasts p b hold
      · exact hblocks b hnew
  | publish p env =>
    rw [Pool.step, Pool.publish]
    cases hnext : (pool.nodes p).broadcasts with
    | nil => exact h
    | cons block rest =>
      have hbroadcasts := h.broadcasts p
      rw [hnext] at hbroadcasts
      dsimp only
      split_ifs
      · exact h
      · have hnode : Holds setup Q (pool.setNode p { pool.nodes p with broadcasts := rest }) :=
          h.setNode (h.nodes p) fun b hb => hbroadcasts b (List.mem_cons_of_mem _ hb)
        refine hnode.send fun packet hsent b hb => ?_
        rw [List.mem_singleton.mp hsent] at hb
        rw [List.mem_singleton.mp hb]
        exact hbroadcasts block List.mem_cons_self
  | outsider packet =>
    refine h.send fun sent hsent => ?_
    rw [List.mem_singleton.mp hsent]
    exact henters

/-- The pool after some events. -/
def after (core : TariCore) (setup : PoolSetup) (events : List (PoolEvent Chains)) : Pool Chains :=
  Trace.after (Pool.step (InMemoryShareChain.servingChain core) setup.tari) (Pool.start setup) events

theorem holds_after {events : List (PoolEvent Chains)}
    (henters : ∀ event ∈ events, Enters setup Q event) : Holds setup Q (after core setup events) :=
  Trace.along_of_step (Holds.start setup Q)
    (fun _ event htakes h => h.step (henters event htakes.mem)) events List.prefix_rfl

/-- The block has come into the pool with one of the events. -/
def Entered (setup : PoolSetup) (events : List (PoolEvent Chains)) (block : P2Block) : Prop :=
  (∃ miner env handed, PoolEvent.mine miner env handed ∈ events ∧
    setup.squad miner = block.squad ∧ handed.withoutStatus = block.withoutStatus) ∨
  ∃ packet, PoolEvent.outsider packet ∈ events ∧
    ∃ sent ∈ packet.blocks, sent.withoutStatus = block.withoutStatus

theorem enters_entered {events : List (PoolEvent Chains)} {event : PoolEvent Chains}
    (hmem : event ∈ events) : Enters setup (Entered setup events) event := by
  cases event with
  | mine miner env handed => exact fun hsquad => Or.inl ⟨miner, env, handed, hmem, hsquad.symm, rfl⟩
  | outsider packet => exact fun sent hsent => Or.inr ⟨packet, hmem, sent, hsent, rfl⟩
  | _ => trivial

/-- Whatever is delivered to whom and how often, a node stores only blocks of its own squad, version
and algorithm that a miner has handed to a node of that squad, or that came from outside the
pool. -/
theorem stored_entered (core : TariCore) (setup : PoolSetup) (events : List (PoolEvent Chains))
    (p : PeerId) (algo : PowAlgorithm) (block : P2Block)
    (hstored : block ∈
      (((after core setup events).nodes p).net.service.shareChain algo).2.blockCache.values) :
    P2Chain.OfChain (setup.shareChainOf p algo) block ∧ Entered setup events block := by
  have hholds : Holds setup (Entered setup events) (after core setup events) :=
    holds_after fun event hmem => enters_entered hmem
  obtain ⟨hchain, hentered⟩ := (hholds.nodes p).service.of_stored hstored
  exact ⟨hchain, hentered⟩

def sampleSetup : PoolSetup where
  tari := ⟨"esmeralda", "0"⟩
  squad _ := ""
  config _ := {}
  shareWindow _ := 10
  shareChain _ _ := P2Chain.sampleShareChain 10

def sampleEnv : Env := ⟨fun _ => IterOrder.stored, 0, 0, []⟩

/-- A block is handed to the first node and published, and the second node gets it. -/
def sampleEvents : List (PoolEvent Chains) :=
  [.silenceOver 0, .mine 0 sampleEnv (P2Chain.rootBlock 7), .publish 0 sampleEnv,
    .deliver 1 0 sampleEnv 0]

/-- The second node stores it. -/
theorem stored_entered_sample :
    P2Chain.OfChain (sampleSetup.shareChainOf 1 .sha3x)
        { P2Chain.rootBlock 7 with verified := ⟨true, true, true, true, true⟩ } ∧
      Entered sampleSetup sampleEvents
        { P2Chain.rootBlock 7 with verified := ⟨true, true, true, true, true⟩ } :=
  stored_entered P2Chain.rootCore sampleSetup sampleEvents 1 .sha3x _ (by decide +kernel)

end Pool

end ShaP2Pool
