import ShaP2Pool.Proof.MainLoop
import ShaP2Pool.Proof.Run

/-!
# Who is punished

The service takes the peer that it punishes out of the message: the peer id of a sync response or of
a block notification, the author of a gossip message. The connection a message came over is not
compared with it. What is in flight carries the peer that it may come to accuse, and the invariant
is that this is the peer that delivered the message it came from. Every handler passes both on
together, so the invariant can only break where a message enters.
-/

namespace ShaP2Pool

open Trace

variable {S : Type}

def InnerRequest.accused : InnerRequest → Option PeerId
  | .addSyncedBlock _ _ sourcePeer _ => some sourcePeer
  | _ => none

/-- The peer that an effect punishes, or that what it leads to may punish. -/
def Effect.accused : Effect → Option PeerId
  | .send request => request.accused
  | .spawn task => some task.peer
  | effect => effect.punishes

def Cause.Blames (cause : Cause) (peer : PeerId) : Prop := ∀ sender ∈ cause.deliveredBy, peer = sender

theorem Effect.accused_of_punishes {effect : Effect} {peer : PeerId}
    (h : effect.punishes = some peer) : effect.accused = some peer := by
  cases effect with
  | moveToGreyList _ _ => exact h
  | moveToBlacklist _ => exact h
  | disconnect _ => exact h
  | _ => exact absurd h (by simp [Effect.punishes])

namespace Service

variable {s : Service S} (sc : ShareChain S) (env : Env) {effect : Effect} {peer : PeerId}

/-- Where a message may get the peer that it names punished, that is the peer that delivers it. -/
def NamesSender (s : Service S) : SwarmEvent → Prop
  | .gossip ⟨some source, .blockNotify none⟩ propagationSource => source = propagationSource
  | .gossip ⟨some _, .blockNotify (some payload)⟩ propagationSource =>
    s.Refuses sc env payload → payload.peerId = propagationSource
  | .metaDataResponse peer (.ok response) =>
    response.info.version ≠ protocolVersion → ∀ named ∈ response.peerId, named = peer
  | .directPeerExchangeResponse peer (.ok response) => ∀ named ∈ response.peerId,
    response.info.version ≠ protocolVersion ∨ named ∈ s.dialedSeedPeers → named = peer
  | .shareChainSyncResponse peer requestId (.ok response) =>
    s.missingBlocksSyncRequestDepth.contains requestId = true → response.version = protocolVersion →
      response.blocks ≠ [] → response.peerId = peer
  | .catchUpSyncResponse peer _ (.ok response) =>
    response.version = protocolVersion → response.peerId = peer
  | _ => True

/-- Where a message names its sender, what is done about it accuses its sender. -/
theorem accused_handleEvent {event : SwarmEvent} (hnames : s.NamesSender sc env event)
    (hmem : effect ∈ (s.handleEvent sc env event).2) (haccused : effect.accused = some peer) :
    ∀ sender ∈ event.sender, peer = sender := by
  intro sender hsender
  cases eventEffect_of_mem sc env hmem with
  | unreadable source propagationSource reason =>
    obtain rfl := Option.some.inj hsender
    exact (Option.some.inj haccused).symm.trans hnames
  | refused source propagationSource payload reason hrefuses =>
    obtain rfl := Option.some.inj hsender
    exact (Option.some.inj haccused).symm.trans (hnames hrefuses)
  | metaDataOutdated from_ named response hnamed hversion =>
    obtain rfl := Option.some.inj hsender
    exact hnames hversion peer (hnamed.trans haccused)
  | peerInfoOutdated from_ named response hnamed hversion =>
    obtain rfl := Option.some.inj hsender
    exact hnames peer (hnamed.trans haccused) (Or.inl hversion)
  | seedPeer from_ named response hnamed hdialed =>
    obtain rfl := Option.some.inj hsender
    obtain rfl := Option.some.inj haccused
    exact hnames named hnamed (Or.inr hdialed)
  | missingBlock from_ requestId response block depth hrequest hversion hblock =>
    obtain rfl := Option.some.inj hsender
    have hknown := KeyedMap.contains_iff.mpr ⟨_, KeyedMap.find?_of_mem_values hrequest⟩
    exact (Option.some.inj haccused).symm.trans
      (hnames hknown hversion (List.ne_nil_of_mem hblock))
  | noBlocks from_ requestId response hversion =>
    obtain rfl := Option.some.inj hsender
    exact (Option.some.inj haccused).symm.trans (hnames hversion)
  | noBlocksListed from_ requestId response hversion =>
    obtain rfl := Option.some.inj hsender
    exact (Option.some.inj haccused).symm.trans (hnames hversion)
  | blocks from_ requestId response task hversion hblocks hpeer halgo hpermit =>
    obtain rfl := Option.some.inj hsender
    exact (Option.some.inj haccused).symm.trans (hpeer.trans (hnames hversion))
  | unsupported from_ supportsCatchUpSync =>
    obtain rfl := Option.some.inj hsender
    exact (Option.some.inj haccused).symm
  -- these accuse nobody
  | panic _ _ _ => cases haccused
  | parentsMissing _ _ _ _ _ => cases haccused
  | catchUp _ _ _ _ => cases haccused
  -- these are not about a message
  | blacklisted _ _ => cases hsender
  | unreachable _ _ _ => cases hsender
  | shareChainSyncFailed _ _ _ _ => cases hsender
  | catchUpSyncFailed _ _ _ _ => cases hsender

theorem accused_handleInnerRequest {request : InnerRequest}
    (hmem : effect ∈ (s.handleInnerRequest sc env request).2)
    (haccused : effect.accused = some peer) : request.accused = some peer := by
  cases requestEffect_of_mem sc env hmem with
  | refused algo block sourcePeer depth => exact haccused
  | refusedListed algo block sourcePeer depth => exact haccused
  | missingBlocks _ _ _ _ => cases haccused
  | catchUp _ _ _ _ => cases haccused
  | panic _ _ _ _ => cases haccused
  | parentsMissing _ _ _ _ _ _ _ => cases haccused

theorem accused_stepTask {task : CatchUpTask} (hmem : effect ∈ (s.stepTask sc task).2.1)
    (haccused : effect.accused = some peer) : peer = task.peer := by
  cases taskEffect_of_mem sc hmem with
  | block _ => exact (Option.some.inj haccused).symm
  | goOn _ _ _ => cases haccused

end Service

namespace Net

variable {sc : ShareChain S} {net : Net S} {cause : Cause} {result : Service S × List Effect}

/-- Whoever was punished for a message is the peer that delivered it. -/
def OnlyOffenders (net : Net S) : Prop :=
  ∀ entry ∈ net.punished, ∀ sender ∈ entry.2, entry.1 = sender

/-- Nobody else than the peer that delivered a message is punished for it, or may still be. -/
structure Attributed (net : Net S) : Prop where
  punished : net.OnlyOffenders
  queue : ∀ entry ∈ net.queue, ∀ peer ∈ entry.1.accused, entry.2.Blames peer
  tasks : ∀ entry ∈ net.tasks, entry.2.Blames entry.1.peer

theorem deliveredBy_causeOf (event : SwarmEvent) : (net.causeOf event).deliveredBy = event.sender := by
  cases event <;> rfl

/-- Effects that accuse only the peer of their cause keep the attribution. -/
theorem Attributed.handled (h : net.Attributed)
    (hblames : ∀ effect ∈ result.2, ∀ peer, effect.accused = some peer → cause.Blames peer) :
    (net.handled cause result).Attributed where
  punished := by
    intro entry hmem sender hsender
    obtain hold | ⟨⟨effect, heffect, hpunishes⟩, hcause⟩ := mem_punished_handled.mp hmem
    · exact h.punished entry hold sender hsender
    · rw [hcause] at hsender
      exact hblames effect heffect _ (Effect.accused_of_punishes hpunishes) sender hsender
  queue := by
    intro entry hmem peer hpeer
    obtain hold | ⟨heffect, hcause⟩ := mem_queue_handled.mp hmem
    · exact h.queue entry hold peer hpeer
    · rw [hcause]
      exact hblames _ heffect peer hpeer
  tasks := by
    intro entry hmem
    obtain hold | ⟨heffect, hcause⟩ := mem_tasks_handled.mp hmem
    · exact h.tasks entry hold
    · rw [hcause]
      exact hblames _ heffect _ rfl

/-- Every step keeps the attribution if the message that it takes in names its sender. -/
theorem Attributed.step {input : Env × Input S} (h : net.Attributed)
    (hnames : ∀ event, input.2 = .event event → net.service.NamesSender sc input.1 event) :
    (net.step sc input).Attributed := by
  refine step_induction h ?_ ?_ ?_ (fun _ => ⟨h.punished, h.queue, h.tasks⟩)
    (fun _ _ => ⟨h.punished, h.queue, h.tasks⟩)
  · intro event hinput _
    refine h.handled fun effect hmem peer haccused => ?_
    rw [Cause.Blames, deliveredBy_causeOf]
    exact Service.accused_handleEvent sc input.1 (hnames event hinput) hmem haccused
  · intro request cause queue _ _ hqueue
    have hhead : (request, cause) ∈ net.queue := hqueue ▸ List.mem_cons_self
    have htail : ∀ entry ∈ queue, entry ∈ net.queue := fun entry hmem =>
      hqueue ▸ List.mem_cons_of_mem _ hmem
    have hpopped : ({ net with queue := queue } : Net S).Attributed :=
      ⟨h.punished, fun entry hmem => h.queue entry (htail entry hmem), h.tasks⟩
    refine hpopped.handled fun effect hmem peer haccused => ?_
    exact h.queue _ hhead peer (Service.accused_handleInnerRequest sc input.1 hmem haccused)
  · intro i task cause htaken
    have htask : cause.Blames task.peer := h.tasks _ (List.mem_of_getElem? htaken)
    have hnext : (net.withTask i cause (net.service.stepTask sc task).2.2).Attributed := by
      refine ⟨h.punished, h.queue, fun entry hmem => ?_⟩
      obtain hold | ⟨hentry, hcause⟩ := mem_tasks_withTask hmem
      · exact h.tasks entry hold
      · rw [hcause, (Service.stepTask_next sc hentry).1]
        exact htask
    rw [stepTask_eq]
    refine hnext.handled fun effect hmem peer haccused => ?_
    rw [Service.accused_stepTask sc hmem haccused]
    exact htask

/-- The service punishes nobody but the peer that sent the message, all along a run in which every
message that may get its named peer punished names the peer that delivers it. -/
theorem only_offenders_punished (sc : ShareChain S) (squad : String) (localPeerId : PeerId)
    (config : Config) (shareWindow : Nat) (chains : PowAlgorithm → S) (ops : List (Env × Input S))
    (hnames : ∀ pre op, Takes ops pre op → ∀ event, op.2 = .event event →
      (after (Net.step sc) (Net.start (Service.new squad localPeerId config shareWindow chains))
        pre).service.NamesSender sc op.1 event) :
    Along (Net.step sc) (Net.start (Service.new squad localPeerId config shareWindow chains)) ops
      OnlyOffenders := by
  have hstart : (Net.start (Service.new squad localPeerId config shareWindow chains)).Attributed :=
    ⟨fun _ hmem => absurd hmem List.not_mem_nil, fun _ hmem => absurd hmem List.not_mem_nil,
      fun _ hmem => absurd hmem List.not_mem_nil⟩
  have halong : Along (Net.step sc) _ ops Attributed :=
    along_of_step hstart fun pre op htakes h => h.step (hnames pre op htakes)
  exact fun pre hpre => (halong pre hpre).punished

/-- Peer 9 announces itself, and peer 7 is asked for blocks and answers without any, as a given
peer. -/
def emptyAnswer (named : PeerId) : List (Env × Input (InMemoryShareChain × P2Chain)) :=
  [(sampleEnv, .event (.gossip ⟨some 9, .peerInfo (some (sampleInfo 9 0 0))⟩ 9)),
    (sampleEnv, .event (.metaDataResponse 7 (.ok ⟨some 7, sampleInfo 7 3 5⟩))),
    (sampleEnv, .innerRequest),
    (sampleEnv, .event (.catchUpSyncResponse 7 0 (.ok
      { peerId := named, algo := 0, blocks := [], tip := (3, 3), achievedPow := some 5 })))]

/-- A run of `emptyAnswer`. -/
def answered (named : PeerId) : Net (InMemoryShareChain × P2Chain) :=
  after (Net.step (InMemoryShareChain.shareChain P2Chain.sampleCore))
    (Net.start (Service.new "default" 0 {} 10 sampleShareChains)) (emptyAnswer named)

/-- An answer without blocks that names another peer gets that peer blacklisted. -/
theorem another_peer_blacklisted :
    (answered 9).service.networkPeerStore.isBlacklisted 9 = true ∧
      (answered 9).service.networkPeerStore.isBlacklisted 7 = false ∧
      ¬Along (Net.step (InMemoryShareChain.shareChain P2Chain.sampleCore))
        (Net.start (Service.new "default" 0 {} 10 sampleShareChains)) (emptyAnswer 9)
        OnlyOffenders := by
  refine ⟨by decide, by decide, fun halong => ?_⟩
  have hpunished : ((9, some 7) : PeerId × Option PeerId) ∈ (answered 9).punished := by decide
  exact absurd (halong _ List.prefix_rfl _ hpunished 7 rfl) (by decide)

/-- The peer that answers without blocks under its own name is punished, and nobody else. -/
theorem only_offenders_sample :
    Along (Net.step (InMemoryShareChain.shareChain P2Chain.sampleCore))
      (Net.start (Service.new "default" 0 {} 10 sampleShareChains)) (emptyAnswer 7) OnlyOffenders ∧
      (answered 7).service.networkPeerStore.isBlacklisted 7 = true := by
  refine ⟨only_offenders_punished _ "default" 0 {} 10 sampleShareChains (emptyAnswer 7) ?_, by decide⟩
  intro pre op htakes event hevent
  have hmem : op ∈ emptyAnswer 7 := htakes.mem
  simp only [emptyAnswer, List.mem_cons, List.not_mem_nil, or_false] at hmem
  obtain rfl | rfl | rfl | rfl := hmem
  · cases hevent
    trivial
  · cases hevent
    exact fun h => absurd rfl h
  · cases hevent
  · cases hevent
    exact fun _ => rfl

end Net

end ShaP2Pool
