import ShaP2Pool.Server.Pool

/-!
# The topics of squads

The topics under which blocks are published carry the name of a squad, which may be any text.
Whatever the names are, a topic is never that of another squad or that of the peer infos: no topic
ends in what another kind of topic ends in, and before the ending stands nothing but the squad's
name.
-/

namespace ShaP2Pool

def topicEnding (topic : String) : List Char := topic.toList ++ '_' :: (toString protocolVersion).toList

def TariNetwork.opening (net : TariNetwork) : List Char :=
  net.network.toList ++ '_' :: net.chainId.toList ++ ['_']

def blockTopics : List String := [blockNotifyTopic, blockNotifyRxTopic, blockNotifySha3xTopic]

theorem eq_of_topicEnding_suffix :
    ∀ topic ∈ peerInfoTopic :: blockTopics, ∀ topic' ∈ peerInfoTopic :: blockTopics,
      topicEnding topic <:+ topicEnding topic' → topic = topic' := by
  decide

theorem eq_of_append_topicEnding {topic topic' : String} {xs ys : List Char}
    (hmem : topic ∈ peerInfoTopic :: blockTopics) (hmem' : topic' ∈ peerInfoTopic :: blockTopics)
    (h : xs ++ topicEnding topic = ys ++ topicEnding topic') : topic = topic' := by
  have hsuffix : topicEnding topic <:+ ys ++ topicEnding topic' := ⟨xs, h⟩
  obtain hle | hle := List.suffix_or_suffix_of_suffix hsuffix (List.suffix_append ys _)
  · exact eq_of_topicEnding_suffix topic hmem topic' hmem' hle
  · exact (eq_of_topicEnding_suffix topic' hmem' topic hmem hle).symm

namespace TariNetwork

variable {net : TariNetwork} {squad squad' topic topic' : String}

theorem toList_networkTopic :
    (net.networkTopic topic).toList = net.opening ++ topicEnding topic := by
  have hsep : ("_" : String).toList = ['_'] := rfl
  simp [networkTopic, opening, topicEnding, String.toList_append, hsep]

theorem toList_squadTopic :
    (net.squadTopic squad topic).toList =
      net.opening ++ (squad.toList ++ ['_']) ++ topicEnding topic := by
  have hsep : ("_" : String).toList = ['_'] := rfl
  simp [squadTopic, opening, topicEnding, String.toList_append, hsep]

theorem squadTopic_inj (hmem : topic ∈ blockTopics) (hmem' : topic' ∈ blockTopics) :
    net.squadTopic squad topic = net.squadTopic squad' topic' ↔ squad = squad' ∧ topic = topic' := by
  refine ⟨fun h => ?_, fun ⟨hsquad, htopic⟩ => by rw [hsquad, htopic]⟩
  have hchars := congrArg String.toList h
  rw [toList_squadTopic, toList_squadTopic] at hchars
  obtain rfl : topic = topic' := eq_of_append_topicEnding (List.mem_cons_of_mem _ hmem)
    (List.mem_cons_of_mem _ hmem') hchars
  have hsquads := List.append_cancel_right (List.append_cancel_left (List.append_cancel_right hchars))
  exact ⟨String.toList_injective hsquads, rfl⟩

theorem squadTopic_ne_networkTopic (hmem : topic ∈ blockTopics) :
    net.squadTopic squad topic ≠ net.networkTopic peerInfoTopic := by
  intro h
  have hchars := congrArg String.toList h
  rw [toList_squadTopic, toList_networkTopic] at hchars
  have heq : topic = peerInfoTopic := eq_of_append_topicEnding (List.mem_cons_of_mem _ hmem)
    List.mem_cons_self hchars
  have hother : peerInfoTopic ∉ blockTopics := by decide
  exact hother (heq ▸ hmem)

theorem mem_blockTopics : topic ∈ blockTopics ↔
    topic = blockNotifyTopic ∨ topic = blockNotifyRxTopic ∨ topic = blockNotifySha3xTopic := by
  rw [blockTopics, List.mem_cons, List.mem_cons, List.mem_singleton]

theorem squadTopic_eq_any (hmem : topic ∈ blockTopics) :
    (net.squadTopic squad topic = net.squadTopic squad' blockNotifyTopic ∨
      net.squadTopic squad topic = net.squadTopic squad' blockNotifyRxTopic ∨
      net.squadTopic squad topic = net.squadTopic squad' blockNotifySha3xTopic) ↔ squad = squad' := by
  rw [squadTopic_inj hmem (by decide), squadTopic_inj hmem (by decide),
    squadTopic_inj hmem (by decide), ← and_or_left, ← and_or_left]
  exact and_iff_left (mem_blockTopics.mp hmem)

theorem readGossip_squadTopic (hmem : topic ∈ blockTopics) (payload : NotifyNewTipBlock) :
    net.readGossip squad' (net.squadTopic squad topic) (.newTip payload) =
      if squad = squad' then .blockNotify (some payload) else .unknownTopic := by
  rw [readGossip, if_neg (squadTopic_ne_networkTopic hmem)]
  by_cases hsquad : squad = squad'
  · rw [if_pos ((squadTopic_eq_any hmem).mpr hsquad), if_pos hsquad]
  · rw [if_neg (mt (squadTopic_eq_any hmem).mp hsquad), if_neg hsquad]

theorem squadTopic_mem_subscriptions {config : Config} (hmem : topic ∈ blockTopics) :
    net.squadTopic squad topic ∈ net.subscriptions squad' config ↔
      squad = squad' ∧ (topic = blockNotifyTopic ∨
        (config.randomxEnabled = true ∧ topic = blockNotifyRxTopic) ∨
        (config.sha3xEnabled = true ∧ topic = blockNotifySha3xTopic)) := by
  have hoptional (enabled : Bool) {kind : String} (hkind : kind ∈ blockTopics) :
      net.squadTopic squad topic ∈ (if enabled then [net.squadTopic squad' kind] else []) ↔
        squad = squad' ∧ enabled = true ∧ topic = kind := by
    cases enabled with
    | false => simp
    | true => rw [if_pos rfl, List.mem_singleton, squadTopic_inj hmem hkind, and_iff_right rfl]
  rw [subscriptions, List.mem_append, List.mem_append, hoptional _ (by decide),
    hoptional _ (by decide), List.mem_cons, or_iff_right (squadTopic_ne_networkTopic hmem),
    List.mem_singleton, squadTopic_inj hmem (by decide), or_assoc, ← and_or_left, ← and_or_left]

end TariNetwork

def topicOfBlock (block : P2Block) : String :=
  if block.version ≤ 35 then blockNotifyTopic
  else
    match block.originalHeader.powAlgo with
    | .randomX => blockNotifyRxTopic
    | .sha3x => blockNotifySha3xTopic

theorem topicOfBlock_mem (block : P2Block) : topicOfBlock block ∈ blockTopics := by
  rw [topicOfBlock]
  split_ifs
  · decide
  · cases block.originalHeader.powAlgo <;> decide

/-- A node of the squad takes part in the algorithm of a block, if its version tells algorithms
apart. -/
def Config.takes (config : Config) (block : P2Block) : Prop :=
  35 < block.version → config.enabled block.originalHeader.powAlgo = true

instance (config : Config) (block : P2Block) : Decidable (config.takes block) :=
  inferInstanceAs (Decidable (_ → _))

theorem Config.takes_iff {config : Config} {block : P2Block} : config.takes block ↔
    topicOfBlock block = blockNotifyTopic ∨
      (config.randomxEnabled = true ∧ topicOfBlock block = blockNotifyRxTopic) ∨
      (config.sha3xEnabled = true ∧ topicOfBlock block = blockNotifySha3xTopic) := by
  have hkinds : blockNotifyRxTopic ≠ blockNotifyTopic ∧ blockNotifySha3xTopic ≠ blockNotifyTopic ∧
      blockNotifyRxTopic ≠ blockNotifySha3xTopic := by decide
  obtain ⟨hrx, hsha3x, hboth⟩ := hkinds
  rw [takes, topicOfBlock]
  by_cases hversion : block.version ≤ 35
  · rw [if_pos hversion]
    exact iff_of_true (fun h => absurd h (Nat.not_lt.mpr hversion)) (Or.inl rfl)
  · rw [if_neg hversion, forall_prop_of_true (Nat.lt_of_not_le hversion)]
    cases block.originalHeader.powAlgo with
    | randomX => simp [enabled, hrx, hboth]
    | sha3x => simp [enabled, hsha3x, hboth.symm]

namespace Service

variable {S : Type} {s s' : Service S} {tari : TariNetwork} {block : P2Block}

theorem blockTopic_eq : s.blockTopic tari block = tari.squadTopic s.squad (topicOfBlock block) := by
  rw [blockTopic, topicOfBlock]
  split_ifs
  · rfl
  · cases block.originalHeader.powAlgo <;> rfl

theorem blockTopic_mem_subscriptions :
    s.blockTopic tari block ∈ tari.subscriptions s'.squad s'.config ↔
      s.squad = s'.squad ∧ s'.config.takes block := by
  rw [blockTopic_eq, TariNetwork.squadTopic_mem_subscriptions (topicOfBlock_mem block),
    Config.takes_iff]

end Service

namespace Pool

variable {S : Type} (sc : ServingChain S) (tari : TariNetwork)

/-- A published block is taken as a block notification by every node of the publisher's squad that
takes part in the block's algorithm, and no other node takes any notice of it, whatever the names of
the squads are. -/
theorem receive_published (pool : Pool S) (publisher p via : PeerId) (env env' : Env)
    (block : P2Block) :
    let author := (pool.nodes publisher).net.service
    let reader := (pool.nodes p).net.service
    pool.receive sc tari p via env'
        (.gossip (author.blockTopic tari block) (some publisher)
          (.newTip (author.newTipMessage env block))) =
      if author.squad = reader.squad ∧ reader.config.takes block then
        pool.proceed sc p env' (.event
          (.gossip ⟨some publisher, .blockNotify (some (author.newTipMessage env block))⟩ via))
      else pool := by
  intro author reader
  rw [receive]
  by_cases hreaches : author.squad = reader.squad ∧ reader.config.takes block
  · rw [if_pos hreaches, if_pos (Service.blockTopic_mem_subscriptions.mpr hreaches),
      Service.blockTopic_eq, TariNetwork.readGossip_squadTopic (topicOfBlock_mem block),
      if_pos hreaches.1]
  · rw [if_neg hreaches, if_neg (mt Service.blockTopic_mem_subscriptions.mp hreaches)]

end Pool

end ShaP2Pool
