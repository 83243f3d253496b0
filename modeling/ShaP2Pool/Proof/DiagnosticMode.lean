import ShaP2Pool.Proof.Peers
import ShaP2Pool.Server.DiagnosticMode

/-!
# Runs of the diagnostic mode

Every state but the last has a limit after which the next tick leaves it, so that the mode ends by a
deadline if it ticks without long gaps, whatever peers do. On its way it dials every private peer
that the swarm takes, and every relay, once, and none before a seed peer was connected.
-/

namespace ShaP2Pool

namespace DiagnosticState

def limit : DiagnosticState → Nat
  | connectToSeedPeers | connectToPrivatePeers | connectToRelayPeers => connectTimeout
  | waitForSeedPeersDownload | waitForPrivatePeersDownload | waitForRelayPeersDownload =>
    responseTimeout
  | done => 0

/-- How long it takes from a state to the last one, with the gaps between ticks. -/
def budget (gap : Nat) : DiagnosticState → Nat
  | connectToSeedPeers => 3 * (connectTimeout + responseTimeout + 2 * gap)
  | waitForSeedPeersDownload => 2 * (connectTimeout + responseTimeout + 2 * gap) + responseTimeout + gap
  | connectToPrivatePeers => 2 * (connectTimeout + responseTimeout + 2 * gap)
  | waitForPrivatePeersDownload => connectTimeout + responseTimeout + 2 * gap + responseTimeout + gap
  | connectToRelayPeers => connectTimeout + responseTimeout + 2 * gap
  | waitForRelayPeersDownload => responseTimeout + gap
  | done => 0

theorem budget_next {s : DiagnosticState} (gap : Nat) (hs : s ≠ done) :
    s.successNextState.budget gap + s.limit + gap ≤ s.budget gap ∧
      s.failedNextState.budget gap + s.limit + gap ≤ s.budget gap := by
  cases s with
  | done => exact absurd rfl hs
  | _ =>
    simp only [successNextState, failedNextState, budget, limit]
    omega

end DiagnosticState

namespace DiagnosticMode

variable {localPeerId : PeerId} {m m' : DiagnosticMode} {t : DiagnosticTick}
  {ticks : List DiagnosticTick} {effects more : List DiagnosticEffect} {elapsed begin gap : Nat}
  {p : PeerId} {peerType peerType' : PeerType} {isRelay : Bool}

/-! ### Verdicts -/

def verdict (m : DiagnosticMode) (t : DiagnosticTick) : Option Bool :=
  let elapsed := t.now - m.start
  let connected (peerType : PeerType) := t.collector.map (·.getConnectedPeers peerType)
  match m.diagnosticState with
  | .connectToSeedPeers => (connected .seedPeer).bind (seedsConnected elapsed)
  | .waitForSeedPeersDownload => seedsAnswered elapsed (diagnosticInfo t .seedPeer)
  | .connectToPrivatePeers => (connected .privatePeer).bind (peersConnected elapsed)
  | .waitForPrivatePeersDownload => peersAnswered elapsed (diagnosticInfo t .privatePeer)
  | .connectToRelayPeers => (connected .relayPeer).bind (peersConnected elapsed)
  | .waitForRelayPeersDownload => peersAnswered elapsed (diagnosticInfo t .relayPeer)
  | .done => none

theorem answered_isSome {enough : Bool} {seenCount : Nat} (h : responseTimeout < elapsed) :
    (answered elapsed enough seenCount).isSome = true := by
  rw [answered]
  split_ifs <;> rfl

theorem seedsConnected_isSome {seeds : List PeerId} (h : connectTimeout < elapsed) :
    (seedsConnected elapsed seeds).isSome = true := by
  rw [seedsConnected]
  split_ifs <;> rfl

theorem peersConnected_isSome {peers : List PeerId} (h : connectTimeout < elapsed) :
    (peersConnected elapsed peers).isSome = true := by
  rw [peersConnected]
  cases hempty : peers.isEmpty with
  | true => split_ifs <;> simp_all
  | false => simp [h]

theorem verdict_isSome (hcollector : t.collector.isSome = true)
    (hdone : m.diagnosticState ≠ .done) (hlate : m.diagnosticState.limit < t.now - m.start) :
    (m.verdict t).isSome = true := by
  obtain ⟨c, hc⟩ := Option.isSome_iff_exists.mp hcollector
  rw [verdict, hc]
  cases hstate : m.diagnosticState with
  | done => exact absurd hstate hdone
  | connectToSeedPeers =>
    rw [hstate] at hlate
    exact seedsConnected_isSome hlate
  | connectToPrivatePeers | connectToRelayPeers =>
    rw [hstate] at hlate
    exact peersConnected_isSome hlate
  | waitForSeedPeersDownload | waitForPrivatePeersDownload | waitForRelayPeersDownload =>
    rw [hstate] at hlate
    exact answered_isSome hlate

@[simp] theorem proceed_dialedSeedPeers (m : DiagnosticMode) (now : Instant) (v : Option Bool) :
    (m.proceed now v).dialedSeedPeers = m.dialedSeedPeers := by
  obtain _ | _ | _ := v <;> rfl

@[simp] theorem proceed_dialedPrivatePeers (m : DiagnosticMode) (now : Instant) (v : Option Bool) :
    (m.proceed now v).dialedPrivatePeers = m.dialedPrivatePeers := by
  obtain _ | _ | _ := v <;> rfl

@[simp] theorem proceed_dialedRelayPeers (m : DiagnosticMode) (now : Instant) (v : Option Bool) :
    (m.proceed now v).dialedRelayPeers = m.dialedRelayPeers := by
  obtain _ | _ | _ := v <;> rfl

theorem proceed_cases (m : DiagnosticMode) (now : Instant) (v : Option Bool) :
    (v = none ∧ (m.proceed now v).diagnosticState = m.diagnosticState ∧
      (m.proceed now v).start = m.start) ∨
    (v.isSome = true ∧ ((m.proceed now v).diagnosticState = m.diagnosticState.successNextState ∨
      (m.proceed now v).diagnosticState = m.diagnosticState.failedNextState) ∧
      (m.proceed now v).start = now) := by
  obtain _ | _ | _ := v
  · exact Or.inl ⟨rfl, rfl, rfl⟩
  · exact Or.inr ⟨rfl, Or.inr rfl, rfl⟩
  · exact Or.inr ⟨rfl, Or.inl rfl, rfl⟩

/-! ### Ticks -/

/-- The variables of the dials after a tick, and what it dials: seed peers in the first state unless
there are dialed ones, and private peers and relays in theirs. -/
theorem step_cases (hstep : m.step localPeerId t = .ok (m', effects)) :
    ∃ m₁, m' = m₁.proceed t.now (m.verdict t) ∧ m₁.diagnosticState = m.diagnosticState ∧
      m₁.start = m.start ∧
      ((m.diagnosticState = .connectToSeedPeers ∧ m.dialedSeedPeers = [] ∧
        ∃ seeds, t.seedPeers = .ok seeds ∧ m₁ = { m with dialedSeedPeers := seeds } ∧
          effects = .addSeedPeers seeds :: dialAll t .seedPeer seeds) ∨
      (m.diagnosticState = .connectToPrivatePeers ∧
        m₁ = { m with dialedPrivatePeers := m.dialedPrivatePeers ++
          (m.peersToDial localPeerId t false m.dialedPrivatePeers).filter t.dialIsOk } ∧
        effects = dialAll t .privatePeer (m.peersToDial localPeerId t false m.dialedPrivatePeers)) ∨
      (m.diagnosticState = .connectToRelayPeers ∧
        m₁ = { m with dialedRelayPeers := m.dialedRelayPeers ++
          m.peersToDial localPeerId t true m.dialedRelayPeers } ∧
        effects = dialAll t .relayPeer (m.peersToDial localPeerId t true m.dialedRelayPeers)) ∨
      (m.diagnosticState = .done ∧ m₁ = m ∧
        effects = [.writeReport (report t), .triggerShutdown]) ∨
      (m.diagnosticState ≠ .done ∧ m₁ = m ∧ effects = [])) := by
  obtain ⟨state, start, dialedSeeds, dialedPrivates, dialedRelays⟩ := m
  cases state with
  | connectToSeedPeers =>
    simp only [step, dialSeedPeers] at hstep
    split_ifs at hstep with hempty
    · cases hseeds : t.seedPeers with
      | error e => simp [hseeds] at hstep
      | ok seeds =>
        simp only [hseeds, Except.ok.injEq, Prod.mk.injEq] at hstep
        obtain ⟨rfl, rfl⟩ := hstep
        exact ⟨_, rfl, rfl, rfl, Or.inl ⟨rfl, List.isEmpty_iff.mp hempty, seeds, rfl, rfl, rfl⟩⟩
    · cases hstep
      exact ⟨_, rfl, rfl, rfl, Or.inr (Or.inr (Or.inr (Or.inr ⟨nofun, rfl, rfl⟩)))⟩
  | connectToPrivatePeers =>
    cases hstep
    exact ⟨_, rfl, rfl, rfl, Or.inr (Or.inl ⟨rfl, rfl, rfl⟩)⟩
  | connectToRelayPeers =>
    cases hstep
    exact ⟨_, rfl, rfl, rfl, Or.inr (Or.inr (Or.inl ⟨rfl, rfl, rfl⟩))⟩
  | done =>
    cases hstep
    exact ⟨_, rfl, rfl, rfl, Or.inr (Or.inr (Or.inr (Or.inl ⟨rfl, rfl, rfl⟩)))⟩
  | waitForSeedPeersDownload | waitForPrivatePeersDownload | waitForRelayPeersDownload =>
    cases hstep
    exact ⟨_, rfl, rfl, rfl, Or.inr (Or.inr (Or.inr (Or.inr ⟨nofun, rfl, rfl⟩)))⟩

theorem step_state (hstep : m.step localPeerId t = .ok (m', effects)) :
    (m.verdict t = none ∧ m'.diagnosticState = m.diagnosticState ∧ m'.start = m.start) ∨
    ((m.verdict t).isSome = true ∧ (m'.diagnosticState = m.diagnosticState.successNextState ∨
      m'.diagnosticState = m.diagnosticState.failedNextState) ∧ m'.start = t.now) := by
  obtain ⟨m₁, rfl, hstate, hstart, -⟩ := step_cases hstep
  rw [← hstate, ← hstart]
  exact m₁.proceed_cases t.now (m.verdict t)

/-! ### The end -/

/-- The runs of the mode, the last tick first, with all that they have done. -/
inductive DiagnosticRun (localPeerId : PeerId) (begin : Instant) :
    List DiagnosticTick → DiagnosticMode → List DiagnosticEffect → Prop
  | start : DiagnosticRun localPeerId begin [] { start := begin } []
  | tick {ticks : List DiagnosticTick} {m m' : DiagnosticMode} {effects more : List DiagnosticEffect}
    (t : DiagnosticTick) (hrun : DiagnosticRun localPeerId begin ticks m effects)
    (hstep : m.step localPeerId t = .ok (m', more)) :
    DiagnosticRun localPeerId begin (t :: ticks) m' (effects ++ more)

def seedCollector : DiagnosticsCollector :=
  [(1, .peerConnected 7 .seedPeer 1), (2, .peerRequest 7 .seedPeer 2),
    (3, .peerResponse 7 .seedPeer 1 1 3)].foldl DiagnosticsCollector.receive DiagnosticsCollector.new

def sampleTick (seconds : Nat) : DiagnosticTick where
  now := durationFromSecs seconds
  ord := .stored
  seedPeers := .ok [7]
  store := ((PeerStore.new "default").add 0 5 { squad := "default" }).1
  relays := .empty
  dialIsOk _ := true
  collector := some seedCollector

def sampleTicks : Nat → List DiagnosticTick
  | 0 => []
  | n + 1 => sampleTick (1000 * (n + 1)) :: sampleTicks n

theorem exists_sampleRun : ∃ m effects, DiagnosticRun 0 0 (sampleTicks 7) m effects ∧
    m.dialedPrivatePeers = [5] := by
  have hrun : DiagnosticRun 0 0 [] { start := 0 } [] := .start
  have hrun₁ := hrun.tick (sampleTick 1000) rfl
  have hrun₂ := hrun₁.tick (sampleTick 2000) rfl
  have hrun₃ := hrun₂.tick (sampleTick 3000) rfl
  have hrun₄ := hrun₃.tick (sampleTick 4000) rfl
  have hrun₅ := hrun₄.tick (sampleTick 5000) rfl
  have hrun₆ := hrun₅.tick (sampleTick 6000) rfl
  have hrun₇ := hrun₆.tick (sampleTick 7000) rfl
  exact ⟨_, _, hrun₇, rfl⟩

def lastTime (begin : Instant) (ticks : List DiagnosticTick) : Instant :=
  (ticks.head?.map (·.now)).getD begin

/-- The clock does not go back, no two ticks are further apart than `gap`, and the collector
answers. -/
inductive Steady (begin : Instant) (gap : Nat) : List DiagnosticTick → Prop
  | nil : Steady begin gap []
  | cons {ticks : List DiagnosticTick} {t : DiagnosticTick} (hticks : Steady begin gap ticks)
    (hlater : lastTime begin ticks ≤ t.now) (hsoon : t.now ≤ lastTime begin ticks + gap)
    (hcollector : t.collector.isSome = true) : Steady begin gap (t :: ticks)

/-- The time that is left is enough for the states to come. -/
structure OnTime (begin : Instant) (gap : Nat) (last : Instant) (m : DiagnosticMode) : Prop where
  start_le : m.start ≤ last
  budget : m.start + m.diagnosticState.budget gap ≤
    begin + DiagnosticState.connectToSeedPeers.budget gap
  limit : m.diagnosticState ≠ .done → last ≤ m.start + m.diagnosticState.limit

theorem OnTime.step {last : Instant} (h : OnTime begin gap last m) (hlater : last ≤ t.now)
    (hsoon : t.now ≤ last + gap) (hcollector : t.collector.isSome = true)
    (hstep : m.step localPeerId t = .ok (m', effects)) : OnTime begin gap t.now m' := by
  have hbudget := h.budget
  obtain ⟨hnone, hstate, hstart⟩ | ⟨hsome, hnext, hstart⟩ := step_state hstep
  · refine ⟨hstart ▸ h.start_le.trans hlater, by rw [hstart, hstate]; exact hbudget, fun hdone => ?_⟩
    rw [hstate] at hdone ⊢
    rw [hstart]
    -- past its limit the state would have got a verdict
    by_contra hlate
    have hverdict := verdict_isSome hcollector hdone (by
      unfold Instant at *
      omega)
    rw [hnone] at hverdict
    cases hverdict
  · have hdone : m.diagnosticState ≠ .done := by
      intro hdone
      rw [verdict, hdone] at hsome
      cases hsome
    obtain ⟨hsuccess, hfailed⟩ := DiagnosticState.budget_next gap hdone
    have hlimit := h.limit hdone
    refine ⟨hstart.le, ?_, fun _ => hstart ▸ Nat.le_add_right _ _⟩
    unfold Instant at *
    obtain hnext | hnext := hnext <;> rw [hnext, hstart] <;> omega

theorem DiagnosticRun.onTime (hrun : DiagnosticRun localPeerId begin ticks m effects)
    (hsteady : Steady begin gap ticks) : OnTime begin gap (lastTime begin ticks) m := by
  induction hrun with
  | start => exact ⟨Nat.le_refl _, Nat.le_refl _, fun _ => Nat.le_add_right _ _⟩
  | tick t _ hstep ih =>
    cases hsteady with
    | cons hticks hlater hsoon hcollector =>
      exact (ih hticks).step hlater hsoon hcollector hstep

/-- The mode is done after 630 seconds and six gaps between ticks, whatever the peers, the stores
and the swarm do, and every tick from then on writes the report and shuts the node down. -/
theorem diagnosticRun_ends (hrun : DiagnosticRun localPeerId begin ticks m effects)
    (hsteady : Steady begin gap (t :: ticks))
    (hlate : begin + durationFromSecs 630 + 6 * gap < t.now) :
    m.diagnosticState = .done ∧
      m.step localPeerId t = .ok (m, [.writeReport (report t), .triggerShutdown]) := by
  cases hsteady with
  | cons hticks hlater hsoon hcollector =>
    have hdone : m.diagnosticState = .done := by
      by_contra hdone
      have htime := hrun.onTime hticks
      have hbudget := htime.budget
      have hlimit := htime.limit hdone
      have hnext := (DiagnosticState.budget_next gap hdone).1
      have htotal : DiagnosticState.connectToSeedPeers.budget gap = durationFromSecs 630 + 6 * gap := by
        simp only [DiagnosticState.budget, connectTimeout, responseTimeout, durationFromSecs]
        omega
      unfold Instant at *
      omega
    refine ⟨hdone, ?_⟩
    rw [step, hdone]

theorem steady_sampleTicks (n : Nat) : Steady 0 (durationFromSecs 1000) (sampleTicks n) := by
  induction n with
  | zero => exact .nil
  | succ n ih =>
    have hlast : lastTime 0 (sampleTicks n) = durationFromSecs (1000 * n) := by
      cases n <;> rfl
    have hnow : (sampleTick (1000 * (n + 1))).now =
        durationFromSecs (1000 * n) + durationFromSecs 1000 := by
      rw [sampleTick, Nat.mul_succ, durationFromSecs, Nat.add_mul]
      rfl
    refine .cons ih ?_ ?_ rfl <;> rw [hlast, hnow]
    exact Nat.le_add_right _ _

/-- The mode is done after seven ticks with 1000 seconds between them. -/
theorem diagnosticRun_ends_seven : ∃ m effects, DiagnosticRun 0 0 (sampleTicks 7) m effects ∧
    m.diagnosticState = .done := by
  obtain ⟨m, effects, hrun, -⟩ := exists_sampleRun
  exact ⟨m, effects, hrun, (diagnosticRun_ends hrun (steady_sampleTicks 8) (by decide)).1⟩

/-! ### Dials -/

def dialed (peerType : PeerType) (effects : List DiagnosticEffect) : List PeerId :=
  effects.filterMap fun
    | .dial peer peerType' => if peerType' = peerType then some peer else none
    | _ => none

def announced (peerType : PeerType) (effects : List DiagnosticEffect) : List PeerId :=
  effects.filterMap fun
    | .sendNewPeer peer peerType' => if peerType' = peerType then some peer else none
    | _ => none

@[simp] theorem dialed_append : dialed peerType (effects ++ more) =
    dialed peerType effects ++ dialed peerType more := List.filterMap_append

@[simp] theorem announced_append : announced peerType (effects ++ more) =
    announced peerType effects ++ announced peerType more := List.filterMap_append

theorem dialed_dialAll (t : DiagnosticTick) (peers : List PeerId) :
    dialed peerType (dialAll t peerType' peers) = if peerType' = peerType then peers else [] := by
  induction peers with
  | nil => split_ifs <;> rfl
  | cons peer peers ih =>
    rw [dialAll, List.flatMap_cons, dialed_append, ← dialAll, ih]
    by_cases htype : peerType' = peerType <;> by_cases hok : t.dialIsOk peer = true <;>
      simp [dialed, htype, hok]

theorem announced_dialAll (t : DiagnosticTick) (peers : List PeerId) :
    announced peerType (dialAll t peerType' peers) =
      if peerType' = peerType then peers.filter t.dialIsOk else [] := by
  induction peers with
  | nil => split_ifs <;> rfl
  | cons peer peers ih =>
    rw [dialAll, List.flatMap_cons, announced_append, ← dialAll, ih]
    by_cases htype : peerType' = peerType <;> by_cases hok : t.dialIsOk peer = true <;>
      simp [announced, htype, hok]

theorem mem_dialed_dialAll (isRelay isRelay' : Bool) {peers : List PeerId}
    (hp : p ∈ dialed (if isRelay then .relayPeer else .privatePeer)
      (dialAll t (if isRelay' then .relayPeer else .privatePeer) peers)) :
    isRelay = isRelay' ∧ p ∈ peers := by
  rw [dialed_dialAll] at hp
  cases isRelay <;> cases isRelay' <;> simp_all

/-- The peer is on a list of the squad, and it is a relay or it is not. -/
def FoundAt (t : DiagnosticTick) (isRelay : Bool) (p : PeerId) : Prop :=
  (∃ l, l ≠ PeerList.nonSquad ∧ t.store.Listed l p) ∧
    (p ∈ t.relays.getRelayPeerIds .stored t.now ↔ isRelay = true)

theorem nodup_sameSquad {s : PeerStore} (h : s.Exclusive) :
    (s.getKnownSameSquadPeerRecords.map (·.peerId)).Nodup := by
  have hlisted {l : PeerList} {p : PeerId} (hp : p ∈ (s.list l).values.map (·.peerId)) :
      s.Listed l p := by
    obtain ⟨r, hr, rfl⟩ := List.mem_map.mp hp
    exact PeerStore.listed_iff.mpr ⟨r, KeyedMap.find?_of_mem_values hr⟩
  rw [PeerStore.getKnownSameSquadPeerRecords, List.map_append, List.map_append, List.nodup_append,
    List.nodup_append]
  refine ⟨⟨s.whitelistPeers.nodup, s.greylistPeers.nodup, ?_⟩, s.blacklistPeers.nodup, ?_⟩
  · rintro p hwhite q hgrey rfl
    cases h p .whitelist .greylist (hlisted hwhite) (hlisted hgrey)
  · rintro p hp q hblack rfl
    obtain hwhite | hgrey := List.mem_append.mp hp
    · cases h p .whitelist .blacklist (hlisted hwhite) (hlisted hblack)
    · cases h p .greylist .blacklist (hlisted hgrey) (hlisted hblack)

theorem mem_sameSquad {s : PeerStore} {r : PeerStoreRecord}
    (h : r ∈ s.getKnownSameSquadPeerRecords) :
    ∃ l, l ≠ PeerList.nonSquad ∧ s.Listed l r.peerId := by
  have hlisted {l : PeerList} (hr : r ∈ (s.list l).values) : s.Listed l r.peerId :=
    PeerStore.listed_iff.mpr ⟨r, KeyedMap.find?_of_mem_values hr⟩
  obtain h | hblack := List.mem_append.mp h
  · obtain hwhite | hgrey := List.mem_append.mp h
    · exact ⟨.whitelist, nofun, hlisted hwhite⟩
    · exact ⟨.greylist, nofun, hlisted hgrey⟩
  · exact ⟨.blacklist, nofun, hlisted hblack⟩

theorem nodup_peersToDial {already : List PeerId} (h : t.store.Exclusive) :
    (m.peersToDial localPeerId t isRelay already).Nodup := by
  have hrecords : ((getSameSquadPeerRecords localPeerId t m.dialedSeedPeers isRelay).map
      (·.peerId)).Nodup := (nodup_sameSquad h).sublist (List.filter_sublist.map _)
  have hchosen := ((t.ord.perm 0 _).map PeerStoreRecord.peerId).nodup_iff.mpr hrecords
  exact hchosen.sublist ((List.filter_sublist.trans (List.take_sublist _ _)).map _)

theorem mem_peersToDial {already : List PeerId} (h : p ∈ m.peersToDial localPeerId t isRelay already) :
    p ∉ already ∧ p ≠ localPeerId ∧ p ∉ m.dialedSeedPeers ∧ FoundAt t isRelay p := by
  obtain ⟨r, hr, rfl⟩ := List.mem_map.mp h
  obtain ⟨hchosen, hnew⟩ := List.mem_filter.mp hr
  have hrecord := (t.ord.mem_run 0).mp (List.mem_of_mem_take hchosen)
  obtain ⟨hknown, hfilter⟩ := List.mem_filter.mp hrecord
  simp only [Bool.and_eq_true, Bool.not_eq_true', List.contains_eq_mem, List.mem_append,
    List.mem_singleton, decide_eq_false_iff_not, not_or, beq_iff_eq] at hfilter hnew
  refine ⟨hnew, hfilter.1.2, hfilter.1.1, mem_sameSquad hknown, ?_⟩
  rw [hfilter.2, decide_eq_true_eq]

def SeedConnected (t : DiagnosticTick) : Prop :=
  ∃ c, t.collector = some c ∧ c.getConnectedPeers .seedPeer ≠ []

/-- The tick `t` of the run dials `p`. -/
def DialedAt (localPeerId : PeerId) (begin : Instant) (ticks : List DiagnosticTick)
    (t : DiagnosticTick) (isRelay : Bool) (p : PeerId) : Prop :=
  ∃ later earlier m m' effects more, ticks = later ++ t :: earlier ∧
    DiagnosticRun localPeerId begin earlier m effects ∧ m.step localPeerId t = .ok (m', more) ∧
    p ∈ dialed (if isRelay then .relayPeer else .privatePeer) more

/-- What a run has dialed. -/
structure Dials (localPeerId : PeerId) (begin : Instant) (ticks : List DiagnosticTick)
    (m : DiagnosticMode) (effects : List DiagnosticEffect) : Prop where
  seeds : dialed .seedPeer effects = m.dialedSeedPeers
  privatePeers : announced .privatePeer effects = m.dialedPrivatePeers
  relays : dialed .relayPeer effects = m.dialedRelayPeers
  privatePeersOnce : m.dialedPrivatePeers.Nodup
  relaysOnce : m.dialedRelayPeers.Nodup
  first : m.diagnosticState = .connectToSeedPeers →
    dialed .privatePeer effects = [] ∧ dialed .relayPeer effects = []
  found : ∀ isRelay, ∀ p ∈ dialed (if isRelay then .relayPeer else .privatePeer) effects,
    p ≠ localPeerId ∧ p ∉ m.dialedSeedPeers ∧ ∃ t, DialedAt localPeerId begin ticks t isRelay p
  foundAt : ∀ isRelay t p, DialedAt localPeerId begin ticks t isRelay p → FoundAt t isRelay p
  connected : m.diagnosticState ≠ .connectToSeedPeers → m.diagnosticState ≠ .done →
    ∃ t ∈ ticks, SeedConnected t
  late : dialed .privatePeer effects ++ dialed .relayPeer effects ≠ [] → ∃ t ∈ ticks, SeedConnected t

theorem Dials.start (localPeerId : PeerId) (begin : Instant) :
    Dials localPeerId begin [] { start := begin } [] where
  seeds := rfl
  privatePeers := rfl
  relays := rfl
  privatePeersOnce := List.nodup_nil
  relaysOnce := List.nodup_nil
  first _ := ⟨rfl, rfl⟩
  found _ _ hp := (List.not_mem_nil hp).elim
  foundAt _ _ _ hdial := by
    obtain ⟨later, earlier, m, m', effects, more, hticks, -⟩ := hdial
    simp at hticks
  connected hfirst := absurd rfl hfirst
  late hne := absurd rfl hne

theorem connected_of_step (hstep : m.step localPeerId t = .ok (m', effects))
    (hstate : m.diagnosticState = .connectToSeedPeers)
    (hfirst : m'.diagnosticState ≠ .connectToSeedPeers) (hdone : m'.diagnosticState ≠ .done) :
    SeedConnected t := by
  obtain ⟨m₁, rfl, hstate₁, -, -⟩ := step_cases hstep
  rw [hstate] at hstate₁
  rw [verdict, hstate] at hfirst hdone
  simp only at hfirst hdone
  cases hc : t.collector with
  | none =>
    rw [hc] at hfirst
    exact absurd hstate₁ hfirst
  | some c =>
    refine ⟨c, hc, fun hnone => ?_⟩
    rw [hc, Option.map_some, Option.bind_some, hnone, seedsConnected] at hfirst hdone
    simp only [List.isEmpty_nil, Bool.not_true, Bool.and_false, Bool.false_eq_true,
      if_false] at hfirst hdone
    split_ifs at hfirst hdone with hlate
    · exact hdone (by rw [proceed, hstate₁]; rfl)
    · exact hfirst hstate₁

structure TickDials (localPeerId : PeerId) (t : DiagnosticTick) (m m' : DiagnosticMode)
    (effects : List DiagnosticEffect) : Prop where
  seeds : m.dialedSeedPeers ++ dialed .seedPeer effects = m'.dialedSeedPeers
  privatePeers : m.dialedPrivatePeers ++ announced .privatePeer effects = m'.dialedPrivatePeers
  relays : m.dialedRelayPeers ++ dialed .relayPeer effects = m'.dialedRelayPeers
  privatePeersNew : (announced .privatePeer effects).Nodup ∧
    ∀ p ∈ announced .privatePeer effects, p ∉ m.dialedPrivatePeers
  relaysNew : (dialed .relayPeer effects).Nodup ∧
    ∀ p ∈ dialed .relayPeer effects, p ∉ m.dialedRelayPeers
  kept : m.diagnosticState ≠ .connectToSeedPeers → m'.dialedSeedPeers = m.dialedSeedPeers
  found : ∀ isRelay, ∀ p ∈ dialed (if isRelay then .relayPeer else .privatePeer) effects,
    p ≠ localPeerId ∧ p ∉ m.dialedSeedPeers ∧ FoundAt t isRelay p
  late : dialed .privatePeer effects ++ dialed .relayPeer effects ≠ [] →
    m.diagnosticState ≠ .connectToSeedPeers ∧ m.diagnosticState ≠ .done

theorem TickDials.of_quiet {localPeerId : PeerId} (v : Option Bool)
    (hquiet : ∀ peerType, dialed peerType effects = [] ∧ announced peerType effects = []) :
    TickDials localPeerId t m (m.proceed t.now v) effects where
  seeds := by simp [hquiet]
  privatePeers := by simp [hquiet]
  relays := by simp [hquiet]
  privatePeersNew := by simp [hquiet]
  relaysNew := by simp [hquiet]
  kept _ := proceed_dialedSeedPeers _ _ _
  found isRelay p hp := by
    rw [(hquiet _).1] at hp
    cases hp
  late hne := by simp [hquiet] at hne

theorem tickDials_of_step (hstore : t.store.Exclusive)
    (hstep : m.step localPeerId t = .ok (m', effects)) :
    TickDials localPeerId t m m' effects := by
  obtain ⟨m₁, rfl, -, -, hcases⟩ := step_cases hstep
  obtain ⟨hstate, hnone, seeds, -, rfl, rfl⟩ | ⟨hstate, rfl, rfl⟩ | ⟨hstate, rfl, rfl⟩ |
    ⟨-, rfl, rfl⟩ | ⟨-, rfl, rfl⟩ := hcases
  · have hseed : dialed .seedPeer (.addSeedPeers seeds :: dialAll t .seedPeer seeds) = seeds :=
      dialed_dialAll t seeds
    have hdialed (peerType : PeerType) (hne : PeerType.seedPeer ≠ peerType) :
        dialed peerType (.addSeedPeers seeds :: dialAll t .seedPeer seeds) = [] :=
      (dialed_dialAll t seeds).trans (if_neg hne)
    have hannounced :
        announced .privatePeer (.addSeedPeers seeds :: dialAll t .seedPeer seeds) = [] :=
      announced_dialAll t seeds
    have hprivate := hdialed .privatePeer (by decide)
    have hrelay := hdialed .relayPeer (by decide)
    refine ⟨by simp [hseed, hnone], by simp [hannounced], by simp [hrelay], by simp [hannounced],
      by simp [hrelay], fun hne => absurd hstate hne, fun isRelay p hp => ?_,
      fun hne => absurd (by rw [hprivate, hrelay]; rfl) hne⟩
    cases isRelay with
    | false =>
      rw [if_neg Bool.false_ne_true, hprivate] at hp
      cases hp
    | true =>
      rw [if_pos rfl, hrelay] at hp
      cases hp
  · generalize hpeers : m.peersToDial localPeerId t false m.dialedPrivatePeers = peers
    have hmem {p : PeerId} (hp : p ∈ peers) := mem_peersToDial (hpeers ▸ hp)
    have hnodup : peers.Nodup := hpeers ▸ nodup_peersToDial hstore
    have hrelay : dialed .relayPeer (dialAll t .privatePeer peers) = [] := dialed_dialAll t peers
    have hseed : dialed .seedPeer (dialAll t .privatePeer peers) = [] := dialed_dialAll t peers
    have hannounced :
        announced .privatePeer (dialAll t .privatePeer peers) = peers.filter t.dialIsOk :=
      announced_dialAll t peers
    refine ⟨by simp [hseed], by simp [hannounced], by simp [hrelay], ?_, by simp [hrelay],
      fun _ => proceed_dialedSeedPeers _ _ _, fun isRelay p hp => ?_, fun _ => ?_⟩
    · rw [hannounced]
      exact ⟨hnodup.filter _, fun p hp => (hmem (List.mem_filter.mp hp).1).1⟩
    · obtain ⟨rfl, hpeer⟩ := mem_dialed_dialAll isRelay false hp
      exact (hmem hpeer).2
    · rw [hstate]
      exact ⟨nofun, nofun⟩
  · generalize hpeers : m.peersToDial localPeerId t true m.dialedRelayPeers = peers
    have hmem {p : PeerId} (hp : p ∈ peers) := mem_peersToDial (hpeers ▸ hp)
    have hnodup : peers.Nodup := hpeers ▸ nodup_peersToDial hstore
    have hrelay : dialed .relayPeer (dialAll t .relayPeer peers) = peers := dialed_dialAll t peers
    have hseed : dialed .seedPeer (dialAll t .relayPeer peers) = [] := dialed_dialAll t peers
    have hannounced : announced .privatePeer (dialAll t .relayPeer peers) = [] :=
      announced_dialAll t peers
    refine ⟨by simp [hseed], by simp [hannounced], by simp [hrelay], by simp [hannounced], ?_,
      fun _ => proceed_dialedSeedPeers _ _ _, fun isRelay p hp => ?_, fun _ => ?_⟩
    · rw [hrelay]
      exact ⟨hnodup, fun p hp => (hmem hp).1⟩
    · obtain ⟨rfl, hpeer⟩ := mem_dialed_dialAll isRelay true hp
      exact (hmem hpeer).2
    · rw [hstate]
      exact ⟨nofun, nofun⟩
  · exact .of_quiet _ fun _ => ⟨rfl, rfl⟩
  · exact .of_quiet _ fun _ => ⟨rfl, rfl⟩

theorem TickDials.early (h : TickDials localPeerId t m m' effects)
    (hstate : m.diagnosticState = .connectToSeedPeers) :
    dialed .privatePeer effects = [] ∧ dialed .relayPeer effects = [] := by
  refine List.append_eq_nil_iff.mp ?_
  by_contra hne
  exact (h.late hne).1 hstate

theorem first_of_step (hstep : m.step localPeerId t = .ok (m', more))
    (hstate : m'.diagnosticState = .connectToSeedPeers) :
    m.diagnosticState = .connectToSeedPeers := by
  obtain ⟨-, hsame, -⟩ | ⟨-, hnext, -⟩ := step_state hstep
  · rw [← hsame, hstate]
  · rw [hstate] at hnext
    cases hm : m.diagnosticState <;> rw [hm] at hnext <;> simp [DiagnosticState.successNextState,
      DiagnosticState.failedNextState] at hnext

theorem done_of_step (hstep : m.step localPeerId t = .ok (m', more))
    (hdone : m.diagnosticState = .done) : m'.diagnosticState = .done := by
  obtain ⟨-, hsame, -⟩ | ⟨-, hnext, -⟩ := step_state hstep
  · rw [hsame, hdone]
  · rw [hdone] at hnext
    exact hnext.elim id id

/-- From the first dial of a private peer or a relay on, the noted seed peers stay. -/
theorem Dials.dialedSeedPeers_eq (h : Dials localPeerId begin ticks m effects)
    (htick : TickDials localPeerId t m m' more) {isRelay : Bool} {p : PeerId}
    (hp : p ∈ dialed (if isRelay then .relayPeer else .privatePeer) (effects ++ more)) :
    m'.dialedSeedPeers = m.dialedSeedPeers := by
  refine htick.kept fun hstate => ?_
  obtain ⟨hprivate, hrelay⟩ := h.first hstate
  obtain ⟨hprivate', hrelay'⟩ := htick.early hstate
  cases isRelay <;> simp [dialed_append, hprivate, hrelay, hprivate', hrelay'] at hp

theorem Dials.step (h : Dials localPeerId begin ticks m effects)
    (hrun : DiagnosticRun localPeerId begin ticks m effects) (hstore : t.store.Exclusive)
    (hstep : m.step localPeerId t = .ok (m', more)) :
    Dials localPeerId begin (t :: ticks) m' (effects ++ more) := by
  have htick := tickDials_of_step hstore hstep
  have hbefore {P : DiagnosticTick → Prop} (hex : ∃ t' ∈ ticks, P t') : ∃ t' ∈ t :: ticks, P t' := by
    obtain ⟨t', ht', hP⟩ := hex
    exact ⟨t', List.mem_cons_of_mem _ ht', hP⟩
  have hconnected (hstate : m'.diagnosticState ≠ .connectToSeedPeers)
      (hdone : m'.diagnosticState ≠ .done) : ∃ t' ∈ t :: ticks, SeedConnected t' := by
    by_cases hold : m.diagnosticState = .connectToSeedPeers
    · exact ⟨t, List.mem_cons_self, connected_of_step hstep hold hstate hdone⟩
    · exact hbefore (h.connected hold (mt (done_of_step hstep) hdone))
  refine {
    seeds := by rw [dialed_append, h.seeds, htick.seeds]
    privatePeers := by rw [announced_append, h.privatePeers, htick.privatePeers]
    relays := by rw [dialed_append, h.relays, htick.relays]
    privatePeersOnce := ?_
    relaysOnce := ?_
    first := ?_
    found := ?_
    foundAt := ?_
    connected := hconnected
    late := ?_ }
  · rw [← htick.privatePeers]
    exact h.privatePeersOnce.append htick.privatePeersNew.1
      fun p hold hnew => htick.privatePeersNew.2 p hnew hold
  · rw [← htick.relays]
    exact h.relaysOnce.append htick.relaysNew.1 fun p hold hnew => htick.relaysNew.2 p hnew hold
  · intro hstate
    have hstate' := first_of_step hstep hstate
    obtain ⟨hprivate, hrelay⟩ := h.first hstate'
    obtain ⟨hprivate', hrelay'⟩ := htick.early hstate'
    rw [dialed_append, dialed_append, hprivate, hrelay, hprivate', hrelay']
    exact ⟨rfl, rfl⟩
  · intro isRelay p hp
    rw [h.dialedSeedPeers_eq htick hp]
    rw [dialed_append, List.mem_append] at hp
    obtain hold | hnew := hp
    · obtain ⟨hlocal, hseed, t', later, earlier, _, _, _, _, rfl, hdial⟩ := h.found isRelay p hold
      exact ⟨hlocal, hseed, t', t :: later, earlier, _, _, _, _, rfl, hdial⟩
    · obtain ⟨hlocal, hseed, -⟩ := htick.found isRelay p hnew
      exact ⟨hlocal, hseed, t, [], ticks, m, m', effects, more, rfl, hrun, hstep, hnew⟩
  · intro isRelay t' p hdial
    obtain ⟨later, earlier, _, _, _, _, hticks, hearlier, hstep', hp⟩ := hdial
    cases later with
    | nil =>
      cases hticks
      exact ((tickDials_of_step hstore hstep').found isRelay p hp).2.2
    | cons t'' later =>
      cases hticks
      exact h.foundAt isRelay t' p ⟨later, earlier, _, _, _, _, rfl, hearlier, hstep', hp⟩
  · intro hne
    by_cases hold : dialed .privatePeer effects ++ dialed .relayPeer effects = []
    · obtain ⟨hprivate, hrelay⟩ := List.append_eq_nil_iff.mp hold
      rw [dialed_append, dialed_append, hprivate, hrelay, List.nil_append, List.nil_append] at hne
      obtain ⟨hstate, hdone⟩ := htick.late hne
      exact hbefore (h.connected hstate hdone)
    · exact hbefore (h.late hold)

/-- Over every run in which no peer is on two lists, the seed peers that are dialed are those noted;
every private peer that the swarm takes is dialed and announced once, and every relay is dialed
once; none of them is the node itself or one of the seed peers, each was on a list of the squad at
the tick that dialed it, and none was dialed before a seed peer was connected. -/
theorem diagnosticRun_dials (hrun : DiagnosticRun localPeerId begin ticks m effects)
    (hstores : ∀ t ∈ ticks, t.store.Exclusive) : Dials localPeerId begin ticks m effects := by
  induction hrun with
  | start => exact .start localPeerId begin
  | tick t hrun hstep ih =>
    obtain ⟨hstore, hrest⟩ := List.forall_mem_cons.mp hstores
    exact (ih hrest).step hrun hstore hstep

/-- The private peer of the seven ticks is dialed once. -/
theorem diagnosticRun_dials_seven : ∃ m effects, DiagnosticRun 0 0 (sampleTicks 7) m effects ∧
    m.dialedPrivatePeers = [5] ∧ announced .privatePeer effects = [5] := by
  obtain ⟨m, effects, hrun, hprivate⟩ := exists_sampleRun
  have hstore (n : Nat) : (sampleTick n).store.Exclusive :=
    (PeerStore.exclusive_add_iff (PeerStore.Exclusive.new "default")).mpr
      fun l l' _ hlisted => absurd hlisted PeerStore.not_listed_new
  have hstores (n : Nat) : ∀ t ∈ sampleTicks n, t.store.Exclusive := by
    induction n with
    | zero => exact fun t ht => absurd ht List.not_mem_nil
    | succ n ih => exact List.forall_mem_cons.mpr ⟨hstore _, ih⟩
  have hdials := diagnosticRun_dials hrun (hstores 7)
  exact ⟨m, effects, hrun, hprivate, hdials.privatePeers.trans hprivate⟩

end DiagnosticMode

end ShaP2Pool
