import ShaP2Pool.Proof.Deliveries
import ShaP2Pool.Server.PeerStore
import Mathlib.Logic.Function.Basic

/-!
# An honest network

Nodes hand out templates, miners turn them into blocks, and the blocks come to the other nodes in
whatever order the network brings them, each after those it refers to and not too late. That the
blocks grow a chain is not assumed: it follows from how templates are made. Every node then takes
what it is sent, and nodes with the same blocks agree.
-/

namespace ShaP2Pool

namespace P2Chain

open InMemoryShareChain

variable {core : TariCore} {s : InMemoryShareChain} {config : ChainConfig} {hist : List P2Block}
  {c : P2Chain} {t x y b m u : P2Block} {trunk rest fed mined uncles us : List P2Block} {depth : Nat}
  {d : Difficulty}

/-- A block that a miner hands in for the chain `c`: the generated block with the base node's block
in it, its target difficulty and the mined header. -/
def HandedIn (core : TariCore) (s : InMemoryShareChain) (c : P2Chain) (x : P2Block) : Prop :=
  ∃ ord now address extra template tariBlock filled d unmined header,
    s.generateNewTipBlock core ord now address extra c = .ok template ∧
    template.populateTariData tariBlock = .ok filled ∧
    filled.changeTargetDifficulty core d = .ok unmined ∧ 1 ≤ d ∧
    x = { unmined with originalHeader := header }

/-- A block of the network: it starts a chain, or stands on the end of a path of older blocks and
lists uncles that stand on the path but are beside it. -/
inductive Honest (mined : List P2Block) (x : P2Block) : Prop
  | starts (hx : Starts x)
  | stands {t : P2Block} {rest us : List P2Block} (htrunk : Trunk (t :: rest))
    (hmined : ∀ y ∈ t :: rest, y ∈ mined) (hx : Stands x t us)
    (huncles : ∀ u ∈ us, u ∈ mined ∧ u ∉ t :: rest ∧ ∃ q ∈ t :: rest, u.prevHash = q.hash)

theorem Honest.mono {mined' : List P2Block} (h : Honest mined x) (hsub : ∀ y ∈ mined, y ∈ mined') :
    Honest mined' x := by
  cases h with
  | starts hx => exact .starts hx
  | stands htrunk hmined hx huncles =>
    exact .stands htrunk (fun y hy => hsub y (hmined y hy)) hx
      fun u hu => ⟨hsub u (huncles u hu).1, (huncles u hu).2⟩

/-! ### Mining -/

/-- A block that is handed in is a template for the chain in all that the verification reads. -/
theorem HandedIn.templateOf (h : HandedIn core s c x) (hr : Recorded config hist c) :
    ∃ d uncles, 1 ≤ d ∧ TemplateOf c x d uncles := by
  obtain ⟨ord, now, address, extra, template, tariBlock, filled, d, unmined, header, hgen, hfill,
    hchange, hd, rfl⟩ := h
  rw [P2Block.populateTariData] at hfill
  cases hroot : tariBlock.normalOutputMr with
  | error reason => simp [hroot] at hfill
  | ok otherOutputHash =>
    simp only [hroot, Except.ok.injEq] at hfill
    subst hfill
    -- the same change of the block as it was generated
    obtain ⟨plain, hplain⟩ : ∃ plain, template.changeTargetDifficulty core d = .ok plain := by
      rw [P2Block.changeTargetDifficulty] at hchange ⊢
      cases hadd : checkedAddDifficulty template.totalPow d with
      | none => simp [hadd] at hchange
      | some added =>
        simp only [hadd] at hchange ⊢
        cases hsub : checkedSubDifficulty added template.targetDifficulty with
        | none => simp [hsub] at hchange
        | some total => exact ⟨_, rfl⟩
    obtain ⟨hverified, htarget, hlists, hheight, hprev, hpow, -, hfits⟩ :=
      changeTargetDifficulty_cases hchange
    obtain ⟨hverified', -, hlists', hheight', hprev', hpow', -, -⟩ :=
      changeTargetDifficulty_cases hplain
    obtain ⟨uncles, ht⟩ := templateOf_generateNewTipBlock hr hgen hplain
    have hsameHeight : unmined.height = plain.height := hheight.trans hheight'.symm
    have hsamePow : unmined.totalPow = plain.totalPow := hpow.trans hpow'.symm
    have hsamePrev : unmined.prevHash = plain.prevHash := hprev.trans hprev'.symm
    refine ⟨d, uncles, hd, {
      unverified := (hverified.trans hverified'.symm).trans ht.unverified
      target := htarget
      lists := (hlists.trans hlists'.symm).trans ht.lists
      fits := hfits
      few := ht.few
      early := hsameHeight ▸ ht.early
      candidates := hsameHeight ▸ ht.candidates
      place := ?_ }⟩
    have hplace := ht.place
    rw [← hsameHeight, ← hsamePow, ← hsamePrev] at hplace
    exact hplace

theorem Follows.exists_of_stored (hfollows : Follows config hist trunk fed c) {height : Nat}
    {hash : FixedHash} (hu : c.storedBlock height hash = some u) :
    ∃ y ∈ fed, y.withoutStatus = u.withoutStatus := by
  obtain ⟨a, ha, hcontent, -⟩ := hfollows.recorded.content hu
  obtain ⟨y, hy, heq⟩ := List.mem_map.mp (hfollows.same ▸ List.mem_map_of_mem ha)
  exact ⟨y, hy, heq.trans hcontent⟩

theorem Follows.exists_list (hfollows : Follows config hist trunk fed c)
    (hstored : ∀ u ∈ uncles, c.storedBlock u.height u.hash = some u) :
    ∃ us : List P2Block, (∀ y ∈ us, y ∈ fed ∧ ∃ u ∈ uncles, y.withoutStatus = u.withoutStatus) ∧
      us.map (·.withoutStatus) = uncles.map (·.withoutStatus) := by
  induction uncles with
  | nil => exact ⟨[], fun y hy => (List.not_mem_nil hy).elim, rfl⟩
  | cons u uncles ih =>
    obtain ⟨hu, hrest⟩ := List.forall_mem_cons.mp hstored
    obtain ⟨us, hus, hsame⟩ := ih hrest
    obtain ⟨y, hy, hcontent⟩ := hfollows.exists_of_stored hu
    refine ⟨y :: us, List.forall_mem_cons.mpr ⟨⟨hy, u, List.mem_cons_self, hcontent⟩, fun z hz => ?_⟩,
      by rw [List.map_cons, List.map_cons, hcontent, hsame]⟩
    obtain ⟨hz, u', hu', heq⟩ := hus z hz
    exact ⟨hz, u', List.mem_cons_of_mem _ hu', heq⟩

theorem map_eq_of_same {α : Type} (field : P2Block → α)
    (hfield : ∀ (b : P2Block) (v : VerifiedStatus), field { b with verified := v } = field b)
    (h : us.map (·.withoutStatus) = uncles.map (·.withoutStatus)) :
    us.map field = uncles.map field := by
  have hmap : ∀ l : List P2Block, l.map field = (l.map (·.withoutStatus)).map field := fun l => by
    rw [List.map_map]
    exact List.map_congr_left fun b _ => (hfield b VerifiedStatus.new).symm
  rw [hmap us, hmap uncles, h]

/-- The block that stands on the end of the main chain, from a template. -/
theorem stands_of_template (hf : Follower config depth) (hgrowth : Growth depth (t :: trunk) fed)
    (hfollows : Follows config hist (t :: trunk) fed c) (ht : TemplateOf c x d uncles) (hd : 1 ≤ d)
    (hroom : x.height + maxUncleAge ≤ u64Max) :
    ∃ us, Stands x t us ∧ ∀ u ∈ us, u ∈ fed ∧ u ∉ t :: trunk ∧
      ∃ q ∈ t :: trunk, u.prevHash = q.hash := by
  have htip := hfollows.tipHash_eq hf hgrowth
  have htMem : t ∈ fed := hgrowth.mem_of_trunk List.mem_cons_self
  have htNonzero := hgrowth.distinct.nonzero t htMem
  obtain ⟨hnone, -⟩ | ⟨t₁, -, ht₁, hheight, hprev, hpow⟩ := ht.place
  · rw [getTip_eq_none_iff, htip] at hnone
    exact absurd hnone htNonzero
  · -- the tip is stored with the content it was sent with
    have ht₁Height := hfollows.recorded.agree.height_of_storedBlock ht₁
    rw [hfollows.tip t rfl] at ht₁Height
    obtain ⟨t₂, ht₂, ht₂Content⟩ := hfollows.exists_of_stored ht₁
    have ht₂Hash : t₂.hash = t.hash := by
      rw [hash_of_withoutStatus ht₂Content, hfollows.recorded.agree.hash_of_storedBlock ht₁, htip]
    obtain rfl := hgrowth.distinct.eq ht₂ htMem ht₂Hash
    obtain ⟨-, -, -, -, -, ht₂Pow⟩ := fields_eq ht₂Content
    have hxHeight : x.height = t₂.height + 1 := by
      have hsum : x.height = min (t₁.height + 1) u64Max := hheight
      rw [maxUncleAge] at hroom
      omega
    have hnear : ∀ y ∈ fed, y.height ≤ x.height + depth := fun y hy => by
      have hle := hgrowth.near hy
      omega
    obtain ⟨us, hus, hsame⟩ := hfollows.exists_list fun u hu => (ht.candidates u hu).stored
    have hcandidates (u : P2Block) (hu : u ∈ us) : u ∈ fed ∧ u ∉ t₂ :: trunk ∧ 0 < u.height ∧
        u.height < x.height ∧ x.height ≤ u.height + maxUncleAge ∧
        ∃ q ∈ t₂ :: trunk, u.prevHash = q.hash := by
      obtain ⟨hfed, u₁, hu₁, hcontent⟩ := hus u hu
      obtain ⟨huHeight, huHash, huPrev, -⟩ := fields_eq hcontent
      have hcandidate := ht.candidates u₁ hu₁
      have hold := hcandidate.notTooOld
      have hbelow := hcandidate.below
      have hpos : u₁.height ≠ 0 := by
        have hlisted : (u₁.height, u₁.hash) ∈ x.uncles := by
          rw [ht.lists]
          exact List.mem_map_of_mem hu₁
        exact ht.uncle_height_ne_zero hlisted
      have hlevels := hf.lt_maxLevels (n := 4) (by omega)
      have hrecent (q : P2Block) (hq : x.height ≤ q.height + 4) : Recent config fed q :=
        fun z hz => by
          have hz := hnear z hz
          omega
      rw [maxUncleAge] at hold ⊢
      refine ⟨hfed, fun hmem => ?_, by omega, by omega, by omega, ?_⟩
      · refine hcandidate.offMain ?_
        rw [← huHeight, ← huHash]
        exact hfollows.marked u hmem (hrecent u (by omega))
      · obtain ⟨p₁, hp₁, hmark⟩ := hcandidate.parent
        obtain ⟨hzero, -⟩ | ⟨q, hq, hqHash, hqHeight⟩ := hgrowth.stands hfed
        · omega
        · refine ⟨q, by_contra fun hside => ?_, hqHash⟩
          -- the parent that the generator has found is the block below the uncle
          have hqRecent := hrecent q (by omega)
          obtain ⟨q₁, hqStored, hqContent, -⟩ := hfollows.kept q hq hqRecent
          obtain ⟨hq₁Height, hq₁Hash, -⟩ := fields_eq hqContent
          rw [getParentBlock, if_neg hpos, ← huHeight, ← huPrev, hqHash, hqHeight,
            Nat.add_sub_cancel, hfollows.recorded.agree.getBlockAtHeight_of_storedBlock hqStored,
            Option.some.injEq] at hp₁
          rw [← hp₁, hq₁Height, hq₁Hash] at hmark
          exact hfollows.offMain hgrowth hq hside hqRecent hmark
    have htargets : targets us = targets uncles := by
      rw [targets, targets, map_eq_of_same P2Block.targetDifficulty (fun _ _ => rfl) hsame]
    refine ⟨us, {
      height := hxHeight
      prevHash := hprev.trans htip
      lists := ?_
      uncles := fun u hu => ?_
      target := ht.target ▸ hd
      work := ?_
      fits := ht.fits
      room := hroom }, fun u hu => ?_⟩
    · rw [ht.lists]
      exact (map_eq_of_same (fun u => (u.height, u.hash)) (fun _ _ => rfl) hsame).symm
    · obtain ⟨-, hside, hpos, hbelow, hage, -⟩ := hcandidates u hu
      exact ⟨fun heq => hside (heq ▸ List.mem_cons_self), hpos, hbelow, hage⟩
    · rw [hpow, ht.target, htargets, ht₂Pow]
      exact (Nat.add_comm _ _).trans ((congrArg _ (Nat.add_comm _ _)).trans
        (Nat.add_assoc _ _ _).symm)
    · obtain ⟨hfed, hside, -, -, -, hq⟩ := hcandidates u hu
      exact ⟨hfed, hside, hq⟩

theorem HandedIn.honest (h : HandedIn core s c x) (hf : Follower s.chainConfig depth)
    (hgrowth : Growth depth trunk fed) (hfollows : Follows s.chainConfig hist trunk fed c)
    (hnonzero : x.hash ≠ FixedHash.zero) (hroom : x.height + maxUncleAge ≤ u64Max) :
    Honest fed x := by
  obtain ⟨d, uncles, hd, ht⟩ := h.templateOf hfollows.recorded
  cases trunk with
  | nil =>
    have hnone : c.tipHash = FixedHash.zero := hfollows.unmarked c.currentTip fun y hy => by cases hy
    obtain ⟨-, hheight, hprev, hpow⟩ | ⟨t, htip, -⟩ := ht.place
    · have hearly := ht.early (by rw [hheight]; decide)
      refine .starts ⟨hnonzero, hheight, hprev, ?_, ht.target ▸ hd, hpow.trans ht.target.symm⟩
      rw [ht.lists, hearly, List.map_nil]
    · exact absurd hnone htip
  | cons t trunk =>
    obtain ⟨us, hstands, hus⟩ := stands_of_template hf hgrowth hfollows ht hd hroom
    exact .stands hgrowth.mainChain (fun y => hgrowth.mem_of_trunk) hstands hus

/-! ### Delivering -/

/-- A node of the network: the blocks it has been sent, and its chain. -/
structure Member where
  fed : List P2Block
  chain : P2Chain

/-- The block `x` comes to a node for the first time, as `b`: it is sound for the node, the node has
what it refers to, the block is not far from the node's blocks, and it parts from the node's main
chain less than `depth` below. -/
structure Timely (core : TariCore) (s : InMemoryShareChain) (depth : Nat) (mined : List P2Block)
    (node : Member) (now : EpochTime) (x b : P2Block) : Prop where
  content : b.withoutStatus = x.withoutStatus
  sound : Sound core s now b
  new : x ∉ node.fed
  first : x.height = 0 → node.fed = []
  parent : ∀ y ∈ mined, y.hash = x.prevHash → y ∈ node.fed
  uncles : ∀ uncle ∈ x.uncles, ∀ y ∈ mined, y.hash = uncle.2 → y ∈ node.fed
  near : ∀ y ∈ node.fed, y.height ≤ x.height + depth
  close : node.fed ≠ [] → x.height ≤ node.chain.currentTip + depth
  fork : ∀ rest, Trunk (x :: rest) → (∀ y ∈ rest, y ∈ mined) →
    ∀ y ∈ rest, y.height + depth = x.height → node.chain.chainBlockAt y.height = y.hash

theorem Growth.mem_of_path (hgrowth : Growth depth trunk fed) (hd : Distinct mined)
    (hsub : ∀ y ∈ fed, y ∈ mined) (htrunk : Trunk rest) (hrest : ∀ y ∈ rest, y ∈ mined)
    (hm : m ∈ rest) (hmFed : m ∈ fed) (hy : y ∈ rest) (hle : y.height ≤ m.height) : y ∈ fed := by
  obtain ⟨k, hk⟩ := Nat.exists_eq_add_of_le hle
  induction k generalizing m with
  | zero => exact htrunk.eq_of_height hm hy hk ▸ hmFed
  | succ k ih =>
    obtain ⟨q, hq, hprev, hheight⟩ := htrunk.exists_below hm (by omega)
    obtain ⟨hzero, -⟩ | ⟨q', hq', hprev', -⟩ := hgrowth.stands hmFed
    · omega
    · have heq : q = q' := hd.eq (hrest q hq) (hsub q' hq') (hprev.symm.trans hprev')
      exact ih hq (heq ▸ hq') (by omega) (by omega)

/-- A timely block of the network is the next block of the node's growing chain. -/
theorem Timely.adds {node : Member} {now : EpochTime}
    (h : Timely core s depth mined node now x b) (hf : Follower s.chainConfig depth)
    (hpos : 0 < depth) (hd : Distinct mined) (hx : x ∈ mined) (hhonest : Honest mined x)
    (hsub : ∀ y ∈ node.fed, y ∈ mined) (hgrowth : Growth depth trunk node.fed)
    (hfollows : Follows s.chainConfig hist trunk node.fed node.chain) :
    ∃ trunk', Adds depth trunk node.fed x trunk' := by
  have hfresh : Fresh node.fed x := by
    refine ⟨hd.nonzero x hx, fun y hy heq => h.new ?_⟩
    rw [← hd.eq (hsub y hy) hx heq]
    exact hy
  cases hhonest with
  | starts hstarts =>
    have hnone := h.first hstarts.height
    rw [hnone] at hgrowth ⊢
    cases hgrowth
    exact ⟨_, .start hstarts⟩
  | @stands t rest us htrunk hmined hstands huncles =>
    have htFed : t ∈ node.fed := h.parent t (hmined t List.mem_cons_self) hstands.prevHash.symm
    have husFed (u : P2Block) (hu : u ∈ us) : u ∈ node.fed := by
      refine h.uncles (u.height, u.hash) ?_ u (huncles u hu).1 rfl
      rw [hstands.lists]
      exact List.mem_map_of_mem hu
    have hjoins : Joins depth node.fed x t us := ⟨hstands, hfresh, htFed, husFed, h.near⟩
    have hpath (y : P2Block) (hy : y ∈ t :: rest) : y ∈ node.fed :=
      Growth.mem_of_path hgrowth hd hsub htrunk hmined List.mem_cons_self htFed hy
        (htrunk.height_le hy)
    obtain ⟨t', trunk₀, rfl⟩ := hgrowth.exists_end htFed
    have hmain (y : P2Block) (hy : y ∈ t' :: trunk₀) : y ∈ mined := hsub y (hgrowth.mem_of_trunk hy)
    by_cases hend : t = t'
    · subst hend
      -- the two paths down from the parent are one
      refine ⟨_, .extend hjoins fun u hu => ⟨fun hmem => (huncles u hu).2.1 ?_, ?_⟩⟩
      · exact hgrowth.mainChain.mem_of_mem htrunk hd hmain hmined List.mem_cons_self
          List.mem_cons_self hmem (hgrowth.mainChain.height_le hmem)
      · obtain ⟨q, hq, hprev⟩ := (huncles u hu).2.2
        exact ⟨q, htrunk.mem_of_mem hgrowth.mainChain hd hmined hmain List.mem_cons_self
          List.mem_cons_self hq (htrunk.height_le hq), hprev⟩
    · obtain hlight | hheavy := Nat.lt_or_ge t'.totalPow x.totalPow |>.symm
      · refine ⟨_, .stay hjoins hend hlight ?_⟩
        rw [← hfollows.tip t' rfl]
        exact h.close fun hnone => by
          rw [hnone] at htFed
          cases htFed
      · refine ⟨_, .switch hjoins hend hheavy htrunk hpath fun y hy hlow => ?_⟩
        -- the ancestor `depth` below is on the main chain, and so is what lies under it
        have hheight := hstands.height
        obtain ⟨y₀, hy₀, hy₀Height⟩ :=
          htrunk.exists_at (n := x.height - depth) List.mem_cons_self (by omega)
        have hmark := h.fork (t :: rest) (htrunk.step hheight hstands.prevHash) hmined y₀ hy₀
          (by omega)
        have hlevels := hf.lt_maxLevels (n := depth) (by
          have hdepth := hf.depth
          omega)
        have hy₀Main : y₀ ∈ t' :: trunk₀ := by
          by_contra hside
          refine hfollows.offMain hgrowth (hpath y₀ hy₀) hside (fun z hz => ?_) hmark
          have hnear := h.near z hz
          omega
        exact htrunk.mem_of_mem hgrowth.mainChain hd hmined hmain hy₀ hy₀Main hy (by omega)

/-! ### Runs of the network -/

/-- The runs of a network whose nodes are all honest, with the blocks mined so far: a node's
template for its present chain becomes a block, which may be handed in then or later, a block of the
network comes to a node in time (to the miner's own node as well), or it comes again. -/
inductive HonestRun (core : TariCore) (services : PeerId → InMemoryShareChain) (depth : Nat) :
    List P2Block → (PeerId → Member) → Prop
  | start : HonestRun core services depth [] fun p => ⟨[], newEmpty (services p).chainConfig⟩
  | mine {mined : List P2Block} {nodes : PeerId → Member} {x : P2Block} (p : PeerId)
    (hrun : HonestRun core services depth mined nodes)
    (hx : HandedIn core (services p) (nodes p).chain x) (hnonzero : x.hash ≠ FixedHash.zero)
    (hnew : ∀ y ∈ mined, y.hash ≠ x.hash) (hroom : x.height + maxUncleAge ≤ u64Max) :
    HonestRun core services depth (x :: mined) nodes
  | deliver {mined : List P2Block} {nodes : PeerId → Member} {x b : P2Block} (p : PeerId)
    (ord : IterOrder) (now : EpochTime) (hrun : HonestRun core services depth mined nodes)
    (hx : x ∈ mined) (htimely : Timely core (services p) depth mined (nodes p) now x b) :
    HonestRun core services depth mined (Function.update nodes p
      ⟨x :: (nodes p).fed, ((services p).submitBlock core ord now b (nodes p).chain).state⟩)
  | again {mined : List P2Block} {nodes : PeerId → Member} {y b : P2Block} (p : PeerId)
    (ord : IterOrder) (now : EpochTime) (hrun : HonestRun core services depth mined nodes)
    (hy : y ∈ (nodes p).fed) (hcontent : b.withoutStatus = y.withoutStatus) :
    HonestRun core services depth mined (Function.update nodes p
      ⟨(nodes p).fed, ((services p).submitBlock core ord now b (nodes p).chain).state⟩)

structure NetworkHolds (core : TariCore) (services : PeerId → InMemoryShareChain) (depth : Nat)
    (mined : List P2Block) (nodes : PeerId → Member) : Prop where
  distinct : Distinct mined
  honest : ∀ x ∈ mined, Honest mined x
  sent : ∀ p, ∀ y ∈ (nodes p).fed, y ∈ mined
  delivered : ∀ p, ∃ trunk, Delivered core (services p) depth trunk (nodes p).fed (nodes p).chain

variable {services : PeerId → InMemoryShareChain} {nodes : PeerId → Member}

theorem HonestRun.holds (hrun : HonestRun core services depth mined nodes) (hpos : 0 < depth)
    (hbypass : ∀ p, (services p).bypassChecks = serverBypass)
    (hdepth : ∀ p, depth < (services p).shareWindow) :
    NetworkHolds core services depth mined nodes := by
  have hf (p : PeerId) := Follower.of_service (hbypass p) (hdepth p)
  induction hrun with
  | start =>
    refine ⟨Growth.distinct (Growth.nil : Growth depth [] []), fun x hx => ?_, fun p y hy => ?_,
      fun p => ⟨[], .empty⟩⟩
    · cases hx
    · cases hy
  | @mine mined nodes x p hrun hx hnonzero hnew hroom ih =>
    have hsub (y : P2Block) (hy : y ∈ mined) : y ∈ x :: mined := List.mem_cons_of_mem x hy
    obtain ⟨trunk, hdelivered⟩ := ih.delivered p
    obtain ⟨hist, hfollows⟩ := hdelivered.follows (hbypass p) (hdepth p)
    refine ⟨ih.distinct.cons hnonzero hnew, fun y hy => ?_, fun q y hy => hsub y (ih.sent q y hy),
      ih.delivered⟩
    obtain rfl | hy := List.mem_cons.mp hy
    · exact (hx.honest (hf p) hdelivered.growth hfollows hnonzero hroom).mono
        fun z hz => hsub z (ih.sent p z hz)
    · exact (ih.honest y hy).mono hsub
  | @deliver mined nodes x b p ord now hrun hx htimely ih =>
    obtain ⟨trunk, hdelivered⟩ := ih.delivered p
    obtain ⟨hist, hfollows⟩ := hdelivered.follows (hbypass p) (hdepth p)
    obtain ⟨trunk', hadds⟩ := htimely.adds (hf p) hpos ih.distinct hx (ih.honest x hx) (ih.sent p)
      hdelivered.growth hfollows
    refine ⟨ih.distinct, ih.honest, fun q y hy => ?_, fun q => ?_⟩
    · by_cases hq : q = p
      · subst hq
        rw [Function.update_self] at hy
        obtain rfl | hy := List.mem_cons.mp hy
        · exact hx
        · exact ih.sent q y hy
      · rw [Function.update_of_ne hq] at hy
        exact ih.sent q y hy
    · by_cases hq : q = p
      · subst hq
        rw [Function.update_self]
        exact ⟨trunk', hdelivered.gossiped ord now hadds htimely.content htimely.sound⟩
      · rw [Function.update_of_ne hq]
        exact ih.delivered q
  | @again mined nodes y b p ord now hrun hy hcontent ih =>
    refine ⟨ih.distinct, ih.honest, fun q z hz => ?_, fun q => ?_⟩
    · by_cases hq : q = p
      · subst hq
        rw [Function.update_self] at hz
        exact ih.sent q z hz
      · rw [Function.update_of_ne hq] at hz
        exact ih.sent q z hz
    · by_cases hq : q = p
      · subst hq
        rw [Function.update_self]
        obtain ⟨trunk, hdelivered⟩ := ih.delivered q
        exact ⟨trunk, hdelivered.again ord now hy hcontent⟩
      · rw [Function.update_of_ne hq]
        exact ih.delivered q

/-- Along every run of an honest network each node has the heaviest block it was sent as its tip and
its recent blocks stored and verified, no block that comes in time is refused or makes the node ask
for others, and two nodes with the same blocks, of which one is the heaviest, have the same main
chain. -/
theorem honest_network (hpos : 0 < depth) (hbypass : ∀ p, (services p).bypassChecks = serverBypass)
    (hdepth : ∀ p, depth < (services p).shareWindow)
    (hrun : HonestRun core services depth mined nodes) :
    (∀ p, (nodes p).fed ≠ [] → ∃ t ∈ (nodes p).fed, (nodes p).chain.currentTip = t.height ∧
      (nodes p).chain.tipHash = t.hash ∧ ∀ y ∈ (nodes p).fed, y.totalPow ≤ t.totalPow) ∧
    (∀ p, ∀ y ∈ (nodes p).fed, Recent (services p).chainConfig (nodes p).fed y →
      ∃ y₁, (nodes p).chain.storedBlock y.height y.hash = some y₁ ∧
        y₁.withoutStatus = y.withoutStatus ∧ y₁.verified.isVerified = true) ∧
    (∀ p ord now, ∀ x ∈ mined, ∀ b, Timely core (services p) depth mined (nodes p) now x b →
      ∃ r c', (services p).submitBlock core ord now b (nodes p).chain = .ok r c' ∧
        r.missingBlocks = KeyedMap.empty) ∧
    ∀ p q, (∀ y, y ∈ (nodes p).fed ↔ y ∈ (nodes q).fed) →
      ∀ t ∈ (nodes p).fed, (∀ y ∈ (nodes p).fed, t.totalPow ≤ y.totalPow → y = t) →
        (nodes p).chain.tipHash = t.hash ∧ (nodes q).chain.tipHash = t.hash ∧
        ∀ n, (∀ y ∈ (nodes p).fed, y.height < n + maxLevels (services p).chainConfig ∧
            y.height < n + maxLevels (services q).chainConfig) →
          (nodes p).chain.chainBlockAt n = (nodes q).chain.chainBlockAt n := by
  have hholds := hrun.holds hpos hbypass hdepth
  have hf (p : PeerId) := Follower.of_service (hbypass p) (hdepth p)
  have hstate (p : PeerId) : ∃ trunk hist, Growth depth trunk (nodes p).fed ∧
      Follows (services p).chainConfig hist trunk (nodes p).fed (nodes p).chain := by
    obtain ⟨trunk, hdelivered⟩ := hholds.delivered p
    obtain ⟨hist, hfollows⟩ := hdelivered.follows (hbypass p) (hdepth p)
    exact ⟨trunk, hist, hdelivered.growth, hfollows⟩
  refine ⟨fun p hne => ?_, fun p y hy hrecent => ?_, fun p ord now x hx b htimely => ?_,
    fun p q hsame t ht hheaviest => ?_⟩
  · obtain ⟨trunk, hist, hgrowth, hfollows⟩ := hstate p
    obtain ⟨y, hy⟩ := List.exists_mem_of_ne_nil _ hne
    obtain ⟨t, trunk₀, rfl⟩ := hgrowth.exists_end hy
    exact ⟨t, hgrowth.mem_of_trunk List.mem_cons_self, hfollows.tip t rfl,
      hfollows.tipHash_eq (hf p) hgrowth, fun z => hgrowth.heaviest⟩
  · obtain ⟨trunk, hist, -, hfollows⟩ := hstate p
    exact hfollows.kept y hy hrecent
  · obtain ⟨trunk, hist, hgrowth, hfollows⟩ := hstate p
    obtain ⟨trunk', hadds⟩ := htimely.adds (hf p) hpos hholds.distinct hx (hholds.honest x hx)
      (hholds.sent p) hgrowth hfollows
    obtain ⟨r, c', -, hok, hnone, -⟩ :=
      hfollows.gossiped ord (hbypass p) (hdepth p) hgrowth hadds htimely.content htimely.sound
    exact ⟨r, c', hok, hnone⟩
  · obtain ⟨trunk₁, hist₁, hgrowth₁, hfollows₁⟩ := hstate p
    obtain ⟨trunk₂, hist₂, hgrowth₂, hfollows₂⟩ := hstate q
    obtain ⟨t₁, rest₁, rfl⟩ := hgrowth₁.exists_end ht
    obtain ⟨t₂, rest₂, rfl⟩ := hgrowth₂.exists_end ((hsame t).mp ht)
    obtain rfl : t₁ = t :=
      hheaviest t₁ (hgrowth₁.mem_of_trunk List.mem_cons_self) (hgrowth₁.heaviest ht)
    obtain ⟨-, hhash, hmarks⟩ :=
      hfollows₁.agree (hf p) (hf q) hgrowth₁ hgrowth₂ hfollows₂ hsame hheaviest
    have htip := hfollows₁.tipHash_eq (hf p) hgrowth₁
    exact ⟨htip, hhash ▸ htip, hmarks⟩

/-! ### Two nodes and two miners -/

/-- A block from the first node's template, and one on it from the second node's. -/
def minedRoot : P2Block := { submittedBlock 1001 0 0 1 false with verified := {} }
def minedTop : P2Block := { submittedBlock 2001 1001 1 2 false with verified := {} }

def emptyTariBlock : TariBlock where
  header := { outputMr := 1 }
  coinbaseOutputs := []
  normalOutputMr := .ok 0

def emptyMember : Member := ⟨[], newEmpty (sampleShareChain 10).chainConfig⟩
def rootMember : Member := ⟨[minedRoot], ((sampleShareChain 10).submitBlock sampleCore .stored 0
  (submittedBlock 1001 0 0 1 false) emptyMember.chain).state⟩
def topMember : Member := ⟨[minedTop, minedRoot], ((sampleShareChain 10).submitBlock sampleCore
  .stored 0 (submittedBlock 2001 1001 1 2 false) rootMember.chain).state⟩

theorem handedIn_minedRoot : HandedIn sampleCore (sampleShareChain 10) emptyMember.chain minedRoot :=
  ⟨.stored, 0, ⟨0, 0⟩, [], _, emptyTariBlock, _, 1, _, { outputMr := 1 }, rfl, rfl, rfl, le_rfl, rfl⟩

theorem handedIn_minedTop : HandedIn sampleCore (sampleShareChain 10) rootMember.chain minedTop :=
  ⟨.stored, 0, ⟨0, 0⟩, [], _, emptyTariBlock, _, 1, _, { outputMr := 1 }, rfl, rfl, rfl, le_rfl, rfl⟩

theorem parts_low {node : Member} (hlow : x.height < depth) (rest : List P2Block)
    (_ : Trunk (x :: rest)) (_ : ∀ y ∈ rest, y ∈ mined) (y : P2Block) (_ : y ∈ rest)
    (heq : y.height + depth = x.height) : node.chain.chainBlockAt y.height = y.hash := by
  omega

theorem timely_minedRoot : Timely sampleCore (sampleShareChain 10) 3 [minedRoot] emptyMember 0
    minedRoot (submittedBlock 1001 0 0 1 false) :=
  ⟨rfl, sound_submittedBlock 1001 0 0 1 0, by decide, fun _ => rfl, by decide, by decide, by decide,
    fun hne => absurd rfl hne, parts_low (by decide)⟩

theorem timely_minedTop : Timely sampleCore (sampleShareChain 10) 3 [minedTop, minedRoot] rootMember
    0 minedTop (submittedBlock 2001 1001 1 2 false) :=
  ⟨rfl, sound_submittedBlock 2001 1001 1 2 0, by decide, by decide, by decide, by decide, by decide,
    by decide, parts_low (by decide)⟩

/-- A delivery to a node in a known state. -/
theorem HonestRun.delivered {node after : Member} (p : PeerId) (ord : IterOrder) (now : EpochTime)
    (hrun : HonestRun core services depth mined nodes) (hnode : nodes p = node) (hx : x ∈ mined)
    (htimely : Timely core (services p) depth mined node now x b)
    (hafter : ⟨x :: node.fed, ((services p).submitBlock core ord now b node.chain).state⟩ = after) :
    HonestRun core services depth mined (Function.update nodes p after) := by
  subst hnode hafter
  exact hrun.deliver p ord now hx htimely

theorem exists_honestRun : ∃ nodes,
    HonestRun sampleCore (fun _ => sampleShareChain 10) 3 [minedTop, minedRoot] nodes ∧
      nodes 0 = topMember ∧ nodes 1 = topMember := by
  have hrun₀ : HonestRun sampleCore (fun _ => sampleShareChain 10) 3 [] fun _ => emptyMember := .start
  have hrun₁ := hrun₀.mine 0 handedIn_minedRoot (by decide) (by decide) (by decide)
  have hrun₂ := hrun₁.delivered 0 .stored 0 rfl List.mem_cons_self timely_minedRoot
    (show _ = rootMember from rfl)
  have hrun₃ := hrun₂.delivered 1 .stored 0 (by simp) List.mem_cons_self timely_minedRoot
    (show _ = rootMember from rfl)
  have hmine : HandedIn sampleCore (sampleShareChain 10) (Function.update
      (Function.update (fun _ => emptyMember) 0 rootMember) 1 rootMember 1).chain minedTop := by
    rw [Function.update_self]
    exact handedIn_minedTop
  have hrun₄ := hrun₃.mine 1 hmine (by decide) (by decide) (by decide)
  have hrun₅ := hrun₄.delivered 1 .stored 0 (by simp) List.mem_cons_self timely_minedTop
    (show _ = topMember from rfl)
  have hrun₆ := hrun₅.delivered 0 .stored 0 (by simp) List.mem_cons_self timely_minedTop
    (show _ = topMember from rfl)
  exact ⟨_, hrun₆, by simp, by simp⟩

/-- The two nodes have the second block as their tip. -/
theorem honest_network_two : ∃ nodes,
    HonestRun sampleCore (fun _ => sampleShareChain 10) 3 [minedTop, minedRoot] nodes ∧
      (nodes 0).chain.tipHash = 2001 ∧ (nodes 1).chain.tipHash = 2001 := by
  obtain ⟨nodes, hrun, h₀, h₁⟩ := exists_honestRun
  obtain ⟨-, -, -, hagree⟩ :=
    honest_network (by decide) (fun _ => rfl) (fun _ => by decide) hrun
  obtain ⟨htip₀, htip₁, -⟩ := hagree 0 1 (fun y => by rw [h₀, h₁]) minedTop
    (by
      rw [h₀]
      exact List.mem_cons_self)
    (by
      rw [h₀]
      decide)
  exact ⟨nodes, hrun, htip₀, htip₁⟩

end P2Chain

end ShaP2Pool
