import ShaP2Pool.Proof.Ancestry

/-!
# The share window of the tip

The tip and its ancestors in the share window are verified as long as the two ways in which the
code moves the tip without looking at all of them are not taken to unverified blocks: the start of
a chain, and the stop of the search for a reorg at a block of the main chain.
-/

namespace ShaP2Pool

namespace P2Chain

open Lineage

variable {core : TariCore} {ord : IterOrder} {config : ChainConfig} {n height i : Nat}
variable {hash : FixedHash} {c c' c₀ c₁ c₂ : P2Chain} {a b b₁ : P2Block} {hist : List P2Block}

/-- The share window that ends at `b`: its stored blocks are verified, and no block that arrives
later can be added to it. -/
structure WindowVerified (hist : List P2Block) (c : P2Chain) (b : P2Block) : Prop where
  verified : ∀ i < c.config.shareWindow, ∀ a, c.ancestorOf i b = some a →
    a.verified.isVerified = true
  closed : ∀ i, i + 1 < c.config.shareWindow → ∀ a, c.ancestorOf i b = some a → a.height ≠ 0 →
    Known hist a.prevHash

/-- What the search for a reorg to `b` does not see of its share window: below a block of the main
chain every further parent is stored and verified, or was stored once. A block at height 0 may hand
the mark on to the block it names. -/
structure VerifiedBelow (hist : List P2Block) (c : P2Chain) (b : P2Block) : Prop where
  bottom : b.height = 0 → ∀ p, c.storedBlock 0 b.prevHash = some p → p.verified.isVerified = true
  rest : ∀ i j m a, j < i → i < windowRounds c.config → c.ancestorOf j b = some m →
    c.chainBlockAt m.height = m.hash → c.ancestorOf i b = some a → a.height ≠ 0 →
    Known hist a.prevHash ∧ ∀ p, c.parentOf a = some p → p.verified.isVerified = true

/-- Visiting a block moves the tip to a verified window only. -/
structure VisitGuarded (core : TariCore) (hist : List P2Block) (c : P2Chain) (height : Nat)
    (hash : FixedHash) : Prop where
  start : c.getTip = none → height = 0 → ∀ b v, c.storedBlock height hash = some b →
    c.statusAfter core b = .ok v → v.isVerified = true
  reorg : ∀ b₁ c₁, ReorgsTo core c height hash b₁ c₁ → VerifiedBelow hist c₁ b₁

/-- All visits of a call move the tip to verified windows only. -/
def Guarded (core : TariCore) (hist : List P2Block) (c : P2Chain) (ord : IterOrder)
    (b : P2Block) : Prop :=
  ∀ w height hash rest, Visits core ord b c w → w.nextLevel = (height, hash) :: rest →
    VisitGuarded core (b :: hist) w.chain height hash

def TipVerified (hist : List P2Block) (c : P2Chain) : Prop :=
  ∀ b, c.storedBlock c.currentTip c.tipHash = some b → WindowVerified hist c b

/-! ### What keeps a verified window -/

namespace WindowVerified

theorem prunes (hw : WindowVerified hist c b) (hc : c.StoresAgree) (hp : Prunes c c') :
    WindowVerified hist c' b where
  verified i hi a ha := hw.verified i (hp.config ▸ hi) a (hp.ancestorOf_of hc ha)
  closed i hi a ha := hw.closed i (hp.config ▸ hi) a (hp.ancestorOf_of hc ha)

theorem sameBlocks (hw : WindowVerified hist c b) (hs : SameBlocks c c') :
    WindowVerified hist c' b where
  verified i hi a ha := hw.verified i (hs.config ▸ hi) a (by rwa [ancestorOf, hs.parentOf] at ha)
  closed i hi a ha := hw.closed i (hs.config ▸ hi) a (by rwa [ancestorOf, hs.parentOf] at ha)

theorem checked {x x₁ : P2Block} (hw : WindowVerified hist c x) (hc : c.StoresAgree)
    (hv : Checked core c height hash b b₁ c₁) (hx : Grows x x₁) : WindowVerified hist c₁ x₁ where
  verified i hi a₁ ha₁ := by
    obtain ⟨a, ha, hgrows⟩ := hv.ancestorOf_of hc hx ha₁
    exact hgrows.isVerified (hw.verified i (hv.config ▸ hi) a ha)
  closed i hi a₁ ha₁ hheight := by
    obtain ⟨a, ha, hgrows⟩ := hv.ancestorOf_of hc hx ha₁
    rw [hgrows.prevHash_eq]
    exact hw.closed i (hv.config ▸ hi) a ha (hgrows.height_eq ▸ hheight)

theorem ancestorOf_of_writes {x : P2Block} (hw : WindowVerified hist c x) (hc : c.StoresAgree)
    (hunused : ∀ old, c.blockCache.find? b.hash = some old → old.height = b.height)
    (hfresh : ∀ a ∈ hist, a.hash ≠ b.hash) (hwrites : Writes c b c')
    (hi : i < c.config.shareWindow) (ha : c'.ancestorOf i x = some a) :
    c.ancestorOf i x = some a := by
  induction i generalizing a with
  | zero => exact ha
  | succ i ih =>
    rw [ancestorOf, ancestor_succ', Option.bind_eq_some_iff] at ha ⊢
    obtain ⟨y, hy, hparent⟩ := ha
    have hy' := ih (by omega) hy
    refine ⟨y, hy', ?_⟩
    rw [parentOf] at hparent ⊢
    split_ifs at hparent ⊢ with hheight
    rw [hwrites.storedBlock hc hunused] at hparent
    split_ifs at hparent with hnew
    · obtain ⟨x', hx', heq⟩ := hw.closed i hi y hy' hheight
      exact absurd (heq.trans hnew.2) (hfresh x' hx')
    · exact hparent

theorem writes {x : P2Block} (hw : WindowVerified hist c x) (hc : c.StoresAgree)
    (hunused : ∀ old, c.blockCache.find? b.hash = some old → old.height = b.height)
    (hfresh : ∀ a ∈ hist, a.hash ≠ b.hash) (hwrites : Writes c b c') :
    WindowVerified (b :: hist) c' x where
  verified i hi a ha := by
    rw [hwrites.config] at hi
    exact hw.verified i hi a (hw.ancestorOf_of_writes hc hunused hfresh hwrites hi ha)
  closed i hi a ha hheight := by
    rw [hwrites.config] at hi
    obtain ⟨x', hx', heq⟩ := hw.closed i hi a
      (hw.ancestorOf_of_writes hc hunused hfresh hwrites (by omega) ha) hheight
    exact ⟨x', List.mem_cons_of_mem _ hx', heq⟩

/-- A verified block on top of a verified window. -/
theorem extend {tip : P2Block} (hw : WindowVerified hist c tip) (hb : b.verified.isVerified = true)
    (hparent : ∀ p, c.parentOf b = some p → p = tip) (hknown : b.height ≠ 0 → Known hist b.prevHash) :
    WindowVerified hist c b where
  verified i hi a ha := by
    cases i with
    | zero =>
      cases ha
      exact hb
    | succ i =>
      rw [ancestorOf, ancestor_succ, Option.bind_eq_some_iff] at ha
      obtain ⟨p, hp, ha⟩ := ha
      exact hw.verified i (by omega) a (hparent p hp ▸ ha)
  closed i hi a ha hheight := by
    cases i with
    | zero =>
      cases ha
      exact hknown hheight
    | succ i =>
      rw [ancestorOf, ancestor_succ, Option.bind_eq_some_iff] at ha
      obtain ⟨p, hp, ha⟩ := ha
      exact hw.closed i (by omega) a (hparent p hp ▸ ha) hheight

theorem of_height_zero (hb : b.verified.isVerified = true) (hheight : b.height = 0) :
    WindowVerified hist c b := by
  have hself {i : Nat} {a : P2Block} (ha : c.ancestorOf i b = some a) : a = b := by
    cases i with
    | zero => exact (Option.some.inj ha).symm
    | succ i =>
      rw [ancestorOf, ancestor_succ, parentOf, if_pos hheight] at ha
      cases ha
  exact ⟨fun i _ a ha => hself ha ▸ hb, fun i _ a ha hne => absurd (hself ha ▸ hheight) hne⟩

end WindowVerified

theorem Recorded.known (hr : Recorded config hist c) (hp : c.parentOf b = some a) :
    Known hist b.prevHash := by
  rw [parentOf] at hp
  split_ifs at hp
  exact hr.mem_hashes hp

/-- The window of a block to which the search for a reorg found the way clear. -/
theorem Candidate.windowVerified {result : ChainAddResult} (hr : Recorded config hist c)
    (hcandidate : Candidate core c height hash b b₁ c₁ result) (hbelow : VerifiedBelow hist c₁ b₁) :
    WindowVerified hist c₁ b₁ := by
  have hr₁ := hr.checked hcandidate.toChecked
  have hb₁ := hr.stored_checked hcandidate.toChecked
  have hrounds : c₁.config.shareWindow ≤ windowRounds c₁.config + 1 := by
    rw [windowRounds]
    have := Nat.le_max_right 1 (c₁.config.shareWindow - 1)
    change _ ≤ Nat.max 1 (c₁.config.shareWindow - 1) + 1
    change c₁.config.shareWindow - 1 ≤ Nat.max 1 (c₁.config.shareWindow - 1) at this
    omega
  -- each parent in the window was seen by the search or is below the main chain
  have hparent {i : Nat} {a : P2Block} (hi : i < windowRounds c₁.config)
      (ha : c₁.ancestorOf i b₁ = some a) (hheight : a.height ≠ 0) :
      Known hist a.prevHash ∧ ∀ p, c₁.parentOf a = some p → p.verified.isVerified = true := by
    by_cases hside : ∀ j < i, ∀ m, c₁.ancestorOf j b₁ = some m →
        c₁.chainBlockAt m.height ≠ m.hash
    · obtain ⟨p, hp, hverified⟩ := verified_of_scanAncestors hr₁.agree hb₁ hcandidate.scan
        hcandidate.noneMissing hi ha hheight hside
      refine ⟨hr₁.known hp, fun p' hp' => ?_⟩
      rw [hp, Option.some.injEq] at hp'
      exact hp' ▸ hverified
    · push Not at hside
      obtain ⟨j, hj, m, hm, hmark⟩ := hside
      exact hbelow.rest i j m a hj hi hm hmark ha hheight
  refine ⟨fun i hi a ha => ?_, fun i hi a ha hheight => (hparent (by omega) ha hheight).1⟩
  cases i with
  | zero =>
    cases ha
    exact hcandidate.verified
  | succ i =>
    rw [ancestorOf, ancestor_succ', Option.bind_eq_some_iff] at ha
    obtain ⟨y, hy, hp⟩ := ha
    have hheight : y.height ≠ 0 := by
      intro hzero
      rw [parentOf, if_pos hzero] at hp
      cases hp
    exact (hparent (by omega) hy hheight).2 a hp

/-! ### The invariant -/

theorem TipVerified.prunes (ht : TipVerified hist c) (hc : c.StoresAgree) (hp : Prunes c c') :
    TipVerified hist c' :=
  fun b hb => (ht b (hp.tip_of hc hb)).prunes hc hp

theorem TipVerified.checked (ht : TipVerified hist c) (hc : c.StoresAgree)
    (hv : Checked core c height hash b b₁ c₁) : TipVerified hist c₁ := by
  intro x₁ hx₁
  obtain ⟨x, hx, hgrows⟩ := hv.tip_of hc hx₁
  exact (ht x hx).checked hc hv hgrows

theorem TipVerified.writes (ht : TipVerified hist c) (hr : Recorded config hist c)
    (hd : Distinct (b :: hist)) (hfresh : ∀ a ∈ hist, a.hash ≠ b.hash) (hw : Writes c b c') :
    TipVerified (b :: hist) c' :=
  fun x hx => (ht x (hr.tip_of_writes hd hfresh hw hx)).writes hr.agree (hr.unused hfresh) hfresh hw

/-- The tip moves to `b` and levels are dropped. -/
theorem TipVerified.moved (hr : Recorded config hist c)
    (hb : c.storedBlock b.height b.hash = some b) (hw : WindowVerified hist c b)
    (hm : MovesTip c b c') : TipVerified hist c'.cleanupChain := by
  have hc' := hm.same.storesAgree hr.agree
  refine TipVerified.prunes (c := c') (fun x hx => ?_) hc' (Prunes.cleanupChain hc')
  rw [tipHash, hm.currentTip, hm.chainBlockAt, if_pos rfl, hm.same.storedBlock, hb,
    Option.some.injEq] at hx
  exact hx ▸ hw.sameBlocks hm.same

/-- A verification that returns and is guarded keeps the window of the tip verified. -/
theorem TipVerified.outcome (ht : TipVerified hist c) (hr : Recorded config hist c)
    (hguard : VisitGuarded core hist c height hash)
    {r : EStateM.Result Fault P2Chain (ChainAddResult × List (Nat × FixedHash))}
    (ho : Outcome core ord n height hash c r) (hreturns : Returns r) :
    TipVerified hist r.state := by
  cases ho with
  | overflow c' => exact absurd rfl (hreturns _ c')
  | absent | waiting | refused => exact ht
  | unverified hchecked | badUncles hchecked => exact ht.checked hr.agree hchecked
  | scanFault hoff | blocked hoff => exact ht.checked hr.agree hoff.toChecked
  | stayed hcandidate | reorgFault hcandidate => exact ht.checked hr.agree hcandidate.toChecked
  | @started b b₁ c₁ c₂ hchecked htip hheight hmoves =>
    refine TipVerified.moved (hr.checked hchecked) (hr.stored_checked hchecked) ?_ hmoves
    have htip' : c.getTip = none := by
      rw [getTip_eq_none_iff] at htip ⊢
      rw [← hchecked.tipHash_eq, htip]
    have hverified := hguard.start htip' hheight b _ hchecked.stored hchecked.statusAfter_eq
    exact WindowVerified.of_height_zero hverified ((hchecked.height_eq hr.agree).trans hheight)
  | @extended b b₁ c₁ c₂ hchecked hnotStart hverified honTip huncles hmoves =>
    have hr₁ := hr.checked hchecked
    refine TipVerified.moved hr₁ (hr.stored_checked hchecked) ?_ hmoves
    obtain ⟨tip, htip, hprev, hparent⟩ := hr₁.parentOf_of_buildsOnTip honTip
    refine (ht.checked hr.agree hchecked tip htip).extend hverified hparent (fun _ => ?_)
    rw [hprev]
    exact hr₁.mem_hashes htip
  | @reorganised b b₁ c₁ c₂ result hcandidate hpow hreorg =>
    have hr₁ := hr.checked hcandidate.toChecked
    have hbelow := hguard.reorg b₁ c₁ ⟨b, result, hcandidate, hpow⟩
    have hreorganises := hcandidate.reorganises hr.agree hreorg
    intro x hx
    change c₂.storedBlock c₂.currentTip c₂.tipHash = some x at hx
    rw [tipHash, hreorganises.currentTip, hreorganises.same.storedBlock] at hx
    refine WindowVerified.sameBlocks ?_ hreorganises.same
    rcases hreorganises.tipMark with hmark | ⟨hheight, hmark⟩
    · rw [hmark] at hx
      have hx' := hx.symm.trans (hr.stored_checked hcandidate.toChecked)
      rw [Option.some.injEq] at hx'
      exact hx' ▸ hcandidate.windowVerified hr hbelow
    · -- a block of height 0 has handed the mark on
      rw [hheight, hmark] at hx
      exact WindowVerified.of_height_zero (hbelow.bottom hheight x hx)
        (hr₁.agree.height_of_storedBlock hx)

theorem Run.tipVerified (hrun : Run core config (Guarded core) hist c) : TipVerified hist c := by
  induction hrun with
  | empty => intro b hb; simp at hb
  | refused _ _ ih => exact ih
  | @added hist c ord b hrun hnonzero hfresh hallowed hstep hreturns ih =>
    have hr := hrun.recorded
    have hd := (hrun.added hnonzero hfresh hallowed hstep hreturns).distinct
    have hinv := addBlock_inv (I := fun c => Recorded config (b :: hist) c ∧ TipVerified (b :: hist) c)
      hallowed hreturns
      (fun c₀ hw => ⟨hr.writes (hr.unused hfresh) hw, ih.writes hr hd hfresh hw⟩)
      (fun w height hash rest hvisits hqueue hI hret => by
        have ho := outcome_verifyChainInner core ord w.numProcessed height hash hI.1.agree
        exact ⟨hI.1.outcome ho hret,
          hI.2.outcome hI.1 (hstep w height hash rest hvisits hqueue) ho hret⟩)
    exact hinv.2
  | @generated hist c s ord template soloMine hrun _ ih =>
    obtain ⟨cached, heq⟩ := generate_state core s ord template soloMine c
    rw [heq]
    intro b hb
    exact ⟨(ih b hb).verified, (ih b hb).closed⟩

/-- In a run whose visits move the tip to verified windows only, the tip and its stored ancestors in
the share window are verified. -/
theorem tip_window_verified (hrun : Run core config (Guarded core) hist c) {tip : P2ChainLevel}
    (htip : c.getTip = some tip) : ∃ b, c.storedBlock tip.height tip.chainBlock = some b ∧
      ∀ i < config.shareWindow, ∀ a, c.ancestorOf i b = some a → a.verified.isVerified = true := by
  have hr := hrun.recorded
  obtain ⟨b, hb⟩ := hr.exists_tip (exists_getTip_iff.mp ⟨tip, htip⟩)
  rw [height_of_getTip htip, chainBlock_of_getTip htip]
  refine ⟨b, hb, fun i hi a ha => ?_⟩
  exact (hrun.tipVerified b hb).verified i (by rwa [hr.config_eq]) a ha

/-- A first block of height 0 that lists an uncle nobody has: it becomes the tip unverified. -/
theorem tip_unverified : ∃ hist c, Run sampleCore (sampleConfig 10) Unrestricted hist c ∧
    (c.getTip.bind fun tip => (c.storedBlock tip.height tip.chainBlock).map
      (·.verified.isVerified)) = some false :=
  ⟨_, _, Run.of_blocks IterOrder.stored (fun _ _ _ => true) (fun _ _ _ _ => trivial)
    [{ sampleBlock 1 0 0 1 with uncles := [(0, 77)] }] (by decide), by decide⟩

/-- The next block to visit passes its checks if it is to start the chain. -/
def passes (core : TariCore) (w : WalkState) : Bool :=
  match w.nextLevel with
  | [] => true
  | (height, hash) :: _ =>
    height != 0 || match w.chain.storedBlock height hash with
    | none => true
    | some b =>
      match w.chain.statusAfter core b with
      | .ok v => v.isVerified
      | .error _ => true

theorem guarded_of_upright (hrun : Run core config P hist c) (hfresh : ∀ a ∈ hist, a.hash ≠ b.hash)
    (h : visitsAll core ord (fun w => upright w && passes core w) c b = true) :
    Guarded core hist c ord b := by
  intro w height hash rest hvisits hqueue
  have htest := of_visitsAll h hvisits
  rw [Bool.and_eq_true] at htest
  refine ⟨fun _ hzero b v hb hstatus => ?_, fun b₁ c₁ hreorgs => ?_⟩
  · have hpasses := htest.2
    subst hzero
    simpa [passes, hqueue, hb, hstatus] using hpasses
  · have hrw := hrun.recorded.visits (hrun.recorded.unused hfresh) hvisits
    obtain ⟨hne, hparents⟩ := parents_of_upright hrw.agree htest.1 hqueue hreorgs
    obtain ⟨b', result, hcandidate, -⟩ := hreorgs
    have hr₁ := hrw.checked hcandidate.toChecked
    refine ⟨fun hzero => absurd ((hcandidate.height_eq hrw.agree).symm.trans hzero) hne, ?_⟩
    intro i j m a hlt _ _ _ ha hheight
    obtain ⟨p, hp, hverified⟩ := hparents i a (Nat.ne_zero_of_lt hlt) ha hheight
    refine ⟨?_, fun p' hp' => ?_⟩
    · have hknown := hr₁.mem_hashes (stored_of_parentOf hr₁.agree hp)
      rwa [hash_of_parentOf hr₁.agree hp] at hknown
    · rw [hp, Option.some.injEq] at hp'
      rwa [← hp']

theorem tip_window_verified_branch : ∃ b,
    rejoinedChain.storedBlock (rejoinedChain.getTip.get (by decide)).height
      (rejoinedChain.getTip.get (by decide)).chainBlock = some b ∧
      ∀ i < (sampleConfig 10).shareWindow, ∀ a, rejoinedChain.ancestorOf i b = some a →
        a.verified.isVerified = true :=
  tip_window_verified
    (Run.of_blocks_of_run IterOrder.stored
      (fun _ c b => visitsAll sampleCore .stored (fun w => upright w && passes sampleCore w) c b)
      (fun _ _ _ hrun _ hfresh h => guarded_of_upright hrun hfresh h) (branchBlocks ++ [branchBlock])
      (by decide))
    (Option.some_get _).symm

end P2Chain

end ShaP2Pool
