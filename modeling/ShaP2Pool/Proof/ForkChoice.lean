import ShaP2Pool.Proof.Pruning
import ShaP2Pool.Proof.Waiting

/-!
# Fork choice

A stored block is a candidate for the tip once it and its ancestors in the share window are
verified. The walk takes up what descends from each newly verified block, so that no candidate is
left heavier than the tip, unless a visit drops a block that leads to one, or moves the tip to a
lighter block. Which blocks may become candidates by a visit can be told before it: those whose
ancestors are verified but for the visited block.
-/

namespace ShaP2Pool

namespace P2Chain

open Lineage

variable {core : TariCore} {ord : IterOrder} {config : ChainConfig} {hist : List P2Block}
  {c c' c₀ c₁ c₂ chain : P2Chain} {a b b₁ x : P2Block} {height n i : Nat}
  {hash z : FixedHash} {w : WalkState} {rest : List (Nat × FixedHash)}
  {next : List (Nat × FixedHash)} {addResult : ChainAddResult}

/-- The stored block with the hash is a candidate for the tip, and is heavier than the tip. -/
def Heavier (c : P2Chain) (hash : FixedHash) : Prop :=
  ∃ height x, c.storedBlock height hash = some x ∧ x.verified.isVerified = true ∧ c.Rooted x ∧
    c.totalAccumulatedTipDifficulty < x.totalPow

/-! ### The weight of the tip -/

theorem totalPow_of_installed (hc : c.StoresAgree) (hb : c.storedBlock b.height b.hash = some b)
    (hnonzero : b.hash ≠ FixedHash.zero) (htip : c.currentTip = b.height)
    (hmark : c.chainBlockAt b.height = b.hash) : c.totalAccumulatedTipDifficulty = b.totalPow := by
  have hhash : c.tipHash = b.hash := by rw [tipHash, htip, hmark]
  refine totalPow_of_tip hc (by rwa [hhash]) ?_
  rw [htip, hhash, hb]

theorem totalPow_congr (hr : Recorded config hist c) (hc' : c'.StoresAgree)
    (htip : c'.currentTip = c.currentTip) (hmark : c'.tipHash = c.tipHash)
    (hkept : ∀ t, c.storedBlock c.currentTip c.tipHash = some t →
      ∃ t', c'.storedBlock c.currentTip c.tipHash = some t' ∧ t'.totalPow = t.totalPow) :
    c'.totalAccumulatedTipDifficulty = c.totalAccumulatedTipDifficulty := by
  by_cases hzero : c.tipHash = FixedHash.zero
  · rw [totalPow_of_no_tip hzero, totalPow_of_no_tip (by rw [hmark, hzero])]
  · obtain ⟨t, ht⟩ := hr.exists_tip hzero
    obtain ⟨t', ht', hpow⟩ := hkept t ht
    rw [totalPow_of_tip hr.agree hzero ht,
      totalPow_of_tip hc' (by rwa [hmark]) (by rw [htip, hmark, ht']), hpow]

theorem Writes.totalPow_eq (hr : Recorded config hist c) (hfresh : ∀ a ∈ hist, a.hash ≠ b.hash)
    (hw : Writes c b c₀) :
    c₀.totalAccumulatedTipDifficulty = c.totalAccumulatedTipDifficulty :=
  totalPow_congr hr (hr.writes (hr.unused hfresh) hw).agree hw.currentTip hw.tipHash_eq
    fun t ht => ⟨t, hr.storedBlock_before hfresh hw ht, rfl⟩

theorem Checked.totalPow_eq (hr : Recorded config hist c) (hv : Checked core c height hash b b₁ c₁) :
    c₁.totalAccumulatedTipDifficulty = c.totalAccumulatedTipDifficulty := by
  refine totalPow_congr hr (hv.storesAgree hr.agree) hv.currentTip hv.tipHash_eq fun t ht => ?_
  obtain ⟨t', ht', hgrows⟩ := hv.exists_storedBlock hr.agree ht
  exact ⟨t', ht', hgrows.totalPow_eq⟩

/-- A new tip that no level is dropped behind. -/
theorem MovesTip.totalPow_eq (hr : Recorded config hist c) (hd : Distinct hist)
    (hv : Checked core c height hash b b₁ c₁) (hm : MovesTip c₁ b₁ c₂) :
    c₂.totalAccumulatedTipDifficulty = b₁.totalPow := by
  have hr₁ := hr.checked hv
  have hb₁ := hr.stored_checked hv
  refine totalPow_of_installed (hm.same.storesAgree hr₁.agree) ?_ (hr₁.hash_ne_zero hd hb₁)
    hm.currentTip ?_
  · rw [hm.same.storedBlock, hb₁]
  · rw [hm.chainBlockAt, if_pos rfl]

theorem Candidate.totalPow_eq {result : ChainAddResult} (hr : Recorded config hist c)
    (hd : Distinct hist) (hcandidate : Candidate core c height hash b b₁ c₁ result)
    (hreorg : c₁.reorg b₁.header = .ok c₂) (hne : height ≠ 0) :
    c₂.totalAccumulatedTipDifficulty = b₁.totalPow := by
  have hr₁ := hr.checked hcandidate.toChecked
  have hb₁ := hr.stored_checked hcandidate.toChecked
  have hreorganises := hcandidate.reorganises hr.agree hreorg
  refine totalPow_of_installed (hreorganises.same.storesAgree hr₁.agree) ?_
    (hr₁.hash_ne_zero hd hb₁) hreorganises.currentTip ?_
  · rw [hreorganises.same.storedBlock, hb₁]
  · obtain hmark | ⟨hzero, -⟩ := hreorganises.tipMark
    · exact hmark
    · rw [P2Block.header_height, hcandidate.height_eq hr.agree] at hzero
      exact absurd hzero hne

/-! ### New candidates -/

theorem transGen_of_ancestorOf (hr : Recorded config hist c)
    (hx : c.storedBlock x.height x.hash = some x) (hi : 0 < i) (ha : c.ancestorOf i x = some a) :
    Relation.TransGen (NamedBy hist) a.hash x.hash := by
  have hnamed {y p : P2Block} (hy : c.storedBlock y.height y.hash = some y)
      (hp : c.parentOf y = some p) : NamedBy hist p.hash y.hash :=
    namedBy_of_names hr hy (Or.inl (hash_of_parentOf hr.agree hp).symm)
  induction i generalizing x with
  | zero => omega
  | succ i ih =>
    rw [ancestorOf, ancestor_succ] at ha
    obtain ⟨p, hp, ha⟩ := Option.bind_eq_some_iff.mp ha
    have hlast := hnamed hx hp
    cases i with
    | zero =>
      cases ha
      exact Relation.TransGen.single hlast
    | succ i => exact (ih (stored_of_parentOf hr.agree hp) (by omega) ha).tail hlast

/-- The ancestors of a block are stored and verified as far as the search for a reorg looks, the
block `visited` aside. -/
def RootedBut (c : P2Chain) (visited : FixedHash) (b : P2Block) : Prop :=
  ∀ i < windowRounds c.config, ∀ a, c.ancestorOf i b = some a → a.height ≠ 0 →
    a.prevHash = visited ∨ ∃ p, c.parentOf a = some p ∧ p.verified.isVerified = true

/-- The stored block with the hash is heavier than the tip, and a candidate for it but for the block
`visited` among its ancestors. -/
def MayWin (c : P2Chain) (visited hash : FixedHash) : Prop :=
  ∃ height x, c.storedBlock height hash = some x ∧ x.verified.isVerified = true ∧
    c.RootedBut visited x ∧ c.totalAccumulatedTipDifficulty < x.totalPow

/-- A candidate after a change to the block `visited` was one before, that block aside. -/
theorem Rooted.rootedBut {visited : FixedHash} (hc : c.StoresAgree)
    (hconfig : c'.config = c.config)
    (hsame : ∀ {height hash' y}, hash' ≠ visited → c'.storedBlock height hash' = some y →
      c.storedBlock height hash' = some y)
    (hvisited : ∀ {height y y'}, c.storedBlock height visited = some y →
      c'.storedBlock height visited = some y' → y'.withoutStatus = y.withoutStatus)
    (h : c'.Rooted x) : c.RootedBut visited x := by
  have hparent {a a' p' : P2Block} (hcontent : a'.withoutStatus = a.withoutStatus)
      (hne : a.prevHash ≠ visited) (hp' : c'.parentOf a' = some p') : c.parentOf a = some p' := by
    rw [parentOf, field_eq P2Block.height (fun _ _ => rfl) hcontent,
      field_eq P2Block.prevHash (fun _ _ => rfl) hcontent] at hp'
    rw [parentOf]
    split_ifs at hp' ⊢
    exact hsame hne hp'
  -- the ancestors that count are the same after the change, but for flags
  have hancestor (n : Nat) : n ≤ windowRounds c'.config → ∀ a, c.ancestorOf n x = some a →
      ∃ a', c'.ancestorOf n x = some a' ∧ a'.withoutStatus = a.withoutStatus := by
    induction n with
    | zero =>
      intro _ a ha
      cases ha
      exact ⟨x, rfl, rfl⟩
    | succ n ih =>
      intro hn a ha
      rw [ancestorOf, ancestor_succ'] at ha
      obtain ⟨y, hy, hpa⟩ := Option.bind_eq_some_iff.mp ha
      obtain ⟨y', hy', hcontent⟩ := ih (by omega) y hy
      have hheight := height_of_parentOf hc hpa
      have hheight' : y'.height ≠ 0 := by
        rw [field_eq P2Block.height (fun _ _ => rfl) hcontent]
        omega
      obtain ⟨p', hp', -⟩ := h n (by omega) y' hy' hheight'
      refine ⟨p', ?_, ?_⟩
      · rw [ancestorOf, ancestor_succ', show ancestor c'.parentOf n x = some y' from hy',
          Option.bind_some, hp']
      · by_cases hprev : y.prevHash = visited
        · rw [parentOf, if_neg hheight', field_eq P2Block.height (fun _ _ => rfl) hcontent,
            field_eq P2Block.prevHash (fun _ _ => rfl) hcontent, hprev] at hp'
          rw [parentOf, if_neg (by omega), hprev] at hpa
          exact hvisited hpa hp'
        · rw [hparent hcontent hprev hp', Option.some.injEq] at hpa
          rw [hpa]
  intro i hi a ha hheight
  rw [← hconfig] at hi
  obtain ⟨a', ha', hcontent⟩ := hancestor i hi.le a ha
  obtain ⟨p', hp', hverified⟩ := h i hi a' ha' (by
    rwa [field_eq P2Block.height (fun _ _ => rfl) hcontent])
  by_cases hprev : a.prevHash = visited
  · exact Or.inl hprev
  · exact Or.inr ⟨p', hparent hcontent hprev hp', hverified⟩

theorem Heavier.mayWin {visited : FixedHash} (hc : c.StoresAgree) (hconfig : c'.config = c.config)
    (hsame : ∀ {height hash' y}, hash' ≠ visited → c'.storedBlock height hash' = some y →
      c.storedBlock height hash' = some y)
    (hvisited : ∀ {height y y'}, c.storedBlock height visited = some y →
      c'.storedBlock height visited = some y' → y'.withoutStatus = y.withoutStatus)
    (hpow : c.totalAccumulatedTipDifficulty ≤ c'.totalAccumulatedTipDifficulty) (hne : z ≠ visited)
    (h : c'.Heavier z) : c.MayWin visited z := by
  obtain ⟨height, x, hx, hverified, hroot, hheavy⟩ := h
  exact ⟨height, x, hsame hne hx, hverified, hroot.rootedBut hc hconfig hsame hvisited,
    hpow.trans_lt hheavy⟩

/-- What may win is a candidate already, or the block aside leads to it. -/
theorem MayWin.cases {visited : FixedHash} (hr : Recorded config hist c)
    (h : c.MayWin visited z) :
    c.Heavier z ∨ Relation.TransGen (NamedBy hist) visited z := by
  obtain ⟨height, x, hx, hverified, hroot, hheavy⟩ := h
  have hhash := hr.agree.hash_of_storedBlock hx
  have hself : c.storedBlock x.height x.hash = some x := by
    rw [hr.agree.height_of_storedBlock hx, hhash, hx]
  by_cases hamong : ∃ i a, c.ancestorOf i x = some a ∧ a.prevHash = visited
  · obtain ⟨i, a, ha, hprev⟩ := hamong
    have hfirst : NamedBy hist visited a.hash :=
      namedBy_of_names hr (stored_of_ancestorOf hr.agree hself ha) (Or.inl hprev)
    rw [← hhash]
    refine Or.inr ?_
    cases i with
    | zero =>
      cases ha
      exact Relation.TransGen.single hfirst
    | succ i => exact Relation.TransGen.head hfirst (transGen_of_ancestorOf hr hself (Nat.succ_pos i) ha)
  · refine Or.inl ⟨height, x, hx, hverified, fun i hi a ha hheight => ?_, hheavy⟩
    exact (hroot i hi a ha hheight).resolve_left fun hprev => hamong ⟨i, a, ha, hprev⟩

/-! ### One visit -/

/-- What a visit must respect for no candidate to stay heavier than the tip: it does not move the
tip to a lighter block or, by a reorg, to height 0, and a verified block does not wait. -/
structure KeepsHeaviest (core : TariCore) (c : P2Chain) (height : Nat) (hash : FixedHash) : Prop where
  notLighter : ∀ x, c.storedBlock height hash = some x → SetsNewTip core c height hash →
    c.totalAccumulatedTipDifficulty ≤ x.totalPow
  notToStart : ∀ b₁ c₁, ReorgsTo core c height hash b₁ c₁ → height ≠ 0
  inTime : ∀ x, c.storedBlock height hash = some x → x.verified.isVerified = true → c.Complete x

theorem not_heavier_of_le (hc : c.StoresAgree) (hb : c.storedBlock height hash = some b)
    (hpow : b.totalPow ≤ c.totalAccumulatedTipDifficulty) : ¬c.Heavier hash := by
  intro ⟨height', x, hx, _, _, hheavy⟩
  obtain ⟨-, rfl⟩ := hc.storedBlock_inj hx hb
  exact absurd hheavy (not_lt.mpr hpow)

/-- The tip does not get lighter, and the visited block is not heavier than it. -/
theorem KeepsHeaviest.visited (hguard : KeepsHeaviest core c height hash)
    (hr : Recorded config hist c) (hd : Distinct hist)
    (hfew : c.levels.size ≤ maxLevels c.config)
    (ho : Outcome core ord n height hash c (.ok (addResult, next) chain)) :
    c.totalAccumulatedTipDifficulty ≤ chain.totalAccumulatedTipDifficulty ∧ ¬chain.Heavier hash := by
  have hc := hr.agree
  -- a new tip set by `set_new_tip`
  have hmoved {b b₁ : P2Block} {c₁ c₂ : P2Chain} (hchecked : Checked core c height hash b b₁ c₁)
      (hmoves : MovesTip c₁ b₁ c₂) (hset : SetsNewTip core c height hash) :
      c.totalAccumulatedTipDifficulty ≤ c₂.cleanupChain.totalAccumulatedTipDifficulty ∧
        ¬c₂.cleanupChain.Heavier hash := by
    have hsize : c₂.levels.size ≤ maxLevels c₂.config := by
      rw [hmoves.size, hmoves.same.config, hchecked.config,
        size_levels_congr (hchecked.levelAtHeight_isSome hc)]
      exact hfew
    rw [cleanupChain_eq_self hsize, hmoves.totalPow_eq hr hd hchecked]
    have hstored : c₂.storedBlock height hash = some b₁ := by
      rw [hmoves.same.storedBlock, hchecked.storedBlock_self hc]
    refine ⟨?_, not_heavier_of_le (hmoves.same.storesAgree (hchecked.storesAgree hc)) hstored
      (hmoves.totalPow_eq hr hd hchecked).ge⟩
    rw [hchecked.grows.totalPow_eq]
    exact hguard.notLighter b hchecked.stored hset
  cases ho with
  | @waiting b hstored hmissing =>
    refine ⟨le_rfl, ?_⟩
    intro ⟨height', x, hx, hverified, _⟩
    obtain ⟨-, rfl⟩ := hc.storedBlock_inj hx hstored
    rw [Ne, complete_iff hc hstored] at hmissing
    exact hmissing (hguard.inTime x hstored hverified)
  | started hchecked htip hheight hmoves =>
    exact hmoved hchecked hmoves ((hchecked.setsNewTip_iff hc).mpr (Or.inl ⟨htip, hheight⟩))
  | @unverified b b₁ c₁ hchecked _ hunverified =>
    refine ⟨(hchecked.totalPow_eq hr).ge, ?_⟩
    intro ⟨height', x, hx, hverified, _⟩
    obtain ⟨-, rfl⟩ := (hchecked.storesAgree hc).storedBlock_inj hx (hchecked.storedBlock_self hc)
    rw [hunverified] at hverified
    cases hverified
  | extended hchecked _ hverified honTip huncles hmoves =>
    exact hmoved hchecked hmoves
      ((hchecked.setsNewTip_iff hc).mpr (Or.inr ⟨hverified, honTip, huncles⟩))
  | @blocked b b₁ c₁ _ _ hoff hscan hblocked =>
    have hc₁ := hoff.storesAgree hc
    refine ⟨(hoff.toChecked.totalPow_eq hr).ge, ?_⟩
    intro ⟨height', x, hx, _, hroot, _⟩
    obtain ⟨-, rfl⟩ := hc₁.storedBlock_inj hx (hoff.storedBlock_self hc)
    rw [scanAncestors_of_verified hc₁ (hr.stored_checked hoff.toChecked) hroot, Except.ok.injEq,
      Prod.mk.injEq] at hscan
    obtain ⟨rfl, rfl⟩ := hscan
    obtain hfalse | hmissing := hblocked
    · cases hfalse
    · exact hmissing rfl
  | stayed hcandidate hpow =>
    exact ⟨(hcandidate.toChecked.totalPow_eq hr).ge,
      not_heavier_of_le (hcandidate.storesAgree hc) (hcandidate.storedBlock_self hc) hpow⟩
  | @reorganised b b₁ c₁ _ _ hcandidate hpow hreorg =>
    have hsame := (hcandidate.reorganises hc hreorg).same
    have hne := hguard.notToStart b₁ c₁ ⟨b, _, hcandidate, hpow⟩
    have htip := hcandidate.totalPow_eq hr hd hreorg hne
    rw [hcandidate.toChecked.totalPow_eq hr] at hpow
    have hstored : chain.storedBlock height hash = some b₁ := by
      rw [hsame.storedBlock, hcandidate.storedBlock_self hc]
    refine ⟨?_, not_heavier_of_le (hsame.storesAgree (hcandidate.storesAgree hc)) hstored htip.ge⟩
    rw [htip]
    exact hpow.le

/-! ### The heaviest chain -/

/-- What a call must respect for the tip to be the heaviest candidate after it. -/
structure ForkChoiceGuarded (core : TariCore) (hist : List P2Block) (c : P2Chain) (ord : IterOrder)
    (b : P2Block) : Prop where
  /-- no level is dropped by the call -/
  few : c.levels.size < maxLevels c.config
  visits : ∀ w height hash rest, Visits core ord b c w → w.nextLevel = (height, hash) :: rest →
    KeepsHeaviest core w.chain height hash
  keeps : ∀ w height hash rest, Visits core ord b c w → w.nextLevel = (height, hash) :: rest →
    KeepsPending core ord (b :: hist) (w.chain.MayWin hash) w height hash rest

/-- A call that succeeds leaves no candidate heavier than the tip. -/
theorem not_heavier_of_call (hr : Recorded config hist c) (hd : Distinct (b :: hist))
    (hfresh : ∀ a ∈ hist, a.hash ≠ b.hash) (hguard : ForkChoiceGuarded core hist c ord b)
    (hbefore : ∀ z, ¬c.Heavier z) {result : ChainAddResult}
    (hok : addBlockToChain core ord b c = .ok result c') (z : FixedHash) : ¬c'.Heavier z := by
  have hpending : c'.levels.size ≤ maxLevels c'.config ∧
      ∀ z, c'.Heavier z → Pending (NamedBy (b :: hist)) [] z := by
    refine walk_rule (I := fun c queue => c.levels.size ≤ maxLevels c.config ∧
      ∀ z, c.Heavier z → Pending (NamedBy (b :: hist)) queue z) hok (fun c₀ hw => ⟨?_, fun z hz => ?_⟩) ?_
    · rw [hw.config]
      exact hw.size_levels_le.trans hguard.few
    · have hr₀ := hr.writes (hr.unused hfresh) hw
      by_cases hself : z = b.hash
      · rw [hself]
        exact Pending.of_mem List.mem_cons_self
      · have hsame {height : Nat} {hash' : FixedHash} {y : P2Block} (hne : hash' ≠ b.hash)
            (hy : c₀.storedBlock height hash' = some y) : c.storedBlock height hash' = some y := by
          rwa [hw.storedBlock hr.agree (hr.unused hfresh), if_neg (fun h => hne h.2)] at hy
        have hnew {height : Nat} {y y' : P2Block} (hy : c.storedBlock height b.hash = some y)
            (_ : c₀.storedBlock height b.hash = some y') : y'.withoutStatus = y.withoutStatus := by
          obtain ⟨a, ha, hcontent, -⟩ := hr.content hy
          refine absurd ?_ (hfresh a ha)
          rw [hash_of_withoutStatus hcontent, hr.agree.hash_of_storedBlock hy]
        have hwin := hz.mayWin hr.agree hw.config hsame hnew (hw.totalPow_eq hr hfresh).ge hself
        obtain hold | hlead := hwin.cases hr
        · exact absurd hold (hbefore z)
        · have hmore : NamedBy hist ≤ NamedBy (b :: hist) := by
            intro y y' h
            obtain ⟨a, ha, hnamed⟩ := h
            exact ⟨a, List.mem_cons_of_mem b ha, hnamed⟩
          exact Pending.of_leads List.mem_cons_self
            (Relation.TransGen.mono hmore _ _ hlead).to_reflTransGen
    · intro w height hash rest addResult next chain hvisits hqueue hinner ⟨hfew, hI⟩
      have hr' := hr.visits (hr.unused hfresh) hvisits
      have ho := outcome_verifyChainInner core ord w.numProcessed height hash hr'.agree
      rw [hinner] at ho
      have hreturns : Returns (EStateM.Result.ok (ε := Fault) (addResult, next) chain) := .of_ok rfl
      have hrNext := hr'.outcome ho hreturns
      have hconfig : chain.config = w.chain.config := hrNext.config_eq.trans hr'.config_eq.symm
      obtain ⟨hpow, hvisited⟩ :=
        (hguard.visits w height hash rest hvisits hqueue).visited hr' hd hfew ho
      refine ⟨?_, fun z hz => ?_⟩
      · rw [hconfig]
        exact ((levelsAfter hr'.agree ho hreturns).size_le hr'.agree).trans hfew
      · have hne {z : FixedHash} (hz : chain.Heavier z) : z ≠ hash := by
          rintro rfl
          exact hvisited hz
        have hwin (z : FixedHash) (hz : chain.Heavier z) : w.chain.MayWin hash z := by
          refine hz.mayWin hr'.agree hconfig
            (fun hne hy => storedBlock_of_outcome_ne hr'.agree ho hreturns hne hy)
            (fun hy hy' => ?_) hpow (hne hz)
          obtain ⟨y, hy₀, hcontent, -⟩ := storedBlock_of_outcome hr'.agree ho hreturns hy'
          rw [hy, Option.some.injEq] at hy₀
          rw [hy₀, hcontent]
        refine pending_of_visit hr' hd hqueue hinner (hguard.keeps w height hash rest hvisits hqueue)
          hI hwin (fun z hz => ?_) hz
        obtain hold | hlead := (hwin z hz).cases hr'
        · exact Or.inl ⟨hold, hne hz⟩
        · exact Or.inr hlead
  exact fun hz => Pending.not_nil (hpending.2 z hz)

theorem AddRun.not_heavier (hrun : AddRun core config (ForkChoiceGuarded core) hist c)
    (z : FixedHash) : ¬c.Heavier z := by
  induction hrun generalizing z with
  | empty =>
    intro ⟨height, x, hx, _⟩
    cases hx
  | @added hist c c' ord b result hrun hnonzero hfresh hguard hok ih =>
    exact not_heavier_of_call hrun.run.recorded (hrun.run.distinct.cons hnonzero hfresh) hfresh hguard
      ih hok z

/-- In a run of calls that all succeed, whose visits keep the tip from getting lighter and leave out
no block that leads to one that may win, no stored verified block with verified ancestors is heavier
than the tip. -/
theorem heaviest_chain_wins (hrun : AddRun core config (ForkChoiceGuarded core) hist c)
    (hwindow : 2 ≤ config.shareWindow) (hx : c.storedBlock height hash = some x)
    (hverified : x.verified.isVerified = true)
    (hancestors : ∀ i < config.shareWindow - 1, ∀ a, c.ancestorOf i x = some a → a.height ≠ 0 →
      ∃ p, c.parentOf a = some p ∧ p.verified.isVerified = true) :
    x.totalPow ≤ c.totalAccumulatedTipDifficulty := by
  have hroot : c.Rooted x := by
    intro i hi
    have hrounds := windowRounds_cases config
    rw [hrun.run.recorded.config_eq] at hi
    exact hancestors i (by omega)
  by_contra hheavy
  exact hrun.not_heavier hash ⟨height, x, hx, hverified, hroot, not_le.mp hheavy⟩

def loweredChain : P2Chain :=
  addAll sampleCore .stored [sampleBlock 1 0 0 1, sampleBlock 2 1 1 2, sampleBlock 3 2 0 1]
    (newEmpty (sampleConfig 10))

/-- A block of height 0 that names the tip is put on it without being its child, and the tip gets
lighter than the block it was. -/
theorem heavier_chain_left : ∃ hist x, AddRun sampleCore (sampleConfig 10) Unrestricted hist loweredChain ∧
    loweredChain.levels.size < maxLevels loweredChain.config ∧ loweredChain.storedBlock 1 2 = some x ∧
    x.verified.isVerified = true ∧ loweredChain.Rooted x ∧
    loweredChain.totalAccumulatedTipDifficulty < x.totalPow := by
  have hrun : AddRun sampleCore (sampleConfig 10) Unrestricted _ loweredChain :=
    AddRun.of_blocks IterOrder.stored (fun _ _ _ => true) (fun _ _ _ _ => trivial) _ (by decide)
  have hparent : ∀ p ∈ loweredChain.parentOf ((loweredChain.storedBlock 1 2).get (by decide)),
      p.height = 0 ∧ p.verified.isVerified = true := by decide
  obtain ⟨p, hp⟩ := Option.isSome_iff_exists.mp
    (show (loweredChain.parentOf ((loweredChain.storedBlock 1 2).get (by decide))).isSome = true by
      decide)
  obtain ⟨hzero, hverified⟩ := hparent p hp
  exact ⟨_, _, hrun, by decide, (Option.some_get (by decide)).symm, by decide,
    (rooted_of_height_zero hzero).of_parent hp hverified, by decide⟩

/-- The next block to visit was not verified before and is no lighter than the tip, and it starts
the chain if it is of height 0. -/
def rising (w : WalkState) : Bool :=
  match w.nextLevel with
  | [] => true
  | (height, hash) :: _ =>
    (height != 0 || w.chain.getTip.isNone) &&
      (w.chain.storedBlock height hash).all fun x =>
        decide (w.chain.totalAccumulatedTipDifficulty ≤ x.totalPow) && !x.verified.isVerified

theorem keepsHeaviest_of_rising (h : rising w = true) (hqueue : w.nextLevel = (height, hash) :: rest) :
    KeepsHeaviest core w.chain height hash := by
  rw [rising, hqueue, Bool.and_eq_true, Bool.or_eq_true, bne_iff_ne, Option.isNone_iff_eq_none] at h
  obtain ⟨hstart, hrising⟩ := h
  have hvisited (x : P2Block) (hx : w.chain.storedBlock height hash = some x) :
      w.chain.totalAccumulatedTipDifficulty ≤ x.totalPow ∧ x.verified.isVerified = false := by
    simp only [hx, Option.all_some, Bool.and_eq_true, decide_eq_true_eq, Bool.not_eq_true'] at hrising
    exact hrising
  refine ⟨fun x hx _ => (hvisited x hx).1, fun b₁ c₁ hreorgs hzero => ?_, fun x hx hverified => ?_⟩
  · obtain ⟨b, result, hcandidate, -⟩ := hreorgs
    refine hcandidate.notStart ⟨?_, hzero⟩
    rw [hcandidate.toChecked.getTip_eq_none_iff]
    exact hstart.resolve_left (not_not.mpr hzero)
  · rw [(hvisited x hx).2] at hverified
    cases hverified

/-- Two blocks, and a branch to the first one of which the upper block comes before the lower
one. -/
def lateBranch : List P2Block :=
  [sampleBlock 1 0 0 1, sampleBlock 2 1 1 2, sampleBlock 5 4 2 3, sampleBlock 4 1 1 2]

def lateBranchChain : P2Chain := addAll sampleCore .stored lateBranch (newEmpty (sampleConfig 10))

/-- The call that brings the lower block of the branch verifies the upper one and reorganises to it,
and the tip is no lighter than the block it was on. -/
theorem heaviest_chain_wins_branch :
    ((lateBranchChain.storedBlock 1 2).get (by decide)).totalPow ≤
      lateBranchChain.totalAccumulatedTipDifficulty := by
  have hrun : AddRun sampleCore (sampleConfig 10) (ForkChoiceGuarded sampleCore) lateBranch.reverse
      lateBranchChain := by
    refine AddRun.of_blocks IterOrder.stored
      (fun hist c b => decide (c.levels.size < maxLevels c.config) &&
        visitsAll sampleCore .stored
          (fun w => rising w && queuesAll sampleCore .stored (b :: hist) w) c b)
      (fun hist c b h => ?_) lateBranch (by decide)
    rw [Bool.and_eq_true, decide_eq_true_eq] at h
    have htest {w : WalkState} (hvisits : Visits sampleCore .stored b c w) :
        rising w = true ∧ queuesAll sampleCore .stored (b :: hist) w = true :=
      Bool.and_eq_true_iff.mp (of_visitsAll h.2 hvisits)
    exact ⟨h.1, fun w height hash rest hvisits hqueue =>
        keepsHeaviest_of_rising (htest hvisits).1 hqueue,
      fun w height hash rest hvisits hqueue => keepsPending_of_queuesAll (htest hvisits).2 hqueue⟩
  have hparents : ∀ i < 9,
      ∀ a ∈ lateBranchChain.ancestorOf i ((lateBranchChain.storedBlock 1 2).get (by decide)),
        a.height ≠ 0 → ((lateBranchChain.parentOf a).map (·.verified.isVerified)) = some true := by
    decide
  refine heaviest_chain_wins hrun (by decide) (Option.some_get (by decide)).symm (by decide)
    fun i hi a ha hne => ?_
  obtain ⟨p, hp, hverified⟩ := Option.map_eq_some_iff.mp (hparents i hi a ha hne)
  exact ⟨p, hp, hverified⟩

end P2Chain

end ShaP2Pool
