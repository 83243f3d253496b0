import ShaP2Pool.Proof.Ancestry

/-!
# The target difficulty

The difficulty window of the chain holds the samples of the tip and its recorded ancestors, as the
slow path collects them from the stored headers. So the target difficulty of a block depends on its
ancestors alone, where neither path meets the edge at height 0 and no reorg has left the window
short.
-/

namespace ShaP2Pool

namespace P2Chain

open Lineage

variable {core : TariCore} {ord : IterOrder} {config : ChainConfig} {n height i : Nat}
variable {hash : FixedHash} {c c' c₀ c₁ c₂ : P2Chain} {a b b₁ : P2Block} {hist : List P2Block}

def sample (b : P2Block) : EpochTime × Difficulty := (b.timestamp, b.targetDifficulty)

theorem Grows.sample_eq {x x₁ : P2Block} (hg : Grows x x₁) : sample x₁ = sample x :=
  field_eq sample (fun _ _ => rfl) hg.content

/-- The samples of a block and its recorded ancestors, newest first, as many as the window takes. -/
def samples (hist : List P2Block) (b : P2Block) : List (EpochTime × Difficulty) :=
  (lineage (parentIn hist) (difficultyAdjustmentWindow + 1) b).map sample

/-- The ancestors of `b` in the two chains are the same but for their flags. -/
def SameAncestry (n : Nat) (c₁ c₂ : P2Chain) (b : P2Block) : Prop :=
  ∀ i ≤ n, (c₁.ancestorOf i b).map P2Block.withoutStatus =
    (c₂.ancestorOf i b).map P2Block.withoutStatus

/-- The invariant: the difficulty window of the chain holds the samples of the tip and its
ancestors. -/
def WindowHolds (hist : List P2Block) (c : P2Chain) : Prop :=
  ∀ b, c.storedBlock c.currentTip c.tipHash = some b →
    RecordedBack difficultyAdjustmentWindow hist b ∧ c.lwma.Holds (samples hist b)

/-! ### Lineages of samples -/

theorem samples_eq {x x' : P2Block} (hd : Distinct hist) (hcontent : x.withoutStatus = x'.withoutStatus)
    (h : RecordedBack difficultyAdjustmentWindow hist x)
    (h' : RecordedBack difficultyAdjustmentWindow hist x') : samples hist x = samples hist x' :=
  lineage_congr (fun _ _ heq => field_eq sample (fun _ _ => rfl) heq) hcontent hd.agree h h'

theorem samples_of_storedBack (hr : Recorded config hist c) (hd : Distinct hist) {x x₁ : P2Block}
    (hx : Grows x x₁) (hstored : StoredBack difficultyAdjustmentWindow c x₁) :
    (lineage c.parentOf (difficultyAdjustmentWindow + 1) x₁).map sample = samples hist x :=
  hr.lineage_eq hd hx hstored (fun _ _ hg => hg.sample_eq)

/-! ### The two walks that fill a window -/

theorem holds_of_lineage {parent : P2Block → Option P2Block} {x : P2Block}
    {w : LinearWeightedMovingAverage} (hn : difficultyAdjustmentWindow + 1 ≤ n)
    (h : w.Holds ((lineage parent n x).map sample)) :
    w.Holds ((lineage parent (difficultyAdjustmentWindow + 1) x).map sample) := by
  refine h.congr ?_
  rw [← List.map_take, ← List.map_take, take_lineage, take_lineage]
  congr 2
  omega

theorem holds_append_of_full {w : LinearWeightedMovingAverage} {L L' : List (EpochTime × Difficulty)}
    (h : w.Holds L) (hfull : w.isFull = true) : w.Holds (L ++ L') := by
  refine h.congr (List.take_append_of_le_length ?_)
  have hlength := h.length
  have := Window.isFull_iff.mp hfull
  omega

/-- The walk down from a new tip collects the samples of its ancestors. -/
theorem relinkAncestors_holds {steps : Nat} {lwma lwma' : LinearWeightedMovingAverage}
    {L : List (EpochTime × Difficulty)} (hc : c.StoresAgree)
    (h : relinkAncestors steps c b.header lwma = .ok (c', lwma')) (hheight : b.height ≠ 0)
    (hL : lwma.Holds L) :
    lwma'.Holds (L ++ ((lineage c.parentOf (steps + 1) b).map sample).tail) := by
  induction steps generalizing c b lwma L with
  | zero =>
    cases h
    rw [lineage_one]
    simpa using hL
  | succ steps ih =>
    have hstep := relinkStep steps c b.header lwma
    rw [h] at hstep
    generalize hr : (Except.ok (c', lwma') : Except Fault _) = r at hstep
    cases hstep with
    | noLevel hlevel =>
      have hnone : c.parentOf b = none := by
        have hlookup := header_lookup_eq hc hheight
        rw [getBlockHeaderAtHeight, hlevel, Option.bind_none] at hlookup
        exact Option.map_eq_none_iff.mp hlookup.symm
      cases hr
      rw [lineage_succ_of_none hnone]
      simpa using hL
    | full _ hfull =>
      cases hr
      exact holds_append_of_full hL hfull
    | bottom _ hzero => exact absurd hzero hheight
    | corrupted => cases hr
    | @linked next cNext hnext _ hremarks _ =>
      obtain ⟨p, hp, rfl⟩ := hc.storedBlock_of_header hnext
      have hparent : c.parentOf b = some p := by
        rw [parentOf, if_neg hheight]
        exact hp
      have hpush := hL.pushFront (sample p)
      rw [lineage_succ_of_some hparent, List.map_cons, List.tail_cons]
      split_ifs at hr with hlast
      · have hnone : c.parentOf p = none := by
          rw [parentOf, if_pos (show p.height = 0 from hlast)]
        cases hr
        rw [lineage_succ_of_none hnone]
        exact hpush
      · have hrest := ih (hremarks.same.storesAgree hc) hr.symm hlast hpush
        rw [hremarks.same.parentOf, List.append_assoc, List.singleton_append] at hrest
        rw [lineage_succ] at hrest ⊢
        exact hrest

/-- The walk of the slow path collects the samples of the ancestors, if they are stored. -/
theorem lwmaFromHeaders_holds (steps : Nat) {lwma : LinearWeightedMovingAverage}
    {L : List (EpochTime × Difficulty)} (hc : c.StoresAgree) (hheight : b.height ≠ 0)
    (hL : lwma.Holds L) (hsteps : difficultyAdjustmentWindow + 1 ≤ L.length + steps)
    (hstored : ∀ i, L.length + i < difficultyAdjustmentWindow + 1 → ∀ a, c.ancestorOf i b = some a →
      a.height ≠ 0 → ∃ p, c.parentOf a = some p) :
    ∃ w, c.lwmaFromHeaders steps b.header lwma = some w ∧
      w.Holds (L ++ ((lineage c.parentOf (steps + 1) b).map sample).tail) := by
  induction steps generalizing b lwma L with
  | zero =>
    rw [lineage_one]
    exact ⟨lwma, rfl, by simpa using hL⟩
  | succ steps ih =>
    rw [lwmaFromHeaders]
    cases hfull : lwma.isFull with
    | true => exact ⟨lwma, rfl, holds_append_of_full hL hfull⟩
    | false =>
      have hroom : L.length < difficultyAdjustmentWindow + 1 := by
        by_contra hlong
        have hlength := hL.length
        have : lwma.isFull = true := Window.isFull_iff.mpr (by omega)
        rw [hfull] at this
        cases this
      obtain ⟨p, hparent⟩ := hstored 0 (by omega) b rfl hheight
      have hpush := hL.pushFront (sample p)
      rw [if_neg (by simp), header_lookup_eq hc hheight, hparent, lineage_succ_of_some hparent,
        List.map_cons, List.tail_cons]
      simp only [Option.map_some]
      by_cases hlast : p.height = 0
      · have hnone : c.parentOf p = none := by rw [parentOf, if_pos hlast]
        rw [if_pos (show p.header.height = 0 from hlast), lineage_succ_of_none hnone]
        exact ⟨_, rfl, hpush⟩
      · rw [if_neg (show p.header.height ≠ 0 from hlast)]
        obtain ⟨w, hw, hholds⟩ := ih hlast hpush (by simp; omega) (fun i hi a ha hne =>
          hstored (i + 1) (by simp at hi; omega) a
            (by rw [ancestorOf, ancestor_succ, hparent]; exact ha) hne)
        refine ⟨w, hw, ?_⟩
        rw [List.append_assoc, List.singleton_append] at hholds
        rw [lineage_succ] at hholds ⊢
        exact hholds

/-! ### The invariant -/

theorem WindowHolds.of_same_lwma (hw : WindowHolds hist c) (hlwma : c'.lwma = c.lwma)
    (htip : ∀ x, c'.storedBlock c'.currentTip c'.tipHash = some x →
      c.storedBlock c.currentTip c.tipHash = some x) : WindowHolds hist c' := by
  intro x hx
  rw [hlwma]
  exact hw x (htip x hx)

theorem WindowHolds.checked (hw : WindowHolds hist c) (hc : c.StoresAgree) (hd : Distinct hist)
    (hv : Checked core c height hash b b₁ c₁) : WindowHolds hist c₁ := by
  intro x₁ hx₁
  obtain ⟨x, hx, hgrows⟩ := hv.tip_of hc hx₁
  obtain ⟨hclosed, hholds⟩ := hw x hx
  have hclosed₁ := hclosed.congr hgrows.content
  rw [hv.lwma, samples_eq hd hgrows.content hclosed₁ hclosed]
  exact ⟨hclosed₁, hholds⟩

theorem WindowHolds.writes (hw : WindowHolds hist c) (hr : Recorded config hist c)
    (hd : Distinct (b :: hist)) (hfresh : ∀ a ∈ hist, a.hash ≠ b.hash) (hwrites : Writes c b c') :
    WindowHolds (b :: hist) c' := by
  intro x hx
  obtain ⟨hclosed, hholds⟩ := hw x (hr.tip_of_writes hd hfresh hwrites hx)
  rw [hwrites.lwma, samples, lineage_cons hfresh hclosed]
  exact ⟨hclosed.cons hfresh, hholds⟩

/-- The tip moves to `b` and levels are dropped. -/
theorem WindowHolds.moved (hr : Recorded config hist c)
    (hb : c.storedBlock b.height b.hash = some b) (hclosed : RecordedBack difficultyAdjustmentWindow hist b)
    (hholds : (c.lwma.pushBack (sample b)).Holds (samples hist b)) (hm : MovesTip c b c') :
    WindowHolds hist c'.cleanupChain := by
  have hc' := hm.same.storesAgree hr.agree
  have hprunes := Prunes.cleanupChain hc'
  refine WindowHolds.of_same_lwma (c := c') (fun x hx => ?_) hprunes.lwma
    (fun x hx => hprunes.tip_of hc' hx)
  rw [tipHash, hm.currentTip, hm.chainBlockAt, if_pos rfl, hm.same.storedBlock, hb,
    Option.some.injEq] at hx
  subst hx
  rw [hm.lwma]
  exact ⟨hclosed, hholds⟩

theorem recordedBack_of_height_zero (hheight : b.height = 0) :
    RecordedBack difficultyAdjustmentWindow hist b := by
  intro i _ a ha hne
  have := height_of_ancestorIn ha
  omega

theorem samples_of_height_zero (hheight : b.height = 0) : samples hist b = [sample b] := by
  rw [samples, lineage_succ_of_none (by rw [parentIn, if_pos hheight])]
  rfl

theorem extends_closed {p : P2Block} (hp : parentIn hist b = some p)
    (hclosed : RecordedBack difficultyAdjustmentWindow hist p)
    {w : LinearWeightedMovingAverage} (hholds : w.Holds (samples hist p)) :
    RecordedBack difficultyAdjustmentWindow hist b ∧ (w.pushBack (sample b)).Holds (samples hist b) := by
  constructor
  · intro i hi a ha hheight
    cases i with
    | zero =>
      cases ha
      exact ⟨p, hp⟩
    | succ i =>
      rw [ancestorIn, ancestor_succ, hp] at ha
      exact hclosed i (by omega) a ha hheight
  · refine holds_of_lineage (n := difficultyAdjustmentWindow + 2) (by omega) ?_
    rw [lineage_succ_of_some hp]
    exact hholds.pushBack (sample b)

theorem reorg_holds (hc : c.StoresAgree) (hb : c.storedBlock b.height b.hash = some b)
    (hheight : b.height ≠ 0) (h : c.reorg b.header = .ok c') :
    c'.lwma.Holds ((lineage c.parentOf (windowRounds c.config + 1) b).map sample) := by
  obtain ⟨level, hlevel, -⟩ := hc.level_of_storedBlock hb
  obtain ⟨cStart, cReset, cLinked, lwma, hinstalls, hreset, hrelink, rfl⟩ :=
    exists_of_reorg b.header hlevel h
  have hsame := hinstalls.same.trans (resetLinksAbove_spec hreset).1.same
  have hholds := relinkAncestors_holds (hsame.storesAgree hc) hrelink hheight
    (Window.holds_empty.pushFront (sample b))
  rw [hsame.parentOf, hsame.config] at hholds
  rw [lineage_succ] at hholds ⊢
  exact hholds

/-- What a visit must meet to keep the difficulty window: a chain that starts has collected no
samples, a block on the tip is not of height 0, and a reorg walks over as many stored ancestors as
the window takes. -/
structure WindowGuarded (core : TariCore) (c : P2Chain) (height : Nat) (hash : FixedHash) :
    Prop where
  start : c.getTip = none → height = 0 → c.lwma.items = []
  extend : ∀ b, c.storedBlock height hash = some b → c.buildsOnTip b.header = true → height ≠ 0
  reorg : ∀ b₁ c₁, ReorgsTo core c height hash b₁ c₁ → b₁.height ≠ 0 ∧
    StoredBack difficultyAdjustmentWindow c₁ b₁ ∧
    (difficultyAdjustmentWindow ≤ windowRounds c₁.config ∨ b₁.height ≤ windowRounds c₁.config)

/-- All visits of a call keep the difficulty window. -/
def DifficultyGuarded (core : TariCore) (_ : List P2Block) (c : P2Chain) (ord : IterOrder)
    (b : P2Block) : Prop :=
  ∀ w height hash rest, Visits core ord b c w → w.nextLevel = (height, hash) :: rest →
    WindowGuarded core w.chain height hash

theorem WindowHolds.outcome (hw : WindowHolds hist c) (hr : Recorded config hist c)
    (hd : Distinct hist) (hguard : WindowGuarded core c height hash)
    {r : EStateM.Result Fault P2Chain (ChainAddResult × List (Nat × FixedHash))}
    (ho : Outcome core ord n height hash c r) (hreturns : Returns r) : WindowHolds hist r.state := by
  cases ho with
  | overflow c' => exact absurd rfl (hreturns _ c')
  | absent | waiting | refused => exact hw
  | unverified hchecked | badUncles hchecked => exact hw.checked hr.agree hd hchecked
  | scanFault hoff | blocked hoff => exact hw.checked hr.agree hd hoff.toChecked
  | stayed hcandidate | reorgFault hcandidate => exact hw.checked hr.agree hd hcandidate.toChecked
  | @started b b₁ c₁ c₂ hchecked htip hheight hmoves =>
    have hheight₁ := (hchecked.height_eq hr.agree).trans hheight
    refine WindowHolds.moved (hr.checked hchecked) (hr.stored_checked hchecked)
      (recordedBack_of_height_zero hheight₁) ?_ hmoves
    have htip' : c.getTip = none := by
      rw [getTip_eq_none_iff] at htip ⊢
      rw [← hchecked.tipHash_eq, htip]
    have hempty : c₁.lwma = Window.empty :=
      Window.ext ((congrArg Window.items hchecked.lwma).trans (hguard.start htip' hheight))
    rw [hempty, samples_of_height_zero hheight₁]
    exact Window.holds_empty.pushBack (sample b₁)
  | @extended b b₁ c₁ c₂ hchecked hnotStart hverified honTip huncles hmoves =>
    have hr₁ := hr.checked hchecked
    obtain ⟨tip, htip, hprev, hparent⟩ := hr₁.parentOf_of_buildsOnTip honTip
    have hheight : b.height ≠ 0 := by
      rw [hr.agree.height_of_storedBlock hchecked.stored]
      exact hguard.extend b hchecked.stored (hchecked.buildsOnTip_eq ▸ honTip)
    obtain ⟨⟨p₀, hp₀⟩, -⟩ := hchecked.isComplete hr.agree hheight
    obtain ⟨p, hp, -⟩ := hchecked.exists_ancestorOf hr.agree hchecked.grows
      (i := 1) (ancestor_one.trans hp₀)
    have htipParent : c₁.parentOf b₁ = some tip := by
      rw [ancestorOf, ancestor_one] at hp
      rw [hp, hparent p hp]
    obtain ⟨q, hq, hgrows⟩ := hr₁.parentIn hd (Grows.refl b₁) htipParent
    obtain ⟨hclosed, hholds⟩ := hw.checked hr.agree hd hchecked tip htip
    have hclosed' := hclosed.congr hgrows.content.symm
    rw [samples_eq hd hgrows.content hclosed hclosed'] at hholds
    obtain ⟨hclosed₁, hholds₁⟩ := extends_closed hq hclosed' hholds
    exact WindowHolds.moved hr₁ (hr.stored_checked hchecked) hclosed₁ hholds₁ hmoves
  | @reorganised b b₁ c₁ c₂ result hcandidate hpow hreorg =>
    have hr₁ := hr.checked hcandidate.toChecked
    have hb₁ := hr.stored_checked hcandidate.toChecked
    obtain ⟨hheight, hstored, hrounds⟩ := hguard.reorg b₁ c₁ ⟨b, result, hcandidate, hpow⟩
    have hreorganises := hcandidate.reorganises hr.agree hreorg
    have hholds := reorg_holds hr₁.agree hb₁ hheight hreorg
    have hclosed := hr₁.recordedBack hd (Grows.refl b₁) hstored
    have hsamples := samples_of_storedBack hr₁ hd (Grows.refl b₁) hstored
    intro x hx
    change c₂.storedBlock c₂.currentTip c₂.tipHash = some x at hx
    have hmark : c₂.chainBlockAt b₁.height = b₁.hash := by
      rcases hreorganises.tipMark with hmark | ⟨hzero, -⟩
      · exact hmark
      · exact absurd hzero hheight
    rw [tipHash, hreorganises.currentTip, P2Block.header_height, hmark,
      hreorganises.same.storedBlock, hb₁, Option.some.injEq] at hx
    subst hx
    refine ⟨hclosed, ?_⟩
    rw [← hsamples]
    -- the rounds of the walk fill the window or bring it down to height 0
    by_cases hlong : difficultyAdjustmentWindow ≤ windowRounds c₁.config
    · exact holds_of_lineage (by omega) hholds
    · rw [lineage_eq_of_height hr₁.agree (n := windowRounds c₁.config + 1) (by omega) (by omega)]
      exact hholds

theorem Run.windowHolds (hrun : Run core config (DifficultyGuarded core) hist c) :
    WindowHolds hist c := by
  induction hrun with
  | empty => intro b hb; simp at hb
  | refused _ _ ih => exact ih
  | @added hist c ord b hrun hnonzero hfresh hallowed hstep hreturns ih =>
    have hr := hrun.recorded
    have hd := (hrun.added hnonzero hfresh hallowed hstep hreturns).distinct
    have hinv := addBlock_inv (I := fun c => Recorded config (b :: hist) c ∧ WindowHolds (b :: hist) c)
      hallowed hreturns
      (fun c₀ hw => ⟨hr.writes (hr.unused hfresh) hw, ih.writes hr hd hfresh hw⟩)
      (fun w height hash rest hvisits hqueue hI hret => by
        have ho := outcome_verifyChainInner core ord w.numProcessed height hash hI.1.agree
        exact ⟨hI.1.outcome ho hret,
          hI.2.outcome hI.1 hd (hstep w height hash rest hvisits hqueue) ho hret⟩)
    exact hinv.2
  | @generated hist c s ord template soloMine hrun _ ih =>
    obtain ⟨cached, heq⟩ := generate_state core s ord template soloMine c
    rw [heq]
    exact ih

/-! ### The target difficulty -/

/-- Neither path meets the edge at height 0: the slow path has a parent above height 0 to start
from, or the block is on the tip, and one of height 0 starts a chain that has collected nothing. -/
def ClearOfStart (c : P2Chain) (b : P2Block) : Prop :=
  2 ≤ b.height ∨ (c.tipHash = b.prevHash ∧
    (b.height = 0 → c.tipHash = FixedHash.zero ∧ c.lwma.items = []))

theorem Recorded.tipHeaderHash_eq (hr : Recorded config hist c) :
    ((c.getTip.bind (·.blockHeaderInMainChain)).map (·.hash)).getD FixedHash.zero = c.tipHash := by
  cases htip : c.getTip with
  | none =>
    rw [getTip_eq_none_iff.mp htip]
    rfl
  | some tip =>
    obtain ⟨b, hb⟩ := hr.exists_tip (exists_getTip_iff.mp ⟨tip, htip⟩)
    obtain ⟨level, hlevel, hheader⟩ := hr.agree.level_of_storedBlock hb
    rw [(getTip_eq_some_iff.mp htip).1, Option.some.injEq] at hlevel
    subst hlevel
    change tip.getHeader c.tipHash = some b.header at hheader
    rw [Option.bind_some, P2ChainLevel.blockHeaderInMainChain, chainBlock_of_getTip htip, hheader]
    exact hr.agree.hash_of_storedBlock hb

/-- Where the ancestors are stored, the target difficulty is that of their samples. -/
theorem exists_targetDifficulty (core : TariCore) (hr : Recorded config hist c) (hd : Distinct hist)
    (hw : WindowHolds hist c) (hstored : StoredBack (difficultyAdjustmentWindow + 1) c b)
    (hedge : ClearOfStart c b) :
    ∃ w, c.getTargetDifficultyForBlock core b = some (c.getLwmaDifficultyForBlock core w b) ∧
      w.Holds ((lineage c.parentOf (difficultyAdjustmentWindow + 2) b).map sample).tail := by
  have hc := hr.agree
  have hparents (p : P2Block) (hp : c.parentOf b = some p) :
      StoredBack difficultyAdjustmentWindow c p := by
    refine fun i hi a ha hheight => hstored (i + 1) (by omega) a ?_ hheight
    rw [ancestorOf, ancestor_succ, hp]
    exact ha
  rw [getTargetDifficultyForBlock, hr.tipHeaderHash_eq]
  by_cases hfast : b.prevHash = c.tipHash
  · simp only [if_pos hfast]
    refine ⟨c.lwma, rfl, ?_⟩
    by_cases hheight : b.height = 0
    · have hempty : c.lwma = Window.empty := by
        rcases hedge with hhigh | ⟨-, hstart⟩
        · omega
        · exact Window.ext (hstart hheight).2
      rw [lineage_succ_of_none (by rw [parentOf, if_pos hheight]), hempty]
      exact Window.holds_empty
    · obtain ⟨p, hp⟩ := hstored 0 (by omega) b rfl hheight
      have hne : c.tipHash ≠ FixedHash.zero := by
        rw [← hfast, ← hash_of_parentOf hc hp]
        exact hr.hash_ne_zero hd (stored_of_parentOf hc hp)
      obtain ⟨tip, htip, -, htipParent⟩ := hr.parentOf_of_buildsOnTip
        (buildsOnTip_iff.mpr ⟨hne, hfast.symm⟩)
      obtain ⟨-, hholds⟩ := hw tip htip
      have hstoredTip : StoredBack difficultyAdjustmentWindow c tip := htipParent p hp ▸ hparents p hp
      rw [lineage_succ_of_some hp, List.map_cons, List.tail_cons, htipParent p hp,
        samples_of_storedBack hr hd (Grows.refl tip) hstoredTip]
      exact hholds
  · have hhigh : 2 ≤ b.height := hedge.resolve_right fun h => hfast h.1.symm
    have hheight : b.height ≠ 0 := by omega
    obtain ⟨p, hp⟩ := hstored 0 (by omega) b rfl hheight
    have hpHeight : p.height ≠ 0 := by
      have := height_of_parentOf hc hp
      omega
    obtain ⟨w, hwalk, hholds⟩ := lwmaFromHeaders_holds (difficultyAdjustmentWindow + 1) hc
      hpHeight (Window.holds_empty.pushFront (sample p)) (by simp)
      (fun i hi a ha hne => hparents p hp i (by simp at hi; omega) a ha hne)
    have hlookup := header_lookup_eq hc hheight
    rw [P2Block.header_height, P2Block.header_prevHash, hp, Option.map_some] at hlookup
    refine ⟨w, ?_, ?_⟩
    · simp only [if_neg hfast, hlookup]
      have hwalk' : c.lwmaFromHeaders (difficultyAdjustmentWindow + 1) p.header
          (Window.empty.pushFront (p.header.timestamp, p.header.targetDifficulty)) = some w := hwalk
      simp only [hwalk']
    · rw [lineage_succ_of_some hp, List.map_cons, List.tail_cons]
      refine holds_of_lineage (n := difficultyAdjustmentWindow + 2) (by omega) ?_
      rw [lineage_succ] at hholds ⊢
      exact hholds

/-- In two runs of one configuration that keep their difficulty windows, each with distinct hashes,
a block whose ancestors are stored in both has one target difficulty. -/
theorem target_difficulty_of_ancestry {hist₁ hist₂ : List P2Block}
    (hrun₁ : Run core config (DifficultyGuarded core) hist₁ c₁)
    (hrun₂ : Run core config (DifficultyGuarded core) hist₂ c₂)
    (hsame : SameAncestry (difficultyAdjustmentWindow + 1) c₁ c₂ b)
    (hstored₁ : StoredBack (difficultyAdjustmentWindow + 1) c₁ b)
    (hstored₂ : StoredBack (difficultyAdjustmentWindow + 1) c₂ b)
    (hedge₁ : ClearOfStart c₁ b) (hedge₂ : ClearOfStart c₂ b) :
    ∃ d, c₁.getTargetDifficultyForBlock core b = some d ∧
      c₂.getTargetDifficultyForBlock core b = some d := by
  have hr₁ := hrun₁.recorded
  have hr₂ := hrun₂.recorded
  obtain ⟨w₁, heq₁, hholds₁⟩ := exists_targetDifficulty core hr₁ hrun₁.distinct
    hrun₁.windowHolds hstored₁ hedge₁
  obtain ⟨w₂, heq₂, hholds₂⟩ := exists_targetDifficulty core hr₂ hrun₂.distinct
    hrun₂.windowHolds hstored₂ hedge₂
  have hlineage : (lineage c₁.parentOf (difficultyAdjustmentWindow + 2) b).map sample =
      (lineage c₂.parentOf (difficultyAdjustmentWindow + 2) b).map sample := by
    refine map_lineage_eq (R := fun x y : P2Block => x.withoutStatus = y.withoutStatus)
      (fun x y h => field_eq sample (fun _ _ => rfl) h) rfl (fun i hi x y hx hy h => ?_)
    obtain ⟨hheights, -⟩ := names_parent_eq h
    by_cases hzero : x.height = 0
    · exact Or.inl ⟨by rw [parentOf, if_pos hzero], by rw [parentOf, if_pos (hheights ▸ hzero)]⟩
    · obtain ⟨p, hp⟩ := hstored₁ i (by omega) x hx hzero
      obtain ⟨q, hq⟩ := hstored₂ i (by omega) y hy (hheights ▸ hzero)
      refine Or.inr ⟨p, q, hp, hq, ?_⟩
      have hsucc := hsame (i + 1) (by omega)
      rw [ancestorOf, ancestorOf, ancestor_succ', ancestor_succ',
        (show ancestor c₁.parentOf i b = some x from hx),
        (show ancestor c₂.parentOf i b = some y from hy), Option.bind_some, Option.bind_some, hp, hq,
        Option.map_some, Option.map_some, Option.some.injEq] at hsucc
      exact hsucc
  rw [hlineage] at hholds₁
  refine ⟨_, heq₁, heq₂.trans ?_⟩
  rw [hholds₁.eq hholds₂, getLwmaDifficultyForBlock, getLwmaDifficultyForBlock, hr₁.config_eq,
    hr₂.config_eq]

/-- On the block of height 0 the target difficulty of a block is there while that is the tip, and
gone once another block has extended it. -/
theorem target_difficulty_lost : ∃ hist₁ hist₂ c₁ c₂ b,
    Run sampleCore (sampleConfig 10) Unrestricted hist₁ c₁ ∧
      Run sampleCore (sampleConfig 10) Unrestricted hist₂ c₂ ∧
      SameAncestry (difficultyAdjustmentWindow + 1) c₁ c₂ b ∧
      StoredBack (difficultyAdjustmentWindow + 1) c₁ b ∧
      StoredBack (difficultyAdjustmentWindow + 1) c₂ b ∧
      c₁.getTargetDifficultyForBlock sampleCore b = some 1 ∧
      c₂.getTargetDifficultyForBlock sampleCore b = none :=
  ⟨_, _, _, _, sampleBlock 9 1 1 2,
    Run.of_blocks IterOrder.stored (fun _ _ _ => true) (fun _ _ _ _ => trivial)
      [sampleBlock 1 0 0 1] (by decide),
    Run.of_blocks IterOrder.stored (fun _ _ _ => true) (fun _ _ _ _ => trivial)
      [sampleBlock 1 0 0 1, sampleBlock 2 1 1 2] (by decide),
    by unfold SameAncestry; decide, by decide, by decide, by decide, by decide⟩

/-- The next block to visit starts a chain without samples or is above height 0. -/
def seeds (w : WalkState) : Bool :=
  match w.nextLevel with
  | [] => true
  | (height, _) :: _ =>
    if w.chain.tipHash = FixedHash.zero then w.chain.lwma.items.isEmpty else height != 0

theorem Checked.exists_parent (hc : c.StoresAgree) (hv : Checked core c height hash b b₁ c₁)
    (hheight : height ≠ 0) : ∃ p, c₁.parentOf b₁ = some p := by
  have hb := hc.height_of_storedBlock hv.stored
  obtain ⟨p, hp⟩ := (hv.isComplete hc (by rwa [hb])).1
  refine ⟨p, ?_⟩
  rw [parentOf, if_neg (by rwa [hb]), hb] at hp
  rw [parentOf, hv.height_eq hc, if_neg hheight, hv.prevHash_eq,
    hv.storedBlock hc, if_neg fun heq => Nat.sub_one_ne_self hheight heq.1]
  exact hp

def inWindow (w : WalkState) : Bool :=
  w.nextLevel.all fun item => decide (item.1 ≤ windowRounds w.chain.config)

theorem difficultyGuarded_of_upright (hrun : Run core config P hist c)
    (hfresh : ∀ a ∈ hist, a.hash ≠ b.hash)
    (h : visitsAll core ord (fun w => upright w && seeds w && inWindow w) c b = true) :
    DifficultyGuarded core hist c ord b := by
  intro w height hash rest hvisits hqueue
  have hc := (hrun.recorded.visits (hrun.recorded.unused hfresh) hvisits).agree
  have htest := of_visitsAll h hvisits
  rw [Bool.and_eq_true, Bool.and_eq_true] at htest
  obtain ⟨⟨hupright, hseeds⟩, hrounds⟩ := htest
  simp only [seeds, hqueue] at hseeds
  refine ⟨fun htip _ => ?_, fun x hx honTip => ?_, fun b₁ c₁ hreorgs => ?_⟩
  · rw [if_pos (getTip_eq_none_iff.mp htip)] at hseeds
    exact List.isEmpty_iff.mp hseeds
  · rw [if_neg (buildsOnTip_iff.mp honTip).1] at hseeds
    simpa using hseeds
  · obtain ⟨hheight, hparents⟩ := parents_of_upright hc hupright hqueue hreorgs
    obtain ⟨x, result, hcandidate, -⟩ := hreorgs
    have hchecked := hcandidate.toChecked
    refine ⟨by rwa [hchecked.height_eq hc], fun i _ a ha hne => ?_, Or.inr ?_⟩
    · obtain rfl | hi := Nat.eq_zero_or_pos i
      · rw [ancestorOf, ancestor_zero, Option.some.injEq] at ha
        exact ha ▸ hchecked.exists_parent hc hheight
      · obtain ⟨p, hp, -⟩ := hparents i a hi.ne' ha hne
        exact ⟨p, hp⟩
    · rw [inWindow, hqueue, List.all_cons, Bool.and_eq_true, decide_eq_true_eq] at hrounds
      rw [hchecked.height_eq hc, hchecked.config]
      exact hrounds.1

/-- A block on the second of two branches: while that is the main chain, after a reorg to it, and
after a reorg back to the first branch. -/
theorem target_difficulty_of_ancestry_branch : branchChain.tipHash = 4 ∧
    rejoinedChain.chainBlockAt 1 = 2 ∧ ∃ d,
      branchChain.getTargetDifficultyForBlock sampleCore (sampleBlock 8 4 3 4) = some d ∧
        rejoinedChain.getTargetDifficultyForBlock sampleCore (sampleBlock 8 4 3 4) = some d := by
  have hrun (blocks : List P2Block)
      (h : isRun sampleCore .stored (fun _ c b => visitsAll sampleCore .stored
        (fun w => upright w && seeds w && inWindow w) c b) [] blocks
        (newEmpty (sampleConfig 10)) = true) :=
    Run.of_blocks_of_run IterOrder.stored _
      (fun _ _ _ hrun _ hfresh h => difficultyGuarded_of_upright hrun hfresh h) blocks h
  refine ⟨by decide, by decide, ?_⟩
  exact target_difficulty_of_ancestry (hrun branchBlocks (by decide))
    (hrun (branchBlocks ++ [branchBlock]) (by decide)) (by unfold SameAncestry; decide)
    (by decide) (by decide) (Or.inl (by decide)) (Or.inl (by decide))

end P2Chain

end ShaP2Pool
