import ShaP2Pool.Library.Pending
import ShaP2Pool.Proof.Pruning

/-!
# The queue of the walk

What a successful visit leaves out of the next queue can be told from the chain before it: the start
of a chain and a block that its checks leave unverified queue nothing, a block that was processed
already, is too high up or is pruned is not queued, and a full report of missing blocks ends the
walk. What is not left out is queued.
-/

namespace ShaP2Pool

namespace P2Chain

variable {core : TariCore} {ord : IterOrder} {config : ChainConfig} {hist : List P2Block}
  {c c' c₀ c₁ chain : P2Chain} {a b b₁ x : P2Block} {w : WalkState} {height n : Nat}
  {hash y z : FixedHash} {rest next : List (Nat × FixedHash)} {addResult : ChainAddResult}

/-! ### Calls that all succeed -/

/-- The chains reached by calls of `addBlockToChain` that all gave back a value, with the blocks
stored on the way, newest first. No two of these share a hash, which is not zero. -/
inductive AddRun (core : TariCore) (config : ChainConfig)
    (P : List P2Block → P2Chain → IterOrder → P2Block → Prop) : List P2Block → P2Chain → Prop
  | empty : AddRun core config P [] (newEmpty config)
  | added {hist : List P2Block} {c c' : P2Chain} {ord : IterOrder} {b : P2Block}
    {result : ChainAddResult} (hrun : AddRun core config P hist c)
    (hnonzero : b.hash ≠ FixedHash.zero) (hfresh : ∀ a ∈ hist, a.hash ≠ b.hash)
    (hstep : P hist c ord b) (hok : addBlockToChain core ord b c = .ok result c') :
    AddRun core config P (b :: hist) c'

theorem AddRun.run {P : List P2Block → P2Chain → IterOrder → P2Block → Prop}
    (hrun : AddRun core config P hist c) : Run core config P hist c := by
  induction hrun with
  | empty => exact Run.empty
  | @added hist c c' ord b result hrun hnonzero hfresh hstep hok ih =>
    have hnext := ih.added hnonzero hfresh (allowed_of_ok hok) hstep (.of_ok hok)
    rwa [hok] at hnext

/-- Whether adding the blocks is a run of successful calls that pass the test. -/
def isAddRun (core : TariCore) (ord : IterOrder) (test : List P2Block → P2Chain → P2Block → Bool) :
    List P2Block → List P2Block → P2Chain → Bool
  | _, [], _ => true
  | hist, b :: blocks, c =>
    b.hash != FixedHash.zero && hist.all (·.hash != b.hash) && test hist c b &&
      (valueOf (addBlockToChain core ord b c)).isSome &&
      isAddRun core ord test (b :: hist) blocks (addBlockToChain core ord b c).state

theorem AddRun.of_isAddRun {test : List P2Block → P2Chain → P2Block → Bool}
    {P : List P2Block → P2Chain → IterOrder → P2Block → Prop}
    (htest : ∀ hist c b, test hist c b = true → P hist c ord b) {blocks : List P2Block}
    (hrun : AddRun core config P hist c) (h : isAddRun core ord test hist blocks c = true) :
    AddRun core config P (blocks.reverse ++ hist) (addAll core ord blocks c) := by
  induction blocks generalizing hist c with
  | nil => exact hrun
  | cons b blocks ih =>
    simp only [isAddRun, Bool.and_eq_true, bne_iff_ne, List.all_eq_true] at h
    obtain ⟨⟨⟨⟨hnonzero, hfresh⟩, hpassed⟩, hok⟩, hrest⟩ := h
    obtain ⟨result, hok⟩ := exists_ok_of_valueOf hok
    have hnext := ih (hrun.added hnonzero hfresh (htest hist c b hpassed) hok) hrest
    rwa [List.reverse_cons, List.append_assoc, List.singleton_append]

theorem AddRun.of_blocks (ord : IterOrder) (test : List P2Block → P2Chain → P2Block → Bool)
    {P : List P2Block → P2Chain → IterOrder → P2Block → Prop}
    (htest : ∀ hist c b, test hist c b = true → P hist c ord b) (blocks : List P2Block)
    (h : isAddRun core ord test [] blocks (newEmpty config) = true) :
    AddRun core config P blocks.reverse (addAll core ord blocks (newEmpty config)) := by
  have hrun := AddRun.of_isAddRun htest AddRun.empty h
  rwa [List.append_nil] at hrun

/-- The hashes in the queue after the next visit. A walk that ends leaves none. -/
def queueAfter (core : TariCore) (ord : IterOrder) (w : WalkState) : List FixedHash :=
  match verifyChainStep core ord w with
  | .inl w' => w'.nextLevel.map (·.2)
  | .inr _ => []

/-- What the storing of the block establishes for the queue of that block, and every successful
visit hands on to the next queue, holds with an empty queue when the call succeeds. -/
theorem walk_rule {I : P2Chain → List FixedHash → Prop} {result : ChainAddResult}
    (hok : addBlockToChain core ord b c = .ok result c')
    (hstart : ∀ c₀, Writes c b c₀ → I c₀ [b.hash])
    (hround : ∀ w height hash rest addResult next chain, Visits core ord b c w →
      w.nextLevel = (height, hash) :: rest →
      verifyChainInner core ord w.numProcessed height hash w.chain = .ok (addResult, next) chain →
      I w.chain (w.nextLevel.map (·.2)) → I chain (queueAfter core ord w)) : I c' [] := by
  have hreturns : Returns (addBlockToChain core ord b c) := .of_ok hok
  obtain ⟨w, ⟨hallowed, c₀, hinsert, hreach⟩, hexit⟩ :=
    exists_exit_of_returns (allowed_of_ok hok) hreturns
  obtain ⟨c₀', hinsert', hw⟩ := Writes.of_insertBlock c b
  rw [hinsert, Except.ok.injEq] at hinsert'
  subst hinsert'
  have hI : I w.chain (w.nextLevel.map (·.2)) := by
    refine hreach.inv (I := fun w => I w.chain (w.nextLevel.map (·.2))) (hstart c₀ hw)
      fun u v hu hIu hstep => ?_
    obtain ⟨height, hash, rest, addResult, next, chain, hqueue, hinner, -, rfl⟩ :=
      verifyChainStep_inl hstep
    have hnext := hround u height hash rest addResult next chain ⟨hallowed, c₀, hinsert, hu⟩ hqueue
      hinner hIu
    rwa [queueAfter, hstep] at hnext
  rw [hok] at hexit
  obtain ⟨hnil, heq⟩ | ⟨height, hash, rest, hqueue, hlast⟩ := verifyChainStep_inr hexit
  · cases heq
    rwa [hnil] at hI
  · obtain ⟨fault, chain, -, heq⟩ | ⟨addResult, next, chain, hinner, -, heq⟩ := hlast
    · cases heq
    · cases heq
      have hnext := hround w height hash rest addResult next c' ⟨hallowed, c₀, hinsert, hreach⟩
        hqueue hinner hI
      rwa [queueAfter, hexit] at hnext

/-! ### What a visit reports -/

/-- The blocks that the visit of the block at `height` reports missing: those that the block
references, or else, for a verified block off the tip, those that the search of its ancestors
finds. -/
def visitReport (core : TariCore) (c : P2Chain) (height : Nat) (hash : FixedHash) : ChainAddResult :=
  match c.storedBlock height hash with
  | none => {}
  | some b =>
    if (c.missingReferences height hash b.prevHash).missingBlocks.size ≠ 0 then
      c.missingReferences height hash b.prevHash
    else
      match c.statusAfter core b with
      | .error _ => {}
      | .ok v =>
        if (c.getTip.isNone && height == 0) || !v.isVerified || c.buildsOnTip b.header then {}
        else
          match c.scanAncestors (windowRounds c.config) b.header {} with
          | .error _ => {}
          | .ok (_, result) => result

theorem blockExists_eq (hc : c.StoresAgree) (height : Nat) (hash : FixedHash) :
    c.blockExists height hash = (c.storedBlock height hash).isSome := by
  rw [Bool.eq_iff_iff, hc.blockExists_iff, Option.isSome_iff_exists]

theorem Checked.blockExists_eq (hc : c.StoresAgree) (hv : Checked core c height hash b b₁ c₁)
    (height' : Nat) (hash' : FixedHash) :
    c₁.blockExists height' hash' = c.blockExists height' hash' := by
  rw [P2Chain.blockExists_eq (hv.storesAgree hc), P2Chain.blockExists_eq hc, hv.storedBlock hc]
  split_ifs with hself
  · rw [hself.1, hself.2, hv.stored]
    rfl
  · rfl

theorem Checked.scanAncestors_eq (hc : c.StoresAgree) (hv : Checked core c height hash b b₁ c₁)
    (steps : Nat) {current current' : P2BlockHeader} (result : ChainAddResult)
    (hheight : current'.height = current.height) (hprev : current'.prevHash = current.prevHash)
    (hhash : current'.hash = current.hash) (hlow : current.height ≤ height) :
    c₁.scanAncestors steps current' result = c.scanAncestors steps current result := by
  induction steps generalizing current current' with
  | zero => rfl
  | succ steps ih =>
    rw [scanAncestors, scanAncestors, hheight, hprev, hhash]
    by_cases hzero : current.height = 0
    · rw [if_pos hzero, if_pos hzero]
    have hparent : c₁.getBlockHeaderAtHeight (current.height - 1) current.prevHash =
        c.getBlockHeaderAtHeight (current.height - 1) current.prevHash := by
      rw [(hv.storesAgree hc).getBlockHeaderAtHeight_eq, hc.getBlockHeaderAtHeight_eq,
        hv.storedBlock hc, if_neg (by omega)]
    rw [if_neg hzero, if_neg hzero, hparent]
    cases hfound : c.getBlockHeaderAtHeight (current.height - 1) current.prevHash with
    | none => rfl
    | some parent =>
      have hbelow : c₁.missingBelow parent result = c.missingBelow parent result := by
        rw [missingBelow, missingBelow]
        simp only [hv.blockExists_eq hc]
      have hmark := hv.mark_eq hc current.height
      have hnext : c₁.scanAncestors steps parent result = c.scanAncestors steps parent result := by
        refine ih rfl rfl rfl ?_
        rw [height_of_getBlockHeaderAtHeight hfound]
        omega
      simp only [hbelow]
      cases hl₁ : c₁.levelAtHeight current.height <;> cases hl : c.levelAtHeight current.height <;>
        simp only [hl₁, hl, Option.map_some, Option.map_none, Option.some.injEq, reduceCtorEq] at hmark
      · rfl
      · simp only [hmark, hnext]

theorem OffTip.visitReport_eq {verified : Bool} {result : ChainAddResult} (hc : c.StoresAgree)
    (hoff : OffTip core c height hash b b₁ c₁)
    (hscan : c₁.scanAncestors (windowRounds c₁.config) b₁.header {} = .ok (verified, result)) :
    c.visitReport core height hash = result := by
  have hstart : (c.getTip.isNone && height == 0) = false := by
    rw [Bool.and_eq_false_iff]
    by_contra hneither
    rw [not_or, Bool.not_eq_false, Bool.not_eq_false, Option.isNone_iff_eq_none, beq_iff_eq] at hneither
    exact hoff.notStart ⟨hoff.toChecked.getTip_eq_none_iff.mpr hneither.1, hneither.2⟩
  have honTip : c.buildsOnTip b.header = false := by
    rw [← hoff.toChecked.buildsOnTip_eq]
    exact hoff.offTip
  have hheight : b.header.height = height := hc.height_of_storedBlock hoff.stored
  have hhash : b₁.header.hash = b.header.hash :=
    (hoff.hash_eq hc).trans (hc.hash_of_storedBlock hoff.stored).symm
  rw [hoff.config, hoff.toChecked.scanAncestors_eq hc (windowRounds c.config) {}
    ((hoff.height_eq hc).trans hheight.symm) hoff.toChecked.prevHash_eq hhash hheight.le] at hscan
  rw [visitReport, hoff.stored]
  simp only [hoff.complete, hoff.statusAfter_eq, hstart, hoff.verified, honTip, hscan]
  rfl

theorem missingBlocks_of_outcome (hc : c.StoresAgree)
    (ho : Outcome core ord n height hash c (.ok (addResult, next) chain)) :
    addResult.missingBlocks = (c.visitReport core height hash).missingBlocks := by
  cases ho with
  | waiting hstored hmissing =>
    rw [visitReport, hstored]
    simp only [if_pos hmissing]
  | started hchecked htip hheight =>
    subst hheight
    rw [hchecked.getTip_eq_none_iff] at htip
    rw [visitReport, hchecked.stored]
    simp [hchecked.complete, hchecked.statusAfter_eq, htip, ChainAddResult.setNewTip]
  | unverified hchecked _ hunverified =>
    rw [visitReport, hchecked.stored]
    simp [hchecked.complete, hchecked.statusAfter_eq, hunverified]
  | extended hchecked _ _ honTip =>
    rw [hchecked.buildsOnTip_eq] at honTip
    rw [visitReport, hchecked.stored]
    simp [hchecked.complete, hchecked.statusAfter_eq, honTip, ChainAddResult.setNewTip]
  | blocked hoff hscan => rw [hoff.visitReport_eq hc hscan]
  | stayed hcandidate => rw [hcandidate.toOffTip.visitReport_eq hc hcandidate.scan]
  | reorganised hcandidate =>
    rw [hcandidate.toOffTip.visitReport_eq hc hcandidate.scan, ChainAddResult.setNewTip]
    split
    · split_ifs
      · rfl
      · rfl
    · rfl

/-! ### What a visit leaves out -/

def NamedBy (hist : List P2Block) (hash hash' : FixedHash) : Prop :=
  ∃ a ∈ hist, a.hash = hash' ∧ Names a hash

/-- Why the visit of the block at `height` does not queue a block `y` that names it. -/
inductive Skips (core : TariCore) (w : WalkState) (height : Nat) (hash y : FixedHash) : Prop
  | chainStart (htip : w.chain.getTip = none) (hzero : height = 0)
  | unverified {x : P2Block} {v : VerifiedStatus}
    (hx : w.chain.storedBlock height hash = some x) (hcomplete : w.chain.Complete x)
    (hchecks : w.chain.statusAfter core x = .ok v) (hunverified : v.isVerified = false)
  | processed (hprocessed : y ∈ hash :: w.processed)
  /-- not stored in the heights that are searched -/
  | outOfReach (hout : ∀ yHeight x, w.chain.storedBlock yHeight y = some x →
      yHeight ≤ height ∨ height + maxUncleAge ≤ yHeight)
  /-- its level is dropped behind the new tip -/
  | pruned {yHeight : Nat} {x : P2Block} (hx : w.chain.storedBlock yHeight y = some x)
    (hset : SetsNewTip core w.chain height hash)
    (hbelow : maxLevels w.chain.config ≤ w.chain.levelsAbove yHeight)

/-- With what the visit reports missing the walk has ten missing blocks, and ends. -/
def FillsReport (core : TariCore) (ord : IterOrder) (w : WalkState) (height : Nat)
    (hash : FixedHash) : Prop :=
  maxMissingParents ≤ (w.newTip.combine ord w.numProcessed
    (w.chain.visitReport core height hash)).missingBlocks.size

/-- The visit leaves `y`, which names the visited block or is queued behind it, out of the next
queue. -/
def LeftOut (core : TariCore) (ord : IterOrder) (w : WalkState) (height : Nat) (hash : FixedHash)
    (rest : List (Nat × FixedHash)) (y : FixedHash) : Prop :=
  FillsReport core ord w height hash ∨ (y ∉ rest.map (·.2) ∧ Skips core w height hash y)

theorem queueAfter_eq (hc : w.chain.StoresAgree) (hqueue : w.nextLevel = (height, hash) :: rest)
    (hinner : verifyChainInner core ord w.numProcessed height hash w.chain =
      .ok (addResult, next) chain) (hopen : ¬FillsReport core ord w height hash) :
    queueAfter core ord w = (enqueue (hash :: w.processed) (height, hash) next rest).map (·.2) := by
  have ho := outcome_verifyChainInner core ord w.numProcessed height hash hc
  rw [hinner] at ho
  have hroom : ¬maxMissingParents ≤
      (w.newTip.combine ord w.numProcessed addResult).missingBlocks.size := by
    rwa [FillsReport, ChainAddResult.combine, ← missingBlocks_of_outcome hc ho] at hopen
  rw [queueAfter, verifyChainStep, hqueue]
  simp only [hinner, if_neg hroom]

theorem next_eq_of_outcome (hc : w.chain.StoresAgree)
    (ho : Outcome core ord n height hash w.chain (.ok (addResult, next) chain))
    (hnot : ¬Skips core w height hash y) : next = chain.childrenAndNephews ord n height hash := by
  cases ho with
  | waiting | extended | blocked | stayed | reorganised => rfl
  | started hchecked htip hheight =>
    exact absurd (Skips.chainStart (hchecked.getTip_eq_none_iff.mp htip) hheight) hnot
  | unverified hchecked _ hunverified =>
    exact absurd (Skips.unverified hchecked.stored (hchecked.isComplete hc) hchecked.statusAfter_eq
      hunverified) hnot

theorem inReach_of_outcome (hc : w.chain.StoresAgree)
    (ho : Outcome core ord n height hash w.chain (.ok (addResult, next) chain))
    (hnot : ¬Skips core w height hash y) : ∃ yHeight x, chain.storedBlock yHeight y = some x ∧
      height < yHeight ∧ yHeight < height + maxUncleAge := by
  obtain ⟨yHeight, x, hx, hlow, hhigh⟩ : ∃ yHeight x, w.chain.storedBlock yHeight y = some x ∧
      height < yHeight ∧ yHeight < height + maxUncleAge := by
    by_contra hnone
    refine hnot (Skips.outOfReach fun yHeight x hx => ?_)
    by_contra hin
    exact hnone ⟨yHeight, x, hx, by omega, by omega⟩
  have hafter := levelsAfter hc ho (.of_ok rfl)
  obtain ⟨level, hlevel, -⟩ := hc.level_of_storedBlock hx
  have hkept : (chain.levelAtHeight yHeight).isSome = true := by
    by_cases hset : SetsNewTip core w.chain height hash
    · have hroom : w.chain.levelsAbove yHeight < maxLevels w.chain.config := by
        by_contra hfar
        exact hnot (Skips.pruned hx hset (Nat.not_lt.mp hfar))
      rw [show (chain.levelAtHeight yHeight).isSome = _ from hafter.set hc hset yHeight, hlevel]
      simpa using hroom
    · rw [show (chain.levelAtHeight yHeight).isSome = _ from hafter.unset hc hset yHeight, hlevel]
      rfl
  obtain ⟨x', hx'⟩ := hafter.exists_storedBlock hc hx hkept
  exact ⟨yHeight, x', hx', hlow, hhigh⟩

theorem mem_queueAfter (hr : Recorded config hist w.chain) (hd : Distinct hist)
    (hqueue : w.nextLevel = (height, hash) :: rest)
    (hinner : verifyChainInner core ord w.numProcessed height hash w.chain =
      .ok (addResult, next) chain)
    (hy : NamedBy hist hash y ∨ y ∈ rest.map (·.2)) (hnot : ¬LeftOut core ord w height hash rest y) :
    y ∈ queueAfter core ord w := by
  rw [LeftOut, not_or, not_and] at hnot
  obtain ⟨hopen, hskips⟩ := hnot
  have hself : (height, hash).2 ∈ hash :: w.processed := List.mem_cons_self
  rw [queueAfter_eq hr.agree hqueue hinner hopen, List.mem_map]
  by_cases hmem : y ∈ rest.map (·.2)
  · obtain ⟨item, hitem, rfl⟩ := List.mem_map.mp hmem
    exact ⟨item, (mem_enqueue hself _ _).mpr (Or.inl hitem), rfl⟩
  have hnamed := hy.resolve_right hmem
  have hskip := hskips hmem
  have ho := outcome_verifyChainInner core ord w.numProcessed height hash hr.agree
  rw [hinner] at ho
  have hr' := hr.outcome ho (.of_ok rfl)
  obtain ⟨yHeight, x, hx, hlow, hhigh⟩ := inReach_of_outcome hr.agree ho hskip
  have hnames : Names x hash := by
    obtain ⟨a, ha, haHash, hnames⟩ := hnamed
    obtain ⟨a', ha', hcontent, -⟩ := hr'.content hx
    have hsame : a' = a := hd.eq ha' ha (by
      rw [hash_of_withoutStatus hcontent, hr'.agree.hash_of_storedBlock hx, haHash])
    subst hsame
    rwa [Names, field_eq P2Block.prevHash (fun _ _ => rfl) hcontent,
      field_eq P2Block.uncles (fun _ _ => rfl) hcontent] at hnames
  have hnext : (yHeight, y) ∈ next := by
    rw [next_eq_of_outcome hr.agree ho hskip]
    exact (mem_childrenAndNephews hr'.agree).mpr ⟨x, hx, hlow, hhigh, hnames⟩
  exact ⟨(yHeight, y), (mem_enqueue hself _ _).mpr
    (Or.inr ⟨hnext, fun hprocessed => hskip (Skips.processed hprocessed)⟩), rfl⟩

/-- What the visit leaves out leads to nothing that is due, unless something that it does not leave
out leads there too. -/
def KeepsPending (core : TariCore) (ord : IterOrder) (hist : List P2Block) (due : FixedHash → Prop)
    (w : WalkState) (height : Nat) (hash : FixedHash) (rest : List (Nat × FixedHash)) : Prop :=
  ∀ y, NamedBy hist hash y ∨ y ∈ rest.map (·.2) → LeftOut core ord w height hash rest y →
    ∀ z, due z → Relation.ReflTransGen (NamedBy hist) y z →
      ∃ y', (NamedBy hist hash y' ∨ y' ∈ rest.map (·.2)) ∧ ¬LeftOut core ord w height hash rest y' ∧
        Relation.ReflTransGen (NamedBy hist) y' z

/-- The rule of a worklist for a successful visit. `due` tells from the chain before the visit what
may be due after it. -/
theorem pending_of_visit {before after due : FixedHash → Prop} (hr : Recorded config hist w.chain)
    (hd : Distinct hist) (hqueue : w.nextLevel = (height, hash) :: rest)
    (hinner : verifyChainInner core ord w.numProcessed height hash w.chain =
      .ok (addResult, next) chain)
    (hkeeps : KeepsPending core ord hist due w height hash rest)
    (hpending : ∀ z, before z → Pending (NamedBy hist) (w.nextLevel.map (·.2)) z)
    (hdue : ∀ z, after z → due z)
    (hnew : ∀ z, after z → (before z ∧ z ≠ hash) ∨ Relation.TransGen (NamedBy hist) hash z)
    (hz : after z) : Pending (NamedBy hist) (queueAfter core ord w) z := by
  rw [hqueue] at hpending
  refine Pending.round hpending hnew (fun y hy hout z' hz' hlead => ?_) hz
  have hleft : LeftOut core ord w height hash rest y := by
    by_contra hnot
    exact hout (mem_queueAfter hr hd hqueue hinner hy hnot)
  obtain ⟨y', hy', hnot, hlead'⟩ := hkeeps y hy hleft z' (hdue z' hz') hlead
  exact Pending.of_leads (mem_queueAfter hr hd hqueue hinner hy' hnot) hlead'

/-! ### Visits that leave nothing out -/

/-- Nothing is queued behind the visited block, and every block that names it is queued: it is
verified and does not start a chain, its level is near and not pruned, and the report stays open. -/
def queuesAll (core : TariCore) (ord : IterOrder) (hist : List P2Block) (w : WalkState) : Bool :=
  match w.nextLevel with
  | [] => true
  | (height, hash) :: rest =>
    (rest.isEmpty && hist.all fun a => decide (¬Names a hash)) ||
      (decide ((w.newTip.combine ord w.numProcessed
          (w.chain.visitReport core height hash)).missingBlocks.size < maxMissingParents) &&
        w.chain.getTip.isSome && decide (w.chain.levels.size < maxLevels w.chain.config) &&
        (w.chain.storedBlock height hash).all (fun x =>
          match w.chain.statusAfter core x with
          | .ok v => v.isVerified
          | .error _ => true) &&
        hist.all fun a => decide (¬Names a hash) ||
          (!(hash :: w.processed).contains a.hash && (w.chain.storedBlock a.height a.hash).isSome &&
            decide (height < a.height) && decide (a.height < height + maxUncleAge)))

theorem not_leftOut_of_queuesAll (h : queuesAll core ord hist w = true)
    (hqueue : w.nextLevel = (height, hash) :: rest) (hy : NamedBy hist hash y ∨ y ∈ rest.map (·.2)) :
    ¬LeftOut core ord w height hash rest y := by
  rw [queuesAll, hqueue] at h
  simp only [Bool.or_eq_true, Bool.and_eq_true, List.all_eq_true, decide_eq_true_eq,
    Bool.not_eq_true', List.contains_eq_mem, decide_eq_false_iff_not] at h
  obtain ⟨hrest, hnone⟩ | ⟨⟨⟨⟨hopen, htip⟩, hfew⟩, hverified⟩, hqueued⟩ := h
  · rw [List.isEmpty_iff.mp hrest] at hy
    obtain ⟨a, ha, -, hnames⟩ | hmem := hy
    · exact absurd hnames (hnone a ha)
    · cases hmem
  · rintro (hfull | ⟨hbehind, hskips⟩)
    · exact absurd hopen (Nat.not_lt.mpr hfull)
    obtain ⟨a, ha, rfl, hnames⟩ := hy.resolve_right hbehind
    obtain hother | ⟨⟨⟨hfresh, hstored⟩, hlow⟩, hhigh⟩ := hqueued a ha
    · exact hother hnames
    cases hskips with
    | chainStart hnone => simp [hnone] at htip
    | unverified hx _ hchecks hunverified =>
      rw [hx, Option.all_some, hchecks] at hverified
      simp [hunverified] at hverified
    | processed hprocessed => exact hfresh hprocessed
    | outOfReach hout =>
      obtain ⟨x, hx⟩ := Option.isSome_iff_exists.mp hstored
      have := hout a.height x hx
      omega
    | pruned hx _ hbelow => exact absurd hfew (Nat.not_lt.mpr (hbelow.trans (levelsAbove_le_size _ _)))

theorem keepsPending_of_queuesAll {due : FixedHash → Prop} (h : queuesAll core ord hist w = true)
    (hqueue : w.nextLevel = (height, hash) :: rest) :
    KeepsPending core ord hist due w height hash rest := by
  intro y hy hleft
  exact absurd hleft (not_leftOut_of_queuesAll h hqueue hy)

end P2Chain

end ShaP2Pool
