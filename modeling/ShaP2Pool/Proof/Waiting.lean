import ShaP2Pool.Proof.Queue

/-!
# Waiting blocks

A block that arrives before something it references waits. The call that brings the last missing
block looks at the blocks that name it, then at those that name these, and so on. A visit changes
nothing that another block is checked against but the flags of the visited block, which count for
the blocks that list it as an uncle. So what may come to be verifiable by a visit can be told before
it, and is led to by the queue of the walk unless a visit leaves out a block that leads there.
-/

namespace ShaP2Pool

namespace P2Chain

variable {core : TariCore} {ord : IterOrder} {config : ChainConfig} {hist : List P2Block}
  {c c' c₀ c₁ chain : P2Chain} {a b b₁ p u x : P2Block} {w : WalkState} {height n : Nat}
  {hash visited y z : FixedHash} {rest next : List (Nat × FixedHash)} {addResult : ChainAddResult}

/-! ### Verifiable blocks -/

/-- Everything that a block references is stored: its parent, its uncles and their parents. -/
def HasReferences (c : P2Chain) (x : P2Block) : Prop :=
  (x.height ≠ 0 → ∃ p, c.parentOf x = some p) ∧
    ∀ uncle ∈ x.uncles, ∃ u p, c.storedBlock uncle.1 uncle.2 = some u ∧
      c.storedBlock (uncle.1 - 1) u.prevHash = some p

theorem HasReferences.complete (h : c.HasReferences x) : c.Complete x :=
  fun hheight => ⟨h.1 hheight, h.2⟩

/-- A block that is not verified, although it references nothing absent and passes its checks. -/
structure CanVerify (core : TariCore) (c : P2Chain) (x : P2Block) : Prop where
  unverified : x.verified.isVerified = false
  references : c.HasReferences x
  passes : ∃ v, c.runChecks core x = .ok v ∧ v.isVerified = true

def Verifiable (core : TariCore) (c : P2Chain) (hash : FixedHash) : Prop :=
  ∃ height x, c.storedBlock height hash = some x ∧ c.CanVerify core x

/-- What a successful visit can do to the stored blocks: nothing if the visited block misses a
reference, else it is checked, and the chain after it stores no other blocks. -/
theorem visited_of_outcome (hc : c.StoresAgree)
    (ho : Outcome core ord n height hash c (.ok (addResult, next) chain)) :
    (chain = c ∧ ∃ b, c.storedBlock height hash = some b ∧ ¬c.Complete b) ∨
      ∃ b b₁ c₁, Checked core c height hash b b₁ c₁ ∧ ∀ {height' hash' y},
        chain.storedBlock height' hash' = some y → c₁.storedBlock height' hash' = some y := by
  have hmoved {b b₁ : P2Block} {c₁ c₂ : P2Chain} (hchecked : Checked core c height hash b b₁ c₁)
      (hmoves : MovesTip c₁ b₁ c₂) {height' : Nat} {hash' : FixedHash} {y : P2Block}
      (hy : c₂.cleanupChain.storedBlock height' hash' = some y) :
      c₁.storedBlock height' hash' = some y := by
    have hc₂ := hmoves.same.storesAgree (hchecked.storesAgree hc)
    rw [← hmoves.same.storedBlock]
    exact (Prunes.cleanupChain hc₂).storedBlock_of hc₂ hy
  cases ho with
  | @waiting b hstored hmissing =>
    rw [Ne, complete_iff hc hstored] at hmissing
    exact Or.inl ⟨rfl, b, hstored, hmissing⟩
  | started hchecked _ _ hmoves => exact Or.inr ⟨_, _, _, hchecked, hmoved hchecked hmoves⟩
  | unverified hchecked => exact Or.inr ⟨_, _, _, hchecked, fun hy => hy⟩
  | extended hchecked _ _ _ _ hmoves => exact Or.inr ⟨_, _, _, hchecked, hmoved hchecked hmoves⟩
  | blocked hoff => exact Or.inr ⟨_, _, _, hoff.toChecked, fun hy => hy⟩
  | stayed hcandidate => exact Or.inr ⟨_, _, _, hcandidate.toChecked, fun hy => hy⟩
  | reorganised hcandidate _ hreorg =>
    refine Or.inr ⟨_, _, _, hcandidate.toChecked, fun hy => ?_⟩
    rwa [(hcandidate.reorganises hc hreorg).same.storedBlock] at hy

theorem not_verifiable_of_visited (hc : c.StoresAgree)
    (ho : Outcome core ord n height hash c (.ok (addResult, next) chain))
    (h : c.Verifiable core hash) : ¬chain.Verifiable core hash := by
  obtain ⟨xHeight, x, hx, hcan⟩ := h
  intro ⟨yHeight, y, hy, hcannot⟩
  obtain ⟨-, b, hb, hincomplete⟩ | ⟨b, b₁, c₁, hchecked, hstored⟩ := visited_of_outcome hc ho
  · obtain ⟨-, rfl⟩ := hc.storedBlock_inj hb hx
    exact hincomplete hcan.references.complete
  · obtain ⟨-, rfl⟩ := hc.storedBlock_inj hchecked.stored hx
    obtain ⟨-, rfl⟩ := (hchecked.storesAgree hc).storedBlock_inj (hstored hy)
      (hchecked.storedBlock_self hc)
    obtain ⟨v, hchecks, hverified⟩ := hcan.passes
    have hstatus := hchecked.statusAfter_eq
    rw [statusAfter, if_neg (by rw [hcan.unverified]; decide), hchecks, Except.ok.injEq] at hstatus
    rw [hstatus, hcannot.unverified] at hverified
    cases hverified

/-! ### What may wake up -/

/-- The stored block with the hash is not verified, references nothing absent, and has the work that
it claims or lists the block `visited` as an uncle. -/
def MayWake (c : P2Chain) (visited hash : FixedHash) : Prop :=
  ∃ height x, c.storedBlock height hash = some x ∧ x.verified.isVerified = false ∧
    c.HasReferences x ∧ (c.verifyPowAndParents x = .ok true ∨ ∃ uncle ∈ x.uncles, uncle.2 = visited)

/-- `hash'` is the parent or an uncle of `x`, or the parent of a stored uncle. -/
def Cites (c : P2Chain) (x : P2Block) (hash' : FixedHash) : Prop :=
  Names x hash' ∨ ∃ uncle ∈ x.uncles, ∃ u, c.storedBlock uncle.1 uncle.2 = some u ∧ u.prevHash = hash'

theorem names_uncle {uncle : Nat × FixedHash} (hmem : uncle ∈ x.uncles) : Names x uncle.2 :=
  Or.inr ⟨uncle, hmem, rfl⟩

/-- What `x` cites in `c'` is stored in `c`, the same but for the flags of the block `visited`. -/
def KeepsCited (c c' : P2Chain) (visited : FixedHash) (x : P2Block) : Prop :=
  ∀ height' hash' y, c'.Cites x hash' → c'.storedBlock height' hash' = some y →
    ∃ y', c.storedBlock height' hash' = some y' ∧ y'.withoutStatus = y.withoutStatus ∧
      (hash' ≠ visited → y' = y)

namespace KeepsCited

variable (hcited : KeepsCited c c' visited x)
include hcited

theorem parent (hheight : x.height ≠ 0) (hp : c'.parentOf x = some p) :
    ∃ p', c.parentOf x = some p' ∧ p'.withoutStatus = p.withoutStatus := by
  rw [parentOf, if_neg hheight] at hp
  obtain ⟨p', hp', hcontent, -⟩ := hcited _ _ p (Or.inl (Or.inl rfl)) hp
  exact ⟨p', by rw [parentOf, if_neg hheight, hp'], hcontent⟩

theorem hasReferences (h : c'.HasReferences x) : c.HasReferences x := by
  refine ⟨fun hheight => ?_, fun uncle hmem => ?_⟩
  · obtain ⟨p, hp⟩ := h.1 hheight
    obtain ⟨p', hp', -⟩ := hcited.parent hheight hp
    exact ⟨p', hp'⟩
  · obtain ⟨u, p, hu, hp⟩ := h.2 uncle hmem
    obtain ⟨u', hu', hcontent, -⟩ := hcited _ _ u (Or.inl (names_uncle hmem)) hu
    obtain ⟨p', hp', -⟩ := hcited _ _ p (Or.inr ⟨uncle, hmem, u, hu, rfl⟩) hp
    refine ⟨u', p', hu', ?_⟩
    rwa [field_eq P2Block.prevHash (fun _ _ => rfl) hcontent]

theorem verifyPowAndParents_eq (hc : c.StoresAgree) (hc' : c'.StoresAgree)
    (hconfig : c'.config = c.config) (hrefs : c'.HasReferences x)
    (hnot : ¬∃ uncle ∈ x.uncles, uncle.2 = visited) :
    c'.verifyPowAndParents x = c.verifyPowAndParents x := by
  refine verifyPowAndParents_congr hconfig (fun uncle hmem => ?_) fun hheight => ?_
  · obtain ⟨u, p, hu, -⟩ := hrefs.2 uncle hmem
    obtain ⟨u', hu', -, hsame⟩ := hcited _ _ u (Or.inl (names_uncle hmem)) hu
    rw [hc'.getBlockAtHeight_of_storedBlock hu, hc.getBlockAtHeight_of_storedBlock hu',
      hsame fun heq => hnot ⟨uncle, hmem, heq⟩]
  · obtain ⟨p, hp⟩ := hrefs.1 hheight
    obtain ⟨p', hp', hcontent⟩ := hcited.parent hheight hp
    rw [parentOf, if_neg hheight] at hp hp'
    rw [hc'.getBlockAtHeight_of_storedBlock hp, hc.getBlockAtHeight_of_storedBlock hp',
      Option.map_some, Option.map_some, field_eq P2Block.totalPow (fun _ _ => rfl) hcontent]

theorem mayWake (hc : c.StoresAgree) (hc' : c'.StoresAgree) (hconfig : c'.config = c.config)
    (hx : c.storedBlock height hash = some x) (hunverified : x.verified.isVerified = false)
    (hrefs : c'.HasReferences x) (hwork : c'.verifyPowAndParents x = .ok true) :
    c.MayWake visited hash := by
  refine ⟨height, x, hx, hunverified, hcited.hasReferences hrefs, ?_⟩
  by_cases huncle : ∃ uncle ∈ x.uncles, uncle.2 = visited
  · exact Or.inr huncle
  · rw [hcited.verifyPowAndParents_eq hc hc' hconfig hrefs huncle] at hwork
    exact Or.inl hwork

end KeepsCited

theorem CanVerify.work (h : c.CanVerify core x) : c.verifyPowAndParents x = .ok true := by
  obtain ⟨v, hchecks, hverified⟩ := h.passes
  refine verifyPowAndParents_of_runChecks hchecks ?_
  simp only [VerifiedStatus.isVerified, Bool.and_eq_true] at hverified
  grind

theorem namedBy_of_names (hr : Recorded config hist c) (hx : c.storedBlock height hash = some x)
    (hnames : Names x y) : NamedBy hist y hash := by
  obtain ⟨a, ha, hcontent, -⟩ := hr.content hx
  refine ⟨a, ha, ?_, ?_⟩
  · rw [hash_of_withoutStatus hcontent, hr.agree.hash_of_storedBlock hx]
  · rwa [Names, field_eq P2Block.prevHash (fun _ _ => rfl) hcontent,
      field_eq P2Block.uncles (fun _ _ => rfl) hcontent]

theorem mayWake_of_writes (hr : Recorded config hist c) (hfresh : ∀ a ∈ hist, a.hash ≠ b.hash)
    (hw : Writes c b c₀) (h : c₀.Verifiable core z) :
    c.MayWake b.hash z ∨ Relation.ReflTransGen (NamedBy (b :: hist)) b.hash z := by
  obtain ⟨height, x, hx, hcan⟩ := h
  have hr₀ := hr.writes (hr.unused hfresh) hw
  have hsame {height' : Nat} {hash' : FixedHash} (hne : hash' ≠ b.hash) :
      c₀.storedBlock height' hash' = c.storedBlock height' hash' := by
    rw [hw.storedBlock hr.agree (hr.unused hfresh), if_neg (fun h => hne h.2)]
  by_cases hself : z = b.hash
  · rw [hself]
    exact Or.inr Relation.ReflTransGen.refl
  by_cases hcites : c₀.Cites x b.hash
  · refine Or.inr ?_
    obtain hnames | ⟨uncle, hmem, u, hu, hprev⟩ := hcites
    · exact Relation.ReflTransGen.single (namedBy_of_names hr₀ hx hnames)
    · exact (Relation.ReflTransGen.single (namedBy_of_names hr₀ hu (Or.inl hprev))).tail
        (namedBy_of_names hr₀ hx (names_uncle hmem))
  · have hcited : KeepsCited c c₀ b.hash x := by
      intro height' hash' y hhash hy
      have hne : hash' ≠ b.hash := by
        rintro rfl
        exact hcites hhash
      exact ⟨y, hsame hne ▸ hy, rfl, fun _ => rfl⟩
    exact Or.inl (hcited.mayWake hr.agree hr₀.agree hw.config (hsame hself ▸ hx) hcan.unverified
      hcan.references hcan.work)

/-- What can be verified after a visit may wake up before it. -/
theorem mayWake_of_outcome (hr : Recorded config hist c)
    (ho : Outcome core ord n height hash c (.ok (addResult, next) chain))
    (h : chain.Verifiable core z) : c.MayWake hash z := by
  have hreturns : Returns (EStateM.Result.ok (ε := Fault) (addResult, next) chain) := .of_ok rfl
  obtain ⟨zHeight, x, hx, hcan⟩ := h
  have hr' := hr.outcome ho hreturns
  have hconfig : chain.config = c.config := hr'.config_eq.trans hr.config_eq.symm
  have hcited (x : P2Block) : KeepsCited c chain hash x := by
    intro height' hash' y _ hy
    obtain ⟨y', hy', hcontent, -⟩ := storedBlock_of_outcome hr.agree ho hreturns hy
    refine ⟨y', hy', hcontent.symm, fun hne => ?_⟩
    rw [storedBlock_of_outcome_ne hr.agree ho hreturns hne hy, Option.some.injEq] at hy'
    exact hy'.symm
  by_cases hself : z = hash
  · subst hself
    obtain ⟨rfl, -⟩ | ⟨b, b₁, c₁, hchecked, hstored⟩ := visited_of_outcome hr.agree ho
    · exact ⟨zHeight, x, hx, hcan.unverified, hcan.references, Or.inl hcan.work⟩
    obtain ⟨-, rfl⟩ := (hchecked.storesAgree hr.agree).storedBlock_inj (hstored hx)
      (hchecked.storedBlock_self hr.agree)
    obtain ⟨hverified, rfl, -⟩ | ⟨hunverified, v, hchecks, rfl, -⟩ := hchecked.written
    · rw [hcan.unverified] at hverified
      cases hverified
    have hrefs : chain.HasReferences b := hcan.references
    cases hparents : v.parents with
    | true =>
      -- the visit has found the work right
      exact ⟨height, b, hchecked.stored, hunverified, (hcited b).hasReferences hrefs,
        Or.inl (verifyPowAndParents_of_runChecks hchecks hparents)⟩
    | false =>
      have hflag : b.verified.parents = false := by
        have hle := (runChecks_le hchecks).1
        grind
      have hwork := hcan.work
      rw [verifyPowAndParents_withStatus (by rw [hparents, hflag])] at hwork
      exact (hcited b).mayWake hr.agree hr'.agree hconfig hchecked.stored hunverified hrefs hwork
  · exact (hcited x).mayWake hr.agree hr'.agree hconfig
      (storedBlock_of_outcome_ne hr.agree ho hreturns hself hx) hcan.unverified hcan.references hcan.work

/-- With the checks that the server bypasses, what may wake up can be verified already or lists the
visited block. -/
theorem MayWake.cases (hbypass : c.config.bypassChecks = serverBypass) (hr : Recorded config hist c)
    (h : c.MayWake visited z) : c.Verifiable core z ∨ NamedBy hist visited z := by
  obtain ⟨height, x, hx, hunverified, hrefs, hwork | ⟨uncle, hmem, rfl⟩⟩ := h
  · refine Or.inl ⟨height, x, hx, hunverified, hrefs, ?_⟩
    rw [runChecks_serverBypass hbypass, hwork]
    exact ⟨_, rfl, by simp [VerifiedStatus.isVerified]⟩
  · exact Or.inr (namedBy_of_names hr hx (names_uncle hmem))

/-! ### No lost wake-up -/

/-- What may wake up by the storing of the block, or by a visit, can be verified already or is led
to by the new block or by the visited one. -/
structure SpreadsDown (core : TariCore) (ord : IterOrder) (hist : List P2Block) (c : P2Chain)
    (b : P2Block) : Prop where
  stored : ∀ z, c.MayWake b.hash z →
    c.Verifiable core z ∨ Relation.ReflTransGen (NamedBy (b :: hist)) b.hash z
  visited : ∀ w height hash rest, Visits core ord b c w → w.nextLevel = (height, hash) :: rest →
    ∀ z, w.chain.MayWake hash z →
      w.chain.Verifiable core z ∨ Relation.TransGen (NamedBy (b :: hist)) hash z

/-- What the visits of a call must respect for no block to be left waiting for nothing. -/
structure WakesWaiting (core : TariCore) (hist : List P2Block) (c : P2Chain) (ord : IterOrder)
    (b : P2Block) : Prop where
  keeps : ∀ w height hash rest, Visits core ord b c w → w.nextLevel = (height, hash) :: rest →
    KeepsPending core ord (b :: hist) (w.chain.MayWake hash) w height hash rest
  spreads : c.config.bypassChecks = serverBypass ∨ SpreadsDown core ord hist c b

theorem WakesWaiting.spreadsDown (hwakes : WakesWaiting core hist c ord b)
    (hr : Recorded config hist c) (hfresh : ∀ a ∈ hist, a.hash ≠ b.hash) :
    SpreadsDown core ord hist c b := by
  obtain hbypass | hspreads := hwakes.spreads
  · refine ⟨fun z hz => ?_, fun w height hash rest hvisits _ z hz => ?_⟩
    · obtain hold | ⟨a, ha, hnamed⟩ := hz.cases hbypass hr
      · exact Or.inl hold
      · exact Or.inr (Relation.ReflTransGen.single ⟨a, List.mem_cons_of_mem b ha, hnamed⟩)
    · have hr' := hr.visits (hr.unused hfresh) hvisits
      obtain hold | hnamed := hz.cases (by rw [hr'.config_eq, ← hr.config_eq, hbypass]) hr'
      · exact Or.inl hold
      · exact Or.inr (Relation.TransGen.single hnamed)
  · exact hspreads

theorem not_verifiable_of_call (hr : Recorded config hist c) (hd : Distinct (b :: hist))
    (hfresh : ∀ a ∈ hist, a.hash ≠ b.hash) (hwakes : WakesWaiting core hist c ord b)
    (hbefore : ∀ z, ¬c.Verifiable core z) {result : ChainAddResult}
    (hok : addBlockToChain core ord b c = .ok result c') (z : FixedHash) : ¬c'.Verifiable core z := by
  have hspreads := hwakes.spreadsDown hr hfresh
  have hpending : ∀ z, c'.Verifiable core z → Pending (NamedBy (b :: hist)) [] z := by
    refine walk_rule (I := fun c queue => ∀ z, c.Verifiable core z →
      Pending (NamedBy (b :: hist)) queue z) hok (fun c₀ hw z hz => ?_) ?_
    · refine Pending.of_leads List.mem_cons_self ?_
      obtain hwake | hlead := mayWake_of_writes hr hfresh hw hz
      · exact (hspreads.stored z hwake).resolve_left (hbefore z)
      · exact hlead
    · intro w height hash rest addResult next chain hvisits hqueue hinner hI z hz
      have hr' := hr.visits (hr.unused hfresh) hvisits
      have ho := outcome_verifyChainInner core ord w.numProcessed height hash hr'.agree
      rw [hinner] at ho
      refine pending_of_visit hr' hd hqueue hinner (hwakes.keeps w height hash rest hvisits hqueue) hI
        (fun z hz => mayWake_of_outcome hr' ho hz) (fun z hz => ?_) hz
      obtain hold | hlead :=
        hspreads.visited w height hash rest hvisits hqueue z (mayWake_of_outcome hr' ho hz)
      · refine Or.inl ⟨hold, ?_⟩
        rintro rfl
        exact not_verifiable_of_visited hr'.agree ho hold hz
      · exact Or.inr hlead
  exact fun hz => Pending.not_nil (hpending z hz)

theorem AddRun.not_verifiable (hrun : AddRun core config (WakesWaiting core) hist c) (z : FixedHash) :
    ¬c.Verifiable core z := by
  induction hrun generalizing z with
  | empty =>
    intro ⟨height, x, hx, _⟩
    cases hx
  | @added hist c c' ord b result hrun hnonzero hfresh hwakes hok ih =>
    exact not_verifiable_of_call hrun.run.recorded (hrun.run.distinct.cons hnonzero hfresh) hfresh
      hwakes ih hok z

/-- In a run of calls that all succeed and whose visits leave out no block that leads to one that
may wake up, a stored block that is not verified references something absent, or stays unverified if
it is verified now. -/
theorem no_lost_wake_up (hrun : AddRun core config (WakesWaiting core) hist c)
    (hx : c.storedBlock height hash = some x) (hunverified : x.verified.isVerified = false)
    (hreferences : c.HasReferences x) (hverify : verifyBlock core hash height c = .ok () c') :
    ∃ x', c'.storedBlock height hash = some x' ∧ x'.verified.isVerified = false := by
  have hc := hrun.run.recorded.agree
  obtain ⟨b₁, c₁, hok, hchecked⟩ | ⟨-, fault, -, herror⟩ :=
    verifyBlock_spec core hc hx ((complete_iff hc hx).mpr hreferences.complete)
  · rw [hok] at hverify
    cases hverify
    refine ⟨b₁, hchecked.storedBlock_self hc, ?_⟩
    by_contra hverified
    rw [Bool.not_eq_false] at hverified
    have hstatus := hchecked.statusAfter_eq
    rw [statusAfter, if_neg (by rw [hunverified]; decide)] at hstatus
    exact hrun.not_verifiable hash
      ⟨height, x, hx, hunverified, hreferences, b₁.verified, hstatus, hverified⟩
  · rw [herror] at hverify
    cases hverify

def lateStart : P2Chain :=
  addAll sampleCore .stored [sampleBlock 2 1 1 2, sampleBlock 1 0 0 1] (newEmpty (sampleConfig 10))

/-- A child that comes before the start of its chain is not verified by the call that brings it. -/
theorem child_left_waiting : ∃ hist x c', AddRun sampleCore (sampleConfig 10) Unrestricted hist lateStart ∧
    lateStart.storedBlock 1 2 = some x ∧ x.verified.isVerified = false ∧ x.uncles = [] ∧
    lateStart.HasReferences x ∧ verifyBlock sampleCore 2 1 lateStart = .ok () c' ∧
    ∀ x', c'.storedBlock 1 2 = some x' → x'.verified.isVerified = true := by
  have hrun : AddRun sampleCore (sampleConfig 10) Unrestricted _ lateStart :=
    AddRun.of_blocks IterOrder.stored (fun _ _ _ => true) (fun _ _ _ _ => trivial) _ (by decide)
  have hverified : ∀ x' ∈ (verifyBlock sampleCore 2 1 lateStart).state.storedBlock 1 2,
      x'.verified.isVerified = true := by decide
  have huncles : ((lateStart.storedBlock 1 2).get (by decide)).uncles = [] := by decide
  refine ⟨_, _, _, hrun, (Option.some_get (by decide)).symm, by decide, huncles,
    ⟨fun _ => ⟨_, (Option.some_get (by decide)).symm⟩, fun uncle hmem => ?_⟩,
    eq_ok_of_valueOf (by decide), hverified⟩
  rw [huncles] at hmem
  cases hmem

/-- Two blocks on each other that come in the wrong order behind the first one, an uncle that waits
for an uncle of its own, and a block that lists the waiting one. -/
def nephewBlocks : List P2Block :=
  [sampleBlock 1 0 0 1, sampleBlock 3 2 2 3, sampleBlock 2 1 1 2,
    { sampleBlock 10 1 1 2 with uncles := [(0, 99)] }, { sampleBlock 11 2 2 4 with uncles := [(1, 10)] }]

def nephewChain : P2Chain := addAll sampleCore .stored nephewBlocks (newEmpty (sampleConfig 10))

theorem addRun_nephewChain : AddRun sampleCore (sampleConfig 10) (WakesWaiting sampleCore)
    nephewBlocks.reverse nephewChain := by
  refine AddRun.of_blocks IterOrder.stored
    (fun hist c b => decide (c.config.bypassChecks = serverBypass) &&
      visitsAll sampleCore .stored (queuesAll sampleCore .stored (b :: hist)) c b)
    (fun hist c b h => ?_) nephewBlocks (by decide)
  rw [Bool.and_eq_true, decide_eq_true_eq] at h
  refine ⟨fun w height hash rest hvisits hqueue => ?_, Or.inl h.1⟩
  exact keepsPending_of_queuesAll (of_visitsAll h.2 hvisits) hqueue

/-- The nephew of the waiting block, which has everything it references, is not verified now. -/
theorem no_lost_wake_up_nephew :
    ∃ x', (verifyBlock sampleCore 11 2 nephewChain).state.storedBlock 2 11 = some x' ∧
      x'.verified.isVerified = false := by
  have huncles : ((nephewChain.storedBlock 2 11).get (by decide)).uncles = [(1, 10)] := by decide
  refine no_lost_wake_up addRun_nephewChain (Option.some_get (by decide)).symm (by decide)
    ⟨fun _ => ⟨_, (Option.some_get (by decide)).symm⟩, fun uncle hmem => ?_⟩
    (eq_ok_of_valueOf (by decide))
  rw [huncles, List.mem_singleton] at hmem
  subst hmem
  exact ⟨_, _, (Option.some_get (by decide)).symm, (Option.some_get (by decide)).symm⟩

end P2Chain

end ShaP2Pool
