import ShaP2Pool.Sharechain.InMemory
import ShaP2Pool.Proof.Reorg

/-!
# Runs

A run is a sequence of calls that change a chain, each allowed by a condition on the chain before
it. A call that panics ends the process, so it ends no run. The walk of a call passes through its
`Visits`: the states in which it takes up the next stored block. What every outcome of a
verification keeps is kept by the call, and so by the run.
-/

namespace ShaP2Pool

namespace P2Chain

variable {core : TariCore} {ord : IterOrder} {config : ChainConfig}
variable {c c' c₀ c₁ c₂ : P2Chain} {b b₁ : P2Block} {hist : List P2Block}

/-- A call that gives back a value or an error. -/
def Returns {α : Type} (r : EStateM.Result Fault P2Chain α) : Prop :=
  ∀ p c, r ≠ .error (.panic p) c

theorem Returns.of_ok {α : Type} {r : EStateM.Result Fault P2Chain α} {a : α} (h : r = .ok a c) :
    Returns r := by
  subst h
  intro p c' h
  cases h

theorem Returns.of_error {α : Type} {r : EStateM.Result Fault P2Chain α} {e : ShareChainError}
    (h : r = .error (.error e) c) : Returns r := by
  subst h
  intro p c' h
  cases h

/-- A block that `addBlockToChain` turns down before it looks at the chain. -/
def ParentIsUncle (b : P2Block) : Prop := b.uncles.any (fun uncle => uncle.2 == b.prevHash) = true

instance (b : P2Block) : Decidable (ParentIsUncle b) := inferInstanceAs (Decidable (_ = true))

/-- The runs in which no two blocks that are added share a hash, which is not zero, so that none is
added twice: the chains reached from the empty one, with the blocks stored on the way, newest first.
`P` restricts the calls by the blocks stored before, the chain, the iteration order and the new
block. -/
inductive Run (core : TariCore) (config : ChainConfig)
    (P : List P2Block → P2Chain → IterOrder → P2Block → Prop) : List P2Block → P2Chain → Prop
  | empty : Run core config P [] (newEmpty config)
  | refused {hist : List P2Block} {c : P2Chain} {b : P2Block} (hrun : Run core config P hist c)
    (hrefused : ParentIsUncle b) : Run core config P hist c
  | added {hist : List P2Block} {c : P2Chain} {ord : IterOrder} {b : P2Block}
    (hrun : Run core config P hist c) (hnonzero : b.hash ≠ FixedHash.zero)
    (hfresh : ∀ a ∈ hist, a.hash ≠ b.hash) (hallowed : ¬ParentIsUncle b) (hstep : P hist c ord b)
    (hreturns : Returns (addBlockToChain core ord b c)) :
    Run core config P (b :: hist) (addBlockToChain core ord b c).state
  | generated {hist : List P2Block} {c : P2Chain} {s : InMemoryShareChain} {ord : IterOrder}
    {template : P2Block} {soloMine : Bool} (hrun : Run core config P hist c)
    (hreturns : Returns (s.generateSharesAndGetTargetDifficulty core ord template soloMine c)) :
    Run core config P hist
      (s.generateSharesAndGetTargetDifficulty core ord template soloMine c).state

def Unrestricted (_ : List P2Block) (_ : P2Chain) (_ : IterOrder) (_ : P2Block) : Prop := True

/-! ### The walk of one call -/

/-- The walk of `addBlockToChain core ord b` on `c` passes through `w`. -/
def Visits (core : TariCore) (ord : IterOrder) (b : P2Block) (c : P2Chain) (w : WalkState) : Prop :=
  ¬ParentIsUncle b ∧ ∃ c₀, c.insertBlock b = .ok c₀ ∧
    Reaches (verifyChainStep core ord) { chain := c₀, nextLevel := [(b.height, b.hash)] } w

/-- A round of the walk that goes on. -/
theorem verifyChainStep_inl {w w' : WalkState} (h : verifyChainStep core ord w = .inl w') :
    ∃ height hash rest addResult next chain, w.nextLevel = (height, hash) :: rest ∧
      verifyChainInner core ord w.numProcessed height hash w.chain = .ok (addResult, next) chain ∧
      (w.newTip.combine ord w.numProcessed addResult).missingBlocks.size < maxMissingParents ∧
      w' = { chain := chain
             nextLevel := enqueue (hash :: w.processed) (height, hash) next rest
             processed := hash :: w.processed
             numProcessed := w.numProcessed + 1
             newTip := w.newTip.combine ord w.numProcessed addResult } := by
  rw [verifyChainStep] at h
  cases hqueue : w.nextLevel with
  | nil => simp [hqueue] at h
  | cons item rest =>
    obtain ⟨height, hash⟩ := item
    simp only [hqueue] at h
    cases hinner : verifyChainInner core ord w.numProcessed height hash w.chain with
    | error fault chain => simp [hinner] at h
    | ok result chain =>
      obtain ⟨addResult, next⟩ := result
      simp only [hinner] at h
      split_ifs at h with hfull
      exact ⟨height, hash, rest, addResult, next, chain, rfl, hinner, by omega,
        (Sum.inl.inj h).symm⟩

/-- A round in which the walk ends: nothing is left, a verification failed, or the report of missing
blocks is full. -/
theorem verifyChainStep_inr {w : WalkState} {r : EStateM.Result Fault P2Chain ChainAddResult}
    (h : verifyChainStep core ord w = .inr r) :
    (w.nextLevel = [] ∧ r = .ok w.newTip w.chain) ∨
      ∃ height hash rest, w.nextLevel = (height, hash) :: rest ∧
        ((∃ fault chain, verifyChainInner core ord w.numProcessed height hash w.chain =
            .error fault chain ∧ r = .error fault chain) ∨
          ∃ addResult next chain, verifyChainInner core ord w.numProcessed height hash w.chain =
            .ok (addResult, next) chain ∧
            maxMissingParents ≤
              (w.newTip.combine ord w.numProcessed addResult).missingBlocks.size ∧
            r = .ok (w.newTip.combine ord w.numProcessed addResult) chain) := by
  rw [verifyChainStep] at h
  cases hqueue : w.nextLevel with
  | nil =>
    simp only [hqueue] at h
    exact Or.inl ⟨rfl, (Sum.inr.inj h).symm⟩
  | cons item rest =>
    obtain ⟨height, hash⟩ := item
    simp only [hqueue] at h
    refine Or.inr ⟨height, hash, rest, rfl, ?_⟩
    cases hinner : verifyChainInner core ord w.numProcessed height hash w.chain with
    | error fault chain =>
      simp only [hinner] at h
      exact Or.inl ⟨fault, chain, rfl, (Sum.inr.inj h).symm⟩
    | ok result chain =>
      obtain ⟨addResult, next⟩ := result
      simp only [hinner] at h
      split_ifs at h with hfull
      exact Or.inr ⟨addResult, next, chain, rfl, hfull, (Sum.inr.inj h).symm⟩

/-- A block that lists its parent as an uncle is turned down before anything happens. -/
theorem addBlockToChain_of_parentIsUncle (core : TariCore) (ord : IterOrder) (c : P2Chain)
    (hrefused : ParentIsUncle b) : addBlockToChain core ord b c =
      .error (.error (.invalidBlock "Uncle cannot be the same as prev_hash")) c := by
  unfold ParentIsUncle at hrefused
  rw [addBlockToChain, if_pos hrefused]
  rfl

theorem allowed_of_ok {r : ChainAddResult} (hok : addBlockToChain core ord b c = .ok r c') :
    ¬ParentIsUncle b := by
  intro hrefused
  rw [addBlockToChain_of_parentIsUncle core ord c hrefused] at hok
  cases hok

/-- A block is stored and then the walk starts from it. -/
theorem addBlockToChain_eq (core : TariCore) (ord : IterOrder) (hallowed : ¬ParentIsUncle b)
    (hinsert : c.insertBlock b = .ok c₀) :
    addBlockToChain core ord b c = verifyChain core ord b.height b.hash c₀ := by
  unfold ParentIsUncle at hallowed
  rw [addBlockToChain, if_neg hallowed, addBlockInner]
  simp only [EStateM.bind_apply, EStateM.get_apply, hinsert, EStateM.ofExcept_ok,
    EStateM.set_apply]

/-- A call leaves its walk from one of the states it visits. -/
theorem exists_exit_of_returns (hallowed : ¬ParentIsUncle b)
    (hreturns : Returns (addBlockToChain core ord b c)) :
    ∃ w, Visits core ord b c w ∧ verifyChainStep core ord w = .inr (addBlockToChain core ord b c) := by
  obtain ⟨c₀, hinsert, -⟩ := Writes.of_insertBlock c b
  have heq := addBlockToChain_eq core ord hallowed hinsert
  rw [heq] at hreturns ⊢
  rw [verifyChain] at hreturns ⊢
  cases hloop : runLoop (verifyChainStep core ord) (c₀.numHeaders + 2)
      { chain := c₀, nextLevel := [(b.height, b.hash)] } with
  | none =>
    simp only [hloop] at hreturns
    exact absurd rfl (hreturns Panic.outOfFuel c₀)
  | some result =>
    obtain ⟨w, hreach, hexit⟩ := exists_exit_of_runLoop hloop
    exact ⟨w, ⟨hallowed, c₀, hinsert, hreach⟩, hexit⟩

/-- What the writing of the block establishes and every returning verification keeps is known
wherever the walk passes. -/
theorem Visits.inv {I : P2Chain → Prop} {w : WalkState} (hvisits : Visits core ord b c w)
    (hwrite : ∀ c₀, Writes c b c₀ → I c₀)
    (hround : ∀ w height hash rest, Visits core ord b c w → w.nextLevel = (height, hash) :: rest →
      I w.chain → Returns (verifyChainInner core ord w.numProcessed height hash w.chain) →
      I (verifyChainInner core ord w.numProcessed height hash w.chain).state) : I w.chain := by
  obtain ⟨hallowed, c₀, hinsert, hreach⟩ := hvisits
  obtain ⟨c₀', hinsert', hwrites⟩ := Writes.of_insertBlock c b
  rw [hinsert, Except.ok.injEq] at hinsert'
  subst hinsert'
  refine hreach.inv (I := fun w => I w.chain) (hwrite c₀ hwrites) (fun u v hu hI hstep => ?_)
  obtain ⟨height, hash, rest, addResult, next, chain, hqueue, hinner, -, rfl⟩ :=
    verifyChainStep_inl hstep
  have hnext := hround u height hash rest ⟨hallowed, c₀, hinsert, hu⟩ hqueue hI (.of_ok hinner)
  rwa [hinner] at hnext

theorem inv_of_exit {I : P2Chain → Prop} {w : WalkState}
    (hreturns : Returns (addBlockToChain core ord b c)) (hvisits : Visits core ord b c w)
    (hexit : verifyChainStep core ord w = .inr (addBlockToChain core ord b c)) (hI : I w.chain)
    (hround : ∀ w height hash rest, Visits core ord b c w → w.nextLevel = (height, hash) :: rest →
      I w.chain → Returns (verifyChainInner core ord w.numProcessed height hash w.chain) →
      I (verifyChainInner core ord w.numProcessed height hash w.chain).state) :
    I (addBlockToChain core ord b c).state := by
  rcases verifyChainStep_inr hexit with ⟨-, heq⟩ | ⟨height, hash, rest, hqueue, hlast⟩
  · rw [heq]
    exact hI
  · have hnext := hround w height hash rest hvisits hqueue hI
    rcases hlast with ⟨fault, chain, hinner, heq⟩ | ⟨addResult, next, chain, hinner, -, heq⟩
    · rw [hinner] at hnext
      rw [heq] at hreturns ⊢
      refine hnext (fun p c h => ?_)
      cases h
      exact hreturns p chain rfl
    · rw [hinner] at hnext
      rw [heq]
      refine hnext (fun p c h => ?_)
      cases h

/-- What the writing of the block establishes and every returning verification keeps is known when
the call returns. -/
theorem addBlock_inv {I : P2Chain → Prop} (hallowed : ¬ParentIsUncle b)
    (hreturns : Returns (addBlockToChain core ord b c)) (hwrite : ∀ c₀, Writes c b c₀ → I c₀)
    (hround : ∀ w height hash rest, Visits core ord b c w → w.nextLevel = (height, hash) :: rest →
      I w.chain → Returns (verifyChainInner core ord w.numProcessed height hash w.chain) →
      I (verifyChainInner core ord w.numProcessed height hash w.chain).state) :
    I (addBlockToChain core ord b c).state := by
  obtain ⟨w, hvisits, hexit⟩ := exists_exit_of_returns hallowed hreturns
  exact inv_of_exit hreturns hvisits hexit (hvisits.inv hwrite hround) hround

/-- What a visit establishes and every later verification keeps is known when the call returns. -/
theorem addBlock_inv_from {I : P2Chain → Prop} {w : WalkState} {height : Nat} {hash : FixedHash}
    {rest : List (Nat × FixedHash)} (hvisits : Visits core ord b c w)
    (hqueue : w.nextLevel = (height, hash) :: rest)
    (hreturns : Returns (addBlockToChain core ord b c))
    (hinit : I (verifyChainInner core ord w.numProcessed height hash w.chain).state)
    (hround : ∀ w height hash rest, Visits core ord b c w → w.nextLevel = (height, hash) :: rest →
      I w.chain → Returns (verifyChainInner core ord w.numProcessed height hash w.chain) →
      I (verifyChainInner core ord w.numProcessed height hash w.chain).state) :
    I (addBlockToChain core ord b c).state := by
  obtain ⟨hallowed, c₀, hinsert, hreach⟩ := hvisits
  obtain ⟨t, ⟨-, c₀', hinsert', hlast⟩, hexit⟩ := exists_exit_of_returns hallowed hreturns
  rw [hinsert, Except.ok.injEq] at hinsert'
  subst hinsert'
  -- the visit is the first round of the rest of the walk
  rcases Relation.ReflTransGen.cases_head (hreach.of_exit hlast hexit) with rfl | ⟨v, hv, hrest⟩
  · rcases verifyChainStep_inr hexit with ⟨hnil, -⟩ | ⟨height', hash', rest', hqueue', hend⟩
    · rw [hqueue] at hnil
      cases hnil
    · rw [hqueue, List.cons.injEq, Prod.mk.injEq] at hqueue'
      obtain ⟨⟨rfl, rfl⟩, rfl⟩ := hqueue'
      rcases hend with ⟨fault, chain, hinner, heq⟩ | ⟨addResult, next, chain, hinner, -, heq⟩
      · rw [heq]
        rwa [hinner] at hinit
      · rw [heq]
        rwa [hinner] at hinit
  · have hstart : I v.chain := by
      obtain ⟨height', hash', rest', addResult, next, chain, hqueue', hinner, -, rfl⟩ :=
        verifyChainStep_inl hv
      rw [hqueue, List.cons.injEq, Prod.mk.injEq] at hqueue'
      obtain ⟨⟨rfl, rfl⟩, rfl⟩ := hqueue'
      rwa [hinner] at hinit
    have hfirst : Reaches (verifyChainStep core ord)
        { chain := c₀, nextLevel := [(b.height, b.hash)] } v := hreach.tail hv
    have hI : I t.chain := by
      refine Reaches.inv (I := fun w => I w.chain) hrest hstart (fun u u' hu hI hstep => ?_)
      have hvisits' : Visits core ord b c u := ⟨hallowed, c₀, hinsert, hfirst.trans hu⟩
      obtain ⟨height', hash', rest', addResult, next, chain, hqueue', hinner, -, rfl⟩ :=
        verifyChainStep_inl hstep
      have hnext := hround u height' hash' rest' hvisits' hqueue' hI (.of_ok hinner)
      rwa [hinner] at hnext
    exact inv_of_exit hreturns ⟨hallowed, c₀, hinsert, hlast⟩ hexit hI hround

/-! ### Evaluating runs -/

def returns {α : Type} : EStateM.Result Fault P2Chain α → Bool
  | .error (.panic _) _ => false
  | _ => true

theorem returns_iff {α : Type} {r : EStateM.Result Fault P2Chain α} : returns r = true ↔ Returns r := by
  cases r with
  | ok a c => simp [returns, Returns]
  | error fault c => cases fault <;> simp [returns, Returns]

def addAll (core : TariCore) (ord : IterOrder) : List P2Block → P2Chain → P2Chain
  | [], c => c
  | b :: blocks, c => addAll core ord blocks (addBlockToChain core ord b c).state

/-- Whether adding the blocks is a run: the hashes are fresh, no call panics and each passes the
test. -/
def isRun (core : TariCore) (ord : IterOrder) (test : List P2Block → P2Chain → P2Block → Bool) :
    List P2Block → List P2Block → P2Chain → Bool
  | _, [], _ => true
  | hist, b :: blocks, c =>
    b.hash != FixedHash.zero && hist.all (·.hash != b.hash) && decide (¬ParentIsUncle b) &&
      test hist c b && returns (addBlockToChain core ord b c) &&
      isRun core ord test (b :: hist) blocks (addBlockToChain core ord b c).state

theorem Run.of_isRun {test : List P2Block → P2Chain → P2Block → Bool}
    {P : List P2Block → P2Chain → IterOrder → P2Block → Prop}
    (htest : ∀ hist c b, Run core config P hist c → b.hash ≠ FixedHash.zero →
      (∀ a ∈ hist, a.hash ≠ b.hash) → test hist c b = true → P hist c ord b) {blocks : List P2Block}
    (hrun : Run core config P hist c) (h : isRun core ord test hist blocks c = true) :
    Run core config P (blocks.reverse ++ hist) (addAll core ord blocks c) := by
  induction blocks generalizing hist c with
  | nil => exact hrun
  | cons b blocks ih =>
    simp only [isRun, Bool.and_eq_true, bne_iff_ne, List.all_eq_true, decide_eq_true_eq] at h
    obtain ⟨⟨⟨⟨⟨hnonzero, hfresh⟩, hallowed⟩, hpassed⟩, hreturns⟩, hrest⟩ := h
    have hnext := ih (hrun.added hnonzero hfresh hallowed
      (htest hist c b hrun hnonzero hfresh hpassed) (returns_iff.mp hreturns)) hrest
    rwa [List.reverse_cons, List.append_assoc, List.singleton_append]

/-- Adding blocks to the empty chain. -/
theorem Run.of_blocks_of_run (ord : IterOrder) (test : List P2Block → P2Chain → P2Block → Bool)
    {P : List P2Block → P2Chain → IterOrder → P2Block → Prop}
    (htest : ∀ hist c b, Run core config P hist c → b.hash ≠ FixedHash.zero →
      (∀ a ∈ hist, a.hash ≠ b.hash) → test hist c b = true → P hist c ord b) (blocks : List P2Block)
    (h : isRun core ord test [] blocks (newEmpty config) = true) :
    Run core config P blocks.reverse (addAll core ord blocks (newEmpty config)) := by
  have hrun := Run.of_isRun htest Run.empty h
  rwa [List.append_nil] at hrun

theorem Run.of_blocks (ord : IterOrder) (test : List P2Block → P2Chain → P2Block → Bool)
    {P : List P2Block → P2Chain → IterOrder → P2Block → Prop}
    (htest : ∀ hist c b, test hist c b = true → P hist c ord b) (blocks : List P2Block)
    (h : isRun core ord test [] blocks (newEmpty config) = true) :
    Run core config P blocks.reverse (addAll core ord blocks (newEmpty config)) :=
  Run.of_blocks_of_run ord test (fun hist c b _ _ _ => htest hist c b) blocks h

def visitsAll (core : TariCore) (ord : IterOrder) (test : WalkState → Bool) (c : P2Chain)
    (b : P2Block) : Bool :=
  match c.insertBlock b with
  | .error _ => true
  | .ok c₀ =>
    loopAll (verifyChainStep core ord) test (c₀.numHeaders + 2)
      { chain := c₀, nextLevel := [(b.height, b.hash)] }

theorem of_visitsAll {test : WalkState → Bool} {w : WalkState}
    (h : visitsAll core ord test c b = true) (hvisits : Visits core ord b c w) : test w = true := by
  obtain ⟨-, c₀, hinsert, hreach⟩ := hvisits
  rw [visitsAll, hinsert] at h
  exact of_loopAll h hreach

/-- External functions for evaluating small runs. The moving average of fewer than two samples is
absent. -/
def sampleCore : TariCore where
  blocksHash preimage := 1000 * (preimage.height + 1) + preimage.targetDifficulty
  lwmaDifficulty _ samples := if samples.length < 2 then none else some 1
  randomxDifficulty _ := .ok 1
  sha3xDifficulty _ := .ok 1
  outputHash output := output.minimumValuePromise
  outputMerkleRoot hashes := some hashes.sum

def sampleConfig (shareWindow : Nat) : ChainConfig where
  blockTime := 10
  totalSize := shareWindow * 2
  shareWindow := shareWindow
  minimumRandomxTargetDifficulty := 1
  minimumSha3TargetDifficulty := 1
  bypassChecks := serverBypass

def sampleBlock (hash prevHash : FixedHash) (height : Nat) (totalPow : AccumulatedDifficulty) :
    P2Block where
  hash := hash
  prevHash := prevHash
  height := height
  totalPow := totalPow

def sampleBlocks : List P2Block := [sampleBlock 1 0 0 1, sampleBlock 2 1 1 2, sampleBlock 3 2 2 3]

def sampleChain : P2Chain := addAll sampleCore .stored sampleBlocks (newEmpty (sampleConfig 10))

theorem run_sampleChain : Run sampleCore (sampleConfig 10) Unrestricted sampleBlocks.reverse
    sampleChain :=
  Run.of_blocks IterOrder.stored (fun _ _ _ => true) (fun _ _ _ _ => trivial) sampleBlocks (by decide)

/-- Two branches on a first block, of which the second has taken over from the first. A block that
lists the second's block of height 1 as its uncle waits on the first. -/
def branchBlocks : List P2Block :=
  [sampleBlock 1 0 0 1, sampleBlock 2 1 1 2, sampleBlock 3 1 1 2, sampleBlock 4 3 2 3,
    sampleBlock 5 2 2 3, { sampleBlock 7 6 4 6 with uncles := [(1, 3)] }]

def branchChain : P2Chain := addAll sampleCore .stored branchBlocks (newEmpty (sampleConfig 10))

/-- The block with which the first branch takes over again, and that the waiting block follows. -/
def branchBlock : P2Block := sampleBlock 6 5 3 4

theorem run_branchChain : Run sampleCore (sampleConfig 10) Unrestricted branchBlocks.reverse
    branchChain :=
  Run.of_blocks IterOrder.stored (fun _ _ _ => true) (fun _ _ _ _ => trivial) branchBlocks (by decide)

def rejoinedChain : P2Chain :=
  addAll sampleCore .stored (branchBlocks ++ [branchBlock]) (newEmpty (sampleConfig 10))

def sampleShareChain (shareWindow : Nat) : InMemoryShareChain where
  powAlgo := .sha3x
  blockValidationParams := false
  shareWindow := shareWindow
  blockTime := 10
  squad := ""
  minimumRandomxTargetDifficulty := 1
  minimumSha3TargetDifficulty := 1
  bypassChecks := serverBypass

def valueOf {α : Type} : EStateM.Result Fault P2Chain α → Option α
  | .ok a _ => some a
  | .error _ _ => none

theorem eq_ok_of_valueOf {α : Type} {r : EStateM.Result Fault P2Chain α} {a : α}
    (h : valueOf r = some a) : r = .ok a r.state := by
  cases r with
  | ok a' c =>
    simp only [valueOf, Option.some.injEq] at h
    rw [h]
    rfl
  | error fault c => simp [valueOf] at h

theorem exists_ok_of_valueOf {α : Type} {r : EStateM.Result Fault P2Chain α}
    (h : (valueOf r).isSome = true) : ∃ a, r = .ok a r.state := by
  obtain ⟨a, ha⟩ := Option.isSome_iff_exists.mp h
  exact ⟨a, eq_ok_of_valueOf ha⟩

def faultOf {α : Type} : EStateM.Result Fault P2Chain α → Option Fault
  | .error fault _ => some fault
  | .ok _ _ => none

theorem eq_error_of_faultOf {α : Type} {r : EStateM.Result Fault P2Chain α} {fault : Fault}
    (h : faultOf r = some fault) : r = .error fault r.state := by
  cases r with
  | ok a c => simp [faultOf] at h
  | error fault' c =>
    simp only [faultOf, Option.some.injEq] at h
    rw [h]
    rfl

end P2Chain

end ShaP2Pool
