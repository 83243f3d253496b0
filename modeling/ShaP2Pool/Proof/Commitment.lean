import ShaP2Pool.Proof.Content
import Mathlib.Logic.Equiv.List

/-!
# The output root

A header should carry the Merkle root of the block's coinbases followed by the hash of its other
outputs. The validation compares the two the wrong way round: it refuses the blocks that carry the
root and stores those that do not.
-/

namespace ShaP2Pool

/-- The header of `b` carries the root of the outputs of `b`. -/
def P2Block.Commits (core : TariCore) (b : P2Block) : Prop :=
  core.outputMerkleRoot (b.coinbases.map core.outputHash ++ [b.otherOutputHash]) =
    some b.originalHeader.outputMr

instance (core : TariCore) (b : P2Block) : Decidable (b.Commits core) :=
  inferInstanceAs (Decidable (_ = _))

namespace P2Chain

variable {core : TariCore} {s : InMemoryShareChain} {ord : IterOrder} {ords : Nat → IterOrder}
  {now : EpochTime} {c c' : P2Chain} {b b' x : P2Block}

/-- `x` is stored in `c'`, and no block of its content was stored in `c`. -/
def NewlyStored (c c' : P2Chain) (x : P2Block) : Prop :=
  x ∈ c'.blockCache.values ∧ ∀ y ∈ c.blockCache.values, y.withoutStatus ≠ x.withoutStatus

instance (c c' : P2Chain) (x : P2Block) : Decidable (NewlyStored c c' x) :=
  inferInstanceAs (Decidable (_ ∧ _))

/-- The validation gets as far as the output root. -/
def ReachesRootCheck (now : EpochTime) (b : P2Block) : Prop :=
  InMemoryShareChain.validateUncles b = .ok () ∧ b.timestamp ≤ InMemoryShareChain.maxTimestamp now

/-- A submitted block is validated: it is neither known as verified nor, unless it comes from a
sync, too old. -/
def GetsValidated (s : InMemoryShareChain) (c : P2Chain) (b : P2Block) (syncing : Bool) : Prop :=
  b.version = protocolVersion ∧ b.squad = s.squad ∧
    (∃ already, InMemoryShareChain.blockAlreadyAdded c b = .ok already ∧
      already.any (·.verified.isVerified) = false) ∧
    (s.olderThanShareWindow c b && !syncing) = false

theorem validateUncleAges_ne_outputMismatch (height : Nat) (uncles : List (Nat × FixedHash)) :
    InMemoryShareChain.validateUncleAges height uncles ≠ .error .outputMismatch := by
  induction uncles with
  | nil => simp [InMemoryShareChain.validateUncleAges]
  | cons uncle rest ih =>
    rw [InMemoryShareChain.validateUncleAges]
    split_ifs
    · simp
    · simp
    · exact ih

theorem validateUncles_ne_outputMismatch (b : P2Block) :
    InMemoryShareChain.validateUncles b ≠ .error .outputMismatch := by
  rw [InMemoryShareChain.validateUncles]
  split_ifs
  · simp
  · simp
  · exact validateUncleAges_ne_outputMismatch _ _

theorem validateBlock_mismatch_iff :
    s.validateBlock core now c b = .error .outputMismatch ↔
      ReachesRootCheck now b ∧ b.Commits core := by
  rw [InMemoryShareChain.validateBlock, ReachesRootCheck, P2Block.Commits]
  cases huncles : InMemoryShareChain.validateUncles b with
  | error e =>
    have hne : e ≠ .outputMismatch := by
      rintro rfl
      exact validateUncles_ne_outputMismatch b huncles
    simp [hne]
  | ok _ =>
    simp only
    by_cases htime : InMemoryShareChain.maxTimestamp now < b.timestamp
    · simp [htime]
    · cases core.outputMerkleRoot (b.coinbases.map core.outputHash ++ [b.otherOutputHash]) with
      | none => simp [htime]
      | some root =>
        by_cases hroot : b.originalHeader.outputMr = root
        · simp [htime, hroot, Nat.le_of_not_lt htime]
        · have hne : root ≠ b.originalHeader.outputMr := fun h => hroot h.symm
          simp only [htime, hroot, if_false, Option.some.injEq, hne, and_false, iff_false]
          cases c.getTargetDifficultyForBlock core b with
          | none => simp
          | some difficulty =>
            simp only
            split_ifs <;> simp

theorem not_commits_of_validateBlock (h : s.validateBlock core now c b = .ok b') :
    ¬b.Commits core := by
  intro hcommits
  rw [InMemoryShareChain.validateBlock, hcommits] at h
  split at h
  · cases h
  · split_ifs at h
    simp at h

theorem submitBlockWithLock_of_commits {syncing : Bool} (hvalidated : GetsValidated s c b syncing)
    (hreaches : ReachesRootCheck now b) (hcommits : b.Commits core) :
    s.submitBlockWithLock core ord now b syncing c =
      .error (.error (.validationError .outputMismatch)) c := by
  obtain ⟨-, -, ⟨already, halready, hverified⟩, hyoung⟩ := hvalidated
  have hrefused : s.validateBlock core now c b = .error .outputMismatch :=
    validateBlock_mismatch_iff.mpr ⟨hreaches, hcommits⟩
  rw [InMemoryShareChain.submitBlockWithLock]
  simp only [EStateM.bind_apply, EStateM.get_apply, halready, EStateM.ofExcept_ok, hverified,
    hyoung, Bool.false_eq_true, if_false, hrefused, EStateM.throw_apply]

private theorem not_commits_of_allStored
    (hall : c'.AllStored fun x => (∃ y ∈ c.blockCache.values, y.withoutStatus = x) ∨ ¬x.Commits core)
    (hx : NewlyStored c c' x) : ¬x.Commits core := by
  obtain ⟨y, hy, heq⟩ | hnot := hall x hx.1
  · exact absurd heq (hx.2 y hy)
  · exact hnot

private theorem allStored_self :
    c.AllStored fun x => (∃ y ∈ c.blockCache.values, y.withoutStatus = x) ∨ ¬x.Commits core :=
  fun b hb => Or.inl ⟨b, hb, rfl⟩

/-- Whatever the chain, no block that a submission or a sync stores carries the root of its outputs,
and a block that carries it is refused for that wherever it gets validated. -/
theorem newlyStored_not_commits (core : TariCore) (s : InMemoryShareChain) (now : EpochTime)
    (c : P2Chain) :
    (∀ ord b x, NewlyStored c (s.submitBlock core ord now b c).state x → ¬x.Commits core) ∧
      (∀ ords blocks x, NewlyStored c (s.addSyncedBlocks core ords now blocks c).state x →
        ¬x.Commits core) ∧
      (∀ b, ReachesRootCheck now b →
        (s.validateBlock core now c b = .error .outputMismatch ↔ b.Commits core)) ∧
      (∀ ord b, GetsValidated s c b false → ReachesRootCheck now b → b.Commits core →
        s.submitBlock core ord now b c = .error (.error (.validationError .outputMismatch)) c) ∧
      ∀ ords known i b rest result, GetsValidated s c b true → ReachesRootCheck now b →
        b.Commits core → s.addSyncedLoop core ords now known i (b :: rest) result c =
          .error (.error (.validationError .outputMismatch)) c := by
  refine ⟨fun ord b x hx => ?_, fun ords blocks x hx => ?_, fun b hreaches => ?_,
    fun ord b hvalidated hreaches hcommits => ?_,
    fun ords known i b rest result hvalidated hreaches hcommits => ?_⟩
  · exact not_commits_of_allStored
      (allStored_self.submitBlock fun b' h =>
        Or.inr (show ¬b.Commits core from not_commits_of_validateBlock h)) hx
  · exact not_commits_of_allStored
      (allStored_self.addSyncedBlocks fun b _ c b' h =>
        Or.inr (show ¬b.Commits core from not_commits_of_validateBlock h)) hx
  · rw [validateBlock_mismatch_iff, and_iff_right hreaches]
  · rw [InMemoryShareChain.submitBlock, if_neg (not_not.mpr hvalidated.1),
      if_neg (not_not.mpr hvalidated.2.1)]
    exact submitBlockWithLock_of_commits hvalidated hreaches hcommits
  · rw [InMemoryShareChain.addSyncedLoop, if_neg (not_not.mpr hvalidated.1),
      if_neg (not_not.mpr hvalidated.2.1)]
    exact EStateM.bind_apply_of_error (submitBlockWithLock_of_commits hvalidated hreaches hcommits)

/-- The external functions of small runs, with a root that no two lists of outputs share. -/
def rootCore : TariCore :=
  { sampleCore with outputMerkleRoot := fun hashes => some (Encodable.encode hashes) }

def rootBlock (outputMr : FixedHash) : P2Block :=
  { sampleBlock 1 0 0 1 with squad := "", originalHeader := { outputMr := outputMr } }

/-- The two halves on a fresh chain: a header with an arbitrary root is stored, and the one with the
right root is refused. -/
theorem forged_root_stored :
    Function.Injective rootCore.outputMerkleRoot ∧
      (∃ result c' x, (sampleShareChain 10).submitBlock rootCore IterOrder.stored 0 (rootBlock 7)
          (newEmpty (sampleShareChain 10).chainConfig) = .ok result c' ∧
        NewlyStored (newEmpty (sampleShareChain 10).chainConfig) c' x ∧ ¬x.Commits rootCore) ∧
      (rootBlock 1).Commits rootCore ∧
      (sampleShareChain 10).submitBlock rootCore IterOrder.stored 0 (rootBlock 1)
          (newEmpty (sampleShareChain 10).chainConfig) =
        .error (.error (.validationError .outputMismatch))
          (newEmpty (sampleShareChain 10).chainConfig) := by
  refine ⟨fun l l' h => Encodable.encode_injective (Option.some.inj h), ?_, by decide, by rfl⟩
  obtain ⟨result, hok⟩ := exists_ok_of_valueOf (r := (sampleShareChain 10).submitBlock rootCore
    IterOrder.stored 0 (rootBlock 7) (newEmpty (sampleShareChain 10).chainConfig)) (by decide)
  refine ⟨result, _, { rootBlock 7 with verified := ⟨true, true, true, true, true⟩ }, hok, ?_, ?_⟩
  · decide
  · decide

/-- A stored block and a refused one. -/
theorem stores_rootBlock :
    ¬({ rootBlock 7 with verified := ⟨true, true, true, true, true⟩ } : P2Block).Commits rootCore ∧
      (sampleShareChain 10).submitBlock rootCore IterOrder.stored 0 (rootBlock 1)
          (newEmpty (sampleShareChain 10).chainConfig) =
        .error (.error (.validationError .outputMismatch))
          (newEmpty (sampleShareChain 10).chainConfig) := by
  have h := newlyStored_not_commits rootCore (sampleShareChain 10) 0
    (newEmpty (sampleShareChain 10).chainConfig)
  exact ⟨h.1 IterOrder.stored (rootBlock 7) _ (by decide),
    h.2.2.2.1 IterOrder.stored (rootBlock 1) ⟨rfl, rfl, ⟨none, rfl, rfl⟩, rfl⟩ ⟨rfl, by decide⟩
      (by decide)⟩

end P2Chain

end ShaP2Pool
