import ShaP2Pool.Sharechain.Basic

/-!
# Blocks

`p2block.rs`: a block, its verification flags and the builder of a template. The hash is a field of
its own, set by the builder, by `fixHash`, or by whoever sent the block.
-/

namespace ShaP2Pool

structure VerifiedStatus where
  parents : Bool := false
  targetDifficulty : Bool := false
  difficulty : Bool := false
  correctShares : Bool := false
  medianTimestamp : Bool := false
  deriving DecidableEq, Repr

namespace VerifiedStatus

def isVerified (v : VerifiedStatus) : Bool :=
  v.parents && v.targetDifficulty && v.difficulty && v.medianTimestamp && v.correctShares

def new : VerifiedStatus := {}

def Le (v w : VerifiedStatus) : Prop :=
  (v.parents → w.parents) ∧ (v.targetDifficulty → w.targetDifficulty) ∧
    (v.difficulty → w.difficulty) ∧ (v.correctShares → w.correctShares) ∧
    (v.medianTimestamp → w.medianTimestamp)

theorem Le.refl (v : VerifiedStatus) : v.Le v := by simp [Le]

theorem Le.trans {u v w : VerifiedStatus} (huv : u.Le v) (hvw : v.Le w) : u.Le w := by
  obtain ⟨h₁, h₂, h₃, h₄, h₅⟩ := huv
  obtain ⟨g₁, g₂, g₃, g₄, g₅⟩ := hvw
  exact ⟨g₁ ∘ h₁, g₂ ∘ h₂, g₃ ∘ h₃, g₄ ∘ h₄, g₅ ∘ h₅⟩

theorem Le.isVerified {v w : VerifiedStatus} (h : v.Le w) (hv : v.isVerified = true) :
    w.isVerified = true := by
  obtain ⟨h₁, h₂, h₃, h₄, h₅⟩ := h
  simp only [VerifiedStatus.isVerified, Bool.and_eq_true] at hv ⊢
  obtain ⟨⟨⟨⟨g₁, g₂⟩, g₃⟩, g₅⟩, g₄⟩ := hv
  exact ⟨⟨⟨⟨h₁ g₁, h₂ g₂⟩, h₃ g₃⟩, h₅ g₅⟩, h₄ g₄⟩

end VerifiedStatus

structure P2Block where
  version : Nat := protocolVersion
  squad : String := "NoSquad"
  hash : FixedHash
  timestamp : EpochTime := 0
  prevHash : FixedHash
  height : Nat
  originalHeader : BlockHeader := {}
  coinbases : List TransactionOutput := []
  otherOutputHash : FixedHash := FixedHash.zero
  minerWalletAddress : TariAddress := ⟨0, 0⟩
  targetDifficulty : Difficulty := Difficulty.min
  /-- height and hash of each uncle that this block confirms -/
  uncles : List (Nat × FixedHash) := []
  minerCoinbaseExtra : List Nat := []
  verified : VerifiedStatus := {}
  totalPow : AccumulatedDifficulty
  deriving DecidableEq, Repr

namespace P2Block

def preimage (b : P2Block) : BlockPreimage where
  prevHash := b.prevHash
  squad := b.squad
  version := b.version
  timestamp := b.timestamp
  height := b.height
  minerWalletAddress := b.minerWalletAddress
  originalHeader := b.originalHeader
  targetDifficulty := b.targetDifficulty
  uncles := b.uncles
  minerCoinbaseExtra := b.minerCoinbaseExtra
  totalPow := b.totalPow

def generateHash (core : TariCore) (b : P2Block) : FixedHash := core.blocksHash b.preimage

def fixHash (core : TariCore) (b : P2Block) : P2Block := { b with hash := b.generateHash core }

/-- The new target is added to the accumulated difficulty before the old one is taken off. -/
def changeTargetDifficulty (core : TariCore) (b : P2Block) (targetDifficulty : Difficulty) :
    Except ShareChainError P2Block :=
  match checkedAddDifficulty b.totalPow targetDifficulty with
  | none => .error .difficultyOverflow
  | some added =>
    match checkedSubDifficulty added b.targetDifficulty with
    | none => .error .difficultyOverflow
    | some total =>
      .ok (fixHash core { b with totalPow := total, targetDifficulty := targetDifficulty })

def populateTariData (b : P2Block) (block : TariBlock) : Except ShareChainError P2Block :=
  match block.normalOutputMr with
  | .error reason => .error (.invalidBlock reason)
  | .ok otherOutputHash =>
    .ok { b with
      coinbases := block.coinbaseOutputs
      otherOutputHash := otherOutputHash
      originalHeader := block.header }

/-- The content of a block that no verification step changes. -/
def withoutStatus (b : P2Block) : P2Block := { b with verified := VerifiedStatus.new }

end P2Block

/-- `P2BlockBuilder` with the flags it starts with outside of tests: the hash is not a specific one
and no target difficulty has been added. -/
structure P2BlockBuilder where
  block : P2Block

namespace P2BlockBuilder

def new (prevBlockHashAndPow : Option (FixedHash × AccumulatedDifficulty)) : P2BlockBuilder :=
  match prevBlockHashAndPow with
  | some (prevHash, totalPow) =>
    ⟨{ hash := FixedHash.zero, prevHash := prevHash, height := 0, totalPow := totalPow }⟩
  | none =>
    ⟨{ hash := FixedHash.zero, prevHash := FixedHash.zero, height := 0,
       totalPow := AccumulatedDifficulty.min }⟩

def withSquad (builder : P2BlockBuilder) (squad : String) : P2BlockBuilder :=
  ⟨{ builder.block with squad := squad }⟩

def withTimestamp (builder : P2BlockBuilder) (timestamp : EpochTime) : P2BlockBuilder :=
  ⟨{ builder.block with timestamp := timestamp }⟩

def withHeight (builder : P2BlockBuilder) (height : Nat) : P2BlockBuilder :=
  ⟨{ builder.block with height := height }⟩

def withMinerWalletAddress (builder : P2BlockBuilder) (address : TariAddress) : P2BlockBuilder :=
  ⟨{ builder.block with minerWalletAddress := address }⟩

def withMinerCoinbaseExtra (builder : P2BlockBuilder) (extra : List Nat) : P2BlockBuilder :=
  ⟨{ builder.block with minerCoinbaseExtra := extra }⟩

/-- Add the target difficulties of the uncles to an accumulated difficulty. -/
def addUncles (totalPow : AccumulatedDifficulty) :
    List P2Block → Except ShareChainError AccumulatedDifficulty
  | [] => .ok totalPow
  | uncle :: rest =>
    match checkedAddDifficulty totalPow uncle.targetDifficulty with
    | none => .error .difficultyOverflow
    | some added => addUncles added rest

def withUncles (builder : P2BlockBuilder) (uncles : List P2Block) :
    Except ShareChainError P2BlockBuilder :=
  match addUncles builder.block.totalPow uncles with
  | .error e => .error e
  | .ok totalPow =>
    .ok ⟨{ builder.block with
      uncles := uncles.map (fun uncle => (uncle.height, uncle.hash)), totalPow := totalPow }⟩

def build (core : TariCore) (builder : P2BlockBuilder) : Except ShareChainError P2Block :=
  if builder.block.prevHash = FixedHash.zero then
    .ok (P2Block.fixHash core { builder.block with totalPow := builder.block.targetDifficulty })
  else
    match checkedAddDifficulty builder.block.totalPow builder.block.targetDifficulty with
    | none => .error .difficultyOverflow
    | some totalPow => .ok (P2Block.fixHash core { builder.block with totalPow := totalPow })

end P2BlockBuilder

end ShaP2Pool
