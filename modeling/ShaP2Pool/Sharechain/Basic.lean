import ShaP2Pool.Library.Fault
import ShaP2Pool.Library.Window
import Mathlib.Data.List.Basic

/-!
# Constants, errors and external functions

The values of `sharechain/mod.rs` and `error.rs`, and what the share chain takes from the Tari core
crates. A `u64` height or difficulty and a `u128` accumulated difficulty are natural numbers; the
places where the source's arithmetic can leave the machine type test for it.
-/

namespace ShaP2Pool

/-- A 32 byte hash. -/
abbrev FixedHash := Nat

/-- `FixedHash::zero()` -/
def FixedHash.zero : FixedHash := 0

/-- Seconds since the epoch. -/
abbrev EpochTime := Nat

/-- A `u64` of at least one. -/
abbrev Difficulty := Nat

/-- A `u128` of at least one. -/
abbrev AccumulatedDifficulty := Nat

/-- `AccumulatedDifficulty::min()` -/
def AccumulatedDifficulty.min : AccumulatedDifficulty := 1

/-- `Difficulty::min()` -/
def Difficulty.min : Difficulty := 1

abbrev CompressedKey := Nat

def u64Max : Nat := 2 ^ 64 - 1

def u128Max : Nat := 2 ^ 128 - 1

/-- `u64::saturating_add` -/
def saturatingAdd (a b : Nat) : Nat := Nat.min (a + b) u64Max

/-- `AccumulatedDifficulty::checked_add_difficulty` -/
def checkedAddDifficulty (total : AccumulatedDifficulty) (d : Difficulty) :
    Option AccumulatedDifficulty :=
  if total + d ≤ u128Max then some (total + d) else none

/-- `AccumulatedDifficulty::checked_sub_difficulty` -/
def checkedSubDifficulty (total : AccumulatedDifficulty) (d : Difficulty) :
    Option AccumulatedDifficulty :=
  if d ≤ total then some (total - d) else none

/-! ### Constants -/

def protocolVersion : Nat := 37
def mainRewardShare : Nat := 5
def uncleRewardShare : Nat := 4
def difficultyAdjustmentWindow : Nat := 90
def medianTimestampWindow : Nat := 11
def safetyMargin : Nat := 20
def maxExtraSync : Nat := 2000
def maxMissingParents : Nat := 10
def uncleLimit : Nat := 3
def maxUncleAge : Nat := 3
def maxFutureBlockTime : Nat := 540
def uncleStartHeight : Nat := 10

/-! ### Errors -/

inductive PowAlgorithm
  | randomX
  | sha3x
  deriving DecidableEq, Repr

inductive ValidationError
  | uncleTooOld
  | unclesOnSameHeightOrHigher
  | unclesBeforeStartHeight
  | tooManyUncles
  | invalidPowAlgorithm
  | missingBlockValidationParams
  | difficulty (reason : String)
  | randomXDifficulty (reason : String)
  | difficultyTarget
  | futureTimestamp
  | medianTimestamp
  | outputMismatch
  | invalidOutputs
  | invalidCoinbase
  deriving DecidableEq, Repr

inductive ShareChainError
  | invalidBlock (reason : String)
  | blockValidation (reason : String)
  | difficultyOverflow
  | uncleBlockNotFound
  | blockNotFound
  | blockLevelNotFound
  | validationError (e : ValidationError)
  | uncleInMainChain (height : Nat) (hash : FixedHash)
  | uncleParentNotInMainChain
  deriving DecidableEq, Repr

/-- The ways in which a call can abort instead of returning. -/
inductive Panic
  /-- the "FATAL" panics of the reorg -/
  | corruptedChain
  /-- `u64` or `u128` arithmetic with overflow checks -/
  | overflow
  /-- `unwrap` or `expect` on an absent value -/
  | unwrapNone
  /-- not in the source: the walk of `verifyChain` was cut off by its step bound -/
  | outOfFuel
  deriving DecidableEq, Repr

/-- A call that does not return a value returns an error or panics. -/
inductive Fault
  | error (e : ShareChainError)
  | panic (p : Panic)
  deriving DecidableEq, Repr

/-! ### Blocks of the base chain -/

/-- The fields of a Tari block header that the share chain and its server read. -/
structure BlockHeader where
  nonce : Nat := 0
  powAlgo : PowAlgorithm := .sha3x
  powData : List Nat := []
  outputMr : FixedHash := FixedHash.zero
  height : Nat := 0
  deriving DecidableEq, Repr

inductive Opcode
  | pushPubKey (key : CompressedKey)
  | other (code : Nat)
  deriving DecidableEq, Repr

structure TransactionOutput where
  minimumValuePromise : Nat
  script : List Opcode
  coinbaseExtra : List Nat
  deriving DecidableEq, Repr

structure TariBlock where
  header : BlockHeader
  coinbaseOutputs : List TransactionOutput
  /-- `calculate_header_normal_output_mr` of the body -/
  normalOutputMr : Except String FixedHash

structure TariAddress where
  publicViewKey : CompressedKey
  publicSpendKey : CompressedKey
  deriving DecidableEq, Repr

/-- The fields a block hash commits to, in the order in which they are chained. -/
structure BlockPreimage where
  prevHash : FixedHash
  squad : String
  version : Nat
  timestamp : EpochTime
  height : Nat
  minerWalletAddress : TariAddress
  originalHeader : BlockHeader
  targetDifficulty : Difficulty
  uncles : List (Nat × FixedHash)
  minerCoinbaseExtra : List Nat
  totalPow : AccumulatedDifficulty

/-- The functions of the Tari core crates that the share chain calls. -/
structure TariCore where
  /-- the domain separated hash of a block -/
  blocksHash : BlockPreimage → FixedHash
  /-- `LinearWeightedMovingAverage::get_difficulty` of a target time and the samples -/
  lwmaDifficulty : Nat → List (EpochTime × Difficulty) → Option Difficulty
  randomxDifficulty : BlockHeader → Except String Difficulty
  sha3xDifficulty : BlockHeader → Except String Difficulty
  outputHash : TransactionOutput → FixedHash
  /-- push the hashes into a `PrunedOutputMmr` and take its root -/
  outputMerkleRoot : List FixedHash → Option FixedHash

/-- `LinearWeightedMovingAverage`: a window of one sample more than the adjustment window. -/
abbrev LinearWeightedMovingAverage := Window (EpochTime × Difficulty) (difficultyAdjustmentWindow + 1)

/-- The order in which the hash maps of one call are iterated. The `n`-th block that the call
verifies sees its maps in the order `run n`. -/
structure IterOrder where
  run : Nat → {α : Type} → List α → List α
  perm : ∀ n {α : Type} (l : List α), (run n l).Perm l

def IterOrder.stored : IterOrder := ⟨fun _ _ l => l, fun _ _ l => List.Perm.refl l⟩

@[simp] theorem IterOrder.mem_run (ord : IterOrder) (n : Nat) {α : Type} {l : List α} {x : α} :
    x ∈ ord.run n l ↔ x ∈ l :=
  (ord.perm n l).mem_iff

end ShaP2Pool
