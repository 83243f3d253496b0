import ShaP2Pool.Library.KeyedMap
import ShaP2Pool.Sharechain.P2Block

/-!
# Levels

`p2chain_level.rs`: the headers of all blocks of one height, and which of them is on the main chain.
The source's level also holds a handle of the block cache that all levels share; here the cache is a
field of the chain.
-/

namespace ShaP2Pool

structure P2BlockHeader where
  height : Nat
  hash : FixedHash
  prevHash : FixedHash
  timestamp : EpochTime
  targetDifficulty : Difficulty
  totalPow : AccumulatedDifficulty
  verified : VerifiedStatus
  uncles : List (Nat × FixedHash)
  walletAddress : TariAddress
  coinbaseExtra : List Nat
  deriving DecidableEq, Repr

/-- The header under which a level keeps a block. -/
def P2Block.header (b : P2Block) : P2BlockHeader where
  height := b.height
  hash := b.hash
  prevHash := b.prevHash
  timestamp := b.timestamp
  targetDifficulty := b.targetDifficulty
  totalPow := b.totalPow
  verified := b.verified
  uncles := b.uncles
  walletAddress := b.minerWalletAddress
  coinbaseExtra := b.minerCoinbaseExtra

namespace P2Block

variable (b : P2Block)

@[simp] theorem header_height : b.header.height = b.height := rfl
@[simp] theorem header_hash : b.header.hash = b.hash := rfl
@[simp] theorem header_prevHash : b.header.prevHash = b.prevHash := rfl
@[simp] theorem header_timestamp : b.header.timestamp = b.timestamp := rfl
@[simp] theorem header_targetDifficulty : b.header.targetDifficulty = b.targetDifficulty := rfl
@[simp] theorem header_totalPow : b.header.totalPow = b.totalPow := rfl
@[simp] theorem header_verified : b.header.verified = b.verified := rfl
@[simp] theorem header_uncles : b.header.uncles = b.uncles := rfl
@[simp] theorem header_walletAddress : b.header.walletAddress = b.minerWalletAddress := rfl
@[simp] theorem header_coinbaseExtra : b.header.coinbaseExtra = b.minerCoinbaseExtra := rfl

end P2Block

/-- A collection of blocks with the same height. -/
structure P2ChainLevel where
  height : Nat
  chainBlock : FixedHash
  blockHeaders : KeyedMap P2BlockHeader.hash
  sameHeight : ∀ header ∈ blockHeaders.values, header.height = height

namespace P2ChainLevel

/-- The only block of a new level need not be part of the main chain, so the link is set later. -/
def new (block : P2Block) : P2ChainLevel where
  height := block.height
  chainBlock := FixedHash.zero
  blockHeaders := KeyedMap.empty.insert block.header
  sameHeight header hmem := by
    rw [KeyedMap.mem_values_insert] at hmem
    rcases hmem with rfl | ⟨hmem, -⟩
    · rfl
    · simp at hmem

def addBlock (level : P2ChainLevel) (block : P2Block) : Except ShareChainError P2ChainLevel :=
  if h : level.height = block.height then
    .ok { level with
      blockHeaders := level.blockHeaders.insert block.header
      sameHeight := fun header hmem => by
        rw [KeyedMap.mem_values_insert] at hmem
        rcases hmem with rfl | ⟨hmem, -⟩
        · exact h.symm
        · exact level.sameHeight header hmem }
  else
    .error (.invalidBlock "Block height does not match the chain level height")

def setChainBlock (level : P2ChainLevel) (hash : FixedHash) : P2ChainLevel :=
  { level with chainBlock := hash }

def getHeader (level : P2ChainLevel) (hash : FixedHash) : Option P2BlockHeader :=
  level.blockHeaders.find? hash

def contains (level : P2ChainLevel) (hash : FixedHash) : Bool := level.blockHeaders.contains hash

def getPrevHash (level : P2ChainLevel) (hash : FixedHash) : Option FixedHash :=
  (level.getHeader hash).map (·.prevHash)

def getUncles (level : P2ChainLevel) (hash : FixedHash) : List (Nat × FixedHash) :=
  ((level.getHeader hash).map (·.uncles)).getD []

def isVerified (level : P2ChainLevel) (hash : FixedHash) : Bool :=
  ((level.getHeader hash).map (·.verified.isVerified)).getD false

def blockHeaderInMainChain (level : P2ChainLevel) : Option P2BlockHeader :=
  level.getHeader level.chainBlock

/-- One entry for each uncle reference to `hash` and one more for a child of it, in the order in
which the headers are iterated. -/
def allChildrenAndNephewsOf (level : P2ChainLevel) (ord : IterOrder) (n : Nat) (hash : FixedHash) :
    List (Nat × FixedHash) :=
  (ord.run n level.blockHeaders.values).flatMap fun block =>
    (block.uncles.filter (fun uncle => uncle.2 = hash)).map (fun _ => (block.height, block.hash)) ++
      if block.prevHash = hash then [(block.height, block.hash)] else []

theorem height_of_getHeader {level : P2ChainLevel} {hash : FixedHash} {header : P2BlockHeader}
    (h : level.getHeader hash = some header) : header.height = level.height :=
  level.sameHeight header (KeyedMap.mem_values_of_find? h)

theorem hash_of_getHeader {level : P2ChainLevel} {hash : FixedHash} {header : P2BlockHeader}
    (h : level.getHeader hash = some header) : header.hash = hash :=
  KeyedMap.key_of_find? h

theorem mem_allChildrenAndNephewsOf {level : P2ChainLevel} {ord : IterOrder} {n : Nat}
    {hash : FixedHash} {item : Nat × FixedHash} :
    item ∈ level.allChildrenAndNephewsOf ord n hash ↔
      ∃ block ∈ level.blockHeaders.values, item = (block.height, block.hash) ∧
        (block.prevHash = hash ∨ ∃ uncle ∈ block.uncles, uncle.2 = hash) := by
  simp only [allChildrenAndNephewsOf, List.mem_flatMap, IterOrder.mem_run, List.mem_append,
    List.mem_map, List.mem_filter, decide_eq_true_eq, List.mem_ite_nil_right, List.mem_singleton]
  constructor
  · rintro ⟨block, hblock, ⟨uncle, ⟨huncle, heq⟩, rfl⟩ | ⟨hprev, rfl⟩⟩
    · exact ⟨block, hblock, rfl, Or.inr ⟨uncle, huncle, heq⟩⟩
    · exact ⟨block, hblock, rfl, Or.inl hprev⟩
  · rintro ⟨block, hblock, rfl, hprev | ⟨uncle, huncle, heq⟩⟩
    · exact ⟨block, hblock, Or.inr ⟨hprev, rfl⟩⟩
    · exact ⟨block, hblock, Or.inl ⟨uncle, ⟨huncle, heq⟩, rfl⟩⟩

end P2ChainLevel

end ShaP2Pool
