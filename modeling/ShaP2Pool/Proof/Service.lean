import ShaP2Pool.Proof.Content
import ShaP2Pool.Server.P2PoolGrpc
import Mathlib.Logic.Equiv.List

/-!
# Runs of the service

Blocks come to a share chain from miners and peers, whose calls hand them over as they are, and
through the templates of the gRPC service. A block is found again by its hash field, which is right
where the builder or `fixHash` set it last; nothing checks the field of a block that is handed over,
and nothing sets it again when a mined header replaces the header of a template.
-/

namespace ShaP2Pool

open P2Chain

inductive ServiceCall
  | submitBlock (ord : IterOrder) (now : EpochTime) (block : P2Block)
  | addSyncedBlocks (ords : Nat → IterOrder) (now : EpochTime) (blocks : List P2Block)
  | getNewBlock (ord : IterOrder) (now : EpochTime) (minerAddress : TariAddress)
    (coinbaseExtra : List Nat) (synced : Bool)
    (baseNode : List NewBlockCoinbase → Except String NewBlockTemplate)
  | submitMined (ord : IterOrder) (now : EpochTime) (synced : Bool) (header : BlockHeader)
    (baseNode : BlockHeader → Except String Unit)

variable {core : TariCore} {headerHash : BlockHeader → FixedHash} {s : InMemoryShareChain}
  {P : ShaP2PoolGrpc → ServiceCall → Prop} {g g' : ShaP2PoolGrpc}

def ServiceCall.run (core : TariCore) (headerHash : BlockHeader → FixedHash)
    (s : InMemoryShareChain) (g : ShaP2PoolGrpc) : ServiceCall → ShaP2PoolGrpc
  | .submitBlock ord now block =>
    { g with shareChain := (s.submitBlock core ord now block g.shareChain).state }
  | .addSyncedBlocks ords now blocks =>
    { g with shareChain := (s.addSyncedBlocks core ords now blocks g.shareChain).state }
  | .getNewBlock ord now minerAddress coinbaseExtra synced baseNode =>
    (ShaP2PoolGrpc.getNewBlock core headerHash s ord now minerAddress coinbaseExtra synced baseNode
      g).state
  | .submitMined ord now synced header baseNode =>
    (ShaP2PoolGrpc.submitBlock core headerHash s ord now synced header baseNode g).state

/-- The states reached from the fresh service by calls with `P`. -/
inductive ServiceRun (core : TariCore) (headerHash : BlockHeader → FixedHash)
    (s : InMemoryShareChain) (P : ShaP2PoolGrpc → ServiceCall → Prop) : ShaP2PoolGrpc → Prop
  | new : ServiceRun core headerHash s P (.new s)
  | called {g : ShaP2PoolGrpc} (hrun : ServiceRun core headerHash s P g) (call : ServiceCall)
    (hcall : P g call) : ServiceRun core headerHash s P (call.run core headerHash s g)

/-- What every allowed call keeps is known wherever a run gets. -/
theorem ServiceRun.inv {I : ShaP2PoolGrpc → Prop} (hrun : ServiceRun core headerHash s P g)
    (hnew : I (.new s)) (hcall : ∀ g call, I g → P g call → I (call.run core headerHash s g)) :
    I g := by
  induction hrun with
  | new => exact hnew
  | called _ call hP ih => exact hcall _ call ih hP

def P2Block.HashFits (core : TariCore) (b : P2Block) : Prop := b.hash = b.generateHash core

instance (core : TariCore) (b : P2Block) : Decidable (b.HashFits core) :=
  inferInstanceAs (Decidable (_ = _))

/-- The stored blocks and the blocks of the templates have fitting hashes. -/
structure HashesFit (core : TariCore) (g : ShaP2PoolGrpc) : Prop where
  stored : g.shareChain.AllStored (P2Block.HashFits core)
  templates : ∀ template ∈ g.templateStore.values, template.block.HashFits core

/-- A block that is handed over has a fitting hash, and a mined header is the very header its
template was stored with. -/
def KeepsHash (core : TariCore) (headerHash : BlockHeader → FixedHash) (g : ShaP2PoolGrpc) :
    ServiceCall → Prop
  | .submitBlock _ _ block => block.HashFits core
  | .addSyncedBlocks _ _ blocks => ∀ block ∈ blocks, block.HashFits core
  | .getNewBlock .. => True
  | .submitMined _ _ _ header _ => ∀ template,
    g.templateStore.find? (headerHash { header with nonce := 0, powData := [] }) = some template →
      header = template.block.originalHeader

theorem hashFits_of_changeTargetDifficulty {b b' : P2Block} {target : Difficulty}
    (h : b.changeTargetDifficulty core target = .ok b') : b'.HashFits core := by
  rw [P2Block.changeTargetDifficulty] at h
  split at h
  · cases h
  · split at h
    · cases h
    · cases h
      rfl

/-! ### The invariant -/

theorem HashesFit.new (s : InMemoryShareChain) : HashesFit core (.new s) :=
  ⟨AllStored.newEmpty _, fun _ h => by cases h⟩

theorem HashesFit.withShareChain {c : P2Chain} (hfit : HashesFit core g)
    (hc : c.AllStored (P2Block.HashFits core)) : HashesFit core { g with shareChain := c } :=
  ⟨hc, hfit.templates⟩

theorem HashesFit.onShareChain {α : Type} {message : String} {x : ChainM α}
    (hfit : HashesFit core g)
    (hx : (x g.shareChain).state.AllStored (P2Block.HashFits core)) :
    HashesFit core (ShaP2PoolGrpc.onShareChain message x g).state := by
  rw [ShaP2PoolGrpc.onShareChain]
  split
  · rename_i a c heq
    rw [heq] at hx
    exact hfit.withShareChain hx
  · rename_i e c heq
    rw [heq] at hx
    exact hfit.withShareChain hx
  · rename_i p c heq
    rw [heq] at hx
    exact hfit.withShareChain hx

theorem HashesFit.orStatus {α : Type} {message : String} (hfit : HashesFit core g)
    (x : Except ShareChainError α) : HashesFit core (ShaP2PoolGrpc.orStatus message x g).state := by
  cases x <;> exact hfit

theorem ok_of_orStatus {α : Type} {message : String} {x : Except ShareChainError α} {a : α}
    (h : ShaP2PoolGrpc.orStatus message x g = .ok a g') : x = .ok a := by
  cases x with
  | ok a' =>
    cases h
    rfl
  | error e => cases h

theorem HashesFit.storeTemplate (hfit : HashesFit core g) (template : Template)
    (htemplate : template.block.HashFits core) :
    HashesFit core { g with templateStore := g.templateStore.insert template } := by
  refine ⟨hfit.stored, fun x hx => ?_⟩
  obtain rfl | ⟨hx, -⟩ := KeyedMap.mem_values_insert.mp hx
  · exact htemplate
  · exact hfit.templates x hx

theorem HashesFit.getNewBlock {ord : IterOrder} {now : EpochTime} {minerAddress : TariAddress}
    {coinbaseExtra : List Nat} {synced : Bool}
    {baseNode : List NewBlockCoinbase → Except String NewBlockTemplate} (hfit : HashesFit core g) :
    HashesFit core (ShaP2PoolGrpc.getNewBlock core headerHash s ord now minerAddress coinbaseExtra
      synced baseNode g).state := by
  refine EStateM.inv_bind (hfit.onShareChain ?_) fun newTipBlock g₁ _ hfit₁ => ?_
  · rw [EStateM.bind_apply, EStateM.get_apply]
    simp only [EStateM.ofExcept_state]
    exact hfit.stored
  refine EStateM.inv_bind (hfit₁.onShareChain hfit₁.stored.generateShares)
    fun answer g₂ _ hfit₂ => ?_
  obtain ⟨shares, targetDifficulty⟩ := answer
  simp only
  cases baseNode shares with
  | error message => exact hfit₂
  | ok response =>
    simp only
    refine EStateM.inv_bind (hfit₂.orStatus _) fun newTipBlock g₃ _ hfit₃ => ?_
    by_cases htarget : response.targetDifficulty < 1
    · rw [if_pos htarget]
      exact hfit₃
    · rw [if_neg htarget]
      have hcached : HashesFit core { g₃ with
          blockHeightDifficultyCache := g₃.blockHeightDifficultyCache.insert
            (response.block.header.height, response.targetDifficulty) } :=
        ⟨hfit₃.stored, hfit₃.templates⟩
      refine EStateM.inv_bind hcached fun _ g₄ _ hfit₄ => ?_
      refine EStateM.inv_bind (hfit₄.orStatus _) fun newTipBlock g₅ hchange hfit₅ => ?_
      have hblock := hashFits_of_changeTargetDifficulty (ok_of_orStatus hchange)
      have hlisted (tariHash : FixedHash) : HashesFit core { g₅ with
          listOfTemplates := ShaP2PoolGrpc.pushTemplate g₅.listOfTemplates tariHash } :=
        ⟨hfit₅.stored, hfit₅.templates⟩
      refine EStateM.inv_bind (hlisted _) fun _ g₆ _ hfit₆ => ?_
      exact hfit₆.storeTemplate { tariHash := _, block := newTipBlock } hblock

theorem HashesFit.submitShareChainBlock {ord : IterOrder} {now : EpochTime} {synced : Bool}
    {block : P2Block} (hfit : HashesFit core g) (hblock : block.HashFits core) :
    HashesFit core (ShaP2PoolGrpc.submitShareChainBlock core s ord now synced block g).state := by
  have hsubmitted : (s.submitBlock core ord now block g.shareChain).state.AllStored
      (P2Block.HashFits core) := hfit.stored.submitBlock fun _ _ => hblock
  rw [ShaP2PoolGrpc.submitShareChainBlock]
  split_ifs
  · exact hfit
  · split
    all_goals
      rename_i heq
      rw [heq] at hsubmitted
      exact hfit.withShareChain hsubmitted

theorem HashesFit.submitMined {ord : IterOrder} {now : EpochTime} {synced : Bool}
    {header : BlockHeader} {baseNode : BlockHeader → Except String Unit} (hfit : HashesFit core g)
    (hheader : ∀ template,
      g.templateStore.find? (headerHash { header with nonce := 0, powData := [] }) = some template →
        header = template.block.originalHeader) :
    HashesFit core
      (ShaP2PoolGrpc.submitBlock core headerHash s ord now synced header baseNode g).state := by
  rw [ShaP2PoolGrpc.submitBlock]
  simp only [EStateM.bind_apply, EStateM.get_apply]
  cases htemplate : g.templateStore.find? (headerHash { header with nonce := 0, powData := [] }) with
  | none => exact hfit
  | some template =>
    have hblock : ({ template.block with originalHeader := header } : P2Block).HashFits core := by
      rw [hheader template htemplate]
      exact hfit.templates template (KeyedMap.mem_values_of_find? htemplate)
    simp only
    cases achievedDifficulty core true header with
    | error e => exact hfit
    | ok difficulty =>
      have hsubmitted : HashesFit core (ShaP2PoolGrpc.submitShareChainBlock core s ord now synced
          { template.block with originalHeader := header } g).state :=
        hfit.submitShareChainBlock hblock
      simp only
      split_ifs
      · cases baseNode header with
        | error message => exact hfit
        | ok _ => exact EStateM.inv_bind hsubmitted fun _ _ _ hfit' => hfit'
      · exact EStateM.inv_bind hsubmitted fun _ _ _ hfit' => hfit'

theorem HashesFit.run (call : ServiceCall) (hfit : HashesFit core g)
    (hcall : KeepsHash core headerHash g call) :
    HashesFit core (call.run core headerHash s g) := by
  cases call with
  | submitBlock ord now block => exact hfit.withShareChain (hfit.stored.submitBlock fun _ _ => hcall)
  | addSyncedBlocks ords now blocks =>
    exact hfit.withShareChain (hfit.stored.addSyncedBlocks fun block hmem _ _ _ => hcall block hmem)
  | getNewBlock ord now minerAddress coinbaseExtra synced baseNode => exact hfit.getNewBlock
  | submitMined ord now synced header baseNode => exact hfit.submitMined hcall

/-- In a run whose calls keep the hashes, every stored block is stored under the hash of its
content. With an injective hash function no two blocks stored under one hash, in this state or in
any other of such a run, differ in what the hash chains. -/
theorem stored_under_own_hash (hrun : ServiceRun core headerHash s (KeepsHash core headerHash) g) :
    (∀ hash b, g.shareChain.blockCache.find? hash = some b →
      b.hash = hash ∧ b.hash = b.generateHash core) ∧
      (Function.Injective core.blocksHash →
        ∀ g', ServiceRun core headerHash s (KeepsHash core headerHash) g' → ∀ hash b b',
          g.shareChain.blockCache.find? hash = some b →
          g'.shareChain.blockCache.find? hash = some b' → b.preimage = b'.preimage) := by
  have hfits {g : ShaP2PoolGrpc} (hrun : ServiceRun core headerHash s (KeepsHash core headerHash) g) :
      HashesFit core g := hrun.inv (HashesFit.new s) fun _ call => HashesFit.run call
  have hstored {g : ShaP2PoolGrpc} (hrun : ServiceRun core headerHash s (KeepsHash core headerHash) g)
      {hash : FixedHash} {b : P2Block} (hb : g.shareChain.blockCache.find? hash = some b) :
      b.hash = hash ∧ b.hash = b.generateHash core :=
    ⟨KeyedMap.key_of_find? hb, (hfits hrun).stored.of_find? hb⟩
  refine ⟨fun hash b hb => hstored hrun hb, fun hinj g' hrun' hash b b' hb hb' => hinj ?_⟩
  obtain ⟨hkey, hown⟩ := hstored hrun hb
  obtain ⟨hkey', hown'⟩ := hstored hrun' hb'
  show b.generateHash core = b'.generateHash core
  rw [← hown, ← hown', hkey, hkey']

/-! ### Two ways to a hash that does not fit -/

def PowAlgorithm.code : PowAlgorithm → Nat
  | .randomX => 0
  | .sha3x => 1

def BlockHeader.code (header : BlockHeader) : Nat :=
  Encodable.encode
    (header.nonce, header.powAlgo.code, header.powData, header.outputMr, header.height)

def BlockPreimage.code (preimage : BlockPreimage) : Nat :=
  Encodable.encode
    ((preimage.prevHash, preimage.squad.toList.map Char.toNat, preimage.version, preimage.timestamp),
      (preimage.height, preimage.minerWalletAddress.publicViewKey,
        preimage.minerWalletAddress.publicSpendKey, preimage.originalHeader.code),
      (preimage.targetDifficulty, preimage.uncles, preimage.minerCoinbaseExtra, preimage.totalPow))

theorem PowAlgorithm.code_injective : Function.Injective PowAlgorithm.code := by
  intro a b h
  cases a <;> cases b <;> simp [PowAlgorithm.code] at h ⊢

theorem BlockHeader.code_injective : Function.Injective BlockHeader.code := by
  intro a b h
  have htuple := Encodable.encode_injective h
  simp only [Prod.mk.injEq] at htuple
  obtain ⟨hnonce, halgo, hdata, hroot, hheight⟩ := htuple
  cases a
  cases b
  simp_all only [BlockHeader.mk.injEq, and_true, true_and]
  exact PowAlgorithm.code_injective halgo

theorem BlockPreimage.code_injective : Function.Injective BlockPreimage.code := by
  intro a b h
  have htuple := Encodable.encode_injective h
  simp only [Prod.mk.injEq] at htuple
  obtain ⟨⟨hprev, hsquad, hversion, htime⟩, ⟨hheight, hview, hspend, hheader⟩, htarget, huncles,
    hextra, htotal⟩ := htuple
  have hsquad' : a.squad = b.squad := String.toList_injective
    (List.map_injective_iff.mpr (fun x y hxy => Char.toNat_inj.mp hxy) hsquad)
  have haddress : a.minerWalletAddress = b.minerWalletAddress := by
    cases ha : a.minerWalletAddress
    cases hb : b.minerWalletAddress
    simp_all
  cases a
  cases b
  simp_all only [BlockPreimage.mk.injEq, and_true, true_and]
  exact BlockHeader.code_injective hheader

def hashCore : TariCore := { sampleCore with blocksHash := BlockPreimage.code }

/-- A base node whose block has no coinbases and an arbitrary output root. -/
def sampleBaseNode (_ : List NewBlockCoinbase) : Except String NewBlockTemplate :=
  .ok {
    block := {
      header := { nonce := 9, outputMr := 7 }
      coinbaseOutputs := []
      normalOutputMr := .ok 0 }
    targetDifficulty := 100 }

def minedService : ShaP2PoolGrpc :=
  ServiceCall.run hashCore BlockHeader.code (sampleShareChain 10)
    (ServiceCall.run hashCore BlockHeader.code (sampleShareChain 10) (.new (sampleShareChain 10))
      (.getNewBlock IterOrder.stored 0 ⟨0, 0⟩ [] true sampleBaseNode))
    (.submitMined IterOrder.stored 0 true { nonce := 5, outputMr := 7 } fun _ => .ok ())

/-- The hash function is injective, and yet a block that a peer hands over is stored under a hash of
the peer's choice, and a mined block under the hash of its template. -/
theorem stored_under_other_hash :
    Function.Injective hashCore.blocksHash ∧
      (∃ g, ServiceRun hashCore BlockHeader.code (sampleShareChain 10) (fun _ _ => True) g ∧
        ∃ b ∈ g.shareChain.blockCache.values, b.hash = 77 ∧ b.hash ≠ b.generateHash hashCore) ∧
      ServiceRun hashCore BlockHeader.code (sampleShareChain 10) (fun _ _ => True) minedService ∧
      ∃ b ∈ minedService.shareChain.blockCache.values, b.hash ≠ b.generateHash hashCore := by
  refine ⟨BlockPreimage.code_injective, ⟨_, ServiceRun.new.called (.submitBlock IterOrder.stored 0
    { sampleBlock 77 0 0 1 with squad := "", originalHeader := { outputMr := 7 } }) trivial, ?_⟩,
    (ServiceRun.new.called _ trivial).called _ trivial, ?_⟩
  · decide +kernel
  · decide +kernel

def hashedBlock : P2Block :=
  P2Block.fixHash hashCore
    { sampleBlock 0 0 0 1 with squad := "", originalHeader := { outputMr := 7 } }

def hashedService : ShaP2PoolGrpc :=
  ServiceCall.run hashCore BlockHeader.code (sampleShareChain 10)
    (ServiceCall.run hashCore BlockHeader.code (sampleShareChain 10) (.new (sampleShareChain 10))
      (.submitBlock IterOrder.stored 0 hashedBlock))
    (.getNewBlock IterOrder.stored 0 ⟨0, 0⟩ [] true sampleBaseNode)

/-- The block stays what it is under its hash. -/
theorem hashedBlock_stored :
    ∃ b : P2Block, hashedService.shareChain.blockCache.find? hashedBlock.hash = some b ∧
      b.hash = b.generateHash hashCore ∧
      ∀ g, ServiceRun hashCore BlockHeader.code (sampleShareChain 10)
        (KeepsHash hashCore BlockHeader.code) g → ∀ b',
          g.shareChain.blockCache.find? hashedBlock.hash = some b' → b.preimage = b'.preimage := by
  have hrun : ServiceRun hashCore BlockHeader.code (sampleShareChain 10)
      (KeepsHash hashCore BlockHeader.code) hashedService :=
    (ServiceRun.new.called _ rfl).called _ trivial
  have hfound : (hashedService.shareChain.blockCache.find? hashedBlock.hash).isSome = true := by
    decide +kernel
  obtain ⟨b, hb⟩ := Option.isSome_iff_exists.mp hfound
  obtain ⟨hown, hsame⟩ := stored_under_own_hash hrun
  exact ⟨b, hb, (hown _ b hb).2, fun g hrun' b' =>
    hsame BlockPreimage.code_injective g hrun' _ b b' hb⟩

end ShaP2Pool
