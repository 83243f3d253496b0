import ShaP2Pool.Proof.History
import ShaP2Pool.Proof.TipMoves

/-!
# Chains that calls can reach

A chain is reached from the empty one by calls that return a value or an error. Nothing is asked of
the blocks: the same block may be added twice, hashes may repeat and heights may be anything. Two
facts hold of every such chain. A marked block is stored in its level, and the tip is low enough for
the heights of its children.
-/

namespace ShaP2Pool

namespace P2Chain

variable {core : TariCore} {ord : IterOrder} {config : ChainConfig} {n height : Nat}
variable {hash : FixedHash} {c c' c₀ c₁ c₂ : P2Chain} {b : P2Block}
variable {P : List P2Block → P2Chain → IterOrder → P2Block → Prop} {hist : List P2Block}

/-- The chains that calls reach from the empty one. -/
inductive Reachable (core : TariCore) (config : ChainConfig) : P2Chain → Prop
  | empty : Reachable core config (newEmpty config)
  | added {c : P2Chain} {ord : IterOrder} {b : P2Block} (hreach : Reachable core config c)
    (hreturns : Returns (addBlockToChain core ord b c)) :
    Reachable core config (addBlockToChain core ord b c).state
  | generated {c : P2Chain} {s : InMemoryShareChain} {ord : IterOrder} {template : P2Block}
    {soloMine : Bool} (hreach : Reachable core config c)
    (hreturns : Returns (s.generateSharesAndGetTargetDifficulty core ord template soloMine c)) :
    Reachable core config
      (s.generateSharesAndGetTargetDifficulty core ord template soloMine c).state

/-- The chains of runs are reachable. -/
theorem Run.reachable (hrun : Run core config P hist c) : Reachable core config c := by
  induction hrun with
  | empty => exact Reachable.empty
  | refused _ _ ih => exact ih
  | added _ _ _ _ _ hreturns ih => exact ih.added hreturns
  | generated _ hreturns ih => exact ih.generated hreturns

/-- The invariant: marked blocks are stored, and the heights above the tip that are searched for
children do not overflow. -/
structure SoundTip (c : P2Chain) : Prop where
  listed : ∀ height, c.chainBlockAt height ≠ FixedHash.zero → c.HasPair (height, c.chainBlockAt height)
  low : c.currentTip + maxUncleAge ≤ u64Max

namespace SoundTip

theorem newEmpty (config : ChainConfig) : SoundTip (newEmpty config) :=
  ⟨fun _ hne => absurd rfl hne, show 0 + maxUncleAge ≤ u64Max by decide⟩

theorem of_keepsTip (hs : SoundTip c) (h : KeepsTip c c') : SoundTip c' := by
  refine ⟨fun height hne => ?_, ?_⟩
  · rw [h.chainBlockAt] at hne ⊢
    exact (h.pairs _).mpr (hs.listed height hne)
  · rw [h.currentTip]
    exact hs.low

theorem writes (hs : SoundTip c) (hw : Writes c b c') : SoundTip c' := by
  refine ⟨fun height hne => ?_, ?_⟩
  · rw [hw.chainBlockAt] at hne ⊢
    rw [HasPair, hw.headers]
    split_ifs
    · rfl
    · exact hs.listed height hne
  · rw [hw.currentTip]
    exact hs.low

theorem crowned (hs : SoundTip c₁) (hpair : c₁.HasPair (height, hash))
    (hcrowns : Crowns c₁ height hash c₂) (hlow : height + maxUncleAge ≤ u64Max) :
    SoundTip c₂.cleanupChain := by
  refine ⟨fun height' hne => ?_, ?_⟩
  · rw [chainBlockAt_cleanupChain] at hne ⊢
    split_ifs at hne ⊢ with hkept
    · refine hasPair_cleanupChain.mpr ⟨hkept, ?_⟩
      rw [hcrowns.chainBlockAt] at hne ⊢
      rw [HasPair, hcrowns.same.getBlockHeaderAtHeight]
      split_ifs at hne ⊢ with hat
      · rw [hat]
        exact hpair
      · exact hs.listed height' hne
    · exact absurd rfl hne
  · rw [currentTip_cleanupChain, hcrowns.currentTip]
    exact hlow

theorem reorganised {block : P2BlockHeader} (hs : SoundTip c₁)
    (hblock : c₁.getBlockHeaderAtHeight height hash = some block) (hreorg : c₁.reorg block = .ok c₂)
    (hlow : height + maxUncleAge ≤ u64Max) : SoundTip c₂ := by
  have hheight := height_of_getBlockHeaderAtHeight hblock
  have hr := reorganises_of_reorg (hasHeader_of_getBlockHeaderAtHeight hblock) hreorg
  refine ⟨fun height' hne => ?_, ?_⟩
  · rw [HasPair, hr.same.getBlockHeaderAtHeight]
    obtain heq | ⟨header, hheader⟩ := hr.marks height' hne
    · rw [heq] at hne ⊢
      exact hs.listed height' hne
    · exact Option.isSome_of_eq_some hheader
  · rw [hr.currentTip, hheight]
    exact hlow

/-- A verification that returns keeps the invariant. -/
theorem verifyChainInner (hs : SoundTip c)
    (hreturns : Returns (P2Chain.verifyChainInner core ord n height hash c)) :
    SoundTip (P2Chain.verifyChainInner core ord n height hash c).state := by
  cases hinner : P2Chain.verifyChainInner core ord n height hash c with
  | error fault c' =>
    cases fault with
    | panic p => exact absurd hinner (hreturns p c')
    | error e => exact hs.of_keepsTip (keepsTip_of_error hinner)
  | ok result c' =>
    obtain ⟨addResult, next⟩ := result
    have hstep := tipStep_of_ok hinner
    generalize addResult.newTip = newTip at hstep
    cases hstep with
    | kept _ hkeeps => exact hs.of_keepsTip hkeeps
    | crowned _ hkeeps hpair hcrowns hlow =>
      exact (hs.of_keepsTip hkeeps).crowned hpair hcrowns hlow
    | reorganised _ hkeeps hblock hreorg hlow =>
      exact (hs.of_keepsTip hkeeps).reorganised hblock hreorg hlow

theorem addBlockToChain (hs : SoundTip c) (hreturns : Returns (P2Chain.addBlockToChain core ord b c)) :
    SoundTip (P2Chain.addBlockToChain core ord b c).state := by
  by_cases hallowed : ParentIsUncle b
  · rw [addBlockToChain_of_parentIsUncle core ord c hallowed]
    exact hs
  · exact addBlock_inv hallowed hreturns (fun c₀ hw => hs.writes hw)
      (fun w height hash rest _ _ hI hreturns => hI.verifyChainInner hreturns)

end SoundTip

theorem Reachable.soundTip (hreach : Reachable core config c) : SoundTip c := by
  induction hreach with
  | empty => exact SoundTip.newEmpty config
  | added _ hreturns ih => exact ih.addBlockToChain hreturns
  | @generated c s ord template soloMine _ _ ih =>
    obtain ⟨cached, heq⟩ := generate_state core s ord template soloMine c
    rw [heq]
    exact ⟨ih.listed, ih.low⟩

end P2Chain

end ShaP2Pool
