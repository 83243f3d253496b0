import ShaP2Pool.Proof.Pruning
import ShaP2Pool.Proof.Submit
import Mathlib.Data.List.Pairwise

/-!
# Uncles that are listed once

A template lists no block that the main chain lists already. Nothing checks this for the blocks of
others, so what keeps an uncle from being listed twice along a branch is that every stored block
keeps to the rule. Verifying, pruning and moving the tip then keep it, since they add neither blocks
nor ancestors.
-/

namespace ShaP2Pool

/-- The hashes of the blocks that `b` lists as its uncles. -/
def P2Block.uncleHashes (b : P2Block) : List FixedHash := b.uncles.map (·.2)

namespace P2Chain

open Lineage

variable {core : TariCore} {ord : IterOrder} {config : ChainConfig} {hist : List P2Block}
  {c c' c'' c₀ c₁ c₂ : P2Chain} {b b₁ a x : P2Block} {n i height : Nat} {hash : FixedHash}

/-! ### Changes that add no ancestors -/

/-- `c'` stores blocks of `c`, with at least the same checks done, and finds no other ancestors of
them. -/
structure Thins (c c' : P2Chain) : Prop where
  config : c'.config = c.config
  stored : ∀ {height hash x'}, c'.storedBlock height hash = some x' →
    ∃ x, c.storedBlock height hash = some x ∧ Grows x x' ∧
      ∀ i a', c'.ancestorOf i x' = some a' → ∃ a, c.ancestorOf i x = some a ∧ Grows a a'

theorem Grows.trans {x x₁ x₂ : P2Block} (h : Grows x x₁) (h' : Grows x₁ x₂) : Grows x x₂ :=
  ⟨h'.content.trans h.content, h.verified.trans h'.verified⟩

theorem Thins.refl (c : P2Chain) : Thins c c :=
  ⟨rfl, fun h => ⟨_, h, Grows.refl _, fun _ a ha => ⟨a, ha, Grows.refl a⟩⟩⟩

theorem Thins.trans (h : Thins c c') (h' : Thins c' c'') : Thins c c'' := by
  refine ⟨h'.config.trans h.config, fun hx'' => ?_⟩
  obtain ⟨x', hx', hgrows', hancestors'⟩ := h'.stored hx''
  obtain ⟨x, hx, hgrows, hancestors⟩ := h.stored hx'
  refine ⟨x, hx, hgrows.trans hgrows', fun i a'' ha'' => ?_⟩
  obtain ⟨a', ha', hga'⟩ := hancestors' i a'' ha''
  obtain ⟨a, ha, hga⟩ := hancestors i a' ha'
  exact ⟨a, ha, hga.trans hga'⟩

/-- The ancestors that are found without a new block were found before. -/
theorem Writes.ancestorOf_of (hc : c.StoresAgree)
    (hunused : ∀ old, c.blockCache.find? b.hash = some old → old.height = b.height)
    (hw : Writes c b c₀) (ha : c₀.ancestorOf i x = some a)
    (hoff : ∀ j ≤ i, 0 < j → c₀.ancestorOf j x ≠ some b) : c.ancestorOf i x = some a := by
  induction i generalizing a with
  | zero => exact ha
  | succ i ih =>
    have hne : a ≠ b := fun heq => hoff (i + 1) le_rfl (Nat.succ_pos i) (heq ▸ ha)
    rw [ancestorOf, ancestor_succ'] at ha ⊢
    obtain ⟨y, hy, hparent⟩ := Option.bind_eq_some_iff.mp ha
    have hprev : ancestor c.parentOf i x = some y := ih hy fun j hj => hoff j (by omega)
    rw [hprev, Option.bind_some]
    rw [parentOf] at hparent ⊢
    split_ifs at hparent ⊢
    rw [hw.storedBlock hc hunused] at hparent
    split_ifs at hparent
    · cases hparent
      exact absurd rfl hne
    · exact hparent

/-! ### Uncles along the branches -/

/-- No stored block lists an uncle twice, or one that an ancestor in its share window lists. -/
structure UnclesOnce (c : P2Chain) : Prop where
  own : ∀ {height hash x}, c.storedBlock height hash = some x → x.uncleHashes.Nodup
  apart : ∀ {height hash x i a}, c.storedBlock height hash = some x → 0 < i →
    i < c.config.shareWindow → c.ancestorOf i x = some a → x.uncleHashes.Disjoint a.uncleHashes

/-- What a block must respect when it is stored: it lists no uncle twice, and in the chain that has
stored it neither the block nor a descendant shares an uncle with an ancestor of the block, or the
block, within a share window. -/
def ListsFreshUncles (c : P2Chain) (b : P2Block) : Prop :=
  b.uncleHashes.Nodup ∧ ∀ height hash x i j a, (c.received b).storedBlock height hash = some x →
    (c.received b).ancestorOf i x = some b → (c.received b).ancestorOf j b = some a → 0 < i + j →
    i + j < c.config.shareWindow → x.uncleHashes.Disjoint a.uncleHashes

namespace UnclesOnce

theorem newEmpty (config : ChainConfig) : UnclesOnce (newEmpty config) where
  own h := by cases h
  apart h := by cases h

theorem writes (hu : UnclesOnce c) (hc : c.StoresAgree)
    (hunused : ∀ old, c.blockCache.find? b.hash = some old → old.height = b.height)
    (hallowed : ¬ParentIsUncle b) (hw : Writes c b c₀) (hfresh : ListsFreshUncles c b) :
    UnclesOnce c₀ := by
  obtain ⟨hown, hapart⟩ := hfresh
  have hsame (height : Nat) (hash : FixedHash) :
      (c.received b).storedBlock height hash = c₀.storedBlock height hash := by
    rw [(writes_received hallowed).storedBlock hc hunused, hw.storedBlock hc hunused]
  simp only [ancestorOf, hsame, parentOf_congr hsame] at hapart
  have hold {height : Nat} {hash : FixedHash} {x : P2Block}
      (hx : c₀.storedBlock height hash = some x) (hne : x ≠ b) :
      c.storedBlock height hash = some x := by
    rw [hw.storedBlock hc hunused] at hx
    split_ifs at hx
    · cases hx
      exact absurd rfl hne
    · exact hx
  refine ⟨fun {height hash x} hx => ?_, fun {height hash x i a} hx hpos hlt ha => ?_⟩
  · by_cases heq : x = b
    · rwa [heq]
    · exact hu.own (hold hx heq)
  · by_cases hthrough : ∃ j ≤ i, c₀.ancestorOf j x = some b
    · obtain ⟨j, hj, hb⟩ := hthrough
      obtain ⟨z, hz, hrest⟩ := exists_ancestor_of_le hj ha
      rw [show ancestor c₀.parentOf j x = some b from hb, Option.some.injEq] at hz
      subst hz
      rw [hw.config] at hlt
      exact hapart height hash x j (i - j) a hx hb hrest (by omega) (by omega)
    · have hoff (j : Nat) (hj : j ≤ i) : c₀.ancestorOf j x ≠ some b :=
        fun hb => hthrough ⟨j, hj, hb⟩
      have hne : x ≠ b := fun heq => hoff 0 (Nat.zero_le i) (heq ▸ rfl)
      rw [hw.config] at hlt
      exact hu.apart (hold hx hne) hpos hlt
        (hw.ancestorOf_of hc hunused ha fun j hj _ => hoff j hj)

end UnclesOnce

end P2Chain

end ShaP2Pool
