import ShaP2Pool.Proof.History

/-!
# The two lookups

A block is looked up in the block cache and its header in the level of the asked height. The levels
and the cache hold the same blocks in every reachable state (`StoresAgree`), but the cache is asked
for the hash alone. So a hash that is stored at another height is found wherever there is a level at
the asked height, and that is the only way in which the two lookups differ.
-/

namespace ShaP2Pool

namespace P2Chain

variable {core : TariCore} {config : ChainConfig} {hist : List P2Block} {c : P2Chain}
variable {P : List P2Block → P2Chain → IterOrder → P2Block → Prop}
variable {height : Nat} {hash : FixedHash} {b x : P2Block}

/-- Both lookups find the same block, which is the block of this hash at this height, or neither
finds one. -/
structure LookupsAgree (c : P2Chain) (height : Nat) (hash : FixedHash) : Prop where
  found_iff : (∃ b, c.getBlockAtHeight height hash = some b) ↔
    ∃ header, c.getBlockHeaderAtHeight height hash = some header
  sameBlock : ∀ b, c.getBlockAtHeight height hash = some b →
    b.height = height ∧ b.hash = hash ∧
      ∀ header, c.getBlockHeaderAtHeight height hash = some header →
        header.prevHash = b.prevHash ∧ header.uncles = b.uncles ∧ header.timestamp = b.timestamp ∧
        header.targetDifficulty = b.targetDifficulty ∧ header.totalPow = b.totalPow ∧
        header.verified = b.verified

/-- There is a level at the height, and the hash is that of a block stored at another height. -/
def StoredElsewhere (c : P2Chain) (height : Nat) (hash : FixedHash) : Prop :=
  (∃ level, c.levelAtHeight height = some level) ∧
    ∃ other, other ≠ height ∧ ∃ b, c.storedBlock other hash = some b

/-- The parent that is found for a block, if any, lies directly below it. -/
def ParentBelow (c : P2Chain) (x : P2Block) : Prop :=
  ∀ p, c.getParentBlock x = some p → p.height + 1 = x.height

namespace StoresAgree

variable (hc : c.StoresAgree)
include hc

theorem getBlockAtHeight_eq_some_iff : c.getBlockAtHeight height hash = some b ↔
    (∃ level, c.levelAtHeight height = some level) ∧ c.storedBlock b.height hash = some b := by
  rw [getBlockAtHeight, Option.bind_eq_some_iff, hc.storedBlock_eq_some_iff]
  constructor
  · rintro ⟨level, hlevel, hfind⟩
    exact ⟨⟨level, hlevel⟩, hfind, rfl⟩
  · rintro ⟨⟨level, hlevel⟩, hfind, -⟩
    exact ⟨level, hlevel, hfind⟩

theorem storedElsewhere (h : c.getBlockAtHeight height hash = some b) (hne : b.height ≠ height) :
    c.StoredElsewhere height hash := by
  obtain ⟨hlevel, hb⟩ := hc.getBlockAtHeight_eq_some_iff.mp h
  exact ⟨hlevel, b.height, hne, b, hb⟩

theorem exists_of_storedElsewhere (h : c.StoredElsewhere height hash) :
    ∃ b, c.getBlockAtHeight height hash = some b ∧ b.height ≠ height := by
  obtain ⟨hlevel, other, hne, b, hb⟩ := h
  obtain rfl := hc.height_of_storedBlock hb
  exact ⟨b, hc.getBlockAtHeight_eq_some_iff.mpr ⟨hlevel, hb⟩, hne⟩

theorem lookupsAgree (hnot : ¬c.StoredElsewhere height hash) : c.LookupsAgree height hash := by
  have hheight {b : P2Block} (h : c.getBlockAtHeight height hash = some b) : b.height = height := by
    by_contra hne
    exact hnot (hc.storedElsewhere h hne)
  have hstored {b : P2Block} (h : c.getBlockAtHeight height hash = some b) :
      c.storedBlock height hash = some b := by
    rw [← hheight h]
    exact (hc.getBlockAtHeight_eq_some_iff.mp h).2
  refine ⟨⟨?_, ?_⟩, fun b h => ⟨hheight h, hc.hash_of_storedBlock (hstored h), ?_⟩⟩
  · rintro ⟨b, h⟩
    exact ⟨b.header, hc.header_of_storedBlock (hstored h)⟩
  · rintro ⟨header, h⟩
    obtain ⟨b, hb, -⟩ := hc.storedBlock_of_header h
    exact ⟨b, hc.getBlockAtHeight_of_storedBlock hb⟩
  · intro header hheader
    rw [hc.header_of_storedBlock (hstored h), Option.some.injEq] at hheader
    subst hheader
    exact ⟨rfl, rfl, rfl, rfl, rfl, rfl⟩

theorem lookupsAgree_iff : c.LookupsAgree height hash ↔ ¬c.StoredElsewhere height hash := by
  refine ⟨fun hagree helse => ?_, hc.lookupsAgree⟩
  obtain ⟨b, hfound, hne⟩ := hc.exists_of_storedElsewhere helse
  exact hne (hagree.sameBlock b hfound).1

theorem parentBelow_iff :
    c.ParentBelow x ↔ x.height = 0 ∨ ¬c.StoredElsewhere (x.height - 1) x.prevHash := by
  constructor
  · intro hbelow
    by_cases hzero : x.height = 0
    · exact Or.inl hzero
    · refine Or.inr fun helse => ?_
      obtain ⟨p, hp, hne⟩ := hc.exists_of_storedElsewhere helse
      have := hbelow p (by rw [getParentBlock, if_neg hzero, hp])
      omega
  · intro h p hp
    rw [getParentBlock] at hp
    split_ifs at hp with hzero
    obtain hheight | hnot := h
    · exact absurd hheight hzero
    · have := ((hc.lookupsAgree hnot).sameBlock p hp).1
      omega

theorem blockAlreadyAdded_ne_panic (b : P2Block) (p : Panic) :
    InMemoryShareChain.blockAlreadyAdded c b ≠ .error (.panic p) := by
  intro h
  rw [InMemoryShareChain.blockAlreadyAdded] at h
  cases hlevel : c.levelAtHeight b.height with
  | none => simp [hlevel] at h
  | some level =>
    simp only [hlevel] at h
    split_ifs at h with hcontains
    obtain ⟨header, hheader⟩ := KeyedMap.contains_iff.mp hcontains
    have hfound : c.getBlockHeaderAtHeight b.height b.hash = some header :=
      Option.bind_eq_some_iff.mpr ⟨level, hlevel, hheader⟩
    obtain ⟨stored, hcached, -⟩ := hc.cached hfound
    simp [hcached] at h

end StoresAgree

/-- In every state reached with blocks of distinct hashes the two lookups agree exactly on the
hashes that are not stored at another height while there is a level at the asked one; the parent
that is found is the block below unless the named parent is such a hash; and a stored block is
always found again on submission. -/
theorem lookups_agree_iff (hrun : Run core config P hist c) :
    (∀ height hash, c.LookupsAgree height hash ↔ ¬c.StoredElsewhere height hash) ∧
    (∀ x, c.ParentBelow x ↔ x.height = 0 ∨ ¬c.StoredElsewhere (x.height - 1) x.prevHash) ∧
    ∀ b p, InMemoryShareChain.blockAlreadyAdded c b ≠ .error (.panic p) := by
  have hc := hrun.recorded.agree
  exact ⟨fun _ _ => hc.lookupsAgree_iff, fun _ => hc.parentBelow_iff, hc.blockAlreadyAdded_ne_panic⟩

/-- In the chain of three blocks the lookups of the tip's hash agree at the height of the tip and at
a height without a level. -/
theorem lookups_agree_sample : sampleChain.LookupsAgree 2 3 ∧ sampleChain.LookupsAgree 7 3 := by
  have hagree := (lookups_agree_iff run_sampleChain).1
  refine ⟨(hagree 2 3).mpr ?_, (hagree 7 3).mpr ?_⟩
  · rintro ⟨-, other, hne, b, hb⟩
    have hstored := (Option.some_get (x := sampleChain.storedBlock 2 3) (by decide)).symm
    exact hne (run_sampleChain.recorded.agree.storedBlock_inj hb hstored).1
  · rintro ⟨⟨level, hlevel⟩, -⟩
    cases hlevel

/-- The block of height 0 is found at height 1, where it has no header. -/
theorem lookups_disagree : ∃ hist, Run sampleCore (sampleConfig 10) Unrestricted hist sampleChain ∧
    (sampleChain.getBlockAtHeight 1 1).isSome = true ∧
    sampleChain.getBlockHeaderAtHeight 1 1 = none ∧ ¬sampleChain.ParentBelow (sampleBlock 4 1 2 4) := by
  refine ⟨_, run_sampleChain, by decide, by decide, fun h => ?_⟩
  obtain ⟨p, hp⟩ := Option.isSome_iff_exists.mp
    (show (sampleChain.getParentBlock (sampleBlock 4 1 2 4)).isSome = true by decide)
  have hheight : ∀ p ∈ sampleChain.getParentBlock (sampleBlock 4 1 2 4), p.height = 0 := by decide
  have := h p hp
  rw [hheight p hp] at this
  exact absurd this (by decide)

end P2Chain

end ShaP2Pool
