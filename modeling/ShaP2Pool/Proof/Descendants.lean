import ShaP2Pool.Proof.Walk

/-!
# The scan for waiting blocks

The scan looks at the levels above a block for the headers that name it. Its range ends before
`height + MAX_UNCLE_AGE`, while a block may list uncles of that very age. What the scan finds is
read off the levels alone, so nothing here needs a reachable chain.
-/

namespace ShaP2Pool

namespace P2Chain

variable {ord : IterOrder} {n height : Nat} {hash : FixedHash} {c : P2Chain}
variable {header : P2BlockHeader}

/-- A header that waits for the block `hash` of `height`, as its child or its nephew. -/
def WaitsFor (header : P2BlockHeader) (height : Nat) (hash : FixedHash) : Prop :=
  header.prevHash = hash ∨ (height, hash) ∈ header.uncles

instance (header : P2BlockHeader) (height : Nat) (hash : FixedHash) :
    Decidable (WaitsFor header height hash) :=
  inferInstanceAs (Decidable (_ ∨ _))

theorem WaitsFor.refersTo (h : WaitsFor header height hash) : RefersTo header hash :=
  Or.imp_right (fun hmem => ⟨_, hmem, rfl⟩) h

/-- The scan finds every stored header of an allowed age that waits for the block, and nothing that
does not refer to it. -/
def FindsWaiting (ord : IterOrder) (n : Nat) (c : P2Chain) (height : Nat) (hash : FixedHash) : Prop :=
  ∃ items, c.getAllChildrenAndNephews ord n height hash = .ok items ∧
    (∀ header, c.HasHeader header → height < header.height → header.height ≤ height + maxUncleAge →
      WaitsFor header height hash → (header.height, header.hash) ∈ items) ∧
    ∀ item ∈ items, ∃ header, c.HasHeader header ∧ item = (header.height, header.hash) ∧
      RefersTo header hash

/-- The scan finds every waiting block if and only if its range is one of `u64` heights and no
stored block of the last allowed age waits. -/
theorem getAllChildrenAndNephews_complete_iff (ord : IterOrder) (n : Nat) (c : P2Chain)
    (height : Nat) (hash : FixedHash) :
    FindsWaiting ord n c height hash ↔
      height + maxUncleAge ≤ u64Max ∧
        ∀ header, c.HasHeader header → header.height = height + maxUncleAge →
          ¬WaitsFor header height hash := by
  constructor
  · rintro ⟨items, hitems, hfound, -⟩
    rw [getAllChildrenAndNephews] at hitems
    split_ifs at hitems with hoverflow
    obtain rfl := Except.ok.inj hitems
    refine ⟨by omega, fun header hheader hheight hwaits => ?_⟩
    -- the header would be found beyond the end of the range
    have hage : maxUncleAge = 3 := rfl
    have hmem := hfound header hheader (by omega) (by omega) hwaits
    obtain ⟨other, -, heq, -, hhigh, -⟩ := mem_childrenAndNephews_iff.mp hmem
    have hsame : header.height = other.height := congrArg Prod.fst heq
    omega
  · rintro ⟨hrange, hlast⟩
    refine ⟨c.childrenAndNephews ord n height hash, ?_, ?_, ?_⟩
    · rw [getAllChildrenAndNephews, if_neg (by omega)]
    · intro header hheader hlow hhigh hwaits
      have hne : header.height ≠ height + maxUncleAge :=
        fun hheight => hlast header hheader hheight hwaits
      apply mem_childrenAndNephews_iff.mpr
      exact ⟨header, hheader, rfl, hlow, by omega, hwaits.refersTo⟩
    · intro item hitem
      obtain ⟨header, hheader, heq, -, -, hrefers⟩ := mem_childrenAndNephews_iff.mp hitem
      exact ⟨header, hheader, heq, hrefers⟩

/-- A nephew three heights above the uncle it lists, which is the block `9` of height 10. -/
def lateNephew : P2Block := { sampleBlock 5 4 13 1 with uncles := [(10, 9)] }

def lateNephewChain : P2Chain :=
  addAll sampleCore .stored [lateNephew, sampleBlock 9 8 10 1] (newEmpty (sampleConfig 10))

/-- The nephew is of an age that `validate_block` accepts, and yet the scan from its uncle, run when
the uncle arrives, does not list it. -/
theorem lateNephew_not_found :
    InMemoryShareChain.validateUncles lateNephew = .ok () ∧
    (∃ hist, Run sampleCore (sampleConfig 10) Unrestricted hist lateNephewChain) ∧
    ¬FindsWaiting .stored 0 lateNephewChain 10 9 := by
  refine ⟨by decide, ⟨_, Run.of_blocks IterOrder.stored (fun _ _ _ => true)
    (fun _ _ _ _ => trivial) [lateNephew, sampleBlock 9 8 10 1] (by decide)⟩, ?_⟩
  rintro ⟨items, hitems, hfound, -⟩
  have hnone : lateNephewChain.getAllChildrenAndNephews .stored 0 10 9 = .ok [] := rfl
  rw [hnone, Except.ok.injEq] at hitems
  subst hitems
  exact List.not_mem_nil (hfound lateNephew.header (by decide) (by decide) (by decide) (by decide))

end P2Chain

end ShaP2Pool
