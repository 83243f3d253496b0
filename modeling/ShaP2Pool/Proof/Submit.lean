import ShaP2Pool.Proof.Content

/-!
# Runs of submitted blocks

A submitted block is stored after the checks of `submit_block_with_lock`, and a block of a synced
batch after the same ones. A submission either leaves the chain alone or is a call of
`addBlockToChain`, so runs of submissions are runs.
-/

namespace ShaP2Pool

namespace P2Chain

variable {core : TariCore} {s : InMemoryShareChain} {ord : IterOrder} {now : EpochTime}
  {c c' : P2Chain} {b b' : P2Block} {syncing : Bool} {hist : List P2Block}
  {P : List P2Block → P2Chain → IterOrder → P2Block → Prop}

def blockToStore (core : TariCore) (s : InMemoryShareChain) (now : EpochTime) (c : P2Chain)
    (b : P2Block) (syncing : Bool) : Option P2Block :=
  match InMemoryShareChain.blockAlreadyAdded c b with
  | .error _ => none
  | .ok already =>
    if already.any (·.verified.isVerified) then none
    else if s.olderThanShareWindow c b && !syncing then none
    else
      match s.validateBlock core now c b with
      | .error _ => none
      | .ok b' =>
        match s.validateClaimedDifficulty core b' with
        | .error _ => none
        | .ok _ =>
          let b' := { b' with verified := { b'.verified with difficulty := true } }
          if ParentIsUncle b' then none else some b'

theorem submitBlockWithLock_cases (core : TariCore) (s : InMemoryShareChain) (ord : IterOrder)
    (now : EpochTime) (c : P2Chain) (b : P2Block) (syncing : Bool) :
    (∃ b', blockToStore core s now c b syncing = some b' ∧ b'.withoutStatus = b.withoutStatus ∧
        ¬ParentIsUncle b' ∧
        s.submitBlockWithLock core ord now b syncing c = addBlockToChain core ord b' c) ∨
      (blockToStore core s now c b syncing = none ∧
        (s.submitBlockWithLock core ord now b syncing c).state = c) := by
  simp only [blockToStore, InMemoryShareChain.submitBlockWithLock, EStateM.bind_apply,
    EStateM.get_apply]
  cases hadded : InMemoryShareChain.blockAlreadyAdded c b with
  | error fault => exact Or.inr ⟨rfl, rfl⟩
  | ok already =>
    simp only [EStateM.ofExcept_ok]
    split_ifs
    · exact Or.inr ⟨rfl, rfl⟩
    · exact Or.inr ⟨rfl, rfl⟩
    · cases hvalid : s.validateBlock core now c b with
      | error e => exact Or.inr ⟨rfl, rfl⟩
      | ok b' =>
        have hcontent := withoutStatus_of_validateBlock hvalid
        simp only
        cases hclaimed : s.validateClaimedDifficulty core b' with
        | error e => exact Or.inr ⟨rfl, rfl⟩
        | ok d =>
          simp only
          split_ifs with hrefused
          · refine Or.inr ⟨rfl, ?_⟩
            rw [addBlockToChain_of_parentIsUncle core ord c hrefused, EStateM.Result.state_error]
          · exact Or.inl ⟨_, rfl, hcontent, hrefused, rfl⟩

/-- The chains reached from the empty one by submissions, with the blocks stored on the way, newest
first. The stored blocks have distinct hashes other than zero, and `P` restricts them. -/
inductive SubmitRun (core : TariCore) (s : InMemoryShareChain)
    (P : List P2Block → P2Chain → IterOrder → P2Block → Prop) : List P2Block → P2Chain → Prop
  | empty : SubmitRun core s P [] (newEmpty s.chainConfig)
  | submitted {hist : List P2Block} {c : P2Chain} {ord : IterOrder} {now : EpochTime} {b : P2Block}
    {syncing : Bool} (hrun : SubmitRun core s P hist c)
    (hstep : ∀ b', blockToStore core s now c b syncing = some b' →
      b.hash ≠ FixedHash.zero ∧ (∀ a ∈ hist, a.hash ≠ b.hash) ∧ P hist c ord b')
    (hreturns : Returns (s.submitBlockWithLock core ord now b syncing c)) :
    SubmitRun core s P ((blockToStore core s now c b syncing).toList ++ hist)
      (s.submitBlockWithLock core ord now b syncing c).state

theorem SubmitRun.run (hrun : SubmitRun core s P hist c) : Run core s.chainConfig P hist c := by
  induction hrun with
  | empty => exact Run.empty
  | @submitted hist c ord now b syncing hrun hstep hreturns ih =>
    obtain ⟨b', hstored, hcontent, hallowed, heq⟩ | ⟨hnone, hstate⟩ :=
      submitBlockWithLock_cases core s ord now c b syncing
    · obtain ⟨hnonzero, hfresh, hP⟩ := hstep b' hstored
      have hhash := hash_of_withoutStatus hcontent
      rw [heq] at hreturns ⊢
      rw [hstored]
      exact ih.added (by rwa [hhash]) (by rwa [hhash]) hallowed hP hreturns
    · rw [hnone, hstate]
      exact ih

/-! ### The two calls of the service -/

/-- Every block of `hist'` is one of `hist` or has the hash of one of `blocks`. -/
def StoredFrom (hist : List P2Block) (blocks : List P2Block) (hist' : List P2Block) : Prop :=
  ∀ a ∈ hist', a ∈ hist ∨ ∃ b ∈ blocks, a.hash = b.hash

/-- One submission of a run without further conditions. -/
theorem SubmitRun.submitBlockWithLock (hrun : SubmitRun core s Unrestricted hist c)
    (hnonzero : b.hash ≠ FixedHash.zero) (hfresh : ∀ a ∈ hist, a.hash ≠ b.hash)
    (hreturns : Returns (s.submitBlockWithLock core ord now b syncing c)) :
    ∃ hist', SubmitRun core s Unrestricted hist'
        (s.submitBlockWithLock core ord now b syncing c).state ∧ StoredFrom hist [b] hist' := by
  refine ⟨_, hrun.submitted (fun _ _ => ⟨hnonzero, hfresh, trivial⟩) hreturns, fun a ha => ?_⟩
  rw [List.mem_append, Option.mem_toList] at ha
  obtain ha | ha := ha
  · obtain ⟨b', hstored, hcontent, -⟩ | ⟨hnone, -⟩ :=
      submitBlockWithLock_cases core s ord now c b syncing
    · rw [hstored, Option.some.injEq] at ha
      exact Or.inr ⟨b, List.mem_singleton_self b, ha ▸ hash_of_withoutStatus hcontent⟩
    · rw [hnone] at ha
      cases ha
  · exact Or.inl ha

/-- `submit_block` continues a run of submissions. -/
theorem SubmitRun.submitBlock (hrun : SubmitRun core s Unrestricted hist c)
    (hnonzero : b.hash ≠ FixedHash.zero) (hfresh : ∀ a ∈ hist, a.hash ≠ b.hash)
    (hreturns : Returns (s.submitBlock core ord now b c)) :
    ∃ hist', SubmitRun core s Unrestricted hist' (s.submitBlock core ord now b c).state ∧
      StoredFrom hist [b] hist' := by
  rw [InMemoryShareChain.submitBlock] at hreturns ⊢
  split_ifs at hreturns ⊢
  · exact ⟨hist, hrun, fun a ha => Or.inl ha⟩
  · exact ⟨hist, hrun, fun a ha => Or.inl ha⟩
  · exact hrun.submitBlockWithLock hnonzero hfresh hreturns

/-- A batch continues a run of submissions, one block after the other. -/
theorem SubmitRun.addSyncedLoop {ords : Nat → IterOrder} {known : List FixedHash} {i : Nat}
    {blocks : List P2Block} {result : ChainAddResult} (hrun : SubmitRun core s Unrestricted hist c)
    (hnonzero : ∀ b ∈ blocks, b.hash ≠ FixedHash.zero)
    (hfresh : ∀ a ∈ hist, ∀ b ∈ blocks, a.hash ≠ b.hash)
    (hdistinct : (blocks.map (·.hash)).Nodup)
    (hreturns : Returns (s.addSyncedLoop core ords now known i blocks result c)) :
    ∃ hist', SubmitRun core s Unrestricted hist'
        (s.addSyncedLoop core ords now known i blocks result c).state ∧
      StoredFrom hist blocks hist' := by
  induction blocks generalizing hist c i result with
  | nil => exact ⟨hist, hrun, fun a ha => Or.inl ha⟩
  | cons b rest ih =>
    rw [InMemoryShareChain.addSyncedLoop] at hreturns ⊢
    split_ifs at hreturns ⊢
    · exact ⟨hist, hrun, fun a ha => Or.inl ha⟩
    · exact ⟨hist, hrun, fun a ha => Or.inl ha⟩
    · rw [EStateM.bind_apply] at hreturns ⊢
      rw [List.map_cons, List.nodup_cons] at hdistinct
      have hone : Returns (s.submitBlockWithLock core (ords i) now b true c) → _ :=
        hrun.submitBlockWithLock (hnonzero b List.mem_cons_self)
          (fun a ha => hfresh a ha b List.mem_cons_self)
      cases hsubmit : s.submitBlockWithLock core (ords i) now b true c with
      | error fault c' =>
        simp only [hsubmit] at hreturns hone ⊢
        obtain ⟨hist', hrun', hfrom⟩ := hone fun p c'' h => by
          cases h
          exact hreturns p c' rfl
        refine ⟨hist', hrun', fun a ha => (hfrom a ha).imp_right fun hfound => ?_⟩
        obtain ⟨x, hx, heq⟩ := hfound
        rw [List.mem_singleton] at hx
        exact ⟨b, List.mem_cons_self, hx ▸ heq⟩
      | ok tipChange c' =>
        simp only [hsubmit] at hreturns hone ⊢
        obtain ⟨hist', hrun', hfrom⟩ := hone fun p c'' h => by cases h
        have hfrom' (a : P2Block) (ha : a ∈ hist') : a ∈ hist ∨ a.hash = b.hash := by
          refine (hfrom a ha).imp_right fun hfound => ?_
          obtain ⟨x, hx, heq⟩ := hfound
          rw [List.mem_singleton] at hx
          exact hx ▸ heq
        split_ifs at hreturns ⊢
        · exact ⟨hist', hrun', fun a ha =>
            (hfrom' a ha).imp_right fun heq => ⟨b, List.mem_cons_self, heq⟩⟩
        · obtain ⟨hist'', hrun'', hrest⟩ := ih hrun'
            (fun x hx => hnonzero x (List.mem_cons_of_mem b hx))
            (fun a ha x hx heq => by
              obtain ha | hab := hfrom' a ha
              · exact hfresh a ha x (List.mem_cons_of_mem b hx) heq
              · exact hdistinct.1 (List.mem_map.mpr ⟨x, hx, heq.symm.trans hab⟩))
            hdistinct.2 hreturns
          refine ⟨hist'', hrun'', fun a ha => ?_⟩
          obtain ha | ⟨x, hx, heq⟩ := hrest a ha
          · exact (hfrom' a ha).imp_right fun heq => ⟨b, List.mem_cons_self, heq⟩
          · exact Or.inr ⟨x, List.mem_cons_of_mem b hx, heq⟩

/-- `add_synced_blocks` continues a run of submissions. -/
theorem SubmitRun.addSyncedBlocks {ords : Nat → IterOrder} {blocks : List P2Block}
    (hrun : SubmitRun core s Unrestricted hist c)
    (hnonzero : ∀ b ∈ blocks, b.hash ≠ FixedHash.zero)
    (hfresh : ∀ a ∈ hist, ∀ b ∈ blocks, a.hash ≠ b.hash)
    (hdistinct : (blocks.map (·.hash)).Nodup)
    (hreturns : Returns (s.addSyncedBlocks core ords now blocks c)) :
    ∃ hist', SubmitRun core s Unrestricted hist' (s.addSyncedBlocks core ords now blocks c).state ∧
      StoredFrom hist blocks hist' := by
  have hmem (b : P2Block) : b ∈ blocks.insertionSort (fun a b => a.height ≤ b.height) ↔
      b ∈ blocks := List.mem_insertionSort _
  obtain ⟨hist', hrun', hfrom⟩ := hrun.addSyncedLoop
    (fun b hb => hnonzero b ((hmem b).mp hb))
    (fun a ha b hb => hfresh a ha b ((hmem b).mp hb))
    (((List.perm_insertionSort _ blocks).map _).nodup_iff.mpr hdistinct) hreturns
  exact ⟨hist', hrun', fun a ha =>
    (hfrom a ha).imp_right fun ⟨b, hb, heq⟩ => ⟨b, (hmem b).mp hb, heq⟩⟩

/-! ### Evaluating runs of submissions -/

end P2Chain

end ShaP2Pool
