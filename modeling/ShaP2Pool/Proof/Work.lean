import ShaP2Pool.Proof.Ancestry

/-!
# Accumulated work

A block that has passed the first check claims the work of its parent, its own and that of the
uncles it lists. Recorded blocks never change, so the claim stays true for as long as the flag is
trusted, and along a path of such blocks the claims add up.
-/

namespace ShaP2Pool

namespace P2Chain

open Lineage

variable {core : TariCore} {ord : IterOrder} {config : ChainConfig} {n height i : Nat}
variable {hash : FixedHash} {c c' c₀ c₁ : P2Chain} {a b b₁ t x : P2Block} {hist : List P2Block}

def uncleWork (hist : List P2Block) (uncles : List (Nat × FixedHash)) : Nat :=
  (uncles.map fun uncle => ((blockWith hist uncle.2).map (·.targetDifficulty)).getD 0).sum

/-- What a block adds to the work of its parent. -/
def ownWork (hist : List P2Block) (b : P2Block) : Nat :=
  b.targetDifficulty + uncleWork hist b.uncles

/-- The accumulated work of a block is what its own target difficulty, those of its uncles and the
accumulated work of its parent come to, all of which are recorded. -/
structure HonestWork (hist : List P2Block) (b : P2Block) : Prop where
  uncles : UnclesKnown hist b
  parent : b.height ≠ 0 → ∃ p, parentIn hist b = some p
  total : b.totalPow = ownWork hist b + ((parentIn hist b).map (·.totalPow)).getD 0

def WorkHonest (hist : List P2Block) (c : P2Chain) : Prop :=
  ∀ height hash b, c.storedBlock height hash = some b → b.verified.parents = true →
    HonestWork hist b

/-- The new block does not come with the flag of the first check. -/
def LacksParents (_ : List P2Block) (_ : P2Chain) (_ : IterOrder) (b : P2Block) : Prop :=
  b.verified.parents = false

/-! ### Records -/

theorem uncleWork_cons (hfresh : ∀ a ∈ hist, a.hash ≠ b.hash) {uncles : List (Nat × FixedHash)}
    (h : ∀ uncle ∈ uncles, Known hist uncle.2) :
    uncleWork (b :: hist) uncles = uncleWork hist uncles := by
  rw [uncleWork, uncleWork]
  congr 1
  refine List.map_congr_left (fun uncle huncle => ?_)
  rw [blockWith_cons hfresh (h uncle huncle)]

/-- A new block changes no honest claim. -/
theorem HonestWork.cons (hfresh : ∀ a ∈ hist, a.hash ≠ b.hash) (h : HonestWork hist x) :
    HonestWork (b :: hist) x := by
  have hparent : parentIn (b :: hist) x = parentIn hist x := by
    by_cases hheight : x.height = 0
    · rw [parentIn, parentIn, if_pos hheight, if_pos hheight]
    · obtain ⟨p, hp⟩ := h.parent hheight
      rw [parentIn_cons hfresh hp, hp]
  refine ⟨fun uncle huncle => ?_, fun hheight => ?_, ?_⟩
  · obtain ⟨u, hu, heq⟩ := h.uncles uncle huncle
    exact ⟨u, List.mem_cons_of_mem _ hu, heq⟩
  · rw [hparent]
    exact h.parent hheight
  · rw [hparent, ownWork, uncleWork_cons hfresh h.uncles]
    exact h.total

/-- Flags do not matter for the claim. -/
theorem HonestWork.congr {y : P2Block} (hcontent : y.withoutStatus = x.withoutStatus)
    (h : HonestWork hist x) : HonestWork hist y := by
  have huncles : y.uncles = x.uncles := field_eq P2Block.uncles (fun _ _ => rfl) hcontent
  have htarget : y.targetDifficulty = x.targetDifficulty :=
    field_eq P2Block.targetDifficulty (fun _ _ => rfl) hcontent
  have hpow : y.totalPow = x.totalPow := field_eq P2Block.totalPow (fun _ _ => rfl) hcontent
  obtain ⟨hheight, hprev⟩ := names_parent_eq hcontent
  have hparent : parentIn hist y = parentIn hist x := by rw [parentIn, parentIn, hheight, hprev]
  refine ⟨?_, ?_, ?_⟩
  · rw [UnclesKnown, huncles]
    exact h.uncles
  · rw [hheight, hparent]
    exact h.parent
  · rw [hpow, ownWork, huncles, htarget, hparent]
    exact h.total

/-! ### The first check -/

theorem Recorded.blockWith_of_lookup (hr : Recorded config hist c) (hd : Distinct hist)
    (h : c.getBlockAtHeight height hash = some b) :
    ∃ a, P2Chain.blockWith hist hash = some a ∧ Grows a b := by
  obtain ⟨-, -, hcached⟩ := Option.bind_eq_some_iff.mp h
  exact hr.blockWith hd (hr.agree.storedBlock_eq_some_iff.mpr ⟨hcached, rfl⟩)

/-- The work that the first check adds for the uncles. -/
theorem Recorded.addUncleWork (hr : Recorded config hist c) (hd : Distinct hist)
    {uncles : List (Nat × FixedHash)} {total sum : AccumulatedDifficulty}
    (h : c.addUncleWork uncles total = .ok (some sum)) :
    sum = total + uncleWork hist uncles ∧ ∀ uncle ∈ uncles, Known hist uncle.2 := by
  induction uncles generalizing total with
  | nil =>
    cases h
    exact ⟨rfl, by simp⟩
  | cons uncle rest ih =>
    obtain ⟨height, hash⟩ := uncle
    rw [P2Chain.addUncleWork] at h
    cases hfind : c.getBlockAtHeight height hash with
    | none => simp [hfind] at h
    | some u =>
      simp only [hfind] at h
      split_ifs at h
      · cases h
      · rw [checkedAddDifficulty] at h
        split_ifs at h
        obtain ⟨hsum, hknown⟩ := ih h
        obtain ⟨a, ha, hgrows⟩ := hr.blockWith_of_lookup hd hfind
        have htarget : u.targetDifficulty = a.targetDifficulty :=
          field_eq P2Block.targetDifficulty (fun _ _ => rfl) hgrows.content
        have hmem : a ∈ hist := List.mem_of_find?_eq_some ha
        have hhash : a.hash = hash := by simpa using List.find?_some ha
        refine ⟨?_, List.forall_mem_cons.mpr ⟨⟨a, hmem, hhash⟩, hknown⟩⟩
        rw [hsum, uncleWork, uncleWork, List.map_cons, List.sum_cons, ha, Option.map_some,
          Option.getD_some, htarget]
        exact Nat.add_assoc _ _ _

/-- A block that passes the first check claims honest work. -/
theorem Recorded.honestWork (hr : Recorded config hist c) (hd : Distinct hist)
    (hunchecked : (b.verified.parents || c.config.bypassChecks.parents) = false)
    (hcomplete : c.Complete b) (h : c.verifyPowAndParents b = .ok true) : HonestWork hist b := by
  rw [verifyPowAndParents, if_neg (by rw [hunchecked]; simp)] at h
  by_cases htarget : b.targetDifficulty < 1
  · rw [if_pos htarget] at h
    cases h
  rw [if_neg htarget] at h
  cases hwork : c.addUncleWork b.uncles b.targetDifficulty with
  | error fault => simp [hwork] at h
  | ok sum =>
    cases sum with
    | none => simp [hwork] at h
    | some sum =>
      obtain ⟨hsum, hknown⟩ := hr.addUncleWork hd hwork
      simp only [hwork] at h
      by_cases hheight : b.height = 0
      · rw [if_pos hheight, compareWork] at h
        split_ifs at h with htotal
        refine ⟨hknown, fun hne => absurd hheight hne, ?_⟩
        rw [htotal, hsum, P2Chain.parentIn, if_pos hheight]
        rfl
      · rw [if_neg hheight] at h
        obtain ⟨⟨p, hp⟩, -⟩ := hcomplete hheight
        obtain ⟨q, hq, hgrows⟩ := hr.parentIn hd (Grows.refl b) hp
        rw [parentOf, if_neg hheight] at hp
        rw [hr.agree.getBlockAtHeight_of_storedBlock hp] at h
        simp only at h
        split_ifs at h with hfits
        rw [compareWork] at h
        split_ifs at h with htotal
        refine ⟨hknown, fun _ => ⟨q, hq⟩, ?_⟩
        rw [htotal, hsum, hq, hgrows.totalPow_eq]
        rfl

theorem Checked.honestWork (hr : Recorded config hist c) (hd : Distinct hist)
    (hbypass : config.bypassChecks.parents = false) (hwork : WorkHonest hist c)
    (hv : Checked core c height hash b b₁ c₁) (hflag : b₁.verified.parents = true) :
    HonestWork hist b₁ := by
  refine HonestWork.congr hv.withoutStatus_eq ?_
  by_cases hbefore : b.verified.parents = true
  · exact hwork height hash b hv.stored hbefore
  rcases hv.written with ⟨-, rfl, -⟩ | ⟨-, v, hchecks, rfl, -⟩
  · exact absurd hflag hbefore
  · have hunchecked : (b.verified.parents || c.config.bypassChecks.parents) = false := by
      rw [hr.config_eq, hbypass, Bool.or_false]
      simpa using hbefore
    refine hr.honestWork hd hunchecked (hv.isComplete hr.agree) ?_
    simp only [runChecks, bind, Except.bind, pure, Except.pure] at hchecks
    cases hpow : c.verifyPowAndParents b with
    | error fault => simp [hpow] at hchecks
    | ok parents =>
      simp only [hpow] at hchecks
      repeat' split at hchecks
      all_goals first
        | (cases hchecks; done)
        | cases hchecks
      simp only [Bool.or_eq_true] at hflag
      rw [hflag.resolve_left hbefore]

theorem WorkHonest.writes (hr : Recorded config hist c) (hfresh : ∀ a ∈ hist, a.hash ≠ b.hash)
    (hlacks : b.verified.parents = false) (hwork : WorkHonest hist c) (hw : Writes c b c₀) :
    WorkHonest (b :: hist) c₀ := by
  intro height hash x hx hflag
  rw [hw.storedBlock hr.agree (hr.unused hfresh)] at hx
  split_ifs at hx
  · cases hx
    rw [hlacks] at hflag
    cases hflag
  · exact (hwork height hash x hx hflag).cons hfresh

theorem WorkHonest.outcome (hr : Recorded config hist c) (hd : Distinct hist)
    (hbypass : config.bypassChecks.parents = false) (hwork : WorkHonest hist c)
    {r : EStateM.Result Fault P2Chain (ChainAddResult × List (Nat × FixedHash))}
    (ho : Outcome core ord n height hash c r) (hreturns : Returns r) : WorkHonest hist r.state := by
  intro height' hash' x hx hflag
  rcases checked_or_stored_of_outcome hr.agree ho hreturns hx with hstored | ⟨b, c₁, hchecked⟩
  · exact hwork height' hash' x hstored hflag
  · exact hchecked.honestWork hr hd hbypass hwork hflag

theorem Run.workHonest (hrun : Run core config LacksParents hist c)
    (hbypass : config.bypassChecks.parents = false) : WorkHonest hist c := by
  induction hrun with
  | empty =>
    intro height hash b hb
    simp at hb
  | refused _ _ ih => exact ih
  | @added hist c ord b hrun hnonzero hfresh hallowed hstep hreturns ih =>
    have hd : Distinct (b :: hist) := (hrun.added hnonzero hfresh hallowed hstep hreturns).distinct
    have hr := hrun.recorded
    suffices hboth : Recorded config (b :: hist) (addBlockToChain core ord b c).state ∧
        WorkHonest (b :: hist) (addBlockToChain core ord b c).state from hboth.2
    refine addBlock_inv (I := fun c => Recorded config (b :: hist) c ∧ WorkHonest (b :: hist) c)
      hallowed hreturns (fun c₀ hw => ⟨hr.writes (hr.unused hfresh) hw, ih.writes hr hfresh hstep hw⟩)
      ?_
    intro w height hash rest _ _ hI hret
    have ho := outcome_verifyChainInner core ord w.numProcessed height hash hI.1.agree
    exact ⟨hI.1.outcome ho hret, hI.2.outcome hI.1 hd hbypass ho hret⟩
  | @generated hist c s ord template soloMine hrun _ ih =>
    obtain ⟨cached, heq⟩ := generate_state core s ord template soloMine c
    rw [heq]
    exact ih

/-! ### Along a path -/

/-- The stored parent of an honest block has the work that the block starts from. -/
theorem HonestWork.totalPow_eq (hr : Recorded config hist c) (hd : Distinct hist)
    (h : HonestWork hist b) (hp : c.parentOf b = some a) : b.totalPow = a.totalPow + ownWork hist b := by
  obtain ⟨q, hq, hgrows⟩ := hr.parentIn hd (Grows.refl b) hp
  rw [h.total, hq, hgrows.totalPow_eq]
  exact Nat.add_comm _ _

/-- Along verified blocks the work of an ancestor grows by what the blocks after it add. -/
theorem WorkHonest.totalPow_eq (hr : Recorded config hist c) (hd : Distinct hist)
    (hwork : WorkHonest hist c) (ht : c.storedBlock t.height t.hash = some t)
    (ha : c.ancestorOf i t = some a)
    (hverified : ∀ k < i, ∀ x, c.ancestorOf k t = some x → x.verified.isVerified = true) :
    t.totalPow = a.totalPow + ((lineage c.parentOf i t).map (ownWork hist)).sum := by
  induction i generalizing t with
  | zero =>
    cases ha
    rfl
  | succ i ih =>
    obtain ⟨p, hp, ha⟩ := Option.bind_eq_some_iff.mp ha
    have hflag : t.verified.parents = true := by
      have := hverified 0 (Nat.succ_pos i) t rfl
      simp only [VerifiedStatus.isVerified, Bool.and_eq_true] at this
      exact this.1.1.1.1
    have hrest := ih (stored_of_parentOf hr.agree hp) ha (fun k hk x hx =>
      hverified (k + 1) (Nat.succ_lt_succ hk) x (by rw [ancestorOf, ancestor_succ, hp]; exact hx))
    rw [(hwork _ _ t ht hflag).totalPow_eq hr hd hp, hrest, lineage_succ_of_some hp, List.map_cons,
      List.sum_cons, Nat.add_assoc, Nat.add_comm (List.sum _)]

/-- In a run whose blocks do not bring the flag of the first check along, every stored block with
the flag claims the work of its parent, its own and its uncles'; so the work of the tip is that of
any ancestor whose descendants on the path are verified, and what those add. -/
theorem accumulated_work_honest (hrun : Run core config LacksParents hist c)
    (hbypass : config.bypassChecks.parents = false) :
    (∀ height hash b, c.storedBlock height hash = some b → b.verified.parents = true →
      HonestWork hist b) ∧
      ∀ t a i, c.storedBlock c.currentTip c.tipHash = some t → c.ancestorOf i t = some a →
        (∀ k < i, ∀ x, c.ancestorOf k t = some x → x.verified.isVerified = true) →
        t.totalPow = a.totalPow + ((lineage c.parentOf i t).map (ownWork hist)).sum := by
  have hwork := hrun.workHonest hbypass
  have hr := hrun.recorded
  refine ⟨hwork, fun t a i ht ha hverified => ?_⟩
  refine hwork.totalPow_eq hr hrun.distinct ?_ ha hverified
  rw [hr.agree.height_of_storedBlock ht, hr.agree.hash_of_storedBlock ht]
  exact ht

theorem accumulated_work_honest_branch :
    (∀ height hash b, rejoinedChain.storedBlock height hash = some b → b.verified.parents = true →
      HonestWork (branchBlocks ++ [branchBlock]).reverse b) ∧
      ∀ t a i, rejoinedChain.storedBlock rejoinedChain.currentTip rejoinedChain.tipHash = some t →
        rejoinedChain.ancestorOf i t = some a →
        (∀ k < i, ∀ x, rejoinedChain.ancestorOf k t = some x → x.verified.isVerified = true) →
        t.totalPow = a.totalPow + ((lineage rejoinedChain.parentOf i t).map
          (ownWork (branchBlocks ++ [branchBlock]).reverse)).sum :=
  accumulated_work_honest
    (Run.of_blocks IterOrder.stored (fun _ _ b => !b.verified.parents)
      (fun _ _ _ h => by simpa [LacksParents] using h) (branchBlocks ++ [branchBlock]) (by decide)) rfl

end P2Chain

end ShaP2Pool
