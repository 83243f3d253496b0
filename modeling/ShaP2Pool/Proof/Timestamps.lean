import ShaP2Pool.Proof.Headers
import ShaP2Pool.Proof.Reachable
import ShaP2Pool.Proof.Template

/-!
# Template timestamps

A new block is measured against the median of the timestamps that end at its parent, the tip. The
generator asks for the median with the height and the parent of the tip itself, so its window ends
one block lower, and for a chain of one block there is none. The timestamp it chooses is then as
late as the rule wants only where the clock is past the median above the tip, or that median is not
above the one below it.
-/

namespace ShaP2Pool

namespace P2Chain

variable {core : TariCore} {ord : IterOrder} {config : ChainConfig} {c : P2Chain} {b : P2Block}
variable {s : InMemoryShareChain} {now timestamp median : EpochTime} {address : TariAddress}
variable {extra : List Nat} {tip : P2ChainLevel} {t : P2BlockHeader}

open InMemoryShareChain

def withoutBypass (c : P2Chain) : P2Chain :=
  { c with config := { c.config with bypassChecks := VerifiedStatus.new } }

/-- The check of the median timestamp, without a bypass, accepts the block whenever there is a
median to compare with. -/
def MeetsMedianRule (c : P2Chain) (b : P2Block) : Prop :=
  ∀ median, c.calculateMedianTimestampForBlock b.height b.prevHash = .ok median →
    c.withoutBypass.verifyMedianTimestampForBlock b = .ok true

theorem ancestorTimestamps_withoutBypass (c : P2Chain) (steps : Nat) (x : P2BlockHeader) :
    c.withoutBypass.ancestorTimestamps steps x = c.ancestorTimestamps steps x := by
  induction steps generalizing x with
  | zero => rfl
  | succ steps ih =>
    rw [ancestorTimestamps, ancestorTimestamps]
    simp only [ih]
    rfl

theorem calculateMedianTimestampForBlock_withoutBypass (c : P2Chain) (height : Nat)
    (hash : FixedHash) : c.withoutBypass.calculateMedianTimestampForBlock height hash =
      c.calculateMedianTimestampForBlock height hash := by
  rw [calculateMedianTimestampForBlock, calculateMedianTimestampForBlock]
  simp only [ancestorTimestamps_withoutBypass]
  rfl

theorem meetsMedianRule_iff (hverified : b.verified = VerifiedStatus.new) (hheight : b.height ≠ 0) :
    MeetsMedianRule c b ↔ ∀ median,
      c.calculateMedianTimestampForBlock b.height b.prevHash = .ok median → median < b.timestamp := by
  refine forall_congr' fun median => forall_congr' fun hmedian => ?_
  rw [verifyMedianTimestampForBlock, calculateMedianTimestampForBlock_withoutBypass, hmedian, hverified,
    if_neg (by simp [withoutBypass, VerifiedStatus.new, hheight])]
  simp only
  split_ifs with hlater
  · exact iff_of_true rfl hlater
  · exact iff_of_false (fun h => by cases h) hlater

/-! ### The timestamp of a template -/

theorem lt_raised_iff {m k now : Nat} :
    (m < if now ≤ k then k + 1 else now) ↔ m < now ∨ m ≤ k := by
  split_ifs <;> omega

theorem raiseTimestamp_eq (h : raiseTimestamp median maxFutureBlockTime now = .ok timestamp) :
    timestamp = if now ≤ median then median + 1 else now := by
  rw [show maxFutureBlockTime = 538 + 2 from rfl, raiseTimestamp] at h
  split_ifs at h ⊢ with hearly hfits
  · rw [raiseTimestamp, if_neg (Nat.not_succ_le_self median)] at h
    exact (Except.ok.inj h).symm
  · exact (Except.ok.inj h).symm

theorem timestamp_of_build {builder : P2BlockBuilder} (h : builder.build core = .ok b) :
    b.timestamp = builder.block.timestamp := by
  rw [P2BlockBuilder.build] at h
  split_ifs at h
  · cases h
    rfl
  · split at h
    · cases h
    · cases h
      rfl

theorem timestamp_of_withUncles {builder builder' : P2BlockBuilder} {uncles : List P2Block}
    (h : builder.withUncles uncles = .ok builder') :
    builder'.block.timestamp = builder.block.timestamp := by
  rw [P2BlockBuilder.withUncles] at h
  split at h
  · cases h
  · cases h
    rfl

theorem timestamp_of_generateNewTipBlock
    (hgen : s.generateNewTipBlock core ord now address extra c = .ok b) :
    templateTimestamp c now (c.getTip.bind (·.blockHeaderInMainChain)) = .ok b.timestamp := by
  unfold generateNewTipBlock at hgen
  generalize c.getTip.bind (·.blockHeaderInMainChain) = prevBlock at hgen ⊢
  simp only [bind, Except.bind] at hgen
  split at hgen
  · cases hgen
  · split at hgen
    · cases hgen
    · rename_i chosen htime
      rw [htime]
      split at hgen
      · cases hgen
      · rename_i builder huncles
        split at hgen
        · cases hgen
        · rename_i block hbuild
          cases hgen
          have hkept : b.timestamp = chosen :=
            (timestamp_of_build hbuild).trans (timestamp_of_withUncles huncles)
          rw [hkept]

theorem timestamp_cases (htime : templateTimestamp c now (some t) = .ok timestamp) :
    (∃ p, c.getBlockHeaderAtHeight (t.height - 1) t.prevHash = some p ∧
      PathStored medianTimestampWindow c p ∧
      timestamp = if now ≤ c.medianAbove p then c.medianAbove p + 1 else now) ∨
    ((¬∃ p, c.getBlockHeaderAtHeight (t.height - 1) t.prevHash = some p ∧
      PathStored medianTimestampWindow c p) ∧ timestamp = now) := by
  rw [templateTimestamp] at htime
  cases hmedian : c.calculateMedianTimestampForBlock t.height t.prevHash with
  | error e =>
    rw [hmedian] at htime
    refine Or.inr ⟨?_, (Except.ok.inj htime).symm⟩
    intro ⟨p, hp, hstored⟩
    rw [calculateMedianTimestampForBlock_eq_ok_iff.mpr ⟨p, hp, hstored, rfl⟩] at hmedian
    cases hmedian
  | ok median =>
    rw [hmedian] at htime
    obtain ⟨p, hp, hstored, rfl⟩ := calculateMedianTimestampForBlock_eq_ok_iff.mp hmedian
    exact Or.inl ⟨p, hp, hstored, raiseTimestamp_eq htime⟩

/-! ### The median rule -/

theorem Reachable.exists_tipHeader (hreach : Reachable core config c) (htip : c.getTip = some tip) :
    ∃ t, tip.blockHeaderInMainChain = some t ∧
      c.getBlockHeaderAtHeight c.currentTip t.hash = some t := by
  have hmark := chainBlock_of_getTip htip
  have hne := exists_getTip_iff.mp ⟨tip, htip⟩
  obtain ⟨t, ht⟩ := Option.isSome_iff_exists.mp (hreach.soundTip.listed c.currentTip hne)
  change c.getBlockHeaderAtHeight c.currentTip c.tipHash = some t at ht
  have hhash := hash_of_getBlockHeaderAtHeight ht
  refine ⟨t, ?_, by rw [hhash]; exact ht⟩
  rw [getBlockHeaderAtHeight, (getTip_eq_some_iff.mp htip).1, Option.bind_some, ← hmark] at ht
  exact ht

/-- A template on the tip meets the median rule if and only if the window of the tip is not stored,
or the clock is past its median, or the generator has seen a median that is not below it. -/
theorem template_meets_median_iff (hreach : Reachable core config c) (htip : c.getTip = some tip)
    (hgen : s.generateNewTipBlock core ord now address extra c = .ok b) :
    ∃ t, tip.blockHeaderInMainChain = some t ∧ (MeetsMedianRule c b ↔
      (PathStored medianTimestampWindow c t → c.medianAbove t < now ∨
        ∃ p, c.getBlockHeaderAtHeight (t.height - 1) t.prevHash = some p ∧
          PathStored medianTimestampWindow c p ∧ c.medianAbove t ≤ c.medianAbove p)) := by
  obtain ⟨t, ht, hstored⟩ := hreach.exists_tipHeader htip
  refine ⟨t, ht, ?_⟩
  have hprev : c.getTip.bind (·.blockHeaderInMainChain) = some t := by
    rw [htip, Option.bind_some, ht]
  obtain ⟨uncles, -, hverified, -, -, hheight, hprevHash, -⟩ := generateNewTipBlock_cases hprev hgen
  have htime := timestamp_of_generateNewTipBlock hgen
  rw [hprev] at htime
  simp only [Option.elim_some] at hheight hprevHash
  have htHeight := height_of_getBlockHeaderAtHeight hstored
  have hnext : b.height = t.height + 1 := by
    have hlow : c.currentTip + 3 ≤ u64Max := hreach.soundTip.low
    rw [hheight, saturatingAdd, htHeight]
    exact Nat.min_eq_left (by omega)
  rw [meetsMedianRule_iff hverified (by omega)]
  -- the median of the check ends at the tip
  have hmedian (median : EpochTime) :
      c.calculateMedianTimestampForBlock b.height b.prevHash = .ok median ↔
        PathStored medianTimestampWindow c t ∧ median = c.medianAbove t := by
    rw [calculateMedianTimestampForBlock_eq_ok_iff, hnext, Nat.add_sub_cancel, hprevHash, htHeight,
      hstored]
    simp
  have hrule : (∀ median, c.calculateMedianTimestampForBlock b.height b.prevHash = .ok median →
      median < b.timestamp) ↔
        (PathStored medianTimestampWindow c t → c.medianAbove t < b.timestamp) := by
    constructor
    · intro h hpath
      exact h _ ((hmedian _).mpr ⟨hpath, rfl⟩)
    · intro h median hok
      obtain ⟨hpath, rfl⟩ := (hmedian median).mp hok
      exact h hpath
  rw [hrule]
  refine forall_congr' fun _ => ?_
  obtain ⟨p, hp, hpath, heq⟩ | ⟨hnone, heq⟩ := timestamp_cases htime
  · rw [heq, lt_raised_iff, hp]
    simp [hpath]
  · rw [heq]
    exact ⟨Or.inl, fun h => h.resolve_right fun ⟨p, hp, hpath, _⟩ => hnone ⟨p, hp, hpath⟩⟩

/-- The template on the chain of three blocks. -/
theorem template_meets_median_iff_three : ∃ tip t b,
    sampleChain.getTip = some tip ∧ tip.blockHeaderInMainChain = some t ∧
      (MeetsMedianRule sampleChain b ↔
        (PathStored medianTimestampWindow sampleChain t → sampleChain.medianAbove t < 5 ∨
          ∃ p, sampleChain.getBlockHeaderAtHeight (t.height - 1) t.prevHash = some p ∧
            PathStored medianTimestampWindow sampleChain p ∧
            sampleChain.medianAbove t ≤ sampleChain.medianAbove p)) := by
  have htip : sampleChain.getTip = some (sampleChain.getTip.get (by decide)) :=
    (Option.some_get _).symm
  have hgen : (sampleShareChain 10).generateNewTipBlock sampleCore .stored 5 ⟨0, 0⟩ [] sampleChain =
      .ok { sampleBlock 4001 3 3 4 with squad := "", timestamp := 5 } := by rfl
  obtain ⟨t, ht, hiff⟩ := template_meets_median_iff run_sampleChain.reachable htip hgen
  exact ⟨_, t, _, htip, ht, hiff⟩

def aheadBlock : P2Block := { sampleBlock 1 0 0 1 with timestamp := 200 }

def aheadChain : P2Chain := addAll sampleCore .stored [aheadBlock] (newEmpty (sampleConfig 10))

def aheadTemplate : P2Block := { sampleBlock 2001 1 1 2 with squad := "", timestamp := 100 }

/-- The template on a block of height 0 that is ahead of the clock breaks the rule. -/
theorem template_breaks_median : ∃ c tip t b, Reachable sampleCore (sampleConfig 10) c ∧
    c.getTip = some tip ∧ tip.blockHeaderInMainChain = some t ∧ t.height = 0 ∧
    t.timestamp ≤ 100 + maxFutureBlockTime ∧
    (sampleShareChain 10).generateNewTipBlock sampleCore .stored 100 ⟨0, 0⟩ [] c = .ok b ∧
    c.calculateMedianTimestampForBlock b.height b.prevHash = .ok 200 ∧ b.timestamp = 100 ∧
    ¬MeetsMedianRule c b := by
  have hrun : Run sampleCore (sampleConfig 10) Unrestricted [aheadBlock] aheadChain :=
    Run.of_blocks IterOrder.stored (fun _ _ _ => true) (fun _ _ _ _ => trivial) [aheadBlock] (by decide)
  have htip : aheadChain.getTip = some (aheadChain.getTip.get (by decide)) := (Option.some_get _).symm
  have hheader : (aheadChain.getTip.get (by decide)).blockHeaderInMainChain =
      some ((aheadChain.getTip.get (by decide)).blockHeaderInMainChain.get (by decide)) :=
    (Option.some_get _).symm
  have hmedian : aheadChain.calculateMedianTimestampForBlock 1 1 = .ok 200 := by rfl
  refine ⟨aheadChain, _, _, aheadTemplate, hrun.reachable, htip, hheader, by decide, by decide, by rfl,
    hmedian, rfl, ?_⟩
  intro hmeets
  have hlater := (meetsMedianRule_iff rfl (by decide)).mp hmeets 200 hmedian
  exact absurd hlater (by decide)

end P2Chain

end ShaP2Pool
