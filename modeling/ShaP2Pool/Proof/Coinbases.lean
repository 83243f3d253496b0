import ShaP2Pool.Library.Apportion
import ShaP2Pool.Proof.Run

/-!
# Coinbases

The share check goes through the outputs of a block once, with a running sum of shares and of paid
values. It tells what each output may be worth, but not that every miner has one output: an output
may stand in for another miner's by repeating a key.
-/

namespace ShaP2Pool

open Apportion

def spendKeyOf (output : TransactionOutput) : Option CompressedKey :=
  match output.script.head? with
  | some (.pushPubKey spendKey) => some spendKey
  | _ => none

/-- The sum of the coinbase values. -/
def blockReward (outputs : List TransactionOutput) : Nat :=
  (outputs.map (·.minimumValuePromise)).sum

/-- The sum of all share counts. -/
def totalShares (shares : MinerShares) : Nat := (shares.values.map (·.shareCount)).sum

def WithinTen (value numerator denominator : Nat) : Prop :=
  value * denominator ≤ numerator + 10 * denominator ∧
    numerator ≤ value * denominator + 10 * denominator

/-- The outputs split their sum by the shares: each miner has exactly one output, there are no other
outputs, and each differs from the miner's exact part by at most ten units. -/
structure ProRata (shares : MinerShares) (outputs : List TransactionOutput) : Prop where
  once : ∀ share ∈ shares.values,
    (outputs.map spendKeyOf).count (some share.miner.publicSpendKey) = 1
  only : ∀ output ∈ outputs, ∃ share ∈ shares.values,
    spendKeyOf output = some share.miner.publicSpendKey
  value : ∀ output ∈ outputs, ∀ share ∈ shares.values,
    spendKeyOf output = some share.miner.publicSpendKey →
    WithinTen output.minimumValuePromise (blockReward outputs * share.shareCount)
      (totalShares shares)

/-- No spend key is paid twice, and there are as many outputs as miners. -/
def OneOutputEach (shares : MinerShares) (outputs : List TransactionOutput) : Prop :=
  (outputs.map spendKeyOf).Nodup ∧ outputs.length = shares.size

namespace P2Chain

variable {core : TariCore} {config : ChainConfig} {c : P2Chain} {b : P2Block}
variable {shares : MinerShares} {outputs : List TransactionOutput} {total reward cur prev : Nat}

def countOf (shares : MinerShares) (output : TransactionOutput) : Nat :=
  (((spendKeyOf output).bind shares.find?).map (·.shareCount)).getD 0

theorem checkCoinbases_cons {output : TransactionOutput} {rest : List TransactionOutput}
    (h : checkCoinbases shares total reward (output :: rest) cur prev = .ok ()) :
    ∃ share value, (spendKeyOf output).bind shares.find? = some share ∧
      value = Nat.min ((cur + share.shareCount) * reward) u128Max / total - prev ∧
      value < output.minimumValuePromise + 10 ∧ output.minimumValuePromise < value + 10 ∧
      checkCoinbases shares total reward rest (cur + share.shareCount) (prev + value) = .ok () := by
  rw [checkCoinbases] at h
  cases hhead : output.script.head? with
  | none => simp [hhead] at h
  | some opcode =>
    cases opcode with
    | other code => simp [hhead] at h
    | pushPubKey spendKey =>
      have hkey : spendKeyOf output = some spendKey := by rw [spendKeyOf, hhead]
      simp only [hhead] at h
      cases hfind : shares.find? spendKey with
      | none => simp [hfind] at h
      | some share =>
        simp only [hfind] at h
        split_ifs at h with hfits hwrong hextra hwrong hextra
        · rw [not_or, Nat.not_le, Nat.not_le] at hwrong
          have hadd : saturatingAdd output.minimumValuePromise 10 ≤
              output.minimumValuePromise + 10 := Nat.min_le_left _ _
          exact ⟨share, _, by rw [hkey, Option.bind_some, hfind], rfl, by omega, by omega, h⟩
        · -- a value that does not fit is replaced by zero, which no output is compared with
          rw [not_or, Nat.not_le] at hwrong
          omega

theorem exists_share_of_checkCoinbases
    (h : checkCoinbases shares total reward outputs cur prev = .ok ()) :
    ∀ output ∈ outputs, ∃ share ∈ shares.values,
      spendKeyOf output = some share.miner.publicSpendKey := by
  induction outputs generalizing cur prev with
  | nil => simp
  | cons output rest ih =>
    obtain ⟨share, value, hfind, -, -, -, hrest⟩ := checkCoinbases_cons h
    obtain ⟨spendKey, hkey, hshare⟩ := Option.bind_eq_some_iff.mp hfind
    refine List.forall_mem_cons.mpr ⟨⟨share, KeyedMap.mem_values_of_find? hshare, ?_⟩, ih hrest⟩
    rw [hkey, KeyedMap.key_of_find? hshare]

/-- While the running sum stays within the total, each accepted output is within ten units of its
miner's part. -/
theorem value_of_checkCoinbases (htotal : 0 < total) (hfits : total * reward ≤ u128Max)
    (hroom : cur + (outputs.map (countOf shares)).sum ≤ total)
    (hprev : prev = part reward total cur)
    (h : checkCoinbases shares total reward outputs cur prev = .ok ()) :
    ∀ output ∈ outputs,
      WithinTen output.minimumValuePromise (reward * countOf shares output) total := by
  induction outputs generalizing cur prev with
  | nil => simp
  | cons output rest ih =>
    obtain ⟨share, value, hfind, hvalue, hbelow, habove, hrest⟩ := checkCoinbases_cons h
    have hcount : countOf shares output = share.shareCount := by rw [countOf, hfind]; rfl
    rw [List.map_cons, List.sum_cons, hcount] at hroom
    have hcur : cur + share.shareCount ≤ total := by omega
    have hmin : Nat.min ((cur + share.shareCount) * reward) u128Max =
        (cur + share.shareCount) * reward :=
      Nat.min_eq_left ((Nat.mul_le_mul_right reward hcur).trans hfits)
    rw [hmin, hprev] at hvalue
    change value = part reward total (cur + share.shareCount) - part reward total cur at hvalue
    have hmono : part reward total cur ≤ part reward total (cur + share.shareCount) :=
      part_mono (Nat.le_add_right cur share.shareCount)
    refine List.forall_mem_cons.mpr ⟨?_, ih (by omega) (by omega) hrest⟩
    have hupper : value * total ≤ reward * share.shareCount + total :=
      hvalue ▸ part_sub_mul_le htotal
    have hlower : reward * share.shareCount ≤ value * total + total :=
      hvalue ▸ le_part_sub_mul htotal
    have hle : output.minimumValuePromise * total ≤ (value + 9) * total :=
      Nat.mul_le_mul_right total (by omega)
    have hge : value * total ≤ (output.minimumValuePromise + 9) * total :=
      Nat.mul_le_mul_right total (by omega)
    rw [Nat.add_mul] at hle hge
    rw [hcount]
    constructor <;> omega

theorem sum_countOf_le (hnodup : (outputs.map spendKeyOf).Nodup) :
    (outputs.map (countOf shares)).sum ≤ totalShares shares := by
  let find (key : Option CompressedKey) : Option MinerShare := key.bind shares.find?
  have hfound : ((outputs.map spendKeyOf).filterMap find).Nodup := by
    refine List.Nodup.filterMap (fun key key' share hkey hkey' => ?_) hnodup
    obtain ⟨k, rfl, hk⟩ := Option.bind_eq_some_iff.mp hkey
    obtain ⟨k', rfl, hk'⟩ := Option.bind_eq_some_iff.mp hkey'
    rw [← KeyedMap.key_of_find? hk, ← KeyedMap.key_of_find? hk']
  have hsubset : (outputs.map spendKeyOf).filterMap find ⊆ shares.values := by
    intro share hshare
    obtain ⟨key, -, hkey⟩ := List.mem_filterMap.mp hshare
    obtain ⟨k, -, hk⟩ := Option.bind_eq_some_iff.mp hkey
    exact KeyedMap.mem_values_of_find? hk
  obtain ⟨sub, hperm, hsub⟩ := List.subperm_of_subset hfound hsubset
  have hsum : (outputs.map (countOf shares)).sum =
      (((outputs.map spendKeyOf).filterMap find).map (·.shareCount)).sum := by
    clear hnodup hfound hsubset hperm hsub
    induction outputs with
    | nil => rfl
    | cons output rest ih =>
      rw [List.map_cons, List.sum_cons, List.map_cons, List.filterMap_cons, ih, countOf]
      change ((find (spendKeyOf output)).map (·.shareCount)).getD 0 + _ = _
      cases find (spendKeyOf output) with
      | none => exact Nat.zero_add _
      | some share => rfl
  rw [hsum, ← (hperm.map (·.shareCount)).sum_eq]
  exact List.Sublist.sum_le_sum (hsub.map _) (fun _ _ => Nat.zero_le _)

/-- The share check answers for the pro-rata split of exactly those outputs that pay no key twice
and are as many as the miners. -/
theorem proRata_iff_of_checkCoinbases (htotal : 0 < totalShares shares)
    (hfits : totalShares shares * blockReward outputs ≤ u128Max)
    (h : checkCoinbases shares (totalShares shares) (blockReward outputs) outputs 0 0 = .ok ()) :
    ProRata shares outputs ↔ OneOutputEach shares outputs := by
  have honly := exists_share_of_checkCoinbases h
  have hkeys : (shares.values.map fun share => some share.miner.publicSpendKey).Nodup := by
    have := shares.nodup.map (Option.some_injective _)
    rwa [List.map_map] at this
  have hsubset : outputs.map spendKeyOf ⊆
      shares.values.map fun share => some share.miner.publicSpendKey := by
    intro key hkey
    obtain ⟨output, houtput, rfl⟩ := List.mem_map.mp hkey
    obtain ⟨share, hshare, heq⟩ := honly output houtput
    exact List.mem_map.mpr ⟨share, hshare, heq.symm⟩
  constructor
  · intro hsplit
    have hnodup : (outputs.map spendKeyOf).Nodup := by
      rw [List.nodup_iff_count_le_one]
      intro key
      by_cases hmem : key ∈ outputs.map spendKeyOf
      · obtain ⟨share, hshare, rfl⟩ := List.mem_map.mp (hsubset hmem)
        exact (hsplit.once share hshare).le
      · rw [List.count_eq_zero_of_not_mem hmem]
        exact Nat.zero_le 1
    refine ⟨hnodup, ?_⟩
    have hperm : (outputs.map spendKeyOf).Perm
        (shares.values.map fun share => some share.miner.publicSpendKey) := by
      rw [List.perm_ext_iff_of_nodup hnodup hkeys]
      intro key
      refine ⟨fun hkey => hsubset hkey, fun hkey => ?_⟩
      obtain ⟨share, hshare, rfl⟩ := List.mem_map.mp hkey
      rw [← List.count_pos_iff, hsplit.once share hshare]
      exact Nat.one_pos
    have hlength := hperm.length_eq
    rwa [List.length_map, List.length_map] at hlength
  · intro ⟨hnodup, hlength⟩
    have hperm : (outputs.map spendKeyOf).Perm
        (shares.values.map fun share => some share.miner.publicSpendKey) := by
      refine (List.subperm_of_subset hnodup hsubset).perm_of_length_le ?_
      rw [List.length_map, List.length_map, hlength]
      exact le_rfl
    have hvalues := value_of_checkCoinbases htotal hfits
      (by rw [Nat.zero_add]; exact sum_countOf_le hnodup) part_zero.symm h
    refine ⟨fun share hshare => ?_, honly, fun output houtput share hshare hkey => ?_⟩
    · rw [hperm.count_eq]
      exact List.count_eq_one_of_mem hkeys (List.mem_map.mpr ⟨share, hshare, rfl⟩)
    · have hcount : countOf shares output = share.shareCount := by
        rw [countOf, hkey, Option.bind_some, KeyedMap.find?_of_mem_values hshare]
        rfl
      have hvalue := hvalues output houtput
      rwa [hcount] at hvalue

theorem totalShares_pos {before : MinerShares}
    (h : c.insertUncleShares b.uncles (insertOwnShare b before) = some shares) :
    0 < totalShares shares := by
  have hown : ∃ share ∈ (insertOwnShare b before).values, 0 < share.shareCount :=
    ⟨_, KeyedMap.mem_values_insert.mpr (Or.inl rfl), show 0 < mainRewardShare from by decide⟩
  have hkept : ∃ share ∈ shares.values, 0 < share.shareCount := by
    generalize insertOwnShare b before = start at h hown
    generalize b.uncles = uncles at h
    induction uncles generalizing start with
    | nil =>
      cases h
      exact hown
    | cons uncle rest ih =>
      obtain ⟨height, hash⟩ := uncle
      rw [insertUncleShares] at h
      cases hfind : c.getBlockAtHeight height hash with
      | none => simp [hfind] at h
      | some u =>
        simp only [hfind] at h
        exact ih _ ⟨_, KeyedMap.mem_values_insert.mpr (Or.inl rfl),
          show 0 < uncleRewardShare from by decide⟩ h
  obtain ⟨share, hshare, hpos⟩ := hkept
  exact Nat.lt_of_lt_of_le hpos (List.le_sum_of_mem (List.mem_map.mpr ⟨share, hshare, rfl⟩))

/-- Where nothing is bypassed, the share check passes the blocks whose shares are known and whose
coinbases pass. -/
theorem verifySharesForBlock_iff
    (hunchecked : (b.verified.correctShares || c.config.bypassChecks.correctShares) = false)
    (hheight : b.height ≠ 0) : c.verifySharesForBlock b = .ok true ↔
      b.coinbases ≠ [] ∧ ∃ before shares, c.sharesBefore b = .ok before ∧
        c.insertUncleShares b.uncles (insertOwnShare b before) = some shares ∧
        checkCoinbases shares (totalShares shares) (blockReward b.coinbases) b.coinbases 0 0 =
          .ok () := by
  rw [verifySharesForBlock, if_neg (by simp [hunchecked, hheight])]
  cases hbefore : c.sharesBefore b with
  | error fault => cases fault <;> simp
  | ok before =>
    cases hshares : c.insertUncleShares b.uncles (insertOwnShare b before) with
    | none => simp [hshares]
    | some shares =>
      by_cases hempty : b.coinbases = []
      · simp [hshares, hempty]
      · simp only [hshares]
        rw [if_neg (by simpa using hempty)]
        cases hcheck : checkCoinbases shares (totalShares shares) (blockReward b.coinbases)
            b.coinbases 0 0 <;> rw [totalShares, blockReward] at hcheck <;>
          simp [hcheck, hempty, hshares, totalShares, blockReward]

/-- A block above height 0 that passes the share check without a bypass is split pro rata exactly if
no spend key is paid twice and there are as many outputs as miners. -/
theorem coinbases_split_iff
    (hchecked : (b.verified.correctShares || c.config.bypassChecks.correctShares) = false)
    (hheight : b.height ≠ 0) (hverified : c.verifySharesForBlock b = .ok true) :
    ∃ before shares, c.sharesBefore b = .ok before ∧
      c.insertUncleShares b.uncles (insertOwnShare b before) = some shares ∧
      (totalShares shares * blockReward b.coinbases ≤ u128Max →
        (ProRata shares b.coinbases ↔ OneOutputEach shares b.coinbases)) := by
  obtain ⟨-, before, shares, hbefore, hshares, hcheck⟩ :=
    (verifySharesForBlock_iff hchecked hheight).mp hverified
  exact ⟨before, shares, hbefore, hshares, fun hfits =>
    proRata_iff_of_checkCoinbases (totalShares_pos hshares) hfits hcheck⟩

def checkedConfig : ChainConfig :=
  { sampleConfig 10 with bypassChecks := { serverBypass with correctShares := false } }

def checkedChain : P2Chain :=
  addAll sampleCore .stored [sampleBlock 1 0 0 1] (newEmpty checkedConfig)

/-- A block of key 1 on it with two outputs of 50, the second to the given key. -/
def twoOutputs (key : CompressedKey) : P2Block :=
  { sampleBlock 2 1 1 2 with
    minerWalletAddress := ⟨1, 1⟩
    coinbases := [⟨50, [.pushPubKey 0], []⟩, ⟨50, [.pushPubKey key], []⟩] }

/-- Two outputs to one miner take the other's part, and the block passes the share check. -/
theorem coinbases_shifted : ∃ hist c b before shares,
    Run sampleCore checkedConfig Unrestricted hist c ∧ b.height ≠ 0 ∧
      (b.verified.correctShares || c.config.bypassChecks.correctShares) = false ∧
      c.verifySharesForBlock b = .ok true ∧ c.sharesBefore b = .ok before ∧
      c.insertUncleShares b.uncles (insertOwnShare b before) = some shares ∧
      shares.values.map (·.miner.publicSpendKey) = [1, 0] ∧
      b.coinbases.map spendKeyOf = [some 0, some 0] ∧ ¬ProRata shares b.coinbases := by
  refine ⟨[sampleBlock 1 0 0 1], checkedChain, twoOutputs 0, _, _,
    Run.of_blocks IterOrder.stored (fun _ _ _ => true) (fun _ _ _ _ => trivial)
      [sampleBlock 1 0 0 1] (by decide), by decide, by decide, by decide, rfl,
    (Option.some_get (by decide)).symm, by decide, by decide, fun hsplit => ?_⟩
  have hpaid := hsplit.once _ List.mem_cons_self
  exact absurd hpaid (by decide)

/-- One output each. -/
theorem coinbases_split_two : ∃ before shares, checkedChain.sharesBefore (twoOutputs 1) = .ok before ∧
    checkedChain.insertUncleShares (twoOutputs 1).uncles (insertOwnShare (twoOutputs 1) before) =
      some shares ∧
    (totalShares shares * blockReward (twoOutputs 1).coinbases ≤ u128Max →
      (ProRata shares (twoOutputs 1).coinbases ↔ OneOutputEach shares (twoOutputs 1).coinbases)) :=
  coinbases_split_iff (by decide) (by decide) (by decide)

end P2Chain

end ShaP2Pool
