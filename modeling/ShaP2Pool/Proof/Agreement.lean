import ShaP2Pool.Proof.Coinbases
import ShaP2Pool.Proof.Payout
import ShaP2Pool.Proof.Template

/-!
# The payout list and the share check

The service tells the base node which shares to pay, and later checks the coinbases that the base
node has built. The two sides round in different orders. Every miner gets at least one unit, and two
orders differ by at most two units, so the tolerance of the check takes in all of them. The check
also turns down every value that reaches the largest amount there is.
-/

namespace ShaP2Pool

open Apportion Tally Lineage

namespace P2Chain

/-- The sum of the share values of a payout list. -/
def totalValue (entries : List NewBlockCoinbase) : Nat := (entries.map (·.value)).sum

/-- The base node goes through the entries and pays each the difference of two rounded parts of the
reward, that of the shares up to and with it and that of the shares before it. -/
inductive PaidInTurn (reward total : Nat) :
    Nat → List NewBlockCoinbase → List TransactionOutput → Prop
  | nil {before : Nat} : PaidInTurn reward total before [] []
  | cons {before : Nat} {entry : NewBlockCoinbase} {output : TransactionOutput}
    {entries : List NewBlockCoinbase} {outputs : List TransactionOutput}
    (hkey : spendKeyOf output = some entry.address.publicSpendKey)
    (hextra : output.coinbaseExtra = entry.coinbaseExtra)
    (hvalue : output.minimumValuePromise =
      part reward total (before + entry.value) - part reward total before)
    (hrest : PaidInTurn reward total (before + entry.value) entries outputs) :
    PaidInTurn reward total before (entry :: entries) (output :: outputs)

/-- The coinbases that a base node builds from a payout list: it takes the entries in an order of
its own, and the block has the outputs in any order. -/
def BuiltFrom (entries : List NewBlockCoinbase) (reward : Nat) (outputs : List TransactionOutput) :
    Prop :=
  ∃ order built, order.Perm entries ∧ built.Perm outputs ∧
    PaidInTurn reward (totalValue entries) 0 order built

variable {core : TariCore} {config : ChainConfig} {ord : IterOrder} {c c' : P2Chain} {b t : P2Block}
variable {hist : List P2Block} {shares : MinerShares} {entries order : List NewBlockCoinbase}
variable {outputs built : List TransactionOutput} {total reward before cur : Nat}

/-! ### One pass of the check -/

/-- An output that pays a share of the map its part of the reward, after some other shares. -/
structure Dealt (shares : MinerShares) (reward total : Nat) (output : TransactionOutput) : Prop where
  known : ∃ share, (spendKeyOf output).bind shares.find? = some share ∧
    output.coinbaseExtra = share.coinbaseExtra
  pos : 0 < countOf shares output
  value : ∃ before, output.minimumValuePromise =
    part reward total (before + countOf shares output) - part reward total before

/-- The check accepts such an output unless it expects the largest amount. -/
theorem checkCoinbases_cons_iff {output : TransactionOutput} {rest : List TransactionOutput}
    (htotal : 0 < total) (hamount : total ≤ reward) (hreward : reward ≤ u64Max)
    (hdealt : Dealt shares reward total output) (hroom : cur + countOf shares output ≤ total) :
    checkCoinbases shares total reward (output :: rest) cur (part reward total cur) = .ok () ↔
      ¬(reward = u64Max ∧ countOf shares output = total) ∧
        checkCoinbases shares total reward rest (cur + countOf shares output)
          (part reward total (cur + countOf shares output)) = .ok () := by
  obtain ⟨⟨share, hfind, hextra⟩, hpos, before, hpaid⟩ := hdealt
  obtain ⟨spendKey, hkey, hshare⟩ := Option.bind_eq_some_iff.mp hfind
  have hcount : countOf shares output = share.shareCount := by rw [countOf, hfind]; rfl
  rw [hcount] at hpos hpaid hroom ⊢
  have hhead : output.script.head? = some (.pushPubKey spendKey) := by
    rw [spendKeyOf] at hkey
    split at hkey
    · next opcode => rwa [Option.some.inj hkey] at opcode
    · cases hkey
  have hfits : (cur + share.shareCount) * reward ≤ u128Max :=
    (Nat.mul_le_mul (hroom.trans (hamount.trans hreward)) hreward).trans (by decide)
  -- the value the check expects
  obtain ⟨value, hvalue⟩ : ∃ value,
      value = part reward total (cur + share.shareCount) - part reward total cur := ⟨_, rfl⟩
  have hmono : part reward total cur ≤ part reward total (cur + share.shareCount) :=
    part_mono (Nat.le_add_right _ _)
  have hleft := part_sub_add_le htotal hamount hroom
  have hown : share.shareCount ≤ value := hvalue ▸ le_part_sub htotal hamount
  have habove : value ≤ output.minimumValuePromise + 2 :=
    hvalue ▸ hpaid ▸ part_sub_le_part_sub htotal
  have hbelow : output.minimumValuePromise ≤ value + 2 :=
    hvalue ▸ hpaid ▸ part_sub_le_part_sub htotal
  rw [← hvalue] at hleft
  have hlargest : value = u64Max ↔ reward = u64Max ∧ share.shareCount = total := by
    constructor
    · intro hmax
      exact ⟨by omega, by omega⟩
    · rintro ⟨hmax, hall⟩
      have hzero : cur = 0 := by omega
      rw [hvalue, hzero, part_zero, Nat.zero_add, hall, part_self htotal, Nat.sub_zero, hmax]
  rw [checkCoinbases]
  simp only [hhead, hshare]
  have hexpected : Nat.min ((cur + share.shareCount) * reward) u128Max / total -
      part reward total cur = value := by
    rw [show Nat.min ((cur + share.shareCount) * reward) u128Max =
      (cur + share.shareCount) * reward from Nat.min_eq_left hfits, hvalue, part, part]
  rw [hexpected, if_pos (show value ≤ u64Max by omega),
    show part reward total cur + value = part reward total (cur + share.shareCount) by omega,
    ← hlargest]
  have hwrong : (value ≤ output.minimumValuePromise - 10 ∨
      value ≥ saturatingAdd output.minimumValuePromise 10) ↔ value = u64Max := by
    have hmin : saturatingAdd output.minimumValuePromise 10 ≤ value ↔
        output.minimumValuePromise + 10 ≤ value ∨ u64Max ≤ value := min_le_iff
    omega
  by_cases hmax : value = u64Max
  · rw [if_pos (hwrong.mpr hmax)]
    simp [hmax]
  · rw [if_neg (mt hwrong.mp hmax), if_neg (not_not.mpr hextra.symm)]
    simp [hmax]

theorem checkCoinbases_iff (htotal : 0 < total) (hamount : total ≤ reward)
    (hreward : reward ≤ u64Max) (hdealt : ∀ output ∈ outputs, Dealt shares reward total output)
    (hroom : cur + (outputs.map (countOf shares)).sum ≤ total) :
    checkCoinbases shares total reward outputs cur (part reward total cur) = .ok () ↔
      ∀ output ∈ outputs, ¬(reward = u64Max ∧ countOf shares output = total) := by
  induction outputs generalizing cur with
  | nil => simp [checkCoinbases]
  | cons output rest ih =>
    rw [List.map_cons, List.sum_cons] at hroom
    obtain ⟨hfirst, hrest⟩ := List.forall_mem_cons.mp hdealt
    rw [checkCoinbases_cons_iff htotal hamount hreward hfirst (by omega),
      ih hrest (by omega), List.forall_mem_cons]

/-! ### The outputs of a base node -/

/-- The parts add up. -/
theorem PaidInTurn.sum (h : PaidInTurn reward total before order built) :
    part reward total before + blockReward built =
      part reward total (before + totalValue order) := by
  induction h with
  | nil => rfl
  | @cons before entry output entries outputs _ _ hvalue _ ih =>
    have hmono : part reward total before ≤ part reward total (before + entry.value) :=
      part_mono (Nat.le_add_right _ _)
    rw [blockReward] at ih
    rw [blockReward, List.map_cons, List.sum_cons, totalValue, List.map_cons, List.sum_cons,
      ← Nat.add_assoc before, ← totalValue, ← ih, hvalue]
    omega

theorem mem_coinbasesOf {entry : NewBlockCoinbase} (h : entry ∈ InMemoryShareChain.coinbasesOf ord shares) :
    ∃ share, shares.find? entry.address.publicSpendKey = some share ∧
      entry.value = share.shareCount ∧ entry.coinbaseExtra = share.coinbaseExtra := by
  rw [InMemoryShareChain.coinbasesOf, List.mem_map] at h
  obtain ⟨share, hshare, rfl⟩ := h
  rw [IterOrder.mem_run] at hshare
  exact ⟨share, KeyedMap.find?_of_mem_values hshare, rfl, rfl⟩

theorem totalValue_coinbasesOf (ord : IterOrder) (shares : MinerShares) :
    totalValue (InMemoryShareChain.coinbasesOf ord shares) = totalShares shares := by
  rw [totalValue, InMemoryShareChain.coinbasesOf, List.map_map]
  exact ((ord.perm 0 shares.values).map _).sum_eq

theorem PaidInTurn.dealt (h : PaidInTurn reward total before order built)
    (hpos : ∀ share ∈ shares.values, 0 < share.shareCount)
    (hentries : ∀ entry ∈ order, entry ∈ InMemoryShareChain.coinbasesOf ord shares) :
    (∀ output ∈ built, Dealt shares reward total output) ∧
      built.map (countOf shares) = order.map (·.value) := by
  induction h with
  | nil => exact ⟨by simp, rfl⟩
  | @cons before entry output entries outputs hkey hextra hvalue _ ih =>
    obtain ⟨hentry, hrest⟩ := List.forall_mem_cons.mp hentries
    obtain ⟨share, hfind, hcount, hsame⟩ := mem_coinbasesOf hentry
    obtain ⟨hdealt, hcounts⟩ := ih hrest
    have hbind : (spendKeyOf output).bind shares.find? = some share := by
      rw [hkey, Option.bind_some, hfind]
    have hcountOf : countOf shares output = entry.value := by
      rw [countOf, hbind, hcount]
      rfl
    refine ⟨List.forall_mem_cons.mpr ⟨?_, hdealt⟩, ?_⟩
    · refine ⟨⟨share, hbind, hextra.trans hsame⟩, ?_, before, ?_⟩
      · rw [hcountOf, hcount]
        exact hpos share (KeyedMap.mem_values_of_find? hfind)
      · rw [hcountOf, hvalue]
    · rw [List.map_cons, List.map_cons, hcountOf, hcounts]

/-- The coinbases a base node builds from the payout list of a map pass the check against the map,
unless one miner is paid the largest reward. -/
theorem checkCoinbases_built_iff (hpos : ∀ share ∈ shares.values, 0 < share.shareCount)
    (htotal : 0 < totalShares shares)
    (hamount : totalValue (InMemoryShareChain.coinbasesOf ord shares) ≤ reward)
    (hreward : reward ≤ u64Max)
    (hbuilt : BuiltFrom (InMemoryShareChain.coinbasesOf ord shares) reward outputs) :
    outputs ≠ [] ∧ (checkCoinbases shares (totalShares shares) (blockReward outputs) outputs 0 0 =
        .ok () ↔
      ¬(reward = u64Max ∧ (InMemoryShareChain.coinbasesOf ord shares).length = 1)) := by
  obtain ⟨order, built, horder, hperm, hpaid⟩ := hbuilt
  have hvalues : totalValue order = totalShares shares :=
    ((horder.map _).sum_eq).trans (totalValue_coinbasesOf ord shares)
  rw [totalValue_coinbasesOf] at hpaid hamount
  obtain ⟨hdealt, hcounts⟩ := hpaid.dealt hpos (fun entry hentry => horder.mem_iff.mp hentry)
  have hlengths : outputs.length = (InMemoryShareChain.coinbasesOf ord shares).length := by
    rw [← hperm.length_eq, ← horder.length_eq, ← List.length_map, hcounts, List.length_map]
  have hsum : (outputs.map (countOf shares)).sum = totalShares shares := by
    rw [← (hperm.map (countOf shares)).sum_eq, hcounts]
    exact hvalues
  have hall : blockReward outputs = reward := by
    have hparts := hpaid.sum
    rw [part_zero, Nat.zero_add, Nat.zero_add, hvalues, part_self htotal] at hparts
    rw [blockReward, ← (hperm.map (·.minimumValuePromise)).sum_eq]
    exact hparts
  have hnonempty : outputs ≠ [] := by
    rintro rfl
    rw [List.map_nil, List.sum_nil] at hsum
    omega
  have hchecked : checkCoinbases shares (totalShares shares) reward outputs 0
      (part reward (totalShares shares) 0) = .ok () ↔
        ∀ output ∈ outputs, ¬(reward = u64Max ∧ countOf shares output = totalShares shares) :=
    checkCoinbases_iff htotal hamount hreward
      (fun output houtput => hdealt output (hperm.mem_iff.mpr houtput)) (by omega)
  rw [part_zero] at hchecked
  refine ⟨hnonempty, ?_⟩
  rw [hall, hchecked, ← hlengths, ← List.length_map (f := countOf shares), ← exists_eq_sum_iff, hsum]
  · constructor
    · rintro h ⟨hmax, n, hn, heq⟩
      obtain ⟨output, houtput, rfl⟩ := List.mem_map.mp hn
      exact h output houtput ⟨hmax, heq⟩
    · rintro h output houtput ⟨hmax, heq⟩
      exact h ⟨hmax, _, List.mem_map.mpr ⟨output, houtput, rfl⟩, heq⟩
  · intro n hn
    obtain ⟨output, houtput, rfl⟩ := List.mem_map.mp hn
    exact (hdealt output (hperm.mem_iff.mpr houtput)).pos

/-! ### The shares both sides start from -/

def CachedNonempty (c : P2Chain) : Prop :=
  ∀ cached, c.cachedShares = some cached → cached.shares.size ≠ 0

theorem Counts.pos {credits : List (CompressedKey × Nat)} (h : Counts shares credits)
    (hcredits : ∀ credit ∈ credits, 0 < credit.2) :
    ∀ share ∈ shares.values, 0 < share.shareCount := by
  intro share hshare
  have hcount := h share.miner.publicSpendKey
  rw [KeyedMap.find?_of_mem_values hshare, Option.map_some] at hcount
  split_ifs at hcount with hkey
  rw [Option.some.inj hcount]
  exact (weight_pos_iff hcredits).mpr hkey

theorem Recorded.sharesBefore_pos (hr : Recorded config hist c) (hd : Distinct hist)
    (hI : CachedCounted config hist c) {before : MinerShares}
    (hbefore : c.sharesBefore b = .ok before) :
    ∀ share ∈ before.values, 0 < share.shareCount := by
  have hcalculated (h : c.getCalculateAndCacheHashmapOfShares (b.height - 1) b.prevHash =
      .ok before) : ∀ share ∈ before.values, 0 < share.shareCount := by
    obtain ⟨-, rfl⟩ | ⟨a, -, hcounted⟩ := hr.windowCounted hd h
    · simp
    · exact hcounted.counts.pos (windowCredits_pos _ _ _)
  rw [sharesBefore] at hbefore
  cases hcached : c.cachedShares with
  | none =>
    rw [hcached] at hbefore
    exact hcalculated hbefore
  | some cached =>
    simp only [hcached] at hbefore
    split_ifs at hbefore
    · rw [Except.ok.injEq] at hbefore
      subst hbefore
      intro share hshare
      have hsize : cached.shares.size ≠ 0 :=
        Nat.ne_of_gt (List.length_pos_of_mem hshare)
      obtain ⟨a, -, hcounted⟩ := hI cached hcached hsize
      exact hcounted.counts.pos (windowCredits_pos _ _ _) share hshare
    · exact hcalculated hbefore

theorem insertUncleShares_pos {uncles : List (Nat × FixedHash)} {start : MinerShares}
    (h : c.insertUncleShares uncles start = some shares)
    (hstart : ∀ share ∈ start.values, 0 < share.shareCount) :
    ∀ share ∈ shares.values, 0 < share.shareCount := by
  induction uncles generalizing start with
  | nil =>
    cases h
    exact hstart
  | cons uncle rest ih =>
    obtain ⟨height, hash⟩ := uncle
    rw [insertUncleShares] at h
    cases hfind : c.getBlockAtHeight height hash with
    | none => simp [hfind] at h
    | some u =>
      simp only [hfind] at h
      refine ih h (fun share hshare => ?_)
      obtain rfl | ⟨hshare, -⟩ := KeyedMap.mem_values_insert.mp hshare
      · exact show 0 < uncleRewardShare by decide
      · exact hstart share hshare

theorem countUncles_withCachedShares (cached : Option CachedShares)
    (uncles : List (Nat × FixedHash)) (shares : MinerShares) :
    ({ c with cachedShares := cached } : P2Chain).countUncles uncles shares =
      c.countUncles uncles shares := by
  induction uncles generalizing shares with
  | nil => rfl
  | cons uncle rest ih =>
    rw [countUncles, countUncles]
    have hheader : ({ c with cachedShares := cached } : P2Chain).getBlockHeaderAtHeight uncle.1 uncle.2 =
        c.getBlockHeaderAtHeight uncle.1 uncle.2 := rfl
    rw [hheader]
    cases c.getBlockHeaderAtHeight uncle.1 uncle.2 with
    | none => rfl
    | some u => exact ih _

theorem countAncestors_withCachedShares (cached : Option CachedShares) (steps : Nat)
    (block : P2BlockHeader) (shares : MinerShares) :
    ({ c with cachedShares := cached } : P2Chain).countAncestors steps block shares =
      c.countAncestors steps block shares := by
  induction steps generalizing block shares with
  | zero => rfl
  | succ steps ih =>
    rw [countAncestors, countAncestors]
    have hheader : ({ c with cachedShares := cached } : P2Chain).getBlockHeaderAtHeight
        (block.height - 1) block.prevHash =
        c.getBlockHeaderAtHeight (block.height - 1) block.prevHash := rfl
    rw [hheader]
    cases c.getBlockHeaderAtHeight (block.height - 1) block.prevHash with
    | none => rfl
    | some parent => simp only [countBlock, countUncles_withCachedShares, ih]

theorem calculate_withCachedShares (cached : Option CachedShares) (height : Nat) (hash : FixedHash) :
    ({ c with cachedShares := cached } : P2Chain).getCalculateAndCacheHashmapOfShares height hash =
      c.getCalculateAndCacheHashmapOfShares height hash := by
  rw [getCalculateAndCacheHashmapOfShares, getCalculateAndCacheHashmapOfShares]
  simp only [countBlock, countUncles_withCachedShares, countAncestors_withCachedShares]
  rfl

theorem insertUncleShares_withCachedShares (cached : Option CachedShares)
    (uncles : List (Nat × FixedHash)) (shares : MinerShares) :
    ({ c with cachedShares := cached } : P2Chain).insertUncleShares uncles shares =
      c.insertUncleShares uncles shares := by
  induction uncles generalizing shares with
  | nil => rfl
  | cons uncle rest ih =>
    rw [insertUncleShares, insertUncleShares]
    have hblock : ({ c with cachedShares := cached } : P2Chain).getBlockAtHeight uncle.1 uncle.2 =
        c.getBlockAtHeight uncle.1 uncle.2 := rfl
    rw [hblock]
    cases c.getBlockAtHeight uncle.1 uncle.2 with
    | none => rfl
    | some u => exact ih _

/-- On the tip, a template starts from the shares that its check starts from, whether the check
comes before or after. -/
theorem sharesBefore_of_sharesForTemplate (hcached : CachedNonempty c) {tip : P2ChainLevel}
    (htip : c.getTip = some tip) (hprev : b.prevHash = tip.chainBlock) {before : MinerShares}
    (h : InMemoryShareChain.sharesForTemplate b c = .ok before c') :
    c.sharesBefore b = .ok before ∧ c'.sharesBefore b = .ok before := by
  rw [InMemoryShareChain.sharesForTemplate] at h
  simp only [EStateM.bind_apply, EStateM.get_apply, EStateM.set_apply] at h
  cases hfilter : c.cachedShares.filter fun cached => b.prevHash = cached.atHash with
  | some cached =>
    obtain ⟨hsome, hat⟩ := Option.filter_eq_some_iff.mp hfilter
    have hat := of_decide_eq_true hat
    rw [hfilter] at h
    simp only [Option.map_some, Option.getD_some] at h
    rw [if_neg (hcached cached hsome)] at h
    cases h
    constructor
    · rw [sharesBefore, hsome]
      exact if_pos hat
    · exact if_pos hat
  | none =>
    have hbefore : c.sharesBefore b =
        c.getCalculateAndCacheHashmapOfShares (b.height - 1) b.prevHash := by
      rw [sharesBefore]
      cases hsome : c.cachedShares with
      | none => rfl
      | some cached =>
        rw [hsome, Option.filter_eq_none_iff] at hfilter
        exact if_neg (fun hat => hfilter cached rfl (decide_eq_true hat))
    have hnone : (((none : Option CachedShares).map (·.shares)).getD KeyedMap.empty).size = 0 := rfl
    rw [hfilter, if_pos hnone, InMemoryShareChain.calculateAndCacheHashmapShares] at h
    simp only [EStateM.bind_apply, EStateM.get_apply] at h
    have htip' : ({ c with cachedShares := none } : P2Chain).getTip = some tip := htip
    rw [htip'] at h
    simp only [EStateM.bind_apply, calculate_withCachedShares] at h
    cases hshares : c.getCalculateAndCacheHashmapOfShares (b.height - 1) b.prevHash with
    | error fault =>
      rw [hshares] at h
      cases h
    | ok counted =>
      simp only [hshares, EStateM.ofExcept_ok, if_pos hprev.symm] at h
      cases h
      refine ⟨hbefore.trans hshares, ?_⟩
      exact if_pos hprev

/-! ### Runs of the service -/

def StandsOn (hist : List P2Block) (t : P2Block) : Prop :=
  t.prevHash = FixedHash.zero ∨
    ∃ x ∈ hist, x.hash = t.prevHash ∧ t.height = saturatingAdd x.height 1

/-- A template starts the chain or stands on the block at the tip, and carries no mark of a
check. -/
theorem generateNewTipBlock_place (hr : Recorded config hist c) {s : InMemoryShareChain}
    {now : EpochTime} {address : TariAddress} {extra : List Nat}
    (hgen : s.generateNewTipBlock core ord now address extra c = .ok t) :
    t.verified = VerifiedStatus.new ∧ ((t.height = 0 ∧ t.prevHash = FixedHash.zero) ∨
      ∃ tip x, c.getTip = some tip ∧ t.prevHash = tip.chainBlock ∧
        c.storedBlock tip.height tip.chainBlock = some x ∧ t.height = saturatingAdd x.height 1) := by
  cases htip : c.getTip with
  | none =>
    obtain ⟨uncles, -, hverified, -, -, hheight, hprev, -⟩ := generateNewTipBlock_cases
      (show c.getTip.bind (·.blockHeaderInMainChain) = none by rw [htip, Option.bind_none]) hgen
    exact ⟨hverified, Or.inl ⟨hheight, hprev⟩⟩
  | some tip =>
    obtain ⟨x, hx, hprevBlock⟩ := hr.exists_tipHeader htip
    rw [← chainBlock_of_getTip htip, ← height_of_getTip htip] at hx
    obtain ⟨uncles, -, hverified, -, -, hheight, hprev, -⟩ :=
      generateNewTipBlock_cases hprevBlock hgen
    exact ⟨hverified, Or.inr ⟨tip, x, rfl, hprev.trans (hr.agree.hash_of_storedBlock hx), hx, hheight⟩⟩

/-- The runs of a service that asks for payout lists of its own templates only, made on the chain of
the moment or on an earlier one. As in `Run`, no two blocks that are added share a hash, which is
not zero. -/
inductive MiningRun (core : TariCore) (config : ChainConfig) : List P2Block → P2Chain → Prop
  | empty : MiningRun core config [] (newEmpty config)
  | refused {hist : List P2Block} {c : P2Chain} {b : P2Block} (hrun : MiningRun core config hist c)
    (hrefused : ParentIsUncle b) : MiningRun core config hist c
  | added {hist : List P2Block} {c : P2Chain} {ord : IterOrder} {b : P2Block}
    (hrun : MiningRun core config hist c) (hnonzero : b.hash ≠ FixedHash.zero)
    (hfresh : ∀ a ∈ hist, a.hash ≠ b.hash) (hallowed : ¬ParentIsUncle b)
    (hreturns : Returns (addBlockToChain core ord b c)) :
    MiningRun core config (b :: hist) (addBlockToChain core ord b c).state
  | generated {hist before : List P2Block} {c earlier : P2Chain} {s : InMemoryShareChain}
    {ord ord' : IterOrder} {now : EpochTime} {address : TariAddress} {extra : List Nat}
    {template : P2Block} {soloMine : Bool} (hrun : MiningRun core config hist c)
    (hearlier : MiningRun core config before earlier) (hsuffix : before <:+ hist)
    (hgen : s.generateNewTipBlock core ord' now address extra earlier = .ok template)
    (hreturns : Returns (s.generateSharesAndGetTargetDifficulty core ord template soloMine c)) :
    MiningRun core config hist
      (s.generateSharesAndGetTargetDifficulty core ord template soloMine c).state

theorem MiningRun.run (hrun : MiningRun core config hist c) :
    Run core config Unrestricted hist c := by
  induction hrun with
  | empty => exact Run.empty
  | refused _ hrefused ih => exact ih.refused hrefused
  | added _ hnonzero hfresh hallowed hreturns ih =>
    exact ih.added hnonzero hfresh hallowed trivial hreturns
  | generated _ _ _ _ hreturns ih _ => exact ih.generated hreturns

/-- The count for a template on the tip is not empty. -/
theorem StandsOn.size_ne_zero (hstands : StandsOn hist t) (hr : Recorded config hist c)
    (hd : Distinct hist) {tip : P2ChainLevel} (htip : c.getTip = some tip)
    (hat : tip.chainBlock = t.prevHash)
    (hshares : c.getCalculateAndCacheHashmapOfShares (t.height - 1) t.prevHash = .ok shares) :
    shares.size ≠ 0 := by
  obtain ⟨hlevel, -⟩ | ⟨a, -, hcounted⟩ := hr.windowCounted hd hshares
  · -- only height 0 may lack a level, and the tip has one
    obtain ⟨y, hy⟩ := hr.exists_tip (exists_getTip_iff.mp ⟨tip, htip⟩)
    obtain ⟨a, ha, -⟩ := hr.recordedBlock hd hy
    obtain ⟨hmem, hheight, hhash⟩ := mem_of_recordedBlock ha
    rw [← chainBlock_of_getTip htip, hat] at hhash
    obtain hzero | ⟨x, hx, hprev, hplace⟩ := hstands
    · exact absurd (hat.trans hzero) (getTip_eq_some_iff.mp htip).2
    · have hsame : x = a := hd.eq hx hmem (hprev.trans hhash.symm)
      have hzero : t.height - 1 = 0 := by
        by_contra hne
        rw [getCalculateAndCacheHashmapOfShares, hlevel] at hshares
        simp [hne] at hshares
      have hmin : saturatingAdd x.height 1 ≤ 1 ↔ x.height + 1 ≤ 1 ∨ u64Max ≤ 1 := min_le_iff
      have hmax : 1 < u64Max := by decide
      have hlow : c.currentTip = t.height - 1 := by
        rw [← hheight, ← hsame]
        omega
      rw [← hlow, (getTip_eq_some_iff.mp htip).1] at hlevel
      cases hlevel
  · have hcount := hcounted.counts a.minerWalletAddress.publicSpendKey
    have hown : a.minerWalletAddress.publicSpendKey ∈
        keys (windowCredits (config.shareWindow - 1) hist a) := by
      have hwindow := hcounted.window
      rw [windowCredits, show config.shareWindow - 1 = config.shareWindow - 2 + 1 by omega,
        lineage_succ, List.flatMap_cons, keys_append, blockCredits, keys_cons]
      exact List.mem_append_left _ List.mem_cons_self
    rw [if_pos hown, Option.map_eq_some_iff] at hcount
    obtain ⟨share, hshare, -⟩ := hcount
    exact Nat.ne_of_gt (List.length_pos_of_mem (KeyedMap.mem_values_of_find? hshare))

theorem CachedNonempty.calculated (hcached : CachedNonempty c) (hr : Recorded config hist c)
    (hd : Distinct hist) (hstands : StandsOn hist t) : CachedNonempty
      (InMemoryShareChain.calculateAndCacheHashmapShares (t.height - 1) t.prevHash c).state := by
  rw [InMemoryShareChain.calculateAndCacheHashmapShares]
  simp only [EStateM.bind_apply, EStateM.get_apply]
  cases htip : c.getTip with
  | none => exact hcached
  | some tip =>
    simp only [EStateM.bind_apply]
    cases hshares : c.getCalculateAndCacheHashmapOfShares (t.height - 1) t.prevHash with
    | error fault => exact hcached
    | ok shares =>
      simp only [EStateM.ofExcept_ok]
      split_ifs with hat
      · intro cached hsome
        cases hsome
        exact hstands.size_ne_zero hr hd htip hat hshares
      · exact hcached

/-- A template that stands on a recorded block leaves no empty map in the cache. -/
theorem CachedNonempty.sharesForTemplate (hcached : CachedNonempty c) (hr : Recorded config hist c)
    (hd : Distinct hist) (hstands : StandsOn hist t) :
    CachedNonempty (InMemoryShareChain.sharesForTemplate t c).state := by
  rw [InMemoryShareChain.sharesForTemplate]
  simp only [EStateM.bind_apply, EStateM.get_apply, EStateM.set_apply]
  have hfiltered : CachedNonempty { c with
      cachedShares := c.cachedShares.filter fun cached => decide (t.prevHash = cached.atHash) } :=
    fun cached hsome => hcached cached (Option.filter_eq_some_iff.mp hsome).1
  split_ifs
  · exact hfiltered.calculated (hr.withCachedShares _) hd hstands
  · exact hfiltered

theorem standsOn_of_generateNewTipBlock (hr : Recorded config hist c) {s : InMemoryShareChain}
    {now : EpochTime} {address : TariAddress} {extra : List Nat}
    (hgen : s.generateNewTipBlock core ord now address extra c = .ok t) : StandsOn hist t := by
  obtain ⟨-, ⟨-, hzero⟩ | ⟨tip, x, -, hprev, hx, hheight⟩⟩ := generateNewTipBlock_place hr hgen
  · exact Or.inl hzero
  · obtain ⟨a, ha, hcontent, hle⟩ := hr.content hx
    have hgrows : Grows a x := ⟨hcontent.symm, hle⟩
    refine Or.inr ⟨a, ha, ?_, ?_⟩
    · rw [← hgrows.hash_eq, hr.agree.hash_of_storedBlock hx, hprev]
    · rw [hheight, hgrows.height_eq]

theorem MiningRun.cachedNonempty (hrun : MiningRun core config hist c) : CachedNonempty c := by
  induction hrun with
  | empty =>
    intro cached hcached
    cases hcached
  | refused _ _ ih => exact ih
  | added hrun _ hfresh hallowed hreturns ih =>
    intro cached hcached
    obtain heq | hnone := hrun.run.recorded.cachedShares_added hfresh hallowed hreturns
    · rw [heq] at hcached
      exact ih cached hcached
    · rw [hnone] at hcached
      cases hcached
  | generated hrun hearlier hsuffix hgen _ ih _ =>
    rw [generate_state_eq]
    split_ifs
    · exact ih
    · refine ih.sharesForTemplate hrun.run.recorded hrun.run.distinct ?_
      obtain hzero | ⟨x, hx, hplace⟩ := standsOn_of_generateNewTipBlock hearlier.run.recorded hgen
      · exact Or.inl hzero
      · exact Or.inr ⟨x, hsuffix.subset hx, hplace⟩

/-! ### Agreement -/

/-- In a run of blocks with distinct hashes, the coinbases that a base node builds from the payout
list of a template on the tip, whatever its orders, pass the share check before and after the list
was made. Only one miner who is paid the largest reward there is does not pass: the upper bound of
the tolerance is cut off at that value. -/
theorem coinbases_agree_iff (hrun : MiningRun core config hist c)
    (hbypass : config.bypassChecks.correctShares = false) {s : InMemoryShareChain}
    {ord' : IterOrder} {now : EpochTime} {address : TariAddress} {extra : List Nat}
    {d : Difficulty} (hgen : s.generateNewTipBlock core ord' now address extra c = .ok t)
    (hheight : t.height ≠ 0)
    (hlist : s.generateSharesAndGetTargetDifficulty core ord t false c = .ok (entries, d) c')
    (hamount : totalValue entries ≤ reward) (hreward : reward ≤ u64Max)
    (hbuilt : BuiltFrom entries reward outputs) :
    ∀ state ∈ [c, c'], (state.verifySharesForBlock { t with coinbases := outputs } = .ok true ↔
      ¬(reward = u64Max ∧ entries.length = 1)) := by
  have hr := hrun.run.recorded
  obtain ⟨hverified, ⟨hzero, -⟩ | ⟨tip, x, htip, hprev, -⟩⟩ := generateNewTipBlock_place hr hgen
  · exact absurd hzero hheight
  rw [InMemoryShareChain.generateSharesAndGetTargetDifficulty] at hlist
  simp only [Bool.false_eq_true, if_false, EStateM.bind_apply] at hlist
  cases hbefore : InMemoryShareChain.sharesForTemplate t c with
  | error fault c₁ => simp [hbefore] at hlist
  | ok before c₁ =>
    simp only [hbefore, EStateM.get_apply] at hlist
    obtain ⟨cached, hstate⟩ := sharesForTemplate_state t c
    rw [hbefore] at hstate
    change c₁ = { c with cachedShares := cached } at hstate
    have hsame := sharesBefore_of_sharesForTemplate hrun.cachedNonempty htip hprev hbefore
    have hpositive := hr.sharesBefore_pos hrun.run.distinct hrun.run.cachedCounted hsame.1
    have huncles : c₁.insertUncleShares t.uncles (insertOwnShare t before) =
        c.insertUncleShares t.uncles (insertOwnShare t before) := by
      rw [hstate, insertUncleShares_withCachedShares]
    rw [huncles] at hlist
    cases hshares : c.insertUncleShares t.uncles (insertOwnShare t before) with
    | none =>
      rw [hshares] at hlist
      cases hlist
    | some shares =>
      rw [hshares] at hlist
      cases hlist
      have hpos : ∀ share ∈ shares.values, 0 < share.shareCount := by
        refine insertUncleShares_pos hshares (fun share hshare => ?_)
        obtain rfl | ⟨hshare, -⟩ := KeyedMap.mem_values_insert.mp hshare
        · exact show 0 < mainRewardShare by decide
        · exact hpositive share hshare
      obtain ⟨hnonempty, hchecked⟩ :=
        checkCoinbases_built_iff hpos (totalShares_pos hshares) hamount hreward hbuilt
      have hstep (state : P2Chain) (hconfig : state.config = config)
          (hstart : state.sharesBefore t = .ok before)
          (hinserted : state.insertUncleShares t.uncles (insertOwnShare t before) = some shares) :
          state.verifySharesForBlock { t with coinbases := outputs } = .ok true ↔
            ¬(reward = u64Max ∧ (InMemoryShareChain.coinbasesOf ord shares).length = 1) := by
        have hunchecked : (t.verified.correctShares || state.config.bypassChecks.correctShares) =
            false := by
          rw [hverified, hconfig, hbypass]
          rfl
        rw [← hchecked,
          verifySharesForBlock_iff (b := { t with coinbases := outputs }) hunchecked hheight]
        constructor
        · intro hpasses
          obtain ⟨-, before', shares', hbefore', hshares', hpassed⟩ := hpasses
          cases hstart.symm.trans hbefore'
          cases hinserted.symm.trans hshares'
          exact hpassed
        · intro hpassed
          exact ⟨hnonempty, before, shares, hstart, hinserted, hpassed⟩
      intro state hstates
      obtain rfl | hstates := List.mem_cons.mp hstates
      · exact hstep state hr.config_eq hsame.1 hshares
      · rw [List.mem_singleton.mp hstates]
        refine hstep _ ?_ hsame.2 (huncles.trans hshares)
        rw [hstate]
        exact hr.config_eq

/-- A service on `checkedChain`. -/
def checkedShareChain : InMemoryShareChain :=
  { sampleShareChain 10 with bypassChecks := checkedConfig.bypassChecks }

theorem miningRun_checkedChain :
    MiningRun sampleCore checkedConfig [sampleBlock 1 0 0 1] checkedChain := by
  have hreturns : Returns (addBlockToChain sampleCore .stored (sampleBlock 1 0 0 1)
      (newEmpty checkedConfig)) := returns_iff.mp (by decide)
  rw [checkedChain, addAll, addAll]
  exact MiningRun.empty.added (by decide) (by simp) (by decide) hreturns

/-- The template of a miner on `checkedChain`, which holds one block of key 0. -/
def checkedTemplate (key : CompressedKey) : P2Block :=
  { sampleBlock 2001 1 1 2 with squad := "", timestamp := 100, minerWalletAddress := ⟨key, key⟩ }

/-- The only miner of a chain is paid the largest reward, and the check turns the coinbase down. -/
theorem largest_reward_refused : ∃ hist c s t entries d c' outputs,
    MiningRun sampleCore checkedConfig hist c ∧ checkedConfig.bypassChecks.correctShares = false ∧
      InMemoryShareChain.generateNewTipBlock sampleCore s .stored 100 ⟨0, 0⟩ [] c = .ok t ∧
      t.height ≠ 0 ∧
      s.generateSharesAndGetTargetDifficulty sampleCore .stored t false c = .ok (entries, d) c' ∧
      totalValue entries ≤ u64Max ∧ BuiltFrom entries u64Max outputs ∧
      c.verifySharesForBlock { t with coinbases := outputs } ≠ .ok true ∧
      c'.verifySharesForBlock { t with coinbases := outputs } ≠ .ok true := by
  refine ⟨_, checkedChain, checkedShareChain, checkedTemplate 0, [⟨⟨0, 0⟩, 5, []⟩], 1, _,
    [⟨u64Max, [.pushPubKey 0], []⟩], miningRun_checkedChain, rfl, rfl, by decide,
    eq_ok_of_valueOf (by decide), by decide, ?_, by decide, by decide⟩
  exact ⟨_, _, .refl _, .refl _, .cons rfl rfl (by decide) .nil⟩

def checkedEntries : List NewBlockCoinbase := [⟨⟨1, 1⟩, 5, []⟩, ⟨⟨0, 0⟩, 5, []⟩]

theorem builtFrom_checkedEntries : BuiltFrom checkedEntries 101
    [⟨51, [.pushPubKey 1], []⟩, ⟨50, [.pushPubKey 0], []⟩] :=
  ⟨[⟨⟨0, 0⟩, 5, []⟩, ⟨⟨1, 1⟩, 5, []⟩], [⟨50, [.pushPubKey 0], []⟩, ⟨51, [.pushPubKey 1], []⟩],
    .swap _ _ _, .swap _ _ _, .cons rfl rfl (by decide) (.cons rfl rfl (by decide) .nil)⟩

theorem generate_checkedTemplate : checkedShareChain.generateNewTipBlock sampleCore .stored 100
    ⟨1, 1⟩ [] checkedChain = .ok (checkedTemplate 1) := rfl

theorem list_checkedTemplate : ∃ c', checkedShareChain.generateSharesAndGetTargetDifficulty
    sampleCore .stored (checkedTemplate 1) false checkedChain = .ok (checkedEntries, 1) c' :=
  ⟨_, eq_ok_of_valueOf (by decide)⟩

/-- Two miners. -/
theorem coinbases_agree_two : ∃ c', ∀ state ∈ [checkedChain, c'],
    (state.verifySharesForBlock { checkedTemplate 1 with
        coinbases := [⟨51, [.pushPubKey 1], []⟩, ⟨50, [.pushPubKey 0], []⟩] } = .ok true ↔
      ¬(101 = u64Max ∧ checkedEntries.length = 1)) := by
  obtain ⟨c', hlist⟩ := list_checkedTemplate
  exact ⟨c', coinbases_agree_iff miningRun_checkedChain rfl generate_checkedTemplate (by decide)
    hlist (by decide) (by decide) builtFrom_checkedEntries⟩

end P2Chain

end ShaP2Pool
