import ShaP2Pool.Proof.History

/-!
# The walk over the waiting blocks

A call takes up stored blocks one after the other, each at most once. The queue and the processed
blocks are disjoint and without repetition, so the number of stored headers bounds the rounds and
the walk always leaves by itself.
-/

namespace ShaP2Pool

namespace P2Chain

variable {core : TariCore} {ord : IterOrder} {config : ChainConfig} {n height : Nat}
variable {hash : FixedHash} {c c' c₀ c₁ c₂ : P2Chain} {b b₁ : P2Block} {hist : List P2Block}

/-! ### The blocks to look at next -/

def Names (b : P2Block) (hash : FixedHash) : Prop :=
  b.prevHash = hash ∨ ∃ uncle ∈ b.uncles, uncle.2 = hash

instance (b : P2Block) (hash : FixedHash) : Decidable (Names b hash) :=
  inferInstanceAs (Decidable (_ ∨ _))

/-- A stored header. -/
def HasHeader (c : P2Chain) (header : P2BlockHeader) : Prop :=
  c.getBlockHeaderAtHeight header.height header.hash = some header

instance (c : P2Chain) (header : P2BlockHeader) : Decidable (c.HasHeader header) :=
  inferInstanceAs (Decidable (_ = _))

theorem hasHeader_of_getBlockHeaderAtHeight {header : P2BlockHeader}
    (h : c.getBlockHeaderAtHeight height hash = some header) : c.HasHeader header := by
  rwa [HasHeader, height_of_getBlockHeaderAtHeight h, hash_of_getBlockHeaderAtHeight h]

/-- A header that refers to `hash`, at whatever height. -/
def RefersTo (header : P2BlockHeader) (hash : FixedHash) : Prop :=
  header.prevHash = hash ∨ ∃ uncle ∈ header.uncles, uncle.2 = hash

theorem mem_values_iff_hasHeader {level : P2ChainLevel} (hlevel : c.levelAtHeight height = some level) :
    header ∈ level.blockHeaders.values ↔ c.HasHeader header ∧ header.height = height := by
  constructor
  · intro hmem
    have hheight : header.height = height :=
      (level.sameHeight header hmem).trans (KeyedMap.key_of_find? hlevel)
    refine ⟨?_, hheight⟩
    rw [HasHeader, getBlockHeaderAtHeight, hheight, hlevel]
    exact KeyedMap.find?_of_mem_values hmem
  · rintro ⟨hheader, hheight⟩
    rw [HasHeader, getBlockHeaderAtHeight, hheight, hlevel] at hheader
    exact KeyedMap.mem_values_of_find? hheader

/-- What the scan lists: the stored headers of the next two heights that refer to the hash. -/
theorem mem_childrenAndNephews_iff {item : Nat × FixedHash} :
    item ∈ c.childrenAndNephews ord n height hash ↔
      ∃ header, c.HasHeader header ∧ item = (header.height, header.hash) ∧
        height < header.height ∧ header.height < height + maxUncleAge ∧ RefersTo header hash := by
  rw [childrenAndNephews, List.mem_flatMap]
  constructor
  · rintro ⟨checkHeight, hrange, hmem⟩
    rw [List.mem_range'_1] at hrange
    cases hlevel : c.levelAtHeight checkHeight with
    | none => simp [hlevel] at hmem
    | some level =>
      simp only [hlevel, P2ChainLevel.mem_allChildrenAndNephewsOf] at hmem
      obtain ⟨header, hheader, heq, hrefers⟩ := hmem
      obtain ⟨hstored, hheight⟩ := (mem_values_iff_hasHeader hlevel).mp hheader
      have hage : maxUncleAge = 3 := rfl
      exact ⟨header, hstored, heq, by omega, by omega, hrefers⟩
  · rintro ⟨header, hstored, heq, hlow, hhigh, hrefers⟩
    have hage : maxUncleAge = 3 := rfl
    refine ⟨header.height, ?_, ?_⟩
    · rw [List.mem_range'_1]
      omega
    · cases hlevel : c.levelAtHeight header.height with
      | none =>
        rw [HasHeader, getBlockHeaderAtHeight, hlevel] at hstored
        cases hstored
      | some level =>
        simp only [P2ChainLevel.mem_allChildrenAndNephewsOf]
        exact ⟨header, (mem_values_iff_hasHeader hlevel).mpr ⟨hstored, rfl⟩, heq, hrefers⟩

theorem mem_childrenAndNephews (hc : c.StoresAgree) {item : Nat × FixedHash} :
    item ∈ c.childrenAndNephews ord n height hash ↔
      ∃ x, c.storedBlock item.1 item.2 = some x ∧ height < item.1 ∧ item.1 < height + maxUncleAge ∧
        Names x hash := by
  rw [mem_childrenAndNephews_iff]
  constructor
  · rintro ⟨header, hheader, rfl, hlow, hhigh, hnames⟩
    obtain ⟨x, hx, rfl⟩ := hc.storedBlock_of_header hheader
    exact ⟨x, hx, hlow, hhigh, hnames⟩
  · obtain ⟨itemHeight, itemHash⟩ := item
    rintro ⟨x, hx, hlow, hhigh, hnames⟩
    obtain rfl := hc.height_of_storedBlock hx
    obtain rfl := hc.hash_of_storedBlock hx
    exact ⟨x.header, hc.header_of_storedBlock hx, rfl, hlow, hhigh, hnames⟩

/-! ### The queue -/

/-- No stored block refers to the hash. -/
def Unnamed (c : P2Chain) (hash : FixedHash) : Prop :=
  ∀ height hash' x, c.storedBlock height hash' = some x → ¬Names x hash

theorem Recorded.unnamed (hr : Recorded config hist c) (h : ∀ a ∈ hist, ¬Names a hash) :
    Unnamed c hash := by
  intro height hash' x hx hnames
  obtain ⟨a, ha, hcontent, -⟩ := hr.content hx
  have hprev : a.prevHash = x.prevHash := field_eq P2Block.prevHash (fun _ _ => rfl) hcontent
  have huncles : a.uncles = x.uncles := field_eq P2Block.uncles (fun _ _ => rfl) hcontent
  refine h a ha ?_
  rw [Names, hprev, huncles]
  exact hnames

theorem Unnamed.childrenAndNephews_eq_nil (h : Unnamed c hash) (hc : c.StoresAgree) :
    c.childrenAndNephews ord n height hash = [] := by
  rw [List.eq_nil_iff_forall_not_mem]
  intro item hitem
  obtain ⟨x, hx, -, -, hnames⟩ := (mem_childrenAndNephews hc).mp hitem
  exact h _ _ x hx hnames

/-- The queue after a round: what was in it and the new items that were not processed. -/
theorem mem_enqueue {processed : List FixedHash} {current item : Nat × FixedHash}
    (hcurrent : current.2 ∈ processed) (next queue : List (Nat × FixedHash)) :
    item ∈ enqueue processed current next queue ↔
      item ∈ queue ∨ (item ∈ next ∧ item.2 ∉ processed) := by
  induction next generalizing queue with
  | nil => simp [enqueue]
  | cons first rest ih =>
    rw [enqueue]
    split_ifs with hknown hnew
    · rw [ih, List.mem_cons]
      simp only [Bool.or_eq_true, List.contains_eq_mem, decide_eq_true_eq] at hknown
      constructor
      · rintro (h | h)
        · exact Or.inl h
        · exact Or.inr ⟨Or.inr h.1, h.2⟩
      · rintro (h | ⟨rfl | h, hnot⟩)
        · exact Or.inl h
        · rcases hknown with hqueued | hprocessed
          · exact Or.inl hqueued
          · exact absurd hprocessed hnot
        · exact Or.inr ⟨h, hnot⟩
    · rw [ih, List.mem_append, List.mem_singleton, List.mem_cons]
      simp only [Bool.or_eq_true, List.contains_eq_mem, decide_eq_true_eq, not_or] at hknown
      constructor
      · rintro ((h | rfl) | h)
        · exact Or.inl h
        · exact Or.inr ⟨Or.inl rfl, hknown.2⟩
        · exact Or.inr ⟨Or.inr h.1, h.2⟩
      · rintro (h | ⟨rfl | h, hnot⟩)
        · exact Or.inl (Or.inl h)
        · exact Or.inl (Or.inr rfl)
        · exact Or.inr ⟨h, hnot⟩
    · rw [ih, List.mem_cons, not_not.mp hnew]
      constructor
      · rintro (h | h)
        · exact Or.inl h
        · exact Or.inr ⟨Or.inr h.1, h.2⟩
      · rintro (h | ⟨rfl | h, hnot⟩)
        · exact Or.inl h
        · exact absurd hcurrent hnot
        · exact Or.inr ⟨h, hnot⟩

theorem nodup_enqueue {processed : List FixedHash} {current : Nat × FixedHash}
    (next : List (Nat × FixedHash)) {queue : List (Nat × FixedHash)} (hqueue : queue.Nodup) :
    (enqueue processed current next queue).Nodup := by
  induction next generalizing queue with
  | nil => exact hqueue
  | cons first rest ih =>
    rw [enqueue]
    split_ifs with hknown hnew
    · exact ih hqueue
    · simp only [Bool.or_eq_true, List.contains_eq_mem, decide_eq_true_eq, not_or] at hknown
      apply ih
      rw [List.nodup_append]
      refine ⟨hqueue, List.nodup_singleton _, fun a ha a' ha' => ?_⟩
      rw [List.mem_singleton] at ha'
      rintro rfl
      exact hknown.1 (ha' ▸ ha)
    · exact ih hqueue

/-! ### What a verification keeps stored -/

theorem checked_or_stored_of_outcome (hc : c.StoresAgree)
    {r : EStateM.Result Fault P2Chain (ChainAddResult × List (Nat × FixedHash))}
    (ho : Outcome core ord n height hash c r) (hreturns : Returns r) {height' : Nat}
    {hash' : FixedHash} {x : P2Block} (hx : r.state.storedBlock height' hash' = some x) :
    c.storedBlock height' hash' = some x ∨ ∃ b c₁, Checked core c height hash b x c₁ := by
  have hkept {b b₁ : P2Block} {c₁ : P2Chain} (hchecked : Checked core c height hash b b₁ c₁)
      (hx : c₁.storedBlock height' hash' = some x) :
      c.storedBlock height' hash' = some x ∨ ∃ b c₁, Checked core c height hash b x c₁ := by
    rw [hchecked.storedBlock hc] at hx
    split_ifs at hx with heq
    · exact Or.inr ⟨b, c₁, Option.some.inj hx ▸ hchecked⟩
    · exact Or.inl hx
  have hmoved {b b₁ : P2Block} {c₁ c₂ : P2Chain} (hchecked : Checked core c height hash b b₁ c₁)
      (hmoves : MovesTip c₁ b₁ c₂) (hx : c₂.cleanupChain.storedBlock height' hash' = some x) :
      c.storedBlock height' hash' = some x ∨ ∃ b c₁, Checked core c height hash b x c₁ := by
    have hc₂ := hmoves.same.storesAgree (hchecked.storesAgree hc)
    have hbefore := (Prunes.cleanupChain hc₂).storedBlock_of hc₂ hx
    rw [hmoves.same.storedBlock] at hbefore
    exact hkept hchecked hbefore
  cases ho with
  | overflow c' => exact absurd rfl (hreturns _ c')
  | absent | waiting | refused => exact Or.inl hx
  | started hchecked _ _ hmoves => exact hmoved hchecked hmoves hx
  | unverified hchecked | badUncles hchecked => exact hkept hchecked hx
  | extended hchecked _ _ _ _ hmoves => exact hmoved hchecked hmoves hx
  | scanFault hoff | blocked hoff => exact hkept hoff.toChecked hx
  | stayed hcandidate | reorgFault hcandidate => exact hkept hcandidate.toChecked hx
  | @reorganised b b₁ c₁ c₂ _ hcandidate _ hreorg =>
    have hsame := (hcandidate.reorganises hc hreorg).same
    change c₂.storedBlock height' hash' = some x at hx
    rw [hsame.storedBlock] at hx
    exact hkept hcandidate.toChecked hx

theorem storedBlock_of_outcome (hc : c.StoresAgree)
    {r : EStateM.Result Fault P2Chain (ChainAddResult × List (Nat × FixedHash))}
    (ho : Outcome core ord n height hash c r) (hreturns : Returns r) {height' : Nat}
    {hash' : FixedHash} {x : P2Block} (hx : r.state.storedBlock height' hash' = some x) :
    ∃ x', c.storedBlock height' hash' = some x' ∧ x.withoutStatus = x'.withoutStatus ∧
      x'.verified.Le x.verified := by
  rcases checked_or_stored_of_outcome hc ho hreturns hx with hstored | ⟨b, c₁, hchecked⟩
  · exact ⟨x, hstored, rfl, VerifiedStatus.Le.refl _⟩
  · have hc' := ho.storesAgree hc hreturns
    rw [← hc'.height_of_storedBlock hx, ← hc'.hash_of_storedBlock hx, hchecked.height_eq hc,
      hchecked.hash_eq hc]
    exact ⟨b, hchecked.stored, hchecked.withoutStatus_eq, hchecked.verified_le⟩

theorem storedBlock_of_outcome_ne (hc : c.StoresAgree)
    {r : EStateM.Result Fault P2Chain (ChainAddResult × List (Nat × FixedHash))}
    (ho : Outcome core ord n height hash c r) (hreturns : Returns r) {height' : Nat}
    {hash' : FixedHash} {x : P2Block} (hne : hash' ≠ hash)
    (hx : r.state.storedBlock height' hash' = some x) : c.storedBlock height' hash' = some x := by
  rcases checked_or_stored_of_outcome hc ho hreturns hx with hstored | ⟨b, c₁, hchecked⟩
  · exact hstored
  · have hc' := ho.storesAgree hc hreturns
    rw [← hc'.hash_of_storedBlock hx, hchecked.hash_eq hc] at hne
    exact absurd rfl hne

/-- What is known wherever the walk from `c₀` passes: queued and processed blocks were stored at its
start, and none is queued or processed twice. -/
structure WalkInv (c₀ : P2Chain) (w : WalkState) : Prop where
  agree : w.chain.StoresAgree
  stored : ∀ {height hash x}, w.chain.storedBlock height hash = some x →
    ∃ x', c₀.storedBlock height hash = some x'
  queued : ∀ item ∈ w.nextLevel, ∃ x, c₀.storedBlock item.1 item.2 = some x
  queueNodup : w.nextLevel.Nodup
  processed : ∀ hash ∈ w.processed, ∃ height x, c₀.storedBlock height hash = some x
  processedNodup : w.processed.Nodup
  disjoint : ∀ item ∈ w.nextLevel, item.2 ∉ w.processed

theorem storedBlock_of_next {addResult : ChainAddResult} {next : List (Nat × FixedHash)}
    (ho : Outcome core ord n height hash c (.ok (addResult, next) c')) (hc' : c'.StoresAgree)
    {item : Nat × FixedHash} (hitem : item ∈ next) :
    ∃ x, c'.storedBlock item.1 item.2 = some x := by
  have hchildren (hmem : item ∈ c'.childrenAndNephews ord n height hash) :
      ∃ x, c'.storedBlock item.1 item.2 = some x := by
    obtain ⟨x, hx, -⟩ := (mem_childrenAndNephews hc').mp hmem
    exact ⟨x, hx⟩
  cases ho with
  | started | unverified => simp at hitem
  | waiting | extended | blocked | stayed | reorganised => exact hchildren hitem

theorem WalkInv.step {w w' : WalkState} (hw : WalkInv c₀ w)
    (hc₀ : c₀.StoresAgree) (hstep : verifyChainStep core ord w = .inl w') : WalkInv c₀ w' := by
  obtain ⟨height, hash, rest, addResult, next, chain, hqueue, hinner, -, rfl⟩ :=
    verifyChainStep_inl hstep
  have ho := outcome_verifyChainInner core ord w.numProcessed height hash hw.agree
  rw [hinner] at ho
  have hreturns : Returns (EStateM.Result.ok (ε := Fault) (addResult, next) chain) := .of_ok rfl
  have hagree : chain.StoresAgree := ho.storesAgree hw.agree hreturns
  have hstored {height' : Nat} {hash' : FixedHash} {x : P2Block}
      (hx : chain.storedBlock height' hash' = some x) : ∃ x', c₀.storedBlock height' hash' = some x' := by
    obtain ⟨x', hx', -⟩ := storedBlock_of_outcome hw.agree ho hreturns hx
    exact hw.stored hx'
  have hfirst : (height, hash) ∈ w.nextLevel := by rw [hqueue]; exact List.mem_cons_self
  have hnodup := hw.queueNodup
  rw [hqueue, List.nodup_cons] at hnodup
  have hmem (item : Nat × FixedHash) :
      item ∈ enqueue (hash :: w.processed) (height, hash) next rest ↔
        item ∈ rest ∨ (item ∈ next ∧ item.2 ∉ hash :: w.processed) :=
    mem_enqueue (show (height, hash).2 ∈ hash :: w.processed from List.mem_cons_self) next rest
  refine ⟨hagree, hstored, fun item hitem => ?_, nodup_enqueue next hnodup.2, fun hash' hhash' => ?_,
    List.nodup_cons.mpr ⟨hw.disjoint _ hfirst, hw.processedNodup⟩, fun item hitem => ?_⟩
  · rcases (hmem item).mp hitem with hrest | ⟨hnext, -⟩
    · exact hw.queued item (by rw [hqueue]; exact List.mem_cons_of_mem _ hrest)
    · obtain ⟨x, hx⟩ := storedBlock_of_next ho hagree hnext
      exact hstored hx
  · rcases List.mem_cons.mp hhash' with rfl | hhash'
    · exact ⟨height, hw.queued _ hfirst⟩
    · exact hw.processed hash' hhash'
  · rcases (hmem item).mp hitem with hrest | ⟨-, hnew⟩
    · have hitem' : item ∈ w.nextLevel := by rw [hqueue]; exact List.mem_cons_of_mem _ hrest
      rw [List.mem_cons, not_or]
      refine ⟨fun heq => ?_, hw.disjoint item hitem'⟩
      -- two queued blocks with one hash would be the same block
      obtain ⟨x, hx⟩ := hw.queued item hitem'
      obtain ⟨x', hx'⟩ := hw.queued _ hfirst
      obtain ⟨hheight, -⟩ := hc₀.storedBlock_inj (heq ▸ hx) hx'
      have hsame : item = (height, hash) := Prod.ext hheight heq
      exact hnodup.1 (hsame ▸ hrest)
    · exact hnew

theorem WalkInv.start (hc₀ : c₀.StoresAgree) (hb : c₀.storedBlock height hash = some b) :
    WalkInv c₀ { chain := c₀, nextLevel := [(height, hash)] } where
  agree := hc₀
  stored h := ⟨_, h⟩
  queued item hitem := by
    rw [List.mem_singleton] at hitem
    exact ⟨b, hitem ▸ hb⟩
  queueNodup := List.nodup_singleton _
  processed _ h := absurd h List.not_mem_nil
  processedNodup := List.nodup_nil
  disjoint _ _ := List.not_mem_nil

/-! ### The walk ends -/

private theorem processed_length_le {w : WalkState} (hw : WalkInv c₀ w) (hc₀ : c₀.StoresAgree) :
    w.processed.length ≤ c₀.numHeaders := by
  have hcount : (c₀.levels.values.flatMap fun level =>
      level.blockHeaders.values.map (·.hash)).length = c₀.numHeaders := by
    rw [List.length_flatMap, numHeaders]
    simp only [List.length_map]
    rfl
  rw [← hcount]
  refine (List.subperm_of_subset hw.processedNodup (fun hash hhash => ?_)).length_le
  obtain ⟨height, x, hx⟩ := hw.processed hash hhash
  obtain ⟨level, hlevel, hheader⟩ := hc₀.level_of_storedBlock hx
  exact List.mem_flatMap.mpr ⟨level, KeyedMap.mem_values_of_find? hlevel,
    List.mem_map.mpr ⟨x.header, KeyedMap.mem_values_of_find? hheader, hc₀.hash_of_storedBlock hx⟩⟩

theorem exists_verifyChain_result (core : TariCore) (ord : IterOrder) (hc₀ : c₀.StoresAgree)
    (hb : c₀.storedBlock height hash = some b) :
    ∃ r, runLoop (verifyChainStep core ord) (c₀.numHeaders + 2)
      { chain := c₀, nextLevel := [(height, hash)] } = some r := by
  rw [← Option.isSome_iff_exists]
  refine runLoop_isSome (I := WalkInv c₀) (fun w => c₀.numHeaders + 1 - w.processed.length)
    (by simp) (WalkInv.start hc₀ hb) (fun u v hu hstep => ⟨hu.step hc₀ hstep, ?_⟩)
  have hle := processed_length_le (hu.step hc₀ hstep) hc₀
  obtain ⟨height', hash', rest, addResult, next, chain, -, -, -, rfl⟩ := verifyChainStep_inl hstep
  simp only [List.length_cons] at hle ⊢
  omega

theorem addBlockToChain_eq_of_exit (hr : Recorded config hist c)
    (hunused : ∀ old, c.blockCache.find? b.hash = some old → old.height = b.height) {w : WalkState}
    {r : EStateM.Result Fault P2Chain ChainAddResult} (hvisits : Visits core ord b c w)
    (hexit : verifyChainStep core ord w = .inr r) : addBlockToChain core ord b c = r := by
  obtain ⟨hallowed, c₀, hinsert, hreach⟩ := hvisits
  obtain ⟨c₀', hinsert', hwrites⟩ := Writes.of_insertBlock c b
  rw [hinsert, Except.ok.injEq] at hinsert'
  subst hinsert'
  have hstored := hr.storedBlock_of_writes hunused hwrites
  obtain ⟨q, hq⟩ := exists_verifyChain_result core ord (hr.writes hunused hwrites).agree hstored
  rw [addBlockToChain_eq core ord hallowed hinsert, verifyChain]
  simp only [hq]
  exact runLoop_eq_of_exit hq hreach hexit

theorem exists_exit (core : TariCore) (ord : IterOrder) (hallowed : ¬ParentIsUncle b)
    (hr : Recorded config hist c)
    (hunused : ∀ old, c.blockCache.find? b.hash = some old → old.height = b.height) :
    ∃ w, Visits core ord b c w ∧ verifyChainStep core ord w = .inr (addBlockToChain core ord b c) := by
  obtain ⟨c₀, hinsert, hwrites⟩ := Writes.of_insertBlock c b
  have hstored := hr.storedBlock_of_writes hunused hwrites
  obtain ⟨q, hq⟩ := exists_verifyChain_result core ord (hr.writes hunused hwrites).agree hstored
  obtain ⟨w, hreach, hexit⟩ := exists_exit_of_runLoop hq
  refine ⟨w, ⟨hallowed, c₀, hinsert, hreach⟩, ?_⟩
  rw [addBlockToChain_eq core ord hallowed hinsert, verifyChain]
  simp only [hq]
  exact hexit

/-! ### The first visit -/

/-- The walk that started from `b` is at its start, or past the visit of its block, which it leaves
as the visit did. -/
def StartedFrom (core : TariCore) (ord : IterOrder) (b : P2Block) (c₀ : P2Chain) (w : WalkState) :
    Prop :=
  w = { chain := c₀, nextLevel := [(b.height, b.hash)] } ∨
    b.hash ∈ w.processed ∧ ∃ addResult next chain,
      verifyChainInner core ord 0 b.height b.hash c₀ = .ok (addResult, next) chain ∧
        ∀ x, w.chain.storedBlock b.height b.hash = some x →
          chain.storedBlock b.height b.hash = some x

/-- A call starts with a visit of its own block, and no later visit changes the block. -/
theorem exists_first_visit (hallowed : ¬ParentIsUncle b) (hr : Recorded config hist c)
    (hunused : ∀ old, c.blockCache.find? b.hash = some old → old.height = b.height)
    (hinsert : c.insertBlock b = .ok c₀) {result : ChainAddResult} {x : P2Block}
    (hcall : addBlockToChain core ord b c = .ok result c')
    (hx : c'.storedBlock b.height b.hash = some x) :
    ∃ addResult next chain,
      verifyChainInner core ord 0 b.height b.hash c₀ = .ok (addResult, next) chain ∧
        chain.storedBlock b.height b.hash = some x := by
  obtain ⟨c₀', hinsert', hwrites⟩ := Writes.of_insertBlock c b
  rw [hinsert, Except.ok.injEq] at hinsert'
  subst hinsert'
  have hstored := hr.storedBlock_of_writes hunused hwrites
  have hc₀ := (hr.writes hunused hwrites).agree
  obtain ⟨w, ⟨-, c₀', hinsert', hreach⟩, hexit⟩ := exists_exit core ord hallowed hr hunused
  rw [hinsert, Except.ok.injEq] at hinsert'
  subst hinsert'
  rw [hcall] at hexit
  have hpast : WalkInv c₀ w ∧ StartedFrom core ord b c₀ w := by
    refine hreach.inv (I := fun w => WalkInv c₀ w ∧ StartedFrom core ord b c₀ w)
      ⟨WalkInv.start hc₀ hstored, Or.inl rfl⟩ (fun u v _ hu hstep => ?_)
    obtain ⟨hinv, hwhere⟩ := hu
    refine ⟨hinv.step hc₀ hstep, Or.inr ?_⟩
    obtain ⟨height, hash, rest, addResult, next, chain, hqueue, hinner, -, rfl⟩ :=
      verifyChainStep_inl hstep
    rcases hwhere with rfl | ⟨hprocessed, addResult', next', chain', hfirst, hkept⟩
    · simp only [List.cons.injEq, Prod.mk.injEq] at hqueue
      obtain ⟨⟨rfl, rfl⟩, -⟩ := hqueue
      exact ⟨List.mem_cons_self, addResult, next, chain, hinner, fun x hx => hx⟩
    · refine ⟨List.mem_cons_of_mem _ hprocessed, addResult', next', chain', hfirst, fun x hx => ?_⟩
      have ho := outcome_verifyChainInner core ord u.numProcessed height hash hinv.agree
      rw [hinner] at ho
      refine hkept x (storedBlock_of_outcome_ne hinv.agree ho (.of_ok rfl) ?_ hx)
      rintro rfl
      exact hinv.disjoint (height, b.hash) (by rw [hqueue]; exact List.mem_cons_self) hprocessed
  obtain ⟨hinv, hwhere⟩ := hpast
  rcases verifyChainStep_inr hexit with ⟨hempty, heq⟩ | ⟨height, hash, rest, hqueue, hlast⟩
  · rcases hwhere with rfl | ⟨-, addResult, next, chain, hfirst, hkept⟩
    · cases hempty
    · cases heq
      exact ⟨addResult, next, chain, hfirst, hkept x hx⟩
  · rcases hlast with ⟨fault, chain, -, heq⟩ | ⟨addResult, next, chain, hinner, -, heq⟩
    · cases heq
    · cases heq
      rcases hwhere with rfl | ⟨hprocessed, addResult', next', chain', hfirst, hkept⟩
      · simp only [List.cons.injEq, Prod.mk.injEq] at hqueue
        obtain ⟨⟨rfl, rfl⟩, -⟩ := hqueue
        exact ⟨addResult, next, c', hinner, hx⟩
      · have ho := outcome_verifyChainInner core ord w.numProcessed height hash hinv.agree
        rw [hinner] at ho
        refine ⟨addResult', next', chain', hfirst, hkept x
          (storedBlock_of_outcome_ne hinv.agree ho (.of_ok rfl) ?_ hx)⟩
        rintro rfl
        exact hinv.disjoint (height, b.hash) (by rw [hqueue]; exact List.mem_cons_self) hprocessed

/-- A call whose first visit finds nothing to look at next ends with it. -/
theorem addBlockToChain_of_first_visit (hallowed : ¬ParentIsUncle b) (hr : Recorded config hist c)
    (hunused : ∀ old, c.blockCache.find? b.hash = some old → old.height = b.height)
    (hinsert : c.insertBlock b = .ok c₀) {addResult : ChainAddResult}
    (hfirst : verifyChainInner core ord 0 b.height b.hash c₀ = .ok (addResult, []) c') :
    addBlockToChain core ord b c = .ok (({} : ChainAddResult).combine ord 0 addResult) c' := by
  by_cases hfull : maxMissingParents ≤
      (({} : ChainAddResult).combine ord 0 addResult).missingBlocks.size
  · have hexit : verifyChainStep core ord { chain := c₀, nextLevel := [(b.height, b.hash)] } =
        .inr (.ok (({} : ChainAddResult).combine ord 0 addResult) c') := by
      rw [verifyChainStep]
      simp only [hfirst]
      rw [if_pos hfull]
    exact addBlockToChain_eq_of_exit hr hunused ⟨hallowed, c₀, hinsert, Reaches.refl⟩ hexit
  · have hstep : verifyChainStep core ord { chain := c₀, nextLevel := [(b.height, b.hash)] } =
        .inl { chain := c'
               nextLevel := []
               processed := [b.hash]
               numProcessed := 1
               newTip := ({} : ChainAddResult).combine ord 0 addResult } := by
      rw [verifyChainStep]
      simp only [hfirst]
      rw [if_neg hfull]
      rfl
    exact addBlockToChain_eq_of_exit hr hunused
      ⟨hallowed, c₀, hinsert, Reaches.head hstep Reaches.refl⟩ rfl

end P2Chain

end ShaP2Pool
