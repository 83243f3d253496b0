import ShaP2Pool.Library.Lineage
import ShaP2Pool.Proof.Walk

/-!
# Ancestors

The parent of a block is the stored block one height below with the hash it names. Following
parents gives the lineage of a block in a chain; the same can be done in the blocks recorded so far,
where nothing is ever dropped.
-/

namespace ShaP2Pool

namespace P2Chain

open Lineage

variable {core : TariCore} {ord : IterOrder} {config : ChainConfig} {n height i : Nat}
variable {hash : FixedHash} {c c' c₀ c₁ c₂ : P2Chain} {a b b₁ : P2Block} {hist : List P2Block}

/-- The stored parent of a block. -/
def parentOf (c : P2Chain) (b : P2Block) : Option P2Block :=
  if b.height = 0 then none else c.storedBlock (b.height - 1) b.prevHash

/-- The block's ancestor that many heights down, if it and those between are stored. -/
abbrev ancestorOf (c : P2Chain) : Nat → P2Block → Option P2Block := ancestor c.parentOf

theorem height_of_parentOf (hc : c.StoresAgree) (h : c.parentOf b = some a) :
    b.height = a.height + 1 := by
  rw [parentOf] at h
  split_ifs at h with hheight
  rw [hc.height_of_storedBlock h]
  omega

theorem hash_of_parentOf (hc : c.StoresAgree) (h : c.parentOf b = some a) : a.hash = b.prevHash := by
  rw [parentOf] at h
  split_ifs at h
  exact hc.hash_of_storedBlock h

theorem stored_of_parentOf (hc : c.StoresAgree) (h : c.parentOf b = some a) :
    c.storedBlock a.height a.hash = some a := by
  rw [parentOf] at h
  split_ifs at h
  rwa [hc.height_of_storedBlock h, hc.hash_of_storedBlock h]

theorem height_of_ancestorOf (hc : c.StoresAgree) (h : c.ancestorOf i b = some a) :
    b.height = a.height + i := by
  induction i generalizing b with
  | zero =>
    cases h
    rfl
  | succ i ih =>
    obtain ⟨p, hp, h⟩ := Option.bind_eq_some_iff.mp h
    rw [height_of_parentOf hc hp, ih h]
    omega

theorem stored_of_ancestorOf (hc : c.StoresAgree) (hb : c.storedBlock b.height b.hash = some b)
    (h : c.ancestorOf i b = some a) : c.storedBlock a.height a.hash = some a := by
  induction i generalizing b with
  | zero =>
    cases h
    exact hb
  | succ i ih =>
    obtain ⟨p, hp, h⟩ := Option.bind_eq_some_iff.mp h
    exact ih (stored_of_parentOf hc hp) h

theorem parentOf_congr (h : ∀ height hash, c'.storedBlock height hash = c.storedBlock height hash) :
    c'.parentOf = c.parentOf := by
  funext b
  rw [parentOf, parentOf, h]

theorem SameBlocks.parentOf (hs : SameBlocks c c') : c'.parentOf = c.parentOf :=
  parentOf_congr hs.storedBlock

/-! ### References -/

/-- Everything that a block refers to is stored: its parent, its uncles and their parents. A block
of height 0 refers to nothing. -/
def Complete (c : P2Chain) (b : P2Block) : Prop :=
  b.height ≠ 0 → (∃ p, c.parentOf b = some p) ∧
    ∀ uncle ∈ b.uncles, ∃ u p, c.storedBlock uncle.1 uncle.2 = some u ∧
      c.storedBlock (uncle.1 - 1) u.prevHash = some p

theorem size_addMissing_ne_zero (result : ChainAddResult) (hash : FixedHash) (height : Nat) :
    (result.addMissing hash height).missingBlocks.size ≠ 0 :=
  Nat.succ_ne_zero _

theorem size_missingUncles_eq_zero_iff (hc : c.StoresAgree) {uncles : List (Nat × FixedHash)}
    {result : ChainAddResult} : (c.missingUncles uncles result).missingBlocks.size = 0 ↔
      result.missingBlocks.size = 0 ∧ ∀ uncle ∈ uncles, ∃ u p,
        c.storedBlock uncle.1 uncle.2 = some u ∧ c.storedBlock (uncle.1 - 1) u.prevHash = some p := by
  induction uncles generalizing result with
  | nil => simp [missingUncles]
  | cons uncle rest ih =>
    obtain ⟨height, hash⟩ := uncle
    rw [missingUncles, hc.getParentOf_eq, List.forall_mem_cons]
    cases hu : c.storedBlock height hash with
    | none =>
      simp only [Option.map_none, ih]
      constructor
      · exact fun h => absurd h.1 (size_addMissing_ne_zero _ _ _)
      · rintro ⟨-, ⟨u, p, h, -⟩, -⟩
        cases h
    | some u =>
      simp only [Option.map_some]
      cases hexists : c.blockExists (height - 1) u.prevHash with
      | true =>
        obtain ⟨p, hp⟩ := hc.blockExists_iff.mp hexists
        rw [if_pos rfl, ih]
        exact ⟨fun h => ⟨h.1, ⟨u, p, rfl, hp⟩, h.2⟩, fun h => ⟨h.1, h.2.2⟩⟩
      | false =>
        rw [if_neg (by simp), ih]
        constructor
        · exact fun h => absurd h.1 (size_addMissing_ne_zero _ _ _)
        · rintro ⟨-, ⟨u', p, h, hp⟩, -⟩
          cases h
          rw [hc.blockExists_iff.mpr ⟨p, hp⟩] at hexists
          cases hexists

/-- A stored block is reported to miss nothing exactly when it is complete. -/
theorem complete_iff (hc : c.StoresAgree) (hb : c.storedBlock height hash = some b) :
    (c.missingReferences height hash b.prevHash).missingBlocks.size = 0 ↔ c.Complete b := by
  rw [missingReferences, Complete, parentOf, hc.height_of_storedBlock hb, hc.getUncles_eq, hb]
  by_cases hheight : height = 0
  · rw [if_pos hheight]
    exact ⟨fun _ h => absurd hheight h, fun _ => rfl⟩
  · simp only [if_neg hheight, Option.map_some, Option.getD_some]
    rw [size_missingUncles_eq_zero_iff hc, forall_prop_of_true hheight]
    refine and_congr_left (fun _ => ?_)
    rw [← hc.blockExists_iff]
    cases c.blockExists (height - 1) b.prevHash with
    | true => exact ⟨fun _ => rfl, fun _ => rfl⟩
    | false =>
      rw [if_neg (by simp)]
      exact ⟨fun h => absurd h (size_addMissing_ne_zero _ _ _), fun h => by cases h⟩

theorem Checked.isComplete (hc : c.StoresAgree) (hv : Checked core c height hash b b₁ c₁) :
    c.Complete b :=
  (complete_iff hc hv.stored).mp hv.complete

/-! ### What changes do to ancestors -/

/-- `x₁` is `x` with possibly more flags. -/
structure Grows (x x₁ : P2Block) : Prop where
  content : x₁.withoutStatus = x.withoutStatus
  verified : x.verified.Le x₁.verified

theorem Grows.refl (x : P2Block) : Grows x x := ⟨rfl, VerifiedStatus.Le.refl _⟩

namespace Grows

variable {x x₁ : P2Block} (hg : Grows x x₁)
include hg

theorem height_eq : x₁.height = x.height := field_eq P2Block.height (fun _ _ => rfl) hg.content

theorem hash_eq : x₁.hash = x.hash := field_eq P2Block.hash (fun _ _ => rfl) hg.content

theorem prevHash_eq : x₁.prevHash = x.prevHash :=
  field_eq P2Block.prevHash (fun _ _ => rfl) hg.content

theorem uncles_eq : x₁.uncles = x.uncles := field_eq P2Block.uncles (fun _ _ => rfl) hg.content

theorem totalPow_eq : x₁.totalPow = x.totalPow :=
  field_eq P2Block.totalPow (fun _ _ => rfl) hg.content

theorem isVerified (h : x.verified.isVerified = true) : x₁.verified.isVerified = true :=
  hg.verified.isVerified h

end Grows

theorem Checked.grows (hv : Checked core c height hash b b₁ c₁) : Grows b b₁ :=
  ⟨hv.withoutStatus_eq, hv.verified_le⟩

/-- After a verification the same blocks are stored. -/
theorem Checked.exists_storedBlock (hc : c.StoresAgree) (hv : Checked core c height hash b b₁ c₁)
    {height' : Nat} {hash' : FixedHash} {x : P2Block} (hx : c.storedBlock height' hash' = some x) :
    ∃ x₁, c₁.storedBlock height' hash' = some x₁ ∧ Grows x x₁ := by
  rw [hv.storedBlock hc]
  split_ifs with heq
  · rw [heq.1, heq.2, hv.stored, Option.some.injEq] at hx
    exact ⟨b₁, rfl, hx ▸ hv.grows⟩
  · exact ⟨x, hx, Grows.refl x⟩

theorem Checked.ancestorOf_of (hc : c.StoresAgree) (hv : Checked core c height hash b b₁ c₁)
    {x x₁ a₁ : P2Block} (hx : Grows x x₁) (ha : c₁.ancestorOf i x₁ = some a₁) :
    ∃ a, c.ancestorOf i x = some a ∧ Grows a a₁ := by
  refine ancestor_rel (R := fun x₁ x => Grows x x₁) (fun x₁ x p₁ hg hp => ?_) hx ha
  rw [parentOf, hg.height_eq, hg.prevHash_eq] at hp
  rw [parentOf]
  split_ifs at hp ⊢
  obtain ⟨p, hstored, hcontent, hle⟩ := hv.storedBlock_iff hc hp
  exact ⟨p, hstored, hcontent, hle⟩

theorem Checked.exists_ancestorOf (hc : c.StoresAgree) (hv : Checked core c height hash b b₁ c₁)
    {x x₁ a : P2Block} (hx : Grows x x₁) (ha : c.ancestorOf i x = some a) :
    ∃ a₁, c₁.ancestorOf i x₁ = some a₁ ∧ Grows a a₁ := by
  refine ancestor_rel (R := fun x x₁ => Grows x x₁) (fun x x₁ p hg hp => ?_) hx ha
  rw [parentOf] at hp
  rw [parentOf, hg.height_eq, hg.prevHash_eq]
  split_ifs at hp ⊢
  exact hv.exists_storedBlock hc hp

/-- A fresh block hides nothing that is stored. -/
theorem Recorded.storedBlock_before (hr : Recorded config hist c)
    (hfresh : ∀ a ∈ hist, a.hash ≠ b.hash) (hw : Writes c b c₀) {x : P2Block}
    (hx : c.storedBlock height hash = some x) : c₀.storedBlock height hash = some x := by
  obtain ⟨a, ha, rfl⟩ := hr.mem_hashes hx
  rw [hw.storedBlock hr.agree (hr.unused hfresh), if_neg (fun h => hfresh a ha h.2)]
  exact hx

theorem Recorded.ancestorOf_before (hr : Recorded config hist c)
    (hfresh : ∀ a ∈ hist, a.hash ≠ b.hash) (hw : Writes c b c₀) {x a : P2Block}
    (ha : c.ancestorOf i x = some a) : c₀.ancestorOf i x = some a := by
  have hparent (y p : P2Block) (hp : c.parentOf y = some p) : c₀.parentOf y = some p := by
    rw [parentOf] at hp ⊢
    split_ifs at hp ⊢
    exact hr.storedBlock_before hfresh hw hp
  obtain ⟨a', ha', rfl⟩ := ancestor_rel (R := fun y z => y = z)
    (fun y z p heq hp => ⟨p, heq ▸ hparent y p hp, rfl⟩) rfl ha
  exact ha'

theorem Prunes.ancestorOf_of (hc : c.StoresAgree) (hp : Prunes c c') {x : P2Block}
    (ha : c'.ancestorOf i x = some a) : c.ancestorOf i x = some a := by
  obtain ⟨a', ha', rfl⟩ : ∃ a', c.ancestorOf i x = some a' ∧ a = a' := ancestor_rel (R := Eq)
    (fun x y p hxy hparent => by
      subst hxy
      rw [parentOf] at hparent ⊢
      split_ifs at hparent ⊢
      exact ⟨p, hp.storedBlock_of hc hparent, rfl⟩) rfl ha
  exact ha'

/-! ### Ancestors among the recorded blocks -/

def recordedBlock (hist : List P2Block) (height : Nat) (hash : FixedHash) : Option P2Block :=
  hist.find? fun b => b.height == height && b.hash == hash

def parentIn (hist : List P2Block) (b : P2Block) : Option P2Block :=
  if b.height = 0 then none else recordedBlock hist (b.height - 1) b.prevHash

abbrev ancestorIn (hist : List P2Block) : Nat → P2Block → Option P2Block := ancestor (parentIn hist)

theorem mem_of_recordedBlock (h : recordedBlock hist height hash = some b) :
    b ∈ hist ∧ b.height = height ∧ b.hash = hash := by
  refine ⟨List.mem_of_find?_eq_some h, ?_⟩
  simpa using List.find?_some h

theorem Distinct.recordedBlock (hd : Distinct hist) (ha : a ∈ hist) :
    P2Chain.recordedBlock hist a.height a.hash = some a := by
  cases hfind : P2Chain.recordedBlock hist a.height a.hash with
  | none =>
    have := List.find?_eq_none.mp hfind a ha
    simp at this
  | some a' =>
    obtain ⟨ha', -, hhash⟩ := mem_of_recordedBlock hfind
    rw [hd.eq ha' ha hhash]

theorem Recorded.recordedBlock (hr : Recorded config hist c) (hd : Distinct hist)
    (hb : c.storedBlock height hash = some b) :
    ∃ a, P2Chain.recordedBlock hist height hash = some a ∧ Grows a b := by
  obtain ⟨a, ha, hcontent, hle⟩ := hr.content hb
  have hgrows : Grows a b := ⟨hcontent.symm, hle⟩
  refine ⟨a, ?_, hgrows⟩
  rw [← hr.agree.height_of_storedBlock hb, ← hr.agree.hash_of_storedBlock hb, hgrows.height_eq,
    hgrows.hash_eq]
  exact hd.recordedBlock ha

theorem Recorded.parentIn (hr : Recorded config hist c) (hd : Distinct hist) {x x₁ p₁ : P2Block}
    (hx : Grows x x₁) (hp : c.parentOf x₁ = some p₁) :
    ∃ p, P2Chain.parentIn hist x = some p ∧ Grows p p₁ := by
  rw [parentOf, hx.height_eq, hx.prevHash_eq] at hp
  rw [P2Chain.parentIn]
  split_ifs at hp ⊢
  exact hr.recordedBlock hd hp

theorem height_of_parentIn (h : parentIn hist b = some a) : b.height = a.height + 1 := by
  rw [parentIn] at h
  split_ifs at h with hheight
  have := (mem_of_recordedBlock h).2.1
  omega

theorem height_of_ancestorIn (h : ancestorIn hist i b = some a) : b.height = a.height + i := by
  induction i generalizing b with
  | zero =>
    cases h
    rfl
  | succ i ih =>
    obtain ⟨p, hp, h⟩ := Option.bind_eq_some_iff.mp h
    rw [height_of_parentIn hp, ih h]
    omega

theorem recordedBlock_cons (hfresh : ∀ a ∈ hist, a.hash ≠ b.hash)
    (h : recordedBlock hist height hash = some a) : recordedBlock (b :: hist) height hash = some a := by
  obtain ⟨ha, -, hhash⟩ := mem_of_recordedBlock h
  rw [recordedBlock, List.find?_cons_of_neg]
  · exact h
  · have := hfresh a ha
    rw [hhash] at this
    simp [Ne.symm this]

theorem parentIn_cons {x : P2Block} (hfresh : ∀ a ∈ hist, a.hash ≠ b.hash)
    (h : parentIn hist x = some a) : parentIn (b :: hist) x = some a := by
  rw [parentIn] at h ⊢
  split_ifs at h ⊢
  exact recordedBlock_cons hfresh h

def Known (hist : List P2Block) (hash : FixedHash) : Prop := ∃ a ∈ hist, a.hash = hash

def blockWith (hist : List P2Block) (hash : FixedHash) : Option P2Block :=
  hist.find? fun b => b.hash == hash

def UnclesKnown (hist : List P2Block) (b : P2Block) : Prop :=
  ∀ uncle ∈ b.uncles, Known hist uncle.2

theorem Distinct.blockWith (hd : Distinct hist) (ha : a ∈ hist) :
    P2Chain.blockWith hist a.hash = some a := by
  cases hfind : P2Chain.blockWith hist a.hash with
  | none =>
    have := List.find?_eq_none.mp hfind a ha
    simp at this
  | some a' =>
    have hhash : a'.hash = a.hash := by simpa using List.find?_some hfind
    rw [hd.eq (List.mem_of_find?_eq_some hfind) ha hhash]

theorem blockWith_cons (hfresh : ∀ a ∈ hist, a.hash ≠ b.hash) (h : Known hist hash) :
    blockWith (b :: hist) hash = blockWith hist hash := by
  obtain ⟨x, hx, heq⟩ := h
  rw [blockWith, List.find?_cons_of_neg, ← blockWith]
  have := hfresh x hx
  rw [heq] at this
  simp [Ne.symm this]

theorem Recorded.blockWith (hr : Recorded config hist c) (hd : Distinct hist)
    (hb : c.storedBlock height hash = some b) :
    ∃ a, P2Chain.blockWith hist hash = some a ∧ Grows a b := by
  obtain ⟨a, ha, hcontent, hle⟩ := hr.content hb
  have hhash : a.hash = hash :=
    (hash_of_withoutStatus hcontent).trans (hr.agree.hash_of_storedBlock hb)
  exact ⟨a, by rw [← hhash, hd.blockWith ha], hcontent.symm, hle⟩

/-! ### Lineages of a given length -/

theorem lineage_one (parent : P2Block → Option P2Block) (x : P2Block) : lineage parent 1 x = [x] := by
  rw [lineage_succ]
  cases parent x <;> rfl

theorem length_lineage_le_height (hc : c.StoresAgree) :
    (lineage c.parentOf n b).length ≤ b.height + 1 := by
  by_contra hlong
  have hlen : b.height + 1 < (lineage c.parentOf n b).length := by omega
  obtain ⟨a, ha⟩ : ∃ a, (lineage c.parentOf n b)[b.height + 1]? = some a :=
    ⟨_, List.getElem?_eq_getElem hlen⟩
  rw [getElem?_lineage] at ha
  split_ifs at ha
  have := height_of_ancestorOf hc ha
  omega

theorem lineage_eq_of_height (hc : c.StoresAgree) {m : Nat} (hn : b.height + 1 ≤ n) (hnm : n ≤ m) :
    lineage c.parentOf m b = lineage c.parentOf n b := by
  have htake : (lineage c.parentOf m b).take n = lineage c.parentOf n b := by
    rw [take_lineage, Nat.min_eq_left hnm]
  rw [← htake, List.take_of_length_le ((length_lineage_le_height hc).trans hn)]

/-- The ancestors of `b` are stored for the given number of heights, or back to height 0. -/
def StoredBack (n : Nat) (c : P2Chain) (b : P2Block) : Prop :=
  ∀ i < n, ∀ a, c.ancestorOf i b = some a → a.height ≠ 0 → ∃ p, c.parentOf a = some p

instance (n : Nat) (c : P2Chain) (b : P2Block) : Decidable (StoredBack n c b) :=
  decidable_of_iff
    (∀ i < n, ∀ a ∈ c.ancestorOf i b, a.height ≠ 0 → (c.parentOf a).isSome = true)
    ⟨fun h i hi a ha hne => Option.isSome_iff_exists.mp (h i hi a ha hne),
      fun h i hi a ha hne => Option.isSome_iff_exists.mpr (h i hi a ha hne)⟩

theorem StoredBack.of_height (hc : c.StoresAgree) (h : StoredBack b.height c b) : StoredBack n c b := by
  intro i _ a ha hheight
  have := height_of_ancestorOf hc ha
  exact h i (by omega) a ha hheight

/-- The ancestors of `b` are recorded for the given number of heights, or back to height 0. -/
def RecordedBack (n : Nat) (hist : List P2Block) (b : P2Block) : Prop :=
  ∀ i < n, ∀ a, ancestorIn hist i b = some a → a.height ≠ 0 → ∃ p, parentIn hist a = some p

theorem names_parent_eq {y y' : P2Block} (h : y.withoutStatus = y'.withoutStatus) :
    y.height = y'.height ∧ y.prevHash = y'.prevHash :=
  ⟨field_eq P2Block.height (fun _ _ => rfl) h, field_eq P2Block.prevHash (fun _ _ => rfl) h⟩

theorem Distinct.agree (hd : Distinct hist) (a : P2Block) (ha : a ∈ hist) (a' : P2Block)
    (ha' : a' ∈ hist) (h : a.hash = a'.hash) : a.withoutStatus = a'.withoutStatus := by
  rw [hd.eq ha ha' h]

/-- Flags do not matter for a lineage. -/
theorem RecordedBack.congr {x x' : P2Block} (hcontent : x'.withoutStatus = x.withoutStatus)
    (h : RecordedBack n hist x) : RecordedBack n hist x' := by
  obtain ⟨hheights, hprev⟩ := names_parent_eq hcontent
  have hparent : parentIn hist x' = parentIn hist x := by rw [parentIn, parentIn, hheights, hprev]
  intro i hi a ha hheight
  cases i with
  | zero =>
    cases ha
    rw [hparent]
    exact h 0 hi x rfl (hheights ▸ hheight)
  | succ i =>
    rw [ancestorIn, ancestor_succ, hparent] at ha
    exact h (i + 1) hi a ha hheight

theorem lineage_congr {γ : Type} {f : P2Block → γ} {hist' : List P2Block} {x x' : P2Block}
    (hf : ∀ y y' : P2Block, y.withoutStatus = y'.withoutStatus → f y = f y')
    (hcontent : x.withoutStatus = x'.withoutStatus)
    (hagree : ∀ a ∈ hist, ∀ a' ∈ hist', a.hash = a'.hash → a.withoutStatus = a'.withoutStatus)
    (h : RecordedBack n hist x) (h' : RecordedBack n hist' x') :
    (lineage (parentIn hist) (n + 1) x).map f = (lineage (parentIn hist') (n + 1) x').map f := by
  refine map_lineage_eq (R := fun y y' : P2Block => y.withoutStatus = y'.withoutStatus) hf hcontent
    (fun i hi a a' ha ha' heq => ?_)
  obtain ⟨hheights, hprev⟩ := names_parent_eq heq
  by_cases hzero : a.height = 0
  · exact Or.inl ⟨by rw [parentIn, if_pos hzero], by rw [parentIn, if_pos (hheights ▸ hzero)]⟩
  · obtain ⟨p, hp⟩ := h i (by omega) a ha hzero
    obtain ⟨p', hp'⟩ := h' i (by omega) a' ha' (hheights ▸ hzero)
    refine Or.inr ⟨p, p', hp, hp', ?_⟩
    rw [parentIn, if_neg hzero] at hp
    rw [parentIn, if_neg (hheights ▸ hzero)] at hp'
    obtain ⟨hmem, -, hhash⟩ := mem_of_recordedBlock hp
    obtain ⟨hmem', -, hhash'⟩ := mem_of_recordedBlock hp'
    exact hagree p hmem p' hmem' (by rw [hhash, hhash', hprev])

theorem RecordedBack.ancestorIn_of_cons {x : P2Block} (hfresh : ∀ a ∈ hist, a.hash ≠ b.hash)
    (h : RecordedBack n hist x) (hi : i ≤ n) (ha : ancestorIn (b :: hist) i x = some a) :
    ancestorIn hist i x = some a := by
  induction i generalizing a with
  | zero => exact ha
  | succ i ih =>
    rw [ancestorIn, ancestor_succ', Option.bind_eq_some_iff] at ha ⊢
    obtain ⟨y, hy, hp⟩ := ha
    have hy' := ih (by omega) hy
    refine ⟨y, hy', ?_⟩
    have hheight : y.height ≠ 0 := by
      have := height_of_parentIn hp
      omega
    obtain ⟨p, hp'⟩ := h i (by omega) y hy' hheight
    rw [parentIn_cons hfresh hp'] at hp
    rw [hp', hp]

theorem RecordedBack.cons {x : P2Block} (hfresh : ∀ a ∈ hist, a.hash ≠ b.hash)
    (h : RecordedBack n hist x) : RecordedBack n (b :: hist) x := by
  intro i hi a ha hheight
  obtain ⟨p, hp⟩ := h i hi a (h.ancestorIn_of_cons hfresh (by omega) ha) hheight
  exact ⟨p, parentIn_cons hfresh hp⟩

theorem lineage_cons {x : P2Block} (hfresh : ∀ a ∈ hist, a.hash ≠ b.hash)
    (h : RecordedBack n hist x) :
    lineage (parentIn (b :: hist)) (n + 1) x = lineage (parentIn hist) (n + 1) x := by
  have hmap : (lineage (parentIn (b :: hist)) (n + 1) x).map id =
      (lineage (parentIn hist) (n + 1) x).map id :=
    map_lineage_eq (R := Eq) (fun _ _ heq => heq) rfl (fun i hi y y' hy hy' heq => by
      subst heq
      by_cases hzero : y.height = 0
      · exact Or.inl ⟨by rw [parentIn, if_pos hzero], by rw [parentIn, if_pos hzero]⟩
      · obtain ⟨p, hp⟩ := h i (by omega) y hy' hzero
        exact Or.inr ⟨p, p, parentIn_cons hfresh hp, hp, rfl⟩)
  rwa [List.map_id, List.map_id] at hmap

theorem Recorded.exists_ancestorOf (hr : Recorded config hist c) (hd : Distinct hist)
    {x x₁ : P2Block} (hx : Grows x x₁) (hstored : StoredBack n c x₁) (hi : i ≤ n)
    (ha : ancestorIn hist i x = some a) : ∃ a₁, c.ancestorOf i x₁ = some a₁ ∧ Grows a a₁ := by
  induction i generalizing a with
  | zero =>
    cases ha
    exact ⟨x₁, rfl, hx⟩
  | succ i ih =>
    rw [ancestorIn, ancestor_succ', Option.bind_eq_some_iff] at ha
    obtain ⟨y, hy, hp⟩ := ha
    obtain ⟨y₁, hy₁, hgrows⟩ := ih (by omega) hy
    have hheight : y₁.height ≠ 0 := by
      have := height_of_parentIn hp
      rw [hgrows.height_eq]
      omega
    obtain ⟨p₁, hp₁⟩ := hstored i (by omega) y₁ hy₁ hheight
    obtain ⟨p, hp', hgrows'⟩ := hr.parentIn hd hgrows hp₁
    rw [hp, Option.some.injEq] at hp'
    refine ⟨p₁, ?_, hp' ▸ hgrows'⟩
    exact ancestor_succ'.trans (Option.bind_eq_some_iff.mpr ⟨y₁, hy₁, hp₁⟩)

theorem Recorded.recordedBack (hr : Recorded config hist c) (hd : Distinct hist) {x x₁ : P2Block}
    (hx : Grows x x₁) (hstored : StoredBack n c x₁) : RecordedBack n hist x := by
  intro i hi a ha hheight
  obtain ⟨a₁, ha₁, hgrows⟩ := hr.exists_ancestorOf hd hx hstored (by omega) ha
  obtain ⟨p₁, hp₁⟩ := hstored i hi a₁ ha₁ (hgrows.height_eq ▸ hheight)
  obtain ⟨p, hp, -⟩ := hr.parentIn hd hgrows hp₁
  exact ⟨p, hp⟩

theorem Recorded.lineage_eq {γ : Type} {f : P2Block → γ} (hr : Recorded config hist c)
    (hd : Distinct hist) {x x₁ : P2Block} (hx : Grows x x₁) (hstored : StoredBack n c x₁)
    (hf : ∀ y y₁, Grows y y₁ → f y₁ = f y) :
    (lineage c.parentOf (n + 1) x₁).map f = (lineage (P2Chain.parentIn hist) (n + 1) x).map f := by
  refine map_lineage_eq (R := fun y₁ y => Grows y y₁) (fun y₁ y h => hf y y₁ h) hx
    (fun i hi a₁ a ha₁ ha hgrows => ?_)
  by_cases hheight : a₁.height = 0
  · refine Or.inl ⟨by rw [parentOf, if_pos hheight], ?_⟩
    rw [P2Chain.parentIn, if_pos (hgrows.height_eq ▸ hheight)]
  · obtain ⟨p₁, hp₁⟩ := hstored i (by omega) a₁ ha₁ hheight
    obtain ⟨p, hp, hgrows'⟩ := hr.parentIn hd hgrows hp₁
    exact Or.inr ⟨p₁, p, hp₁, hp, hgrows'⟩

/-! ### The block at the tip -/

theorem Prunes.tip_of (hc : c.StoresAgree) (hp : Prunes c c')
    (h : c'.storedBlock c'.currentTip c'.tipHash = some b) :
    c.storedBlock c.currentTip c.tipHash = some b := by
  have hhash : c'.tipHash = c.tipHash := by
    rw [tipHash, tipHash, hp.currentTip, hp.chainBlockAt]
    split_ifs with hlevel
    · rfl
    · have hagree := hp.storesAgree hc
      obtain ⟨level, hlevel', -⟩ := hagree.level_of_storedBlock h
      rw [hp.currentTip] at hlevel'
      rw [hlevel'] at hlevel
      exact absurd rfl hlevel
  have hstored := hp.storedBlock_of hc h
  rwa [hhash, hp.currentTip] at hstored

theorem Checked.tip_of (hc : c.StoresAgree) (hv : Checked core c height hash b b₁ c₁) {x₁ : P2Block}
    (h : c₁.storedBlock c₁.currentTip c₁.tipHash = some x₁) :
    ∃ x, c.storedBlock c.currentTip c.tipHash = some x ∧ Grows x x₁ := by
  rw [hv.tipHash_eq, hv.currentTip] at h
  obtain ⟨x, hx, hcontent, hle⟩ := hv.storedBlock_iff hc h
  exact ⟨x, hx, hcontent, hle⟩

theorem Recorded.tip_of_writes (hr : Recorded config hist c) (hd : Distinct (b :: hist))
    (hfresh : ∀ a ∈ hist, a.hash ≠ b.hash) (hw : Writes c b c') {x : P2Block}
    (h : c'.storedBlock c'.currentTip c'.tipHash = some x) :
    c.storedBlock c.currentTip c.tipHash = some x := by
  rw [hw.tipHash_eq, hw.currentTip, hw.storedBlock hr.agree (hr.unused hfresh)] at h
  split_ifs at h with hnew
  · have hne : c.chainBlockAt c.currentTip ≠ FixedHash.zero := by
      change c.tipHash ≠ _
      rw [hnew.2]
      exact hd.nonzero b List.mem_cons_self
    obtain ⟨y, hy⟩ := hr.marks hne
    obtain ⟨a, ha, heq⟩ := hr.mem_hashes hy
    exact absurd (heq.trans hnew.2) (hfresh a ha)
  · exact h

/-- The stored parent of a block that builds on the tip is the block at the tip. -/
theorem Recorded.parentOf_of_buildsOnTip (hr : Recorded config hist c)
    (h : c.buildsOnTip b.header = true) :
    ∃ tip, c.storedBlock c.currentTip c.tipHash = some tip ∧ b.prevHash = c.tipHash ∧
      ∀ p, c.parentOf b = some p → p = tip := by
  obtain ⟨hne, hprev⟩ := buildsOnTip_iff.mp h
  change _ = b.prevHash at hprev
  obtain ⟨tip, htip⟩ := hr.exists_tip hne
  refine ⟨tip, htip, hprev.symm, fun p hp => ?_⟩
  rw [parentOf] at hp
  split_ifs at hp
  rw [← hprev] at hp
  exact (hr.agree.storedBlock_inj hp htip).2

/-! ### The search for a reorg -/

theorem header_lookup_eq (hc : c.StoresAgree) (hheight : b.height ≠ 0) :
    c.getBlockHeaderAtHeight (b.header.height - 1) b.header.prevHash =
      (c.parentOf b).map P2Block.header := by
  change c.getBlockHeaderAtHeight (b.height - 1) b.prevHash = _
  rw [hc.getBlockHeaderAtHeight_eq, parentOf, if_neg hheight]

/-- A search that finds nothing in the way has seen a stored and verified parent of every block of
the window above height 0, as far as the first block on the main chain. -/
theorem verified_of_scanAncestors (hc : c.StoresAgree) {steps : Nat} {result result' : ChainAddResult}
    (hb : c.storedBlock b.height b.hash = some b)
    (hscan : c.scanAncestors steps b.header result = .ok (true, result'))
    (hnone : result'.missingBlocks.size = 0) (hi : i < steps) (ha : c.ancestorOf i b = some a)
    (hheight : a.height ≠ 0)
    (hside : ∀ j < i, ∀ m, c.ancestorOf j b = some m → c.chainBlockAt m.height ≠ m.hash) :
    ∃ p, c.parentOf a = some p ∧ p.verified.isVerified = true := by
  induction steps generalizing b i with
  | zero => omega
  | succ steps ih =>
    rw [scanAncestors] at hscan
    have hbheight : b.height ≠ 0 := by
      have := height_of_ancestorOf hc ha
      omega
    rw [if_neg (show b.header.height ≠ 0 from hbheight), header_lookup_eq hc hbheight] at hscan
    cases hparent : c.parentOf b with
    | none =>
      simp only [hparent, Option.map_none, Except.ok.injEq, Prod.mk.injEq] at hscan
      rw [← hscan.2] at hnone
      exact absurd hnone (size_addMissing_ne_zero _ _ _)
    | some p =>
      simp only [hparent, Option.map_some] at hscan
      have hverified : p.verified.isVerified = true := by
        by_contra hunverified
        rw [if_pos (by simpa using hunverified)] at hscan
        cases hscan
      cases i with
      | zero =>
        cases ha
        exact ⟨p, hparent, hverified⟩
      | succ i =>
        rw [if_neg (by simpa using hverified), if_neg (by omega)] at hscan
        obtain ⟨level, hlevel, -⟩ := hc.level_of_storedBlock hb
        have hmark := chainBlockAt_of_level hlevel
        simp only [P2Block.header_height, hlevel] at hscan
        have hb' := hside 0 (by omega) b rfl
        rw [hmark] at hb'
        rw [if_neg (show level.chainBlock ≠ b.header.hash from hb')] at hscan
        rw [ancestorOf, ancestor_succ, hparent, Option.bind_some] at ha
        refine ih (stored_of_parentOf hc hparent) hscan (by omega) ha (fun j hj m hm => ?_)
        exact hside (j + 1) (by omega) m (by rw [ancestorOf, ancestor_succ, hparent]; exact hm)

/-- A search that sees only stored and verified ancestors finds nothing in the way. -/
theorem scanAncestors_of_verified (hc : c.StoresAgree) {steps : Nat} {result : ChainAddResult}
    (hb : c.storedBlock b.height b.hash = some b)
    (hancestors : ∀ i < steps, ∀ a, c.ancestorOf i b = some a → a.height ≠ 0 →
      ∃ p, c.parentOf a = some p ∧ p.verified.isVerified = true) :
    c.scanAncestors steps b.header result = .ok (true, result) := by
  induction steps generalizing b with
  | zero => rfl
  | succ steps ih =>
    rw [scanAncestors]
    by_cases hheight : b.height = 0
    · rw [if_pos (show b.header.height = 0 from hheight)]
    · obtain ⟨p, hparent, hverified⟩ := hancestors 0 (by omega) b rfl hheight
      rw [if_neg (show b.header.height ≠ 0 from hheight), header_lookup_eq hc hheight, hparent]
      simp only [Option.map_some]
      rw [if_neg (by simpa using hverified)]
      split_ifs with hlast
      · rfl
      · obtain ⟨level, hlevel, -⟩ := hc.level_of_storedBlock hb
        simp only [P2Block.header_height, hlevel]
        split_ifs
        · rfl
        · refine ih (stored_of_parentOf hc hparent) (fun i hi a ha hne => ?_)
          exact hancestors (i + 1) (by omega) a
            (by rw [ancestorOf, ancestor_succ, hparent]; exact ha) hne

/-! ### Rooted blocks -/

/-- The ancestors of a block are stored and verified as far as the search for a reorg looks. -/
def Rooted (c : P2Chain) (b : P2Block) : Prop :=
  ∀ i < windowRounds c.config, ∀ a, c.ancestorOf i b = some a → a.height ≠ 0 →
    ∃ p, c.parentOf a = some p ∧ p.verified.isVerified = true

theorem windowRounds_cases (config : ChainConfig) :
    (config.shareWindow ≤ 1 ∧ windowRounds config = 1) ∨
      windowRounds config = config.shareWindow - 1 := by
  rw [windowRounds]
  obtain hle | hlt := Nat.lt_or_ge config.shareWindow 2
  · exact Or.inl ⟨by omega, max_eq_left (by omega)⟩
  · exact Or.inr (max_eq_right (by omega))

theorem exists_ancestorOf_of_rooted {n : Nat} (hc : c.StoresAgree) (hroot : c.Rooted b)
    (hn : n ≤ windowRounds c.config) (hle : n ≤ b.height) :
    ∃ a, c.ancestorOf n b = some a ∧ (n ≠ 0 → a.verified.isVerified = true) := by
  induction n with
  | zero => exact ⟨b, rfl, fun h => absurd rfl h⟩
  | succ n ih =>
    obtain ⟨a, ha, -⟩ := ih (by omega) (by omega)
    have hheight := height_of_ancestorOf hc ha
    obtain ⟨p, hp, hverified⟩ := hroot n (by omega) a ha (by omega)
    exact ⟨p, by rw [ancestorOf, ancestor_succ', show ancestor c.parentOf n b = some a from ha,
      Option.bind_some, hp], fun _ => hverified⟩

theorem Rooted.of_parent {p x : P2Block} (hroot : c.Rooted p) (hp : c.parentOf x = some p)
    (hverified : p.verified.isVerified = true) : c.Rooted x := by
  intro i hi a ha hne
  cases i with
  | zero =>
    cases ha
    exact ⟨p, hp, hverified⟩
  | succ i =>
    rw [ancestorOf, ancestor_succ, hp, Option.bind_some] at ha
    exact hroot i (by omega) a ha hne

theorem rooted_of_height_zero {x : P2Block} (hzero : x.height = 0) : c.Rooted x := by
  intro i _ a ha hne
  cases i with
  | zero =>
    cases ha
    exact absurd hzero hne
  | succ i =>
    rw [ancestorOf, ancestor_succ, parentOf, if_pos hzero] at ha
    cases ha

/-! ### Reorgs -/

/-- Visiting the block stored at a height under a hash makes it, as `b₁` in the chain `c₁`, the tip
by a reorg. -/
def ReorgsTo (core : TariCore) (c : P2Chain) (height : Nat) (hash : FixedHash) (b₁ : P2Block)
    (c₁ : P2Chain) : Prop :=
  ∃ b result, Candidate core c height hash b b₁ c₁ result ∧
    c₁.totalAccumulatedTipDifficulty < b₁.totalPow

def linear (w : WalkState) : Bool :=
  match w.nextLevel with
  | [] => true
  | (height, hash) :: _ =>
    if w.chain.tipHash = FixedHash.zero then height == 0
    else ((w.chain.storedBlock height hash).map (·.prevHash)) == some w.chain.tipHash

theorem not_reorgsTo_of_linear {w : WalkState} {rest : List (Nat × FixedHash)}
    (h : linear w = true) (hqueue : w.nextLevel = (height, hash) :: rest) :
    ¬ReorgsTo core w.chain height hash b₁ c₁ := by
  rintro ⟨b, result, hcandidate, -⟩
  rw [linear, hqueue] at h
  have hoff := hcandidate.offTip
  rw [hcandidate.buildsOnTip_eq, ← Bool.not_eq_true, buildsOnTip_iff] at hoff
  have hstart := hcandidate.notStart
  rw [getTip_eq_none_iff, hcandidate.tipHash_eq] at hstart
  by_cases htip : w.chain.tipHash = FixedHash.zero
  · simp only [if_pos htip, beq_iff_eq] at h
    exact hstart ⟨htip, h⟩
  · simp only [if_neg htip, hcandidate.stored, Option.map_some, beq_iff_eq,
      Option.some.injEq] at h
    exact hoff ⟨htip, h.symm⟩

/-- Every block stored below a height is verified and has its parent stored and verified. -/
def rooted (c : P2Chain) (height : Nat) : Bool :=
  c.levels.values.all fun level => height ≤ level.height ||
    level.blockHeaders.values.all fun header => header.verified.isVerified && (header.height == 0 ||
      ((c.storedBlock (header.height - 1) header.prevHash).map (·.verified.isVerified)) == some true)

theorem exists_parent_of_rooted (hc : c.StoresAgree) (h : rooted c height = true) {height' : Nat}
    (ha : c.storedBlock height' hash = some a) (hlt : height' < height) (hne : height' ≠ 0) :
    ∃ p, c.parentOf a = some p ∧ p.verified.isVerified = true := by
  obtain ⟨level, hlevel, hheader⟩ := hc.level_of_storedBlock ha
  simp only [rooted, List.all_eq_true, Bool.or_eq_true, Bool.and_eq_true, decide_eq_true_eq,
    beq_iff_eq] at h
  have hheight := hc.height_of_storedBlock ha
  obtain hle | hheaders := h level (KeyedMap.mem_values_of_find? hlevel)
  · rw [height_of_levelAtHeight hlevel] at hle
    omega
  obtain ⟨-, hzero | hparent⟩ := hheaders a.header (KeyedMap.mem_values_of_find? hheader)
  · exact absurd (hheight.symm.trans hzero) hne
  · rw [parentOf, if_neg (by rwa [hheight])]
    exact Option.map_eq_some_iff.mp hparent

theorem Checked.exists_parent_of_rooted (hc : c.StoresAgree) (hv : Checked core c height hash b b₁ c₁)
    (h : rooted c height = true) (hi : i ≠ 0) (ha : c₁.ancestorOf i b₁ = some a) (hne : a.height ≠ 0) :
    ∃ p, c₁.parentOf a = some p ∧ p.verified.isVerified = true := by
  have hc₁ := hv.storesAgree hc
  have hbelow := height_of_ancestorOf hc₁ ha
  have hheight := hv.height_eq hc
  have hkept {height' : Nat} {hash' : FixedHash} (hlt : height' < height) :
      c₁.storedBlock height' hash' = c.storedBlock height' hash' := by
    rw [hv.storedBlock hc, if_neg fun heq => absurd heq.1 hlt.ne]
  have hstored := stored_of_ancestorOf hc₁ (by
    rw [hheight, hv.hash_eq hc]
    exact hv.storedBlock_self hc) ha
  rw [hkept (by omega)] at hstored
  obtain ⟨p, hp, hverified⟩ := P2Chain.exists_parent_of_rooted hc h hstored (by omega) hne
  refine ⟨p, ?_, hverified⟩
  rw [parentOf, if_neg hne] at hp ⊢
  rw [hkept (by omega)]
  exact hp

/-- The next block to visit starts the chain, builds on the tip, or stands on blocks whose parents
are stored and verified. -/
def upright (w : WalkState) : Bool :=
  linear w || match w.nextLevel with
    | [] => true
    | (height, _) :: _ => height != 0 && rooted w.chain height

theorem parents_of_upright {w : WalkState} {rest : List (Nat × FixedHash)} (hc : w.chain.StoresAgree)
    (h : upright w = true) (hqueue : w.nextLevel = (height, hash) :: rest)
    (hreorgs : ReorgsTo core w.chain height hash b₁ c₁) : height ≠ 0 ∧ ∀ i a, i ≠ 0 →
      c₁.ancestorOf i b₁ = some a → a.height ≠ 0 →
      ∃ p, c₁.parentOf a = some p ∧ p.verified.isVerified = true := by
  rw [upright, Bool.or_eq_true, hqueue, Bool.and_eq_true, bne_iff_ne] at h
  obtain hlinear | ⟨hheight, hrooted⟩ := h
  · exact absurd hreorgs (not_reorgsTo_of_linear hlinear hqueue)
  · obtain ⟨b, result, hcandidate, -⟩ := hreorgs
    exact ⟨hheight, fun i a hi ha hne =>
      hcandidate.toChecked.exists_parent_of_rooted hc hrooted hi ha hne⟩

end P2Chain

end ShaP2Pool
