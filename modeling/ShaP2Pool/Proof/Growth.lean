import ShaP2Pool.Proof.Acceptance

/-!
# How a chain grows

What miners who follow the protocol bring about, apart from any node: a tree of blocks, each of
which stands on an earlier one, may list earlier ones as uncles, claims the work this adds up to and
is not far below the highest block. The main chain is the path down from the heaviest block, the
earliest of them if there are several. Nothing here is about a node; that a node which is sent these
blocks has the same main chain is shown elsewhere.
-/

namespace ShaP2Pool

open P2Chain (Distinct targets)

/-! ### Paths -/

/-- The blocks stand on each other, down to height 0. -/
inductive Trunk : List P2Block → Prop
  | nil : Trunk []
  | bottom {x : P2Block} (hheight : x.height = 0) (hprev : x.prevHash = FixedHash.zero) : Trunk [x]
  | step {x p : P2Block} {rest : List P2Block} (htrunk : Trunk (p :: rest))
    (hheight : x.height = p.height + 1) (hprev : x.prevHash = p.hash) : Trunk (x :: p :: rest)

namespace Trunk

variable {x y m p : P2Block} {trunk trunk' fed : List P2Block} {n : Nat}

theorem pairwise (h : Trunk trunk) : trunk.Pairwise fun a b => b.height < a.height := by
  induction h with
  | nil => exact List.Pairwise.nil
  | bottom => exact List.pairwise_singleton _ _
  | step htrunk hheight hprev ih =>
    refine List.pairwise_cons.mpr ⟨fun b hb => ?_, ih⟩
    rw [hheight]
    obtain rfl | hb := List.mem_cons.mp hb
    · exact Nat.lt_succ_self _
    · exact Nat.lt_succ_of_lt ((List.pairwise_cons.mp ih).1 b hb)

theorem height_lt (h : Trunk (x :: trunk)) (hy : y ∈ trunk) : y.height < x.height :=
  (List.pairwise_cons.mp h.pairwise).1 y hy

theorem height_le (h : Trunk (x :: trunk)) (hy : y ∈ x :: trunk) : y.height ≤ x.height := by
  obtain rfl | hy := List.mem_cons.mp hy
  · exact le_rfl
  · exact (h.height_lt hy).le

theorem eq_of_height (h : Trunk trunk) (hm : m ∈ trunk) (hp : p ∈ trunk)
    (heq : m.height = p.height) : m = p := by
  have hpairwise := h.pairwise
  clear h
  induction trunk with
  | nil => cases hm
  | cons t trunk ih =>
    obtain ⟨htop, hrest⟩ := List.pairwise_cons.mp hpairwise
    obtain rfl | hm' := List.mem_cons.mp hm
    · obtain rfl | hp' := List.mem_cons.mp hp
      · rfl
      · have hlt := htop p hp'
        omega
    · obtain rfl | hp' := List.mem_cons.mp hp
      · have hlt := htop m hm'
        omega
      · exact ih hm' hp' hrest

theorem exists_below (h : Trunk trunk) (hy : y ∈ trunk) (hne : y.height ≠ 0) :
    ∃ p ∈ trunk, y.prevHash = p.hash ∧ y.height = p.height + 1 := by
  induction h with
  | nil => cases hy
  | bottom hheight =>
    rw [List.mem_singleton.mp hy] at hne
    exact absurd hheight hne
  | @step x p rest htrunk hheight hprev ih =>
    obtain rfl | hy := List.mem_cons.mp hy
    · exact ⟨p, List.mem_cons_of_mem _ List.mem_cons_self, hprev, hheight⟩
    · obtain ⟨q, hq, hbelow⟩ := ih hy
      exact ⟨q, List.mem_cons_of_mem _ hq, hbelow⟩

/-- A path has a block at every height below one of its blocks. -/
theorem exists_at (h : Trunk trunk) (hm : m ∈ trunk) (hn : n ≤ m.height) :
    ∃ y ∈ trunk, y.height = n := by
  obtain ⟨k, hk⟩ := Nat.exists_eq_add_of_le hn
  induction k generalizing m with
  | zero => exact ⟨m, hm, hk⟩
  | succ k ih =>
    obtain ⟨p, hp, -, hheight⟩ := h.exists_below hm (by omega)
    exact ih hp (by omega) (by omega)

/-- Two paths through one block are the same below it. -/
theorem mem_of_mem (h : Trunk trunk) (h' : Trunk trunk') (hd : Distinct fed)
    (hsub : ∀ y ∈ trunk, y ∈ fed) (hsub' : ∀ y ∈ trunk', y ∈ fed) (hm : m ∈ trunk) (hm' : m ∈ trunk')
    (hy : y ∈ trunk) (hle : y.height ≤ m.height) : y ∈ trunk' := by
  obtain ⟨k, hk⟩ := Nat.exists_eq_add_of_le hle
  induction k generalizing m with
  | zero => exact h.eq_of_height hm hy hk ▸ hm'
  | succ k ih =>
    obtain ⟨p, hp, hprev, hheight⟩ := h.exists_below hm (by omega)
    obtain ⟨p', hp', hprev', -⟩ := h'.exists_below hm' (by omega)
    have heq : p = p' := hd.eq (hsub p hp) (hsub' p' hp') (hprev.symm.trans hprev')
    exact ih hp (heq ▸ hp') (by omega) (by omega)

end Trunk

/-! ### New blocks -/

structure Fresh (fed : List P2Block) (x : P2Block) : Prop where
  nonzero : x.hash ≠ FixedHash.zero
  new : ∀ y ∈ fed, y.hash ≠ x.hash

structure Starts (x : P2Block) : Prop where
  nonzero : x.hash ≠ FixedHash.zero
  height : x.height = 0
  prevHash : x.prevHash = FixedHash.zero
  lists : x.uncles = []
  target : 1 ≤ x.targetDifficulty
  work : x.totalPow = x.targetDifficulty

/-- `x` stands on `p` and lists `us` as uncles. -/
structure Stands (x p : P2Block) (us : List P2Block) : Prop where
  height : x.height = p.height + 1
  prevHash : x.prevHash = p.hash
  lists : x.uncles = us.map fun u => (u.height, u.hash)
  uncles : ∀ u ∈ us, u ≠ p ∧ 0 < u.height ∧ u.height < x.height ∧ x.height ≤ u.height + maxUncleAge
  target : 1 ≤ x.targetDifficulty
  work : x.totalPow = x.targetDifficulty + targets us + p.totalPow
  fits : x.totalPow ≤ u128Max
  room : x.height + maxUncleAge ≤ u64Max

/-- `x` stands on a block of `fed`, lists blocks of it, and is at most `depth` below the highest. -/
structure Joins (depth : Nat) (fed : List P2Block) (x p : P2Block) (us : List P2Block) : Prop
    extends Stands x p us where
  fresh : Fresh fed x
  parent : p ∈ fed
  known : ∀ u ∈ us, u ∈ fed
  near : ∀ y ∈ fed, y.height ≤ x.height + depth

instance (fed : List P2Block) (x : P2Block) : Decidable (Fresh fed x) :=
  decidable_of_iff (x.hash ≠ FixedHash.zero ∧ ∀ y ∈ fed, y.hash ≠ x.hash)
    ⟨fun h => ⟨h.1, h.2⟩, fun h => ⟨h.1, h.2⟩⟩

instance (x : P2Block) : Decidable (Starts x) :=
  decidable_of_iff (x.hash ≠ FixedHash.zero ∧ x.height = 0 ∧ x.prevHash = FixedHash.zero ∧
      x.uncles = [] ∧ 1 ≤ x.targetDifficulty ∧ x.totalPow = x.targetDifficulty)
    ⟨fun h => ⟨h.1, h.2.1, h.2.2.1, h.2.2.2.1, h.2.2.2.2.1, h.2.2.2.2.2⟩,
      fun h => ⟨h.nonzero, h.height, h.prevHash, h.lists, h.target, h.work⟩⟩

instance (x p : P2Block) (us : List P2Block) : Decidable (Stands x p us) :=
  decidable_of_iff (x.height = p.height + 1 ∧ x.prevHash = p.hash ∧
      (x.uncles = us.map fun u => (u.height, u.hash)) ∧
      (∀ u ∈ us, u ≠ p ∧ 0 < u.height ∧ u.height < x.height ∧ x.height ≤ u.height + maxUncleAge) ∧
      1 ≤ x.targetDifficulty ∧ x.totalPow = x.targetDifficulty + targets us + p.totalPow ∧
      x.totalPow ≤ u128Max ∧ x.height + maxUncleAge ≤ u64Max)
    ⟨fun h => by
        obtain ⟨hheight, hprev, hlists, huncles, htarget, hwork, hfits, hroom⟩ := h
        exact ⟨hheight, hprev, hlists, huncles, htarget, hwork, hfits, hroom⟩,
      fun h => ⟨h.height, h.prevHash, h.lists, h.uncles, h.target, h.work, h.fits, h.room⟩⟩

instance (depth : Nat) (fed : List P2Block) (x p : P2Block) (us : List P2Block) :
    Decidable (Joins depth fed x p us) :=
  decidable_of_iff (Stands x p us ∧ Fresh fed x ∧ p ∈ fed ∧ (∀ u ∈ us, u ∈ fed) ∧
      ∀ y ∈ fed, y.height ≤ x.height + depth)
    ⟨fun h => ⟨h.1, h.2.1, h.2.2.1, h.2.2.2.1, h.2.2.2.2⟩,
      fun h => ⟨h.toStands, h.fresh, h.parent, h.known, h.near⟩⟩

/-- The block `x` comes to the blocks `fed` with the main chain `trunk`, and the last argument is
the main chain with it. A block that stands on the end of the main chain takes its uncles from
beside it. A block that stands elsewhere becomes the end if it is heavier; the two main chains then
part at most `depth` below it. -/
inductive Adds (depth : Nat) : List P2Block → List P2Block → P2Block → List P2Block → Prop
  | start {x : P2Block} (hx : Starts x) : Adds depth [] [] x [x]
  | extend {t x : P2Block} {trunk fed us : List P2Block} (hx : Joins depth fed x t us)
    (huncles : ∀ u ∈ us, u ∉ t :: trunk ∧ ∃ q ∈ t :: trunk, u.prevHash = q.hash) :
    Adds depth (t :: trunk) fed x (x :: t :: trunk)
  | stay {t x p : P2Block} {trunk fed us : List P2Block} (hx : Joins depth fed x p us) (hp : p ≠ t)
    (hpow : x.totalPow ≤ t.totalPow) (hheight : x.height ≤ t.height + depth) :
    Adds depth (t :: trunk) fed x (t :: trunk)
  | switch {t x p : P2Block} {trunk rest fed us : List P2Block} (hx : Joins depth fed x p us)
    (hp : p ≠ t) (hpow : t.totalPow < x.totalPow) (htrunk : Trunk (p :: rest))
    (hfed : ∀ y ∈ p :: rest, y ∈ fed)
    (hfork : ∀ y ∈ p :: rest, y.height + depth ≤ x.height → y ∈ t :: trunk) :
    Adds depth (t :: trunk) fed x (x :: p :: rest)

/-- The blocks `fed`, newest first, have grown one by one, with the main chain `trunk`. -/
inductive Growth (depth : Nat) : List P2Block → List P2Block → Prop
  | nil : Growth depth [] []
  | add {x : P2Block} {trunk trunk' fed : List P2Block} (hgrowth : Growth depth trunk fed)
    (hadds : Adds depth trunk fed x trunk') : Growth depth trunk' (x :: fed)

variable {depth : Nat} {t x y u p m : P2Block} {trunk trunk' fed us : List P2Block}

theorem Adds.fresh (h : Adds depth trunk fed x trunk') : Fresh fed x := by
  cases h with
  | start hx => exact ⟨hx.nonzero, fun y hy => by cases hy⟩
  | extend hx | stay hx | switch hx => exact hx.fresh

theorem Adds.starts_or_joins (h : Adds depth trunk fed x trunk') :
    Starts x ∨ ∃ p us, Joins depth fed x p us := by
  cases h with
  | start hx => exact Or.inl hx
  | extend hx | stay hx | switch hx => exact Or.inr ⟨_, _, hx⟩

namespace Growth

theorem distinct (h : Growth depth trunk fed) : Distinct fed := by
  induction h with
  | nil => exact ⟨by simp, List.nodup_nil⟩
  | add hgrowth hadds ih => exact ih.cons hadds.fresh.nonzero hadds.fresh.new

theorem mem_of_trunk (h : Growth depth trunk fed) (hy : y ∈ trunk) : y ∈ fed := by
  induction h with
  | nil => exact hy
  | add hgrowth hadds ih =>
    cases hadds with
    | start hx => exact hy
    | stay hx => exact List.mem_cons_of_mem _ (ih hy)
    | extend hx =>
      obtain rfl | hy := List.mem_cons.mp hy
      · exact List.mem_cons_self
      · exact List.mem_cons_of_mem _ (ih hy)
    | switch hx _ _ _ hfed =>
      obtain rfl | hy := List.mem_cons.mp hy
      · exact List.mem_cons_self
      · exact List.mem_cons_of_mem _ (hfed y hy)

/-- The main chain is a path. -/
theorem mainChain (h : Growth depth trunk fed) : Trunk trunk := by
  induction h with
  | nil => exact Trunk.nil
  | add hgrowth hadds ih =>
    cases hadds with
    | start hx => exact Trunk.bottom hx.height hx.prevHash
    | extend hx => exact ih.step hx.height hx.prevHash
    | stay => exact ih
    | switch hx _ _ htrunk => exact htrunk.step hx.height hx.prevHash

theorem exists_end (h : Growth depth trunk fed) (hy : y ∈ fed) : ∃ t rest, trunk = t :: rest := by
  cases h with
  | nil => cases hy
  | add hgrowth hadds => cases hadds <;> exact ⟨_, _, rfl⟩

/-- No block is far above the end of the main chain. -/
theorem near (h : Growth depth (t :: trunk) fed) (hy : y ∈ fed) : y.height ≤ t.height + depth := by
  generalize heq : t :: trunk = l at h
  induction h generalizing t trunk with
  | nil => cases hy
  | add hgrowth hadds ih =>
    cases hadds with
    | start hx =>
      cases heq
      exact List.mem_singleton.mp hy ▸ Nat.le_add_right _ _
    | extend hx | switch hx =>
      cases heq
      obtain rfl | hy := List.mem_cons.mp hy
      · exact Nat.le_add_right _ _
      · exact hx.near y hy
    | stay hx _ _ hheight =>
      cases heq
      obtain rfl | hy := List.mem_cons.mp hy
      · exact hheight
      · exact ih hy rfl

/-- The end of the main chain is the heaviest block. -/
theorem heaviest (h : Growth depth (t :: trunk) fed) (hy : y ∈ fed) : y.totalPow ≤ t.totalPow := by
  generalize heq : t :: trunk = l at h
  induction h generalizing t trunk with
  | nil => cases hy
  | add hgrowth hadds ih =>
    cases hadds with
    | start hx =>
      cases heq
      rw [List.mem_singleton.mp hy]
    | extend hx =>
      cases heq
      obtain rfl | hy := List.mem_cons.mp hy
      · exact le_rfl
      · rw [hx.work]
        exact (ih hy rfl).trans (Nat.le_add_left _ _)
    | switch hx _ hpow =>
      cases heq
      obtain rfl | hy := List.mem_cons.mp hy
      · exact le_rfl
      · exact (ih hy rfl).trans hpow.le
    | stay hx _ hpow =>
      cases heq
      obtain rfl | hy := List.mem_cons.mp hy
      · exact hpow
      · exact ih hy rfl

theorem room (h : Growth depth trunk fed) (hy : y ∈ fed) : y.height + maxUncleAge ≤ u64Max := by
  induction h with
  | nil => cases hy
  | add hgrowth hadds ih =>
    obtain rfl | hy := List.mem_cons.mp hy
    · obtain hx | ⟨p, us, hx⟩ := hadds.starts_or_joins
      · rw [hx.height]
        decide
      · exact hx.room
    · exact ih hy

/-- Every block is at height 0 or stands on another one. -/
theorem stands (h : Growth depth trunk fed) (hy : y ∈ fed) :
    (y.height = 0 ∧ y.prevHash = FixedHash.zero) ∨
      ∃ p ∈ fed, y.prevHash = p.hash ∧ y.height = p.height + 1 := by
  induction h with
  | nil => cases hy
  | add hgrowth hadds ih =>
    obtain rfl | hy := List.mem_cons.mp hy
    · obtain hx | ⟨p, us, hx⟩ := hadds.starts_or_joins
      · exact Or.inl ⟨hx.height, hx.prevHash⟩
      · exact Or.inr ⟨p, List.mem_cons_of_mem _ hx.parent, hx.prevHash, hx.height⟩
    · obtain hzero | ⟨p, hp, hstands⟩ := ih hy
      · exact Or.inl hzero
      · exact Or.inr ⟨p, List.mem_cons_of_mem _ hp, hstands⟩

theorem mem_of_lists (h : Growth depth trunk fed) (hy : y ∈ fed) {uncle : Nat × FixedHash}
    (huncle : uncle ∈ y.uncles) : ∃ u ∈ fed, uncle = (u.height, u.hash) := by
  induction h with
  | nil => cases hy
  | add hgrowth hadds ih =>
    obtain rfl | hy := List.mem_cons.mp hy
    · obtain hx | ⟨p, us, hx⟩ := hadds.starts_or_joins
      · rw [hx.lists] at huncle
        cases huncle
      · rw [hx.lists] at huncle
        obtain ⟨u, hu, rfl⟩ := List.mem_map.mp huncle
        exact ⟨u, List.mem_cons_of_mem _ (hx.known u hu), rfl⟩
    · obtain ⟨u, hu, heq⟩ := ih hy
      exact ⟨u, List.mem_cons_of_mem _ hu, heq⟩

theorem not_names (h : Growth depth trunk fed) (hfresh : Fresh fed x) (hy : y ∈ fed) :
    ¬P2Chain.Names y x.hash := by
  intro hnames
  obtain hprev | ⟨uncle, huncle, heq⟩ := hnames
  · obtain ⟨-, hzero⟩ | ⟨p, hp, hstands, -⟩ := h.stands hy
    · exact hfresh.nonzero (hprev.symm.trans hzero)
    · exact hfresh.new p hp (hstands.symm.trans hprev)
  · obtain ⟨u, hu, rfl⟩ := h.mem_of_lists hy huncle
    exact hfresh.new u hu heq

end Growth

end ShaP2Pool
