import ShaP2Pool.Library.Highest
import ShaP2Pool.Proof.Reachable

/-!
# The reported tip

One call can move the tip several times, and its result keeps the first of the highest blocks that
took it. A reorg among the unlocked descendants may end lower, or at the same height, so the result
names the tip only if the last block that took it is higher than those before. And that block has to
stay: the pruning behind a new tip may drop its level, and a reorg to a block of height 0 that names
another one as its parent hands the mark on to that one. This holds on any chain.
-/

namespace ShaP2Pool

namespace P2Chain

open Highest

variable {core : TariCore} {ord : IterOrder} {config : ChainConfig} {n height : Nat}
variable {hash : FixedHash} {c c' c₀ c₁ c₂ : P2Chain} {block : P2BlockHeader} {b : P2Block}
variable {addResult r : ChainAddResult} {next : List (Nat × FixedHash)} {w w' : WalkState}
variable {p : FixedHash × Nat} {rest : List (Nat × FixedHash)}

def tipOf (c : P2Chain) : Option (FixedHash × Nat) :=
  c.getTip.map fun tip => (tip.chainBlock, tip.height)

theorem tipOf_eq_some_iff : c.tipOf = some p ↔
    c.tipHash = p.1 ∧ p.1 ≠ FixedHash.zero ∧ c.currentTip = p.2 := by
  rw [tipOf, Option.map_eq_some_iff]
  constructor
  · rintro ⟨tip, htip, rfl⟩
    have hhash := chainBlock_of_getTip htip
    exact ⟨hhash.symm, hhash ▸ exists_getTip_iff.mp ⟨tip, htip⟩, (height_of_getTip htip).symm⟩
  · rintro ⟨hhash, hne, hheight⟩
    obtain ⟨tip, htip⟩ : ∃ tip, c.getTip = some tip := by
      rw [exists_getTip_iff, hhash]
      exact hne
    refine ⟨tip, htip, ?_⟩
    rw [chainBlock_of_getTip htip, height_of_getTip htip, hhash, hheight]

theorem tipOf_congr (htip : c'.currentTip = c.currentTip)
    (hmark : c'.chainBlockAt c.currentTip = c.chainBlockAt c.currentTip) : c'.tipOf = c.tipOf := by
  apply Option.ext
  intro pair
  rw [tipOf_eq_some_iff, tipOf_eq_some_iff, tipHash, tipHash, htip, hmark]

theorem KeepsTip.tipOf (h : KeepsTip c c') : c'.tipOf = c.tipOf :=
  tipOf_congr h.currentTip (h.chainBlockAt _)

/-- The result of a call is right about the tip. -/
structure ReportsTip (c c' : P2Chain) (r : ChainAddResult) : Prop where
  moved : ∀ hash height, r.newTip = some (hash, height) →
    ∃ tip, c'.getTip = some tip ∧ tip.height = height ∧ tip.chainBlock = hash
  unmoved : r.newTip = none → c'.tipOf = c.tipOf

/-! ### Moves -/

structure Move where
  chain : P2Chain
  height : Nat
  hash : FixedHash

namespace Move

/-- What is reported of a move. -/
def pair (m : Move) : FixedHash × Nat := (m.hash, m.height)

/-- The block is the tip after its move: its hash is not zero, its level is not among those dropped
behind a new tip, and a reorg to height 0 does not hand the mark on. -/
structure Stays (core : TariCore) (m : Move) : Prop where
  nonzero : m.hash ≠ FixedHash.zero
  room : ExtendsTip core m.chain m.height m.hash →
    m.chain.levelsAbove m.height < maxLevels m.chain.config
  ownMark : ∀ block, OvertakesTip core m.chain m.height m.hash block →
    m.height = 0 → block.prevHash = m.hash

end Move

/-- The block that a walk looks at next takes the tip by the move `m`. -/
structure Takes (core : TariCore) (w : WalkState) (m : Move) : Prop where
  head : w.nextLevel.head? = some (m.height, m.hash)
  chain : m.chain = w.chain
  takes : TakesTip core m.chain m.height m.hash

/-- The moves of the tip between two states of a walk, in order. -/
inductive TipMoves (core : TariCore) (ord : IterOrder) (start : WalkState) :
    List Move → WalkState → Prop
  | start : TipMoves core ord start [] start
  | kept {moves : List Move} {w w' : WalkState} (hmoves : TipMoves core ord start moves w)
    (hkept : ∀ m, ¬Takes core w m) (hstep : verifyChainStep core ord w = .inl w') :
    TipMoves core ord start moves w'
  | moved {moves : List Move} {w w' : WalkState} {m : Move}
    (hmoves : TipMoves core ord start moves w) (htakes : Takes core w m)
    (hstep : verifyChainStep core ord w = .inl w') : TipMoves core ord start (moves ++ [m]) w'

/-- The moves of the tip in a call, in order, with that of its last round. -/
def CallMoves (core : TariCore) (ord : IterOrder) (b : P2Block) (c : P2Chain) (moves : List Move) :
    Prop :=
  ∃ c₀ earlier w, c.insertBlock b = .ok c₀ ∧
    TipMoves core ord { chain := c₀, nextLevel := [(b.height, b.hash)] } earlier w ∧
    verifyChainStep core ord w = .inr (addBlockToChain core ord b c) ∧
    ((moves = earlier ∧ ∀ m, ¬Takes core w m) ∨ ∃ m, moves = earlier ++ [m] ∧ Takes core w m)

theorem exists_tipMoves {start : WalkState} (hreach : Reaches (verifyChainStep core ord) start w) :
    ∃ moves, TipMoves core ord start moves w := by
  refine hreach.inv (I := fun w => ∃ moves, TipMoves core ord start moves w) ⟨[], TipMoves.start⟩ ?_
  intro u v _ ⟨moves, hmoves⟩ hstep
  by_cases htakes : ∃ m, Takes core u m
  · obtain ⟨m, hm⟩ := htakes
    exact ⟨moves ++ [m], hmoves.moved hm hstep⟩
  · exact ⟨moves, hmoves.kept (fun m hm => htakes ⟨m, hm⟩) hstep⟩

/-! ### One move -/

theorem tipOf_crowned (hkeeps : KeepsTip c c₁) (hcrowns : Crowns c₁ height hash c₂) :
    c₂.cleanupChain.tipOf = some p ↔ p = (hash, height) ∧ hash ≠ FixedHash.zero ∧
      c.levelsAbove height < maxLevels c.config := by
  have hlevels : c₂.levelsAbove height = c.levelsAbove height := by
    apply levelsAbove_congr
    intro height' _
    rw [hcrowns.same.levelAtHeight_isSome, hkeeps.levels]
  rw [tipOf_eq_some_iff, tipHash, currentTip_cleanupChain, chainBlockAt_cleanupChain,
    hcrowns.currentTip, hlevels, hcrowns.same.config, hkeeps.config, hcrowns.chainBlockAt, if_pos rfl]
  split_ifs with hroom
  · constructor
    · rintro ⟨hhash, hne, hheight⟩
      exact ⟨Prod.ext hhash.symm hheight.symm, hhash ▸ hne, hroom⟩
    · rintro ⟨rfl, hne, -⟩
      exact ⟨rfl, hne, rfl⟩
  · constructor
    · intro h
      exact absurd h.1.symm h.2.1
    · intro h
      exact absurd h.2.2 hroom

theorem chainBlockAt_zero_of_reorg (hblock : c₁.getBlockHeaderAtHeight 0 hash = some block)
    (h : c₁.reorg block = .ok c₂) : c₂.chainBlockAt 0 = block.prevHash := by
  have hzero := height_of_getBlockHeaderAtHeight hblock
  obtain ⟨level, hlevel, -⟩ := Option.bind_eq_some_iff.mp hblock
  obtain ⟨cStart, cReset, cLinked, lwma, hinstalls, hreset, hrelink, rfl⟩ :=
    exists_of_reorg block (hzero ▸ hlevel) h
  obtain ⟨hremarks, -⟩ := resetLinksAbove_spec hreset
  have hlevel' : cReset.levelAtHeight (block.height - 1) ≠ none := by
    rw [hzero, Ne, hremarks.same.levelAtHeight_eq_none_iff, hinstalls.same.levelAtHeight_eq_none_iff,
      hlevel]
    simp
  obtain ⟨steps, hsteps⟩ : ∃ steps, windowRounds cReset.config = steps + 1 :=
    Nat.exists_eq_add_of_le' (Nat.le_max_left _ _)
  rw [hsteps] at hrelink
  have hstep := relinkStep steps cReset block
    (Window.empty.pushFront (block.timestamp, block.targetDifficulty))
  rw [hrelink] at hstep
  change cLinked.chainBlockAt 0 = block.prevHash
  generalize hr : (Except.ok (cLinked, lwma) : Except Fault _) = r at hstep
  cases hstep with
  | noLevel hnone => exact absurd hnone hlevel'
  | full hmark | bottom hmark =>
    cases hr
    rwa [hzero] at hmark
  | corrupted => cases hr
  | linked hnext _ _ hmarks =>
    have hheight := height_of_getBlockHeaderAtHeight hnext
    rw [if_pos (by omega)] at hr
    cases hr
    rw [hmarks, if_pos (by omega)]

theorem tipOf_reorganised (hblock : c₁.getBlockHeaderAtHeight height hash = some block)
    (h : c₁.reorg block = .ok c₂) :
    (c₂.tipOf = some (hash, height) ↔ hash ≠ FixedHash.zero ∧ (height = 0 → block.prevHash = hash)) ∧
      ∀ pair, c₂.tipOf = some pair → pair = (hash, height) ∨ height = 0 := by
  have hheight := height_of_getBlockHeaderAtHeight hblock
  have hhash := hash_of_getBlockHeaderAtHeight hblock
  have hr := reorganises_of_reorg (hasHeader_of_getBlockHeaderAtHeight hblock) h
  have htip := hr.currentTip
  have hmark := hr.tipMark
  rw [hheight] at htip hmark
  rw [hhash] at hmark
  by_cases hzero : height = 0
  · subst hzero
    have hbottom := chainBlockAt_zero_of_reorg hblock h
    refine ⟨?_, fun pair _ => Or.inr rfl⟩
    rw [tipOf_eq_some_iff, tipHash, htip, hbottom]
    constructor
    · intro h
      exact ⟨h.2.1, fun _ => h.1⟩
    · intro h
      exact ⟨h.2 rfl, h.1, rfl⟩
  · have hmark' : c₂.chainBlockAt height = hash := hmark.resolve_right fun hbottom => hzero hbottom.1
    constructor
    · rw [tipOf_eq_some_iff, tipHash, htip, hmark']
      constructor
      · intro h
        exact ⟨h.2.1, fun hbottom => absurd hbottom hzero⟩
      · intro h
        exact ⟨rfl, h.1, rfl⟩
    · intro pair hpair
      rw [tipOf_eq_some_iff, tipHash, htip, hmark'] at hpair
      exact Or.inl (Prod.ext hpair.1.symm hpair.2.2.symm)

/-- After a move the tip is its block exactly if the block stays; otherwise there is no tip, or the
block has height 0. -/
structure Settles (core : TariCore) (m : Move) (c' : P2Chain) : Prop where
  stays : c'.tipOf = some m.pair ↔ m.Stays core
  place : ∀ pair, c'.tipOf = some pair → pair = m.pair ∨ m.height = 0

theorem settles_crowned (hextends : ExtendsTip core c height hash) (hkeeps : KeepsTip c c₁)
    (hcrowns : Crowns c₁ height hash c₂) : Settles core ⟨c, height, hash⟩ c₂.cleanupChain where
  stays := by
    rw [tipOf_crowned hkeeps hcrowns]
    constructor
    · intro ⟨_, hne, hroom⟩
      exact ⟨hne, fun _ => hroom, fun _ hovertakes => absurd hextends hovertakes.not_extendsTip⟩
    · intro h
      exact ⟨rfl, h.nonzero, h.room hextends⟩
  place pair hpair := Or.inl ((tipOf_crowned hkeeps hcrowns).mp hpair).1

theorem settles_reorganised (hovertakes : OvertakesTip core c height hash block)
    (hblock : c₁.getBlockHeaderAtHeight height hash = some block) (hreorg : c₁.reorg block = .ok c₂) :
    Settles core ⟨c, height, hash⟩ c₂ where
  stays := by
    rw [show Move.pair ⟨c, height, hash⟩ = (hash, height) from rfl, (tipOf_reorganised hblock hreorg).1]
    constructor
    · intro ⟨hne, hmark⟩
      refine ⟨hne, fun hextends => absurd hextends hovertakes.not_extendsTip, ?_⟩
      intro block' hovertakes'
      rw [← hovertakes.unique hovertakes']
      exact hmark
    · intro h
      exact ⟨h.nonzero, h.ownMark block hovertakes⟩
  place := (tipOf_reorganised hblock hreorg).2

/-! ### The walk -/

/-- The report of a walk is the first of its highest moves, and the tip is that of its last move. -/
structure Tracks (core : TariCore) (c : P2Chain) (moves : List Move)
    (newTip : Option (FixedHash × Nat)) (chain : P2Chain) : Prop where
  reported : newTip = highest Prod.snd (moves.map Move.pair)
  unmoved : moves = [] → chain.tipOf = c.tipOf
  settled : ∀ earlier m, moves = earlier ++ [m] → Settles core m chain

theorem newTip_combine (ord : IterOrder) (n : Nat) (self other : ChainAddResult) :
    (self.combine ord n other).newTip = pick Prod.snd self.newTip other.newTip := by
  rw [ChainAddResult.combine]
  cases self.newTip <;> cases other.newTip <;> rfl

/-- A verification without a move keeps the account. -/
theorem Tracks.kept {moves : List Move} {newTip : Option (FixedHash × Nat)} {chain chain' : P2Chain}
    (h : Tracks core c moves newTip chain) (hkeeps : KeepsTip chain chain') :
    Tracks core c moves newTip chain' where
  reported := h.reported
  unmoved hnil := hkeeps.tipOf.trans (h.unmoved hnil)
  settled earlier m heq := by
    have hsettles := h.settled earlier m heq
    exact ⟨by rw [hkeeps.tipOf]; exact hsettles.stays, by rw [hkeeps.tipOf]; exact hsettles.place⟩

/-- A move is added to the account. -/
theorem Tracks.moved {moves : List Move} {newTip : Option (FixedHash × Nat)} {chain chain' : P2Chain}
    {m : Move} (h : Tracks core c moves newTip chain) (hsettles : Settles core m chain') :
    Tracks core c (moves ++ [m]) (pick Prod.snd newTip (some m.pair)) chain' where
  reported := by rw [h.reported, List.map_append, List.map_singleton, highest_snoc]
  unmoved hnil := absurd hnil (by simp)
  settled earlier m' heq := by
    obtain ⟨-, heq⟩ := List.append_inj' heq rfl
    rw [← List.singleton_injective heq]
    exact hsettles

/-- A verification that succeeds keeps the account, with one move more if its block takes the
tip. -/
theorem Tracks.round {moves : List Move} {self : ChainAddResult} {chain chain' : P2Chain}
    (h : Tracks core c moves self.newTip chain)
    (hinner : verifyChainInner core ord n height hash chain = .ok (addResult, next) chain') :
    (¬TakesTip core chain height hash ∧
      Tracks core c moves (self.combine ord n addResult).newTip chain') ∨
    (TakesTip core chain height hash ∧ Tracks core c (moves ++ [⟨chain, height, hash⟩])
      (self.combine ord n addResult).newTip chain') := by
  have hstep := tipStep_of_ok hinner
  rw [newTip_combine]
  generalize addResult.newTip = newTip at hstep
  cases hstep with
  | kept hnot hkeeps =>
    rw [pick_none_right]
    exact Or.inl ⟨hnot, h.kept hkeeps⟩
  | crowned hextends hkeeps _ hcrowns _ =>
    exact Or.inr ⟨Or.inl hextends, h.moved (settles_crowned hextends hkeeps hcrowns)⟩
  | reorganised hovertakes hkeeps hblock hreorg _ =>
    exact Or.inr ⟨Or.inr ⟨_, hovertakes⟩, h.moved (settles_reorganised hovertakes hblock hreorg)⟩

theorem Takes.unique {m m' : Move} (h : Takes core w m) (h' : Takes core w m') : m = m' := by
  have hhead := h.head.symm.trans h'.head
  rw [Option.some.injEq, Prod.mk.injEq] at hhead
  cases m
  cases m'
  simp only [Move.mk.injEq]
  exact ⟨h.chain.trans h'.chain.symm, hhead.1, hhead.2⟩

/-- No move is to a pair of height and hash that the tip was moved to before, and only the first
move can be to height 0. -/
def FreshMoves (moves : List Move) : Prop :=
  ∀ earlier m, moves = earlier ++ [m] →
    m.pair ∉ earlier.map Move.pair ∧ (m.height = 0 → earlier = [])

/-- The invariant of the walk of a call on `c` that stored its block in `c₀`: the account is kept,
the blocks that took the tip were taken up, and what is queued behind the block of the call is above
height 0. -/
structure WalkTracks (core : TariCore) (c c₀ : P2Chain) (moves : List Move) (w : WalkState) : Prop where
  tracks : Tracks core c moves w.newTip.newTip w.chain
  fresh : FreshMoves moves
  once : ∃ taken, EachOnce c₀.HasPair taken w ∧ ∀ m ∈ moves, (m.height, m.hash) ∈ taken
  above : (moves = [] ∧ w.nextLevel.tail = []) ∨ ∀ item ∈ w.nextLevel, 0 < item.1

namespace WalkTracks

theorem start (core : TariCore) (hwrites : Writes c b c₀) :
    WalkTracks core c c₀ [] { chain := c₀, nextLevel := [(b.height, b.hash)] } where
  tracks := {
    reported := rfl
    unmoved := fun _ => tipOf_congr hwrites.currentTip (hwrites.chainBlockAt _)
    settled := fun earlier m heq => absurd heq (by simp) }
  fresh earlier m heq := absurd heq (by simp)
  once := by
    refine ⟨[], EachOnce.start ?_, fun m hm => absurd hm List.not_mem_nil⟩
    rw [HasPair, hwrites.headers, if_pos ⟨rfl, rfl⟩]
    rfl
  above := Or.inl ⟨rfl, rfl⟩

/-- A block that takes the tip was not the tip before in the walk, and has a height unless it comes
first. -/
theorem fresh_of_takes {moves : List Move} {m : Move} (h : WalkTracks core c c₀ moves w)
    (htakes : Takes core w m) : FreshMoves (moves ++ [m]) := by
  intro earlier m' heq
  obtain ⟨rfl, hlast⟩ := List.append_inj' heq rfl
  obtain rfl := List.singleton_injective hlast
  have hqueued := List.mem_of_mem_head? htakes.head
  constructor
  · obtain ⟨taken, honce, htaken⟩ := h.once
    intro hmem
    obtain ⟨m', hm', hpair⟩ := List.mem_map.mp hmem
    rw [Move.pair, Move.pair, Prod.mk.injEq] at hpair
    have hbefore := htaken m' hm'
    rw [hpair.1, hpair.2] at hbefore
    exact honce.disjoint _ hbefore hqueued
  · intro hzero
    obtain ⟨hnil, -⟩ | habove := h.above
    · exact hnil
    · exact absurd (habove _ hqueued) (by simp [hzero])

theorem above_of_step {moves : List Move} (h : WalkTracks core c c₀ moves w)
    (hqueue : w.nextLevel = (height, hash) :: rest)
    (hinner : verifyChainInner core ord w.numProcessed height hash w.chain =
      .ok (addResult, next) c') :
    ∀ item ∈ enqueue (hash :: w.processed) (height, hash) next rest, 0 < item.1 := by
  intro item hitem
  obtain hrest | ⟨hnext, -⟩ :=
    (mem_enqueue (show (height, hash).2 ∈ hash :: w.processed from List.mem_cons_self) next rest).mp
      hitem
  · obtain ⟨-, hnil⟩ | habove := h.above
    · rw [hqueue, List.tail_cons] at hnil
      rw [hnil] at hrest
      exact absurd hrest List.not_mem_nil
    · apply habove
      rw [hqueue]
      exact List.mem_cons_of_mem _ hrest
  · obtain rfl | hitems := next_of_verifyChainInner hinner
    · exact absurd hnext List.not_mem_nil
    · rw [getAllChildrenAndNephews] at hitems
      split_ifs at hitems
      obtain rfl := Except.ok.inj hitems
      obtain ⟨header, -, rfl, hhigher, -⟩ := mem_childrenAndNephews_iff.mp hnext
      exact Nat.zero_lt_of_lt hhigher

theorem kept {moves : List Move} (h : WalkTracks core c c₀ moves w) (hkept : ∀ m, ¬Takes core w m)
    (hstep : verifyChainStep core ord w = .inl w') : WalkTracks core c c₀ moves w' := by
  obtain ⟨taken, honce, htaken⟩ := h.once
  obtain ⟨pair, -, honce'⟩ := honce.step hstep
  obtain ⟨height, hash, rest, addResult, next, chain, hqueue, hinner, -, rfl⟩ :=
    verifyChainStep_inl hstep
  refine ⟨?_, h.fresh, ⟨_, honce', fun m hm => List.mem_cons_of_mem _ (htaken m hm)⟩,
    Or.inr (h.above_of_step hqueue hinner)⟩
  obtain ⟨-, htracks⟩ | ⟨htakes, -⟩ := h.tracks.round hinner
  · exact htracks
  · exact absurd ⟨by rw [hqueue]; rfl, rfl, htakes⟩ (hkept ⟨w.chain, height, hash⟩)

theorem moved {moves : List Move} {m : Move} (h : WalkTracks core c c₀ moves w)
    (htakes : Takes core w m) (hstep : verifyChainStep core ord w = .inl w') :
    WalkTracks core c c₀ (moves ++ [m]) w' := by
  obtain ⟨taken, honce, htaken⟩ := h.once
  obtain ⟨pair, hhead, honce'⟩ := honce.step hstep
  obtain rfl := Option.some.inj (htakes.head.symm.trans hhead)
  have hfresh := h.fresh_of_takes htakes
  obtain ⟨height, hash, rest, addResult, next, chain, hqueue, hinner, -, rfl⟩ :=
    verifyChainStep_inl hstep
  have hlevel := htakes.head
  rw [hqueue, List.head?_cons, Option.some.injEq, Prod.mk.injEq] at hlevel
  obtain ⟨rfl, rfl⟩ := hlevel
  refine ⟨?_, hfresh, ⟨_, honce', fun m' hm' => ?_⟩, Or.inr (h.above_of_step hqueue hinner)⟩
  · obtain ⟨hnot, -⟩ | ⟨-, htracks⟩ := h.tracks.round hinner
    · exact absurd (htakes.chain ▸ htakes.takes) hnot
    · rw [← htakes.chain] at htracks
      exact htracks
  · obtain hm' | hm' := List.mem_append.mp hm'
    · exact List.mem_cons_of_mem _ (htaken m' hm')
    · rw [List.mem_singleton.mp hm']
      exact List.mem_cons_self

theorem of_tipMoves {moves : List Move} (hwrites : Writes c b c₀)
    (hmoves : TipMoves core ord { chain := c₀, nextLevel := [(b.height, b.hash)] } moves w) :
    WalkTracks core c c₀ moves w := by
  induction hmoves with
  | start => exact start core hwrites
  | kept _ hkept hstep ih => exact ih.kept hkept hstep
  | moved _ htakes hstep ih => exact ih.moved htakes hstep

/-- The account of the whole call. -/
theorem exit {moves : List Move} (h : WalkTracks core c c₀ moves w)
    (hexit : verifyChainStep core ord w = .inr (.ok r c')) :
    ((∀ m, ¬Takes core w m) → Tracks core c moves r.newTip c') ∧
      ∀ m, Takes core w m → Tracks core c (moves ++ [m]) r.newTip c' := by
  obtain ⟨hnil, heq⟩ | ⟨height, hash, rest, hqueue, ⟨fault, chain, -, heq⟩ |
    ⟨addResult, next, chain, hinner, -, heq⟩⟩ := verifyChainStep_inr hexit
  · cases heq
    refine ⟨fun _ => h.tracks, fun m htakes => ?_⟩
    have hhead := htakes.head
    rw [hnil] at hhead
    cases hhead
  · cases heq
  · cases heq
    have hround := h.tracks.round hinner
    constructor
    · intro hkept
      obtain ⟨-, htracks⟩ | ⟨htakes, -⟩ := hround
      · exact htracks
      · exact absurd ⟨by rw [hqueue]; rfl, rfl, htakes⟩ (hkept ⟨w.chain, height, hash⟩)
    · intro m htakes
      have hlevel := htakes.head
      rw [hqueue, List.head?_cons, Option.some.injEq, Prod.mk.injEq] at hlevel
      obtain ⟨rfl, rfl⟩ := hlevel
      obtain ⟨hnot, -⟩ | ⟨-, htracks⟩ := hround
      · exact absurd (htakes.chain ▸ htakes.takes) hnot
      · rw [← htakes.chain] at htracks
        exact htracks

end WalkTracks

/-- On an account with fresh moves the report is right exactly if the last move is the highest and
its block stays. -/
theorem Tracks.reportsTip_iff {moves : List Move} (h : Tracks core c moves r.newTip c')
    (hfresh : FreshMoves moves) : ReportsTip c c' r ↔
      ∀ earlier m, moves = earlier ++ [m] →
        (∀ m' ∈ earlier, m'.height < m.height) ∧ m.Stays core := by
  obtain rfl | ⟨earlier, m, rfl⟩ := List.eq_nil_or_concat' moves
  · have hnone : r.newTip = none := h.reported
    refine iff_of_true ⟨fun hash height hsome => ?_, fun _ => h.unmoved rfl⟩
      fun earlier m heq => absurd heq (by simp)
    rw [hnone] at hsome
    cases hsome
  have hreported := h.reported
  rw [List.map_append, List.map_singleton] at hreported
  obtain ⟨hnew, hfirst⟩ := hfresh earlier m rfl
  have hsettles := h.settled earlier m rfl
  -- the report is about the last move exactly if that is the highest
  have hhighest : r.newTip = some m.pair ↔ ∀ m' ∈ earlier, m'.height < m.height := by
    rw [hreported, highest_snoc_eq_iff hnew, List.forall_mem_map]
    rfl
  have hsome : ∃ pair, r.newTip = some pair := by
    rw [hreported]
    exact exists_highest (by simp)
  obtain ⟨pair, hpair⟩ := hsome
  have hreports : ReportsTip c c' r ↔ c'.tipOf = some pair := by
    rw [tipOf, Option.map_eq_some_iff]
    constructor
    · intro hreports
      obtain ⟨tip, htip, hheight, hhash⟩ := hreports.moved pair.1 pair.2 hpair
      exact ⟨tip, htip, Prod.ext hhash hheight⟩
    · rintro ⟨tip, htip, heq⟩
      refine ⟨fun hash height hsome => ?_, fun hnone => ?_⟩
      · rw [hpair, ← heq, Option.some.injEq, Prod.mk.injEq] at hsome
        exact ⟨tip, htip, hsome.2, hsome.1⟩
      · rw [hpair] at hnone
        cases hnone
  rw [hreports]
  constructor
  · intro htip earlier' m' heq
    obtain ⟨rfl, hm⟩ := List.append_inj' heq rfl
    obtain rfl := List.singleton_injective hm
    have hlast : pair = m.pair := by
      obtain heq | hzero := hsettles.place pair htip
      · exact heq
      · rw [hfirst hzero, hpair] at hreported
        exact Option.some.inj hreported
    subst hlast
    exact ⟨hhighest.mp hpair, hsettles.stays.mp htip⟩
  · intro hlast
    obtain ⟨hhigher, hstays⟩ := hlast earlier m rfl
    rw [hsettles.stays.mpr hstays, ← hpair, hhighest.mpr hhigher]

/-- On any chain the result of a call is right about the tip exactly if the last block that took the
tip in the call is higher than all that took it before in the call, and stays. -/
theorem addBlock_reportsTip_iff (hok : addBlockToChain core ord b c = .ok r c') :
    (∃ moves, CallMoves core ord b c moves) ∧ ∀ moves, CallMoves core ord b c moves →
      (ReportsTip c c' r ↔ ∀ earlier m, moves = earlier ++ [m] →
        (∀ m' ∈ earlier, m'.height < m.height) ∧ m.Stays core) := by
  have hallowed := allowed_of_ok hok
  constructor
  · obtain ⟨w, ⟨-, c₀, hinsert, hreach⟩, hexit⟩ := exists_exit_of_returns hallowed (.of_ok hok)
    obtain ⟨moves, hmoves⟩ := exists_tipMoves hreach
    by_cases htakes : ∃ m, Takes core w m
    · obtain ⟨m, hm⟩ := htakes
      exact ⟨moves ++ [m], c₀, moves, w, hinsert, hmoves, hexit, Or.inr ⟨m, rfl, hm⟩⟩
    · exact ⟨moves, c₀, moves, w, hinsert, hmoves, hexit, Or.inl ⟨rfl, not_exists.mp htakes⟩⟩
  · intro moves ⟨c₀, earlier, w, hinsert, hmoves, hexit, hlast⟩
    obtain ⟨c₁, hinsert', hwrites⟩ := Writes.of_insertBlock c b
    rw [hinsert, Except.ok.injEq] at hinsert'
    subst hinsert'
    have hwalk := WalkTracks.of_tipMoves hwrites hmoves
    rw [hok] at hexit
    have htracks := hwalk.exit hexit
    obtain ⟨rfl, hkept⟩ | ⟨m, rfl, htakes⟩ := hlast
    · exact (htracks.1 hkept).reportsTip_iff hwalk.fresh
    · exact (htracks.2 m htakes).reportsTip_iff (hwalk.fresh_of_takes htakes)

/-- The account of a block on the chain of three blocks. -/
theorem addBlock_reportsTip_iff_four : ∃ r c',
    (∃ moves, CallMoves sampleCore .stored (sampleBlock 4 3 3 4) sampleChain moves) ∧
      ∀ moves, CallMoves sampleCore .stored (sampleBlock 4 3 3 4) sampleChain moves →
        (ReportsTip sampleChain c' r ↔ ∀ earlier m, moves = earlier ++ [m] →
          (∀ m' ∈ earlier, m'.height < m.height) ∧ m.Stays sampleCore) := by
  obtain ⟨r, hok⟩ := exists_ok_of_valueOf
    (show (valueOf (addBlockToChain sampleCore .stored (sampleBlock 4 3 3 4) sampleChain)).isSome = true
      by decide)
  exact ⟨r, _, addBlock_reportsTip_iff hok⟩

/-- A block of height 0, and a heavy and a light child of a block still to come. -/
def cascadeBlocks : List P2Block :=
  [sampleBlock 1 0 0 1, { sampleBlock 4 2 2 7 with targetDifficulty := 5 }, sampleBlock 3 2 2 3]

def cascadeChain : P2Chain := addAll sampleCore .stored cascadeBlocks (newEmpty (sampleConfig 10))

/-- The missing block lets its light child extend the tip and its heavy child of the same height
overtake that one; the first of the two is reported. -/
theorem addBlock_misreports_tip : ∃ c r c', Reachable sampleCore (sampleConfig 10) c ∧
    addBlockToChain sampleCore .stored (sampleBlock 2 1 1 2) c = .ok r c' ∧
    r.newTip = some (3, 2) ∧ c'.tipOf = some (4, 2) ∧ ¬ReportsTip c c' r := by
  have hrun : Run sampleCore (sampleConfig 10) Unrestricted cascadeBlocks.reverse cascadeChain :=
    Run.of_blocks IterOrder.stored (fun _ _ _ => true) (fun _ _ _ _ => trivial) cascadeBlocks (by decide)
  obtain ⟨r, hok⟩ := exists_ok_of_valueOf
    (show (valueOf (addBlockToChain sampleCore .stored (sampleBlock 2 1 1 2) cascadeChain)).isSome = true
      by decide)
  have hnew : (valueOf (addBlockToChain sampleCore .stored (sampleBlock 2 1 1 2) cascadeChain)).map
      (·.newTip) = some (some (3, 2)) := by decide
  have htip : (addBlockToChain sampleCore .stored (sampleBlock 2 1 1 2) cascadeChain).state.tipOf =
      some (4, 2) := by decide
  rw [hok] at hnew
  have hnew : r.newTip = some (3, 2) := Option.some.inj hnew
  refine ⟨cascadeChain, r, _, hrun.reachable, hok, hnew, htip, fun hreports => ?_⟩
  obtain ⟨tip, hget, -, hhash⟩ := hreports.moved 3 2 hnew
  rw [tipOf, hget, Option.map_some, hhash, Option.some.injEq, Prod.mk.injEq] at htip
  exact absurd htip.1 (by decide)

end P2Chain

end ShaP2Pool
