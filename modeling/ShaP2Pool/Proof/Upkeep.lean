import ShaP2Pool.Proof.Run

/-!
# What a call writes

A call stores its block, writes stored blocks back with other flags, moves the marks, the tip and
the window, and drops levels. A property of the chain that these writes keep is kept by every call,
whatever the state of the chain and however the call ends.
-/

namespace ShaP2Pool

namespace P2Chain

variable {I : P2Chain → Prop} {core : TariCore} {ord : IterOrder} {n height : Nat} {hash : FixedHash}
variable {c c' : P2Chain} {b : P2Block} {block : P2BlockHeader}

/-- The writes of a verification keep `I`. -/
structure KeptByWrites (I : P2Chain → Prop) : Prop where
  same : ∀ {c c'}, SameBlocks c c' →
    (c'.cachedShares = c.cachedShares ∨ c'.cachedShares = none) → I c → I c'
  removed : ∀ {c} height, I c → I (c.removeLevel height)
  checked : ∀ {c c' b v}, c.blockCache.find? b.hash = some b →
    (c.getBlockHeaderAtHeight b.height b.hash).isSome = true →
    Writes c { b with verified := v } c' → I c → I c'

namespace KeptByWrites

variable (hI : KeptByWrites I)
include hI

theorem cleanupLoop (keys : List Nat) (h : I c) : I (P2Chain.cleanupLoop keys c) := by
  induction keys generalizing c with
  | nil => exact h
  | cons key keys ih =>
    rw [P2Chain.cleanupLoop]
    split_ifs
    · exact ih (hI.removed key h)
    · exact h

theorem setNewTip (h : I c) : I (P2Chain.setNewTip height hash c).state := by
  refine EStateM.inv_ofOption_bind h fun b _ => ?_
  have hwindow : I { c with lwma := c.lwma.pushBack (b.timestamp, b.targetDifficulty) } :=
    hI.same (c := c) ⟨rfl, rfl, fun _ => rfl⟩ (Or.inl rfl) h
  refine EStateM.inv_ofOption_bind hwindow fun level hlevel => ?_
  have hput := Remarks.putMark (show c.levelAtHeight height = some level from hlevel) hash
  apply hI.cleanupLoop
  exact hI.same ⟨hput.same.config, hput.same.cache, hput.same.headers⟩ (Or.inl hput.cachedShares) h

/-- A reorg only moves marks, and drops the cached shares. -/
theorem reorg (h : I c) (hreorg : c.reorg block = .ok c') : I c' := by
  cases hlevel : c.levelAtHeight block.height with
  | none =>
    rw [P2Chain.reorg, hlevel] at hreorg
    cases hreorg
  | some level =>
    obtain ⟨cStart, cReset, cLinked, lwma, hinstalls, hreset, hrelink, rfl⟩ :=
      exists_of_reorg block hlevel hreorg
    have hremarks := (resetLinksAbove_spec hreset).1.trans (relinkAncestors_spec hrelink).1
    have hsame := hinstalls.same.trans hremarks.same
    exact hI.same ⟨hsame.config, hsame.cache, hsame.headers⟩
      (Or.inr (hremarks.cachedShares.trans hinstalls.cachedShares)) h

theorem verifyBlock (hstored : (c.getBlockHeaderAtHeight height hash).isSome = true) (h : I c) :
    I (P2Chain.verifyBlock core hash height c).state := by
  refine EStateM.inv_ofExcept_bind h fun done _ => ?_
  cases done with
  | true => exact h
  | false =>
    refine EStateM.inv_ofOption_bind h fun level hlevel => ?_
    refine EStateM.inv_ofOption_bind h fun b hb => ?_
    refine EStateM.inv_ofExcept_bind h fun v _ => ?_
    refine EStateM.inv_ofExcept_bind h fun c' hc' => ?_
    -- the block goes back into the level it was found in
    have hheight : b.height = height := by
      rw [addToLevel, P2ChainLevel.addBlock] at hc'
      split_ifs at hc' with hsame
      exact hsame.symm.trans (height_of_levelAtHeight hlevel)
    obtain ⟨c₁, hadd, hw⟩ := Writes.of_level (b := { b with verified := v }) (hheight ▸ hlevel)
    rw [hc', Except.ok.injEq] at hadd
    subst hadd
    obtain rfl := hash_of_cached hb
    exact hI.checked hb (hheight ▸ hstored) hw h

theorem extendTip (h : I c) : I (P2Chain.extendTip ord n height hash block c).state := by
  refine EStateM.inv_ofExcept_bind h fun _ _ => ?_
  refine EStateM.inv_bind (hI.setNewTip h) fun _ c' _ h' => ?_
  exact EStateM.inv_ofExcept_bind h' fun _ _ => h'

theorem checkReorg (h : I c) : I (P2Chain.checkReorg ord n height hash block c).state := by
  refine EStateM.inv_ofExcept_bind h fun scanned _ => ?_
  obtain ⟨verified, result⟩ := scanned
  simp only
  split_ifs
  · exact EStateM.inv_ofExcept_bind h fun _ _ => h
  · refine EStateM.inv_ofExcept_bind h fun c' hc' => ?_
    have h' := hI.reorg h hc'
    exact EStateM.inv_ofExcept_bind h' fun _ _ => h'
  · exact EStateM.inv_ofExcept_bind h fun _ _ => h

theorem verifyChainInner (h : I c) : I (P2Chain.verifyChainInner core ord n height hash c).state := by
  refine EStateM.inv_ofOption_bind h fun prevHash hprev => ?_
  split_ifs
  · exact EStateM.inv_ofExcept_bind h fun _ _ => h
  · have hstored : (c.getBlockHeaderAtHeight height hash).isSome = true := by
      obtain ⟨level, hlevel, hmapped⟩ := Option.bind_eq_some_iff.mp hprev
      obtain ⟨header, hheader, -⟩ := Option.map_eq_some_iff.mp hmapped
      rw [getBlockHeaderAtHeight, hlevel]
      exact Option.isSome_of_eq_some hheader
    refine EStateM.inv_bind (hI.verifyBlock hstored h) fun _ c' _ h' => ?_
    refine EStateM.inv_ofOption_bind h' fun block _ => ?_
    split_ifs
    · exact EStateM.inv_bind (hI.setNewTip h') fun _ _ _ hmoved => hmoved
    · exact h'
    · exact hI.extendTip h'
    · exact hI.checkReorg h'

theorem verifyChain (h : I c) : I (P2Chain.verifyChain core ord height hash c).state := by
  rw [P2Chain.verifyChain]
  cases hloop : runLoop (verifyChainStep core ord) (c.numHeaders + 2)
      { chain := c, nextLevel := [(height, hash)] } with
  | none => exact h
  | some result =>
    have hround (w : WalkState) (height : Nat) (hash : FixedHash) (hw : I w.chain) :
        I (P2Chain.verifyChainInner core ord w.numProcessed height hash w.chain).state :=
      hI.verifyChainInner hw
    obtain ⟨w, -, hw, hexit⟩ := runLoop_rule (I := fun w => I w.chain) hloop h
      fun w v _ hw hstep => by
        obtain ⟨height, hash, rest, addResult, next, chain, -, hinner, -, rfl⟩ :=
          verifyChainStep_inl hstep
        have hnext := hround w height hash hw
        rwa [hinner] at hnext
    obtain ⟨-, heq⟩ | ⟨height, hash, rest, -, hlast⟩ := verifyChainStep_inr hexit
    · rw [heq]
      exact hw
    · have hnext := hround w height hash hw
      obtain ⟨fault, chain, hinner, heq⟩ | ⟨addResult, next, chain, hinner, -, heq⟩ := hlast
      · rw [hinner] at hnext
        rw [heq]
        exact hnext
      · rw [hinner] at hnext
        rw [heq]
        exact hnext

/-- A call keeps what storing its block and the other writes keep. -/
theorem addBlockToChain (hwrite : ∀ c₀, Writes c b c₀ → I c₀) (h : I c) :
    I (P2Chain.addBlockToChain core ord b c).state := by
  rw [P2Chain.addBlockToChain]
  split_ifs
  · exact h
  · refine EStateM.inv_ofExcept_bind h fun c' hc' => ?_
    obtain ⟨c₀, hinsert, hw⟩ := Writes.of_insertBlock c b
    rw [hc', Except.ok.injEq] at hinsert
    subst hinsert
    exact hI.verifyChain (hwrite c' hw)

/-- Wherever the walk of a call passes. -/
theorem visits {w : WalkState} (hwrite : ∀ c₀, Writes c b c₀ → I c₀)
    (hvisits : Visits core ord b c w) : I w.chain :=
  hvisits.inv hwrite fun _ _ _ _ _ _ h _ => hI.verifyChainInner h

end KeptByWrites

end P2Chain

end ShaP2Pool
