import ShaP2Pool.Server.TemplateDesk
import ShaP2Pool.Proof.Service
import ShaP2Pool.Library.Trace

/-!
# Templates that wait for their miners

The queue of keys is cut at its limit, but nothing ever leaves the template store, and a request
that is dropped between its two updates leaves a key without a template. So the queue and the store
agree along a run exactly as long as neither happens.
-/

namespace ShaP2Pool

open Trace

namespace TemplateDesk

variable {d : TemplateDesk} {template : Template} {hash : FixedHash} {request : Nat}

/-- The keys in the queue are those of the store and of requests that are about to store theirs, and
the last templates handed out can be found. -/
structure Tidy (d : TemplateDesk) : Prop where
  listed : ∀ hash, d.templateStore.contains hash = true → hash ∈ d.listOfTemplates
  stored : ∀ hash ∈ d.listOfTemplates,
    d.templateStore.contains hash = true ∨ hash ∈ d.storing.map (·.tariHash)
  short : d.listOfTemplates.length ≤ maxStoredTemplates
  few : d.templateStore.size ≤ maxStoredTemplates
  findable : ∀ hash ∈ d.handedOut.take maxStoredTemplates, d.templateStore.contains hash = true

theorem Tidy.keys_iff (h : d.Tidy) (hidle : d.storing = []) :
    d.templateStore.contains hash = true ↔ hash ∈ d.listOfTemplates := by
  constructor
  · exact h.listed hash
  · intro hmem
    refine (h.stored hash hmem).resolve_right ?_
    rw [hidle]
    exact List.not_mem_nil

/-- An event that keeps the queue and the store together: no key is dropped from the queue while its
template is stored, none whose template is only then stored, and no request is cancelled whose key
is in the queue for it alone. -/
def KeepsTogether (d : TemplateDesk) : DeskEvent → Prop
  | .list template => ∀ oldest ∈ d.listOfTemplates.head?,
    maxStoredTemplates ≤ d.listOfTemplates.length → d.templateStore.contains oldest = true →
      oldest ∈ d.listOfTemplates.tail ∨ oldest = template.tariHash
  | .store request => ∀ template ∈ d.storing[request]?, template.tariHash ∈ d.listOfTemplates
  | .cancel request => ∀ template ∈ d.storing[request]?, template.tariHash ∈ d.listOfTemplates →
    d.templateStore.contains template.tariHash = true ∨
      template.tariHash ∈ (d.storing.eraseIdx request).map (·.tariHash)
  | .submit _ => True

/-! ### The two structures -/

theorem contains_insert : (d.templateStore.insert template).contains hash = true ↔
    hash = template.tariHash ∨ d.templateStore.contains hash = true := by
  rw [KeyedMap.contains, KeyedMap.find?_insert, KeyedMap.contains]
  split_ifs with heq
  · exact ⟨fun _ => Or.inl heq, fun _ => rfl⟩
  · exact ⟨Or.inr, fun h => h.resolve_left heq⟩

theorem pushTemplate_cons (oldest tariHash : FixedHash) (templates : List FixedHash) :
    ShaP2PoolGrpc.pushTemplate (oldest :: templates) tariHash =
      if maxStoredTemplates ≤ (oldest :: templates).length then templates ++ [tariHash]
      else oldest :: (templates ++ [tariHash]) := by
  rw [ShaP2PoolGrpc.pushTemplate, List.cons_append, List.length_cons, List.length_append,
    List.length_singleton, List.length_cons, List.tail_cons]
  by_cases hfull : maxStoredTemplates ≤ templates.length + 1
  · rw [if_pos hfull, if_pos (by omega)]
  · rw [if_neg hfull, if_neg (by omega)]

theorem mem_pushTemplate_of_mem {templates : List FixedHash} {tariHash : FixedHash}
    (hmem : hash ∈ templates) :
    hash ∈ ShaP2PoolGrpc.pushTemplate templates tariHash ∨
      templates.head? = some hash ∧ maxStoredTemplates ≤ templates.length := by
  cases templates with
  | nil => cases hmem
  | cons oldest rest =>
    rw [pushTemplate_cons]
    by_cases hfull : maxStoredTemplates ≤ (oldest :: rest).length
    · rw [if_pos hfull]
      rcases List.mem_cons.mp hmem with rfl | hrest
      · exact Or.inr ⟨rfl, hfull⟩
      · exact Or.inl (List.mem_append_left _ hrest)
    · rw [if_neg hfull]
      rw [← List.cons_append]
      exact Or.inl (List.mem_append_left _ hmem)

theorem mem_pushTemplate_oldest {templates : List FixedHash} {tariHash : FixedHash}
    (hhead : templates.head? = some hash) (hfull : maxStoredTemplates ≤ templates.length) :
    hash ∈ ShaP2PoolGrpc.pushTemplate templates tariHash ↔
      hash ∈ templates.tail ∨ hash = tariHash := by
  cases templates with
  | nil => cases hhead
  | cons oldest rest =>
    rw [pushTemplate_cons, if_pos hfull, List.mem_append, List.mem_singleton, List.tail_cons]

theorem mem_of_mem_pushTemplate {templates : List FixedHash} {tariHash : FixedHash}
    (hmem : hash ∈ ShaP2PoolGrpc.pushTemplate templates tariHash) :
    hash ∈ templates ∨ hash = tariHash := by
  rw [ShaP2PoolGrpc.pushTemplate] at hmem
  have happended : hash ∈ templates ++ [tariHash] := by
    split_ifs at hmem
    · exact List.mem_of_mem_tail hmem
    · exact hmem
  rwa [List.mem_append, List.mem_singleton] at happended

theorem length_pushTemplate_le {templates : List FixedHash} (tariHash : FixedHash)
    (hshort : templates.length ≤ maxStoredTemplates) :
    (ShaP2PoolGrpc.pushTemplate templates tariHash).length ≤ maxStoredTemplates := by
  rw [ShaP2PoolGrpc.pushTemplate, List.length_append, List.length_singleton]
  split_ifs with hlong
  · rw [List.length_tail, List.length_append, List.length_singleton]
    omega
  · rw [List.length_append, List.length_singleton]
    omega

theorem mem_map_eraseIdx {templates : List Template} (i : Nat)
    (hmem : hash ∈ templates.map (·.tariHash)) :
    hash ∈ (templates.eraseIdx i).map (·.tariHash) ∨
      ∃ template, templates[i]? = some template ∧ template.tariHash = hash := by
  induction templates generalizing i with
  | nil => cases hmem
  | cons first rest ih =>
    rw [List.map_cons, List.mem_cons] at hmem
    cases i with
    | zero =>
      rcases hmem with rfl | hrest
      · exact Or.inr ⟨first, rfl, rfl⟩
      · exact Or.inl hrest
    | succ i =>
      rw [List.eraseIdx_cons_succ, List.map_cons, List.getElem?_cons_succ]
      rcases hmem with rfl | hrest
      · exact Or.inl List.mem_cons_self
      · exact (ih i hrest).imp_left (List.mem_cons_of_mem _)

theorem size_le_length (hlisted : ∀ hash, d.templateStore.contains hash = true →
    hash ∈ d.listOfTemplates) : d.templateStore.size ≤ d.listOfTemplates.length := by
  have hsubset : d.templateStore.values.map (·.tariHash) ⊆ d.listOfTemplates := by
    intro hash hmem
    obtain ⟨template, htemplate, rfl⟩ := List.mem_map.mp hmem
    exact hlisted _ (Option.isSome_of_eq_some (KeyedMap.find?_of_mem_values htemplate))
  have hle := (List.subperm_of_subset d.templateStore.nodup hsubset).length_le
  rwa [List.length_map] at hle

/-! ### One event -/

theorem tidy_list_iff (h : d.Tidy) :
    (d.step (.list template)).Tidy ↔ d.KeepsTogether (.list template) := by
  constructor
  · intro hafter oldest hhead hfull hcontains
    exact (mem_pushTemplate_oldest hhead hfull).mp (hafter.listed oldest hcontains)
  · intro hkeeps
    refine ⟨fun hash hcontains => ?_, fun hash hmem => ?_, length_pushTemplate_le _ h.short, h.few,
      h.findable⟩
    · rcases mem_pushTemplate_of_mem (h.listed hash hcontains) with hstays | ⟨hhead, hfull⟩
      · exact hstays
      · exact (mem_pushTemplate_oldest hhead hfull).mpr (hkeeps hash hhead hfull hcontains)
    · change _ ∨ hash ∈ (d.storing ++ [template]).map (·.tariHash)
      rw [List.map_append, List.mem_append]
      rcases mem_of_mem_pushTemplate hmem with hold | rfl
      · exact (h.stored hash hold).imp_right Or.inl
      · exact Or.inr (Or.inr (List.mem_singleton_self _))

theorem tidy_store_iff (h : d.Tidy) :
    (d.step (.store request)).Tidy ↔ d.KeepsTogether (.store request) := by
  rw [KeepsTogether, step]
  cases hwaiting : d.storing[request]? with
  | none =>
    constructor
    · intro _ template htemplate
      cases htemplate
    · intro _
      exact h
  | some template =>
    simp only [Option.mem_def, Option.some.injEq, forall_eq']
    constructor
    · intro hafter
      exact hafter.listed _ (contains_insert.mpr (Or.inl rfl))
    · intro hqueued
      have hlisted (hash : FixedHash)
          (hcontains : (d.templateStore.insert template).contains hash = true) :
          hash ∈ d.listOfTemplates := by
        rcases contains_insert.mp hcontains with rfl | hold
        · exact hqueued
        · exact h.listed hash hold
      refine ⟨hlisted, fun hash hmem => ?_, h.short, ?_, fun hash hmem => ?_⟩
      · rcases h.stored hash hmem with hstored | hwaits
        · exact Or.inl (contains_insert.mpr (Or.inr hstored))
        · rcases mem_map_eraseIdx request hwaits with hothers | ⟨first, hfirst, rfl⟩
          · exact Or.inr hothers
          · rw [hwaiting, Option.some.injEq] at hfirst
            subst hfirst
            exact Or.inl (contains_insert.mpr (Or.inl rfl))
      · exact (size_le_length (d := { d with templateStore := d.templateStore.insert template })
          hlisted).trans h.short
      · apply contains_insert.mpr
        rw [show maxStoredTemplates = 99 + 1 from rfl, List.take_succ_cons, List.mem_cons] at hmem
        rcases hmem with rfl | hold
        · exact Or.inl rfl
        · exact Or.inr (h.findable hash (List.take_subset_take_left _ (by decide) hold))

theorem tidy_cancel_iff (h : d.Tidy) :
    (d.step (.cancel request)).Tidy ↔ d.KeepsTogether (.cancel request) := by
  constructor
  · intro hafter template _ hqueued
    exact hafter.stored _ hqueued
  · intro hkeeps
    refine ⟨h.listed, fun hash hmem => ?_, h.short, h.few, h.findable⟩
    rcases h.stored hash hmem with hstored | hwaits
    · exact Or.inl hstored
    · rcases mem_map_eraseIdx request hwaits with hothers | ⟨template, htemplate, rfl⟩
      · exact Or.inr hothers
      · exact hkeeps template htemplate hmem

theorem tidy_step_iff (h : d.Tidy) (event : DeskEvent) :
    (d.step event).Tidy ↔ d.KeepsTogether event := by
  cases event with
  | list template => exact tidy_list_iff h
  | store request => exact tidy_store_iff h
  | cancel request => exact tidy_cancel_iff h
  | submit tariHash => exact ⟨fun _ => trivial, fun _ => h⟩

/-! ### The requests are made of these events -/

/-- A service whose queue and store are those of the desk. -/
def Serves (d : TemplateDesk) (g : ShaP2PoolGrpc) : Prop :=
  d.templateStore = g.templateStore ∧ d.listOfTemplates = g.listOfTemplates

theorem Serves.onShareChain {α : Type} {message : String} {call : ChainM α} {g : ShaP2PoolGrpc}
    (h : d.Serves g) : d.Serves (ShaP2PoolGrpc.onShareChain message call g).state := by
  rw [ShaP2PoolGrpc.onShareChain]
  split <;> exact h

theorem Serves.orStatus {α : Type} {message : String} {x : Except ShareChainError α}
    {g : ShaP2PoolGrpc} (h : d.Serves g) :
    d.Serves (ShaP2PoolGrpc.orStatus message x g : EStateM.Result _ _ _).state := by
  cases x <;> exact h

/-- A request that succeeds has put a key into the queue and then stored its template, and one that
fails has done neither. -/
def Answers {α : Type} (d : TemplateDesk) : EStateM.Result GrpcFault ShaP2PoolGrpc α → Prop
  | .ok _ g => ∃ template, ((d.step (.list template)).step (.store d.storing.length)).Serves g
  | .error _ g => d.Serves g

theorem Answers.bind {α β : Type} {x : GrpcM α} {f : α → GrpcM β} {g : ShaP2PoolGrpc}
    (hx : d.Serves (x g).state) (hf : ∀ a g', x g = .ok a g' → d.Serves g' → d.Answers (f a g')) :
    d.Answers ((x >>= f) g) := by
  rw [EStateM.bind_apply]
  cases hres : x g with
  | ok a g' =>
    rw [hres] at hx
    exact hf a g' hres hx
  | error e g' =>
    rw [hres] at hx
    exact hx

theorem Serves.getNewBlock {core : TariCore} {headerHash : BlockHeader → FixedHash}
    {s : InMemoryShareChain} {ord : IterOrder} {now : EpochTime} {minerAddress : TariAddress}
    {coinbaseExtra : List Nat} {synced : Bool}
    {baseNode : List NewBlockCoinbase → Except String NewBlockTemplate} {g : ShaP2PoolGrpc}
    (h : d.Serves g) :
    d.Answers (ShaP2PoolGrpc.getNewBlock core headerHash s ord now minerAddress coinbaseExtra synced
      baseNode g) := by
  refine Answers.bind h.onShareChain fun newTipBlock g₁ _ h₁ => ?_
  refine Answers.bind h₁.onShareChain fun answer g₂ _ h₂ => ?_
  obtain ⟨shares, targetDifficulty⟩ := answer
  simp only
  cases baseNode shares with
  | error message => exact h₂
  | ok response =>
    simp only
    refine Answers.bind h₂.orStatus fun populated g₃ _ h₃ => ?_
    by_cases htarget : response.targetDifficulty < 1
    · rw [if_pos htarget]
      exact h₃
    · rw [if_neg htarget]
      refine Answers.bind h₃ fun _ g₄ hcached h₄ => ?_
      cases hcached
      refine Answers.bind h₄.orStatus fun newTipBlock g₅ _ h₅ => ?_
      refine ⟨{ tariHash := headerHash populated.originalHeader, block := newTipBlock }, ?_⟩
      obtain ⟨hstore, hlist⟩ := h₅
      rw [step, step, List.getElem?_concat_length]
      constructor
      · change d.templateStore.insert _ = g₅.templateStore.insert _
        rw [hstore]
      · change ShaP2PoolGrpc.pushTemplate d.listOfTemplates _ = _
        rw [hlist]

/-- A mined header changes neither structure. -/
theorem Serves.submitBlock {core : TariCore} {headerHash : BlockHeader → FixedHash}
    {s : InMemoryShareChain} {ord : IterOrder} {now : EpochTime} {synced : Bool}
    {header : BlockHeader} {baseNode : BlockHeader → Except String Unit} {g : ShaP2PoolGrpc}
    (h : d.Serves g) :
    (d.step (.submit (headerHash { header with nonce := 0, powData := [] }))).Serves
      (ShaP2PoolGrpc.submitBlock core headerHash s ord now synced header baseNode g).state := by
  have hshareChain (block : P2Block) :
      d.Serves (ShaP2PoolGrpc.submitShareChainBlock core s ord now synced block g).state := by
    rw [ShaP2PoolGrpc.submitShareChainBlock]
    split_ifs
    · exact h
    · split <;> exact h
  change d.Serves _
  rw [ShaP2PoolGrpc.submitBlock]
  simp only [EStateM.bind_apply, EStateM.get_apply]
  cases g.templateStore.find? (headerHash { header with nonce := 0, powData := [] }) with
  | none => exact h
  | some template =>
    simp only
    cases P2Chain.achievedDifficulty core true header with
    | error e => exact h
    | ok difficulty =>
      simp only
      split_ifs
      · cases baseNode header with
        | error message => exact h
        | ok _ => exact EStateM.inv_bind (hshareChain _) fun _ _ _ h' => h'
      · exact EStateM.inv_bind (hshareChain _) fun _ _ _ h' => h'

/-! ### Runs -/

theorem tidy_new : TemplateDesk.new.Tidy where
  listed _ h := by cases h
  stored _ h := absurd h List.not_mem_nil
  short := Nat.zero_le _
  few := Nat.zero_le _
  findable _ h := absurd h List.not_mem_nil

theorem stepAt_self (desks : PowAlgorithm → TemplateDesk) (event : PowAlgorithm × DeskEvent) :
    stepAt desks event event.1 = (desks event.1).step event.2 :=
  Function.update_self ..

theorem stepAt_of_ne {desks : PowAlgorithm → TemplateDesk} {event : PowAlgorithm × DeskEvent}
    {algo : PowAlgorithm} (hne : algo ≠ event.1) : stepAt desks event algo = desks algo :=
  Function.update_of_ne hne ..

/-- All along a run of template requests and submissions for both algorithms, each desk is tidy,
exactly if every event keeps the queue and the store of its desk together. -/
theorem templates_tidy_iff (events : List (PowAlgorithm × DeskEvent)) :
    Along stepAt (fun _ => TemplateDesk.new) events (fun desks => ∀ algo, (desks algo).Tidy) ↔
      ∀ pre event, Takes events pre event →
        (after stepAt (fun _ => TemplateDesk.new) pre event.1).KeepsTogether event.2 := by
  refine along_iff (G := fun (desks : PowAlgorithm → TemplateDesk)
    (event : PowAlgorithm × DeskEvent) => (desks event.1).KeepsTogether event.2)
    (fun _ => tidy_new) fun pre event _ htidy => ?_
  rw [← tidy_step_iff (htidy event.1) event.2, ← stepAt_self]
  constructor
  · intro hafter
    exact hafter event.1
  · intro hown algo
    by_cases heq : algo = event.1
    · rw [heq]
      exact hown
    · rw [stepAt_of_ne heq]
      exact htidy algo

def sampleTemplate (tariHash : FixedHash) : Template where
  tariHash := tariHash
  block := P2Chain.sampleBlock 0 0 0 1

def servedInTurn (requests : Nat) : List (PowAlgorithm × DeskEvent) :=
  (List.range requests).flatMap fun n =>
    [(.sha3x, .list (sampleTemplate n)), (.sha3x, .store 0)]

def timedOut : List (PowAlgorithm × DeskEvent) :=
  [(.sha3x, .list (sampleTemplate 1)), (.sha3x, .cancel 0)]

/-- After one request more than the limit the store holds a template for each of them, and after a
request that timed out the queue holds a key without a template. -/
theorem templates_pile_up :
    (after stepAt (fun _ => TemplateDesk.new) (servedInTurn 101) .sha3x).templateStore.size = 101 ∧
      ¬Along stepAt (fun _ => TemplateDesk.new) (servedInTurn 101)
        (fun desks => ∀ algo, (desks algo).Tidy) ∧
      ¬Along stepAt (fun _ => TemplateDesk.new) timedOut
        (fun desks => ∀ algo, (desks algo).Tidy) := by
  have hsize : (after stepAt (fun _ => TemplateDesk.new) (servedInTurn 101) .sha3x).templateStore.size =
      101 := by decide +kernel
  refine ⟨hsize, fun halong => ?_, fun halong => ?_⟩
  · have hfew := (halong _ List.prefix_rfl .sha3x).few
    rw [hsize] at hfew
    exact absurd hfew (by decide)
  · have hstored := (halong _ List.prefix_rfl .sha3x).stored 1 (by decide)
    exact absurd hstored (by decide)

end TemplateDesk

end ShaP2Pool
