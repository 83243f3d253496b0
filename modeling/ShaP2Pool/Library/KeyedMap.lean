import Mathlib.Data.List.Nodup
import Mathlib.Data.List.Perm.Basic

/-!
# Maps keyed by a field of their values

A finite map in which every value carries its own key. A lookup that succeeds therefore returns a
value with the key that was asked for, and no separate invariant is needed to say so. The values
are kept as a list without repeated keys, so that the map can be iterated and evaluated.
-/

/-- A finite map from `K` to `V` whose entry under `k` is a value with `key v = k`. -/
structure KeyedMap {K V : Type} (key : V → K) where
  values : List V
  nodup : (values.map key).Nodup

namespace KeyedMap

variable {K V : Type} {key : V → K}

/-- The map without entries. -/
def empty : KeyedMap key := ⟨[], List.nodup_nil⟩

/-- The number of entries. -/
def size (m : KeyedMap key) : Nat := m.values.length

@[simp] theorem values_empty : (empty : KeyedMap key).values = [] := rfl

@[simp] theorem size_empty : (empty : KeyedMap key).size = 0 := rfl

variable [DecidableEq K]

/-- The entry under a key. -/
def find? (m : KeyedMap key) (k : K) : Option V := m.values.find? (fun v => key v = k)

/-- Whether there is an entry under a key. -/
def contains (m : KeyedMap key) (k : K) : Bool := (m.find? k).isSome

/-- Drop the entry under a key. -/
def erase (m : KeyedMap key) (k : K) : KeyedMap key :=
  ⟨m.values.filter (fun v => key v ≠ k), m.nodup.sublist (List.filter_sublist.map key)⟩

/-- Put a value under its own key, in place of the entry that was there. -/
def insert (m : KeyedMap key) (v : V) : KeyedMap key :=
  ⟨v :: (m.erase (key v)).values, by
    rw [List.map_cons, List.nodup_cons]
    refine ⟨fun hmem => ?_, (m.erase (key v)).nodup⟩
    obtain ⟨w, hw, hkey⟩ := List.mem_map.mp hmem
    exact of_decide_eq_true (List.mem_filter.mp hw).2 hkey⟩

@[simp] theorem find?_empty (k : K) : (empty : KeyedMap key).find? k = none := rfl

theorem find?_eq_some_iff {m : KeyedMap key} {k : K} {v : V} :
    m.find? k = some v ↔ v ∈ m.values ∧ key v = k := by
  constructor
  · intro h
    exact ⟨List.mem_of_find?_eq_some h, by simpa using List.find?_some h⟩
  · rintro ⟨hmem, rfl⟩
    cases hfind : m.find? (key v) with
    | none =>
      have := List.find?_eq_none.mp hfind v hmem
      simp at this
    | some w =>
      have hw : w ∈ m.values := List.mem_of_find?_eq_some hfind
      have hkey : key w = key v := by simpa using List.find?_some hfind
      rw [List.inj_on_of_nodup_map m.nodup hw hmem hkey]

theorem key_of_find? {m : KeyedMap key} {k : K} {v : V} (h : m.find? k = some v) : key v = k :=
  (find?_eq_some_iff.mp h).2

theorem mem_values_of_find? {m : KeyedMap key} {k : K} {v : V} (h : m.find? k = some v) :
    v ∈ m.values :=
  (find?_eq_some_iff.mp h).1

theorem find?_of_mem_values {m : KeyedMap key} {v : V} (h : v ∈ m.values) :
    m.find? (key v) = some v :=
  find?_eq_some_iff.mpr ⟨h, rfl⟩

theorem find?_eq_none_iff {m : KeyedMap key} {k : K} :
    m.find? k = none ↔ ∀ v ∈ m.values, key v ≠ k := by
  rw [find?, List.find?_eq_none]
  simp

theorem mem_values_erase {m : KeyedMap key} {k : K} {v : V} :
    v ∈ (m.erase k).values ↔ v ∈ m.values ∧ key v ≠ k := by
  simp [erase]

theorem mem_values_insert {m : KeyedMap key} {v w : V} :
    w ∈ (m.insert v).values ↔ w = v ∨ w ∈ m.values ∧ key w ≠ key v := by
  rw [insert, List.mem_cons, mem_values_erase]

theorem find?_erase (m : KeyedMap key) (j k : K) :
    (m.erase j).find? k = if k = j then none else m.find? k := by
  apply Option.ext
  intro v
  rw [find?_eq_some_iff, mem_values_erase]
  split_ifs with hkj
  · subst hkj
    simp
  · rw [find?_eq_some_iff]
    constructor
    · exact fun h => ⟨h.1.1, h.2⟩
    · rintro ⟨hmem, rfl⟩
      exact ⟨⟨hmem, hkj⟩, rfl⟩

theorem find?_insert (m : KeyedMap key) (v : V) (k : K) :
    (m.insert v).find? k = if k = key v then some v else m.find? k := by
  apply Option.ext
  intro w
  rw [find?_eq_some_iff, mem_values_insert]
  split_ifs with hk
  · subst hk
    constructor
    · rintro ⟨rfl | ⟨-, hne⟩, hkey⟩
      · rfl
      · exact absurd hkey hne
    · rintro ⟨rfl⟩
      exact ⟨Or.inl rfl, rfl⟩
  · rw [find?_eq_some_iff]
    constructor
    · rintro ⟨rfl | ⟨hmem, -⟩, hkey⟩
      · exact absurd hkey.symm hk
      · exact ⟨hmem, hkey⟩
    · rintro ⟨hmem, rfl⟩
      exact ⟨Or.inr ⟨hmem, hk⟩, rfl⟩

@[simp] theorem find?_insert_self (m : KeyedMap key) (v : V) :
    (m.insert v).find? (key v) = some v := by
  rw [find?_insert, if_pos rfl]

theorem contains_iff {m : KeyedMap key} {k : K} :
    m.contains k = true ↔ ∃ v, m.find? k = some v := by
  rw [contains, Option.isSome_iff_exists]

theorem contains_eq_false_iff {m : KeyedMap key} {k : K} :
    m.contains k = false ↔ m.find? k = none := by
  rw [contains, Option.isSome_eq_false_iff, Option.isNone_iff_eq_none]

theorem perm_erase {m : KeyedMap key} {k : K} {v : V} (h : m.find? k = some v) :
    m.values.Perm (v :: (m.erase k).values) := by
  classical
  have hmem := mem_values_of_find? h
  have hnodup : m.values.Nodup := List.Nodup.of_map key m.nodup
  have herase : (m.erase k).values = m.values.erase v := by
    rw [hnodup.erase_eq_filter, erase]
    apply List.filter_congr
    intro x hx
    have hiff : key x = k ↔ x = v := by
      rw [← key_of_find? h]
      exact ⟨fun hk => List.inj_on_of_nodup_map m.nodup hx hmem hk, fun hk => by rw [hk]⟩
    grind
  rw [herase]
  exact List.perm_cons_erase hmem

theorem values_erase_of_find?_none {m : KeyedMap key} {k : K} (h : m.find? k = none) :
    (m.erase k).values = m.values := by
  rw [erase]
  apply List.filter_eq_self.mpr
  intro x hx
  simpa using find?_eq_none_iff.mp h x hx

theorem size_insert_of_find? {m : KeyedMap key} {v w : V} (h : m.find? (key v) = some w) :
    (m.insert v).size = m.size := by
  rw [size, insert, List.length_cons, size, (perm_erase h).length_eq, List.length_cons]

theorem size_insert_of_find?_none {m : KeyedMap key} {v : V} (h : m.find? (key v) = none) :
    (m.insert v).size = m.size + 1 := by
  rw [size, insert, List.length_cons, values_erase_of_find?_none h, size]

theorem size_insert_le (m : KeyedMap key) (v : V) : (m.insert v).size ≤ m.size + 1 := by
  cases h : m.find? (key v) with
  | none => exact Nat.le_of_eq (size_insert_of_find?_none h)
  | some w => exact Nat.le_trans (Nat.le_of_eq (size_insert_of_find? h)) (Nat.le_succ _)

/-- Change the entry under a key, if there is one, by a function that keeps the key. -/
def update (m : KeyedMap key) (k : K) (f : V → V) : KeyedMap key :=
  match m.find? k with
  | some v => m.insert (f v)
  | none => m

theorem find?_update {m : KeyedMap key} {f : V → V} (hf : ∀ v, key (f v) = key v) (j k : K) :
    (m.update j f).find? k = if k = j then (m.find? j).map f else m.find? k := by
  rw [update]
  cases hj : m.find? j with
  | none =>
    split_ifs with hkj
    · rw [hkj, hj, Option.map_none]
    · rfl
  | some v =>
    simp only
    rw [find?_insert, hf, key_of_find? hj, Option.map_some]

theorem contains_empty (k : K) : (empty : KeyedMap key).contains k = false := rfl

theorem contains_insert (m : KeyedMap key) (v : V) (k : K) :
    (m.insert v).contains k = (k == key v || m.contains k) := by
  rw [contains, find?_insert, contains]
  by_cases hk : k = key v <;> simp [hk]

theorem contains_erase (m : KeyedMap key) (j k : K) :
    (m.erase j).contains k = (k != j && m.contains k) := by
  rw [contains, find?_erase, contains]
  by_cases hk : k = j <;> simp [hk]

theorem contains_update {m : KeyedMap key} {f : V → V} (hf : ∀ v, key (f v) = key v) (j k : K) :
    (m.update j f).contains k = m.contains k := by
  rw [contains, find?_update hf, contains]
  split_ifs with hkj
  · rw [hkj, Option.isSome_map]
  · rfl

end KeyedMap
