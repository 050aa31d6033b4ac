/-
Hash maps as association lists.

`HashMap κ α` is Mathlib's `AList`: a list of entries with distinct keys.  A program
that iterates over a hash map sees the entries in some order, here that of the list;
`lookup` does not depend on it.  Added here are the operations that go over or into
the values, each with the equation for `lookup`, and

* `Sub` — a map with some of the entries of another;
* `All P` — every entry satisfies `P`, with what each operation asks for it.
-/
import Mathlib.Data.List.AList

/-- A hash map. -/
abbrev HashMap (κ α : Type) := AList fun _ : κ => α

namespace HashMap

variable {κ α : Type} [DecidableEq κ] {m : HashMap κ α} {k k' : κ} {v : α}

/-- The values, in the order of the entries. -/
def values (m : HashMap κ α) : List α := m.entries.map Sigma.snd

/-- How many entries there are. -/
def len (m : HashMap κ α) : ℕ := m.entries.length

/-- `get_mut`: changes the value of a key that is there. -/
def update (m : HashMap κ α) (k : κ) (f : α → α) : HashMap κ α :=
  match m.lookup k with
  | some v => m.insert k (f v)
  | none => m

/-- `values_mut`: changes every value. -/
def mapVal (m : HashMap κ α) (f : κ → α → α) : HashMap κ α where
  entries := m.entries.map fun e => ⟨e.1, f e.1 e.2⟩
  nodupKeys := by
    have h := m.nodupKeys
    simpa only [List.NodupKeys, List.keys, List.map_map, Function.comp_def] using h

/-- `retain`: keeps the entries that satisfy `p`. -/
def retain (m : HashMap κ α) (p : κ → α → Bool) : HashMap κ α where
  entries := m.entries.filter fun e => p e.1 e.2
  nodupKeys := m.nodupKeys.sublist List.filter_sublist

/-! ### Lookups -/

theorem lookup_update (m : HashMap κ α) (k k' : κ) (f : α → α) :
    (m.update k f).lookup k' = if k' = k then (m.lookup k).map f else m.lookup k' := by
  by_cases hk : k' = k
  · subst hk
    rw [if_pos rfl]
    unfold update
    split
    · next v hv => rw [AList.lookup_insert, hv, Option.map_some]
    · next hv => rw [hv, Option.map_none]
  · rw [if_neg hk]
    unfold update
    split
    · exact AList.lookup_insert_ne hk
    · rfl

theorem lookup_mapVal (m : HashMap κ α) (f : κ → α → α) (k : κ) :
    (m.mapVal f).lookup k = (m.lookup k).map (f k) := by
  obtain ⟨entries, hnodup⟩ := m
  show List.dlookup k (entries.map fun e => (⟨e.1, f e.1 e.2⟩ : Sigma fun _ : κ => α)) =
    Option.map (f k) (List.dlookup k entries)
  clear hnodup
  induction entries with
  | nil => rfl
  | cons e entries ih =>
    obtain ⟨k', v⟩ := e
    by_cases hk : k = k'
    · subst hk
      simp [List.dlookup_cons_eq]
    · rw [List.map_cons, List.dlookup_cons_ne _ _ hk, List.dlookup_cons_ne _ _ hk, ih]

theorem mem_entries_iff : (⟨k, v⟩ : Sigma fun _ : κ => α) ∈ m.entries ↔ m.lookup k = some v :=
  AList.mem_lookup_iff.symm

theorem lookup_retain_eq_some {p : κ → α → Bool} :
    (m.retain p).lookup k = some v ↔ m.lookup k = some v ∧ p k v = true := by
  rw [← mem_entries_iff, ← mem_entries_iff]
  exact List.mem_filter

theorem lookup_insert_iff {w : α} :
    (m.insert k v).lookup k' = some w ↔ (k' = k ∧ w = v) ∨ (k' ≠ k ∧ m.lookup k' = some w) := by
  by_cases hk : k' = k
  · subst hk
    simp [eq_comm]
  · simp [hk, AList.lookup_insert_ne hk]

theorem lookup_singleton_iff {w : α} :
    (AList.singleton k v : HashMap κ α).lookup k' = some w ↔ k' = k ∧ w = v := by
  rw [← AList.insert_empty, lookup_insert_iff]
  simp

theorem lookup_erase_eq_some {w : α} :
    (m.erase k).lookup k' = some w ↔ k' ≠ k ∧ m.lookup k' = some w := by
  by_cases hk : k' = k
  · subst hk
    simp
  · simp [hk, AList.lookup_erase_ne hk]

/-- Every entry of `m` is one of `m'`. -/
def Sub (m m' : HashMap κ α) : Prop := ∀ k v, m.lookup k = some v → m'.lookup k = some v

theorem Sub.refl (m : HashMap κ α) : Sub m m := fun _ _ h => h

theorem Sub.trans {m₁ m₂ m₃ : HashMap κ α} (h : Sub m₁ m₂) (h' : Sub m₂ m₃) : Sub m₁ m₃ :=
  fun k v hv => h' k v (h k v hv)

theorem erase_sub (m : HashMap κ α) (k : κ) : Sub (m.erase k) m :=
  fun _ _ h => (lookup_erase_eq_some.mp h).2

theorem mem_values : v ∈ m.values ↔ ∃ k, m.lookup k = some v := by
  simp only [values, List.mem_map]
  constructor
  · rintro ⟨⟨k, w⟩, hmem, rfl⟩
    exact ⟨k, mem_entries_iff.mp hmem⟩
  · rintro ⟨k, hk⟩
    exact ⟨⟨k, v⟩, mem_entries_iff.mpr hk, rfl⟩

/-- The values are what the lookups say, up to their order. -/
theorem values_perm_of_lookup {β : Type} {f : α → β} {m m' : HashMap κ α}
    (h : ∀ k, (m'.lookup k).map f = (m.lookup k).map f) :
    (m'.values.map f).Perm (m.values.map f) := by
  have hvalues : ∀ m : HashMap κ α, m.values.map f =
      (m.entries.map (Sigma.map id fun _ => f) : List (Sigma fun _ : κ => β)).map Sigma.snd := by
    intro m
    rw [values, List.map_map, List.map_map]
    rfl
  rw [hvalues, hvalues]
  refine List.Perm.map _ (List.lookup_ext ?_ ?_ fun k v => ?_)
  · exact List.NodupKeys.map₂ _ _ m'.nodupKeys
  · exact List.NodupKeys.map₂ _ _ m.nodupKeys
  · rw [List.dlookup_map₂, List.dlookup_map₂]
    exact iff_of_eq (congrArg (v ∈ ·) (h k))

theorem len_eq_of_lookup {β : Type} {f : α → β} {m m' : HashMap κ α}
    (h : ∀ k, (m'.lookup k).map f = (m.lookup k).map f) : m'.len = m.len := by
  have hlen := (values_perm_of_lookup h).length_eq
  simpa [values, len] using hlen

/-! ### Lengths -/

theorem len_erase_le (m : HashMap κ α) (k : κ) : len (m.erase k) ≤ m.len :=
  (List.kerase_sublist k m.entries).length_le

theorem len_erase_of_mem (h : k ∈ m) : len (m.erase k) + 1 = m.len := by
  have hlen : ∀ m : HashMap κ α, m.len = m.keys.length := fun m => (List.length_map _).symm
  rw [hlen, hlen, AList.keys_erase, List.length_erase_of_mem h]
  exact Nat.sub_add_cancel (List.length_pos_of_mem h)

theorem len_insert_of_not_mem (h : k ∉ m) (v : α) : len (m.insert k v) = m.len + 1 :=
  congrArg (List.length · + 1) (List.kerase_of_notMem_keys h)

theorem len_insert_le (m : HashMap κ α) (k : κ) (v : α) : len (m.insert k v) ≤ m.len + 1 :=
  Nat.succ_le_succ (List.kerase_sublist k m.entries).length_le

/-! ### Properties of every entry -/

/-- Every entry satisfies `P`. -/
def All (P : κ → α → Prop) (m : HashMap κ α) : Prop := ∀ k v, m.lookup k = some v → P k v

namespace All

variable {P : κ → α → Prop}

theorem empty : All P (∅ : HashMap κ α) := by
  intro k v h
  simp at h

theorem insert (h : All P m) (hv : P k v) : All P (m.insert k v) := by
  intro k' w hw
  rcases lookup_insert_iff.mp hw with ⟨rfl, rfl⟩ | ⟨-, hw⟩
  · exact hv
  · exact h k' w hw

theorem sub {m' : HashMap κ α} (h : All P m) (hsub : Sub m' m) : All P m' :=
  fun k v hv => h k v (hsub k v hv)

theorem erase (h : All P m) : All P (m.erase k) := h.sub (m.erase_sub k)

theorem update {f : α → α} (h : All P m) (hf : ∀ v, P k v → P k (f v)) : All P (m.update k f) := by
  unfold HashMap.update
  split
  · next v hv => exact h.insert (hf v (h k v hv))
  · exact h

theorem mapVal {f : κ → α → α} (h : All P m) (hf : ∀ k v, P k v → P k (f k v)) :
    All P (m.mapVal f) := by
  intro k w hw
  rw [lookup_mapVal, Option.map_eq_some_iff] at hw
  obtain ⟨v, hv, rfl⟩ := hw
  exact hf k v (h k v hv)

theorem retain {p : κ → α → Bool} (h : All P m) : All P (m.retain p) := by
  intro k w hw
  exact h k w (lookup_retain_eq_some.mp hw).1

end All

end HashMap
