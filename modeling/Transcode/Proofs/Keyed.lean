import Transcode.Keyed

/-! # Keyed maps and their entries -/

namespace Transcode.Keyed

variable {α β : Type}

theorem get?_eq_some_iff {m : Keyed α} {key : String} {value : α} :
    m.get? key = some value ↔ (key, value) ∈ m.entries := by
  refine ⟨mem_of_lookupIn, ?_⟩
  obtain ⟨entries, sorted⟩ := m
  change (key, value) ∈ entries → lookupIn key entries = some value
  induction entries with
  | nil => simp
  | cons e rest ih =>
    rw [List.pairwise_cons] at sorted
    intro hm
    rcases List.mem_cons.mp hm with rfl | hm
    · simp [lookupIn]
    · have hne : e.1 ≠ key := by
        rintro rfl
        have hb := sorted.1 _ hm
        simp [Text.before_irrefl] at hb
      rw [lookupIn, if_neg hne]
      exact ih sorted.2 hm

/-- Entries in order are stored without one replacing another. -/
theorem get?_foldl_insert {l : List (String × α)}
    (hl : l.Pairwise fun a b => Text.before a.1 b.1 = true) (m : Keyed α) (k : String) :
    (l.foldl (fun m e => m.insert e.1 e.2) m).get? k = (lookupIn k l).or (m.get? k) := by
  induction l generalizing m with
  | nil => rfl
  | cons e rest ih =>
    rw [List.pairwise_cons] at hl
    rw [List.foldl_cons, ih hl.2, get?_insert, lookupIn]
    split
    · rename_i hk
      subst hk
      simp [lookupIn_eq_none_of_before hl.1]
    · rfl

/-- A property of all values and the keys they are under. -/
def All (P : String → α → Prop) (m : Keyed α) : Prop :=
  ∀ k v, m.get? k = some v → P k v

theorem All.insert {P : String → α → Prop} {m : Keyed α} (h : m.All P) {key : String} {value : α}
    (hvalue : P key value) : (m.insert key value).All P := by
  intro k v hv
  rw [get?_insert] at hv
  split at hv
  · rename_i hkey
    exact hkey ▸ Option.some.inj hv ▸ hvalue
  · exact h k v hv

theorem All.erase {P : String → α → Prop} {m : Keyed α} (h : m.All P) (key : String) :
    (m.erase key).All P := by
  intro k v hv
  rw [get?_erase] at hv
  split at hv
  · cases hv
  · exact h k v hv

/-- The map with a value under a key, or with none. -/
def update (m : Keyed α) (key : String) : Option α → Keyed α
  | some value => m.insert key value
  | none => m.erase key

@[simp] theorem get?_update (m : Keyed α) (key : String) (value : Option α) (k : String) :
    (m.update key value).get? k = if k = key then value else m.get? k := by
  cases value with
  | some value => simp [update, eq_comm]
  | none => simp [update]

/-- Maps that differ under one key at most. -/
theorem eq_update_of_get? {m n : Keyed α} {key : String}
    (h : ∀ k, k ≠ key → n.get? k = m.get? k) : n = m.update key (n.get? key) := by
  ext k
  by_cases hk : k = key <;> simp [hk, h]

theorem get?_foldl_update_of_ne {β : Type} {key : β → String} {value : β → Option α} {k : String}
    {l : List β} (h : ∀ b ∈ l, key b ≠ k) (m : Keyed α) :
    (l.foldl (fun m b => m.update (key b) (value b)) m).get? k = m.get? k := by
  induction l generalizing m with
  | nil => rfl
  | cons b rest ih =>
    rw [List.foldl_cons, ih fun x hx => h x (List.mem_cons_of_mem _ hx), get?_update,
      if_neg (h b (by simp)).symm]

theorem ofList_entries (m : Keyed α) : ofList m.entries = m := by
  ext k
  rw [ofList, get?_foldl_insert m.sorted, get?_empty, Option.or_none]
  rfl

/-- The only entry whose key satisfies a condition is the one that is found. -/
theorem find?_eq_some {m : Keyed α} {p : String → Bool} {key : String} {value : α}
    (h : m.get? key = some value) (hp : p key = true)
    (hunique : ∀ k v, m.get? k = some v → p k = true → k = key) :
    m.find? p = some (key, value) := by
  have hm := get?_eq_some_iff.mp h
  cases hf : m.find? p with
  | none =>
    have hnone := List.find?_eq_none.mp hf _ hm
    simp [hp] at hnone
  | some e =>
    have he := get?_eq_some_iff.mpr (List.mem_of_find?_eq_some hf)
    have hk : e.1 = key := hunique e.1 e.2 he (by simpa using List.find?_some hf)
    rw [hk, h] at he
    rw [← hk, Option.some.inj he]

/-- What is found depends on the entries that satisfy the condition and on no others. -/
theorem find?_congr {m n : Keyed α} {p : String → Bool}
    (h : ∀ k, p k = true → m.get? k = n.get? k) : m.find? p = n.find? p := by
  have hkept : m.filterKeys p = n.filterKeys p := by
    ext k
    rw [get?_filterKeys, get?_filterKeys]
    split
    · rename_i hk
      rw [h k hk]
    · rfl
  have hfirst (m : Keyed α) : m.find? p = (m.filterKeys p).entries.head? :=
    List.head?_filter.symm
  rw [hfirst, hfirst, hkept]

/-- The map with every value replaced by its image. -/
def mapValues (f : α → β) (m : Keyed α) : Keyed β where
  entries := m.entries.map fun e => (e.1, f e.2)
  sorted := List.pairwise_map.mpr m.sorted

@[simp] theorem get?_mapValues (f : α → β) (m : Keyed α) (k : String) :
    (m.mapValues f).get? k = (m.get? k).map f := by
  obtain ⟨entries, sorted⟩ := m
  change lookupIn k (entries.map fun e => (e.1, f e.2)) = (lookupIn k entries).map f
  clear sorted
  induction entries with
  | nil => rfl
  | cons e rest ih =>
    simp only [List.map_cons, lookupIn, ih]
    split <;> rfl

theorem mapValues_eq_self_iff {f : α → α} {m : Keyed α} :
    m.mapValues f = m ↔ m.All fun _ v => f v = v := by
  constructor
  · intro h k v hv
    have hk := get?_mapValues f m k
    rw [h, hv, Option.map_some] at hk
    exact (Option.some.inj hk).symm
  · intro h
    ext k
    rw [get?_mapValues]
    cases hv : m.get? k with
    | none => rfl
    | some v => rw [Option.map_some, h k v hv]

theorem foldl_insert_entries (f : α → β) (m : Keyed α) :
    m.entries.foldl (fun n e => n.insert e.1 (f e.2)) empty = m.mapValues f := by
  rw [← ofList_entries (m.mapValues f), ofList, mapValues, List.foldl_map]

end Transcode.Keyed
