import Transcode.Text.Order

/-!
# Maps keyed by text

A keyed map is a list of entries in strictly increasing order of their keys, so a map has one
representation: maps that answer every look-up alike are equal.
-/

namespace Transcode

/-- Values under text keys, held in the order of the keys. -/
structure Keyed (α : Type) where
  entries : List (String × α)
  sorted : entries.Pairwise fun a b => Text.before a.1 b.1 = true

namespace Keyed

variable {α : Type}

/-! ## Entry lists -/

def lookupIn (key : String) : List (String × α) → Option α
  | [] => none
  | (k, v) :: rest => if k = key then some v else lookupIn key rest

/-- Puts an entry in its place, in the stead of one with the same key. -/
def insertIn (key : String) (value : α) : List (String × α) → List (String × α)
  | [] => [(key, value)]
  | (k, v) :: rest =>
    if k = key then (key, value) :: rest
    else if Text.before key k then (key, value) :: (k, v) :: rest
    else (k, v) :: insertIn key value rest

theorem mem_insertIn {key : String} {value : α} {l : List (String × α)} {e : String × α}
    (h : e ∈ insertIn key value l) : e = (key, value) ∨ e ∈ l := by
  induction l with
  | nil => exact .inl (by simpa [insertIn] using h)
  | cons a rest ih =>
    simp only [insertIn] at h
    split at h
    · rcases List.mem_cons.mp h with h | h
      · exact .inl h
      · exact .inr (List.mem_cons_of_mem _ h)
    split at h
    · simpa using h
    · rcases List.mem_cons.mp h with h | h
      · exact .inr (by simp [h])
      · rcases ih h with h | h
        · exact .inl h
        · exact .inr (List.mem_cons_of_mem _ h)

theorem pairwise_insertIn {key : String} {value : α} {l : List (String × α)}
    (h : l.Pairwise fun a b => Text.before a.1 b.1 = true) :
    (insertIn key value l).Pairwise fun a b => Text.before a.1 b.1 = true := by
  induction l with
  | nil => simp [insertIn]
  | cons a rest ih =>
    obtain ⟨k, v⟩ := a
    rw [List.pairwise_cons] at h
    simp only [insertIn]
    split
    · rename_i hk
      subst hk
      exact List.pairwise_cons.mpr h
    split
    · rename_i hb
      refine List.pairwise_cons.mpr ⟨?_, List.pairwise_cons.mpr h⟩
      intro b hm
      rcases List.mem_cons.mp hm with rfl | hm
      · exact hb
      · exact Text.before_trans hb (h.1 b hm)
    · rename_i hk hb
      refine List.pairwise_cons.mpr ⟨?_, ih h.2⟩
      intro b hm
      rcases mem_insertIn hm with rfl | hm
      · cases hkk : Text.before k key with
        | true => rfl
        | false => exact absurd (Text.eq_of_not_before hkk (by simpa using hb)) hk
      · exact h.1 b hm

theorem lookupIn_insertIn (key : String) (value : α) (l : List (String × α)) (k : String) :
    lookupIn k (insertIn key value l) = if key = k then some value else lookupIn k l := by
  induction l with
  | nil => simp [insertIn, lookupIn]
  | cons a rest ih =>
    obtain ⟨k', v⟩ := a
    simp only [insertIn]
    split
    · rename_i hk
      subst hk
      simp only [lookupIn]
      split <;> rfl
    split
    · simp only [lookupIn]
    · rename_i hk _
      simp only [lookupIn, ih]
      split
      · rename_i hkk
        subst hkk
        rw [if_neg (Ne.symm hk)]
      · rfl

theorem lookupIn_filter (p : String → Bool) (l : List (String × α)) (k : String) :
    lookupIn k (l.filter fun e => p e.1) = if p k then lookupIn k l else none := by
  induction l with
  | nil => simp [lookupIn]
  | cons a rest ih =>
    obtain ⟨k', v⟩ := a
    simp only [List.filter_cons, lookupIn]
    by_cases hk : k' = k
    · subst hk
      cases hp : p k' <;> simp [lookupIn, ih, hp]
    · cases hp : p k' <;> simp [lookupIn, ih, hk]

theorem mem_of_lookupIn {key : String} {value : α} {l : List (String × α)}
    (h : lookupIn key l = some value) : (key, value) ∈ l := by
  induction l with
  | nil => simp [lookupIn] at h
  | cons a rest ih =>
    obtain ⟨k, v⟩ := a
    simp only [lookupIn] at h
    split at h
    · rename_i hk
      subst hk
      simp [Option.some.inj h]
    · exact List.mem_cons_of_mem _ (ih h)

theorem lookupIn_eq_none_of_before {key : String} {l : List (String × α)}
    (h : ∀ e ∈ l, Text.before key e.1 = true) : lookupIn key l = none := by
  induction l with
  | nil => rfl
  | cons a rest ih =>
    obtain ⟨k, v⟩ := a
    have hk : k ≠ key := by
      rintro rfl
      have := h (k, v) (by simp)
      simp [Text.before_irrefl] at this
    simp only [lookupIn, if_neg hk]
    exact ih fun e he => h e (List.mem_cons_of_mem _ he)

/-- Entry lists in order that answer every look-up alike are equal. -/
theorem entries_ext {l₁ l₂ : List (String × α)}
    (h₁ : l₁.Pairwise fun a b => Text.before a.1 b.1 = true)
    (h₂ : l₂.Pairwise fun a b => Text.before a.1 b.1 = true)
    (h : ∀ k, lookupIn k l₁ = lookupIn k l₂) : l₁ = l₂ := by
  induction l₁ generalizing l₂ with
  | nil =>
    cases l₂ with
    | nil => rfl
    | cons b r₂ =>
      have := h b.1
      simp [lookupIn] at this
  | cons a r₁ ih =>
    cases l₂ with
    | nil =>
      have := h a.1
      simp [lookupIn] at this
    | cons b r₂ =>
      rw [List.pairwise_cons] at h₁ h₂
      obtain ⟨ka, va⟩ := a
      obtain ⟨kb, vb⟩ := b
      have hkey : ka = kb := by
        cases hab : Text.before ka kb with
        | true =>
          have hn : lookupIn ka ((kb, vb) :: r₂) = none :=
            lookupIn_eq_none_of_before fun e he => by
              rcases List.mem_cons.mp he with rfl | he
              · exact hab
              · exact Text.before_trans hab (h₂.1 e he)
          have := h ka
          rw [hn] at this
          simp [lookupIn] at this
        | false =>
          cases hba : Text.before kb ka with
          | true =>
            have hn : lookupIn kb ((ka, va) :: r₁) = none :=
              lookupIn_eq_none_of_before fun e he => by
                rcases List.mem_cons.mp he with rfl | he
                · exact hba
                · exact Text.before_trans hba (h₁.1 e he)
            have := h kb
            rw [hn] at this
            simp [lookupIn] at this
          | false => exact Text.eq_of_not_before hab hba
      subst hkey
      have hval : va = vb := by
        have := h ka
        simpa [lookupIn] using this
      subst hval
      congr 1
      refine ih h₁.2 h₂.2 fun k => ?_
      by_cases hk : ka = k
      · subst hk
        rw [lookupIn_eq_none_of_before h₁.1, lookupIn_eq_none_of_before h₂.1]
      · have := h k
        simpa [lookupIn, hk] using this

/-! ## Maps -/

/-- The map without entries. -/
def empty : Keyed α := ⟨[], .nil⟩

instance : Inhabited (Keyed α) := ⟨empty⟩

instance [DecidableEq α] : DecidableEq (Keyed α) := fun m n =>
  decidable_of_iff (m.entries = n.entries) <| by
    cases m; cases n; simp

def get? (m : Keyed α) (key : String) : Option α :=
  lookupIn key m.entries

/-- Stores a value under a key, in the stead of the one there. -/
def insert (m : Keyed α) (key : String) (value : α) : Keyed α :=
  ⟨insertIn key value m.entries, pairwise_insertIn m.sorted⟩

/-- Keeps the entries whose keys satisfy a condition. -/
def filterKeys (m : Keyed α) (p : String → Bool) : Keyed α :=
  ⟨m.entries.filter fun e => p e.1, m.sorted.filter _⟩

def erase (m : Keyed α) (key : String) : Keyed α :=
  m.filterKeys fun k => k != key

/-- Stores the entries of a list one after the other, so that a later one wins. -/
def ofList (l : List (String × α)) : Keyed α :=
  l.foldl (fun m e => m.insert e.1 e.2) empty

/-- The first entry, in the order of the keys, whose key satisfies a condition. -/
def find? (m : Keyed α) (p : String → Bool) : Option (String × α) :=
  m.entries.find? fun e => p e.1

def size (m : Keyed α) : Nat :=
  m.entries.length

@[ext] theorem ext {m n : Keyed α} (h : ∀ k, m.get? k = n.get? k) : m = n := by
  cases m with | mk l₁ h₁ =>
  cases n with | mk l₂ h₂ =>
  have := entries_ext h₁ h₂ h
  subst this
  rfl

@[simp] theorem get?_empty (k : String) : (empty : Keyed α).get? k = none := rfl

@[simp] theorem get?_insert (m : Keyed α) (key : String) (value : α) (k : String) :
    (m.insert key value).get? k = if key = k then some value else m.get? k :=
  lookupIn_insertIn key value m.entries k

@[simp] theorem get?_filterKeys (m : Keyed α) (p : String → Bool) (k : String) :
    (m.filterKeys p).get? k = if p k then m.get? k else none :=
  lookupIn_filter p m.entries k

@[simp] theorem get?_erase (m : Keyed α) (key k : String) :
    (m.erase key).get? k = if k = key then none else m.get? k := by
  by_cases h : k = key <;> simp [erase, h]

end Keyed

end Transcode
