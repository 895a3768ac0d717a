import Transcode.Proofs.Json.Reading
import Transcode.Proofs.Keyed
import Transcode.Proofs.Number.Shortest
import Transcode.Settings.Json

/-! # Settings read back

What is written for settings is read back, with one exception: a text that says to leave a parameter
alone is read as the wish to do so. -/

namespace Transcode

/-- The value of the last member of an object that has a name. -/
def Json.last? : Json → String → Option Json
  | .object members, name => members.reverse.lookup name
  | _, _ => none

theorem Json.lookup_reverse_cons (members : List (String × Json)) (name key : String) (v : Json) :
    ((name, v) :: members).reverse.lookup key =
      (members.reverse.lookup key).or (if key = name then some v else none) := by
  rw [List.reverse_cons, List.lookup_append, List.lookup_cons]
  by_cases h : key = name
  · simp [h]
  · simp [h, beq_false_of_ne h]

namespace Setting

/-- What a value is after it was written and read. -/
def reread : Setting → Setting
  | text s => ofText s
  | v => v

theorem reread_eq_self_iff (v : Setting) : v.reread = v ↔ v ≠ .text dontChangeText := by
  cases v with
  | int n => simp [reread]
  | dontChange => simp [reread]
  | text s => by_cases h : s = dontChangeText <;> simp [reread, ofText, h]

theorem ofJson?_toJson (v : Setting) : ofJson? v.toJson = some (some v.reread) := by
  cases v with
  | int n => simp [toJson, ofJson?, reread]
  | text s => rfl
  | dontChange => simp [toJson, ofJson?, reread, ofText]

/-- What is written with digits says nothing about a parameter. -/
theorem text_number_ne (x : Number.Binary64) : text x.text ≠ text dontChangeText := by
  intro h
  have hchars : x.chars = dontChangeText.toList := by
    rw [← Setting.text.inj h, Number.Binary64.text, String.toList_ofList]
  have hd : 'd' ∈ x.chars := by
    rw [hchars]
    decide
  rcases Number.Binary64.mem_chars hd with h | h | h <;> exact absurd h (by decide)

/-- A value that was read is read the same again. -/
theorem reread_of_ofJson? {j : Json} {v : Setting} (h : ofJson? j = some (some v)) :
    v.reread = v := by
  rw [reread_eq_self_iff]
  rintro rfl
  cases j with
  | null | bool | list | object => simp [ofJson?] at h
  | integer n =>
    rw [ofJson?] at h
    split at h
    · cases h
    · obtain ⟨x, -, hx⟩ := Option.map_eq_some_iff.mp h
      exact text_number_ne x (Option.some.inj hx)
  | real x => exact text_number_ne x (Option.some.inj (Option.some.inj h))
  | text s =>
    have htext : ofText s = text dontChangeText := Option.some.inj (Option.some.inj h)
    rw [ofText] at htext
    split at htext
    · cases htext
    · rename_i hne
      exact hne (Setting.text.inj htext)

theorem reads_toJson (level levels : Nat) (v : Setting) :
    Json.Reads levels (Json.pretty level v.toJson) v.toJson := by
  cases v with
  | int n =>
    have hhigh : n.toInt < UInt64.size := Int.lt_of_le_of_lt n.toInt_le (by decide)
    rw [toJson, Json.pretty]
    exact Json.reads_integer levels n.minValue_le_toInt hhigh
  | text s =>
    rw [toJson, Json.pretty]
    exact Json.reads_text levels s
  | dontChange =>
    rw [toJson, Json.pretty]
    exact Json.reads_text levels dontChangeText

/-- A value is written the same in either layout. -/
theorem compact_toJson (level : Nat) (v : Setting) :
    Json.compact v.toJson = Json.pretty level v.toJson := by
  cases v <;> simp [toJson, Json.compact, Json.pretty]

end Setting

namespace Settings

/-- What settings are after they were written and read. -/
def reread (s : Settings) : Settings :=
  s.mapValues Setting.reread

@[simp] theorem get?_reread (s : Settings) (key : String) :
    s.reread.get? key = (s.get? key).map Setting.reread :=
  Keyed.get?_mapValues _ _ _

/-- Reading changes nothing but texts that say to leave a parameter alone. -/
theorem get?_reread_eq_ite (s : Settings) (key : String) :
    s.reread.get? key =
      if s.get? key = some (.text Setting.dontChangeText) then some .dontChange else s.get? key := by
  rw [get?_reread]
  split
  · rename_i h
    rw [h]
    rfl
  · rename_i h
    cases hv : s.get? key with
    | none => rfl
    | some v =>
      rw [Option.map_some, (Setting.reread_eq_self_iff v).mpr]
      rintro rfl
      exact h hv

theorem reread_eq_self_iff (s : Settings) :
    s.reread = s ↔ ∀ key, s.get? key ≠ some (.text Setting.dontChangeText) := by
  rw [reread, Keyed.mapValues_eq_self_iff]
  simp only [Keyed.All, Setting.reread_eq_self_iff]
  constructor
  · intro h key hkey
    exact h key _ hkey rfl
  · rintro h key v hv rfl
    exact h key hv

theorem storeMembers?_cons (s : Settings) (key : String) (v : Json)
    (members : List (String × Json)) :
    storeMembers? s ((key, v) :: members) =
      (Setting.ofJson? v).bind fun x => storeMembers? (s.update key x) members := by
  rw [storeMembers?]
  rcases Setting.ofJson? v with _ | _ | x <;> rfl

theorem get?_of_storeMembers? {members : List (String × Json)} {s t : Settings}
    (h : storeMembers? s members = some t) (key : String) :
    t.get? key = (members.reverse.lookup key).elim (s.get? key) fun v =>
      (Setting.ofJson? v).join := by
  induction members generalizing s with
  | nil =>
    obtain rfl := Option.some.inj h
    rfl
  | cons m members ih =>
    obtain ⟨name, v⟩ := m
    rw [storeMembers?_cons] at h
    obtain ⟨x, hx, hrest⟩ := Option.bind_eq_some_iff.mp h
    rw [Json.lookup_reverse_cons, ih hrest]
    -- A later member of the same name hides what this one does.
    cases members.reverse.lookup key with
    | some _ => rfl
    | none => by_cases hkey : key = name <;> simp [hkey, hx]

/-- Settings hold the values of the last members, as far as these are values. -/
theorem get?_of_ofJson? {j : Json} {s : Settings} (h : ofJson? j = some s) (key : String) :
    s.get? key = (j.last? key).bind fun v => (Setting.ofJson? v).join := by
  cases j with
  | object members =>
    rw [get?_of_storeMembers? h, Json.last?]
    cases members.reverse.lookup key <;> rfl
  | null | bool | integer | real | text | list => cases h

theorem get?_eq_none_of_null {j : Json} {s : Settings} (h : ofJson? j = some s) {key : String}
    (hkey : j.last? key = some .null) : s.get? key = none := by
  rw [get?_of_ofJson? h, hkey]
  rfl

/-- Settings that were read are read the same again. -/
theorem reread_of_ofJson? {j : Json} {s : Settings} (h : ofJson? j = some s) : s.reread = s := by
  refine Keyed.mapValues_eq_self_iff.mpr fun key v hv => ?_
  rw [get?_of_ofJson? h] at hv
  obtain ⟨j', -, hj'⟩ := Option.bind_eq_some_iff.mp hv
  exact Setting.reread_of_ofJson? (Option.join_eq_some_iff.mp hj')

theorem storeMembers?_toJson (s : Settings) (l : List (String × Setting)) :
    storeMembers? s (l.map fun (key, v) => (key, v.toJson)) =
      some (l.foldl (fun s e => s.insert e.1 e.2.reread) s) := by
  induction l generalizing s with
  | nil => rfl
  | cons e l ih =>
    rw [List.map_cons, storeMembers?, Setting.ofJson?_toJson]
    exact ih _

theorem ofJson?_toJson (s : Settings) : ofJson? s.toJson = some s.reread := by
  rw [toJson, ofJson?, storeMembers?_toJson, Keyed.foldl_insert_entries, reread]

theorem reads_toJson (level levels : Nat) (s : Settings) :
    Json.Reads (levels + 1) (Json.pretty level s.toJson) s.toJson := by
  apply Json.reads_object
  intro m hm
  obtain ⟨e, -, rfl⟩ := List.mem_map.mp hm
  exact e.2.reads_toJson (level + 1) levels

theorem read?_prettyText (s : Settings) : read? s.toJson.prettyText = some s.reread := by
  have hread : Json.read? s.toJson.prettyText = some s.toJson :=
    Json.read?_of_reads (s.reads_toJson 0 0) (by decide)
  rw [read?, hread, Option.bind_some, ofJson?_toJson]

theorem read?_compactText (s : Settings) : read? s.toJson.compactText = some s.reread := by
  have hreads : Json.Reads 1 (Json.compact s.toJson) s.toJson := by
    apply Json.reads_compactObject
    intro m hm
    obtain ⟨e, -, rfl⟩ := List.mem_map.mp hm
    rw [e.2.compact_toJson 0]
    exact e.2.reads_toJson 0 0
  have hread : Json.read? s.toJson.compactText = some s.toJson :=
    Json.read?_of_reads hreads (by decide)
  rw [read?, hread, Option.bind_some, ofJson?_toJson]

end Settings

end Transcode
