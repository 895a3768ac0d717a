import Transcode.Options
import Transcode.Proofs.Settings.Json

/-! # Options stored and read back -/

namespace Transcode.Options

/-- What options are after they were written and read. -/
def reread (o : Options) : Options :=
  o.mapValues Settings.reread

theorem storeMembers?_toJson (o : Options) (l : List (String × Settings)) :
    storeMembers? o (l.map fun (name, s) => (name, s.toJson)) =
      some (l.foldl (fun o e => o.insert e.1 e.2.reread) o) := by
  induction l generalizing o with
  | nil => rfl
  | cons e l ih =>
    rw [List.map_cons, storeMembers?, Settings.ofJson?_toJson, Option.bind_some]
    exact ih _

theorem ofJson?_toJson (o : Options) : ofJson? o.toJson = some o.reread := by
  rw [toJson, ofJson?, storeMembers?_toJson, Keyed.foldl_insert_entries, reread]

/-- The text of options can always be read. -/
theorem read?_text (o : Options) : read? o.text = some o.reread := by
  have hreads : Json.Reads 2 (Json.pretty 0 o.toJson) o.toJson := by
    apply Json.reads_object
    intro m hm
    obtain ⟨e, -, rfl⟩ := List.mem_map.mp hm
    exact e.2.reads_toJson 1 0
  have hread : Json.read? o.text = some o.toJson := Json.read?_of_reads hreads (by decide)
  rw [read?, hread, Option.bind_some, ofJson?_toJson]

theorem get?_of_storeMembers? {members : List (String × Json)} {o o' : Options}
    (h : storeMembers? o members = some o') (name : String) :
    (o'.get? name).map some =
      ((members.reverse.lookup name).map Settings.ofJson?).or ((o.get? name).map some) := by
  induction members generalizing o with
  | nil =>
    obtain rfl := Option.some.inj h
    rfl
  | cons m members ih =>
    obtain ⟨name', v⟩ := m
    obtain ⟨s, hs, hrest⟩ := Option.bind_eq_some_iff.mp h
    rw [Json.lookup_reverse_cons, ih hrest]
    cases members.reverse.lookup name with
    | some _ => rfl
    | none => by_cases hname : name = name' <;> simp [hname, hs, eq_comm]

/-- Options hold the settings of the last member of each name, all of which can be read. -/
theorem get?_of_ofJson? {j : Json} {o : Options} (h : ofJson? j = some o) (name : String) :
    (o.get? name).map some = (j.last? name).map Settings.ofJson? := by
  cases j with
  | object members =>
    rw [get?_of_storeMembers? h, Json.last?, Keyed.get?_empty, Option.map_none, Option.or_none]
  | null | bool | integer | real | text | list => cases h

/-- All settings in options that were read are read the same again. -/
theorem all_reread_of_read? {json : String} {o : Options} (h : read? json = some o) :
    o.All fun _ s => s.reread = s := by
  intro name s hs
  obtain ⟨j, -, ho⟩ := Option.bind_eq_some_iff.mp h
  have hlast := get?_of_ofJson? ho name
  rw [hs, Option.map_some, eq_comm, Option.map_eq_some_iff] at hlast
  obtain ⟨v, -, hv⟩ := hlast
  exact Settings.reread_of_ofJson? hv

/-- Settings of a profile are stored under some name, or else those it starts with. -/
theorem settingsFor_cases (o : Options) (p : Profile) :
    (∃ name, o.get? name = some (o.settingsFor p)) ∨ o.settingsFor p = p.defaultSettings := by
  rw [settingsFor, stored?]
  cases hfound : o.find? p.isNamed with
  | none => exact .inr rfl
  | some e => exact .inl ⟨e.1, Keyed.get?_eq_some_iff.mpr (List.mem_of_find?_eq_some hfound)⟩

theorem reread_store (o : Options) (p : Profile) (s : Settings) :
    (o.store p s).reread = o.reread.store p s.reread := by
  refine Keyed.ext fun name => ?_
  simp only [reread, store, Keyed.get?_mapValues, Keyed.get?_insert, Keyed.get?_filterKeys]
  by_cases hname : p.name = name
  · simp [hname]
  · by_cases hp : p.isNamed name = true <;> simp [hname, hp]

theorem settingsFor_empty (p : Profile) : Options.settingsFor Keyed.empty p = p.defaultSettings :=
  rfl

/-- What is stored for a profile that answers to its own name is found again. -/
theorem settingsFor_store {p : Profile} (hp : p.isNamed p.name = true) (o : Options)
    (s : Settings) : (o.store p s).settingsFor p = s := by
  have hfound : (o.store p s).find? p.isNamed = some (p.name, s) := by
    refine Keyed.find?_eq_some (by simp [store]) hp fun name v hv hname => ?_
    by_cases hne : p.name = name
    · exact hne.symm
    · simp [store, hne, hname] at hv
  rw [settingsFor, stored?, hfound]
  rfl

end Transcode.Options
