import Transcode.Proofs.Options
import Transcode.Proofs.Profile.Selected

/-! # Options as a store

Options hold one entry for each profile that anything was stored for. What is stored for a profile
replaces whatever asked for it before, and leaves the other profiles of a registry alone. -/

namespace Transcode.Options

variable {o : Options} {p q : Profile}

theorem get?_store (o : Options) (p : Profile) (s : Settings) (name : String) :
    (o.store p s).get? name =
      if p.name = name then some s else if p.isNamed name then none else o.get? name := by
  rw [store, Keyed.get?_insert, Keyed.get?_filterKeys]
  cases p.isNamed name <;> rfl

/-- The later of two settings stored for a profile is left. -/
theorem store_store (o : Options) (p : Profile) (s t : Settings) :
    (o.store p s).store p t = o.store p t := by
  ext name
  simp only [get?_store]
  split
  · rfl
  · split <;> rfl

theorem settingsFor_store_of_apart (h : p.Apart q) (hp : p.isNamed p.name = true) (o : Options)
    (s : Settings) : (o.store p s).settingsFor q = o.settingsFor q := by
  have hfound : (o.store p s).find? q.isNamed = o.find? q.isNamed := by
    refine Keyed.find?_congr fun name hq => ?_
    have hother : p.isNamed name = false := h.symm name hq
    have hne : p.name ≠ name := by
      rintro rfl
      exact absurd (hp.symm.trans hother) (by decide)
    rw [get?_store, if_neg hne, hother]
    rfl
  rw [settingsFor, settingsFor, stored?, stored?, hfound]

theorem store_comm (h : p.Apart q) (hp : p.isNamed p.name = true) (hq : q.isNamed q.name = true)
    (o : Options) (s t : Settings) : (o.store p s).store q t = (o.store q t).store p s := by
  ext name
  simp only [get?_store]
  by_cases hpn : p.name = name
  · subst hpn
    have hother : q.isNamed p.name = false := h p.name hp
    have hne : q.name ≠ p.name := by
      intro heq
      rw [heq] at hq
      exact absurd (hq.symm.trans hother) (by decide)
    simp [hne, hother]
  · by_cases hqn : q.name = name
    · subst hqn
      simp [hpn, h.symm q.name hq]
    · simp only [if_neg hpn, if_neg hqn]
      split <;> split <;> rfl

/-- After settings were stored for a profile, they are under the only name that asks for it, and what
is under other names is as before. -/
theorem isNamed_of_get?_store (hp : p.isNamed p.name = true) (o : Options) (s : Settings)
    (name : String) :
    ((o.store p s).get? name ≠ none ∧ p.isNamed name = true ↔ name = p.name) ∧
      (p.isNamed name = false → (o.store p s).get? name = o.get? name) := by
  rw [get?_store]
  by_cases hname : p.name = name
  · subst hname
    simp [hp]
  · refine ⟨?_, fun hother => by simp [hname, hother]⟩
    cases hasks : p.isNamed name <;> simp [hname, Ne.symm hname]

/-- Options are a store with a place for every profile of a registry whose names are trimmed: what is
stored is found, replaces what was stored before, and is independent of other profiles. One stored
name is left that asks for the profile; the names that do not ask for it keep their settings. -/
theorem store_separates {ps : List Profile} {r : Registry} (hr : Registry.ofProfiles ps = .ok r)
    (hp : p ∈ r.profiles) (hq : q ∈ r.profiles) (hne : p ≠ q) (hptrim : Text.trim p.name = p.name)
    (hqtrim : Text.trim q.name = q.name) (o : Options) (s t : Settings) :
    (o.store p s).settingsFor p = s ∧
    (o.store p s).settingsFor q = o.settingsFor q ∧
    (o.store p s).store p t = o.store p t ∧
    (o.store p s).store q t = (o.store q t).store p s ∧
    (∀ name, (o.store p s).get? name ≠ none ∧ p.isNamed name = true ↔ name = p.name) ∧
    ∀ name, p.isNamed name = false → (o.store p s).get? name = o.get? name := by
  have hapart := (Registry.isConsistent_profiles hr).apart hp hq hne
  have hpname := Profile.isNamed_name hptrim
  have hqname := Profile.isNamed_name hqtrim
  exact ⟨settingsFor_store hpname o s, settingsFor_store_of_apart hapart hpname o s,
    store_store o p s t, store_comm hapart hpname hqname o s t,
    fun name => (isNamed_of_get?_store hpname o s name).1,
    fun name => (isNamed_of_get?_store hpname o s name).2⟩

/-- Options with three names for one profile, of which a stale one is the first, and one for another
profile. -/
def crowded : Options :=
  Keyed.ofList [(" HEVC", Keyed.ofList [("crf", .int 1)]), ("Hevc\n", Keyed.empty),
    ("VP9 ", Keyed.ofList [("crf", .int 2)]), ("hevc", Keyed.ofList [("crf", .int 3)]),
    ("x264", Keyed.empty)]

theorem store_separates_hevc :
    let p := Builtin.hevc
    let q := Builtin.vp9
    let s : Settings := Keyed.ofList [("crf", .int 20)]
    let t : Settings := Keyed.empty
    (crowded.store p s).settingsFor p = s ∧
    (crowded.store p s).settingsFor q = crowded.settingsFor q ∧
    (crowded.store p s).store p t = crowded.store p t ∧
    (crowded.store p s).store q t = (crowded.store q t).store p s ∧
    (∀ name, (crowded.store p s).get? name ≠ none ∧ p.isNamed name = true ↔ name = p.name) ∧
    ∀ name, p.isNamed name = false → (crowded.store p s).get? name = crowded.get? name := by
  intro p q s t
  exact store_separates ofProfiles_builtinProfiles (by simp [Registry.builtin, builtinProfiles, p])
    (by simp [Registry.builtin, builtinProfiles, q]) (by decide +kernel) (by decide) (by decide)
    crowded s t

end Transcode.Options
