import Mathlib.Data.List.Pairwise
import Transcode.Proofs.Profile.Consistent
import Transcode.Proofs.Text.Blank

/-! # Profiles found by their names

A name asks for one profile of a registry at most. A profile is found by its name in any case and
with any blanks around it, unless its own name has blanks at its ends: then nothing asks for it. -/

namespace Transcode

open Text (isBlank trim sameFolded)

/-! ## What asks for a profile -/

namespace Profile

variable {p q : Profile} {name : String}

theorem isNamed_iff : p.isNamed name = true ↔ Text.foldCase p.name = Text.foldCase (trim name) :=
  Text.sameFolded_iff

/-- Only a profile with a trimmed name is asked for by anything. -/
theorem trim_name_of_isNamed (h : p.isNamed name = true) : trim p.name = p.name := by
  rw [isNamed_iff] at h
  rw [← Text.foldCase_trim_eq_iff, Text.foldCase_trim, h, ← Text.foldCase_trim, Text.trim_trim]

/-- A spelling of the name with blanks around it asks for a profile exactly if the name is trimmed. -/
theorem isNamed_padded_iff {before spelling after : String} (hspelling : sameFolded p.name spelling)
    (hbefore : before.toList.all isBlank = true) (hafter : after.toList.all isBlank = true) :
    p.isNamed (before ++ spelling ++ after) = true ↔ trim p.name = p.name := by
  refine ⟨trim_name_of_isNamed, fun h => ?_⟩
  have htrim : trim (before ++ spelling ++ after) = trim spelling := by
    simp only [trim, String.toList_append, Text.trimChars_append hbefore hafter]
  rw [isNamed_iff, htrim, Text.foldCase_trim, ← Text.sameFolded_iff.mp hspelling,
    ← Text.foldCase_trim, h]

theorem isNamed_name (h : trim p.name = p.name) : p.isNamed p.name = true := by
  rw [isNamed_iff, h]

/-- Profiles that one name asks for have the same name up to case. -/
theorem sameFolded_of_isNamed (hp : p.isNamed name = true) (hq : q.isNamed name = true) :
    sameFolded p.name q.name = true :=
  Text.sameFolded_iff.mpr ((isNamed_iff.mp hp).trans (isNamed_iff.mp hq).symm)

/-- No name asks for both of two profiles. -/
def Apart (p q : Profile) : Prop :=
  ∀ name, p.isNamed name = true → q.isNamed name = false

theorem Apart.symm (h : p.Apart q) : q.Apart p := by
  intro name hq
  cases hp : p.isNamed name with
  | false => rfl
  | true => exact absurd (hq.symm.trans (h name hp)) (by decide)

end Profile

/-! ## Profiles of a registry -/

namespace Registry

variable {ps : List Profile} {r : Registry} {p q : Profile} {name : String}

theorem IsConsistent.eq_of_sameFolded (hps : IsConsistent ps) (hp : p ∈ ps) (hq : q ∈ ps)
    (h : sameFolded p.name q.name = true) : p = q := by
  have hsymm : Std.Symm fun p q : Profile => sameFolded p.name q.name = false :=
    ⟨fun p q hpq => by rwa [Text.sameFolded_comm]⟩
  by_contra hne
  have hdiffer := hps.names.forall hp hq hne
  exact absurd (hdiffer.symm.trans h) (by decide)

theorem IsConsistent.nodup (hps : IsConsistent ps) : ps.Nodup := by
  refine hps.names.imp fun hdiffer => ?_
  rintro rfl
  simp at hdiffer

/-- A name that asks for a profile of a registry asks for no other one. -/
theorem IsConsistent.isNamed_iff (hps : IsConsistent ps) (hp : p ∈ ps) (h : p.isNamed name = true)
    (hq : q ∈ ps) : q.isNamed name = true ↔ q = p := by
  refine ⟨fun hname => ?_, fun heq => heq ▸ h⟩
  exact hps.eq_of_sameFolded hq hp (Profile.sameFolded_of_isNamed hname h)

theorem IsConsistent.apart (hps : IsConsistent ps) (hp : p ∈ ps) (hq : q ∈ ps) (hne : p ≠ q) :
    p.Apart q := by
  intro name hname
  simpa using (hps.isNamed_iff hp hname hq).not.mpr hne.symm

theorem isNamed_of_lookup? (h : r.lookup? name = some p) :
    p ∈ r.profiles ∧ p.isNamed name = true := by
  rw [lookup?] at h
  have hname := List.find?_some h
  exact ⟨List.mem_of_find?_eq_some h, hname⟩

theorem lookup?_eq_some_iff (hr : IsConsistent r.profiles) :
    r.lookup? name = some p ↔ p ∈ r.profiles ∧ p.isNamed name = true := by
  refine ⟨isNamed_of_lookup?, ?_⟩
  rintro ⟨hp, hname⟩
  cases h : r.lookup? name with
  | none => exact absurd hname (List.find?_eq_none.mp h p hp)
  | some q =>
    obtain ⟨hq, hnamed⟩ := isNamed_of_lookup? h
    rw [(hr.isNamed_iff hp hname hq).mp hnamed]

/-- A profile of a registry is found by every spelling of its name, whatever blanks are around it,
exactly if the name is trimmed; otherwise it is never found. A name that finds a profile asks for it
alone. -/
theorem lookup?_padded (hr : ofProfiles ps = .ok r) :
    (∀ p ∈ r.profiles, ∀ before spelling after : String, sameFolded p.name spelling = true →
      before.toList.all isBlank = true → after.toList.all isBlank = true →
      (r.lookup? (before ++ spelling ++ after) = some p ↔ trim p.name = p.name)) ∧
    (∀ p ∈ r.profiles, trim p.name ≠ p.name → ∀ name, r.lookup? name ≠ some p) ∧
    ∀ name p, r.lookup? name = some p →
      ∃ before after, r.profiles = before ++ p :: after ∧ p.isNamed name = true ∧
        ∀ q ∈ before ++ after, q.isNamed name = false := by
  have hps := isConsistent_profiles hr
  refine ⟨fun p hp before spelling after hspelling hbefore hafter => ?_,
    fun p hp htrim name hfound => ?_, fun name p hfound => ?_⟩
  · rw [lookup?_eq_some_iff hps, Profile.isNamed_padded_iff hspelling hbefore hafter]
    simp only [hp, true_and]
  · obtain ⟨-, hname⟩ := (lookup?_eq_some_iff hps).mp hfound
    exact htrim (Profile.trim_name_of_isNamed hname)
  · obtain ⟨hp, hname⟩ := (lookup?_eq_some_iff hps).mp hfound
    obtain ⟨before, after, hsplit⟩ := List.append_of_mem hp
    refine ⟨before, after, hsplit, hname, fun q hq => ?_⟩
    have hnodup := hps.nodup
    rw [hsplit, List.nodup_middle, List.nodup_cons] at hnodup
    have hmem : q ∈ r.profiles := by
      rw [hsplit]
      simpa [or_left_comm] using Or.inr (List.mem_append.mp hq)
    have hne : q ≠ p := fun heq => hnodup.1 (heq ▸ hq)
    simpa using (hps.isNamed_iff hp hname hmem).not.mpr hne

/-- A profile with a blank before its name is accepted and never found: another one answers to its
name. -/
theorem lookup?_padded_vp9 :
    let p : Profile := { Builtin.vp9 with name := " vp9" }
    let r : Registry := ⟨[p, Builtin.vp9]⟩
    r.lookup? "\tVp9\u3000" = some Builtin.vp9 ∧ (∀ name, r.lookup? name ≠ some p) ∧
    ∃ before after, r.profiles = before ++ Builtin.vp9 :: after ∧
      Builtin.vp9.isNamed "\tVp9\u3000" = true ∧
      ∀ q ∈ before ++ after, q.isNamed "\tVp9\u3000" = false := by
  intro p r
  have hps : profilesFault? [] [p, Builtin.vp9] = none := by decide +kernel
  have hr : ofProfiles [p, Builtin.vp9] = .ok r := by rw [ofProfiles, hps]
  obtain ⟨hfound, hnever, halone⟩ := lookup?_padded hr
  have hvp9 : r.lookup? ("\t" ++ "Vp9" ++ "\u3000") = some Builtin.vp9 :=
    (hfound Builtin.vp9 (by simp [r]) "\t" "Vp9" "\u3000" (by decide) (by decide) (by decide)).mpr
      (by decide)
  exact ⟨hvp9, hnever p (by simp [r]) (by decide), halone _ _ hvp9⟩

/-- It is not so that every profile of a registry is found by its own name. -/
theorem not_lookup?_name :
    let p : Profile := { Builtin.vp9 with name := " vp9" }
    ofProfiles [p, Builtin.vp9] = .ok ⟨[p, Builtin.vp9]⟩ ∧
    Registry.lookup? ⟨[p, Builtin.vp9]⟩ p.name = some Builtin.vp9 ∧ Builtin.vp9 ≠ p := by
  intro p
  have hps : profilesFault? [] [p, Builtin.vp9] = none := by decide +kernel
  refine ⟨by rw [ofProfiles, hps], by decide +kernel, by decide +kernel⟩

end Registry

end Transcode
