import Mathlib.Data.List.Nodup
import Transcode.Profile.Builtin

/-! # Consistent profiles

What the profiles of a registry are promised to be, told without the order in which it is checked. -/

namespace Transcode

/-! ## Parameters -/

/-- A range with bounds has them in order, and a list of choices is not empty. -/
def Kind.IsConsistent : Kind → Prop
  | .direct (.int min max) | .direct (.kbps min max) => min.toInt ≤ max.toInt
  | .direct (.float min max) => max.lt min = false
  | .direct (.oneOf _) | .direct .any => True
  | .choice choices => choices ≠ []
  | .scale => True

/-- A picture size is a video filter, and what is never rendered has no flag. -/
structure Parameter.IsConsistent (q : Parameter) : Prop where
  kind : q.kind.IsConsistent
  scale : q.kind = .scale → q.context = .videoFilter
  metadata : q.context = .metadata → q.flag = none

theorem Parameter.kindFault?_eq_none_iff (q : Parameter) :
    q.kindFault? = none ↔ q.kind.IsConsistent ∧ (q.kind = .scale → q.context = .videoFilter) := by
  cases h : q.kind with
  | direct range => cases range <;> simp [kindFault?, Kind.IsConsistent, h]
  | choice choices => simp [kindFault?, Kind.IsConsistent, h]
  | scale => simp [kindFault?, Kind.IsConsistent, h]

theorem Parameter.fault?_eq_none_iff (q : Parameter) : q.fault? = none ↔ q.IsConsistent := by
  have hm : (if q.context == .metadata && q.flag.isSome then some ParameterFault.flaggedMetadata
      else none) = none ↔ (q.context = .metadata → q.flag = none) := by
    simp
  rw [fault?, Option.or_eq_none_iff, kindFault?_eq_none_iff, hm]
  constructor
  · rintro ⟨⟨hk, hs⟩, hm⟩
    exact ⟨hk, hs, hm⟩
  · rintro ⟨hk, hs, hm⟩
    exact ⟨⟨hk, hs⟩, hm⟩

/-! ## Profiles -/

/-- A profile whose table has no fault. -/
structure Profile.IsConsistent (p : Profile) : Prop where
  keys : (p.parameters.map (·.key)).Nodup
  parameters : ∀ q ∈ p.parameters, q.IsConsistent
  passes : ∃ q ∈ p.parameters, q.key = Key.passes ∧ q.context = .metadata
  container : ∃ q ∈ p.parameters, q.key = Key.container ∧ q.context = .metadata
  quality : ∃ q ∈ p.parameters, q.key = p.qualityKey
  vendorFlag : (p.passStyle = .vendor ∨ ∃ q ∈ p.parameters, q.context = .vendorSpecialOption) →
    p.vendorFlag ≠ none
  scale : (∃ q ∈ p.parameters, q.context = .scaleFilterParameter) →
    ∃ q ∈ p.parameters, q.isScale = true

namespace Profile

/-- Every parameter has to be in order and its key new, those before it included. -/
theorem parametersFault?_eq_none_iff (profile : String) (earlier qs : List Parameter) :
    parametersFault? profile earlier qs = none ↔
      (∀ q ∈ qs, q.IsConsistent) ∧ (qs.map (·.key)).Nodup ∧
        ∀ q ∈ earlier, ∀ q' ∈ qs, q.key ≠ q'.key := by
  induction qs generalizing earlier with
  | nil => simp [parametersFault?]
  | cons q qs ih =>
    by_cases hk : (earlier.any fun e => e.key == q.key) = true
    · obtain ⟨e, he, hek⟩ := List.any_eq_true.mp hk
      simp only [parametersFault?, hk, if_true, reduceCtorEq, false_iff]
      rintro ⟨-, -, h⟩
      exact h e he q (by simp) (by simpa using hek)
    · have hnew : ∀ e ∈ earlier, e.key ≠ q.key := by simpa using hk
      simp only [parametersFault?, hk]
      cases hq : q.fault? with
      | some fault =>
        have hn : ¬ q.IsConsistent := fun h => by simp [(q.fault?_eq_none_iff).mpr h] at hq
        simp [hn]
      | none =>
        have hc : q.IsConsistent := q.fault?_eq_none_iff.mp hq
        simp only [Bool.false_eq_true, if_false, ih, List.mem_append, List.mem_cons,
          forall_eq_or_imp, List.map_cons, List.nodup_cons, hc, true_and]
        constructor
        · rintro ⟨hqs, hnd, h⟩
          refine ⟨hqs, ⟨?_, hnd⟩, fun e he => ⟨hnew e he, h e (.inl he)⟩⟩
          intro hm
          obtain ⟨q', hq', hk'⟩ := List.mem_map.mp hm
          exact h q (by simp) q' hq' hk'.symm
        · rintro ⟨hqs, ⟨hnm, hnd⟩, h⟩
          refine ⟨hqs, hnd, ?_⟩
          rintro e (he | he) q' hq'
          · exact (h e he).2 q' hq'
          · obtain rfl : e = q := by simpa using he
            intro hk'
            exact hnm (List.mem_map.mpr ⟨q', hq', hk'.symm⟩)

/-- Keys are distinct, so the parameter found for a key is the only one. -/
theorem parameter?_eq_some_iff {p : Profile} (hk : (p.parameters.map (·.key)).Nodup) (key : String)
    (q : Parameter) : p.parameter? key = some q ↔ q ∈ p.parameters ∧ q.key = key := by
  have hinj : ∀ a ∈ p.parameters, ∀ b ∈ p.parameters, a.key = b.key → a = b :=
    fun a ha b hb h => List.inj_on_of_nodup_map hk ha hb h
  constructor
  · intro h
    exact ⟨List.mem_of_find?_eq_some h, by simpa using List.find?_some h⟩
  · rintro ⟨hq, rfl⟩
    cases h : p.parameter? q.key with
    | none => simpa using List.find?_eq_none.mp h q hq
    | some q' =>
      have hk' : q'.key = q.key := by simpa using List.find?_some h
      rw [hinj q' (List.mem_of_find?_eq_some h) q hq hk']

theorem metadataFault?_eq_none_iff {p : Profile} (hk : (p.parameters.map (·.key)).Nodup)
    (key : String) : p.metadataFault? key = none ↔
      ∃ q ∈ p.parameters, q.key = key ∧ q.context = .metadata := by
  simp only [metadataFault?]
  cases h : p.parameter? key with
  | none =>
    simp only [reduceCtorEq, false_iff]
    rintro ⟨q, hq, hqk, -⟩
    rw [(parameter?_eq_some_iff hk key q).mpr ⟨hq, hqk⟩] at h
    cases h
  | some q =>
    obtain ⟨hq, hqk⟩ := (parameter?_eq_some_iff hk key q).mp h
    constructor
    · intro hc
      exact ⟨q, hq, hqk, by simpa using hc⟩
    · rintro ⟨q', hq', hqk', hc⟩
      rw [(parameter?_eq_some_iff hk key q').mpr ⟨hq', hqk'⟩] at h
      obtain rfl := Option.some.inj h
      simp [hc]

theorem inContext_ne_nil_iff (p : Profile) (c : Context) :
    p.inContext c ≠ [] ↔ ∃ q ∈ p.parameters, q.context = c := by
  simp [inContext, List.filter_eq_nil_iff]

theorem qualityFault_eq_none_iff (p : Profile) (fault : ProfileFault) :
    (if (p.parameter? p.qualityKey).isNone then some fault else none) = none ↔
      ∃ q ∈ p.parameters, q.key = p.qualityKey := by
  simp [parameter?]

theorem vendorFault_eq_none_iff (p : Profile) (fault : ProfileFault) :
    (if (!(p.inContext .vendorSpecialOption).isEmpty || p.passStyle == .vendor) &&
        p.vendorFlag.isNone then some fault else none) = none ↔
      ((p.passStyle = .vendor ∨ ∃ q ∈ p.parameters, q.context = .vendorSpecialOption) →
        p.vendorFlag ≠ none) := by
  rw [← inContext_ne_nil_iff]
  cases hn : p.vendorFlag with
  | none => simp [or_comm]
  | some flag => simp

theorem scaleFault_eq_none_iff (p : Profile) (fault : ProfileFault) :
    (if !(p.inContext .scaleFilterParameter).isEmpty && !p.parameters.any (·.isScale) then
        some fault else none) = none ↔
      ((∃ q ∈ p.parameters, q.context = .scaleFilterParameter) →
        ∃ q ∈ p.parameters, q.isScale = true) := by
  rw [← inContext_ne_nil_iff]
  simp

/-- The checks find no fault exactly in the consistent profiles. -/
theorem fault?_eq_none_iff (p : Profile) : p.fault? = none ↔ p.IsConsistent := by
  simp only [fault?, Option.or_eq_none_iff, parametersFault?_eq_none_iff,
    qualityFault_eq_none_iff, vendorFault_eq_none_iff, scaleFault_eq_none_iff]
  constructor
  · rintro ⟨⟨⟨⟨⟨⟨hqs, hk, -⟩, hpasses⟩, hcontainer⟩, hquality⟩, hvendor⟩, hscale⟩
    rw [metadataFault?_eq_none_iff hk] at hpasses hcontainer
    exact ⟨hk, hqs, hpasses, hcontainer, hquality, hvendor, hscale⟩
  · rintro ⟨hk, hqs, hpasses, hcontainer, hquality, hvendor, hscale⟩
    rw [← metadataFault?_eq_none_iff hk] at hpasses hcontainer
    exact ⟨⟨⟨⟨⟨⟨hqs, hk, by simp⟩, hpasses⟩, hcontainer⟩, hquality⟩, hvendor⟩, hscale⟩

end Profile

/-! ## Registries -/

namespace Registry

/-- Profiles that make up a registry: each is consistent, and no two names differ by case alone. -/
structure IsConsistent (ps : List Profile) : Prop where
  names : ps.Pairwise fun p q => Text.sameFolded p.name q.name = false
  profiles : ∀ p ∈ ps, p.IsConsistent

/-- Every profile has to be consistent and its name new, those before it included. -/
theorem profilesFault?_eq_none_iff (earlier ps : List Profile) :
    profilesFault? earlier ps = none ↔ IsConsistent ps ∧
      ∀ q ∈ earlier, ∀ p ∈ ps, Text.sameFolded q.name p.name = false := by
  induction ps generalizing earlier with
  | nil => simpa [profilesFault?] using (⟨.nil, by simp⟩ : IsConsistent [])
  | cons p ps ih =>
    by_cases hname : (earlier.any fun q => Text.sameFolded q.name p.name) = true
    · obtain ⟨q, hq, hsame⟩ := List.any_eq_true.mp hname
      simp only [profilesFault?, hname, if_true, reduceCtorEq, false_iff]
      rintro ⟨-, hnew⟩
      have hdiffers := hnew q hq p (by simp)
      rw [hsame] at hdiffers
      cases hdiffers
    · have hnew : ∀ q ∈ earlier, Text.sameFolded q.name p.name = false := by simpa using hname
      simp only [profilesFault?, hname]
      cases hp : p.fault? with
      | some fault =>
        have hfaulty : ¬ p.IsConsistent := fun h => by simp [p.fault?_eq_none_iff.mpr h] at hp
        simp only [Bool.false_eq_true, if_false, reduceCtorEq, false_iff]
        rintro ⟨hps, -⟩
        exact hfaulty (hps.profiles p (by simp))
      | none =>
        simp only [Bool.false_eq_true, if_false, ih, List.mem_append, List.mem_singleton]
        constructor
        · rintro ⟨hps, hlater⟩
          refine ⟨⟨List.pairwise_cons.mpr ⟨fun p' hp' => hlater p (.inr rfl) p' hp', hps.names⟩,
            ?_⟩, ?_⟩
          · rintro p' (_ | ⟨_, hp'⟩)
            · exact p.fault?_eq_none_iff.mp hp
            · exact hps.profiles p' hp'
          · rintro q hq p' (_ | ⟨_, hp'⟩)
            · exact hnew q hq
            · exact hlater q (.inl hq) p' hp'
        · rintro ⟨hps, hlater⟩
          obtain ⟨hfirst, hrest⟩ := List.pairwise_cons.mp hps.names
          refine ⟨⟨hrest, fun p' hp' => hps.profiles p' (by simp [hp'])⟩, ?_⟩
          rintro q (hq | rfl) p' hp'
          · exact hlater q hq p' (by simp [hp'])
          · exact hfirst p' hp'

/-- A registry is made of consistent profiles, and of nothing else. -/
theorem ofProfiles_eq_ok_iff (ps : List Profile) (r : Registry) :
    ofProfiles ps = .ok r ↔ IsConsistent ps ∧ r = ⟨ps⟩ := by
  have hnone := profilesFault?_eq_none_iff [] ps
  rw [ofProfiles]
  cases hps : profilesFault? [] ps with
  | some fault =>
    simp only [reduceCtorEq, false_iff]
    rintro ⟨hps', -⟩
    rw [hnone.mpr ⟨hps', by simp⟩] at hps
    cases hps
  | none => simp [(hnone.mp hps).1, eq_comm]

theorem isConsistent_profiles {ps : List Profile} {r : Registry} (hr : ofProfiles ps = .ok r) :
    IsConsistent r.profiles := by
  obtain ⟨hps, rfl⟩ := (ofProfiles_eq_ok_iff ps r).mp hr
  exact hps

/-- The profiles of a registry are those it was made of, and all of them are consistent. -/
theorem isConsistent_of_mem {ps : List Profile} {r : Registry} {p : Profile}
    (hr : ofProfiles ps = .ok r) (hp : p ∈ r.profiles) : p.IsConsistent :=
  (isConsistent_profiles hr).profiles p hp

theorem isConsistent_builtin {p : Profile} (hp : p ∈ builtinProfiles) : p.IsConsistent :=
  isConsistent_of_mem ofProfiles_builtinProfiles hp

theorem fault?_builtin {p : Profile} (hp : p ∈ builtinProfiles) : p.fault? = none :=
  p.fault?_eq_none_iff.mpr (isConsistent_builtin hp)

end Registry

end Transcode
