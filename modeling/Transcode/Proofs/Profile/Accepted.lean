import Transcode.Proofs.Profile.Consistent

/-! # Accepted and refused profiles

A registry is built exactly from consistent profiles. Otherwise the fault is one of the first profile
that breaks a rule, and what it says of this profile is so. -/

namespace Transcode

/-! ## Broken rules -/

/-- A parameter breaks a rule. The rules do not invoke the checks. -/
inductive Parameter.Breaks (q : Parameter) : ParameterFault → Prop where
  | integerBounds {min max : Int64}
      (hkind : q.kind = .direct (.int min max) ∨ q.kind = .direct (.kbps min max))
      (hbounds : max.toInt < min.toInt) : Breaks q .integerBounds
  | floatBounds {min max : Bound} (hkind : q.kind = .direct (.float min max))
      (hbounds : max.lt min = true) : Breaks q .floatBounds
  | noChoices (hkind : q.kind = .choice []) : Breaks q .noChoices
  | scaleElsewhere (hkind : q.kind = .scale) (hcontext : q.context ≠ .videoFilter) :
      Breaks q .scaleElsewhere
  | flaggedMetadata (hcontext : q.context = .metadata) (hflag : q.flag ≠ none) :
      Breaks q .flaggedMetadata

/-- A profile breaks a rule in itself. -/
inductive Profile.Breaks (p : Profile) : ProfileFault → Prop where
  | duplicateParameter {before after : List Parameter} {e q : Parameter}
      (hparameters : p.parameters = before ++ q :: after) (he : e ∈ before) (hkey : e.key = q.key) :
      Breaks p (.duplicateParameter p.name q.key)
  | invalidParameter {q : Parameter} {fault : ParameterFault} (hq : q ∈ p.parameters)
      (hfault : q.Breaks fault) : Breaks p (.invalidParameter p.name q.key fault)
  | missingMetadata {key : String} (hkey : key = Key.passes ∨ key = Key.container)
      (hnone : ∀ q ∈ p.parameters, q.key = key → q.context ≠ .metadata) :
      Breaks p (.missingMetadata p.name key)
  | unknownQualityKey (hnone : ∀ q ∈ p.parameters, q.key ≠ p.qualityKey) :
      Breaks p (.unknownQualityKey p.name p.qualityKey)
  | missingVendorFlag
      (hneed : p.passStyle = .vendor ∨ ∃ q ∈ p.parameters, q.context = .vendorSpecialOption)
      (hnone : p.vendorFlag = none) : Breaks p (.missingVendorFlag p.name)
  | scaleParameterWithoutScale (hneed : ∃ q ∈ p.parameters, q.context = .scaleFilterParameter)
      (hnone : ∀ q ∈ p.parameters, q.kind ≠ .scale) : Breaks p (.scaleParameterWithoutScale p.name)

/-- A profile breaks a rule among others, of which some come before it. -/
inductive Profile.Offends (earlier : List Profile) (p : Profile) : ProfileFault → Prop where
  | duplicateProfile {q : Profile} (hq : q ∈ earlier)
      (hname : Text.sameFolded q.name p.name = true) : Offends earlier p (.duplicateProfile p.name)
  | inconsistent {fault : ProfileFault} (hfault : p.Breaks fault) : Offends earlier p fault

/-- Consistent parameters break no rule. -/
theorem Parameter.Breaks.not_isConsistent {q : Parameter} {fault : ParameterFault}
    (h : q.Breaks fault) : ¬ q.IsConsistent := by
  rintro ⟨hkind, hscale, hmetadata⟩
  cases h with
  | integerBounds hk hbounds =>
    rcases hk with hk | hk <;> rw [hk] at hkind <;> exact absurd hbounds (Int.not_lt.mpr hkind)
  | floatBounds hk hbounds =>
    rw [hk] at hkind
    exact absurd (hkind.symm.trans hbounds) (by decide)
  | noChoices hk =>
    rw [hk] at hkind
    exact hkind rfl
  | scaleElsewhere hk hcontext => exact hcontext (hscale hk)
  | flaggedMetadata hcontext hflag => exact hflag (hmetadata hcontext)

/-- Consistent profiles break no rule. -/
theorem Profile.Breaks.not_isConsistent {p : Profile} {fault : ProfileFault} (h : p.Breaks fault) :
    ¬ p.IsConsistent := by
  intro hp
  cases h with
  | duplicateParameter hparameters he hkey =>
    have hkeys := hp.keys
    rw [hparameters, List.map_append, List.nodup_append] at hkeys
    exact hkeys.2.2 _ (List.mem_map_of_mem he) _ (List.mem_map_of_mem (by simp)) hkey
  | invalidParameter hq hfault => exact hfault.not_isConsistent (hp.parameters _ hq)
  | missingMetadata hkey hnone =>
    rcases hkey with rfl | rfl
    · obtain ⟨q, hq, hqk, hcontext⟩ := hp.passes
      exact hnone q hq hqk hcontext
    · obtain ⟨q, hq, hqk, hcontext⟩ := hp.container
      exact hnone q hq hqk hcontext
  | unknownQualityKey hnone =>
    obtain ⟨q, hq, hqk⟩ := hp.quality
    exact hnone q hq hqk
  | missingVendorFlag hneed hnone => exact hp.vendorFlag hneed hnone
  | scaleParameterWithoutScale hneed hnone =>
    obtain ⟨q, hq, hscale⟩ := hp.scale hneed
    exact hnone q hq (by simpa [Parameter.isScale] using hscale)

/-- Profiles are not consistent with one that offends. -/
theorem Profile.Offends.not_isConsistent {earlier : List Profile} {p : Profile}
    {fault : ProfileFault} (h : p.Offends earlier fault) :
    ¬ Registry.IsConsistent (earlier ++ [p]) := by
  intro hall
  cases h with
  | duplicateProfile hq hname =>
    have hdiffer := (List.pairwise_append.mp hall.names).2.2 _ hq p (by simp)
    exact absurd (hname.symm.trans hdiffer) (by decide)
  | inconsistent hfault => exact hfault.not_isConsistent (hall.profiles p (by simp))

/-! ## Faults are broken rules -/

theorem Parameter.breaks_of_fault? {q : Parameter} {fault : ParameterFault}
    (h : q.fault? = some fault) : q.Breaks fault := by
  rw [fault?, Option.or_eq_some_iff] at h
  rcases h with h | ⟨-, h⟩
  · cases hkind : q.kind with
    | direct range =>
      cases range with
      | int min max =>
        obtain ⟨hbounds, rfl⟩ : max.toInt < min.toInt ∧ _ := by simpa [kindFault?, hkind] using h
        exact .integerBounds (.inl hkind) hbounds
      | kbps min max =>
        obtain ⟨hbounds, rfl⟩ : max.toInt < min.toInt ∧ _ := by simpa [kindFault?, hkind] using h
        exact .integerBounds (.inr hkind) hbounds
      | float min max =>
        obtain ⟨hbounds, rfl⟩ : max.lt min = true ∧ _ := by simpa [kindFault?, hkind] using h
        exact .floatBounds hkind hbounds
      | oneOf | any => simp [kindFault?, hkind] at h
    | choice choices =>
      obtain ⟨rfl, rfl⟩ : choices = [] ∧ _ := by simpa [kindFault?, hkind] using h
      exact .noChoices hkind
    | scale =>
      obtain ⟨hcontext, rfl⟩ : q.context ≠ .videoFilter ∧ _ := by simpa [kindFault?, hkind] using h
      exact .scaleElsewhere hkind hcontext
  · obtain ⟨⟨hcontext, hflag⟩, rfl⟩ : (q.context = .metadata ∧ _) ∧ _ := by simpa using h
    exact .flaggedMetadata hcontext (Option.isSome_iff_ne_none.mp hflag)

namespace Profile

/-- The first parameter with a fault has a key that is not new, or breaks a rule in itself. -/
theorem exists_of_parametersFault? {profile : String} {earlier qs : List Parameter}
    {fault : ProfileFault} (h : parametersFault? profile earlier qs = some fault) :
    ∃ before q after, qs = before ++ q :: after ∧
      ((∃ e ∈ earlier ++ before, e.key = q.key ∧ fault = .duplicateParameter profile q.key) ∨
        ∃ broken, q.Breaks broken ∧ fault = .invalidParameter profile q.key broken) := by
  induction qs generalizing earlier with
  | nil => cases h
  | cons q qs ih =>
    simp only [parametersFault?] at h
    split at h
    · rename_i hany
      obtain ⟨e, he, hkey⟩ := List.any_eq_true.mp hany
      exact ⟨[], q, qs, rfl, .inl ⟨e, by simpa using he, by simpa using hkey,
        (Option.some.inj h).symm⟩⟩
    split at h
    · rename_i broken hq
      exact ⟨[], q, qs, rfl, .inr ⟨broken, q.breaks_of_fault? hq, (Option.some.inj h).symm⟩⟩
    · obtain ⟨before, q', after, rfl, hfault⟩ := ih h
      exact ⟨q :: before, q', after, rfl, by simpa using hfault⟩

/-- A fault of the parameters, or another one where the parameters have none. -/
theorem breaks_of_fault? {p : Profile} {fault : ProfileFault} (h : p.fault? = some fault) :
    p.Breaks fault := by
  have hmetadata {key : String} (hkeys : (p.parameters.map (·.key)).Nodup)
      (hkey : key = Key.passes ∨ key = Key.container) (h : p.metadataFault? key = some fault) :
      p.Breaks fault := by
    have hnone : ¬ ∃ q ∈ p.parameters, q.key = key ∧ q.context = .metadata := by
      rw [← metadataFault?_eq_none_iff hkeys, h]
      exact nofun
    have hfault : fault = .missingMetadata p.name key := by
      rw [metadataFault?] at h
      split at h
      · split at h
        · cases h
        · exact (Option.some.inj h).symm
      · exact (Option.some.inj h).symm
    subst hfault
    exact .missingMetadata hkey fun q hq hqk hcontext => hnone ⟨q, hq, hqk, hcontext⟩
  simp only [fault?, Option.or_eq_some_iff, Option.or_eq_none_iff, parametersFault?_eq_none_iff] at h
  rcases h with ((((h | ⟨⟨-, hkeys, -⟩, h⟩) | ⟨⟨⟨-, hkeys, -⟩, -⟩, h⟩) | ⟨-, h⟩) | ⟨-, h⟩) | ⟨-, h⟩
  · obtain ⟨before, q, after, hqs, ⟨e, he, hkey, rfl⟩ | ⟨broken, hbroken, rfl⟩⟩ :=
      exists_of_parametersFault? h
    · exact .duplicateParameter hqs (by simpa using he) hkey
    · exact .invalidParameter (by simp [hqs]) hbroken
  · exact hmetadata hkeys (.inl rfl) h
  · exact hmetadata hkeys (.inr rfl) h
  · obtain ⟨hnone, rfl⟩ : (∀ q ∈ p.parameters, q.key ≠ p.qualityKey) ∧ _ := by
      simpa [parameter?] using h
    exact .unknownQualityKey hnone
  · split at h
    · rename_i hneed
      obtain rfl := Option.some.inj h
      rw [Bool.and_eq_true, Bool.or_eq_true, Option.isNone_iff_eq_none] at hneed
      refine .missingVendorFlag ?_ hneed.2
      rw [← inContext_ne_nil_iff]
      exact hneed.1.symm.imp (by simp) (by simp)
    · cases h
  · split at h
    · rename_i hneed
      obtain rfl := Option.some.inj h
      rw [Bool.and_eq_true] at hneed
      refine .scaleParameterWithoutScale ?_ ?_
      · rw [← inContext_ne_nil_iff]
        simpa using hneed.1
      · simpa [Parameter.isScale] using hneed.2
    · cases h

end Profile

namespace Registry

/-- The first profile with a fault offends, and those before it are in order. -/
theorem exists_of_profilesFault? {earlier ps : List Profile} {fault : ProfileFault}
    (h : profilesFault? earlier ps = some fault) :
    ∃ before p after, ps = before ++ p :: after ∧ profilesFault? earlier before = none ∧
      p.Offends (earlier ++ before) fault := by
  induction ps generalizing earlier with
  | nil => cases h
  | cons p ps ih =>
    simp only [profilesFault?] at h
    split at h
    · rename_i hany
      obtain ⟨q, hq, hname⟩ := List.any_eq_true.mp hany
      obtain rfl := Option.some.inj h
      exact ⟨[], p, ps, rfl, rfl, .duplicateProfile (by simpa using hq) hname⟩
    split at h
    · rename_i hp
      obtain rfl := Option.some.inj h
      exact ⟨[], p, ps, rfl, rfl, .inconsistent (p.breaks_of_fault? hp)⟩
    · rename_i hnew _ hp
      obtain ⟨before, p', after, rfl, hbefore, hoffends⟩ := ih h
      refine ⟨p :: before, p', after, rfl, ?_, by simpa using hoffends⟩
      simp only [profilesFault?, if_neg hnew, hp, hbefore]

theorem exists_offends_of_ofProfiles {ps : List Profile} {fault : ProfileFault}
    (h : ofProfiles ps = .error fault) :
    ∃ before p after, ps = before ++ p :: after ∧ IsConsistent before ∧ p.Offends before fault := by
  rw [ofProfiles] at h
  split at h
  · rename_i hps
    obtain rfl := Except.error.inj h
    obtain ⟨before, p, after, hsplit, hbefore, hoffends⟩ := exists_of_profilesFault? hps
    exact ⟨before, p, after, hsplit, ((profilesFault?_eq_none_iff [] before).mp hbefore).1, hoffends⟩
  · cases h

/-- A registry is built exactly from consistent profiles whose names differ by more than case, and
holds them in their order. Otherwise the fault is one of the first profile that breaks a rule. -/
theorem ofProfiles_accepts (ps : List Profile) :
    (∀ r, ofProfiles ps = .ok r ↔ IsConsistent ps ∧ r = ⟨ps⟩) ∧
    ∀ fault, ofProfiles ps = .error fault →
      ∃ before p after, ps = before ++ p :: after ∧ IsConsistent before ∧
        ¬ IsConsistent (before ++ [p]) ∧ p.Offends before fault := by
  refine ⟨ofProfiles_eq_ok_iff ps, fun fault h => ?_⟩
  obtain ⟨before, p, after, hps, hbefore, hoffends⟩ := exists_offends_of_ofProfiles h
  exact ⟨before, p, after, hps, hbefore, hoffends.not_isConsistent, hoffends⟩

/-- A profile that needs a flag for the vendor's parameters and has none, after one in order. -/
theorem ofProfiles_accepts_hevc :
    let p : Profile := { Builtin.hevc with vendorFlag := none }
    ofProfiles [Builtin.vp9, p] = .error (.missingVendorFlag "hevc") ∧
    ∃ before q after, [Builtin.vp9, p] = before ++ q :: after ∧ IsConsistent before ∧
      ¬ IsConsistent (before ++ [q]) ∧ q.Offends before (.missingVendorFlag "hevc") := by
  intro p
  have hfault : profilesFault? [] [Builtin.vp9, p] = some (.missingVendorFlag "hevc") := by
    decide +kernel
  have hrefused : ofProfiles [Builtin.vp9, p] = .error (.missingVendorFlag "hevc") := by
    rw [ofProfiles, hfault]
  exact ⟨hrefused, (ofProfiles_accepts _).2 _ hrefused⟩

end Registry

/-- What is no number is not below anything. -/
example : Parameter.fault? { Builtin.fps with kind := .direct (.float (.ofInt64 1) .undefined) } =
    none := by
  decide +kernel

end Transcode
