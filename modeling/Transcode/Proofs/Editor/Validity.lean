import Transcode.Proofs.Editor.Change
import Transcode.Proofs.Profile.Consistent
import Transcode.Proofs.Validation.Resolution
import Transcode.Proofs.Validation.Stored
import Transcode.Proofs.Validation.Typed

/-! # Edited settings checked again

What the editor accepts is checked again before it is used, and passes, with one exception: a side of
a picture is read as an unsigned word, while the sizes that are stored have signed sides. -/

namespace Transcode

/-! ## Profiles to edit -/

/-- Whether what a kind accepts is accepted again once it is stored. -/
def Kind.isCanonical : Kind → Bool
  | .direct range => range.isCanonical
  | .choice _ | .scale => true

/-- A profile with one parameter for every key, in which the keys that the editor writes on its own
account belong to what it writes there. -/
structure Profile.IsEditable (p : Profile) : Prop where
  keys : (p.parameters.map (·.key)).Nodup
  resizable : ∃ q ∈ p.parameters, q.kind = .scale
  scale : ∀ q ∈ p.parameters, q.key = Key.scale ↔ q.kind = .scale
  evenFix : ∀ q ∈ p.parameters, q.key ≠ Key.evenFix
  canonical : ∀ q ∈ p.parameters, q.kind.isCanonical = true

theorem isEditable_builtin {p : Profile} (hp : p ∈ builtinProfiles) : p.IsEditable := by
  have htables : ∀ p ∈ builtinProfiles, ∀ q ∈ p.parameters,
      (q.key = Key.scale ↔ q.kind = .scale) ∧ q.key ≠ Key.evenFix ∧ q.kind.isCanonical = true := by
    decide +kernel
  have hresizable : ∀ p ∈ builtinProfiles, ∃ q ∈ p.parameters, q.kind = .scale := by
    decide +kernel
  exact ⟨(Registry.isConsistent_builtin hp).keys, hresizable p hp, fun q hq => (htables p hp q hq).1,
    fun q hq => (htables p hp q hq).2.1, fun q hq => (htables p hp q hq).2.2⟩

theorem Profile.IsEditable.eq_of_key {p : Profile} (hp : p.IsEditable) {q q' : Parameter}
    (hq : q ∈ p.parameters) (hq' : q' ∈ p.parameters) (h : q.key = q'.key) : q = q' :=
  List.inj_on_of_nodup_map hp.keys hq hq' h

namespace Editor

variable {p : Profile} {s s' : Settings} {script : List String}

/-! ## What is stored -/

/-- A picture size made of a line of the script that denotes too large a side. -/
def TypedTooLarge (script : List String) (size : String) : Prop :=
  ∃ line ∈ script, ∃ (n : Nat) (r : Resolution), checkDimension line = .ok n ∧ r.IsOversized n ∧
    size = r.display

/-- What may be stored under a key: what its parameter takes, or a picture size of the script that is
too large. -/
def Storable (p : Profile) (script : List String) (key : String) (v : Setting) : Prop :=
  ∀ q ∈ p.parameters, q.key = key →
    q.Takes v ∨ key = Key.scale ∧ ∃ size, TypedTooLarge script size ∧ v = .text size

/-- A picture size that is accepted is stored in a form that is accepted again, unless the side that
was typed is too large. -/
theorem check_readSize {step : ScaleStep} {line size : String} (hline : line ∈ script)
    (h : readSize step line = .ok size) :
    Kind.scale.check size = .ok () ∨ TypedTooLarge script size := by
  have hvalid {r : Resolution} (hr : r.IsValid) : Kind.scale.check r.display = .ok () := by
    rw [Kind.check, hr.checkResolution_display]
    rfl
  obtain ⟨r, rfl, hr | ⟨n, hn, hr⟩⟩ := readSize_eq_ok h
  · exact .inl (hvalid (isValid_of_resolution?_eq_some (checkResolution_eq_ok_iff.mp hr)))
  · rcases Resolution.isValid_or_isOversized (checkDimension_eq_ok_iff.mp hn).2 hr with hr | hr
    · exact .inl (hvalid hr)
    · exact .inr ⟨line, hline, n, r, hn, hr, rfl⟩

/-- The editor stores what the parameter takes, with the exception of sizes that are too large. -/
theorem storable_of_writes (hp : p.IsEditable) {place : Place p} {line key : String} {v : Setting}
    (hfits : place.Fits) (hline : line ∈ script) (hwrites : Writes place line key v) :
    Storable p script key v := by
  have hown {i : Fin p.parameters.length} {q : Parameter} (hq : q ∈ p.parameters)
      (hkey : q.key = (p.parameters.get i).key) : q = p.parameters.get i :=
    hp.eq_of_key hq (List.get_mem _ i) hkey
  intro q hq hkey
  cases hwrites with
  | @typed i range _ haccepted =>
    obtain rfl := hown hq hkey
    have hkind : (p.parameters.get i).kind = .direct range := hfits
    have hcanonical := hp.canonical _ hq
    rw [hkind] at hcanonical
    left
    right
    rw [hkind]
    exact checkInput_display_ofInput hcanonical haccepted
  | directReset => exact .inl (.inl rfl)
  | @chosen i choices c _ hc =>
    obtain rfl := hown hq hkey
    have hkind : (p.parameters.get i).kind = .choice choices := hfits
    left
    right
    rw [hkind, Setting.display_text]
    exact checkValue_eq_ok_iff.mpr ⟨c, hc, rfl⟩
  | choiceReset => exact .inl (.inl rfl)
  | @sized i step size _ hread =>
    have hkind : q.kind = .scale := (hp.scale q hq).mp hkey
    rcases check_readSize hline hread with hsize | hsize
    · left
      right
      rw [hkind, Setting.display_text]
      exact hsize
    · exact .inr ⟨rfl, size, hsize, rfl⟩
  | fixed fix => exact absurd hkey (hp.evenFix q hq)

/-! ## The second check -/

/-- A session keeps what is stored in order, but for picture sizes of the script. -/
theorem storable_edit (hp : p.IsEditable) (hs : p.storedFaults s = []) :
    (edit p s script).result.All (Storable p script) := by
  apply edit_all
  · intro place line key v hfits hline hwrites
    exact storable_of_writes hp hfits hline hwrites
  · rintro _ v hv q hq rfl
    exact .inl (Profile.storedFaults_eq_nil_iff.mp hs q hq v hv)

theorem storedFault?_of_isOversized {q : Parameter} (hkind : q.kind = .scale) {n : Nat}
    {r : Resolution} (hr : r.IsOversized n) (hstored : s.get? q.key = some (.text r.display)) :
    q.storedFault? s = some ⟨q.key, .invalidResolution r.display⟩ := by
  apply Parameter.storedFault?_eq_some_iff.mpr
  refine ⟨.text r.display, _, Settings.renderable_eq_some_iff.mpr ⟨hstored, by simp⟩, ?_, rfl⟩
  rw [hkind, Kind.check, Setting.display_text, hr.checkResolution_display]
  rfl

/-- Settings in order are in order after a session as well, unless a side that is too large was typed
and is stored in the end; then it is the only fault. -/
theorem storedFaults_edit (hp : p ∈ builtinProfiles) (hs : p.storedFaults s = [])
    (hs' : (edit p s script).result = s') :
    (p.storedFaults s' = [] ∧
      ∀ n r, Resolution.IsOversized n r → s'.get? Key.scale ≠ some (.text r.display)) ∨
    ∃ size, TypedTooLarge script size ∧ s'.get? Key.scale = some (.text size) ∧
      p.storedFaults s' = [⟨Key.scale, .invalidResolution size⟩] := by
  have heditable := isEditable_builtin hp
  have hall : s'.All (Storable p script) := hs' ▸ storable_edit heditable hs
  obtain ⟨q, hq, hkind⟩ := heditable.resizable
  have hkey : q.key = Key.scale := (heditable.scale q hq).mpr hkind
  -- Only the picture size can be at fault: every other parameter takes what is stored for it.
  by_cases hover : ∃ size, TypedTooLarge script size ∧ s'.get? Key.scale = some (.text size)
  · right
    obtain ⟨_, ⟨line, hline, n, r, hn, hr, rfl⟩, hstored⟩ := hover
    refine ⟨r.display, ⟨line, hline, n, r, hn, hr, rfl⟩, hstored, ?_⟩
    rw [← hkey] at hstored ⊢
    apply Profile.storedFaults_eq_singleton heditable.keys hq
    · exact storedFault?_of_isOversized hkind hr hstored
    · intro q' hq' hne
      apply Parameter.storedFault?_eq_none_iff.mpr
      intro v hv
      rcases hall q'.key v hv q' hq' rfl with htakes | ⟨hscale, -⟩
      · exact htakes
      · exact absurd (hscale.trans hkey.symm) hne
  · left
    have hnil : p.storedFaults s' = [] := by
      apply Profile.storedFaults_eq_nil_iff.mpr
      intro q' hq' v hv
      rcases hall q'.key v hv q' hq' rfl with htakes | ⟨hscale, size, hsize, rfl⟩
      · exact htakes
      · exact absurd ⟨size, hsize, hscale ▸ hv⟩ hover
    refine ⟨hnil, fun n r hr hstored => ?_⟩
    rw [← hkey] at hstored
    have hfault := List.filterMap_eq_nil_iff.mp hnil q hq
    rw [storedFault?_of_isOversized hkind hr hstored] at hfault
    cases hfault

/-- The largest unsigned word is a width that is stored and then refused. -/
theorem storedFaults_edit_vp9 :
    Builtin.vp9 ∈ builtinProfiles ∧
    Builtin.vp9.storedFaults Builtin.vp9.defaultSettings = [] ∧
    Builtin.vp9.storedFaults
        (edit Builtin.vp9 Builtin.vp9.defaultSettings ["3", "2", "4294967295", ""]).result =
      [⟨Key.scale, .invalidResolution "4294967295:-1"⟩] := by
  have hp : Builtin.vp9 ∈ builtinProfiles := by simp [builtinProfiles]
  have hs : Builtin.vp9.storedFaults Builtin.vp9.defaultSettings = [] := by decide +kernel
  have hstored : (edit Builtin.vp9 Builtin.vp9.defaultSettings
      ["3", "2", "4294967295", ""]).result.get? Key.scale = some (.text "4294967295:-1") := by
    decide +kernel
  have hdisplay : Resolution.display ⟨4294967295, -1⟩ = "4294967295:-1" := by decide +kernel
  refine ⟨hp, hs, ?_⟩
  generalize hresult : (edit Builtin.vp9 Builtin.vp9.defaultSettings
    ["3", "2", "4294967295", ""]).result = s' at hstored ⊢
  rcases storedFaults_edit hp hs hresult with ⟨-, hnone⟩ | ⟨size, -, hsize, hfaults⟩
  · rw [← hdisplay] at hstored
    exact absurd hstored (hnone 4294967295 _ ⟨by decide, .inr rfl⟩)
  · rw [hstored] at hsize
    cases hsize
    exact hfaults

/-- Not all sessions keep settings in order. -/
theorem storedFaults_edit_ne_nil :
    ¬ ∀ p ∈ builtinProfiles, ∀ (s : Settings) (script : List String), p.storedFaults s = [] →
      p.storedFaults (edit p s script).result = [] := by
  intro h
  have hfault : Builtin.hevc.storedFaults (edit Builtin.hevc Builtin.hevc.defaultSettings
      ["2", "1", "3000000000", ""]).result ≠ [] := by
    decide +kernel
  exact hfault (h Builtin.hevc (by simp [builtinProfiles]) _ _ (by decide +kernel))

end Editor

end Transcode
