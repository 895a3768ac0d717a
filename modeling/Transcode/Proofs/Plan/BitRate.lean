import Transcode.Proofs.Number.Decimal
import Transcode.Proofs.Plan.Carried
import Transcode.Proofs.Plan.Faults
import Transcode.Proofs.Validation.Stored
import Transcode.Proofs.Validation.Typed

/-! # Bit rates in commands

The unit of a bit rate is added to integers only, while the check reads the digits of a text as an
integer, too. So a text needs a unit of its own to stand in a command for the rate that was checked;
what is typed never is a text without one. -/

namespace Transcode

open Number

/-! ## Spelled rates -/

namespace BitRate

/-- Texts that denote a rate with a unit of their own. -/
inductive IsSpelled : BitRate → String → Prop
  | kilobits {number : String} {unit : Char} {x : Binary64} (hunit : unit = 'k' ∨ unit = 'K')
      (hx : finite? number = some x) : IsSpelled (.kbps x) (number.push unit)
  | megabits {number : String} {x : Binary64} (hx : finite? number = some x) :
      IsSpelled (ofMegabits x) (number.push 'M')

/-- A spelled rate is a number and one of three letters. -/
theorem IsSpelled.exists_push {rate : BitRate} {s : String} (h : rate.IsSpelled s) :
    ∃ number unit x, s = String.push number unit ∧ (unit = 'k' ∨ unit = 'K' ∨ unit = 'M') ∧
      finite? number = some x := by
  cases h with
  | kilobits hunit hx => exact ⟨_, _, _, rfl, by tauto, hx⟩
  | megabits hx => exact ⟨_, _, _, rfl, by tauto, hx⟩

theorem IsSpelled.int64?_eq_none {rate : BitRate} {s : String} (h : rate.IsSpelled s) :
    int64? s = none := by
  obtain ⟨number, unit, x, rfl, hunit, -⟩ := h.exists_push
  rw [Option.eq_none_iff_forall_ne_some]
  intro n hn
  obtain ⟨c, hlast, hdigit⟩ := getLast?_isDigit (integer?_of_int64? hn)
  rw [String.toList_push, List.getLast?_concat, Option.some.injEq] at hlast
  subst hlast
  rcases hunit with rfl | rfl | rfl <;> exact absurd hdigit (by decide)

theorem IsSpelled.trim_eq_self {rate : BitRate} {s : String} (h : rate.IsSpelled s) :
    Text.trim s = s := by
  obtain ⟨number, unit, x, rfl, hunit, hx⟩ := h.exists_push
  obtain ⟨d, hd, -⟩ := Option.bind_eq_some_iff.mp hx
  obtain ⟨c, rest, hnumber, hc⟩ := Decimal.head_of_chars? hd
  have hblank : Text.isBlank unit = false := by
    rcases hunit with rfl | rfl | rfl <;> decide
  rw [Text.trim, Text.trimChars_eq_self_of_ends, String.ofList_toList]
  · simpa [hnumber] using hc
  · simpa using hblank

end BitRate

/-- What is read as a bit rate is spelled as one, or is an integer. -/
theorem bitRate?_eq_some_iff {s : String} {rate : BitRate} :
    bitRate? s = some rate ↔
      rate.IsSpelled s ∨ ∃ n, int64? s = some n ∧ rate = .kbps (.ofInt64 n) := by
  constructor
  · intro h
    have hpush {c : Char} (hlast : s.toList.getLast? = some c) :
        s = (String.ofList s.toList.dropLast).push c := by
      rw [← String.toList_inj, String.toList_push, String.toList_ofList,
        List.dropLast_append_getLast? c hlast]
    rw [bitRate?] at h
    split at h
    · rename_i hlast
      obtain ⟨x, hx, rfl⟩ := Option.map_eq_some_iff.mp h
      rw [hpush hlast]
      exact .inl (.kilobits (.inl rfl) hx)
    · rename_i hlast
      obtain ⟨x, hx, rfl⟩ := Option.map_eq_some_iff.mp h
      rw [hpush hlast]
      exact .inl (.kilobits (.inr rfl) hx)
    · rename_i hlast
      obtain ⟨x, hx, rfl⟩ := Option.map_eq_some_iff.mp h
      rw [hpush hlast]
      exact .inl (.megabits hx)
    · obtain ⟨n, hn, rfl⟩ := Option.map_eq_some_iff.mp h
      exact .inr ⟨n, hn, rfl⟩
  · rintro (h | ⟨n, hn, rfl⟩)
    · cases h with
      | kilobits hunit hx => rcases hunit with rfl | rfl <;> simp [bitRate?, hx]
      | megabits hx => simp [bitRate?, hx]
    · exact bitRate?_of_int64? hn

/-- An integer with the unit of kilobits. -/
theorem isSpelled_intText (n : Int64) :
    (BitRate.kbps (.ofInt64 n)).IsSpelled (intText n.toInt ++ "k") := by
  have hpush : intText n.toInt ++ "k" = (intText n.toInt).push 'k' := by
    rw [← String.toList_inj]
    simp
  rw [hpush]
  exact .kilobits (.inl rfl) (finite?_intText n)

/-! ## Rendered rates -/

/-- A text that denotes an integer, with no unit. -/
def Setting.IsBareText (v : Setting) : Prop :=
  ∃ t n, v = .text t ∧ int64? (Text.trim t) = some n

/-- What is typed as an integer is no text. -/
theorem Setting.not_isBareText_ofInput (line : String) : ¬ (ofInput line).IsBareText := by
  rintro ⟨t, n, htext, hn⟩
  rw [ofInput] at htext
  split at htext
  · cases htext
  · rename_i hnone
    obtain rfl := Setting.text.inj htext
    rw [Text.trim_trim, hnone] at hn
    cases hn

/-- What a command carries for a value that was read as a bit rate. -/
structure Profile.RendersRate (p : Profile) (q : Parameter) (s : Settings) (v : Setting)
    (text : String) (rate : BitRate) : Prop where
  rendered : p.Renders q s text
  checked : bitRate? (Text.trim v.display) = some rate
  spelled : rate.IsSpelled text ↔ ¬ v.IsBareText ∧ Text.trim text = text
  trimmed : rate.IsSpelled (Text.trim text) ↔ ¬ v.IsBareText
  bare : v.IsBareText → ∃ n, int64? (Text.trim text) = some n ∧ rate = .kbps (.ofInt64 n)
  typed : (∃ line, v = .ofInput line) → rate.IsSpelled text

theorem Profile.rendersRate_int {p : Profile} {q : Parameter} {s : Settings} {n : Int64}
    (hq : q ∈ p.parameters) (hunit : q.unit = some "k")
    (hv : s.renderable q.key = some (.int n)) :
    p.RendersRate q s (.int n) (intText n.toInt ++ "k") (.kbps (.ofInt64 n)) := by
  have hspelled := isSpelled_intText n
  have hbare : ¬ (Setting.int n).IsBareText := by
    rintro ⟨t, m, htext, -⟩
    cases htext
  constructor
  case rendered =>
    have hvalue : q.renderValue (.int n) = intText n.toInt ++ "k" := by
      simp [Parameter.renderValue, hunit]
    rw [← hvalue]
    exact renders_of_renderable hq hv
  case checked => rw [Setting.display_int, trim_intText, bitRate?_of_int64? (int64?_intText n)]
  case spelled => exact iff_of_true hspelled ⟨hbare, hspelled.trim_eq_self⟩
  case trimmed => exact iff_of_true (by rwa [hspelled.trim_eq_self]) hbare
  case bare => exact fun h => absurd h hbare
  case typed => exact fun _ => hspelled

theorem Profile.rendersRate_text {p : Profile} {q : Parameter} {s : Settings} {t : String}
    {rate : BitRate} (hq : q ∈ p.parameters) (hv : s.renderable q.key = some (.text t))
    (hrate : bitRate? (Text.trim t) = some rate) : p.RendersRate q s (.text t) t rate := by
  have hbare : (Setting.text t).IsBareText ↔ ∃ n, int64? (Text.trim t) = some n := by
    simp [Setting.IsBareText]
  have htrimmed : rate.IsSpelled (Text.trim t) ↔ ¬ (Setting.text t).IsBareText := by
    rw [hbare]
    constructor
    · rintro h ⟨n, hn⟩
      rw [h.int64?_eq_none] at hn
      cases hn
    · intro hnone
      rcases bitRate?_eq_some_iff.mp hrate with h | ⟨n, hn, -⟩
      · exact h
      · exact absurd ⟨n, hn⟩ hnone
  have hspelled : rate.IsSpelled t ↔ ¬ (Setting.text t).IsBareText ∧ Text.trim t = t := by
    rw [← htrimmed]
    constructor
    · intro h
      exact ⟨by rwa [h.trim_eq_self], h.trim_eq_self⟩
    · rintro ⟨h, htrim⟩
      rwa [htrim] at h
  constructor
  case rendered => exact renders_of_renderable hq hv
  case checked => exact hrate
  case spelled => exact hspelled
  case trimmed => exact htrimmed
  case bare =>
    rintro h
    obtain ⟨n, hn⟩ := hbare.mp h
    rw [bitRate?_of_int64? hn] at hrate
    exact ⟨n, hn, (Option.some.inj hrate).symm⟩
  case typed =>
    rintro ⟨line, hline⟩
    have htrim := Setting.trim_display_ofInput line
    rw [← hline] at htrim
    exact hspelled.mpr ⟨hline ▸ Setting.not_isBareText_ofInput line, htrim⟩

/-- A command carries a bit rate that passed its check with a unit and for the rate that was checked,
unless the rate is stored as a text that has blanks at its ends or no unit. In the latter case the
command carries the number of kilobits for one of bits. What is typed is stored as no such text. -/
theorem rendersRate_of_storedFaults {p : Profile} {s : Settings} {q : Parameter} {v : Setting}
    {min max : Int64} (hq : q ∈ p.parameters) (hkind : q.kind = .direct (.kbps min max))
    (hunit : q.unit = some "k") (hv : s.renderable q.key = some v)
    (hok : ∀ fault ∈ p.storedFaults s, fault.key ≠ q.key) :
    ∃ text rate, p.RendersRate q s v text rate ∧
      (Range.kbps min max).containsRate rate = true := by
  have hcheck := Profile.check_of_storedFaults hq hv hok
  rw [hkind] at hcheck
  obtain ⟨rate, hrate, hrange⟩ := checkTrimmed_kbps_eq_ok_iff.mp hcheck
  cases v with
  | int n =>
    have hrender := Profile.rendersRate_int hq hunit hv
    obtain rfl := Option.some.inj (hrender.checked.symm.trans hrate)
    exact ⟨_, _, hrender, hrange⟩
  | text t => exact ⟨t, rate, Profile.rendersRate_text hq hv hrate, hrange⟩
  | dontChange => exact absurd rfl (Settings.renderable_eq_some_iff.mp hv).2

example : ∀ p ∈ builtinProfiles, ∃ q ∈ p.parameters,
    q.kind = .direct (.kbps 6 510) ∧ q.unit = some "k" := by
  decide +kernel

/-- Half a megabit is carried as it is spelled, and was checked as five hundred kilobits. -/
theorem rendersRate_of_storedFaults_hevc :
    let p := Builtin.hevc
    let s : Settings := p.defaultSettings.insert "audio_bitrate" (.text "0.5M")
    let rate := BitRate.kbps (.ofInt64 500)
    p.RendersRate Builtin.audioBitrate s (.text "0.5M") "0.5M" rate ∧
      (Range.kbps 6 510).containsRate rate = true ∧ rate.IsSpelled "0.5M" ∧
      ∃ plan c, p.plan s (.ofString "a.mov") (.ofString "out") = .ok plan ∧
        plan.commands.getLast? = some c ∧
        [.bare "-b:a", .bare "0.5M"] <:+: c.arguments := by
  intro p s rate
  have hq : Builtin.audioBitrate ∈ p.parameters := by decide +kernel
  have hstored : s.renderable "audio_bitrate" = some (.text "0.5M") := by decide +kernel
  have hfaults : p.storedFaults s = [] := by decide +kernel
  have hok : p.fault? = none := Registry.fault?_builtin (by simp [builtinProfiles, p])
  obtain ⟨plan, hplan⟩ := exists_ok_of_isOk
    (x := p.plan s (.ofString "a.mov") (.ofString "out")) (by decide +kernel)
  obtain ⟨text, rate', hrenders, hrange⟩ :=
    rendersRate_of_storedFaults hq rfl rfl hstored (by simp [hfaults])
  have hwords : Builtin.audioBitrate.render? s = some ["-b:a", "0.5M"] := by decide +kernel
  obtain rfl : "0.5M" = text := by
    have hsame : ["-b:a", "0.5M"] = ["-b:a", text] :=
      Option.some.inj (hwords.symm.trans hrenders.rendered.words)
    simpa using hsame
  obtain rfl : rate = rate' := by
    have hread : bitRate? "0.5M" = some rate := by decide +kernel
    exact Option.some.inj (hread.symm.trans hrenders.checked)
  obtain ⟨c, hlast, hcarried⟩ := hrenders.rendered.carried hok _ _ _ hplan (by decide)
    (by intro hscale; cases hscale)
  have hspelled : rate.IsSpelled "0.5M" := hrenders.typed ⟨"0.5M", by decide +kernel⟩
  exact ⟨hrenders, hrange, hspelled, plan, c, hplan, hlast, hcarried⟩

/-- It is not so that every bit rate that passes its check is carried with a unit. -/
theorem not_isSpelled_rendered :
    let s : Settings := Builtin.hevc.defaultSettings.insert "audio_bitrate" (.text "128")
    Builtin.audioBitrate ∈ Builtin.hevc.parameters ∧ Builtin.hevc.storedFaults s = [] ∧
      s.renderable "audio_bitrate" = some (.text "128") ∧
      Builtin.audioBitrate.render? s = some ["-b:a", "128"] ∧
      ∀ rate : BitRate, ¬ rate.IsSpelled "128" := by
  intro s
  refine ⟨by decide +kernel, by decide +kernel, by decide +kernel, by decide +kernel, ?_⟩
  intro rate h
  have hnone := h.int64?_eq_none
  have hsome : int64? "128" = some 128 := by decide
  rw [hsome] at hnone
  cases hnone

end Transcode
