import Transcode.Proofs.Plan.Layout

/-! # The place of the fix for odd picture sizes

A fix is one more video filter. It stands after the place of the first scale filter, and before all
others if there is no place for one; nothing else about the video filters changes. -/

namespace Transcode

open Text.Utf8 (encode)

namespace Profile

variable (p : Profile) (s : Settings)

/-- What is rendered of some video filters, a scale filter with the scale parameters after it. -/
def filterTexts (qs : List Parameter) : List String :=
  (Buckets.sort s qs).filters ((Buckets.sort s p.parameters).words .scaleFilterParameter)

theorem filterTexts_eq {qs : List Parameter} (h : ∀ q ∈ qs, q.context = .videoFilter) :
    p.filterTexts s qs = qs.filterMap (p.filterFragment? s) := by
  have hfilters : qs.filter (fun q => q.context == .videoFilter) = qs := by
    rw [List.filter_eq_self]
    simpa using h
  rw [filterTexts, p.words_sort_of_isJoined s rfl, filters_sort, hfilters]

theorem filterTexts_append (qs others : List Parameter) :
    p.filterTexts s (qs ++ others) = p.filterTexts s qs ++ p.filterTexts s others := by
  simp [filterTexts, Buckets.filters, Buckets.sort_apply]

theorem filterTexts_scale {q : Parameter} {v : Setting} (hq : q.context = .videoFilter)
    (hscale : q.isScale = true) (hv : s.renderable q.key = some v) :
    p.filterTexts s [q] = [":".intercalate
      (q.words v ++ (Buckets.sort s p.parameters).words .scaleFilterParameter)] := by
  simp [filterTexts, Buckets.filters, Buckets.sort_apply, Buckets.added, hq, hscale, hv]

/-- The video filters around a fix: those up to the first scale filter, and those after it. -/
structure TakesFix (fix : EvenFix) (early late : List Parameter) : Prop where
  filters : p.inContext .videoFilter = early ++ late
  place : EndsAtScale early late
  unfixed : p.videoFilters s none = p.filterTexts s early ++ p.filterTexts s late
  fixed : p.videoFilters s (some fix) =
    p.filterTexts s early ++ fix.filter :: p.filterTexts s late

theorem takesFix {early late : List Parameter} (h : p.inContext .videoFilter = early ++ late)
    (hplace : EndsAtScale early late) (fix : EvenFix) : p.TakesFix s fix early late := by
  have hcontext : ∀ q ∈ early ++ late, q.context = .videoFilter := by
    intro q hq
    rw [← h, inContext, List.mem_filter] at hq
    simpa using hq.2
  have hearly := p.filterTexts_eq s fun q hq => hcontext q (List.mem_append_left late hq)
  have hlate := p.filterTexts_eq s fun q hq => hcontext q (List.mem_append_right early hq)
  refine ⟨h, hplace, ?_, ?_⟩
  · rw [p.videoFilters_eq s h hplace, hearly, hlate]
    simp
  · rw [p.videoFilters_eq s h hplace, hearly, hlate]
    simp

theorem videoFilters_ne_nil (fix : EvenFix) : p.videoFilters s (some fix) ≠ [] := by
  obtain ⟨early, late, hsplit, hplace⟩ := exists_endsAtScale (p.inContext .videoFilter)
  rw [(p.takesFix s hsplit hplace fix).fixed]
  simp

/-- A fix follows the text of the only scale filter. -/
theorem videoFilters_of_scale {early late : List Parameter} {q : Parameter} {v : Setting}
    (h : p.inContext .videoFilter = early ++ q :: late) (hscale : q.isScale = true)
    (hothers : ∀ x ∈ early, x.isScale = false) (hv : s.renderable q.key = some v) (fix : EvenFix) :
    p.videoFilters s (some fix) = p.filterTexts s early ++
      ":".intercalate (q.words v ++ (Buckets.sort s p.parameters).words .scaleFilterParameter) ::
        fix.filter :: p.filterTexts s late := by
  have hq : q ∈ p.inContext .videoFilter := by simp [h]
  have hcontext : q.context = .videoFilter := by simpa using (List.mem_filter.mp hq).2
  have hsplit : p.inContext .videoFilter = (early ++ [q]) ++ late := by simpa using h
  have hplace : EndsAtScale (early ++ [q]) late := .inl ⟨early, q, rfl, hscale, hothers⟩
  rw [(p.takesFix s hsplit hplace fix).fixed, filterTexts_append,
    p.filterTexts_scale s hcontext hscale hv]
  simp

/-- The filter that is selected tells the fix. -/
theorem SelectsFilter.evenFix_eq {p : Profile} {s : Settings} {fix : EvenFix}
    (h : p.SelectsFilter s (some fix.filter)) : p.evenFix s = .ok (some fix) := by
  obtain ⟨selected, heven, hfilter⟩ := h.exists_evenFix
  obtain ⟨fix', rfl, hsame⟩ := Option.map_eq_some_iff.mp hfilter
  have hfix : fix' = fix := by
    cases fix <;> cases fix' <;> first | rfl | exact absurd hsame (by decide)
  rw [heven, hfix]

/-- Every command of a plan starts with the input and the video filters, if there are any. -/
theorem exists_values_of_videoFilters {p : Profile} {s : Settings} {input directory : Path}
    {plan : Plan} {fix : Option EvenFix} (h : p.plan s input directory = .ok plan)
    (hfix : p.evenFix s = .ok fix) (hfilters : p.videoFilters s fix ≠ []) {c : Command}
    (hc : c ∈ plan.commands) : ∃ rest, c.values = encode "-y" :: encode "-i" :: input.bytes ::
      encode "-vf" :: encode (",".intercalate (p.videoFilters s fix)) :: rest := by
  obtain ⟨mode, container, fix', -, -, hfix', hplan⟩ := plan_eq_ok_iff.mp h
  obtain rfl := Except.ok.inj (hfix.symm.trans hfix')
  rw [hplan] at hc
  obtain ⟨pass, -, rfl⟩ := List.mem_map.mp hc
  have hoption : joinedOption "-vf" "," (p.rendering s fix).videoFilters =
      [.bare "-vf", .inQuotes (",".intercalate (p.videoFilters s fix))] := by
    rw [joinedOption, rendering]
    simp [hfilters]
  rw [Command.values, command, videoArguments, hoption]
  simp only [List.append_assoc, List.cons_append, List.nil_append, List.map_cons]
  exact ⟨_, rfl⟩

end Profile

/-- A fix is put into the video filters once, after the place of the first scale filter or at the head
if no video filter scales. It directly follows the only scale filter if that one renders, and if what
is stored selects it, every command of a plan has it among its video filters. -/
theorem videoFilters_takesFix (p : Profile) (s : Settings) (fix : EvenFix) :
    (∃ early late, p.TakesFix s fix early late) ∧
    (∀ early q late v, p.inContext .videoFilter = early ++ q :: late → q.isScale = true →
      (∀ x ∈ early ++ late, x.isScale = false) → s.renderable q.key = some v →
      p.videoFilters s (some fix) = p.filterTexts s early ++
        ":".intercalate (q.words v ++ (Buckets.sort s p.parameters).words .scaleFilterParameter) ::
          fix.filter :: p.filterTexts s late) ∧
    p.videoFilters s (some fix) ≠ [] ∧
    ∀ input directory plan, p.SelectsFilter s (some fix.filter) →
      p.plan s input directory = .ok plan → ∀ c ∈ plan.commands, ∃ rest,
        c.values = encode "-y" :: encode "-i" :: input.bytes :: encode "-vf" ::
          encode (",".intercalate (p.videoFilters s (some fix))) :: rest := by
  refine ⟨?_, ?_, p.videoFilters_ne_nil s fix, ?_⟩
  · obtain ⟨early, late, hsplit, hplace⟩ := Profile.exists_endsAtScale (p.inContext .videoFilter)
    exact ⟨early, late, p.takesFix s hsplit hplace fix⟩
  · intro early q late v h hscale hothers hv
    exact p.videoFilters_of_scale s h hscale (fun x hx => hothers x (List.mem_append_left late hx))
      hv fix
  · intro input directory plan hselected h c hc
    have hfix := hselected.evenFix_eq
    exact Profile.exists_values_of_videoFilters h hfix (p.videoFilters_ne_nil s fix) hc

/-- A picture size with an algorithm and a frame rate, in the order of the profile. -/
theorem videoFilters_takesFix_vp9 :
    let s : Settings := ((Builtin.vp9.defaultSettings.insert Key.scale (.text "-1:720")).insert "fps"
      (.int 24)).insert "scale_flags" (.text "lanczos")
    Builtin.vp9.videoFilters s (some .pad) =
      ["scale=-1:720:flags=lanczos", "pad=width=ceil(iw/2)*2:height=ceil(ih/2)*2", "fps=24"] := by
  intro s
  have hfilters : Builtin.vp9.inContext .videoFilter = [] ++ Builtin.scale :: [Builtin.fps] := by
    decide +kernel
  have hscale : s.renderable Key.scale = some (.text "-1:720") := by decide +kernel
  have hothers : ∀ x ∈ [] ++ [Builtin.fps], x.isScale = false := by decide
  have hchain := (videoFilters_takesFix Builtin.vp9 s .pad).2.1 [] Builtin.scale [Builtin.fps] _
    hfilters rfl hothers hscale
  rw [hchain]
  decide +kernel

end Transcode
