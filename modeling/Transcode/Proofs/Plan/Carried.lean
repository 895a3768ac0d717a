import Transcode.Proofs.Plan.Layout

/-! # Where a parameter stands in a command

What is rendered of a parameter stands in the last command of every plan, at a place that its context
tells: as arguments of its own, or within the argument for the filters or the vendor's parameters. -/

namespace Transcode

/-- Words stand in arguments where a context puts them. A scale parameter follows the words of a scale
filter. -/
def Profile.Carries (p : Profile) (words : List String) (args : List Argument) : Context → Prop
  | .videoCodecOption | .audioCodecSelector | .audioCodecOption => words.map .bare <:+: args
  | .videoFilter => ∃ before after,
    [.bare "-vf", .inQuotes (",".intercalate (before ++ words ++ after))] <:+: args
  | .audioFilter => ∃ before after,
    [.bare "-af", .inQuotes (",".intercalate (before ++ words ++ after))] <:+: args
  | .vendorSpecialOption => ∃ flag before after, p.vendorFlag = some flag ∧
    [.bare flag, .bare (":".intercalate (before ++ words ++ after))] <:+: args
  | .scaleFilterParameter => ∃ before scale rest after, scale ≠ [] ∧
    [.bare "-vf", .inQuotes (",".intercalate
      (before ++ [":".intercalate (scale ++ words ++ rest)] ++ after))] <:+: args
  | .metadata => False

/-- What is rendered of a parameter stands in arguments. The words of a scale filter are followed by the
scale parameters. -/
def Profile.CarriesParameter (p : Profile) (q : Parameter) (words : List String)
    (args : List Argument) : Prop :=
  if q.isScale then ∃ before scaleParameters after, [.bare "-vf", .inQuotes (",".intercalate
    (before ++ [":".intercalate (words ++ scaleParameters)] ++ after))] <:+: args
  else p.Carries words args q.context

/-- A parameter is rendered with a text, and stands with it in the last command of every plan. Scale
parameters do so if there is a scale filter for them to follow, and metadata are in no command. -/
structure Profile.Renders (p : Profile) (q : Parameter) (s : Settings) (text : String) : Prop where
  words : q.render? s = some (q.arrange text)
  carried : p.fault? = none → ∀ input directory plan, p.plan s input directory = .ok plan →
    q.context ≠ .metadata →
    (q.context = .scaleFilterParameter →
      ∃ q' ∈ p.parameters, q'.isScale = true ∧ (s.renderable q'.key).isSome = true) →
    ∃ c, plan.commands.getLast? = some c ∧ p.CarriesParameter q (q.arrange text) c.arguments

theorem Parameter.words_ne_nil (q : Parameter) (v : Setting) : q.words v ≠ [] := by
  cases hf : q.flag <;> cases hc : q.context <;> simp [words, hf, hc]

/-- In contexts that glue flag and value the fragment of a parameter is its only word. -/
theorem Parameter.exists_fragment?_eq {q : Parameter} (h : q.context.isJoined = true) {s : Settings}
    {v : Setting} (hv : s.renderable q.key = some v) :
    ∃ text, q.words v = [text] ∧ q.fragment? s = some text := by
  have hfragment := q.fragment?_eq h s
  rw [hv, Option.map_some, Option.getD_some, q.words_of_isJoined h v] at hfragment
  exact ⟨_, q.words_of_isJoined h v, by simpa using hfragment⟩

/-- The words of a parameter are in one piece among those of its bucket. -/
theorem Buckets.exists_words_sort_eq {s : Settings} {qs : List Parameter} {q : Parameter}
    (hq : q ∈ qs) {v : Setting} (hv : s.renderable q.key = some v) :
    ∃ before after, (sort s qs).words q.context = before ++ q.words v ++ after := by
  obtain ⟨early, late, rfl⟩ := List.append_of_mem hq
  rw [words_sort, List.flatMap_append, List.flatMap_cons, if_pos rfl, hv, ← List.append_assoc]
  exact ⟨_, _, rfl⟩

namespace Profile

variable {p : Profile} {s : Settings}

/-! ## The parts of a layout -/

section

variable (b : Buckets) (filters : List String) (clause : List Argument) (input output : Path)

theorem layout_eq_flatten : p.layout b filters clause input output =
    [[.bare "-y", .bare "-i", ⟨input.bytes, true⟩],
      if filters = [] then [] else [.bare "-vf", .inQuotes (",".intercalate filters)],
      [.bare "-c:v", .bare p.videoCodec],
      (b.words .videoCodecOption).map .bare,
      clause,
      if b.words .audioFilter = [] then []
        else [.bare "-af", .inQuotes (",".intercalate (b.words .audioFilter))],
      (b.words .audioCodecSelector).map .bare,
      (b.words .audioCodecOption).map .bare,
      [⟨output.bytes, true⟩]].flatten := by
  simp only [layout, List.flatten_cons, List.flatten_nil, List.append_nil, List.append_assoc]

theorem clause_infix_layout : clause <:+: p.layout b filters clause input output := by
  rw [layout_eq_flatten]
  exact List.infix_of_mem_flatten (by simp)

theorem filters_infix_layout (h : filters ≠ []) :
    [.bare "-vf", .inQuotes (",".intercalate filters)] <:+:
      p.layout b filters clause input output := by
  rw [layout_eq_flatten, if_neg h]
  exact List.infix_of_mem_flatten (by simp)

theorem audioFilters_infix_layout (h : b.words .audioFilter ≠ []) :
    [.bare "-af", .inQuotes (",".intercalate (b.words .audioFilter))] <:+:
      p.layout b filters clause input output := by
  rw [layout_eq_flatten, if_neg h]
  exact List.infix_of_mem_flatten (by simp)

theorem options_infix_layout {c : Context}
    (h : c ∈ [Context.videoCodecOption, .audioCodecSelector, .audioCodecOption]) :
    (b.words c).map .bare <:+: p.layout b filters clause input output := by
  rw [layout_eq_flatten]
  apply List.infix_of_mem_flatten
  simp only [List.mem_cons, List.not_mem_nil, or_false] at h
  rcases h with rfl | rfl | rfl <;> simp

end

/-! ## Parameters -/

theorem mem_videoFilters {q : Parameter} (hq : q ∈ p.parameters) (hc : q.context = .videoFilter)
    {text : String} (h : p.filterFragment? s q = some text) (fix : Option EvenFix) :
    text ∈ p.videoFilters s fix := by
  obtain ⟨early, late, hsplit, hplace⟩ := exists_endsAtScale (p.inContext .videoFilter)
  have hmem : q ∈ early ++ late := by
    rw [← hsplit, inContext, List.mem_filter]
    exact ⟨hq, by simp [hc]⟩
  rw [p.videoFilters_eq s hsplit hplace, List.mem_append, List.mem_append]
  rcases List.mem_append.mp hmem with hmem | hmem
  · exact .inl (.inl (List.mem_filterMap.mpr ⟨q, hmem, h⟩))
  · exact .inr (List.mem_filterMap.mpr ⟨q, hmem, h⟩)

theorem exists_videoFilters_eq {q : Parameter} (hq : q ∈ p.parameters)
    (hc : q.context = .videoFilter) (hscale : q.isScale = false) {v : Setting}
    (hv : s.renderable q.key = some v) (fix : Option EvenFix) :
    ∃ before after, p.videoFilters s fix = before ++ q.words v ++ after := by
  obtain ⟨text, hwords, hfragment⟩ := q.exists_fragment?_eq (by rw [hc]; rfl) hv
  have htext : p.filterFragment? s q = some text := by
    rw [filterFragment?, hscale]
    exact hfragment
  obtain ⟨before, after, hsplit⟩ := List.append_of_mem (mem_videoFilters hq hc htext fix)
  exact ⟨before, after, by rw [hsplit, hwords]; simp⟩

/-- The scale parameters follow the word of a scale filter. -/
theorem filterFragment?_of_isScale {q : Parameter} (hc : q.context = .videoFilter)
    (hscale : q.isScale = true) {v : Setting} (hv : s.renderable q.key = some v) :
    p.filterFragment? s q = some
      (":".intercalate (q.words v ++ p.fragments s .scaleFilterParameter)) := by
  obtain ⟨text, hwords, hfragment⟩ := q.exists_fragment?_eq (by rw [hc]; rfl) hv
  rw [filterFragment?, hscale, if_pos rfl, hfragment, Option.map_some, foldl_colon, hwords,
    List.singleton_append]

theorem exists_videoFilters_eq_of_isScale {q : Parameter} (hq : q ∈ p.parameters)
    (hc : q.context = .videoFilter) (hscale : q.isScale = true) {v : Setting}
    (hv : s.renderable q.key = some v) (fix : Option EvenFix) :
    ∃ before after, p.videoFilters s fix = before ++
      [":".intercalate (q.words v ++ p.fragments s .scaleFilterParameter)] ++ after := by
  have htext := filterFragment?_of_isScale (p := p) hc hscale hv
  obtain ⟨before, after, hsplit⟩ := List.append_of_mem (mem_videoFilters hq hc htext fix)
  exact ⟨before, after, by rw [hsplit]; simp⟩

/-- Scale parameters follow the words of a scale filter that renders. -/
theorem exists_videoFilters_eq_of_scaleParameter (hp : p.IsConsistent) {q q' : Parameter}
    (hq : q ∈ p.parameters) (hc : q.context = .scaleFilterParameter) {v : Setting}
    (hv : s.renderable q.key = some v) (hq' : q' ∈ p.parameters) (hscale : q'.isScale = true)
    (hv' : (s.renderable q'.key).isSome = true) (fix : Option EvenFix) :
    ∃ before scale rest after, scale ≠ [] ∧ p.videoFilters s fix =
      before ++ [":".intercalate (scale ++ q.words v ++ rest)] ++ after := by
  obtain ⟨v', hv'⟩ := Option.isSome_iff_exists.mp hv'
  have hc' : q'.context = .videoFilter := hp.context_of_isScale hq' hscale
  obtain ⟨before, after, hparts⟩ := Buckets.exists_words_sort_eq hq hv
  rw [hc, p.words_sort_of_isJoined s rfl] at hparts
  obtain ⟨early, late, hsplit⟩ := exists_videoFilters_eq_of_isScale hq' hc' hscale hv' fix
  refine ⟨early, q'.words v' ++ before, after, late, by simp [q'.words_ne_nil v'], ?_⟩
  rw [hsplit, hparts]
  simp

/-- The vendor's clause has all the words of its bucket, and perhaps a marker after them. -/
theorem exists_vendorOption_eq (hp : p.IsConsistent) {q : Parameter} (hq : q ∈ p.parameters)
    (hc : q.context = .vendorSpecialOption) {v : Setting} (hv : s.renderable q.key = some v)
    (fix : Option EvenFix) (pass : Pass) : ∃ flag before after, p.vendorFlag = some flag ∧
      p.vendorOption (p.rendering s fix) pass =
        [.bare flag, .bare (":".intercalate (before ++ q.words v ++ after))] := by
  obtain ⟨flag, hflag⟩ := Option.ne_none_iff_exists'.mp (hp.vendorFlag (.inr ⟨q, hq, hc⟩))
  obtain ⟨before, after, hwords⟩ := Buckets.exists_words_sort_eq hq hv
  have hvendor : (p.rendering s fix).vendor = before ++ q.words v ++ after := by
    rw [← hwords, hc, p.words_sort_of_isJoined s rfl]
    rfl
  obtain ⟨marker, hvalues⟩ : ∃ marker,
      p.vendorValues (p.rendering s fix) pass = (p.rendering s fix).vendor ++ marker := by
    rw [vendorValues]
    split
    · exact ⟨_, rfl⟩
    · exact ⟨[], (List.append_nil _).symm⟩
  rw [hvendor, List.append_assoc] at hvalues
  have hne : p.vendorValues (p.rendering s fix) pass ≠ [] := by
    rw [hvalues]
    simp [q.words_ne_nil v]
  refine ⟨flag, before, after ++ marker, hflag, ?_⟩
  rw [vendorOption_of_ne_nil hflag hne, hvalues, List.append_assoc]

/-- A parameter that renders stands in the last command of a plan. The words of a scale parameter do so
if there is a scale filter for them to follow. -/
theorem exists_carries (hp : p.IsConsistent) {input directory : Path} {plan : Plan}
    (hplan : p.plan s input directory = .ok plan) {q : Parameter} (hq : q ∈ p.parameters)
    {v : Setting} (hv : s.renderable q.key = some v) (hmetadata : q.context ≠ .metadata)
    (hscale : q.isScale = false)
    (hcarrier : q.context = .scaleFilterParameter →
      ∃ q' ∈ p.parameters, q'.isScale = true ∧ (s.renderable q'.key).isSome = true) :
    ∃ c, plan.commands.getLast? = some c ∧ p.Carries (q.words v) c.arguments q.context := by
  obtain ⟨fix, pass, -, hlast⟩ := exists_layout_getLast? hplan
  refine ⟨_, hlast, ?_⟩
  obtain ⟨before, after, hbucket⟩ := Buckets.exists_words_sort_eq hq hv
  cases hc : q.context with
  | videoCodecOption | audioCodecSelector | audioCodecOption =>
    have hpiece : (q.words v).map Argument.bare <:+:
        ((Buckets.sort s p.parameters).words q.context).map .bare := by
      rw [hbucket]
      exact (List.infix_append before (q.words v) after).map _
    rw [hc] at hpiece
    exact hpiece.trans (options_infix_layout _ _ _ input plan.output (by simp))
  | audioFilter =>
    rw [hc] at hbucket
    have hne : (Buckets.sort s p.parameters).words .audioFilter ≠ [] := by
      simp [hbucket, q.words_ne_nil v]
    refine ⟨before, after, ?_⟩
    rw [← hbucket]
    exact audioFilters_infix_layout _ _ _ input plan.output hne
  | videoFilter =>
    obtain ⟨before, after, hfilters⟩ := exists_videoFilters_eq hq hc hscale hv fix
    refine ⟨before, after, ?_⟩
    rw [← hfilters]
    apply filters_infix_layout
    simp [hfilters, q.words_ne_nil v]
  | scaleFilterParameter =>
    obtain ⟨q', hq', hscale', hv'⟩ := hcarrier hc
    obtain ⟨before, scale, rest, after, hne, hfilters⟩ :=
      exists_videoFilters_eq_of_scaleParameter hp hq hc hv hq' hscale' hv' fix
    refine ⟨before, scale, rest, after, hne, ?_⟩
    rw [← hfilters]
    apply filters_infix_layout
    simp [hfilters]
  | vendorSpecialOption =>
    obtain ⟨flag, before, after, hflag, hclause⟩ := exists_vendorOption_eq hp hq hc hv fix pass
    refine ⟨flag, before, after, hflag, ?_⟩
    rw [← hclause]
    exact (List.suffix_append _ _).isInfix.trans (clause_infix_layout _ _ _ input plan.output)
  | metadata => exact absurd hc hmetadata

/-- The words of a scale filter stand in the last command of a plan, and the scale parameters follow
them. -/
theorem exists_carries_scale (hp : p.IsConsistent) {input directory : Path} {plan : Plan}
    (hplan : p.plan s input directory = .ok plan) {q : Parameter} (hq : q ∈ p.parameters)
    {v : Setting} (hv : s.renderable q.key = some v) (hscale : q.isScale = true) :
    ∃ c before scaleParameters after, plan.commands.getLast? = some c ∧
      [.bare "-vf", .inQuotes (",".intercalate
        (before ++ [":".intercalate (q.words v ++ scaleParameters)] ++ after))] <:+: c.arguments := by
  obtain ⟨fix, pass, -, hlast⟩ := exists_layout_getLast? hplan
  have hc := hp.context_of_isScale hq hscale
  obtain ⟨before, after, hfilters⟩ := exists_videoFilters_eq_of_isScale hq hc hscale hv fix
  refine ⟨_, before, p.fragments s .scaleFilterParameter, after, hlast, ?_⟩
  rw [← hfilters]
  apply filters_infix_layout
  simp [hfilters]

/-- What is rendered of a parameter stands in the last command of every plan. -/
theorem renders_of_renderable {q : Parameter} (hq : q ∈ p.parameters) {v : Setting}
    (hv : s.renderable q.key = some v) : p.Renders q s (q.renderValue v) := by
  constructor
  · rw [Parameter.render?, hv, Option.map_some]
  · intro hok input directory plan hplan hmetadata hcarrier
    have hp := p.fault?_eq_none_iff.mp hok
    rw [q.arrange_eq]
    by_cases hscale : q.isScale = true
    · obtain ⟨c, before, scaleParameters, after, hlast, hcarried⟩ :=
        exists_carries_scale hp hplan hq hv hscale
      refine ⟨c, hlast, ?_⟩
      rw [CarriesParameter, if_pos hscale]
      exact ⟨before, scaleParameters, after, hcarried⟩
    · obtain ⟨c, hlast, hcarried⟩ :=
        exists_carries hp hplan hq hv hmetadata (by simpa using hscale) hcarrier
      refine ⟨c, hlast, ?_⟩
      rwa [CarriesParameter, if_neg hscale]

end Profile

end Transcode
