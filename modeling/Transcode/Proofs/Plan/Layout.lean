import Transcode.Plan.Basic
import Transcode.Proofs.Profile.Consistent
import Transcode.Proofs.Text.Utf8

/-! # The layout of commands

The parameters of a profile are gone through once, in their order, and what is rendered of each goes
into the bucket of its context. A command is made of the buckets, one after the other. -/

namespace Transcode

/-! ## Buckets -/

namespace Parameter

/-- The text of a value; an integer is followed by the unit. -/
def valueText (q : Parameter) : Setting → String
  | .int n => Number.intText n.toInt ++ q.unit.getD ""
  | .text t => t
  | .dontChange => Setting.dontChangeText

/-- Flag and value of a parameter, in one piece or as two arguments; without a flag the bare value. -/
def words (q : Parameter) (v : Setting) : List String :=
  match q.flag, q.context with
  | none, _ => [q.valueText v]
  | some flag, .videoFilter | some flag, .audioFilter | some flag, .vendorSpecialOption
  | some flag, .scaleFilterParameter => [flag ++ "=" ++ q.valueText v]
  | some flag, .videoCodecOption | some flag, .audioCodecOption | some flag, .audioCodecSelector
  | some flag, .metadata => [flag, q.valueText v]

end Parameter

/-- For every context the parameters that were put there, with their words. -/
abbrev Buckets := Context → List (Parameter × List String)

namespace Buckets

/-- Puts a value of a parameter into the bucket of its context. -/
def put (b : Buckets) (q : Parameter) (v : Setting) : Buckets := fun c =>
  if q.context = c then b c ++ [(q, q.words v)] else b c

/-- Goes through parameters in their order. One without a renderable value is passed over. -/
def sort (s : Settings) (qs : List Parameter) : Buckets :=
  qs.foldl (fun b q => match s.renderable q.key with
    | some v => b.put q v
    | none => b) fun _ => []

/-- The words in the bucket of a context. -/
def words (b : Buckets) (c : Context) : List String :=
  (b c).flatMap (·.2)

/-- The video filters in a bucket; a scale filter takes the given scale parameters along. -/
def filters (b : Buckets) (scaleParameters : List String) : List String :=
  (b .videoFilter).flatMap fun (q, words) =>
    if q.isScale then [":".intercalate (words ++ scaleParameters)] else words

end Buckets

/-- The first of two parts of a list of parameters ends with the first scale filter, and is empty if
there is none. -/
def EndsAtScale (early late : List Parameter) : Prop :=
  (∃ others q, early = others ++ [q] ∧ q.isScale = true ∧ ∀ x ∈ others, x.isScale = false) ∨
    early = [] ∧ ∀ x ∈ late, x.isScale = false

/-- The option with the vendor's parameters for the values of a group, left out if there are none. -/
inductive VendorClause (p : Profile) : List String → List Argument → Prop where
  | absent : VendorClause p [] []
  | present {flag group} : p.vendorFlag = some flag → group ≠ [] →
      VendorClause p group [.bare flag, .bare (":".intercalate group)]

/-- How a numbered pass marks the vendor's clause of a command without a pass. -/
inductive Marked (p : Profile) (n : String) : List Argument → List Argument → Prop where
  /-- The marker is an option before the clause. -/
  | option {clause} : p.passStyle = .flag →
      Marked p n clause (.bare "-pass" :: .bare n :: clause)
  /-- The marker is the last value of the clause. -/
  | joined {flag group} : p.passStyle = .vendor → p.vendorFlag = some flag →
      Marked p n [.bare flag, .bare group] [.bare flag, .bare (group ++ ":pass=" ++ n)]
  /-- The marker is a clause of its own. -/
  | alone {flag} : p.passStyle = .vendor → p.vendorFlag = some flag →
      Marked p n [] [.bare flag, .bare ("pass=" ++ n)]

/-- The filter for odd picture sizes that settings select, told from the stored text. -/
inductive Profile.SelectsFilter (p : Profile) (s : Settings) : Option String → Prop where
  /-- The encoder takes odd picture sizes as they are. -/
  | needless : p.evenDimensions = false → SelectsFilter p s none
  | unset : s.get? "scale_fix" = none → SelectsFilter p s none
  | leftAlone : s.get? "scale_fix" = some .dontChange → SelectsFilter p s none
  | pad (needed : p.evenDimensions = true) (stored : s.get? "scale_fix" = some (.text "pad")) :
      SelectsFilter p s (some "pad=width=ceil(iw/2)*2:height=ceil(ih/2)*2")
  | crop (needed : p.evenDimensions = true) (stored : s.get? "scale_fix" = some (.text "crop")) :
      SelectsFilter p s (some "crop=trunc(iw/2)*2:trunc(ih/2)*2")

/-! ## One way to lay out a command -/

theorem findIdx_isScale {others late : List Parameter} {q : Parameter} (hq : q.isScale = true)
    (ho : ∀ x ∈ others, x.isScale = false) :
    (others ++ q :: late).findIdx (·.isScale) = others.length := by
  rw [List.findIdx_append, List.findIdx_eq_length_of_false ho]
  simp [List.findIdx_cons, hq]

theorem EndsAtScale.unique {early late early' late' : List Parameter} (h : EndsAtScale early late)
    (h' : EndsAtScale early' late') (hsame : early ++ late = early' ++ late') :
    early = early' ∧ late = late' := by
  apply List.append_inj hsame
  rcases h with ⟨others, q, rfl, hq, ho⟩ | ⟨rfl, hl⟩ <;>
    rcases h' with ⟨others', q', rfl, hq', ho'⟩ | ⟨rfl, hl'⟩
  · have hplace := congrArg (List.findIdx (·.isScale)) hsame
    simp only [List.append_assoc, List.singleton_append, findIdx_isScale hq ho,
      findIdx_isScale hq' ho'] at hplace
    simp [hplace]
  · have hnone := hl' q (by rw [List.nil_append] at hsame; simp [← hsame])
    simp [hq] at hnone
  · have hnone := hl q' (by rw [List.nil_append] at hsame; simp [hsame])
    simp [hq'] at hnone
  · rfl

theorem VendorClause.unique {p : Profile} {group : List String} {clause clause' : List Argument}
    (h : VendorClause p group clause) (h' : VendorClause p group clause') : clause = clause' := by
  cases h with
  | absent =>
    cases h' with
    | absent => rfl
    | present _ hne => exact absurd rfl hne
  | present hflag hne =>
    cases h' with
    | absent => exact absurd rfl hne
    | present hflag' =>
      obtain rfl := Option.some.inj (hflag.symm.trans hflag')
      rfl

theorem Marked.unique {p : Profile} {n : String} {clause marked marked' : List Argument}
    (h : Marked p n clause marked) (h' : Marked p n clause marked') : marked = marked' := by
  cases h with
  | option hs =>
    cases h' with
    | option => rfl
    | joined hs' | alone hs' => simp [hs] at hs'
  | @joined flag group hs hflag =>
    generalize hclause : [Argument.bare flag, .bare group] = clause at h'
    cases h' with
    | option hs' => simp [hs] at hs'
    | @joined flag' group' =>
      simp only [Argument.bare, List.cons.injEq, Argument.mk.injEq, Text.Utf8.encode_inj, and_true]
        at hclause
      obtain ⟨rfl, rfl⟩ := hclause
      rfl
    | alone => cases hclause
  | alone hs hflag =>
    cases h' with
    | option hs' => simp [hs] at hs'
    | alone _ hflag' =>
      obtain rfl := Option.some.inj (hflag.symm.trans hflag')
      rfl

/-! ## Rendering is sorting -/

theorem Parameter.renderValue_eq (q : Parameter) (v : Setting) : q.renderValue v = q.valueText v := by
  cases v <;> cases h : q.unit <;> simp [renderValue, valueText, Setting.display, h]

theorem Parameter.arrange_eq (q : Parameter) (v : Setting) :
    q.arrange (q.renderValue v) = q.words v := by
  cases hf : q.flag <;> cases hc : q.context <;>
    simp [arrange, words, hf, hc, Context.isJoined, Context.separator, renderValue_eq]

theorem Parameter.render?_eq (q : Parameter) (s : Settings) :
    q.render? s = (s.renderable q.key).map q.words := by
  simp [render?, arrange_eq]

/-- In contexts that glue flag and value there is one word. -/
theorem Parameter.words_of_isJoined {q : Parameter} (h : q.context.isJoined = true) (v : Setting) :
    q.words v = [" ".intercalate (q.words v)] := by
  cases hf : q.flag <;> cases hc : q.context <;> simp [words, hf, hc, Context.isJoined] at h ⊢

theorem Parameter.fragment?_eq {q : Parameter} (h : q.context.isJoined = true) (s : Settings) :
    (q.fragment? s).toList = ((s.renderable q.key).map q.words).getD [] := by
  rw [fragment?, render?_eq]
  cases s.renderable q.key with
  | none => rfl
  | some v => simpa using (words_of_isJoined h v).symm

namespace Buckets

/-- What a parameter adds to the bucket of a context. -/
def added (s : Settings) (c : Context) (q : Parameter) : List (Parameter × List String) :=
  if q.context = c then ((s.renderable q.key).map fun v => (q, q.words v)).toList else []

theorem sort_apply (s : Settings) (qs : List Parameter) (c : Context) :
    sort s qs c = qs.flatMap (added s c) := by
  suffices h : ∀ b : Buckets, qs.foldl (fun b q => match s.renderable q.key with
      | some v => b.put q v
      | none => b) b c = b c ++ qs.flatMap (added s c) by
    simpa [sort] using h fun _ => []
  induction qs with
  | nil => simp
  | cons q qs ih =>
    intro b
    rw [List.foldl_cons, ih, List.flatMap_cons, ← List.append_assoc]
    congr 1
    cases hv : s.renderable q.key <;> by_cases hc : q.context = c <;> simp [put, added, hv, hc]

/-- The words of a context are those of its parameters that render, in their order. -/
theorem words_sort (s : Settings) (qs : List Parameter) (c : Context) :
    (sort s qs).words c = qs.flatMap fun q =>
      if q.context = c then ((s.renderable q.key).map q.words).getD [] else [] := by
  rw [words, sort_apply, List.flatMap_assoc]
  refine List.flatMap_congr fun q _ => ?_
  cases hv : s.renderable q.key <;> by_cases hc : q.context = c <;> simp [added, hv, hc]

end Buckets

namespace Profile

variable (p : Profile) (s : Settings)

theorem words_sort_of_isJoined {c : Context} (h : c.isJoined = true) :
    (Buckets.sort s p.parameters).words c = p.fragments s c := by
  rw [Buckets.words_sort, fragments, inContext, List.filterMap_filter,
    List.filterMap_eq_flatMap_toList]
  refine List.flatMap_congr fun q _ => ?_
  by_cases hc : q.context = c
  · subst hc
    simp [q.fragment?_eq h]
  · simp [hc]

theorem words_sort_arguments (c : Context) :
    (Buckets.sort s p.parameters).words c = p.arguments s c := by
  rw [Buckets.words_sort, arguments, inContext, List.filterMap_filter,
    List.filterMap_eq_flatMap_toList, ← List.flatMap_id, List.flatMap_assoc]
  refine List.flatMap_congr fun q _ => ?_
  by_cases hc : q.context = c
  · cases hv : s.renderable q.key <;> simp [q.render?_eq, hc, hv]
  · simp [hc]

/-! ## The chain of video filters -/

theorem foldl_colon (scale : String) (parts : List String) :
    parts.foldl (fun text part => text ++ ":" ++ part) scale = ":".intercalate (scale :: parts) := by
  induction parts generalizing scale with
  | nil => simp
  | cons part parts ih =>
    rw [List.foldl_cons, ih, String.intercalate_cons_append, String.intercalate_cons_cons]

/-- The filters in the bucket of some of the parameters are those that these render. -/
theorem filters_sort (qs : List Parameter) :
    (Buckets.sort s qs).filters (p.fragments s .scaleFilterParameter) =
      (qs.filter fun q => q.context == .videoFilter).filterMap (p.filterFragment? s) := by
  rw [Buckets.filters, Buckets.sort_apply, List.flatMap_assoc, List.filterMap_filter,
    List.filterMap_eq_flatMap_toList]
  refine List.flatMap_congr fun q _ => ?_
  by_cases hc : q.context = .videoFilter
  · have hf := q.fragment?_eq (by rw [hc]; rfl) s
    cases hv : s.renderable q.key with
    | none =>
      have hn : q.fragment? s = none := by simpa [hv] using hf
      simp [Buckets.added, filterFragment?, hv, hn]
    | some v =>
      obtain ⟨text, ht⟩ : ∃ text, q.words v = [text] :=
        ⟨_, q.words_of_isJoined (by rw [hc]; rfl) v⟩
      have hn : q.fragment? s = some text := by simpa [hv, ht] using hf
      by_cases hq : q.isScale = true <;>
        simp [Buckets.added, filterFragment?, foldl_colon, hc, hv, ht, hn, hq]
  · simp [Buckets.added, hc]

theorem weave_none (qs : List Parameter) :
    p.weave s none qs = qs.filterMap (p.filterFragment? s) := by
  induction qs with
  | nil => rfl
  | cons q qs ih => cases h : p.filterFragment? s q <;> simp [weave, ih, h]

/-- The fix stands after the place of the first scale filter, whether or not that one renders. -/
theorem weave_append_cons {others : List Parameter} {q : Parameter}
    (ho : ∀ x ∈ others, x.isScale = false) (hq : q.isScale = true) (fix : Option String)
    (late : List Parameter) :
    p.weave s fix (others ++ q :: late) = (others ++ [q]).filterMap (p.filterFragment? s) ++
      fix.toList ++ late.filterMap (p.filterFragment? s) := by
  induction others with
  | nil =>
    cases h : p.filterFragment? s q <;> simp [weave, weave_none, hq, h]
  | cons x others ih =>
    have hx : x.isScale = false := ho x (by simp)
    rw [List.cons_append, weave, if_neg (by simp [hx]), ih fun y hy => ho y (by simp [hy])]
    cases h : p.filterFragment? s x <;> simp [h]

theorem videoFilters_eq {early late : List Parameter}
    (h : p.inContext .videoFilter = early ++ late) (he : EndsAtScale early late)
    (fix : Option EvenFix) :
    p.videoFilters s fix = early.filterMap (p.filterFragment? s) ++
      (fix.map EvenFix.filter).toList ++ late.filterMap (p.filterFragment? s) := by
  simp only [videoFilters, h]
  rcases he with ⟨others, q, rfl, hq, ho⟩ | ⟨rfl, hl⟩
  · rw [if_pos (by simp [hq]), List.append_assoc, List.singleton_append,
      weave_append_cons p s ho hq]
  · rw [if_neg (by simpa using hl), weave_none]
    simp

theorem exists_endsAtScale (qs : List Parameter) :
    ∃ early late, qs = early ++ late ∧ EndsAtScale early late := by
  induction qs with
  | nil => exact ⟨[], [], rfl, .inr ⟨rfl, by simp⟩⟩
  | cons q qs ih =>
    by_cases hq : q.isScale = true
    · exact ⟨[q], qs, rfl, .inl ⟨[], q, rfl, hq, by simp⟩⟩
    have hq : q.isScale = false := by simpa using hq
    obtain ⟨early, late, rfl, ⟨others, q', rfl, hq', ho⟩ | ⟨rfl, hl⟩⟩ := ih
    · exact ⟨q :: (others ++ [q']), late, rfl, .inl ⟨q :: others, q', rfl, hq', by simpa [hq] using ho⟩⟩
    · exact ⟨[], q :: late, rfl, .inr ⟨rfl, by simpa [hq] using hl⟩⟩

end Profile

/-- Leaving out parameters that do not scale changes nothing about where the first part ends. -/
theorem EndsAtScale.filter {early late : List Parameter} (h : EndsAtScale early late)
    {keep : Parameter → Bool} (hk : ∀ q ∈ early, q.isScale = true → keep q = true) :
    EndsAtScale (early.filter keep) (late.filter keep) := by
  rcases h with ⟨others, q, rfl, hq, ho⟩ | ⟨rfl, hl⟩
  · refine .inl ⟨others.filter keep, q, ?_, hq, fun x hx => ho x (List.mem_filter.mp hx).1⟩
    simp [hk q (by simp) hq]
  · exact .inr ⟨rfl, fun x hx => hl x (List.mem_filter.mp hx).1⟩

/-! ## What is stored for the fix and the passes -/

theorem EvenFix.ofSetting_eq_ok_iff {v : Option Setting} {fix : Option EvenFix} :
    ofSetting v = .ok fix ↔ (v = none ∨ v = some .dontChange) ∧ fix = none ∨
      v = some (.text "pad") ∧ fix = some .pad ∨ v = some (.text "crop") ∧ fix = some .crop := by
  rcases v with _ | n | t | _
  · simp [ofSetting, eq_comm]
  · simp [ofSetting]
  · by_cases hpad : t = "pad" <;> by_cases hcrop : t = "crop" <;>
      simp [ofSetting, value, hpad, hcrop, eq_comm]
  · simp [ofSetting, eq_comm]

/-- Two passes are selected by one text only. -/
theorem PassMode.ofSetting_eq_twoPass_iff {v : Option Setting} :
    ofSetting v = .ok .twoPass ↔ v = some (.text "Two-Pass") := by
  rcases v with _ | n | t | _
  · simp [ofSetting]
  · simp [ofSetting]
  · by_cases hone : t = "One-Pass" <;> by_cases htwo : t = "Two-Pass" <;>
      simp [ofSetting, display, hone, htwo]
  · simp [ofSetting]

namespace Profile

variable {p : Profile} {s : Settings}

/-- The filter of the fix that is selected is told by the rules. -/
theorem selectsFilter_of_evenFix {fix : Option EvenFix} (h : p.evenFix s = .ok fix) :
    p.SelectsFilter s (fix.map EvenFix.filter) := by
  cases hneeded : p.evenDimensions with
  | false =>
    obtain rfl : none = fix := by simpa [evenFix, hneeded] using h
    exact .needless hneeded
  | true =>
    rw [evenFix, if_pos hneeded] at h
    obtain ⟨hunset | hunset, rfl⟩ | ⟨hpad, rfl⟩ | ⟨hcrop, rfl⟩ := EvenFix.ofSetting_eq_ok_iff.mp h
    · exact .unset hunset
    · exact .leftAlone hunset
    · exact .pad hneeded hpad
    · exact .crop hneeded hcrop

theorem SelectsFilter.exists_evenFix {filter : Option String} (h : p.SelectsFilter s filter) :
    ∃ fix, p.evenFix s = .ok fix ∧ fix.map EvenFix.filter = filter := by
  cases hneeded : p.evenDimensions with
  | false =>
    have hnone : p.evenFix s = .ok none := by simp [evenFix, hneeded]
    cases h with
    | needless | unset | leftAlone => exact ⟨none, hnone, rfl⟩
    | pad needed | crop needed => simp [hneeded] at needed
  | true =>
    rw [evenFix, if_pos hneeded]
    simp only [EvenFix.ofSetting_eq_ok_iff]
    cases h with
    | needless other => simp [hneeded] at other
    | unset stored => exact ⟨none, .inl ⟨.inl stored, rfl⟩, rfl⟩
    | leftAlone stored => exact ⟨none, .inl ⟨.inr stored, rfl⟩, rfl⟩
    | pad _ stored => exact ⟨some .pad, .inr (.inl ⟨stored, rfl⟩), rfl⟩
    | crop _ stored => exact ⟨some .crop, .inr (.inr ⟨stored, rfl⟩), rfl⟩

theorem selectsFilter_iff {filter : Option String} :
    p.SelectsFilter s filter ↔ ∃ fix, p.evenFix s = .ok fix ∧ fix.map EvenFix.filter = filter := by
  refine ⟨SelectsFilter.exists_evenFix, ?_⟩
  rintro ⟨fix, hfix, rfl⟩
  exact selectsFilter_of_evenFix hfix

/-- Settings select one filter at most. -/
theorem SelectsFilter.unique {filter filter' : Option String} (h : p.SelectsFilter s filter)
    (h' : p.SelectsFilter s filter') : filter = filter' := by
  obtain ⟨fix, hfix, rfl⟩ := h.exists_evenFix
  obtain ⟨fix', hfix', rfl⟩ := h'.exists_evenFix
  obtain rfl := Except.ok.inj (hfix.symm.trans hfix')
  rfl

/-! ## Vendor's parameters and passes -/

theorem passOption_of_flag (hs : p.passStyle = .flag) {pass : Pass} {n : String}
    (hn : pass.number? = some n) : p.passOption pass = [.bare "-pass", .bare n] := by
  simp only [passOption, hn, hs]

theorem passOption_of_vendor (hs : p.passStyle = .vendor) (pass : Pass) : p.passOption pass = [] := by
  simp [passOption, hs]

theorem vendorValues_of_flag (hs : p.passStyle = .flag) (r : Rendering) (pass : Pass) :
    p.vendorValues r pass = r.vendor := by
  simp [vendorValues, hs]

theorem vendorValues_of_vendor (hs : p.passStyle = .vendor) (r : Rendering) {pass : Pass}
    {n : String} (hn : pass.number? = some n) :
    p.vendorValues r pass = r.vendor ++ ["pass=" ++ n] := by
  simp only [vendorValues, hn, hs]

theorem vendorOption_of_eq_nil {r : Rendering} {pass : Pass} (h : p.vendorValues r pass = []) :
    p.vendorOption r pass = [] := by
  cases hf : p.vendorFlag <;> simp [vendorOption, hf, h]

theorem vendorOption_of_ne_nil {flag : String} (hf : p.vendorFlag = some flag) {r : Rendering}
    {pass : Pass} (h : p.vendorValues r pass ≠ []) :
    p.vendorOption r pass = [.bare flag, .bare (":".intercalate (p.vendorValues r pass))] := by
  simp [vendorOption, hf, h]

/-- A consistent profile has a flag for the vendor's parameters it renders. -/
theorem vendorClause_vendorOption (hp : p.IsConsistent) (s : Settings) (fix : Option EvenFix) :
    VendorClause p (p.fragments s .vendorSpecialOption)
      (p.vendorOption (p.rendering s fix) .single) := by
  have hv : p.vendorValues (p.rendering s fix) .single = p.fragments s .vendorSpecialOption := rfl
  by_cases hg : p.fragments s .vendorSpecialOption = []
  · rw [vendorOption_of_eq_nil (hv.trans hg), hg]
    exact .absent
  · have hq : ∃ q ∈ p.parameters, q.context = .vendorSpecialOption := by
      rw [← p.inContext_ne_nil_iff]
      intro hc
      simp [fragments, hc] at hg
    obtain ⟨flag, hf⟩ := Option.ne_none_iff_exists'.mp (hp.vendorFlag (.inr hq))
    rw [vendorOption_of_ne_nil hf (hv ▸ hg), hv]
    exact .present hf hg

/-- A numbered pass has its marker, since a consistent profile that marks the vendor's parameters has
a flag for them. -/
theorem marked_vendorOption (hp : p.IsConsistent) (r : Rendering) {pass : Pass} {n : String}
    (hn : pass.number? = some n) :
    Marked p n (p.vendorOption r .single) (p.passOption pass ++ p.vendorOption r pass) := by
  have hsingle : p.vendorValues r .single = r.vendor := rfl
  cases hs : p.passStyle with
  | flag =>
    have hsame : p.vendorOption r pass = p.vendorOption r .single := by
      simp only [vendorOption, vendorValues_of_flag hs]
    rw [passOption_of_flag hs hn, hsame]
    exact .option hs
  | vendor =>
    obtain ⟨flag, hf⟩ := Option.ne_none_iff_exists'.mp (hp.vendorFlag (.inl hs))
    have hv := vendorValues_of_vendor hs r hn
    have hmarked : p.vendorOption r pass =
        [.bare flag, .bare (":".intercalate (r.vendor ++ ["pass=" ++ n]))] := by
      rw [vendorOption_of_ne_nil hf (by simp [hv]), hv]
    rw [passOption_of_vendor hs, hmarked, List.nil_append]
    by_cases hg : r.vendor = []
    · rw [vendorOption_of_eq_nil (hsingle.trans hg), hg, List.nil_append,
        String.intercalate_singleton]
      exact .alone hs hf
    · have hcolon : ":" ++ ("pass=" ++ n) = ":pass=" ++ n := by
        rw [← String.append_assoc]
        rfl
      have hj : ":".intercalate (r.vendor ++ ["pass=" ++ n]) =
          ":".intercalate r.vendor ++ ":pass=" ++ n := by
        rw [String.intercalate_append_of_ne_nil hg (by simp), String.intercalate_singleton,
          String.append_assoc, hcolon, ← String.append_assoc]
      rw [vendorOption_of_ne_nil hf (hsingle ▸ hg), hsingle, hj]
      exact .joined hs hf

/-! ## Plans -/

/-- A plan is there exactly if the pass mode, the container and the fix are. -/
theorem plan_eq_ok_iff {input directory : Path} {plan : Plan} :
    p.plan s input directory = .ok plan ↔ ∃ mode container fix,
      PassMode.ofSetting (s.get? Key.passes) = .ok mode ∧ p.container s = .ok container ∧
      p.evenFix s = .ok fix ∧
      plan = ⟨mode, p.outputPath s input directory mode container,
        (passes mode).map (p.command (p.rendering s fix) input
          (p.outputPath s input directory mode container))⟩ := by
  simp only [Profile.plan]
  cases PassMode.ofSetting (s.get? Key.passes) with
  | error fault => simp [bind, Except.bind]
  | ok mode =>
    cases p.container s with
    | error fault => simp [bind, Except.bind]
    | ok container =>
      cases p.evenFix s with
      | error fault => simp [bind, Except.bind]
      | ok fix => simp [bind, Except.bind, pure, Except.pure, eq_comm]

/-- The arguments of a command with an output, made of buckets. -/
def layout (p : Profile) (b : Buckets) (filters : List String) (clause : List Argument)
    (input output : Path) : List Argument :=
  [.bare "-y", .bare "-i", ⟨input.bytes, true⟩] ++
    (if filters = [] then [] else [.bare "-vf", .inQuotes (",".intercalate filters)]) ++
    [.bare "-c:v", .bare p.videoCodec] ++
    (b.words .videoCodecOption).map .bare ++
    clause ++
    (if b.words .audioFilter = [] then []
      else [.bare "-af", .inQuotes (",".intercalate (b.words .audioFilter))]) ++
    (b.words .audioCodecSelector).map .bare ++
    (b.words .audioCodecOption).map .bare ++
    [⟨output.bytes, true⟩]

/-- What the last command of a plan is made of. What is stored renders unless it is to be left alone,
and every bucket holds the parameters of its context that render, in their order. The filter that is
selected for odd picture sizes stands among the video filters after the place of the first scale
filter. The scale parameters stand in every scale filter, and there is a parameter for one. Only a
marker of the second of two passes is added to the vendor's clause. -/
structure LaidOut (p : Profile) (s : Settings) (input : Path) (plan : Plan) (b : Buckets)
    (early late : List Parameter) (fix : Option String) (clause marked : List Argument) :
    Prop where
  renders : ∀ key v, s.renderable key = some v ↔ s.get? key = some v ∧ v ≠ .dontChange
  sorted : b = Buckets.sort s p.parameters
  distinct : p.parameters.Nodup
  complete : ∀ c, (b c).map (·.1) =
    p.parameters.filter fun q => q.context == c && (s.renderable q.key).isSome
  carrier : b .scaleFilterParameter ≠ [] →
    ∃ q ∈ p.parameters, q.isScale = true ∧ q.context = .videoFilter
  split : p.parameters = early ++ late
  place : EndsAtScale early late
  selected : p.SelectsFilter s fix
  vendor : VendorClause p (b.words .vendorSpecialOption) clause
  marker : if s.get? "passes" = some (.text "Two-Pass") then Marked p "2" clause marked
    else marked = clause
  last : plan.commands.getLast? = some ⟨encoderProgram,
    p.layout b
      ((Buckets.sort s early).filters (b.words .scaleFilterParameter) ++ fix.toList ++
        (Buckets.sort s late).filters (b.words .scaleFilterParameter))
      marked input plan.output⟩

end Profile

theorem Buckets.map_sort (s : Settings) (qs : List Parameter) (c : Context) :
    (sort s qs c).map (·.1) =
      qs.filter fun q => q.context == c && (s.renderable q.key).isSome := by
  rw [sort_apply]
  induction qs with
  | nil => rfl
  | cons q qs ih =>
    rw [List.flatMap_cons, List.map_append, ih]
    cases hv : s.renderable q.key <;> by_cases hc : q.context = c <;> simp [added, hv, hc]

namespace Profile

variable {p : Profile} {s : Settings}

theorem IsConsistent.context_of_isScale (hp : p.IsConsistent) {q : Parameter}
    (hq : q ∈ p.parameters) (h : q.isScale = true) : q.context = .videoFilter :=
  (hp.parameters q hq).scale (by simpa [Parameter.isScale] using h)

/-- The video filters of the parameters before and after the place of the fix. -/
theorem videoFilters_eq_filters (hp : p.IsConsistent) {early late : List Parameter}
    (h : p.parameters = early ++ late) (he : EndsAtScale early late) (fix : Option EvenFix) :
    p.videoFilters s fix =
      (Buckets.sort s early).filters (p.fragments s .scaleFilterParameter) ++
        (fix.map EvenFix.filter).toList ++
        (Buckets.sort s late).filters (p.fragments s .scaleFilterParameter) := by
  have hin : p.inContext .videoFilter =
      early.filter (fun q => q.context == .videoFilter) ++
        late.filter fun q => q.context == .videoFilter := by
    rw [inContext, h, List.filter_append]
  have hkeep : ∀ q ∈ early, q.isScale = true → (q.context == .videoFilter) = true := by
    intro q hq hs
    simp [hp.context_of_isScale (h ▸ List.mem_append_left late hq) hs]
  rw [videoFilters_eq p s hin (he.filter hkeep), filters_sort, filters_sort]

/-- The arguments of a command with an output are a layout of what is rendered. -/
theorem videoArguments_append_closingArguments (s : Settings) (fix : Option EvenFix)
    (input output : Path) {pass : Pass} (hpass : pass ≠ .analysis) :
    p.videoArguments (p.rendering s fix) input pass ++
        closingArguments (p.rendering s fix) output pass =
      p.layout (Buckets.sort s p.parameters) (p.videoFilters s fix)
        (p.passOption pass ++ p.vendorOption (p.rendering s fix) pass) input output := by
  cases pass with
  | analysis => exact absurd rfl hpass
  | single | encode =>
    simp only [videoArguments, closingArguments, joinedOption, rendering, layout,
      List.isEmpty_iff, words_sort_arguments, words_sort_of_isJoined p s (c := .audioFilter) rfl,
      List.append_assoc]

/-- The last command of a plan is a layout of what is rendered, for a pass that has an output. -/
theorem exists_layout_getLast? {input directory : Path} {plan : Plan}
    (h : p.plan s input directory = .ok plan) : ∃ fix pass, pass ≠ Pass.analysis ∧
      plan.commands.getLast? = some ⟨encoderProgram,
        p.layout (Buckets.sort s p.parameters) (p.videoFilters s fix)
          (p.passOption pass ++ p.vendorOption (p.rendering s fix) pass) input plan.output⟩ := by
  obtain ⟨mode, container, fix, -, -, -, rfl⟩ := plan_eq_ok_iff.mp h
  cases mode with
  | onePass =>
    have hpass : Pass.single ≠ .analysis := by decide
    refine ⟨fix, .single, hpass, ?_⟩
    simp only [passes, List.map_cons, List.map_nil, List.getLast?_singleton, command,
      videoArguments_append_closingArguments s fix input _ hpass]
  | twoPass =>
    have hpass : Pass.encode ≠ .analysis := by decide
    refine ⟨fix, .encode, hpass, ?_⟩
    simp only [passes, List.map_cons, List.map_nil, List.getLast?_cons_cons,
      List.getLast?_singleton, command, videoArguments_append_closingArguments s fix input _ hpass]

end Profile

/-- The last command of every plan is laid out in buckets. So every parameter with a renderable value
has its words in the command, once and in the place of its context. -/
theorem plan_laidOut {ps : List Profile} {r : Registry} {p : Profile} {s : Settings}
    {input directory : Path} {plan : Plan} (hr : Registry.ofProfiles ps = .ok r)
    (hp : p ∈ r.profiles) (h : p.plan s input directory = .ok plan) :
    ∃ b early late fix clause marked,
      p.LaidOut s input plan b early late fix clause marked := by
  have hc : p.IsConsistent := Registry.isConsistent_of_mem hr hp
  obtain ⟨mode, container, fix, hmode, -, hfix, rfl⟩ := Profile.plan_eq_ok_iff.mp h
  obtain ⟨early, late, hsplit, hplace⟩ := Profile.exists_endsAtScale p.parameters
  have hvendor := Profile.vendorClause_vendorOption hc s fix
  rw [← p.words_sort_of_isJoined s rfl] at hvendor
  have hfilters := Profile.videoFilters_eq_filters (s := s) hc hsplit hplace fix
  rw [← p.words_sort_of_isJoined s (c := .scaleFilterParameter) rfl] at hfilters
  have hcarrier : Buckets.sort s p.parameters .scaleFilterParameter ≠ [] →
      ∃ q ∈ p.parameters, q.isScale = true ∧ q.context = .videoFilter := by
    intro hne
    have hmap := Buckets.map_sort s p.parameters .scaleFilterParameter
    obtain ⟨q, hq⟩ := List.exists_mem_of_ne_nil _ (mt List.map_eq_nil_iff.mp hne)
    rw [hmap, List.mem_filter] at hq
    obtain ⟨q', hq', hs⟩ := hc.scale ⟨q, hq.1, by simpa using (Bool.and_eq_true_iff.mp hq.2).1⟩
    exact ⟨q', hq', hs, hc.context_of_isScale hq' hs⟩
  have hselected := Profile.selectsFilter_of_evenFix hfix
  have hrenders (key : String) (v : Setting) := @Settings.renderable_eq_some_iff s key v
  cases mode with
  | onePass =>
    have hstored : s.get? "passes" ≠ some (.text "Two-Pass") := by
      intro htwo
      have hmode' := PassMode.ofSetting_eq_twoPass_iff.mpr htwo
      cases hmode.symm.trans hmode'
    refine ⟨_, early, late, _, _, _, hrenders, rfl, hc.keys.of_map, Buckets.map_sort s _, hcarrier,
      hsplit, hplace, hselected, hvendor, by rw [if_neg hstored], ?_⟩
    have hpass : Pass.single ≠ .analysis := by decide
    simp only [Profile.passes, List.map_cons, List.map_nil, List.getLast?_singleton,
      Profile.command, Profile.videoArguments_append_closingArguments s fix input _ hpass,
      ← hfilters]
    rfl
  | twoPass =>
    have hpass : Pass.encode ≠ .analysis := by decide
    have hnumber : Pass.encode.number? = some "2" := rfl
    have hmarked := Profile.marked_vendorOption hc (p.rendering s fix) hnumber
    have hstored : s.get? "passes" = some (.text "Two-Pass") :=
      PassMode.ofSetting_eq_twoPass_iff.mp hmode
    refine ⟨_, early, late, _, _, _, hrenders, rfl, hc.keys.of_map, Buckets.map_sort s _, hcarrier,
      hsplit, hplace, hselected, hvendor, by rwa [if_pos hstored], ?_⟩
    simp only [Profile.passes, List.map_cons, List.map_nil, List.getLast?_cons_cons,
      List.getLast?_singleton, Profile.command,
      Profile.videoArguments_append_closingArguments s fix input _ hpass, ← hfilters]

/-- Two passes of an encoder with vendor's parameters, a picture size and a fix, which is selected by
the text that is stored for it. -/
theorem plan_laidOut_hevc :
    let p := Builtin.hevc
    let s := (((p.defaultSettings.insert Key.scale (.text "iw:720")).insert "scale_flags"
      (.text "lanczos")).insert "aq_mode" (.text "3")).insert "scale_fix" (.text "crop")
    let input := Path.ofString "a.mov"
    let last : Command := ⟨Text.Utf8.encode "ffmpeg",
      [.bare "-y", .bare "-i", .inQuotes "a.mov",
        .bare "-vf", .inQuotes "scale=iw:720:flags=lanczos,crop=trunc(iw/2)*2:trunc(ih/2)*2",
        .bare "-c:v", .bare "libx265",
        .bare "-crf", .bare "23", .bare "-preset", .bare "medium", .bare "-pix_fmt", .bare "yuv420p",
        .bare "-x265-params", .bare "aq-mode=3:pass=2",
        .bare "-c:a", .bare "libopus", .bare "-b:a", .bare "128k",
        .inQuotes "out/a_hevc_q23_2pass.mp4"]⟩
    ∃ plan b, p.plan s input (.ofString "out") = .ok plan ∧
      p.LaidOut s input plan b (p.parameters.take 2) (p.parameters.drop 2)
        (some "crop=trunc(iw/2)*2:trunc(ih/2)*2") [.bare "-x265-params", .bare "aq-mode=3"]
        [.bare "-x265-params", .bare "aq-mode=3:pass=2"] ∧
      plan.commands.getLast? = some last := by
  intro p s input last
  have hpasses : s.get? "passes" = some (.text "Two-Pass") := by decide +kernel
  have hfix : p.SelectsFilter s (some "crop=trunc(iw/2)*2:trunc(ih/2)*2") :=
    .crop rfl (by decide +kernel)
  have hplace : EndsAtScale (p.parameters.take 2) (p.parameters.drop 2) :=
    .inl ⟨p.parameters.take 1, Builtin.scale, rfl, rfl, by decide +kernel⟩
  have hgroup : (Buckets.sort s p.parameters).words .vendorSpecialOption = ["aq-mode=3"] := by
    decide +kernel
  have hclause : VendorClause p ["aq-mode=3"] [.bare "-x265-params", .bare "aq-mode=3"] :=
    .present rfl (by simp)
  have hmarked : Marked p "2" [.bare "-x265-params", .bare "aq-mode=3"]
      [.bare "-x265-params", .bare "aq-mode=3:pass=2"] := .joined rfl rfl
  have hlast : (p.plan s input (.ofString "out")).map (fun plan => plan.commands.getLast?) =
      .ok (some last) := by decide +kernel
  cases h : p.plan s input (.ofString "out") with
  | error fault => simp [h, Except.map] at hlast
  | ok plan =>
    obtain ⟨b, early, late, fix, clause, marked, hlaid⟩ :=
      plan_laidOut ofProfiles_builtinProfiles (by simp [Registry.builtin, builtinProfiles, p]) h
    obtain rfl := hlaid.selected.unique hfix
    obtain ⟨rfl, rfl⟩ := hlaid.place.unique hplace
      (hlaid.split.symm.trans (List.take_append_drop 2 p.parameters).symm)
    obtain rfl := VendorClause.unique (hgroup ▸ hlaid.sorted ▸ hlaid.vendor) hclause
    obtain rfl := Marked.unique (if_pos hpasses ▸ hlaid.marker) hmarked
    rw [h] at hlast
    exact ⟨plan, b, rfl, hlaid, Except.ok.inj hlast⟩

end Transcode
