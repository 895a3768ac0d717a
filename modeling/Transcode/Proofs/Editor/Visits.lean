import Transcode.Plan.Rendering
import Transcode.Profile.Builtin
import Transcode.Proofs.Editor.Change

/-! # Visits to the entries of the menu

A session of the editor is a number of visits to the entries of its menu. A visit goes on from the
line that selects the entry until the menu is shown again. It settles what is stored under the key of
its entry, and nothing else. -/

namespace Transcode.Editor

open Text (trim isBlankLine)

variable {p : Profile}

/-! ## Entries and their values -/

namespace Entry

/-- The key of the value that is shown with an entry. -/
def key : Entry p → String
  | parameter i => (p.parameters.get i).key
  | evenFix => Key.evenFix

def label : Entry p → String
  | parameter i => (p.parameters.get i).label
  | evenFix => "Fix resolution"

/-- The line of an entry in the menu. -/
def line (e : Entry p) (v : Option Setting) : String :=
  Number.natText (e.index + 1) ++ ". " ++
    (e.label ++ " (Now: " ++ (v.map Setting.display).getD "not set" ++ ")")

end Entry

/-- What leaves a parameter alone if it is typed for the parameter. -/
def IsReset (q : Parameter) (line : String) : Prop :=
  q.resettable = true ∧ isResetWord line = true

/-- The value that a line stands for in the questions about an entry. -/
inductive Accepts : Place p → String → Setting → Prop where
  | typed {i : Fin p.parameters.length} {range : Range} {line : String}
      (own : ¬ IsReset (p.parameters.get i) line) (accepted : checkInput range line = .ok ()) :
      Accepts (.direct i range) line (.ofInput line)
  | directReset {i : Fin p.parameters.length} {range : Range} {line : String}
      (reset : IsReset (p.parameters.get i) line) : Accepts (.direct i range) line .dontChange
  | chosen {i : Fin p.parameters.length} {choices : List Choice} {line : String}
      (j : Fin choices.length) (own : ¬ IsReset (p.parameters.get i) line)
      (number : choiceIndex? line choices.length = some j.val) :
      Accepts (.choice i choices) line (.text (choices.get j).value)
  | choiceReset {i : Fin p.parameters.length} {choices : List Choice} {line : String}
      (reset : IsReset (p.parameters.get i) line) : Accepts (.choice i choices) line .dontChange
  | sized {i : Fin p.parameters.length} {step : ScaleStep} {size line : String}
      (asked : step ≠ .menu) (read : readSize step line = .ok size) :
      Accepts (.scale i step) line (.text size)
  | padded {line : String} (number : trim line = "1") : Accepts .evenFix line (.text "pad")
  | cropped {line : String} (number : trim line = "2") : Accepts .evenFix line (.text "crop")

/-- A visit: the entry, and what is stored under its key in the end. -/
structure Visit (p : Profile) where
  entry : Entry p
  left : Option Setting

/-- The questions of a visit, with the settings before and after it. As long as it lasts nothing is
stored, and in the end only what belongs to the entry; a value that is accepted is what is left. The
menu that is shown then has the value in the line of the entry, and it is the value that a parameter
renders. -/
structure Visit.Holds (v : Visit p) (s : Settings) (asked : List (Question (State p)))
    (s' : Settings) : Prop where
  inside : ∀ q ∈ asked, q.state.place.entry? = some v.entry ∧ q.state.settings = s
  settled : s' = s.update v.entry.key v.left
  accepted : ∀ q ∈ asked, ∀ line value, q.answer = some line → isBlankLine line = false →
    Accepts q.state.place line value → v.left = some value
  menu : ∃ last ∈ asked.getLast?, ∃ reported notice,
    (answer last.state last.answer).shown = reported ++ menuScreen p s' notice ∧
      .say (v.entry.line v.left) ∈ menuScreen p s' notice
  rendered : ∀ i, v.entry = .parameter i → (p.parameters.get i).render? s' =
    (v.left.filter Setting.isRenderable).map fun value =>
      (p.parameters.get i).arrange ((p.parameters.get i).renderValue value)

/-- The questions of a session: those at the menu, which change nothing, and between them the visits to
entries, each from the line that selects its entry. -/
inductive Visits : Settings → List (Question (State p)) → List (Visit p) → Settings → Prop where
  | ended {s : Settings} {answer : Option String} : Visits s [⟨⟨.menu, s⟩, answer⟩] [] s
  | refused {s s' : Settings} {answer : Option String} {questions : List (Question (State p))}
      {visits : List (Visit p)} (rest : Visits s questions visits s') :
      Visits s (⟨⟨.menu, s⟩, answer⟩ :: questions) visits s'
  | visited {s s₁ s' : Settings} {line : String} {v : Visit p}
      {asked questions : List (Question (State p))} {visits : List (Visit p)}
      (selected : v.entry.IsSelectedBy line) (visit : v.Holds s asked s₁)
      (rest : Visits s₁ questions visits s') :
      Visits s (⟨⟨.menu, s⟩, some line⟩ :: (asked ++ questions)) (v :: visits) s'

/-- A session of the editor, told by its questions and by its visits. What they have settled is what
comes of it, and a key that belongs to no entry visited keeps its value. -/
structure Confined (p : Profile) (s : Settings) (script : List String)
    (questions : List (Question (State p))) (visits : List (Visit p)) : Prop where
  asks : (dialogue p).Asks (start p s) questions (edit p s script).result
  events : (edit p s script).events =
    menuScreen p s none ++ questions.flatMap (dialogue p).events
  told : Visits s questions visits (edit p s script).result
  result : (edit p s script).result = visits.foldl (fun s v => s.update v.entry.key v.left) s
  kept : ∀ key, (∀ v ∈ visits, v.entry.key ≠ key) →
    (edit p s script).result.get? key = s.get? key

/-! ## The menu -/

theorem getElem?_numbered (lines : List String) (i : Nat) :
    (numbered lines)[i]? = (lines[i]?).map fun line => Number.natText (i + 1) ++ ". " ++ line := by
  simp [numbered]

theorem Place.Fits.index_lt {place : Place p} (hfits : place.Fits) {e : Entry p}
    (he : place.entry? = some e) : e.index < p.menuSize := by
  cases place with
  | menu => cases he
  | direct i range | choice i choices | scale i step =>
    obtain rfl := Option.some.inj he
    have hi := i.isLt
    rw [Profile.menuSize, Entry.index]
    split <;> omega
  | evenFix =>
    obtain rfl := Option.some.inj he
    have heven : p.evenDimensions = true := hfits
    simp [Profile.menuSize, Entry.index, heven]

theorem getElem?_entries {e : Entry p} (h : e.index < p.menuSize) (s : Settings) :
    (entries p s)[e.index]? = some (entry e.label s e.key) := by
  cases e with
  | parameter i =>
    rw [entries, Entry.index, List.getElem?_append_left (by simp)]
    simp [Entry.label, Entry.key]
  | evenFix =>
    have heven : p.evenDimensions = true := by
      rw [Profile.menuSize, Entry.index] at h
      split at h
      · assumption
      · omega
    rw [entries, Entry.index, List.getElem?_append_right (by simp)]
    simp [heven, Entry.label, Entry.key]

theorem entry_eq (label : String) (s : Settings) (key : String) : entry label s key =
    label ++ " (Now: " ++ ((s.get? key).map Setting.display).getD "not set" ++ ")" := by
  rw [entry, Settings.shown]
  cases s.get? key <;> rfl

/-- The menu has a line for every entry, with the value of its key. -/
theorem line_mem_menuScreen {e : Entry p} (h : e.index < p.menuSize) (s : Settings)
    (notice : Option String) : .say (e.line (s.get? e.key)) ∈ menuScreen p s notice := by
  have hline : e.line (s.get? e.key) ∈ numbered (entries p s) := by
    apply List.mem_of_getElem? (i := e.index)
    rw [getElem?_numbered, getElem?_entries h, Option.map_some, entry_eq, Entry.line]
  rw [menuScreen]
  simp [hline]

/-! ## One answer of a visit -/

theorem reset_iff {q : Parameter} {line : String} :
    (q.resettable && isResetWord line) = true ↔ IsReset q line := by
  simp [IsReset]

theorem IsReset.isBlankLine {q : Parameter} {line : String} (h : IsReset q line) :
    isBlankLine line = false := by
  rw [← Bool.not_eq_true, Text.isBlankLine_iff]
  intro hempty
  have hword := h.2
  rw [isResetWord, hempty] at hword
  exact absurd hword (by decide)

section

variable {s : Settings} {i : Fin p.parameters.length} {range : Range} {line : String}

theorem answer_direct_of_isBlankLine (h : isBlankLine line = true) :
    answer ⟨.direct i range, s⟩ (some line) = toMenu s := by
  have hentered : entered? (some line) = none := by
    simp [entered?, Option.filter, h]
  simp only [answer, answerDirect, hentered]

theorem answer_direct_of_isReset (h : IsReset (p.parameters.get i) line) :
    answer ⟨.direct i range, s⟩ (some line) =
      toMenu (s.insert (p.parameters.get i).key .dontChange) := by
  simp only [answer, answerDirect, entered?_of_not_blank h.isBlankLine]
  exact if_pos (reset_iff.mpr h)

/-- A line of its own is checked, and stored if it passes. -/
theorem answer_direct_of_checkInput (hline : isBlankLine line = false)
    (hown : ¬ IsReset (p.parameters.get i) line) :
    answer ⟨.direct i range, s⟩ (some line) = match checkInput range line with
      | .ok _ => store s (p.parameters.get i).key (.ofInput line)
      | .error fault => again (.direct i range) s [.say fault.message] := by
  simp only [answer, answerDirect, entered?_of_not_blank hline]
  exact if_neg (mt reset_iff.mp hown)

end

/-- A visit under way, which goes on with the first of the questions. -/
def UnderWay (e : Entry p) (s : Settings) (questions : List (Question (State p)))
    (s' : Settings) : Prop :=
  ∃ left asked later s₁ visits, questions = asked ++ later ∧
    (⟨e, left⟩ : Visit p).Holds s asked s₁ ∧ Visits s₁ later visits s'

section

/- Sizes are stored under a key of their own, which has to be that of their parameter. -/
variable (hscale : ∀ q ∈ p.parameters, q.kind = .scale → q.key = Key.scale)
  {place : Place p} {s s' : Settings} {line : String} {answer : Option String} {value : Setting}
  {e : Entry p}

include hscale

/-- A value that is accepted is stored under the key of the entry, and the menu comes next. -/
theorem next_of_accepts (hfits : place.Fits) (he : place.entry? = some e)
    (hline : isBlankLine line = false) (haccepts : Accepts place line value) :
    (Editor.answer ⟨place, s⟩ (some line)).next = .ask ⟨.menu, s.insert e.key value⟩ := by
  have hentered := entered?_of_not_blank hline
  cases haccepts with
  | @typed i _ _ own accepted =>
    obtain rfl := Option.some.inj he
    rw [answer_direct_of_checkInput hline own, accepted]
    rfl
  | @directReset i _ _ reset =>
    obtain rfl := Option.some.inj he
    rw [answer_direct_of_isReset reset]
    rfl
  | @chosen i _ _ j own number =>
    obtain rfl := Option.some.inj he
    simp only [answer, answerChoice, hentered]
    rw [if_neg (mt (reset_iff (q := p.parameters[i])).mp own)]
    split
    · rename_i k hk
      obtain rfl : k = j.val := Option.some.inj (hk.symm.trans number)
      rfl
    · rename_i hnone
      rw [number] at hnone
      cases hnone
  | @choiceReset i _ _ reset =>
    obtain rfl := Option.some.inj he
    simp only [answer, answerChoice, hentered]
    rw [if_pos ((reset_iff (q := p.parameters[i])).mpr reset)]
    rfl
  | @sized i step size _ asked read =>
    obtain rfl := Option.some.inj he
    have hkey : (Entry.parameter i).key = Key.scale := hscale _ (List.get_mem _ i) hfits
    cases step with
    | menu => exact absurd rfl asked
    | height | width | size => simp [answer, answerSize, hentered, read, store, hkey]
  | padded number =>
    obtain rfl := Option.some.inj he
    simp only [answer, answerEvenFix, hentered]
    rw [if_pos number]
    rfl
  | cropped number =>
    obtain rfl := Option.some.inj he
    have hpad : trim line ≠ "1" := by
      rw [number]
      decide
    simp only [answer, answerEvenFix, hentered]
    rw [if_neg hpad, if_pos number]
    rfl

/-- Values are stored where there is a question about an entry, and under its key. -/
theorem Writes.entry?_eq (hfits : place.Fits) {key : String} (h : Writes place line key value) :
    ∃ e, place.entry? = some e ∧ e.key = key := by
  cases h with
  | @typed i | @directReset i | @chosen i | @choiceReset i => exact ⟨.parameter i, rfl, rfl⟩
  | @sized i => exact ⟨.parameter i, rfl, hscale _ (List.get_mem _ i) hfits⟩
  | fixed => exact ⟨.evenFix, rfl, rfl⟩

theorem Clears.entry?_eq (hfits : place.Fits) {key : String} (h : Clears place key) :
    ∃ e, place.entry? = some e ∧ e.key = key := by
  cases h with
  | @scale i => exact ⟨.parameter i, rfl, hscale _ (List.get_mem _ i) hfits⟩
  | evenFix => exact ⟨.evenFix, rfl, rfl⟩

theorem Edit.frame (hfits : place.Fits) (h : Edit place line s s') :
    ∃ e, place.entry? = some e ∧ s' = s.update e.key (s'.get? e.key) := by
  cases h with
  | insert writes =>
    obtain ⟨e, he, rfl⟩ := writes.entry?_eq hscale hfits
    refine ⟨e, he, Keyed.eq_update_of_get? fun k hk => ?_⟩
    rw [Keyed.get?_insert, if_neg (Ne.symm hk)]
  | erase clears =>
    obtain ⟨e, he, rfl⟩ := clears.entry?_eq hscale hfits
    refine ⟨e, he, Keyed.eq_update_of_get? fun k hk => ?_⟩
    rw [Keyed.get?_erase, if_neg hk]

/-! ## Visits -/

/-- The answer that leads back to the menu is a visit to the entry. -/
theorem Visit.Holds.last (hfits : place.Fits) (he : place.entry? = some e) {reported : List Event}
    {notice : Option String} (hanswer : Editor.answer ⟨place, s⟩ answer =
      ⟨reported ++ menuScreen p s' notice, .ask ⟨.menu, s'⟩⟩)
    (hedited : s' = s ∨ ∃ line, answer = some line ∧ Edit place line s s') :
    (⟨e, s'.get? e.key⟩ : Visit p).Holds s [⟨⟨place, s⟩, answer⟩] s' where
  inside := by
    simpa using he
  settled := by
    rcases hedited with rfl | ⟨line, -, hedit⟩
    · exact Keyed.eq_update_of_get? fun _ _ => rfl
    · obtain ⟨e', he', hsettled⟩ := hedit.frame hscale hfits
      rw [he] at he'
      obtain rfl := Option.some.inj he'
      exact hsettled
  accepted := by
    intro q hq line value hline hnonblank haccepts
    obtain rfl := List.mem_singleton.mp hq
    obtain rfl : answer = some line := hline
    have hnext := next_of_accepts (s := s) hscale hfits he hnonblank haccepts
    rw [hanswer] at hnext
    obtain rfl : s' = s.insert e.key value := by simpa using hnext
    simp
  menu := ⟨_, rfl, reported, notice, congrArg Turn.shown hanswer,
    line_mem_menuScreen (hfits.index_lt he) s' notice⟩
  rendered := by
    rintro i rfl
    rfl

/-- A question that does not lead back to the menu belongs to the visit that follows. -/
theorem Visit.Holds.cons (hfits : place.Fits) {v : Visit p} (he : place.entry? = some v.entry)
    {next : Place p} (hnext : (Editor.answer ⟨place, s⟩ answer).next = .ask ⟨next, s⟩)
    (hentry : next.entry? = some v.entry) {asked : List (Question (State p))}
    (h : v.Holds s asked s') : v.Holds s (⟨⟨place, s⟩, answer⟩ :: asked) s' where
  inside := by
    simpa [he] using h.inside
  settled := h.settled
  accepted := by
    intro q hq line value hline hnonblank haccepts
    rcases List.mem_cons.mp hq with rfl | hq
    · obtain rfl : answer = some line := hline
      have hmenu := next_of_accepts (s := s) hscale hfits he hnonblank haccepts
      rw [hnext] at hmenu
      obtain ⟨rfl, -⟩ : next = .menu ∧ _ := by simpa using hmenu
      cases hentry
    · exact h.accepted q hq line value hline hnonblank haccepts
  menu := by
    obtain ⟨last, hlast, hshown⟩ := h.menu
    have hlast' : asked.getLast? = some last := hlast
    exact ⟨last, by simp [List.getLast?_cons, hlast'], hshown⟩
  rendered := h.rendered

/-- Questions that end a session are visits, from the menu on or from the entry of a place. -/
theorem exists_visits_of_asks {state : State p} {questions : List (Question (State p))}
    (h : (dialogue p).Asks state questions s') (hfits : state.place.Fits) :
    (state.place = .menu → ∃ visits, Visits state.settings questions visits s') ∧
      ∀ e, state.place.entry? = some e → UnderWay e state.settings questions s' := by
  induction h with
  | @last state answer s' turn =>
    obtain ⟨place, s⟩ := state
    have hcourse := course_answer hfits answer
    have hdone : (Editor.answer ⟨place, s⟩ answer).next = .done s' := turn
    generalize hturn : Editor.answer ⟨place, s⟩ answer = t at hcourse hdone
    cases hcourse with
    | ended hmenu =>
      obtain rfl : place = .menu := hmenu
      obtain rfl : s = s' := by simpa using hdone
      exact ⟨fun _ => ⟨[], .ended⟩, by rintro e ⟨⟩⟩
    | onward | back => cases hdone
  | @next state state' answer questions s' turn rest ih =>
    obtain ⟨place, s⟩ := state
    have hcourse := course_answer hfits answer
    have hask : (Editor.answer ⟨place, s⟩ answer).next = .ask state' := turn
    generalize hturn : Editor.answer ⟨place, s⟩ answer = t at hcourse hask
    cases hcourse with
    | ended => cases hask
    | @onward next shown e entry fits origin =>
      obtain rfl : ⟨next, s⟩ = state' := by simpa using hask
      obtain ⟨left, asked, later, s₁, visits, rfl, hvisit, hlater⟩ := (ih fits).2 e entry
      rcases origin with hplace | ⟨rfl, line, rfl, hselected⟩
      · refine ⟨?_, fun e' he' => ?_⟩
        · rintro rfl
          cases hplace
        · obtain rfl : e = e' := Option.some.inj (hplace.symm.trans he')
          exact ⟨left, _, later, s₁, visits, rfl,
            hvisit.cons hscale hfits hplace (congrArg Turn.next hturn) entry, hlater⟩
      · exact ⟨fun _ => ⟨_, .visited hselected hvisit hlater⟩, by rintro e' ⟨⟩⟩
    | @back s₁ reported notice edited =>
      obtain rfl : ⟨.menu, s₁⟩ = state' := by simpa using hask
      obtain ⟨visits, hvisits⟩ := (ih trivial).1 rfl
      refine ⟨?_, fun e he => ?_⟩
      · rintro rfl
        obtain rfl : s₁ = s := by
          rcases edited with hsame | ⟨line, -, hedit⟩
          · exact hsame
          · obtain ⟨e, he, -⟩ := hedit.frame hscale hfits
            cases he
        exact ⟨visits, .refused hvisits⟩
      · exact ⟨_, [_], questions, s₁, visits, rfl, .last hscale hfits he hturn edited, hvisits⟩

end

/-- The questions of visits start at the menu. -/
theorem Visits.exists_eq_menu_cons {s s' : Settings} {questions : List (Question (State p))}
    {visits : List (Visit p)} (h : Visits s questions visits s') :
    ∃ answer rest, questions = ⟨⟨.menu, s⟩, answer⟩ :: rest := by
  cases h <;> exact ⟨_, _, rfl⟩

/-- Questions about entries end where the menu is shown again. -/
theorem eq_of_append_menu {asked asked' later later' : List (Question (State p))} {s s' : Settings}
    {line line' : Option String} (hasked : ∀ q ∈ asked, q.state.place.entry?.isSome = true)
    (hasked' : ∀ q ∈ asked', q.state.place.entry?.isSome = true)
    (hsame : asked ++ ⟨⟨.menu, s⟩, line⟩ :: later = asked' ++ ⟨⟨.menu, s'⟩, line'⟩ :: later') :
    asked = asked' := by
  have htaken (asked later : List (Question (State p))) (s : Settings) (line : Option String)
      (h : ∀ q ∈ asked, q.state.place.entry?.isSome = true) :
      (asked ++ ⟨⟨.menu, s⟩, line⟩ :: later).takeWhile (fun q => q.state.place.entry?.isSome) =
        asked := by
    rw [List.takeWhile_append_of_pos h]
    simp [Place.entry?]
  rw [← htaken asked later s line hasked, hsame, htaken asked' later' s' line' hasked']

/-- The questions between two looks at the menu are a visit, which leaves what is stored when the menu
is shown again. -/
theorem Visits.exists_eq_cons {s s₁ s' : Settings} {answer answer' : Option String} {e : Entry p}
    {asked later : List (Question (State p))} {visits : List (Visit p)}
    (h : Visits s (⟨⟨.menu, s⟩, answer⟩ :: (asked ++ ⟨⟨.menu, s₁⟩, answer'⟩ :: later)) visits s')
    (hne : asked ≠ []) (hasked : ∀ q ∈ asked, q.state.place.entry? = some e) :
    ∃ others, visits = ⟨e, s₁.get? e.key⟩ :: others ∧
      Visits s₁ (⟨⟨.menu, s₁⟩, answer'⟩ :: later) others s' := by
  have hentries : ∀ q ∈ asked, q.state.place.entry?.isSome = true :=
    fun q hq => Option.isSome_of_eq_some (hasked q hq)
  generalize hquestions : asked ++ ⟨⟨.menu, s₁⟩, answer'⟩ :: later = questions at h
  cases h with
  | ended => simp at hquestions
  | refused rest =>
    obtain ⟨_, _, rfl⟩ := rest.exists_eq_menu_cons
    exact absurd (eq_of_append_menu hentries (by simp) hquestions) hne
  | @visited _ _ _ _ v asked' _ others selected visit rest =>
    obtain ⟨_, _, rfl⟩ := rest.exists_eq_menu_cons
    have hinside : ∀ q ∈ asked', q.state.place.entry?.isSome = true :=
      fun q hq => Option.isSome_of_eq_some (visit.inside q hq).1
    obtain rfl := eq_of_append_menu hentries hinside hquestions
    have hsame := List.append_cancel_left hquestions
    simp only [List.cons.injEq, Question.mk.injEq, State.mk.injEq, true_and] at hsame
    obtain ⟨⟨rfl, rfl⟩, rfl⟩ := hsame
    obtain ⟨q, hq⟩ := List.exists_mem_of_ne_nil _ hne
    obtain rfl : e = v.entry :=
      Option.some.inj ((hasked q hq).symm.trans (visit.inside q hq).1)
    refine ⟨others, ?_, rest⟩
    rw [visit.settled, Keyed.get?_update, if_pos rfl]

theorem Visits.eq_nil {s s' : Settings} {q : Question (State p)} {visits : List (Visit p)}
    (h : Visits s [q] visits s') : visits = [] := by
  generalize hquestions : [q] = questions at h
  cases h with
  | ended => rfl
  | refused rest =>
    obtain ⟨_, _, rfl⟩ := rest.exists_eq_menu_cons
    cases hquestions
  | visited _ _ rest =>
    obtain ⟨_, _, rfl⟩ := rest.exists_eq_menu_cons
    simp at hquestions

/-- What the visits have settled is what comes of a session. -/
theorem Visits.foldl_eq {s s' : Settings} {questions : List (Question (State p))}
    {visits : List (Visit p)} (h : Visits s questions visits s') :
    s' = visits.foldl (fun s v => s.update v.entry.key v.left) s := by
  induction h with
  | ended => rfl
  | refused rest ih => exact ih
  | visited selected visit rest ih => rw [List.foldl_cons, ← visit.settled, ← ih]

/-- A session changes what its visits are about, if the editor stores picture sizes under the key of
their parameter. -/
theorem edit_confined (hscale : ∀ q ∈ p.parameters, q.kind = .scale → q.key = Key.scale)
    (s : Settings) (script : List String) : ∃ questions visits,
      Confined p s script questions visits := by
  obtain ⟨questions, hasks, hevents⟩ := (dialogue p).exists_asks_run (start p s) script
  obtain ⟨visits, hvisits⟩ := (exists_visits_of_asks hscale hasks trivial).1 rfl
  refine ⟨questions, visits, hasks, congrArg (menuScreen p s none ++ ·) hevents, hvisits,
    hvisits.foldl_eq, fun key hkey => ?_⟩
  change ((dialogue p).run (start p s) script).result.get? key = s.get? key
  rw [hvisits.foldl_eq]
  exact Keyed.get?_foldl_update_of_ne hkey s

/-- A height and a bit rate are entered; a second look at the bit rate changes nothing. -/
theorem edit_confined_vp9 :
    let p := Builtin.vp9
    let s := p.defaultSettings
    let script := ["3", "1", "720", "2", "2M", "2", "", ""]
    let rate : Entry p := .parameter ⟨1, by decide⟩
    let size : Entry p := .parameter ⟨2, by decide⟩
    (∀ q ∈ p.parameters, q.kind = .scale → q.key = Key.scale) ∧
      rate.key = "video_bitrate" ∧ size.key = "scale" ∧
      (∃ questions, Confined p s script questions
        [⟨size, some (.text "-1:720")⟩, ⟨rate, some (.text "2M")⟩, ⟨rate, some (.text "2M")⟩]) ∧
      (edit p s script).result =
        (s.insert "scale" (.text "-1:720")).insert "video_bitrate" (.text "2M") := by
  intro p s script rate size
  have hscale : ∀ q ∈ p.parameters, q.kind = .scale → q.key = Key.scale := by decide +kernel
  let s₁ := s.insert "scale" (.text "-1:720")
  let s₂ := s₁.insert "video_bitrate" (.text "2M")
  let sizes : Place p := .scale ⟨2, by decide⟩ .menu
  let height : Place p := .scale ⟨2, by decide⟩ .height
  let bitRate : Place p := .direct ⟨1, by decide⟩ .any
  let questions : List (Question (State p)) := ⟨⟨.menu, s⟩, some "3"⟩ ::
    ([⟨⟨sizes, s⟩, some "1"⟩, ⟨⟨height, s⟩, some "720"⟩] ++ ⟨⟨.menu, s₁⟩, some "2"⟩ ::
      ([⟨⟨bitRate, s₁⟩, some "2M"⟩] ++ ⟨⟨.menu, s₂⟩, some "2"⟩ ::
        ([⟨⟨bitRate, s₂⟩, some ""⟩] ++ [⟨⟨.menu, s₂⟩, some ""⟩])))
  have hasks : (dialogue p).Asks (start p s) questions s₂ := by
    have hown : ¬ IsReset (p.parameters.get ⟨1, by decide⟩) "2M" :=
      fun hreset => absurd hreset.2 (by decide)
    have hheight : height.Fits := rfl
    have hbitRate : bitRate.Fits := rfl
    have hsizes : (answer ⟨.menu, s⟩ (some "3")).next = .ask ⟨sizes, s⟩ := rfl
    have hasked : (answer ⟨sizes, s⟩ (some "1")).next = .ask ⟨height, s⟩ := rfl
    have hsized : (answer ⟨height, s⟩ (some "720")).next = .ask ⟨.menu, s₁⟩ :=
      next_of_accepts hscale hheight rfl (by decide) (.sized (by decide) (by decide +kernel))
    have hrates (s : Settings) : (answer ⟨.menu, s⟩ (some "2")).next = .ask ⟨bitRate, s⟩ := rfl
    have hrated : (answer ⟨bitRate, s₁⟩ (some "2M")).next = .ask ⟨.menu, s₂⟩ :=
      next_of_accepts hscale hbitRate rfl (by decide) (.typed hown (by decide))
    have hkept : (answer ⟨bitRate, s₂⟩ (some "")).next = .ask ⟨.menu, s₂⟩ := rfl
    exact .next hsizes (.next hasked (.next hsized (.next (hrates s₁) (.next hrated
      (.next (hrates s₂) (.next hkept (.last rfl)))))))
  have hevents : (edit p s script).events =
      menuScreen p s none ++ questions.flatMap (dialogue p).events := by decide +kernel
  have hleft₁ : s₁.get? size.key = some (.text "-1:720") := by decide +kernel
  have hleft₂ : s₂.get? rate.key = some (.text "2M") := by decide +kernel
  obtain ⟨questions', visits, h⟩ := edit_confined hscale s script
  obtain ⟨rfl, hresult⟩ :=
    hasks.unique h.asks (List.append_cancel_left (hevents.symm.trans h.events))
  obtain ⟨_, rfl, hafterSize⟩ := h.told.exists_eq_cons (e := size) (by simp)
    (by simp [sizes, height, size, Place.entry?])
  obtain ⟨_, rfl, hafterRate⟩ := hafterSize.exists_eq_cons (e := rate) (by simp)
    (by simp [bitRate, rate, Place.entry?])
  obtain ⟨_, rfl, hafter⟩ := hafterRate.exists_eq_cons (e := rate) (by simp)
    (by simp [bitRate, rate, Place.entry?])
  obtain rfl := hafter.eq_nil
  rw [hleft₁, hleft₂] at h
  exact ⟨hscale, rfl, rfl, ⟨questions, h⟩, hresult.symm⟩

/-- An encoder whose picture size goes by another key. -/
def otherSizeKey : Profile :=
  { Builtin.vp9 with
    parameters := Builtin.vp9.parameters.map fun q =>
      if q.isScale then { q with key := "size" } else q }

/-- The editor does not store the picture size under the key of its parameter, which a registry does
not ask to be the usual one. -/
theorem not_edit_confined : ¬ ∀ (ps : List Profile) (r : Registry) (p : Profile),
    Registry.ofProfiles ps = .ok r → p ∈ r.profiles → ∀ (s : Settings) (script : List String),
      ∃ questions visits, Confined p s script questions visits := by
  intro h
  have hfault : Registry.profilesFault? [] [otherSizeKey] = none := by decide +kernel
  have hregistry : Registry.ofProfiles [otherSizeKey] = .ok ⟨[otherSizeKey]⟩ := by
    simp [Registry.ofProfiles, hfault]
  obtain ⟨questions, visits, hconfined⟩ :=
    h _ _ otherSizeKey hregistry (by simp) Keyed.empty ["3", "1", "720", ""]
  have hkey (e : Entry otherSizeKey) : e.key ≠ Key.scale := by
    have hparameters : ∀ q ∈ otherSizeKey.parameters, q.key ≠ Key.scale := by decide +kernel
    cases e with
    | parameter i => exact hparameters _ (List.get_mem _ i)
    | evenFix => exact (by decide +kernel : Key.evenFix ≠ Key.scale)
  have hstored : (edit otherSizeKey Keyed.empty ["3", "1", "720", ""]).result.get? Key.scale =
      some (.text "-1:720") := by
    decide +kernel
  rw [hconfined.kept Key.scale fun v _ => hkey v.entry] at hstored
  cases hstored

end Transcode.Editor
