import Transcode.Profile.Builtin
import Transcode.Proofs.Dialogue
import Transcode.Editor.Basic

/-! # Lines that are refused, and sessions in parts

A line that is answered with a diagnostic leaves the editor where it was, with the settings as they
were. So it makes no difference if such lines are left out. A session that has come back to the menu
leaves nothing behind but its settings, so a script may be split there. -/

namespace Transcode.Editor

variable {p : Profile} {s : Settings} {place : Place p}

/-! ## Diagnostics -/

/-- What is shown after a line that is refused: the menu with a notice, or first of all the fault of
the line or the request to try again. -/
inductive IsDiagnostic (p : Profile) : List Event → Prop where
  | notice {s : Settings} {message : String} : IsDiagnostic p (menuScreen p s (some message))
  | fault {fault : InputFault} {more : List Event} : IsDiagnostic p (.say fault.message :: more)
  | tryAgain {more : List Event} : IsDiagnostic p (.say Editor.tryAgain :: more)

/-- The editor answers a line with a diagnostic. -/
def IsDiagnosed (state : State p) (line : String) : Prop :=
  IsDiagnostic p (answer state (some line)).shown

theorem length_menuScreen (s : Settings) (notice : Option String) :
    (menuScreen p s notice).length = p.menuSize + 4 + notice.toList.length := by
  have hentries : (entries p s).length = p.menuSize := by
    rw [entries, Profile.menuSize]
    split <;> simp
  simp [menuScreen, numbered, hentries]
  omega

theorem menuScreen_eq (s : Settings) (notice : Option String) : ∃ more,
    menuScreen p s notice =
      .clear :: .say ("Codec: " ++ p.display) :: .say "Select option:" :: more := by
  rw [menuScreen]
  exact ⟨_, rfl⟩

theorem IsDiagnostic.shown_eq {shown : List Event} (h : IsDiagnostic p shown) :
    (∃ s message, shown = menuScreen p s (some message)) ∨
      ∃ text more, shown = .say text :: more ∧
        (text = Editor.tryAgain ∨ ∃ fault : InputFault, text = fault.message) := by
  cases h with
  | @notice s message => exact .inl ⟨s, message, rfl⟩
  | @fault fault more => exact .inr ⟨_, more, rfl, .inr ⟨fault, rfl⟩⟩
  | @tryAgain more => exact .inr ⟨_, more, rfl, .inl rfl⟩

/-- Of the screens that clear what was shown before, only the menu with a notice is a diagnostic. -/
theorem IsDiagnostic.clear {l : List Event} (h : IsDiagnostic p (.clear :: l)) :
    l.length = p.menuSize + 4 ∧
      ∃ more, l = .say ("Codec: " ++ p.display) :: .say "Select option:" :: more := by
  rcases h.shown_eq with ⟨s, message, hshown⟩ | ⟨text, more, hshown, -⟩
  · obtain ⟨more, hmore⟩ := menuScreen_eq (p := p) s (some message)
    have hlength := length_menuScreen (p := p) s (some message)
    rw [← hshown] at hlength
    rw [hmore] at hshown
    exact ⟨by simpa using hlength, more, (List.cons.inj hshown).2⟩
  · cases hshown

theorem not_isDiagnostic_nil : ¬ IsDiagnostic p [] := by
  intro h
  rcases h.shown_eq with ⟨s, message, hshown⟩ | ⟨text, more, hshown, -⟩
  · cases hshown
  · cases hshown

theorem not_isDiagnostic_store (key value : String) (more : List Event) :
    ¬ IsDiagnostic p (.store key value :: more) := by
  intro h
  rcases h.shown_eq with ⟨s, message, hshown⟩ | ⟨text, more, hshown, -⟩
  · cases hshown
  · cases hshown

theorem not_isDiagnostic_menuScreen (s : Settings) : ¬ IsDiagnostic p (menuScreen p s none) := by
  intro h
  have hlength := length_menuScreen (p := p) s none
  rw [menuScreen] at h hlength
  rw [List.length_cons, h.clear.1] at hlength
  simp at hlength

/-- No fault reads like the first line of the questions about a picture size: a fault starts with a
quote or ends with a parenthesis. -/
theorem message_ne_scale (fault : InputFault) :
    fault.message ≠ "Scale options (empty to go back):" := by
  intro h
  have hhead := congrArg (·.toList.head?) h
  have hlast := congrArg (·.toList.getLast?) h
  cases fault with
  | outOfRange value range =>
    simp [InputFault.message, List.getLast?_cons] at hlast
  | notANumber | notAllowed | invalidChoice | invalidDimension | invalidResolution =>
    simp [InputFault.message] at hhead

theorem not_isDiagnostic_scaleLines : ¬ IsDiagnostic p scaleLines := by
  intro h
  rcases h.shown_eq with ⟨s, message, hshown⟩ | ⟨text, more, hshown, htext⟩
  · cases hshown
  · obtain rfl := Event.say.inj (List.cons.inj hshown).1
    rcases htext with htry | ⟨fault, hfault⟩
    · exact absurd htry (by decide)
    · exact message_ne_scale fault hfault.symm

theorem not_isDiagnostic_directScreen (q : Parameter) (range : Range) :
    ¬ IsDiagnostic p (directScreen q range) := by
  intro h
  have hlength := h.clear.1
  simp only [List.length_map, List.length_append] at hlength
  split at hlength <;> split at hlength <;> simp at hlength

/-- The choices are numbered, so the second line is not that of the menu. -/
theorem not_isDiagnostic_choiceScreen (q : Parameter) (choices : List Choice) :
    ¬ IsDiagnostic p (choiceScreen q choices) := by
  intro h
  obtain ⟨more, hmore⟩ := h.clear.2
  have hlines := (List.cons.inj hmore).2
  have hone : Number.natText 1 = "1" := by decide +kernel
  cases choices with
  | nil =>
    cases hreset : q.resettable <;> simp [choiceLines, numbered, hreset] at hlines
  | cons c choices =>
    obtain ⟨hline, -⟩ : "1. " ++ c.label = "Select option:" ∧ _ := by
      simpa [choiceLines, numbered, hone] using hlines
    have hfirst := congrArg (·.toList.head?) hline
    simp at hfirst

theorem not_isDiagnostic_enter (s : Settings) (i : Fin p.parameters.length) :
    ¬ IsDiagnostic p (enter s i).shown := by
  rw [enter]
  split
  · exact not_isDiagnostic_directScreen _ _
  · exact not_isDiagnostic_choiceScreen _ _
  · intro h
    obtain ⟨more, hmore⟩ := h.clear.2
    have hfirst := congrArg (·.toList.head?) (Event.say.inj (List.cons.inj hmore).1)
    simp at hfirst

theorem not_isDiagnostic_evenFixLines : ¬ IsDiagnostic p (.clear :: evenFixLines) := by
  intro h
  obtain ⟨more, hmore⟩ := h.clear.2
  have hfirst := congrArg (·.toList.head?) (Event.say.inj (List.cons.inj hmore).1)
  simp at hfirst

/-! ## One answer -/

/-- A turn leads back to where it was given if it shows a diagnostic. -/
def Stays (place : Place p) (s : Settings) (turn : EditorTurn p) : Prop :=
  IsDiagnostic p turn.shown → turn.next = .ask ⟨place, s⟩

theorem Stays.of_not {turn : EditorTurn p} (h : ¬ IsDiagnostic p turn.shown) :
    Stays place s turn :=
  fun hshown => absurd hshown h

theorem stays_again (shown : List Event) : Stays place s (again place s shown) :=
  fun _ => rfl

theorem stays_toMenu (s' : Settings) : Stays place s (toMenu s') :=
  .of_not (not_isDiagnostic_menuScreen s')

theorem stays_store (key : String) (v : Setting) : Stays place s (store s key v) :=
  .of_not (not_isDiagnostic_store key v.display _)

section

variable (s : Settings) (answer : Option String)

theorem stays_answerMenu : Stays .menu s (answerMenu (p := p) s answer) := by
  rw [answerMenu]
  split
  · exact .of_not not_isDiagnostic_nil
  · split
    · exact stays_again _
    split
    · exact .of_not (not_isDiagnostic_enter s _)
    · exact .of_not not_isDiagnostic_evenFixLines

theorem stays_answerDirect (i : Fin p.parameters.length) (range : Range) :
    Stays (.direct i range) s (answerDirect s i range answer) := by
  rw [answerDirect]
  split
  · exact stays_toMenu s
  · split
    · exact stays_toMenu _
    split
    · exact stays_store _ _
    · exact stays_again _

theorem stays_answerChoice (i : Fin p.parameters.length) (choices : List Choice) :
    Stays (.choice i choices) s (answerChoice s i choices answer) := by
  rw [answerChoice]
  split
  · exact stays_toMenu s
  · split
    · exact stays_toMenu _
    split
    · exact stays_store _ _
    · exact stays_again _

theorem stays_answerScaleMenu (i : Fin p.parameters.length) :
    Stays (.scale i .menu) s (answerScaleMenu s i answer) := by
  rw [answerScaleMenu]
  split
  · exact stays_toMenu s
  · split
    · exact .of_not not_isDiagnostic_nil
    split
    · exact .of_not not_isDiagnostic_nil
    split
    · exact .of_not not_isDiagnostic_nil
    split
    · exact stays_toMenu _
    · exact stays_again _

theorem stays_answerSize (i : Fin p.parameters.length) (step : ScaleStep) :
    Stays (.scale i step) s (answerSize s i step answer) := by
  rw [answerSize]
  split
  · exact .of_not not_isDiagnostic_scaleLines
  · split
    · exact stays_store _ _
    · exact stays_again _

theorem stays_answerEvenFix : Stays .evenFix s (answerEvenFix (p := p) s answer) := by
  rw [answerEvenFix]
  split
  · exact stays_toMenu s
  · split
    · exact stays_store _ _
    split
    · exact stays_store _ _
    split
    · exact stays_toMenu _
    · exact stays_again _

end

theorem stays_answer (state : State p) (answer : Option String) :
    Stays state.place state.settings (Editor.answer state answer) := by
  obtain ⟨place, s⟩ := state
  cases place with
  | menu => exact stays_answerMenu s answer
  | direct i range => exact stays_answerDirect s answer i range
  | choice i choices => exact stays_answerChoice s answer i choices
  | evenFix => exact stays_answerEvenFix s answer
  | scale i step =>
    cases step with
    | menu => exact stays_answerScaleMenu s answer i
    | height => exact stays_answerSize s answer i .height
    | width => exact stays_answerSize s answer i .width
    | size => exact stays_answerSize s answer i .size

/-! ## Sessions -/

/-- A line that is answered with a diagnostic leads nowhere. -/
theorem next_of_isDiagnosed (state : State p) (line : String) (h : IsDiagnosed state line) :
    ((dialogue p).answer state (some line)).next = .ask state :=
  stays_answer state (some line) h

theorem edit_of_thins {script kept : List String}
    (h : (dialogue p).Thins IsDiagnosed (start p s) script kept) :
    (edit p s kept).result = (edit p s script).result :=
  (h.run next_of_isDiagnosed).1

theorem hangUp_start (s : Settings) : ((dialogue p).hangUp (start p s)).2 = s := by
  rw [Dialogue.hangUp]
  split
  · rename_i hturn
    cases hturn
  · rename_i hturn
    cases hturn
    rfl

theorem edit_of_stand {script : List String} {s' : Settings}
    (h : ((dialogue p).feed (start p s) script).stand = .ask (start p s')) :
    (edit p s script).result = s' := by
  change ((dialogue p).run (start p s) script).result = s'
  rw [Dialogue.run, h]
  exact hangUp_start s'

/-- After a line that leads back to the menu the rest of a script is a session of its own. -/
theorem edit_append_cons {script : List String} {state : State p} {line : String} {s' : Settings}
    (hstand : ((dialogue p).feed (start p s) script).stand = .ask state)
    (hnext : (answer state (some line)).next = .ask ⟨.menu, s'⟩) (more : List String) :
    (edit p s (script ++ line :: more)).result = (edit p s' more).result := by
  have hrun := (Dialogue.run_append hstand (line :: more)).1
  rw [Dialogue.run_cons_ask hnext] at hrun
  exact hrun

/-- Lines that are answered with diagnostics can be left out, all or some of them, and a script can be
split where the editor waits at its menu. -/
theorem edit_thinned_and_append (p : Profile) (s : Settings) (script : List String) :
    (∀ kept, (dialogue p).Thins IsDiagnosed (start p s) script kept →
      (edit p s kept).result = (edit p s script).result) ∧
    ∀ s', ((dialogue p).feed (start p s) script).stand = .ask ⟨.menu, s'⟩ → ∀ more,
      (edit p s (script ++ more)).result = (edit p (edit p s script).result more).result := by
  refine ⟨fun kept => edit_of_thins, fun s' hmenu more => ?_⟩
  rw [edit_of_stand hmenu]
  exact (Dialogue.run_append hmenu more).1

/-- A number without an entry, one without a way to give a size and a word for a quality are refused.
The editor waits at its menu afterwards. -/
theorem edit_thinned_and_append_vp9 :
    let s := Builtin.vp9.defaultSettings
    let script := ["99", "3", "7", "4", "1", "abc", "30"]
    (dialogue Builtin.vp9).Thins IsDiagnosed (start Builtin.vp9 s) script ["3", "4", "1", "30"] ∧
      (edit Builtin.vp9 s ["3", "4", "1", "30"]).result = (edit Builtin.vp9 s script).result ∧
      ((dialogue Builtin.vp9).feed (start Builtin.vp9 s) script).stand =
        .ask (start Builtin.vp9 ((s.erase Key.scale).insert "crf" (.int 30))) ∧
      (edit Builtin.vp9 s (script ++ ["5", "24"])).result =
        (edit Builtin.vp9 (edit Builtin.vp9 s script).result ["5", "24"]).result := by
  intro s script
  have hnumber : IsDiagnosed (start Builtin.vp9 s) "99" :=
    show IsDiagnostic _ (menuScreen Builtin.vp9 s
      (some (InputFault.invalidChoice "99" Builtin.vp9.menuSize).message)) from .notice
  have hscale : ((dialogue Builtin.vp9).answer (start Builtin.vp9 s) (some "3")).next =
      .ask ⟨.scale ⟨2, by decide⟩ .menu, s⟩ := rfl
  have hway : IsDiagnosed (p := Builtin.vp9) ⟨.scale ⟨2, by decide⟩ .menu, s⟩ "7" :=
    show IsDiagnostic _ (.say tryAgain :: scaleLines) from .tryAgain
  have hclear : ((dialogue Builtin.vp9).answer ⟨.scale ⟨2, by decide⟩ .menu, s⟩ (some "4")).next =
      .ask (start Builtin.vp9 (s.erase Key.scale)) := rfl
  have hquality (s : Settings) :
      ((dialogue Builtin.vp9).answer (start Builtin.vp9 s) (some "1")).next =
        .ask ⟨.direct ⟨0, by decide⟩ (.int 0 63), s⟩ := rfl
  have hword (s : Settings) :
      IsDiagnosed (p := Builtin.vp9) ⟨.direct ⟨0, by decide⟩ (.int 0 63), s⟩ "abc" :=
    show IsDiagnostic _ [.say (InputFault.notANumber "abc").message] from .fault
  have hstored (s : Settings) :
      ((dialogue Builtin.vp9).answer ⟨.direct ⟨0, by decide⟩ (.int 0 63), s⟩ (some "30")).next =
        .ask (start Builtin.vp9 (s.insert "crf" (.int 30))) := rfl
  have hthins : (dialogue Builtin.vp9).Thins IsDiagnosed (start Builtin.vp9 s) script
      ["3", "4", "1", "30"] := by
    apply Dialogue.Thins.leave hnumber (next_of_isDiagnosed _ _ hnumber)
    apply Dialogue.Thins.keep hscale
    apply Dialogue.Thins.leave hway (next_of_isDiagnosed _ _ hway)
    apply Dialogue.Thins.keep hclear
    apply Dialogue.Thins.keep (hquality _)
    apply Dialogue.Thins.leave (hword _) (next_of_isDiagnosed _ _ (hword _))
    apply Dialogue.Thins.keep (hstored _)
    exact .nil
  have hmenu : ((dialogue Builtin.vp9).feed (start Builtin.vp9 s) script).stand =
      .ask (start Builtin.vp9 ((s.erase Key.scale).insert "crf" (.int 30))) := by
    rw [Dialogue.stand_feed_ask (next_of_isDiagnosed _ _ hnumber), Dialogue.stand_feed_ask hscale,
      Dialogue.stand_feed_ask (next_of_isDiagnosed _ _ hway), Dialogue.stand_feed_ask hclear,
      Dialogue.stand_feed_ask (hquality _),
      Dialogue.stand_feed_ask (next_of_isDiagnosed _ _ (hword _)),
      Dialogue.stand_feed_ask (hstored _)]
    rfl
  obtain ⟨hleft, hsplit⟩ := edit_thinned_and_append Builtin.vp9 s script
  exact ⟨hthins, hleft _ hthins, hmenu, hsplit _ hmenu _⟩

end Transcode.Editor
