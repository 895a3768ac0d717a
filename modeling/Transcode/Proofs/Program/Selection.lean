import Transcode.Program.Batch
import Transcode.Proofs.Dialogue
import Transcode.Proofs.Program.Outcome
import Transcode.Proofs.Validation.Accepted

/-! # How a profile is selected

A name that is known settles the profile, and nothing is read or shown. Without one the menu decides,
if it may: the first line that picks a profile does, and all lines before it are refused. -/

namespace Transcode

namespace ProfileMenu

open Editor (promptMark tryAgain)

variable {r : Registry} {line : String}

/-! ## One answer -/

theorem dialogue_answer (r : Registry) (line : Option String) :
    (dialogue r).answer () line = answer r line :=
  rfl

theorem answer_of_picks {m : Nat} (h : Picks r.profiles.length line m) {p : Profile}
    (hp : r.profiles[m - 1]? = some p) :
    (dialogue r).answer () (some line) = ⟨[], .done (some p)⟩ := by
  have hindex : choiceIndex? line r.profiles.length = some (m - 1) := by
    rw [choiceIndex?_eq_some_iff, Nat.sub_add_cancel h.inside.1]
    exact h
  rw [dialogue_answer, answer]
  split
  · rename_i i hi
    obtain rfl : i = m - 1 := Option.some.inj (hi.symm.trans hindex)
    rw [List.get_eq_getElem, ← Option.some.inj ((List.getElem?_eq_getElem _).symm.trans hp)]
  · rename_i hnone
    rw [hnone] at hindex
    cases hindex

theorem answer_of_not_picks (h : ∀ m, ¬ Picks r.profiles.length line m) :
    (dialogue r).answer () (some line) = ⟨[.say tryAgain], .ask ()⟩ := by
  have hindex := choiceIndex?_eq_none_iff.mpr h
  rw [dialogue_answer, answer]
  split
  · rename_i i hi
    rw [hi] at hindex
    cases hindex
  · rfl

/-! ## A session of the menu -/

/-- What is seen of a line that is refused. -/
def refusal (line : String) : List Event :=
  [.ask promptMark (some line), .say tryAgain]

/-- Lines that are refused change nothing but the transcript. -/
theorem run_append_of_refused {refused : List String}
    (h : ∀ line ∈ refused, ∀ m, ¬ Picks r.profiles.length line m) (rest : List String) :
    (dialogue r).run () (refused ++ rest) =
      { (dialogue r).run () rest with
        events := refused.flatMap refusal ++ ((dialogue r).run () rest).events } := by
  induction refused with
  | nil => rfl
  | cons line refused ih =>
    have hanswer := answer_of_not_picks (h line (by simp))
    have hshown : (dialogue r).events ⟨(), some line⟩ = refusal line := by
      rw [Dialogue.events, hanswer]
      rfl
    have hnext : ((dialogue r).answer () (some line)).next = .ask () := by rw [hanswer]
    rw [List.cons_append, Dialogue.run_cons_ask hnext, hshown,
      ih fun line hline => h line (List.mem_cons_of_mem _ hline)]
    simp

/-- The menu is left with the first line that picks a profile, and otherwise at the end of the
input. -/
inductive Chooses (r : Registry) : List String → Session (Option Profile) → Prop where
  | picked {refused unread : List String} {line : String} {m : Nat} {p : Profile}
      (refuses : ∀ line ∈ refused, ∀ m, ¬ Picks r.profiles.length line m)
      (picks : Picks r.profiles.length line m) (numbered : r.profiles[m - 1]? = some p) :
      Chooses r (refused ++ line :: unread)
        ⟨screen r ++ (refused.flatMap refusal ++ [.ask promptMark (some line)]), some p, unread⟩
  | ended {script : List String}
      (refuses : ∀ line ∈ script, ∀ m, ¬ Picks r.profiles.length line m) :
      Chooses r script
        ⟨screen r ++ (script.flatMap refusal ++ [.ask promptMark none]), none, []⟩

theorem Chooses.choose_eq {script : List String} {session : Session (Option Profile)}
    (h : Chooses r script session) : choose r script = session := by
  cases h with
  | @picked refused unread line m p refuses picks numbered =>
    have hanswer := answer_of_picks picks numbered
    have hshown : (dialogue r).events ⟨(), some line⟩ = [.ask promptMark (some line)] := by
      rw [Dialogue.events, hanswer]
      rfl
    have hnext : ((dialogue r).answer () (some line)).next = .done (some p) := by rw [hanswer]
    rw [choose, run_append_of_refused refuses, Dialogue.run_cons_done hnext, hshown]
  | ended refuses =>
    have hend : (dialogue r).run () [] = ⟨[.ask promptMark none], none, []⟩ := by
      rw [Dialogue.run]
      simp only [Dialogue.feed]
      rw [Dialogue.hangUp]
      rfl
    rw [choose, ← List.append_nil script, run_append_of_refused refuses, hend]
    simp

theorem exists_chooses (r : Registry) (script : List String) :
    ∃ session, Chooses r script session := by
  rcases exists_first_pick r.profiles.length script with
    hall | ⟨refused, line, unread, m, rfl, hrefused, hm⟩
  · exact ⟨_, .ended hall⟩
  · have hlt : m - 1 < r.profiles.length := by
      have hinside := hm.inside
      omega
    exact ⟨_, .picked hrefused hm (List.getElem?_eq_getElem hlt)⟩

end ProfileMenu

/-! ## Requests -/

/-- What is said of a name that is asked for before the menu is shown. -/
def unknownNotice (requested : Option String) : List Event :=
  (requested.map fun name => Event.say ("Unknown codec '" ++ name ++ "'")).toList

/-- How a profile is selected for the name that is asked for, if any. A known name settles it.
Otherwise the menu decides, after a notice if there is a name, unless it is to be skipped. -/
inductive Selects (r : Registry) (requested : Option String) (skipMenu : Bool) :
    List String → Session (Except SelectionFault Profile) → Prop where
  | known {name : String} {p : Profile} {script : List String} (asked : requested = some name)
      (found : r.lookup? name = some p) :
      Selects r requested skipMenu script ⟨[], .ok p, script⟩
  | unknown {name : String} {script : List String} (skip : skipMenu = true)
      (asked : requested = some name) (unknown : r.lookup? name = none) :
      Selects r requested skipMenu script ⟨[], .error (.unknownName name r.names), script⟩
  | unnamed {script : List String} (skip : skipMenu = true) (unasked : requested = none) :
      Selects r requested skipMenu script ⟨[], .error .noName, script⟩
  | chosen {script unread : List String} {events : List Event} {p : Profile}
      (asks : skipMenu = false) (unknown : ∀ name ∈ requested, r.lookup? name = none)
      (menu : ProfileMenu.Chooses r script ⟨events, some p, unread⟩) :
      Selects r requested skipMenu script ⟨unknownNotice requested ++ events, .ok p, unread⟩
  | unanswered {script unread : List String} {events : List Event}
      (asks : skipMenu = false) (unknown : ∀ name ∈ requested, r.lookup? name = none)
      (menu : ProfileMenu.Chooses r script ⟨events, none, unread⟩) :
      Selects r requested skipMenu script
        ⟨unknownNotice requested ++ events, .error .noAnswer, unread⟩

namespace Selection

variable {r : Registry} {requested : Option String} {skipMenu : Bool} {script : List String}
  {session : Session (Except SelectionFault Profile)}

theorem run_menu {notice : Option String} : (menu notice).run r script =
    ⟨notice.toList.map .say ++ (ProfileMenu.choose r script).events,
      ofChoice (ProfileMenu.choose r script).result, (ProfileMenu.choose r script).unread⟩ :=
  rfl

/-- A name that is not known leaves it to the menu. -/
theorem run_of_unknown (asks : skipMenu = false)
    (unknown : ∀ name ∈ requested, r.lookup? name = none) :
    (ofRequest r requested skipMenu).run r script =
      ⟨unknownNotice requested ++ (ProfileMenu.choose r script).events,
        ofChoice (ProfileMenu.choose r script).result, (ProfileMenu.choose r script).unread⟩ := by
  cases requested with
  | none => simp [ofRequest, asks, run_menu, unknownNotice]
  | some name => simp [ofRequest, unknown name rfl, asks, run_menu, unknownNotice]

theorem run_of_selects (h : Selects r requested skipMenu script session) :
    (ofRequest r requested skipMenu).run r script = session := by
  cases h with
  | known asked found =>
    simp only [ofRequest, asked, found]
    rfl
  | unknown skip asked unknown =>
    simp only [ofRequest, asked, unknown, skip, if_true]
    rfl
  | unnamed skip unasked =>
    simp only [ofRequest, unasked, skip, if_true]
    rfl
  | chosen asks unknown menu =>
    rw [run_of_unknown asks unknown, menu.choose_eq]
    rfl
  | unanswered asks unknown menu =>
    rw [run_of_unknown asks unknown, menu.choose_eq]
    rfl

theorem exists_selects (r : Registry) (requested : Option String) (skipMenu : Bool)
    (script : List String) : ∃ session, Selects r requested skipMenu script session := by
  by_cases hknown : ∃ name p, requested = some name ∧ r.lookup? name = some p
  · obtain ⟨name, p, hasked, hfound⟩ := hknown
    exact ⟨_, .known hasked hfound⟩
  have hunknown : ∀ name ∈ requested, r.lookup? name = none := by
    intro name hname
    rw [Option.eq_none_iff_forall_ne_some]
    exact fun p hp => hknown ⟨name, p, hname, hp⟩
  cases hskip : skipMenu with
  | false =>
    obtain ⟨⟨events, choice, unread⟩, hmenu⟩ := ProfileMenu.exists_chooses r script
    cases choice with
    | some p => exact ⟨_, .chosen rfl hunknown hmenu⟩
    | none => exact ⟨_, .unanswered rfl hunknown hmenu⟩
  | true =>
    cases requested with
    | none => exact ⟨_, .unnamed rfl rfl⟩
    | some name => exact ⟨_, .unknown rfl rfl (hunknown name rfl)⟩

theorem run_eq_iff :
    (ofRequest r requested skipMenu).run r script = session ↔
      Selects r requested skipMenu script session := by
  refine ⟨?_, run_of_selects⟩
  rintro rfl
  obtain ⟨session, h⟩ := exists_selects r requested skipMenu script
  rw [run_of_selects h]
  exact h

end Selection

/-! ## In a world -/

/-- The program selects a profile with the lines that wait, if they are all text. -/
theorem Batch.selectProfile_run (selection : Selection) {w : World} {script : List String}
    (hscript : w.input.map World.lineText? = script.map some) :
    let session := selection.run Registry.builtin script
    (selectProfile World.host selection).run.run w =
      (session.result.mapError .selection,
        (session.events.foldl World.present w).withInput
          (w.input.drop (script.length - session.unread.length))) := by
  have hkept : w.withInput (w.input.drop (script.length - script.length)) = w := by
    rw [Nat.sub_self]
    rfl
  intro session
  cases selection with
  | settled p =>
    simp only [session, Selection.run, List.foldl_nil, hkept]
    rfl
  | refused fault =>
    simp only [session, Selection.run, List.foldl_nil, hkept]
    rfl
  | menu notice =>
    let d := ProfileMenu.dialogue Registry.builtin
    let shown := notice.toList.map Event.say ++ ProfileMenu.screen Registry.builtin
    have hshown := World.yields_present w shown
    have hinput := (w.foldl_present_resembles shown).2
    have hchoice : (shown.foldl World.present w).Yields
        (attempt (World.host.converse d ()) .terminal) (d.run () script).result _ :=
      World.yields_attempt_iff.mpr (World.converse_eq_run d () (hinput ▸ hscript))
    have hevents : session.events.foldl World.present w =
        (d.run () script).events.foldl World.present (shown.foldl World.present w) := by
      rw [← List.foldl_append, List.append_assoc]
      rfl
    have hresult : session.result = Selection.ofChoice (d.run () script).result := rfl
    rw [selectProfile, hshown.run_bind, hchoice.run_bind, hevents, hresult, hinput]
    cases Selection.ofChoice (d.run () script).result with
    | ok p => rfl
    | error fault => rfl

/-- A profile is selected by the name that was given, or by the configured one if none was. Only where
this finds none, and the menu is wanted, is anything shown and read, and then the first line that picks
a profile decides, in any registry. The program does the same in a world whose lines are all text, and
leaves there the lines that were not read. -/
theorem run_ofRequest_iff_selects (r : Registry) (given configured : Option String)
    (skipMenu : Bool) (script : List String) :
    (∀ session, (Selection.ofRequest r (given.or configured) skipMenu).run r script = session ↔
      Selects r (given.or configured) skipMenu script session) ∧
    (r.profiles.length < Nat.pow 2 64 → ∀ line m, Picks r.profiles.length line m ↔
      Number.IsNatural (Text.trim line).toList m ∧ 1 ≤ m ∧ m ≤ r.profiles.length) ∧
    ∀ w : World, w.input.map World.lineText? = script.map some →
      ∀ session, Selects Registry.builtin (given.or configured) skipMenu script session →
        (Batch.selectProfile World.host
            (.ofRequest Registry.builtin (given.or configured) skipMenu)).run.run w =
          (session.result.mapError .selection,
            (session.events.foldl World.present w).withInput
              (w.input.drop (script.length - session.unread.length))) := by
  refine ⟨fun session => Selection.run_eq_iff, fun hsize line m => picks_iff_of_lt hsize,
    fun w hscript session hselects => ?_⟩
  obtain rfl := Selection.run_of_selects hselects
  exact Batch.selectProfile_run _ hscript

/-- An unknown name is not replaced by the configured one. An empty line, zero and a number that is too
large are refused at the menu, and a line is left unread. -/
theorem run_ofRequest_iff_selects_av1 :
    let line := "\u00a0+02\t"
    let script := ["", "0", "4", line, "1"]
    let selection := Selection.ofRequest Registry.builtin (some "h264") false
    let w : World := ⟨.empty, none, script.map Text.Utf8.encode, fun _ => none, 0, []⟩
    selection.run Registry.builtin script =
        ⟨.say "Unknown codec 'h264'" :: (ProfileMenu.screen Registry.builtin ++
            (["", "0", "4"].flatMap ProfileMenu.refusal ++ [.ask "> " (some line)])),
          .ok Builtin.av1, ["1"]⟩ ∧
      Number.IsNatural (Text.trim line).toList 2 ∧
      w.input.map World.lineText? = script.map some ∧
      ∃ w', (Batch.selectProfile World.host selection).run.run w = (.ok Builtin.av1, w') ∧
        w'.input = [Text.Utf8.encode "1"] := by
  intro line script selection w
  have hscript : w.input.map World.lineText? = script.map some := by decide +kernel
  have hrefused : ∀ line ∈ ["", "0", "4"], choiceIndex? line 3 = none := by decide +kernel
  have hpicked : Picks Registry.builtin.profiles.length line 2 :=
    choiceIndex?_eq_some_iff.mp (by decide +kernel)
  have hmenu : ProfileMenu.Chooses Registry.builtin (["", "0", "4"] ++ line :: ["1"]) _ :=
    .picked (fun line hline => choiceIndex?_eq_none_iff.mp (hrefused line hline)) hpicked rfl
  have hselects : Selects Registry.builtin (some "h264") false script _ :=
    .chosen rfl (by decide +kernel) hmenu
  obtain ⟨hrun, hpicks, hworld⟩ :=
    run_ofRequest_iff_selects Registry.builtin (some "h264") (some "vp9") false script
  have hnatural := (hpicks (by decide +kernel) line 2).mp hpicked
  exact ⟨(hrun _).mpr hselects, hnatural.1, hscript, _, hworld w hscript _ hselects, rfl⟩

end Transcode
