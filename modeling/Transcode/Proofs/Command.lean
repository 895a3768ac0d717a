import Mathlib.Data.List.Basic
import Transcode.Command

/-! # Commands and the line that shows them

A command is shown in one line. Split at the spaces that are not in quotes, and freed of the quotes,
the line holds the program and its arguments again, as long as no quote is shown that is not put
there for an argument, and no space outside quotes that does not stand between two arguments. -/

namespace Transcode

open Text (Bytes)
open Text.Utf8 (encode lossy)

/-! ## Splitting a line -/

namespace Text

/-- Splits at every space outside double quotes, and keeps the quotes. -/
def splitUnquoted (quoted : Bool) : List Char → List (List Char)
  | [] => [[]]
  | c :: cs =>
    if c = ' ' ∧ quoted = false then [] :: splitUnquoted quoted cs
    else (splitUnquoted (if c = '"' then !quoted else quoted) cs).modifyHead (c :: ·)

/-- The parts of a line between the spaces outside double quotes, without the quotes. -/
def words (line : String) : List String :=
  (splitUnquoted false line.toList).map fun part => String.ofList (part.filter (· ≠ '"'))

example : words "ab \"c  d,\" \"\" e" = ["ab", "c  d,", "", "e"] := by decide

/-- Characters that do not end a part belong to the part of those that follow. -/
theorem splitUnquoted_append {quoted : Bool} {cs : List Char}
    (h : ∀ c ∈ cs, c ≠ '"' ∧ (c = ' ' → quoted = true)) (rest : List Char) :
    splitUnquoted quoted (cs ++ rest) = (splitUnquoted quoted rest).modifyHead (cs ++ ·) := by
  induction cs with
  | nil => cases h : splitUnquoted quoted rest <;> simp [h]
  | cons c cs ih =>
    obtain ⟨hquote, hspace⟩ := h c (by simp)
    have hstays : ¬ (c = ' ' ∧ quoted = false) := by
      rintro ⟨hc, hquoted⟩
      rw [hspace hc] at hquoted
      cases hquoted
    rw [List.cons_append, splitUnquoted, if_neg hstays, if_neg hquote,
      ih fun d hd => h d (List.mem_cons_of_mem c hd), List.modifyHead_modifyHead]
    rfl

/-- Characters that are part of a part, whatever follows them. -/
def IsPart (part : List Char) : Prop :=
  ∀ rest, splitUnquoted false (part ++ rest) = (splitUnquoted false rest).modifyHead (part ++ ·)

theorem isPart_of_plain {cs : List Char} (h : ∀ c ∈ cs, c ≠ '"' ∧ c ≠ ' ') : IsPart cs := by
  apply splitUnquoted_append
  intro c hc
  exact ⟨(h c hc).1, fun hspace => absurd hspace (h c hc).2⟩

/-- Between quotes there may be spaces. -/
theorem isPart_quoted {cs : List Char} (h : ∀ c ∈ cs, c ≠ '"') :
    IsPart ('"' :: cs ++ ['"']) := by
  intro rest
  have hopen : splitUnquoted false ('"' :: (cs ++ '"' :: rest)) =
      (splitUnquoted true (cs ++ '"' :: rest)).modifyHead ('"' :: ·) := by
    simp [splitUnquoted]
  have hclose : splitUnquoted true ('"' :: rest) =
      (splitUnquoted false rest).modifyHead ('"' :: ·) := by
    simp [splitUnquoted]
  have hinside : splitUnquoted true (cs ++ '"' :: rest) =
      (splitUnquoted true ('"' :: rest)).modifyHead (cs ++ ·) :=
    splitUnquoted_append (fun c hc => ⟨h c hc, fun _ => rfl⟩) _
  rw [List.append_assoc, List.cons_append, List.singleton_append, hopen, hinside, hclose,
    List.modifyHead_modifyHead, List.modifyHead_modifyHead]
  congr 1
  funext part
  simp

/-- Parts that follow each other after single spaces are found again. -/
theorem splitUnquoted_parts {first : List Char} {parts : List (List Char)} (hfirst : IsPart first)
    (hparts : ∀ part ∈ parts, IsPart part) :
    splitUnquoted false (first ++ parts.flatMap (' ' :: ·)) = first :: parts := by
  induction parts generalizing first with
  | nil => simpa [splitUnquoted] using hfirst []
  | cons part parts ih =>
    have hrest := ih (hparts part (by simp)) fun p hp => hparts p (List.mem_cons_of_mem _ hp)
    rw [List.flatMap_cons, hfirst, List.cons_append, splitUnquoted, if_pos ⟨rfl, rfl⟩, hrest]
    simp

end Text

/-! ## Arguments -/

namespace Argument

/-- An argument is a text without double quotes, and without spaces if it is not shown in quotes. -/
def IsTellable (a : Argument) : Prop :=
  ∃ s, encode s = a.value ∧ ∀ c ∈ s.toList, c ≠ '"' ∧ (a.quoted = false → c ≠ ' ')

theorem isTellable_encode {s : String} {quoted : Bool}
    (h : (s.toList.all fun c => c != '"' && (quoted || c != ' ')) = true) :
    (⟨encode s, quoted⟩ : Argument).IsTellable := by
  refine ⟨s, rfl, fun c hc => ?_⟩
  have hall := List.all_eq_true.mp h c hc
  cases quoted <;> simpa using hall

/-- What is shown of such an argument is one part of the line, and is the argument without its
quotes. -/
theorem IsTellable.display {a : Argument} (h : a.IsTellable) :
    Text.IsPart a.display.toList ∧
      encode (String.ofList (a.display.toList.filter (· ≠ '"'))) = a.value := by
  obtain ⟨s, hs, hplain⟩ := h
  have hkept : s.toList.filter (· ≠ '"') = s.toList := by
    apply List.filter_eq_self.mpr
    intro c hc
    simpa using (hplain c hc).1
  have hshown : lossy a.value = s := by rw [← hs, Text.Utf8.lossy_encode]
  cases hquoted : a.quoted with
  | false =>
    have hdisplay : a.display = s := by simp [Argument.display, hquoted, hshown]
    rw [hdisplay, hkept, String.ofList_toList]
    exact ⟨Text.isPart_of_plain fun c hc => ⟨(hplain c hc).1, (hplain c hc).2 hquoted⟩, hs⟩
  | true =>
    have hdisplay : a.display.toList = '"' :: s.toList ++ ['"'] := by
      simp [Argument.display, hquoted, hshown]
    refine ⟨?_, ?_⟩
    · rw [hdisplay]
      exact Text.isPart_quoted fun c hc => (hplain c hc).1
    · have hfree : (a.display.toList).filter (· ≠ '"') = s.toList := by
        rw [hdisplay, List.filter_append, List.filter_cons_of_neg (by simp), hkept]
        simp
      rw [hfree, String.ofList_toList, hs]

end Argument

/-! ## Commands -/

namespace Command

/-- The program, as it is shown, and its arguments. -/
def parts (c : Command) : List Argument :=
  ⟨c.program, false⟩ :: c.arguments

theorem toList_display (c : Command) : c.display.toList =
    (lossy c.program).toList ++ (c.arguments.map fun a => a.display.toList).flatMap (' ' :: ·) := by
  suffices h : ∀ line : String,
      (c.arguments.foldl (fun line a => line ++ " " ++ a.display) line).toList =
        line.toList ++ (c.arguments.map fun a => a.display.toList).flatMap (' ' :: ·) from h _
  intro line
  induction c.arguments generalizing line with
  | nil => simp
  | cons a arguments ih => simp [ih]

/-- The line of a command tells what is executed. -/
theorem words_display {c : Command} (h : ∀ a ∈ c.parts, a.IsTellable) :
    (Text.words c.display).map encode = c.program :: c.values := by
  have hprogram := (h ⟨c.program, false⟩ (by simp [parts])).display
  have harguments (a : Argument) (ha : a ∈ c.arguments) := (h a (by simp [parts, ha])).display
  have hshown : (⟨c.program, false⟩ : Argument).display = lossy c.program := rfl
  rw [hshown] at hprogram
  have hsplit : Text.splitUnquoted false c.display.toList =
      (lossy c.program).toList :: c.arguments.map fun a => a.display.toList := by
    rw [toList_display]
    apply Text.splitUnquoted_parts hprogram.1
    intro part hpart
    obtain ⟨a, ha, rfl⟩ := List.mem_map.mp hpart
    exact (harguments a ha).1
  have hvalues : c.arguments.map (fun a =>
      encode (String.ofList (a.display.toList.filter (· ≠ '"')))) = c.values :=
    List.map_congr_left fun a ha => (harguments a ha).2
  simp only [Text.words, hsplit, List.map_cons, List.map_map, Function.comp_def]
  rw [hprogram.2, hvalues]

/-! ## Building a command -/

/-- A way to add to the arguments of a command. -/
inductive Addition where
  /-- An argument that is shown as it is. -/
  | bare (value : Bytes)
  /-- An argument that is shown in double quotes. -/
  | inQuotes (value : Bytes)
  /-- Any number of arguments that are shown as they are. -/
  | bares (values : List Bytes)

namespace Addition

def arguments : Addition → List Argument
  | bare value => [⟨value, false⟩]
  | inQuotes value => [⟨value, true⟩]
  | bares values => values.map fun value => ⟨value, false⟩

/-- What the program is given. -/
def values : Addition → List Bytes
  | bare value | inQuotes value => [value]
  | bares values => values

def apply (c : Command) : Addition → Command
  | bare value => c.push ⟨value, false⟩
  | inQuotes value => c.push ⟨value, true⟩
  | bares values => c.append (values.map fun value => ⟨value, false⟩)

theorem apply_eq_append (c : Command) (addition : Addition) :
    apply c addition = c.append addition.arguments := by
  cases addition <;> rfl

theorem map_value_arguments (addition : Addition) :
    addition.arguments.map (·.value) = addition.values := by
  cases addition <;> simp [arguments, values, Function.comp_def]

/-- Adding arguments together is adding them one by one. -/
theorem apply_bares (c : Command) (values : List Bytes) :
    apply c (bares values) = (values.map bare).foldl apply c := by
  rw [apply, append_eq_foldl_push, List.foldl_map, List.foldl_map]
  rfl

end Addition

/-- Adds to a command that is a program without arguments at first. -/
def build (program : Bytes) (additions : List Addition) : Command :=
  additions.foldl Addition.apply (ofProgram program)

theorem build_eq (program : Bytes) (additions : List Addition) :
    build program additions = ⟨program, additions.flatMap Addition.arguments⟩ := by
  suffices h : ∀ c : Command, additions.foldl Addition.apply c =
      c.append (additions.flatMap Addition.arguments) by
    simpa [build, append, ofProgram] using h (ofProgram program)
  induction additions with
  | nil => simp [append]
  | cons addition additions ih =>
    intro c
    rw [List.foldl_cons, ih, Addition.apply_eq_append]
    simp [append]

theorem values_build (program : Bytes) (additions : List Addition) :
    (build program additions).values = additions.flatMap Addition.values := by
  rw [build_eq, values, List.map_flatMap]
  exact List.flatMap_congr fun addition _ => addition.map_value_arguments

/-- A command has the arguments that are added to it, byte for byte. Its line tells the program and
the arguments, if there are no double quotes in them and no spaces in those that are shown as they
are. It makes no difference whether arguments are added together or one by one. -/
theorem words_display_build (program : Bytes) (additions : List Addition) :
    (build program additions).program = program ∧
    (build program additions).values = additions.flatMap Addition.values ∧
    ((⟨program, false⟩ : Argument).IsTellable →
      (∀ addition ∈ additions, ∀ a ∈ addition.arguments, a.IsTellable) →
      (Text.words (build program additions).display).map encode =
        program :: additions.flatMap Addition.values) ∧
    ∀ values after, build program (additions ++ .bares values :: after) =
      build program (additions ++ values.map .bare ++ after) := by
  have hprogram : (build program additions).program = program := by rw [build_eq]
  have hvalues := values_build program additions
  refine ⟨hprogram, hvalues, fun htellable harguments => ?_, fun values after => ?_⟩
  · have hparts : ∀ a ∈ (build program additions).parts, a.IsTellable := by
      intro a ha
      rw [parts, build_eq] at ha
      rcases List.mem_cons.mp ha with rfl | ha
      · exact htellable
      · obtain ⟨addition, haddition, ha⟩ := List.mem_flatMap.mp ha
        exact harguments addition haddition a ha
    rw [words_display hparts, hprogram, hvalues]
  · simp only [build, List.foldl_append, List.foldl_cons, Addition.apply_bares]

/-- Spaces, a comma, an apostrophe and nothing at all stand in quotes. -/
theorem words_display_build_ffmpeg :
    let additions : List Addition := [.bares [encode "-y", encode "-i"],
      .inQuotes (encode "/in/it's  a clip, 1.mp4"), .bare (encode "-vf"), .inQuotes (encode "")]
    (build (encode "ffmpeg") additions).display =
        "ffmpeg -y -i \"/in/it's  a clip, 1.mp4\" -vf \"\"" ∧
      (Text.words "ffmpeg -y -i \"/in/it's  a clip, 1.mp4\" -vf \"\"").map encode =
        encode "ffmpeg" :: additions.flatMap Addition.values := by
  intro additions
  have hdisplay : (build (encode "ffmpeg") additions).display =
      "ffmpeg -y -i \"/in/it's  a clip, 1.mp4\" -vf \"\"" := by decide +kernel
  have hprogram : (⟨encode "ffmpeg", false⟩ : Argument).IsTellable :=
    Argument.isTellable_encode (by decide)
  have harguments : ∀ addition ∈ additions, ∀ a ∈ addition.arguments, a.IsTellable := by
    simp only [additions, List.forall_mem_cons, List.not_mem_nil, Addition.arguments, List.map_cons,
      List.map_nil, false_imp_iff, implies_true, and_true]
    refine ⟨⟨?_, ?_⟩, ?_, ?_, ?_⟩
    all_goals exact Argument.isTellable_encode (by decide)
  have htold := (words_display_build (encode "ffmpeg") additions).2.2.1 hprogram harguments
  rw [hdisplay] at htold
  exact ⟨hdisplay, htold⟩

end Command

end Transcode
