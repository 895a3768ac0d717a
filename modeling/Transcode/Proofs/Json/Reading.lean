import Mathlib.Data.List.TakeWhile
import Transcode.Json.Reader
import Transcode.Json.Writer

/-! # Reading what was written

A written value is read back wherever it stands in a text, as long as what follows it does not go on
with it and there are enough calls left. -/

namespace Transcode.Json

open Number (isDigit digitsValue decimal)

/-! ## Strings -/

theorem character?_of_plain {c : Char} (hc : c ≠ '\\') (h : 0x20 ≤ c.toNat) (rest : List Char) :
    character? (c :: rest) = some (c, rest) := by
  have hlow : ¬ c.toNat < 0x20 := by omega
  rw [character?.eq_def]
  split <;> simp_all

/-- A control character is the one of its two hexadecimal digits. -/
theorem hex4?_control {n : Nat} (h : n < 0x20) (rest : List Char) :
    hex4? ('0' :: '0' :: Text.hexChar (n / 16) :: Text.hexChar (n % 16) :: rest) =
      some (n, rest) := by
  have hhigh := Text.hexDigit?_hexChar (n := n / 16) (by omega)
  have hlow := Text.hexDigit?_hexChar (n := n % 16) (by omega)
  have hzero : Text.hexDigit? '0' = some 0 := by decide
  have hn : n / 16 * 16 + n % 16 = n := by omega
  simp [hex4?, hhigh, hlow, hzero, hn]

theorem character?_escape (c : Char) (rest : List Char) :
    character? (escape c ++ rest) = some (c, rest) := by
  unfold escape
  split
  · subst_vars; rfl
  split
  · subst_vars; rfl
  split
  · subst_vars; rfl
  split
  · subst_vars; rfl
  split
  · subst_vars; rfl
  split
  · subst_vars; rfl
  split
  · subst_vars; rfl
  split
  · rename_i h
    have hhex := hex4?_control h rest
    have hlow : ¬ (0xD800 ≤ c.toNat) := by omega
    have hmid : ¬ (0xDC00 ≤ c.toNat) := by omega
    simp [character?, unicodeEscape?, hhex, hlow, hmid]
  · rename_i hslash _ _ _ _ _ hlow
    exact character?_of_plain hslash (by omega) rest

/-- No escaped character looks like the closing quote. -/
theorem escape_eq_cons (c : Char) : ∃ d ds, escape c = d :: ds ∧ d ≠ '"' := by
  unfold escape
  repeat' split
  all_goals first | exact ⟨_, _, rfl, by decide⟩ | exact ⟨_, _, rfl, by assumption⟩

theorem string?_escape (c : Char) (rest : List Char) :
    string? (escape c ++ rest) = (string? rest).map fun (cs, rest) => (c :: cs, rest) := by
  have hc := character?_escape c rest
  obtain ⟨d, ds, he, hd⟩ := escape_eq_cons c
  rw [he, List.cons_append] at hc ⊢
  rw [string?.eq_def]
  split
  · rename_i h
    exact absurd (List.cons.inj h).1 hd
  · split
    · simp_all
    · simp_all

theorem string?_flatMap_escape (cs rest : List Char) :
    string? (cs.flatMap escape ++ '"' :: rest) = some (cs, rest) := by
  induction cs with
  | nil => simp [string?]
  | cons c cs ih => simp [string?_escape, ih]

/-! ## Numbers -/

/-- What follows a number without going on with it. -/
def IsDelimited (rest : List Char) : Prop :=
  ∀ c ∈ rest.head?, isDigit c = false ∧ c ≠ '.' ∧ c ≠ 'e' ∧ c ≠ 'E'

theorem decimal_eq_cons (n : Nat) :
    ∃ c cs, decimal n = c :: cs ∧ isDigit c = true ∧ (c = '0' → cs = []) := by
  induction n using Nat.strongRecOn with
  | _ n ih =>
    rw [decimal]
    split
    · rename_i hn
      exact ⟨_, _, rfl, Number.isDigit_digitChar hn, fun _ => rfl⟩
    · rename_i hn
      obtain ⟨c, cs, hd, hc, hzero⟩ := ih (n / 10) (by omega)
      refine ⟨c, cs ++ [Number.digitChar (n % 10)], by rw [hd, List.cons_append], hc, ?_⟩
      -- A number that ends with another digit is at least ten, so it does not start with a zero.
      rintro rfl
      have hvalue := Number.digitsValue_decimal (n / 10)
      rw [hd, hzero rfl] at hvalue
      have : digitsValue ['0'] = 0 := by decide
      omega

namespace Numeral

theorem digits1?_append {cs rest : List Char} (hne : cs ≠ []) (hcs : cs.all isDigit = true)
    (hrest : IsDelimited rest) : digits1? (cs ++ rest) = some (cs, rest) := by
  have hstop : rest.takeWhile isDigit = [] ∧ rest.dropWhile isDigit = rest := by
    cases rest with
    | nil => exact ⟨rfl, rfl⟩
    | cons c rest =>
      have hc := (hrest c rfl).1
      simp [hc]
  have hall : ∀ c ∈ cs, isDigit c = true := List.all_eq_true.mp hcs
  rw [digits1?, List.takeWhile_append_of_pos hall, List.dropWhile_append_of_pos hall, hstop.1,
    hstop.2, List.append_nil]
  simp [hne]

theorem whole?_decimal (n : Nat) {rest : List Char} (hrest : IsDelimited rest) :
    whole? (decimal n ++ rest) = some (decimal n, rest) := by
  obtain ⟨c, cs, hd, hc, hzero⟩ := decimal_eq_cons n
  have hread := digits1?_append (Number.decimal_ne_nil n) (Number.all_isDigit_decimal n) hrest
  rw [hd] at hread ⊢
  by_cases h : c = '0'
  · subst h
    obtain rfl := hzero rfl
    have hstop : rest.takeWhile isDigit = [] := by
      cases rest with
      | nil => rfl
      | cons c rest => simp [(hrest c rfl).1]
    simp [whole?, hstop]
  · rw [List.cons_append, whole?]
    · exact hread
    · intro cs' he
      exact h (List.cons.inj he).1

theorem fraction?_of_isDelimited {rest : List Char} (hrest : IsDelimited rest) :
    fraction? rest = some ([], rest) := by
  cases rest with
  | nil => rfl
  | cons c rest =>
    rw [fraction?]
    intro cs he
    exact (hrest c rfl).2.1 (List.cons.inj he).1

theorem exponent?_of_isDelimited {rest : List Char} (hrest : IsDelimited rest) :
    exponent? rest = some (none, rest) := by
  cases rest with
  | nil => rfl
  | cons c rest =>
    obtain ⟨-, -, he, hE⟩ := hrest c rfl
    simp [exponent?, he, hE]

theorem unsigned?_decimal (negative : Bool) (n : Nat) {rest : List Char}
    (hrest : IsDelimited rest) :
    unsigned? negative (decimal n ++ rest) = some (⟨negative, decimal n, [], none⟩, rest) := by
  simp [unsigned?, whole?_decimal n hrest, fraction?_of_isDelimited hrest,
    exponent?_of_isDelimited hrest]

theorem read?_integerChars (n : Int) {rest : List Char} (hrest : IsDelimited rest) :
    read? (Number.integerChars n ++ rest) =
      some (⟨n < 0, decimal n.natAbs, [], none⟩, rest) := by
  rw [Number.integerChars]
  split
  · rename_i hn
    simp [read?, unsigned?_decimal true n.natAbs hrest, hn]
  · rename_i hn
    obtain ⟨c, cs, hd, hc, -⟩ := decimal_eq_cons n.natAbs
    have hread := unsigned?_decimal false n.natAbs hrest
    rw [hd] at hread ⊢
    rw [List.cons_append, read?]
    · simpa [hn] using hread
    · intro cs' he
      obtain rfl := (List.cons.inj he).1
      exact absurd hc (by decide)

/-- The integers that fit a 64-bit word, signed or not, are kept as they are. -/
theorem value?_integer {n : Int} (hlow : Int64.minValue.toInt ≤ n) (hhigh : n < UInt64.size) :
    value? ⟨n < 0, decimal n.natAbs, [], none⟩ = some (.integer n) := by
  have hmin : -Int64.minValue.toInt < UInt64.size := by decide
  have hfit : n.natAbs < UInt64.size := by omega
  simp only [value?, List.isEmpty_nil, Option.isNone_none, Number.digitsValue_decimal, hfit,
    decide_true, Bool.and_true, if_true]
  by_cases hn : n < 0
  · have hpos : 0 < n.natAbs := by omega
    have habs : -(n.natAbs : Int) = n := by omega
    simp only [hn, hpos, habs, hlow, decide_true, Bool.not_true, Bool.and_self,
      Bool.false_eq_true, if_false, if_true]
  · have habs : (n.natAbs : Int) = n := by omega
    simp only [hn, habs, decide_false, Bool.not_false, if_true]

end Numeral

/-! ## Values -/

/-- A text that is read as a value where lists and objects may still nest some levels deep. -/
def Reads (levels : Nat) (text : List Char) (v : Json) : Prop :=
  ∀ calls depth rest, 2 * text.length ≤ calls → levels ≤ depth → IsDelimited rest →
    value? calls depth (text ++ rest) = some (v, rest)

/-- Blanks between tokens. -/
def IsGap (gap : List Char) : Prop :=
  skipBlanks gap = []

theorem isGap_lineAt (level : Nat) : IsGap (lineAt level) := by
  simp [IsGap, skipBlanks, lineAt]

theorem skipBlanks_append {gap : List Char} (h : IsGap gap) (cs : List Char) :
    skipBlanks (gap ++ cs) = skipBlanks cs := by
  have hgap : (gap.dropWhile fun c => c == ' ' || c == '\n' || c == '\t' || c == '\r') = [] := h
  simp [skipBlanks, List.dropWhile_append, hgap]

theorem value?_append_gap {gap : List Char} (h : IsGap gap) (calls depth : Nat) (cs : List Char) :
    value? calls depth (gap ++ cs) = value? calls depth cs := by
  cases calls with
  | zero => rfl
  | succ calls => simp only [value?, skipBlanks_append h]

theorem reads_text (levels : Nat) (s : String) : Reads levels (quoted s) (.text s) := by
  intro calls depth rest hcalls _ _
  cases calls with
  | zero => simp [quoted] at hcalls
  | succ calls =>
    simp [value?, skipBlanks, quoted, string?_flatMap_escape]

theorem reads_null (levels : Nat) : Reads levels "null".toList .null := by
  intro calls depth rest hcalls _ _
  cases calls with
  | zero => simp at hcalls
  | succ calls => simp [value?, skipBlanks, word?]

theorem value?_of_numeral {c : Char} (hc : c = '-' ∨ isDigit c = true) (calls depth : Nat)
    {cs rest : List Char} {n : Numeral} (hread : Numeral.read? (c :: cs) = some (n, rest)) :
    value? (calls + 1) depth (c :: cs) = n.value?.map fun v => (v, rest) := by
  have hother (d : Char) (hd : d ≠ '-' ∧ isDigit d = false) : c ≠ d := by
    rintro rfl
    simp [hd] at hc
  have hgap : skipBlanks (c :: cs) = c :: cs := by
    simp [skipBlanks, hother ' ' (by decide), hother '\n' (by decide), hother '\t' (by decide),
      hother '\r' (by decide)]
  rw [value?, hgap]
  split
  all_goals first
    | rename_i h; exact absurd (List.cons.inj h).1 (hother _ (by decide))
    | simp [hread]

theorem reads_integer (levels : Nat) {n : Int} (hlow : Int64.minValue.toInt ≤ n)
    (hhigh : n < UInt64.size) :
    Reads levels (Number.integerChars n) (.integer n) := by
  intro calls depth rest hcalls _ hrest
  have hread := Numeral.read?_integerChars n hrest
  obtain ⟨c, cs, hn, hc⟩ : ∃ c cs, Number.integerChars n = c :: cs ∧
      (c = '-' ∨ isDigit c = true) := by
    rw [Number.integerChars]
    split
    · exact ⟨_, _, rfl, .inl rfl⟩
    · obtain ⟨c, cs, hd, hc, -⟩ := decimal_eq_cons n.natAbs
      exact ⟨c, cs, hd, .inr hc⟩
  rw [hn] at hread hcalls ⊢
  cases calls with
  | zero => simp at hcalls
  | succ calls =>
    rw [List.cons_append] at hread ⊢
    rw [value?_of_numeral hc calls depth hread, Numeral.value?_integer hlow hhigh, Option.map_some]

/-! ## Objects -/

theorem isDelimited_of_mark {c : Char} (h : c = ',' ∨ c = '\x7d') (rest : List Char) :
    IsDelimited (c :: rest) := by
  intro d hd
  obtain rfl : c = d := by simpa using hd
  rcases h with rfl | rfl <;> decide

theorem IsDelimited.append_gap {gap rest : List Char} (hgap : IsGap gap)
    (hrest : IsDelimited rest) : IsDelimited (gap ++ rest) := by
  cases gap with
  | nil => exact hrest
  | cons c gap =>
    have hblank : ((c = ' ' ∨ c = '\n') ∨ c = '\t') ∨ c = '\r' := by
      have hc := List.dropWhile_eq_nil_iff.mp hgap c (by simp)
      simpa using hc
    intro d hd
    obtain rfl : c = d := by simpa using hd
    rcases hblank with ((rfl | rfl) | rfl) | rfl <;> decide

theorem skipBlanks_quoted (key : String) (rest : List Char) :
    skipBlanks (quoted key ++ rest) = quoted key ++ rest := by
  simp [skipBlanks, quoted]

theorem skipBlanks_mark {c : Char} (h : c ∈ [',', ':', '\x7b', '\x7d']) (rest : List Char) :
    skipBlanks (c :: rest) = c :: rest := by
  simp only [List.mem_cons, List.not_mem_nil, or_false] at h
  rcases h with rfl | rfl | rfl | rfl <;> simp [skipBlanks]

section Members

variable {calls depth : Nat} {gap gap' text rest more : List Char} {key : String} {v : Json}

/-- Name and value of a member after which the object ends. -/
theorem members?_last (hgap : IsGap gap) (hgap' : IsGap gap')
    (hv : value? calls depth (text ++ rest) = some (v, rest))
    (hend : skipBlanks rest = '\x7d' :: more) :
    members? (calls + 1) depth (gap ++ (quoted key ++ ':' :: (gap' ++ (text ++ rest)))) =
      some ([(key, v)], more) := by
  have hstring := string?_flatMap_escape key.toList (':' :: (gap' ++ (text ++ rest)))
  have hcolon := skipBlanks_mark (c := ':') (by decide) (gap' ++ (text ++ rest))
  rw [members?, skipBlanks_append hgap, skipBlanks_quoted]
  simp only [quoted, List.cons_append, List.append_assoc, List.nil_append, hstring, hcolon,
    value?_append_gap hgap', hv, hend, String.ofList_toList]

/-- Name and value of a member that is followed by others. -/
theorem members?_cons {ms : List (String × Json)} {others : List Char} (hgap : IsGap gap)
    (hgap' : IsGap gap') (hv : value? calls depth (text ++ rest) = some (v, rest))
    (hcomma : skipBlanks rest = ',' :: others)
    (hothers : members? calls depth others = some (ms, more)) :
    members? (calls + 1) depth (gap ++ (quoted key ++ ':' :: (gap' ++ (text ++ rest)))) =
      some ((key, v) :: ms, more) := by
  have hstring := string?_flatMap_escape key.toList (':' :: (gap' ++ (text ++ rest)))
  have hcolon := skipBlanks_mark (c := ':') (by decide) (gap' ++ (text ++ rest))
  rw [members?, skipBlanks_append hgap, skipBlanks_quoted]
  simp only [quoted, List.cons_append, List.append_assoc, List.nil_append, hstring, hcolon,
    value?_append_gap hgap', hv, hcomma, hothers, Option.map_some, String.ofList_toList]

end Members

theorem members?_append_gap {gap : List Char} (h : IsGap gap) (calls depth : Nat)
    (cs : List Char) : members? calls depth (gap ++ cs) = members? calls depth cs := by
  cases calls with
  | zero => rfl
  | succ calls => simp only [members?, skipBlanks_append h]

/-- What stands between the braces of an object with members. -/
theorem value?_of_members {calls depth : Nat} {gap cs rest : List Char} {key : String}
    {ms : List (String × Json)} (hgap : IsGap gap)
    (h : members? calls depth (gap ++ (quoted key ++ cs)) = some (ms, rest)) :
    value? (calls + 1) (depth + 1) ('\x7b' :: (gap ++ (quoted key ++ cs))) =
      some (.object ms, rest) := by
  rw [members?_append_gap hgap] at h
  rw [value?, skipBlanks_mark (by decide)]
  simp only [Nat.add_one_ne_zero, if_false, skipBlanks_append hgap, skipBlanks_quoted,
    Nat.add_sub_cancel]
  split
  · rename_i hclose
    simp [quoted] at hclose
  · rw [h, Option.map_some]

/-- How the members of an object stand in a text: the blanks before every name, before every value
and before the closing brace, and the text of a value. -/
structure Layout where
  beforeName : List Char
  beforeValue : List Char
  beforeEnd : List Char
  text : Json → List Char

namespace Layout

/-- The further members of an object, each after a comma. -/
def members (l : Layout) : List (String × Json) → List Char
  | [] => []
  | (k, v) :: ms =>
    ',' :: (l.beforeName ++ (quoted k ++ ':' :: (l.beforeValue ++ (l.text v ++ l.members ms))))

def object (l : Layout) : List (String × Json) → List Char
  | [] => ['\x7b', '\x7d']
  | (k, v) :: ms =>
    '\x7b' :: (l.beforeName ++ (quoted k ++ ':' :: (l.beforeValue ++ (l.text v ++
      (l.members ms ++ (l.beforeEnd ++ ['\x7d']))))))

/-- Nothing but blanks stands around names and values. -/
structure IsBlank (l : Layout) : Prop where
  beforeName : IsGap l.beforeName
  beforeValue : IsGap l.beforeValue
  beforeEnd : IsGap l.beforeEnd

/-- No blanks at all. -/
def tight : Layout :=
  ⟨[], [], [], compact⟩

/-- A line for every member, one level below that of the object. -/
def lines (level : Nat) : Layout :=
  ⟨lineAt (level + 1), [' '], lineAt level, pretty (level + 1)⟩

theorem isBlank_tight : tight.IsBlank :=
  ⟨rfl, rfl, rfl⟩

theorem isBlank_lines (level : Nat) : (lines level).IsBlank :=
  ⟨isGap_lineAt _, by simp [lines, IsGap, skipBlanks], isGap_lineAt _⟩

theorem compactMembers_eq (ms : List (String × Json)) : compactMembers ms = tight.members ms := by
  induction ms with
  | nil => rfl
  | cons m ms ih => simp [compactMembers, members, tight, ih]

theorem compact_object (ms : List (String × Json)) : compact (.object ms) = tight.object ms := by
  cases ms with
  | nil => rfl
  | cons m ms => simp [compact, compactMembers_eq, object, tight]

theorem prettyMembers_eq (level : Nat) (ms : List (String × Json)) :
    prettyMembers (level + 1) ms = (lines level).members ms := by
  induction ms with
  | nil => rfl
  | cons m ms ih => simp [prettyMembers, members, lines, ih]

theorem pretty_object (level : Nat) (ms : List (String × Json)) :
    pretty level (.object ms) = (lines level).object ms := by
  cases ms with
  | nil => rfl
  | cons m ms => simp [pretty, prettyMembers_eq, object, lines]

variable {l : Layout} {levels depth : Nat} {rest : List Char}

/-- The members of an object, up to and with the closing brace. -/
theorem members?_eq (hl : l.IsBlank) (hdepth : levels ≤ depth) {ms : List (String × Json)}
    {calls : Nat} {key : String} {v : Json}
    (h : ∀ m ∈ (key, v) :: ms, Reads levels (l.text m.2) m.2)
    (hcalls : 2 * (quoted key ++ l.text v ++ l.members ms).length + 1 ≤ calls) :
    members? calls depth (l.beforeName ++ (quoted key ++ ':' :: (l.beforeValue ++ (l.text v ++
      (l.members ms ++ (l.beforeEnd ++ '\x7d' :: rest)))))) = some ((key, v) :: ms, rest) := by
  have hlast : IsDelimited (l.beforeEnd ++ '\x7d' :: rest) :=
    (isDelimited_of_mark (.inr rfl) rest).append_gap hl.beforeEnd
  induction ms generalizing calls key v with
  | nil =>
    have hv : Reads levels (l.text v) v := h (key, v) (by simp)
    simp only [List.length_append] at hcalls
    obtain ⟨calls, rfl⟩ : ∃ n, calls = n + 1 := ⟨calls - 1, by omega⟩
    have hread := hv calls depth _ (by omega) hdepth hlast
    rw [members, List.nil_append]
    refine members?_last hl.beforeName hl.beforeValue hread ?_
    rw [skipBlanks_append hl.beforeEnd, skipBlanks_mark (by decide)]
  | cons m ms ih =>
    obtain ⟨key', v'⟩ := m
    have hv : Reads levels (l.text v) v := h (key, v) (by simp)
    have hmore : l.members ((key', v') :: ms) ++ (l.beforeEnd ++ '\x7d' :: rest) =
        ',' :: (l.beforeName ++ (quoted key' ++ ':' :: (l.beforeValue ++ (l.text v' ++
          (l.members ms ++ (l.beforeEnd ++ '\x7d' :: rest)))))) := by
      simp [members]
    simp only [members, List.length_append, List.length_cons] at hcalls
    obtain ⟨calls, rfl⟩ : ∃ n, calls = n + 1 := ⟨calls - 1, by omega⟩
    have hrest : members? calls depth _ = some ((key', v') :: ms, rest) :=
      ih (fun m hm => h m (List.mem_cons_of_mem _ hm)) (by simp only [List.length_append]; omega)
    rw [hmore]
    refine members?_cons hl.beforeName hl.beforeValue ?_ (skipBlanks_mark (by decide) _) hrest
    exact hv calls depth _ (by omega) hdepth (isDelimited_of_mark (.inl rfl) _)

/-- An object is read if each of its members is, with one more level to nest in. -/
theorem reads_object (hl : l.IsBlank) {ms : List (String × Json)}
    (h : ∀ m ∈ ms, Reads levels (l.text m.2) m.2) :
    Reads (levels + 1) (l.object ms) (.object ms) := by
  intro calls depth rest hcalls hdepth _
  obtain ⟨depth, rfl⟩ : ∃ n, depth = n + 1 := ⟨depth - 1, by omega⟩
  cases ms with
  | nil =>
    simp only [object, List.length_cons, List.length_nil] at hcalls
    obtain ⟨calls, rfl⟩ : ∃ n, calls = n + 1 := ⟨calls - 1, by omega⟩
    simp [value?, object, skipBlanks]
  | cons m ms =>
    obtain ⟨key, v⟩ := m
    simp only [object, List.length_append, List.length_cons] at hcalls
    obtain ⟨calls, rfl⟩ : ∃ n, calls = n + 1 := ⟨calls - 1, by omega⟩
    have hmembers : members? calls depth _ = some ((key, v) :: ms, rest) :=
      l.members?_eq hl (show levels ≤ depth by omega) h
        (by simp only [List.length_append]; omega)
    have htext : l.object ((key, v) :: ms) ++ rest =
        '\x7b' :: (l.beforeName ++ (quoted key ++ ':' :: (l.beforeValue ++ (l.text v ++
          (l.members ms ++ (l.beforeEnd ++ '\x7d' :: rest)))))) := by
      simp [object]
    rw [htext]
    exact value?_of_members hl.beforeName hmembers

end Layout

theorem reads_object {levels level : Nat} {ms : List (String × Json)}
    (h : ∀ m ∈ ms, Reads levels (pretty (level + 1) m.2) m.2) :
    Reads (levels + 1) (pretty level (.object ms)) (.object ms) := by
  rw [Layout.pretty_object]
  exact Layout.reads_object (Layout.isBlank_lines level) h

theorem reads_compactObject {levels : Nat} {ms : List (String × Json)}
    (h : ∀ m ∈ ms, Reads levels (compact m.2) m.2) :
    Reads (levels + 1) (compact (.object ms)) (.object ms) := by
  rw [Layout.compact_object]
  exact Layout.reads_object Layout.isBlank_tight h

/-- A text that is read with few enough levels is read as a whole. -/
theorem read?_of_reads {levels : Nat} {text : List Char} {v : Json} (h : Reads levels text v)
    (hlevels : levels ≤ maxDepth) : read? (String.ofList text) = some v := by
  have hend : IsDelimited [] := by simp [IsDelimited]
  have hread := h (2 * text.length + 2) maxDepth [] (by omega) hlevels hend
  rw [List.append_nil] at hread
  simp [read?, hread, skipBlanks]

end Transcode.Json
