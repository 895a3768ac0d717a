import Mathlib.Data.List.DropRight
import Transcode.Text.Blank
import Transcode.Text.Case

/-! # Trimmed texts

A trimmed text neither starts nor ends with a blank character, so trimming it again changes nothing.
Blanks around a text are lost, and the case of letters does not matter. -/

namespace Transcode.Text

theorem trimChars_eq_rdropWhile (cs : List Char) :
    trimChars cs = (cs.dropWhile isBlank).rdropWhile isBlank :=
  rfl

/-- Dropping blanks at the end leaves the first character where it is. -/
theorem dropWhile_rdropWhile_dropWhile (cs : List Char) :
    ((cs.dropWhile isBlank).rdropWhile isBlank).dropWhile isBlank =
      (cs.dropWhile isBlank).rdropWhile isBlank := by
  rw [List.dropWhile_eq_self_iff]
  intro hpos
  have hprefix : (cs.dropWhile isBlank).rdropWhile isBlank <+: cs.dropWhile isBlank :=
    List.rdropWhile_prefix isBlank _
  have hlen : 0 < (cs.dropWhile isBlank).length := Nat.lt_of_lt_of_le hpos hprefix.length_le
  have hhead : ((cs.dropWhile isBlank).rdropWhile isBlank)[0] = (cs.dropWhile isBlank)[0] :=
    hprefix.getElem hpos
  rw [hhead]
  exact List.dropWhile_eq_self_iff.mp (List.dropWhile_idempotent isBlank cs) hlen

@[simp] theorem trimChars_trimChars (cs : List Char) : trimChars (trimChars cs) = trimChars cs := by
  rw [trimChars_eq_rdropWhile (trimChars cs), trimChars_eq_rdropWhile cs,
    dropWhile_rdropWhile_dropWhile, List.rdropWhile_idempotent]

@[simp] theorem trim_trim (s : String) : trim (trim s) = trim s := by
  simp [trim]

theorem isBlankLine_iff {s : String} : isBlankLine s = true ↔ trim s = "" := by
  rw [isBlankLine, ← trimChars_eq_nil_iff, ← String.toList_inj, trim, String.toList_ofList,
    String.toList_empty]

/-- A text with no blanks at its ends is trimmed. -/
theorem trimChars_eq_self_of_ends {cs : List Char} (hhead : ∀ c ∈ cs.head?, isBlank c = false)
    (hlast : ∀ c ∈ cs.getLast?, isBlank c = false) : trimChars cs = cs := by
  have hfirst : cs.dropWhile isBlank = cs := by
    apply List.dropWhile_eq_self_iff.mpr
    intro hpos
    simp [hhead cs[0] (by simp [List.head?_eq_getElem?])]
  rw [trimChars_eq_rdropWhile, hfirst, List.rdropWhile_eq_self_iff]
  intro hne
  simp [hlast _ (List.getLast_mem_getLast? hne)]

theorem trimChars_eq_self {cs : List Char} (h : ∀ c ∈ cs, isBlank c = false) :
    trimChars cs = cs :=
  trimChars_eq_self_of_ends (fun c hc => h c (List.mem_of_mem_head? hc))
    fun c hc => h c (List.mem_of_getLast? hc)

theorem trim_eq_self {s : String} (h : ∀ c ∈ s.toList, isBlank c = false) : trim s = s := by
  rw [trim, trimChars_eq_self h, String.ofList_toList]

theorem trimChars_append {before after : List Char} (hbefore : before.all isBlank = true)
    (hafter : after.all isBlank = true) (cs : List Char) :
    trimChars (before ++ cs ++ after) = trimChars cs := by
  have hfirst : (before ++ cs ++ after).dropWhile isBlank = (cs ++ after).dropWhile isBlank := by
    rw [List.append_assoc, List.dropWhile_append_of_pos (List.all_eq_true.mp hbefore)]
  have hlast (l : List Char) : (l ++ after).rdropWhile isBlank = l.rdropWhile isBlank := by
    rw [List.rdropWhile, List.reverse_append, List.dropWhile_append_of_pos]
    · rfl
    · simpa using hafter
  rw [trimChars_eq_rdropWhile, hfirst, trimChars_eq_rdropWhile, List.dropWhile_append]
  split
  · rename_i hnone
    rw [dropWhile_eq_nil_iff_all.mpr hafter, List.isEmpty_iff.mp hnone]
  · exact hlast _

/-- What trimming takes away are blanks on both sides. -/
theorem exists_eq_append_trimChars (cs : List Char) : ∃ before after : List Char,
    before.all isBlank = true ∧ after.all isBlank = true ∧
      cs = before ++ trimChars cs ++ after := by
  have hblank (l : List Char) : (l.takeWhile isBlank).all isBlank = true :=
    List.all_eq_true.mpr fun c hc => List.mem_takeWhile_imp hc
  refine ⟨cs.takeWhile isBlank, ((cs.dropWhile isBlank).reverse.takeWhile isBlank).reverse,
    hblank cs, by rw [List.all_reverse]; exact hblank _, ?_⟩
  rw [trimChars, List.append_assoc, ← List.reverse_append, List.takeWhile_append_dropWhile,
    List.reverse_reverse, List.takeWhile_append_dropWhile]

theorem trimChars_sublist (cs : List Char) : (trimChars cs).Sublist cs :=
  (List.rdropWhile_prefix isBlank _).sublist.trans (List.dropWhile_sublist isBlank)

/-- Trimming takes away nothing but blanks. -/
theorem mem_trimChars {c : Char} (hc : isBlank c = false) {cs : List Char} (h : c ∈ cs) :
    c ∈ trimChars cs := by
  have hdrop {l : List Char} (hl : c ∈ l) : c ∈ l.dropWhile isBlank := by
    rw [← List.takeWhile_append_dropWhile (p := isBlank) (l := l), List.mem_append] at hl
    refine hl.resolve_left fun htake => ?_
    rw [List.mem_takeWhile_imp htake] at hc
    cases hc
  rw [trimChars, List.mem_reverse]
  exact hdrop (List.mem_reverse.mpr (hdrop h))

/-! ## Letter case -/

theorem isBlank_of_letter {c : Char} (hmin : 65 ≤ c.toNat) (hmax : c.toNat ≤ 122) :
    isBlank c = false := by
  simp only [isBlank, Bool.or_eq_false_iff, Bool.and_eq_false_iff, decide_eq_false_iff_not,
    beq_eq_false_iff_ne]
  omega

theorem isBlank_toLower (c : Char) : isBlank c.toLower = isBlank c := by
  delta Char.toLower
  split
  · rename_i h
    obtain ⟨hmin, hmax⟩ : 65 ≤ c.toNat ∧ c.toNat ≤ 90 := h
    have hsmall : (c.val + ('a'.val - 'A'.val)).toNat = c.toNat + 32 := by
      rw [UInt32.toNat_add, Nat.mod_eq_of_lt]
      · rfl
      · change c.toNat + 32 < 2 ^ 32
        omega
    rw [isBlank_of_letter hmin (by omega), isBlank_of_letter]
    all_goals
      rw [Char.toNat, hsmall]
      omega
  · rfl

theorem foldCase_trim (s : String) : foldCase (trim s) = trimChars (foldCase s) := by
  have hblank : isBlank ∘ Char.toLower = isBlank := funext isBlank_toLower
  rw [foldCase, trim, String.toList_ofList, foldCase, trimChars, trimChars, List.dropWhile_map,
    hblank, ← List.map_reverse, List.dropWhile_map, hblank, List.map_reverse]

/-- A text that is not trimmed is none that trimming leaves, whatever the case of its letters. -/
theorem foldCase_trim_eq_iff (s : String) : foldCase (trim s) = foldCase s ↔ trim s = s := by
  refine ⟨fun h => ?_, fun h => by rw [h]⟩
  have hlength : (trimChars s.toList).length = s.toList.length := by
    simpa [foldCase, trim] using congrArg List.length h
  rw [trim, (trimChars_sublist _).eq_of_length hlength, String.ofList_toList]

end Transcode.Text
