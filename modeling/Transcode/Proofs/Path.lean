import Mathlib.Data.List.TakeWhile
import Transcode.Path.Basic

/-! # Steps of paths -/

namespace Transcode

open Text (Bytes)

theorem Text.split_append_cons {α : Type} [DecidableEq α] (separator : α) (as bs : List α) :
    split separator (as ++ separator :: bs) = split separator as ++ split separator bs := by
  induction as with
  | nil =>
    obtain ⟨part, parts, h⟩ := List.exists_cons_of_ne_nil (split_ne_nil separator bs)
    simp [split, h]
  | cons a as ih =>
    obtain ⟨part, parts, h⟩ := List.exists_cons_of_ne_nil (split_ne_nil separator as)
    rw [List.cons_append, split, split, ih, h]
    by_cases ha : a = separator <;> simp [ha]

theorem Text.split_of_notMem {α : Type} [DecidableEq α] {separator : α} {as : List α}
    (h : separator ∉ as) : split separator as = [as] := by
  induction as with
  | nil => rfl
  | cons a as ih =>
    rw [List.mem_cons, not_or] at h
    rw [split, ih h.2]
    simp [Ne.symm h.1]

/-- What stands before the first separator belongs to the first part. -/
theorem Text.split_append_of_notMem {α : Type} [DecidableEq α] {separator : α} {as bs : List α}
    {part : List α} {parts : List (List α)} (has : separator ∉ as)
    (hbs : split separator bs = part :: parts) :
    split separator (as ++ bs) = (as ++ part) :: parts := by
  induction as with
  | nil => exact hbs
  | cons a as ih =>
    rw [List.mem_cons, not_or] at has
    rw [List.cons_append, split, ih has.2]
    simp [Ne.symm has.1]

theorem Text.notMem_of_mem_split {α : Type} [DecidableEq α] {separator : α} {as part : List α}
    (h : part ∈ split separator as) : separator ∉ part := by
  induction as generalizing part with
  | nil =>
    obtain rfl := List.mem_singleton.mp h
    exact List.not_mem_nil
  | cons a as ih =>
    obtain ⟨first, parts, hsplit⟩ := List.exists_cons_of_ne_nil (split_ne_nil separator as)
    rw [hsplit] at ih
    rw [split, hsplit] at h
    by_cases ha : a = separator
    · simp only [ha, if_true] at h
      rcases List.mem_cons.mp h with rfl | h
      · exact List.not_mem_nil
      · exact ih h
    · simp only [ha, if_false] at h
      rcases List.mem_cons.mp h with rfl | h
      · rw [List.mem_cons, not_or]
        exact ⟨Ne.symm ha, ih (by simp)⟩
      · exact ih (List.mem_cons_of_mem _ h)

namespace Path

theorem splitSlashes_append_cons (before after : Bytes) :
    splitSlashes (before ++ slash :: after) = splitSlashes before ++ splitSlashes after :=
  Text.split_append_cons slash before after

theorem splitSlashes_of_notMem {name : Bytes} (h : slash ∉ name) : splitSlashes name = [name] :=
  Text.split_of_notMem h

/-- Slashes at the end are empty steps. -/
theorem splitSlashes_append_replicate (bytes : Bytes) (n : Nat) :
    splitSlashes (bytes ++ List.replicate n slash) =
      splitSlashes bytes ++ List.replicate n [] := by
  induction n generalizing bytes with
  | zero => simp
  | succ n ih =>
    have hslash : splitSlashes (bytes ++ [slash]) = splitSlashes bytes ++ [[]] :=
      splitSlashes_append_cons bytes []
    rw [List.replicate_succ, ← List.singleton_append, ← List.append_assoc, ih, hslash,
      List.append_assoc]
    rfl

theorem isAbsolute_eq_of_append_eq {p q : Path} {more : Bytes} (hq : q.bytes ≠ [])
    (h : q.bytes ++ more = p.bytes) : q.isAbsolute = p.isAbsolute := by
  obtain ⟨b, bytes, hb⟩ := List.exists_cons_of_ne_nil hq
  simp [isAbsolute, ← h, hb]

theorem exists_append_replicate (bytes : Bytes) :
    ∃ n, (bytes.reverse.dropWhile (· == slash)).reverse ++ List.replicate n slash = bytes := by
  refine ⟨(bytes.reverse.takeWhile (· == slash)).length, ?_⟩
  have hall : ∀ b ∈ bytes.reverse.takeWhile (· == slash), b = slash := by
    intro b hb
    simpa using List.all_eq_true.mp List.all_takeWhile b hb
  rw [← List.reverse_replicate, ← List.eq_replicate_of_mem hall, ← List.reverse_append,
    List.takeWhile_append_dropWhile, List.reverse_reverse]

/-- A name below a directory follows a slash, be it the directory's own or a new one. -/
theorem exists_bytes_join {dir : Path} {name : Bytes} (hdir : dir.bytes ≠ [])
    (hname : slash ∉ name) : ∃ bytes, (dir.join ⟨name⟩).bytes = bytes ++ slash :: name ∧
      (dir.bytes = bytes ∨ dir.bytes = bytes ++ [slash]) := by
  have hrelative : isAbsolute ⟨name⟩ = false := by
    cases name with
    | nil => rfl
    | cons b name =>
      have hb : b ≠ slash := fun h => hname (by simp [h])
      simp [isAbsolute, hb]
  by_cases hlast : dir.bytes.getLast? = some slash
  · obtain ⟨bytes, hbytes⟩ := List.getLast?_eq_some_iff.mp hlast
    refine ⟨bytes, ?_, .inr hbytes⟩
    simp [join, hrelative, hbytes]
  · refine ⟨dir.bytes, ?_, .inl rfl⟩
    simp [join, hrelative, hdir, hlast]

theorem exists_append_eq_join {dir : Path} {name : Bytes} (hdir : dir.bytes ≠ [])
    (hname : slash ∉ name) : ∃ more, dir.bytes ++ more = (dir.join ⟨name⟩).bytes := by
  obtain ⟨bytes, hjoin, hbytes | hbytes⟩ := exists_bytes_join hdir hname
  · exact ⟨slash :: name, by rw [hjoin, hbytes]⟩
  · exact ⟨name, by rw [hjoin, hbytes, List.append_assoc, List.singleton_append]⟩

/-! ## Components -/

/-- The components that parts between slashes stand for. -/
def stepsOf (parts : List Bytes) : List Component :=
  (parts.filter fun part => !isIdle part).map Component.ofPart

theorem stepsOf_append (parts others : List Bytes) :
    stepsOf (parts ++ others) = stepsOf parts ++ stepsOf others := by
  simp [stepsOf]

theorem stepsOf_cons {part : Bytes} (h : isIdle part = false) (parts : List Bytes) :
    stepsOf (part :: parts) = .ofPart part :: stepsOf parts := by
  simp [stepsOf, h]

/-- The components after a slash are those of the parts after it. -/
theorem exists_components_append_cons (before : Bytes) : ∃ lead : List Component, ∀ name : Bytes,
    components ⟨before ++ slash :: name⟩ = lead ++ stepsOf (splitSlashes name) := by
  cases before with
  | nil => exact ⟨[.root], fun name => by simp [components, parts, names, stepsOf]⟩
  | cons b before =>
    by_cases hb : b = slash
    · refine ⟨.root :: stepsOf (splitSlashes before), fun name => ?_⟩
      simp [components, parts, names, hb, splitSlashes_append_cons, stepsOf]
    -- The lead is decided by the first part, which lies before the slash.
    · obtain ⟨part, rest, hsplit⟩ :=
        List.exists_cons_of_ne_nil (Text.split_ne_nil slash (b :: before))
      have hsplit (name : Bytes) : splitSlashes (b :: (before ++ slash :: name)) =
          part :: (rest ++ splitSlashes name) := by
        rw [← List.cons_append, splitSlashes_append_cons, splitSlashes, hsplit, List.cons_append]
      by_cases hpart : part = [dot]
      · refine ⟨.current :: stepsOf rest, fun name => ?_⟩
        simp [components, parts, names, hb, hsplit, hpart, stepsOf]
      · refine ⟨stepsOf (part :: rest), fun name => ?_⟩
        simp only [components, parts, names, List.cons_append, hb, hsplit, hpart, if_false]
        exact stepsOf_append (part :: rest) _

/-- A name that starts with a proper part is relative. -/
theorem exists_cons_of_splitSlashes {name part : Bytes} {rest : List Bytes}
    (hsplit : splitSlashes name = part :: rest) (hpart : isIdle part = false) :
    ∃ b bytes, name = b :: bytes ∧ b ≠ slash := by
  cases name with
  | nil =>
    obtain ⟨rfl, -⟩ := List.cons.inj hsplit
    cases hpart
  | cons b bytes =>
    refine ⟨b, bytes, rfl, ?_⟩
    rintro rfl
    have hslash : splitSlashes (slash :: bytes) = [] :: splitSlashes bytes :=
      splitSlashes_append_cons [] bytes
    rw [hslash] at hsplit
    obtain ⟨rfl, -⟩ := List.cons.inj hsplit
    cases hpart

theorem components_of_splitSlashes {name part : Bytes} {rest : List Bytes}
    (hsplit : splitSlashes name = part :: rest) (hpart : isIdle part = false) :
    components ⟨name⟩ = stepsOf (part :: rest) := by
  obtain ⟨b, bytes, rfl, hb⟩ := exists_cons_of_splitSlashes hsplit hpart
  have hdot : part ≠ [dot] := by
    rintro rfl
    cases hpart
  simp [components, parts, names, hb, hsplit, hdot, stepsOf]

/-- A name that starts with a proper part is found below a directory as it is. -/
theorem exists_components_join (dir : Path) : ∃ lead : List Component,
    ∀ (name part : Bytes) (rest : List Bytes), splitSlashes name = part :: rest →
      isIdle part = false →
      (dir.join ⟨name⟩).components = lead ++ .ofPart part :: stepsOf rest := by
  have hrelative {name part : Bytes} {rest : List Bytes}
      (hsplit : splitSlashes name = part :: rest) (hpart : isIdle part = false) :
      isAbsolute ⟨name⟩ = false := by
    obtain ⟨b, bytes, rfl, hb⟩ := exists_cons_of_splitSlashes hsplit hpart
    simp [isAbsolute, hb]
  by_cases hempty : dir.bytes = []
  · refine ⟨[], fun name part rest hsplit hpart => ?_⟩
    rw [List.nil_append, ← stepsOf_cons hpart, ← components_of_splitSlashes hsplit hpart]
    simp [join, hrelative hsplit hpart, hempty]
  by_cases hlast : dir.bytes.getLast? = some slash
  · obtain ⟨before, hbefore⟩ := List.getLast?_eq_some_iff.mp hlast
    obtain ⟨lead, hlead⟩ := exists_components_append_cons before
    refine ⟨lead, fun name part rest hsplit hpart => ?_⟩
    rw [← stepsOf_cons hpart, ← hsplit, ← hlead]
    simp [join, hrelative hsplit hpart, hbefore]
  · obtain ⟨lead, hlead⟩ := exists_components_append_cons dir.bytes
    refine ⟨lead, fun name part rest hsplit hpart => ?_⟩
    rw [← stepsOf_cons hpart, ← hsplit, ← hlead]
    simp [join, hrelative hsplit hpart, hempty, hlast]

/-- A slash at the end of a directory changes nothing about its components. -/
theorem components_append_slash {bytes : Bytes} (h : bytes ≠ []) :
    components ⟨bytes ++ [slash]⟩ = components ⟨bytes⟩ := by
  obtain ⟨b, rest, rfl⟩ := List.exists_cons_of_ne_nil h
  have hsplit (before : Bytes) : splitSlashes (before ++ [slash]) = splitSlashes before ++ [[]] :=
    splitSlashes_append_cons before []
  have hidle : isIdle [] = true := rfl
  by_cases hb : b = slash
  · simp [components, parts, names, hb, hsplit, hidle]
  · obtain ⟨part, parts', hparts⟩ :=
      List.exists_cons_of_ne_nil (Text.split_ne_nil slash (b :: rest))
    have hafter : splitSlashes (b :: (rest ++ [slash])) = part :: (parts' ++ [[]]) := by
      rw [← List.cons_append, hsplit, splitSlashes, hparts, List.cons_append]
    have hbefore : splitSlashes (b :: rest) = part :: parts' := hparts
    by_cases hpart : part = [dot]
    · simp [components, parts, names, hb, hbefore, hafter, hpart, hidle]
    · simp only [components, parts, names, List.cons_append, hb, hbefore, hafter, hpart, if_false]
      exact (stepsOf_append (part :: parts') [[]]).trans (List.append_nil _)

/-- A name below a directory is its last component. -/
theorem components_join_of_name {name : Bytes} (hslash : slash ∉ name)
    (hidle : isIdle name = false) (dir : Path) :
    (dir.join ⟨name⟩).components = dir.components ++ [.ofPart name] := by
  have hsteps : stepsOf (splitSlashes name) = [.ofPart name] := by
    rw [splitSlashes_of_notMem hslash, stepsOf_cons hidle]
    rfl
  have hnil : stepsOf (splitSlashes []) = [] := rfl
  obtain ⟨b, bytes, rfl, hb⟩ := exists_cons_of_splitSlashes (splitSlashes_of_notMem hslash) hidle
  have hrelative : isAbsolute ⟨b :: bytes⟩ = false := by
    simp [isAbsolute, hb]
  by_cases hempty : dir.bytes = []
  · have hdir : dir.components = [] := by
      simp [components, parts, names, hempty]
    rw [hdir, List.nil_append, ← hsteps, splitSlashes_of_notMem hslash,
      ← components_of_splitSlashes (splitSlashes_of_notMem hslash) hidle]
    simp [join, hrelative, hempty]
  obtain ⟨before, hjoin, hdir⟩ := exists_bytes_join hempty hslash
  obtain ⟨lead, hlead⟩ := exists_components_append_cons before
  have hfull : (dir.join ⟨b :: bytes⟩).components = lead ++ [.ofPart (b :: bytes)] := by
    rw [← hsteps, ← hlead, ← hjoin]
  have hself : dir.components = lead := by
    rw [← List.append_nil lead, ← hnil, ← hlead]
    rcases hdir with hdir | hdir
    · rw [← hdir, components_append_slash hempty]
    · rw [← hdir]
  rw [hfull, hself]

theorem slash_notMem_of_mem_parts {p : Path} {part : Bytes} (h : part ∈ p.parts.2) :
    slash ∉ part := by
  rw [parts] at h
  split at h
  · cases h
  split at h
  · exact Text.notMem_of_mem_split h
  · split at h
    · rename_i first rest hsplit
      have hmem : part ∈ first :: rest := by
        split at h
        · exact List.mem_cons_of_mem _ h
        · exact h
      rw [← hsplit] at hmem
      exact Text.notMem_of_mem_split hmem
    · cases h

theorem fileName?_of_components {p : Path} {lead : List Component} {name : Bytes}
    (h : p.components = lead ++ [.name name]) : p.fileName? = some name := by
  simp [fileName?, h]

theorem slash_notMem_of_fileName? {p : Path} {name : Bytes} (h : p.fileName? = some name) :
    slash ∉ name := by
  have hlast : p.components.getLast? = some (.name name) := by
    rw [fileName?] at h
    split at h
    · rename_i hlast
      rw [hlast, Option.some.inj h]
    · cases h
  have hnames : .name name ∈ p.names := by
    have hmem := List.mem_of_getLast? hlast
    rw [components] at hmem
    split at hmem
    · exact hmem
    · exact (List.mem_cons.mp hmem).resolve_left (by simp)
    · exact (List.mem_cons.mp hmem).resolve_left (by simp)
  obtain ⟨part, hpart, hname⟩ := List.mem_map.mp hnames
  have hsame : part = name := by
    rw [Component.ofPart] at hname
    split at hname
    · cases hname
    · exact Component.name.inj hname
  subst hsame
  exact slash_notMem_of_mem_parts (List.mem_filter.mp hpart).1

/-! ## Extensions -/

/-- A name with a dot has a last one. -/
theorem exists_last_dot {name : Bytes} (h : dot ∈ name) :
    ∃ before after, name = before ++ dot :: after ∧ dot ∉ after := by
  obtain ⟨after, before, hname, hafter⟩ := List.eq_append_cons_of_mem (List.mem_reverse.mpr h)
  refine ⟨before.reverse, after.reverse, ?_, by simpa using hafter⟩
  rw [← List.reverse_reverse name, hname]
  simp

theorem bne_dot_of_notMem {name : Bytes} (h : dot ∉ name) :
    ∀ b ∈ name.reverse, (b != dot) = true := by
  intro b hb
  rw [bne_iff_ne]
  rintro rfl
  exact h (List.mem_reverse.mp hb)

theorem splitExtension_of_notMem {name : Bytes} (h : dot ∉ name) :
    splitExtension name = (name, none) := by
  have hall : name.reverse.takeWhile (· != dot) = name.reverse :=
    List.takeWhile_eq_self_iff.mpr (bne_dot_of_notMem h)
  simp [splitExtension, hall]

/-- What follows the last dot is the extension, unless nothing stands before that dot. -/
theorem splitExtension_append_cons {before after : Bytes} (h : dot ∉ after) :
    splitExtension (before ++ dot :: after) =
      if before = [] then (dot :: after, none) else (before, some after) := by
  have hafter : ((before ++ dot :: after).reverse.takeWhile (· != dot)).reverse = after := by
    rw [List.reverse_append, List.reverse_cons, List.append_assoc,
      List.takeWhile_append_of_pos (bne_dot_of_notMem h)]
    simp
  have hlength : (before ++ dot :: after).length - after.length - 1 = before.length := by
    rw [List.length_append, List.length_cons]
    omega
  have hshorter : after.length ≠ (before ++ dot :: after).length := by
    rw [List.length_append, List.length_cons]
    omega
  simp only [splitExtension, hafter, hlength, List.take_left, hshorter, decide_false,
    Bool.false_or, List.isEmpty_iff]
  split
  · rename_i hempty
    rw [hempty, List.nil_append]
  · rfl

theorem splitExtension_eq_some_iff {name after : Bytes} :
    (splitExtension name).2 = some after ↔
      ∃ before, before ≠ [] ∧ name = before ++ dot :: after ∧ dot ∉ after := by
  constructor
  · intro h
    by_cases hdot : dot ∈ name
    · obtain ⟨before, rest, rfl, hrest⟩ := exists_last_dot hdot
      rw [splitExtension_append_cons hrest] at h
      split at h
      · cases h
      · rename_i hbefore
        obtain rfl := Option.some.inj h
        exact ⟨before, hbefore, rfl, hrest⟩
    · rw [splitExtension_of_notMem hdot] at h
      cases h
  · rintro ⟨before, hbefore, rfl, hafter⟩
    rw [splitExtension_append_cons hafter, if_neg hbefore]

/-- The stem is the whole file name, or what stands before one of its dots. -/
theorem splitExtension_cases (name : Bytes) :
    (splitExtension name).1 = name ∨
      ∃ after, name = (splitExtension name).1 ++ dot :: after := by
  by_cases hdot : dot ∈ name
  · obtain ⟨before, after, rfl, hafter⟩ := exists_last_dot hdot
    rw [splitExtension_append_cons hafter]
    split
    · rename_i hbefore
      exact .inl (by rw [hbefore, List.nil_append])
    · exact .inr ⟨after, rfl⟩
  · exact .inl (by rw [splitExtension_of_notMem hdot])

theorem slash_notMem_of_stem? {p : Path} {stem : Bytes} (h : p.stem? = some stem) :
    slash ∉ stem := by
  obtain ⟨name, hname, rfl⟩ := Option.map_eq_some_iff.mp h
  have hslash := slash_notMem_of_fileName? hname
  rw [splitExtension]
  split
  · exact hslash
  · exact fun hmem => hslash (List.mem_of_mem_take hmem)

end Path

end Transcode
