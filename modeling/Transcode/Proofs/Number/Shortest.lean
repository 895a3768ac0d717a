import Transcode.Number.Shortest

/-! # What a number is written with -/

namespace Transcode.Number.Binary64

theorem mem_of_mem_dropZeros {digits : List Char} {exponent : Int} {c : Char}
    (h : c ∈ (dropZeros digits exponent).1) : c ∈ digits := by
  rw [dropZeros, List.mem_reverse] at h
  exact List.mem_reverse.mp ((List.dropWhile_sublist _).subset h)

theorem mem_positional {digits : List Char} {exponent : Int} {c : Char}
    (h : c ∈ positional digits exponent) : c = '.' ∨ c = '0' ∨ c ∈ digits := by
  rw [positional] at h
  split at h
  · rcases List.mem_append.mp h with h | h
    · exact .inr (.inr h)
    · exact .inr (.inl (List.eq_of_mem_replicate h))
  dsimp only at h
  split at h
  · rcases List.mem_append.mp h with h | h
    · exact .inr (.inr (List.mem_of_mem_take h))
    rcases List.mem_cons.mp h with h | h
    · exact .inl h
    · exact .inr (.inr (List.mem_of_mem_drop h))
  · rcases List.mem_cons.mp h with h | h
    · exact .inr (.inl h)
    rcases List.mem_cons.mp h with h | h
    · exact .inl h
    rcases List.mem_append.mp h with h | h
    · exact .inr (.inl (List.eq_of_mem_replicate h))
    · exact .inr (.inr h)

/-- Numbers are written with digits, points and minus signs. -/
theorem mem_chars {x : Binary64} {c : Char} (h : c ∈ x.chars) :
    c = '-' ∨ c = '.' ∨ isDigit c = true := by
  have hbody : c ∈ (if x.units = 0 then ['0'] else
      positional (dropZeros (decimal (shortest x.units).1) (shortest x.units).2).1
        (dropZeros (decimal (shortest x.units).1) (shortest x.units).2).2) →
      c = '.' ∨ isDigit c = true := by
    intro h
    split at h
    · obtain rfl := List.mem_singleton.mp h
      exact .inr (by decide)
    · rcases mem_positional h with h | rfl | h
      · exact .inl h
      · exact .inr (by decide)
      · exact .inr (List.all_eq_true.mp (all_isDigit_decimal _) c (mem_of_mem_dropZeros h))
  rw [chars] at h
  split at h
  · rcases List.mem_cons.mp h with h | h
    · exact .inl h
    · exact .inr (hbody h)
  · exact .inr (hbody h)

end Transcode.Number.Binary64
