import Transcode.Proofs.Text.Utf8

/-! # Well-formed bytes

Bytes in which decoding leaves no gap are the encoding of a text, so a text is read from its own
encoding and from nothing else. -/

namespace Transcode.Text.Utf8

/-- The bytes between the first and the last of the ones that go on with a character. -/
def IsContinuation (b : UInt8) : Prop :=
  0x80 ≤ b.toNat ∧ b.toNat ≤ 0xBF

theorem ofNat_eq_of_toNat {b : UInt8} {n : Nat} (h : n = b.toNat) : UInt8.ofNat n = b := by
  rw [h, UInt8.ofNat_toNat]

theorem encodeChar_two {b₁ b₂ : UInt8} (h₁ : 0xC2 ≤ b₁.toNat ∧ b₁.toNat ≤ 0xDF)
    (h₂ : IsContinuation b₂) : ∃ c, encodeChar c = [b₁, b₂] := by
  rw [IsContinuation] at h₂
  obtain ⟨n, hn⟩ : ∃ n, n = (b₁.toNat - 0xC0) * 0x40 + (b₂.toNat - 0x80) := ⟨_, rfl⟩
  have hchar : (Char.ofNat n).toNat = n := toNat_ofNat_of_isValidChar (.inl (by omega))
  refine ⟨Char.ofNat n, ?_⟩
  simp only [encodeChar, hchar]
  rw [if_neg (by omega), if_pos (by omega)]
  simp only [List.cons.injEq, and_true]
  exact ⟨ofNat_eq_of_toNat (by omega), ofNat_eq_of_toNat (by omega)⟩

theorem encodeChar_three {b₁ b₂ b₃ : UInt8} (h₁ : 0xE0 ≤ b₁.toNat ∧ b₁.toNat ≤ 0xEF)
    (h₂ : IsContinuation b₂) (hlow : b₁.toNat = 0xE0 → 0xA0 ≤ b₂.toNat)
    (hhigh : b₁.toNat = 0xED → b₂.toNat ≤ 0x9F) (h₃ : IsContinuation b₃) :
    ∃ c, encodeChar c = [b₁, b₂, b₃] := by
  rw [IsContinuation] at h₂ h₃
  obtain ⟨n, hn⟩ : ∃ n, n = ((b₁.toNat - 0xE0) * 0x40 + (b₂.toNat - 0x80)) * 0x40 +
      (b₃.toNat - 0x80) := ⟨_, rfl⟩
  have hvalid : n < 0xD800 ∨ 0xDFFF < n ∧ n < 0x110000 := by omega
  have hchar : (Char.ofNat n).toNat = n := toNat_ofNat_of_isValidChar hvalid
  refine ⟨Char.ofNat n, ?_⟩
  simp only [encodeChar, hchar]
  rw [if_neg (by omega), if_neg (by omega), if_pos (by omega)]
  simp only [List.cons.injEq, and_true]
  exact ⟨ofNat_eq_of_toNat (by omega), ofNat_eq_of_toNat (by omega),
    ofNat_eq_of_toNat (by omega)⟩

theorem encodeChar_four {b₁ b₂ b₃ b₄ : UInt8} (h₁ : 0xF0 ≤ b₁.toNat ∧ b₁.toNat ≤ 0xF4)
    (h₂ : IsContinuation b₂) (hlow : b₁.toNat = 0xF0 → 0x90 ≤ b₂.toNat)
    (hhigh : b₁.toNat = 0xF4 → b₂.toNat ≤ 0x8F) (h₃ : IsContinuation b₃)
    (h₄ : IsContinuation b₄) : ∃ c, encodeChar c = [b₁, b₂, b₃, b₄] := by
  rw [IsContinuation] at h₂ h₃ h₄
  obtain ⟨n, hn⟩ : ∃ n, n = (((b₁.toNat - 0xF0) * 0x40 + (b₂.toNat - 0x80)) * 0x40 +
      (b₃.toNat - 0x80)) * 0x40 + (b₄.toNat - 0x80) := ⟨_, rfl⟩
  have hvalid : n < 0xD800 ∨ 0xDFFF < n ∧ n < 0x110000 := by omega
  have hchar : (Char.ofNat n).toNat = n := toNat_ofNat_of_isValidChar hvalid
  refine ⟨Char.ofNat n, ?_⟩
  simp only [encodeChar, hchar]
  rw [if_neg (by omega), if_neg (by omega), if_neg (by omega)]
  simp only [List.cons.injEq, and_true]
  exact ⟨ofNat_eq_of_toNat (by omega), ofNat_eq_of_toNat (by omega),
    ofNat_eq_of_toNat (by omega), ofNat_eq_of_toNat (by omega)⟩

/-- Where nothing is ill formed, a pending character takes the next byte. -/
theorem exists_cons_of_pending {p : Pending} {bytes : Bytes}
    (h : (decodeFrom (some p) bytes).all Option.isSome = true) :
    ∃ b rest, bytes = b :: rest ∧ p.low ≤ b.toNat ∧ b.toNat ≤ p.high ∧
      ∀ k, p.more = k + 1 → ∃ bits,
        (decodeFrom (some ⟨bits, 0x80, 0xBF, k⟩) rest).all Option.isSome = true := by
  cases bytes with
  | nil => cases h
  | cons b rest =>
    by_cases hin : p.low ≤ b.toNat ∧ b.toNat ≤ p.high
    · refine ⟨b, rest, rfl, hin.1, hin.2, fun k hk => ⟨p.bits * 0x40 + (b.toNat - 0x80), ?_⟩⟩
      simpa only [decodeFrom, feed, hin, hk, and_self, if_true, List.nil_append] using h
    · simp [decodeFrom, feed, hin] at h

/-- What a first byte announces: how many bytes follow the second one, and within which bounds that
one is. -/
theorem lead?_cases {b : Nat} {p : Pending} (h : lead? b = some p) :
    0x80 ≤ p.low ∧ p.high ≤ 0xBF ∧
      (p.more = 0 ∧ (0xC2 ≤ b ∧ b ≤ 0xDF) ∨
        p.more = 1 ∧ (0xE0 ≤ b ∧ b ≤ 0xEF) ∧ (b = 0xE0 → 0xA0 ≤ p.low) ∧
          (b = 0xED → p.high ≤ 0x9F) ∨
        p.more = 2 ∧ (0xF0 ≤ b ∧ b ≤ 0xF4) ∧ (b = 0xF0 → 0x90 ≤ p.low) ∧
          (b = 0xF4 → p.high ≤ 0x8F)) := by
  rw [lead?] at h
  repeat' split at h
  all_goals simp only [Option.some.injEq, reduceCtorEq] at h
  all_goals
    subst h
    dsimp only
    omega

/-- Where nothing is ill formed, the first bytes are those of a character. -/
theorem exists_encodeChar_append {b : UInt8} {rest : Bytes}
    (h : (decodeFrom none (b :: rest)).all Option.isSome = true) :
    ∃ c rest', b :: rest = encodeChar c ++ rest' := by
  by_cases hascii : b.toNat < 0x80
  · refine ⟨Char.ofNat b.toNat, rest, ?_⟩
    rw [encodeChar, toNat_ofNat_of_ascii hascii]
    simp only [hascii, if_true, UInt8.ofNat_toNat]
    rfl
  cases hlead : lead? b.toNat with
  | none => simp [decodeFrom, feed, start, hascii, hlead] at h
  | some p =>
    have hpending : (decodeFrom (some p) rest).all Option.isSome = true := by
      simpa [decodeFrom, feed, start, hascii, hlead] using h
    obtain ⟨b₂, rest, rfl, hlow, hhigh, hmore⟩ := exists_cons_of_pending hpending
    obtain ⟨hmin, hmax, hcases⟩ := lead?_cases hlead
    have h₂ : IsContinuation b₂ := ⟨by omega, by omega⟩
    obtain ⟨-, h₁⟩ | ⟨hone, h₁, hfirst, hlast⟩ | ⟨htwo, h₁, hfirst, hlast⟩ := hcases
    · obtain ⟨c, hc⟩ := encodeChar_two h₁ h₂
      exact ⟨c, rest, by rw [hc]; rfl⟩
    · obtain ⟨bits, h₃⟩ := hmore 0 hone
      obtain ⟨b₃, rest, rfl, hlow₃, hhigh₃, -⟩ := exists_cons_of_pending h₃
      obtain ⟨c, hc⟩ := encodeChar_three h₁ h₂ (by omega) (by omega) ⟨hlow₃, hhigh₃⟩
      exact ⟨c, rest, by rw [hc]; rfl⟩
    · obtain ⟨bits, h₃⟩ := hmore 1 htwo
      obtain ⟨b₃, rest, rfl, hlow₃, hhigh₃, hmore₃⟩ := exists_cons_of_pending h₃
      obtain ⟨bits, h₄⟩ := hmore₃ 0 rfl
      obtain ⟨b₄, rest, rfl, hlow₄, hhigh₄, -⟩ := exists_cons_of_pending h₄
      obtain ⟨c, hc⟩ := encodeChar_four h₁ h₂ (by omega) (by omega) ⟨hlow₃, hhigh₃⟩
        ⟨hlow₄, hhigh₄⟩
      exact ⟨c, rest, by rw [hc]; rfl⟩

theorem encodeChar_ne_nil (c : Char) : encodeChar c ≠ [] := by
  rw [encodeChar]
  repeat' split
  all_goals simp

/-- Well-formed bytes are the encoding of a text. -/
theorem exists_encode_eq {bytes : Bytes} (h : (decode bytes).all Option.isSome = true) :
    ∃ s, encode s = bytes := by
  -- A character takes at least one byte, so fewer bytes are left after it.
  induction hlength : bytes.length using Nat.strongRecOn generalizing bytes with
  | ind n ih =>
    cases bytes with
    | nil => exact ⟨"", rfl⟩
    | cons b rest =>
      obtain ⟨c, rest', hbytes⟩ := exists_encodeChar_append h
      have hrest : (decode rest').all Option.isSome = true := by
        rw [decode, hbytes, decodeFrom_encodeChar, List.all_cons, Bool.and_eq_true] at h
        exact h.2
      have hshorter : rest'.length < n := by
        have hpos := List.length_pos_iff.mpr (encodeChar_ne_nil c)
        rw [← hlength, hbytes, List.length_append]
        omega
      obtain ⟨s, rfl⟩ := ih rest'.length hshorter hrest rfl
      refine ⟨String.ofList (c :: s.toList), ?_⟩
      rw [hbytes, encode, String.toList_ofList, List.flatMap_cons, encode]

theorem text?_eq_some_iff {bytes : Bytes} {s : String} :
    text? bytes = some s ↔ bytes = encode s := by
  constructor
  · intro h
    have hall : (decode bytes).all Option.isSome = true := by
      rw [text?] at h
      split at h
      · assumption
      · cases h
    obtain ⟨s', rfl⟩ := exists_encode_eq hall
    rw [text?_encode] at h
    rw [Option.some.inj h]
  · rintro rfl
    exact text?_encode s

end Transcode.Text.Utf8
