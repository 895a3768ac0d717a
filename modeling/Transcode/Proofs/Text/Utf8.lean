import Transcode.Text.Utf8

/-! # ASCII in bytes and in text

An ASCII character has one spelling, a byte that is part of no other character. So what bytes show
holds such a character only if they hold its byte, and the other way round for encodings. -/

namespace Transcode.Text.Utf8

/-! ## Encoding -/

theorem encode_append (s t : String) : encode (s ++ t) = encode s ++ encode t := by
  simp [encode]

theorem encode_inj {s t : String} : encode s = encode t ↔ s = t := by
  constructor
  · intro h
    rw [← lossy_encode s, h, lossy_encode]
  · rintro rfl
    rfl

theorem mem_of_mem_encodeChar {c : Char} {b : UInt8} (hb : b.toNat < 0x80)
    (h : b ∈ encodeChar c) : Char.ofNat b.toNat = c := by
  have hv : c.toNat < 0xD800 ∨ 0xDFFF < c.toNat ∧ c.toNat < 0x110000 := c.valid
  have hwide {n : Nat} (hlow : 0x80 ≤ n) (hhigh : n < 256) : b ≠ UInt8.ofNat n := by
    rintro rfl
    rw [toNat_ofNat_of_lt hhigh] at hb
    omega
  simp only [encodeChar] at h
  split at h
  · obtain rfl := List.mem_singleton.mp h
    rw [toNat_ofNat_of_lt (by omega), Char.ofNat_toNat]
  split at h
  · simp only [List.mem_cons, List.not_mem_nil, or_false] at h
    rcases h with h | h <;> exact absurd h (hwide (by omega) (by omega))
  split at h
  · simp only [List.mem_cons, List.not_mem_nil, or_false] at h
    rcases h with h | h | h <;> exact absurd h (hwide (by omega) (by omega))
  · simp only [List.mem_cons, List.not_mem_nil, or_false] at h
    rcases h with h | h | h | h <;> exact absurd h (hwide (by omega) (by omega))

/-- The byte of an ASCII character is in an encoding only for that character. -/
theorem ofNat_mem_of_mem_encode {s : String} {b : UInt8} (hb : b.toNat < 0x80)
    (h : b ∈ encode s) : Char.ofNat b.toNat ∈ s.toList := by
  obtain ⟨c, hc, hmem⟩ := List.mem_flatMap.mp h
  rwa [mem_of_mem_encodeChar hb hmem]

/-! ## Decoding -/

/-- What is still to come of a character raises it above ASCII. -/
structure Pending.IsWide (p : Pending) : Prop where
  low : 0x80 ≤ p.low
  next : 2 ≤ p.bits * 0x40 + (p.low - 0x80)
  last : p.more = 0 → 0x80 ≤ p.bits * 0x40 + (p.low - 0x80)

theorem isWide_of_lead? {b : Nat} {p : Pending} (h : lead? b = some p) : p.IsWide := by
  rw [lead?] at h
  repeat' split at h
  all_goals simp only [Option.some.injEq, reduceCtorEq] at h
  all_goals
    subst h
    constructor <;> dsimp only <;> omega

theorem toNat_ofNat_of_isValidChar {n : Nat} (h : n.isValidChar) : (Char.ofNat n).toNat = n := by
  rw [Char.ofNat, dif_pos h]
  rfl

theorem toNat_ofNat_or (n : Nat) : (Char.ofNat n).toNat = n ∨ (Char.ofNat n).toNat = 0 := by
  by_cases h : n.isValidChar
  · exact .inl (toNat_ofNat_of_isValidChar h)
  · rw [Char.ofNat, dif_neg h]
    exact .inr rfl

theorem toNat_ofNat_of_ascii {n : Nat} (h : n < 0x80) : (Char.ofNat n).toNat = n :=
  toNat_ofNat_of_isValidChar (.inl (by omega))

/-- What a byte completes and what it leaves pending: an ASCII character other than the first one is
complete only with its own byte, and what is pending is going to be wider. -/
structure Sound (b : Nat) (out : List (Option Char) × Option Pending) : Prop where
  complete : ∀ c, some c ∈ out.1 → 0 < c.toNat → c.toNat < 0x80 → c.toNat = b
  pending : ∀ p, out.2 = some p → p.IsWide

theorem sound_start (b : Nat) : Sound b (start b) := by
  rw [start]
  split
  · rename_i hascii
    refine ⟨fun c hc _ _ => ?_, by simp⟩
    have hchar : c = Char.ofNat b := by simpa using hc
    rw [hchar, toNat_ofNat_of_ascii hascii]
  split
  · rename_i p hlead
    refine ⟨by simp, ?_⟩
    rintro _ ⟨rfl⟩
    exact isWide_of_lead? hlead
  · exact ⟨by simp, by simp⟩

theorem sound_feed {q : Option Pending} (hq : ∀ p, q = some p → p.IsWide) (b : Nat) :
    Sound b (feed q b) := by
  cases q with
  | none => exact sound_start b
  | some p =>
    have hp : p.IsWide := hq p rfl
    rw [feed]
    split
    · rename_i hin
      split
      · rename_i hmore
        -- The value is above ASCII; one that belonged to no character would be read as zero.
        refine ⟨fun c hc hpos hascii => ?_, by simp⟩
        have hchar : c = Char.ofNat (p.bits * 0x40 + (b - 0x80)) := by simpa using hc
        have hvalue := toNat_ofNat_or (p.bits * 0x40 + (b - 0x80))
        have hlast := hp.last hmore
        rw [← hchar] at hvalue
        omega
      · refine ⟨by simp, fun next hpending => ?_⟩
        rw [← Option.some.inj hpending]
        have hnext := hp.next
        constructor
        · exact Nat.le_refl 0x80
        · dsimp only
          omega
        · intro _
          dsimp only
          omega
    · have hstart := sound_start b
      refine ⟨fun c hc => hstart.complete c ?_, hstart.pending⟩
      simpa using hc

theorem mem_of_mem_decodeFrom {q : Option Pending} (hq : ∀ p, q = some p → p.IsWide)
    {bytes : Bytes} {c : Char} (hpos : 0 < c.toNat) (hascii : c.toNat < 0x80)
    (h : some c ∈ decodeFrom q bytes) : ∃ b ∈ bytes, b.toNat = c.toNat := by
  induction bytes generalizing q with
  | nil => cases q <;> simp [decodeFrom] at h
  | cons b rest ih =>
    have hsound := sound_feed hq b.toNat
    rw [decodeFrom, List.mem_append] at h
    · rcases h with h | h
      · exact ⟨b, by simp, (hsound.complete c h hpos hascii).symm⟩
      · obtain ⟨b', hb', heq⟩ := ih hsound.pending h
        exact ⟨b', List.mem_cons_of_mem _ hb', heq⟩

/-- An ASCII byte starts anew, whatever is pending before it. -/
theorem decodeFrom_append_cons {q : Option Pending} (hq : ∀ p, q = some p → p.IsWide)
    (bytes : Bytes) {b : UInt8} (hascii : b.toNat < 0x80) (rest : Bytes) :
    decodeFrom q (bytes ++ b :: rest) =
      decodeFrom q bytes ++ some (Char.ofNat b.toNat) :: decodeFrom none rest := by
  have hstart : start b.toNat = ([some (Char.ofNat b.toNat)], none) := if_pos hascii
  induction bytes generalizing q with
  | nil =>
    cases q with
    | none => simp [decodeFrom, feed, hstart]
    | some p =>
      have hbelow : ¬ (p.low ≤ b.toNat ∧ b.toNat ≤ p.high) := by
        have := (hq p rfl).low
        omega
      simp [decodeFrom, feed, hbelow, hstart]
  | cons c bytes ih =>
    have hsound := sound_feed hq c.toNat
    rw [List.cons_append, decodeFrom, decodeFrom, ih hsound.pending, List.append_assoc]

theorem toList_lossy_append_cons (bytes : Bytes) {b : UInt8} (hascii : b.toNat < 0x80)
    (rest : Bytes) : (lossy (bytes ++ b :: rest)).toList =
      (lossy bytes).toList ++ Char.ofNat b.toNat :: (lossy rest).toList := by
  simp [lossy, decode, decodeFrom_append_cons (q := none) (by simp) bytes hascii]

/-- An ASCII character is shown only for its byte. -/
theorem mem_of_mem_lossy {bytes : Bytes} {c : Char} (hpos : 0 < c.toNat) (hascii : c.toNat < 0x80)
    (h : c ∈ (lossy bytes).toList) : ∃ b ∈ bytes, b.toNat = c.toNat := by
  rw [lossy, String.toList_ofList] at h
  obtain ⟨d, hd, hc⟩ := List.mem_map.mp h
  cases d with
  | none =>
    subst hc
    exact absurd hascii (by decide)
  | some d =>
    obtain rfl : d = c := hc
    exact mem_of_mem_decodeFrom (by simp) hpos hascii hd

/-- Writing out what is shown for bytes adds no byte of an ASCII character. -/
theorem mem_of_mem_encode_lossy {bytes : Bytes} {b : UInt8} (hpos : 0 < b.toNat)
    (hascii : b.toNat < 0x80) (h : b ∈ encode (lossy bytes)) : b ∈ bytes := by
  have hvalue : (Char.ofNat b.toNat).toNat = b.toNat := toNat_ofNat_of_ascii hascii
  obtain ⟨b', hb', heq⟩ := mem_of_mem_lossy (by rwa [hvalue]) (by rwa [hvalue])
    (ofNat_mem_of_mem_encode hascii h)
  rwa [UInt8.toNat_inj.mp (heq.trans hvalue)] at hb'

end Transcode.Text.Utf8
