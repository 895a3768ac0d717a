/-!
# UTF-8

File names, arguments and file contents are bytes; what is shown of them is text. Decoding answers
a character for every well-formed sequence of bytes and a gap for every longest ill-formed part, so
that bytes can be read strictly (no gap allowed) or shown with a replacement character in each gap.
Decoding undoes encoding, whatever bytes follow.
-/

namespace Transcode.Text

/-- File names, program arguments and file contents. -/
abbrev Bytes := List UInt8

namespace Utf8

def encodeChar (c : Char) : Bytes :=
  let n := c.toNat
  if n < 0x80 then
    [UInt8.ofNat n]
  else if n < 0x800 then
    [UInt8.ofNat (0xC0 + n / 0x40), UInt8.ofNat (0x80 + n % 0x40)]
  else if n < 0x10000 then
    [UInt8.ofNat (0xE0 + n / 0x1000), UInt8.ofNat (0x80 + n / 0x40 % 0x40),
      UInt8.ofNat (0x80 + n % 0x40)]
  else
    [UInt8.ofNat (0xF0 + n / 0x40000), UInt8.ofNat (0x80 + n / 0x1000 % 0x40),
      UInt8.ofNat (0x80 + n / 0x40 % 0x40), UInt8.ofNat (0x80 + n % 0x40)]

def encode (s : String) : Bytes :=
  s.toList.flatMap encodeChar

/-- A character of which the first bytes are known: their bits, the range of the next byte, and how
many bytes follow that one. -/
structure Pending where
  bits : Nat
  low : Nat
  high : Nat
  more : Nat

/-- What a first byte of several announces. The range of the second byte leaves out the overlong
forms, the surrogates and everything above U+10FFFF. -/
def lead? (b : Nat) : Option Pending :=
  if 0xC2 ≤ b ∧ b ≤ 0xDF then some ⟨b - 0xC0, 0x80, 0xBF, 0⟩
  else if b = 0xE0 then some ⟨0, 0xA0, 0xBF, 1⟩
  else if b = 0xED then some ⟨0xD, 0x80, 0x9F, 1⟩
  else if 0xE1 ≤ b ∧ b ≤ 0xEF then some ⟨b - 0xE0, 0x80, 0xBF, 1⟩
  else if b = 0xF0 then some ⟨0, 0x90, 0xBF, 2⟩
  else if 0xF1 ≤ b ∧ b ≤ 0xF3 then some ⟨b - 0xF0, 0x80, 0xBF, 2⟩
  else if b = 0xF4 then some ⟨4, 0x80, 0x8F, 2⟩
  else none

/-- A byte between characters: what it completes, and what it leaves pending. -/
def start (b : Nat) : List (Option Char) × Option Pending :=
  if b < 0x80 then ([some (Char.ofNat b)], none)
  else match lead? b with
    | some p => ([], some p)
    | none => ([none], none)

/-- A byte after the pending ones. One outside the expected range leaves a gap and starts anew. -/
def feed : Option Pending → Nat → List (Option Char) × Option Pending
  | none, b => start b
  | some p, b =>
    if p.low ≤ b ∧ b ≤ p.high then
      match p.more with
      | 0 => ([some (Char.ofNat (p.bits * 0x40 + (b - 0x80)))], none)
      | k + 1 => ([], some ⟨p.bits * 0x40 + (b - 0x80), 0x80, 0xBF, k⟩)
    else (none :: (start b).1, (start b).2)

/-- Decoding from inside a character; a character that never ends is a gap. -/
def decodeFrom : Option Pending → Bytes → List (Option Char)
  | none, [] => []
  | some _, [] => [none]
  | q, b :: rest => (feed q b.toNat).1 ++ decodeFrom (feed q b.toNat).2 rest

/-- The characters that bytes stand for, with a gap for every longest ill-formed part. -/
def decode (bytes : Bytes) : List (Option Char) :=
  decodeFrom none bytes

/-- The text that bytes spell, if they are well formed throughout. -/
def text? (bytes : Bytes) : Option String :=
  if (decode bytes).all Option.isSome then some (String.ofList ((decode bytes).filterMap id))
  else none

/-- The text shown for bytes: U+FFFD stands in every gap. -/
def lossy (bytes : Bytes) : String :=
  String.ofList ((decode bytes).map fun c => c.getD '\uFFFD')

example : lossy [0x66, 0xFF, 0xE2, 0x82, 0x66] = "f\uFFFD\uFFFDf" := by decide
example : lossy [0xF0, 0x80, 0x80, 0xED, 0xA0] = "\uFFFD\uFFFD\uFFFD\uFFFD\uFFFD" := by decide

theorem toNat_ofNat_of_lt {n : Nat} (h : n < 256) : (UInt8.ofNat n).toNat = n := by
  simp [UInt8.toNat_ofNat', Nat.mod_eq_of_lt h]

/-- Decoding starts with the character whose bytes come first. -/
theorem decodeFrom_encodeChar (c : Char) (rest : Bytes) :
    decodeFrom none (encodeChar c ++ rest) = some c :: decodeFrom none rest := by
  have hv : c.toNat < 0xD800 ∨ 0xDFFF < c.toNat ∧ c.toNat < 0x110000 := c.valid
  have hc : Char.ofNat c.toNat = c := Char.ofNat_toNat c
  generalize hn : c.toNat = n at hv hc
  simp only [encodeChar, hn]
  split
  · simp [decodeFrom, feed, start, toNat_ofNat_of_lt (show n < 256 by omega), *]
  split
  · have h₁ := toNat_ofNat_of_lt (show 0xC0 + n / 0x40 < 256 by omega)
    have h₂ := toNat_ofNat_of_lt (show 0x80 + n % 0x40 < 256 by omega)
    have hl : lead? (0xC0 + n / 0x40) = some ⟨n / 0x40, 0x80, 0xBF, 0⟩ := by
      simp only [lead?]
      rw [if_pos (by omega)]
      simp
    have hb : n / 0x40 * 0x40 + (0x80 + n % 0x40 - 0x80) = n := by omega
    simp only [List.cons_append, List.nil_append, decodeFrom, feed, start, h₁, h₂, hl]
    rw [if_neg (by omega)]
    simp only [List.nil_append]
    rw [if_pos (by omega), hb, hc]
    rfl
  split
  · have h₁ := toNat_ofNat_of_lt (show 0xE0 + n / 0x1000 < 256 by omega)
    have h₂ := toNat_ofNat_of_lt (show 0x80 + n / 0x40 % 0x40 < 256 by omega)
    have h₃ := toNat_ofNat_of_lt (show 0x80 + n % 0x40 < 256 by omega)
    have hl : ∃ low high, lead? (0xE0 + n / 0x1000) = some ⟨n / 0x1000, low, high, 1⟩ ∧
        low ≤ 0x80 + n / 0x40 % 0x40 ∧ 0x80 + n / 0x40 % 0x40 ≤ high := by
      simp only [lead?]
      rw [if_neg (by omega)]
      split
      · exact ⟨_, _, by rw [show n / 0x1000 = 0 by omega], by omega, by omega⟩
      split
      · exact ⟨_, _, by rw [show n / 0x1000 = 0xD by omega], by omega, by omega⟩
      · rw [if_pos (by omega)]
        exact ⟨_, _, by rw [Nat.add_sub_cancel_left], by omega, by omega⟩
    obtain ⟨low, high, hl, hlow, hhigh⟩ := hl
    have hb : (n / 0x1000 * 0x40 + (0x80 + n / 0x40 % 0x40 - 0x80)) * 0x40 +
        (0x80 + n % 0x40 - 0x80) = n := by omega
    simp only [List.cons_append, List.nil_append, decodeFrom, feed, start, h₁, h₂, h₃, hl]
    rw [if_neg (by omega)]
    simp only [List.nil_append]
    rw [if_pos ⟨hlow, hhigh⟩]
    simp only [List.nil_append]
    rw [if_pos (by omega), hb, hc]
    rfl
  · have h₁ := toNat_ofNat_of_lt (show 0xF0 + n / 0x40000 < 256 by omega)
    have h₂ := toNat_ofNat_of_lt (show 0x80 + n / 0x1000 % 0x40 < 256 by omega)
    have h₃ := toNat_ofNat_of_lt (show 0x80 + n / 0x40 % 0x40 < 256 by omega)
    have h₄ := toNat_ofNat_of_lt (show 0x80 + n % 0x40 < 256 by omega)
    have hl : ∃ low high, lead? (0xF0 + n / 0x40000) = some ⟨n / 0x40000, low, high, 2⟩ ∧
        low ≤ 0x80 + n / 0x1000 % 0x40 ∧ 0x80 + n / 0x1000 % 0x40 ≤ high := by
      simp only [lead?]
      rw [if_neg (by omega), if_neg (by omega), if_neg (by omega), if_neg (by omega)]
      split
      · exact ⟨_, _, by rw [show n / 0x40000 = 0 by omega], by omega, by omega⟩
      split
      · exact ⟨_, _, by rw [Nat.add_sub_cancel_left], by omega, by omega⟩
      · rw [if_pos (by omega)]
        exact ⟨_, _, by rw [show n / 0x40000 = 4 by omega], by omega, by omega⟩
    obtain ⟨low, high, hl, hlow, hhigh⟩ := hl
    have hb : ((n / 0x40000 * 0x40 + (0x80 + n / 0x1000 % 0x40 - 0x80)) * 0x40 +
        (0x80 + n / 0x40 % 0x40 - 0x80)) * 0x40 + (0x80 + n % 0x40 - 0x80) = n := by omega
    simp only [List.cons_append, List.nil_append, decodeFrom, feed, start, h₁, h₂, h₃, h₄, hl]
    rw [if_neg (by omega)]
    simp only [List.nil_append]
    rw [if_pos ⟨hlow, hhigh⟩]
    simp only [List.nil_append]
    rw [if_pos (by omega)]
    simp only [List.nil_append]
    rw [if_pos (by omega), hb, hc]
    rfl

/-- Decoding undoes encoding, whatever bytes follow. -/
theorem decode_encode_append (s : String) (rest : Bytes) :
    decode (encode s ++ rest) = s.toList.map some ++ decode rest := by
  simp only [decode, encode]
  induction s.toList with
  | nil => rfl
  | cons c cs ih =>
    rw [List.flatMap_cons, List.append_assoc, decodeFrom_encodeChar, ih]
    rfl

theorem decode_encode (s : String) : decode (encode s) = s.toList.map some := by
  simpa [decode, decodeFrom] using decode_encode_append s []

@[simp] theorem lossy_encode (s : String) : lossy (encode s) = s := by
  simp [lossy, decode_encode, Function.comp_def]

@[simp] theorem text?_encode (s : String) : text? (encode s) = some s := by
  simp [text?, decode_encode]

end Utf8

end Transcode.Text
