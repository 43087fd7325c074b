import Mathlib.Tactic

/-!
# Texts

The operations of Rust's `str` that a parser of lines uses, on texts that are lists of characters,
and the decoding of UTF-8, both strict and with replacement characters, and of UTF-16.
-/

namespace Text

/-- Equal texts have equal characters. -/
instance lawfulBEq : LawfulBEq (List Char) := List.instLawfulBEq

/-- `char::is_whitespace`, the Unicode property `White_Space`. -/
def isWhitespace (c : Char) : Bool :=
  let n := c.toNat
  (0x09 ≤ n && n ≤ 0x0D) || n = 0x20 || n = 0x85 || n = 0xA0 || n = 0x1680 ||
    (0x2000 ≤ n && n ≤ 0x200A) || n = 0x2028 || n = 0x2029 || n = 0x202F || n = 0x205F || n = 0x3000

/-- `trim_start_matches`. -/
def trimStartMatches (p : Char → Bool) (text : List Char) : List Char := text.dropWhile p

/-- `trim_matches`. -/
def trimMatches (p : Char → Bool) (text : List Char) : List Char :=
  ((text.dropWhile p).reverse.dropWhile p).reverse

/-- `trim`. -/
def trim (text : List Char) : List Char := trimMatches isWhitespace text

/-- `trim_start`. -/
def trimStart (text : List Char) : List Char := trimStartMatches isWhitespace text

/-- `to_ascii_uppercase`. -/
def toAsciiUppercase (text : List Char) : List Char :=
  text.map fun c => if 'a' ≤ c ∧ c ≤ 'z' then Char.ofNat (c.toNat - 32) else c

/-- A text in upper case stays as it is. -/
theorem toAsciiUppercase_idem (text : List Char) :
    toAsciiUppercase (toAsciiUppercase text) = toAsciiUppercase text := by
  unfold toAsciiUppercase
  rw [List.map_map]
  refine List.map_congr_left fun c _ => ?_
  dsimp only [Function.comp]
  by_cases hc : 'a' ≤ c ∧ c ≤ 'z'
  · have hlo : 97 ≤ c.toNat := hc.1
    have hhi : c.toNat ≤ 122 := hc.2
    have hupper : ¬('a' ≤ Char.ofNat (c.toNat - 32) ∧ Char.ofNat (c.toNat - 32) ≤ 'z') := by
      generalize c.toNat = n at hlo hhi
      interval_cases n <;> decide
    simp only [if_pos hc, if_neg hupper]
  · simp only [if_neg hc]

/-- `to_ascii_lowercase`. -/
def toAsciiLowercase (text : List Char) : List Char :=
  text.map fun c => if 'A' ≤ c ∧ c ≤ 'Z' then Char.ofNat (c.toNat + 32) else c

/-- The line without the carriage return that stood before its line feed. -/
def stripCr (line : List Char) : List Char :=
  if line.getLast? = some '\r' then line.dropLast else line

/-- `lines`: a line ends with a line feed, possibly after a carriage return, or with the text. -/
def lines (text : List Char) : List (List Char) :=
  let pieces := text.splitOn '\n'
  let last := pieces.getLastD []
  pieces.dropLast.map stripCr ++ (if last = [] then [] else [last])

/-- `split_once` at a character. -/
def splitOnce (sep : Char) (text : List Char) : Option (List Char × List Char) :=
  if sep ∈ text then
    some (text.takeWhile (· ≠ sep), (text.dropWhile (· ≠ sep)).drop 1)
  else none

/-- The value of a digit in a base up to 16. -/
def digitValue (base : ℕ) (c : Char) : Option ℕ :=
  let n := c.toNat
  let value :=
    if 0x30 ≤ n ∧ n ≤ 0x39 then n - 0x30
    else if 0x41 ≤ n ∧ n ≤ 0x46 then n - 0x41 + 10
    else if 0x61 ≤ n ∧ n ≤ 0x66 then n - 0x61 + 10
    else 16
  if value < base then some value else none

/-- The number that digits stand for, most significant first. -/
def digitsValue (base : ℕ) (digits : List Char) : Option ℕ :=
  digits.foldlM (fun acc c => (digitValue base c).map (acc * base + ·)) 0

/-- `from_str_radix` for an unsigned type of values below `bound`: one `+` may stand in front, and
at least one digit must follow. -/
def parseUnsigned (base bound : ℕ) (text : List Char) : Option ℕ :=
  let digits := if text.head? = some '+' then text.drop 1 else text
  if digits = [] then none
  else (digitsValue base digits).filter (· < bound)

/-! ## UTF-8 -/

/-- Whether a byte lies in a range. -/
def inRange (lo hi : ℕ) (b : UInt8) : Bool := lo ≤ b.toNat && b.toNat ≤ hi

/-- The range of the second byte of a character, by its first byte. -/
def secondRange (b : ℕ) : ℕ × ℕ :=
  if b = 0xE0 then (0xA0, 0xBF)
  else if b = 0xED then (0x80, 0x9F)
  else if b = 0xF0 then (0x90, 0xBF)
  else if b = 0xF4 then (0x80, 0x8F)
  else (0x80, 0xBF)

/-- How many bytes a character has, by its first byte; zero when no character starts with it. -/
def charWidth (b : ℕ) : ℕ :=
  if b < 0x80 then 1
  else if 0xC2 ≤ b ∧ b ≤ 0xDF then 2
  else if 0xE0 ≤ b ∧ b ≤ 0xEF then 3
  else if 0xF0 ≤ b ∧ b ≤ 0xF4 then 4
  else 0

/-- The character at the front and the number of its bytes; or no character, and the number of bytes
that one replacement character stands for. -/
def decodeFirst (first : UInt8) (rest : List UInt8) : Option Char × ℕ :=
  let b := first.toNat
  let second := secondRange b
  let bits (k : ℕ) : ℕ := (rest.getD k 0).toNat % 64
  let secondOk := (rest[0]?).any (inRange second.1 second.2)
  let thirdOk := (rest[1]?).any (inRange 0x80 0xBF)
  let fourthOk := (rest[2]?).any (inRange 0x80 0xBF)
  match charWidth b with
  | 1 => (some (Char.ofNat b), 1)
  | 2 => if secondOk then (some (Char.ofNat (b % 32 * 64 + bits 0)), 2) else (none, 1)
  | 3 =>
    if ¬ secondOk then (none, 1)
    else if ¬ thirdOk then (none, 2)
    else (some (Char.ofNat ((b % 16 * 64 + bits 0) * 64 + bits 1)), 3)
  | 4 =>
    if ¬ secondOk then (none, 1)
    else if ¬ thirdOk then (none, 2)
    else if ¬ fourthOk then (none, 3)
    else (some (Char.ofNat (((b % 8 * 64 + bits 0) * 64 + bits 1) * 64 + bits 2)), 4)
  | _ => (none, 1)

/-- The characters of the bytes, `none` standing for a part that is not valid. `skip` bytes of the
character before are still to be passed over. -/
def decodeParts : ℕ → List UInt8 → List (Option Char)
  | _, [] => []
  | skip + 1, _ :: rest => decodeParts skip rest
  | 0, first :: rest =>
    let (part, width) := decodeFirst first rest
    part :: decodeParts (width - 1) rest

/-- `String::from_utf8_lossy`. -/
def fromUtf8Lossy (bytes : List UInt8) : List Char :=
  (decodeParts 0 bytes).map (·.getD (Char.ofNat 0xFFFD))

/-- `String::from_utf8`. -/
def fromUtf8 (bytes : List UInt8) : Option (List Char) := (decodeParts 0 bytes).mapM id

/-! ## UTF-16 -/

/-- `String::from_utf16_lossy`: a surrogate without its partner becomes a replacement character. -/
def fromUtf16Lossy : List ℕ → List Char
  | [] => []
  | [u] => [if 0xD800 ≤ u ∧ u ≤ 0xDFFF then Char.ofNat 0xFFFD else Char.ofNat u]
  | u :: v :: rest =>
    if 0xD800 ≤ u ∧ u ≤ 0xDBFF ∧ 0xDC00 ≤ v ∧ v ≤ 0xDFFF then
      Char.ofNat (0x10000 + (u - 0xD800) * 0x400 + (v - 0xDC00)) :: fromUtf16Lossy rest
    else if 0xD800 ≤ u ∧ u ≤ 0xDFFF then Char.ofNat 0xFFFD :: fromUtf16Lossy (v :: rest)
    else Char.ofNat u :: fromUtf16Lossy (v :: rest)

/-- The code units of a character. -/
def charUtf16 (c : Char) : List ℕ :=
  if c.toNat < 0x10000 then [c.toNat]
  else [0xD800 + (c.toNat - 0x10000) / 0x400, 0xDC00 + (c.toNat - 0x10000) % 0x400]

/-- `str::encode_utf16`. -/
def encodeUtf16 (text : List Char) : List ℕ := text.flatMap charUtf16

/-- A code point is not a surrogate. -/
theorem toNat_bounds (c : Char) : c.toNat < 0xD800 ∨ 0xDFFF < c.toNat ∧ c.toNat < 0x110000 :=
  c.valid

/-- A unit that is not a surrogate is a character. -/
theorem fromUtf16Lossy_cons {u : ℕ} (h : ¬ (0xD800 ≤ u ∧ u ≤ 0xDFFF)) (rest : List ℕ) :
    fromUtf16Lossy (u :: rest) = Char.ofNat u :: fromUtf16Lossy rest := by
  cases rest with
  | nil => simp only [fromUtf16Lossy, if_neg h]
  | cons v rest =>
    have hpair : ¬ (0xD800 ≤ u ∧ u ≤ 0xDBFF ∧ 0xDC00 ≤ v ∧ v ≤ 0xDFFF) := by omega
    rw [fromUtf16Lossy, if_neg hpair, if_neg h]

/-- The units of a character are decoded to it. -/
theorem fromUtf16Lossy_char (c : Char) (rest : List ℕ) :
    fromUtf16Lossy (charUtf16 c ++ rest) = c :: fromUtf16Lossy rest := by
  have hbounds := toNat_bounds c
  unfold charUtf16
  split
  · rw [List.singleton_append, fromUtf16Lossy_cons (by omega), Char.ofNat_toNat]
  · -- The two surrogates carry the upper and the lower ten bits of the code point.
    have hpair : 0xD800 ≤ 0xD800 + (c.toNat - 0x10000) / 0x400 ∧
        0xD800 + (c.toNat - 0x10000) / 0x400 ≤ 0xDBFF ∧
        0xDC00 ≤ 0xDC00 + (c.toNat - 0x10000) % 0x400 ∧
        0xDC00 + (c.toNat - 0x10000) % 0x400 ≤ 0xDFFF := by omega
    have hpoint : 0x10000 + (0xD800 + (c.toNat - 0x10000) / 0x400 - 0xD800) * 0x400 +
        (0xDC00 + (c.toNat - 0x10000) % 0x400 - 0xDC00) = c.toNat := by omega
    rw [List.cons_append, List.singleton_append, fromUtf16Lossy, if_pos hpair, hpoint,
      Char.ofNat_toNat]

/-- Decoding inverts encoding. -/
theorem fromUtf16Lossy_encodeUtf16 (text : List Char) : fromUtf16Lossy (encodeUtf16 text) = text := by
  induction text with
  | nil => rfl
  | cons c rest ih =>
    rw [encodeUtf16, List.flatMap_cons, fromUtf16Lossy_char]
    exact congrArg _ ih

/-- The units of a text are units of 16 bits, and only the character NUL has the unit zero. -/
theorem encodeUtf16_bounds {text : List Char} (h : Char.ofNat 0 ∉ text) :
    ∀ u ∈ encodeUtf16 text, 0 < u ∧ u < 2^16 := by
  intro u hu
  obtain ⟨c, hc, hu⟩ := List.mem_flatMap.mp hu
  have hbounds := toNat_bounds c
  unfold charUtf16 at hu
  split at hu
  · have hunit : u = c.toNat := List.mem_singleton.mp hu
    have hne : c.toNat ≠ 0 := by
      intro hzero
      rw [← Char.ofNat_toNat c, hzero] at hc
      exact h hc
    omega
  · simp only [List.mem_cons, List.not_mem_nil, or_false] at hu
    omega

end Text
