import Mathlib.Data.List.TakeWhile
import VmSpect.Lib.Text

/-!
# Printed texts

What the operations on texts give back of a text that was put together from its parts: padding
around a text, lines with their ends, a key and a value around a separator, and the digits of a
number.
-/

namespace Text

/-! ## Padding -/

/-- Neither the first nor the last character is one that is trimmed. -/
def Trimmed (p : Char → Bool) (text : List Char) : Prop :=
  (∀ c ∈ text.head?, p c = false) ∧ ∀ c ∈ text.getLast?, p c = false

/-- A text none of whose characters is trimmed is trimmed. -/
theorem Trimmed.of_forall {p : Char → Bool} {text : List Char} (h : ∀ c ∈ text, p c = false) :
    Trimmed p text :=
  ⟨fun c hc => h c (List.mem_of_mem_head? hc), fun c hc => h c (List.mem_of_getLast? hc)⟩

/-- A text can be checked to have no character that is trimmed. -/
theorem Trimmed.of_all {p : Char → Bool} {text : List Char} (h : text.all (fun c => !p c) = true) :
    Trimmed p text :=
  Trimmed.of_forall fun c hc => by simpa using List.all_eq_true.mp h c hc

/-- A text is trimmed when its ends are. -/
theorem Trimmed.of_ends {p : Char → Bool} {first last : List Char} (hfirst : first ≠ [])
    (hlast : last ≠ []) (hhead : ∀ c ∈ first.head?, p c = false)
    (htail : ∀ c ∈ last.getLast?, p c = false) (middle : List Char) :
    Trimmed p (first ++ (middle ++ last)) := by
  refine ⟨?_, ?_⟩
  · rw [List.head?_append_of_ne_nil _ hfirst]
    exact hhead
  · rw [← List.append_assoc, List.getLast?_append_of_ne_nil _ hlast]
    exact htail

/-- Padding behind a text is dropped with what it would have been trimmed to. -/
theorem trimMatches_append {p : Char → Bool} {padding : List Char} (h : ∀ c ∈ padding, p c = true)
    (text : List Char) : trimMatches p (text ++ padding) = trimMatches p text := by
  have hnone : padding.dropWhile p = [] := List.dropWhile_eq_nil_iff.mpr h
  unfold trimMatches
  rw [List.dropWhile_append]
  split
  · rename_i hempty
    rw [List.isEmpty_iff.mp hempty, hnone]
  · have hrest : ∀ c ∈ padding.reverse, p c = true := fun c hc => h c (List.mem_reverse.mp hc)
    rw [List.reverse_append, List.dropWhile_append_of_pos hrest]

/-- Padding before a text is dropped. -/
theorem trimMatches_prepend {p : Char → Bool} {padding : List Char}
    (h : ∀ c ∈ padding, p c = true) (text : List Char) :
    trimMatches p (padding ++ text) = trimMatches p text := by
  unfold trimMatches
  rw [List.dropWhile_append_of_pos h]

/-- A list whose first character fails the test is not shortened. -/
theorem dropWhile_of_head {p : Char → Bool} {text : List Char}
    (h : ∀ c ∈ text.head?, p c = false) : text.dropWhile p = text := by
  cases text with
  | nil => rfl
  | cons c rest => rw [List.dropWhile_cons_of_neg (by simp [h c rfl])]

/-- A trimmed text stays as it is. -/
theorem Trimmed.trimMatches_eq {p : Char → Bool} {text : List Char} (h : Trimmed p text) :
    trimMatches p text = text := by
  have hlast : ∀ c ∈ text.reverse.head?, p c = false := by
    rw [List.head?_reverse]
    exact h.2
  unfold trimMatches
  rw [dropWhile_of_head h.1, dropWhile_of_head hlast, List.reverse_reverse]

/-- A trimmed text is what remains when padding stands around it. -/
theorem Trimmed.trimMatches_padded {p : Char → Bool} {text before after : List Char}
    (h : Trimmed p text) (hbefore : ∀ c ∈ before, p c = true) (hafter : ∀ c ∈ after, p c = true) :
    trimMatches p (before ++ text ++ after) = text := by
  rw [trimMatches_append hafter, trimMatches_prepend hbefore, h.trimMatches_eq]

/-- A first character that is not trimmed stays the first. -/
theorem trimMatches_cons {p : Char → Bool} {c : Char} (h : p c = false) (rest : List Char) :
    ∃ more, trimMatches p (c :: rest) = c :: more := by
  unfold trimMatches
  rw [List.dropWhile_cons_of_neg (by simp [h]), List.reverse_cons, List.dropWhile_append]
  split
  · exact ⟨[], by rw [List.dropWhile_cons_of_neg (by simp [h]), List.reverse_singleton]⟩
  · exact ⟨_, by rw [List.reverse_append, List.reverse_singleton, List.singleton_append]⟩

/-- A text is trimmed to nothing exactly if all of it is trimmed. -/
theorem trimMatches_eq_nil_iff (p : Char → Bool) (text : List Char) :
    trimMatches p text = [] ↔ ∀ c ∈ text, p c = true := by
  unfold trimMatches
  rw [List.reverse_eq_nil_iff, List.dropWhile_eq_nil_iff]
  constructor
  · intro h
    cases hrest : text.dropWhile p with
    | nil => exact List.dropWhile_eq_nil_iff.mp hrest
    | cons c rest =>
      have hhead := List.head?_dropWhile_not p text
      rw [hrest] at h hhead
      have hc : p c = true := h c (List.mem_reverse.mpr List.mem_cons_self)
      rw [List.head?_cons] at hhead
      exact absurd hc (by simp [hhead])
  · intro h
    rw [List.dropWhile_eq_nil_iff.mpr h]
    exact fun c hc => absurd hc List.not_mem_nil

/-- A text that is not blank has a character that is not white space. -/
theorem trim_ne_nil_iff (text : List Char) :
    trim text ≠ [] ↔ ∃ c ∈ text, isWhitespace c = false := by
  rw [trim, ne_eq, trimMatches_eq_nil_iff]
  push Not
  simp only [Bool.not_eq_true]

/-! ## Lines -/

/-- The first line of a text that has a line feed. -/
theorem lines_line {line : List Char} (h : '\n' ∉ line) (rest : List Char) :
    lines (line ++ '\n' :: rest) = stripCr line :: lines rest := by
  unfold lines
  have hsplit : (line ++ '\n' :: rest).splitOn '\n' = line :: rest.splitOn '\n' :=
    List.splitOn_append_cons_self_of_not_mem h _
  have hne : rest.splitOn '\n' ≠ [] := List.splitOn_ne_nil _ _
  dsimp only
  rw [hsplit, List.dropLast_cons_of_ne_nil hne, List.map_cons, List.cons_append]
  obtain ⟨first, more, hrest⟩ := List.exists_cons_of_ne_nil hne
  rw [hrest, List.getLastD_cons, List.getLastD_cons, List.getLastD_cons]

/-- A text without a line feed is one line, or none when it is empty. -/
theorem lines_last {line : List Char} (h : '\n' ∉ line) :
    lines line = if line = [] then [] else [line] := by
  unfold lines
  rw [List.splitOn_eq_singleton h]
  rfl

/-- What is left of a line without its carriage return, and what was dropped. -/
theorem stripCr_append (line : List Char) :
    ∃ dropped, (∀ c ∈ dropped, c = '\r') ∧ line = stripCr line ++ dropped := by
  unfold stripCr
  split
  · rename_i hlast
    refine ⟨['\r'], fun c hc => List.mem_singleton.mp hc, ?_⟩
    exact (List.dropLast_append_getLast? _ hlast).symm
  · exact ⟨[], fun c hc => absurd hc List.not_mem_nil, (List.append_nil _).symm⟩

/-- A text has a first line and a rest, or no line feed. -/
theorem firstLine_or (text : List Char) :
    (∃ line rest, '\n' ∉ line ∧ text = line ++ '\n' :: rest) ∨ '\n' ∉ text := by
  by_cases hmem : '\n' ∈ text
  · obtain ⟨line, rest, htext, hline⟩ := List.eq_append_cons_of_mem hmem
    exact Or.inl ⟨line, rest, hline, htext⟩
  · exact Or.inr hmem

/-! ## A key and a value -/

/-- A pattern cannot reach into a character that it does not have. -/
theorem isPrefixOf_concat {pattern : List Char} {c : Char} (h : c ∉ pattern) (text : List Char) :
    pattern.isPrefixOf (text ++ [c]) = pattern.isPrefixOf text := by
  have hiff : pattern <+: text ++ [c] ↔ pattern <+: text := by
    rw [List.prefix_concat_iff]
    constructor
    · rintro (heq | hpre)
      · exact absurd (heq ▸ List.mem_append_right _ List.mem_cons_self) h
      · exact hpre
    · exact Or.inr
  rw [Bool.eq_iff_iff, List.isPrefixOf_iff_prefix, List.isPrefixOf_iff_prefix]
  exact hiff

/-- The first separator splits a text. -/
theorem splitOnce_append {sep : Char} {key : List Char} (h : sep ∉ key) (value : List Char) :
    splitOnce sep (key ++ sep :: value) = some (key, value) := by
  have hkey : ∀ c ∈ key, decide (c ≠ sep) = true := by
    intro c hc
    exact decide_eq_true fun heq => h (heq ▸ hc)
  have hmem : sep ∈ key ++ sep :: value := List.mem_append_right _ List.mem_cons_self
  unfold splitOnce
  rw [if_pos hmem, List.takeWhile_append_of_pos hkey, List.dropWhile_append_of_pos hkey]
  simp

/-! ## Letters -/

/-- Whether a character is a letter of the ASCII alphabet. -/
def IsLetter (c : Char) : Prop := 65 ≤ c.toNat ∧ c.toNat ≤ 90 ∨ 97 ≤ c.toNat ∧ c.toNat ≤ 122

/-- Whether a character is a letter can be decided. -/
instance decidableIsLetter : DecidablePred IsLetter := fun c =>
  inferInstanceAs (Decidable (65 ≤ c.toNat ∧ c.toNat ≤ 90 ∨ 97 ≤ c.toNat ∧ c.toNat ≤ 122))

/-- A character that becomes a letter in lower case is one. -/
theorem IsLetter.of_toAsciiLowercase {text : List Char}
    (h : ∀ c ∈ toAsciiLowercase text, IsLetter c) : ∀ c ∈ text, IsLetter c := by
  intro c hc
  have hlower := h _ (List.mem_map_of_mem hc)
  split at hlower
  · rename_i hupper
    exact Or.inl hupper
  · exact hlower

/-- A character that becomes a letter in upper case is one. -/
theorem IsLetter.of_toAsciiUppercase {text : List Char}
    (h : ∀ c ∈ toAsciiUppercase text, IsLetter c) : ∀ c ∈ text, IsLetter c := by
  intro c hc
  have hupper := h _ (List.mem_map_of_mem hc)
  split at hupper
  · rename_i hlower
    exact Or.inr hlower
  · exact hupper

/-! ## Numbers -/

/-- The digits of a number, possibly after zeros, with letters in any case. -/
def NumberText (base n : ℕ) (text : List Char) : Prop :=
  ∃ zeros, toAsciiLowercase text = List.replicate zeros '0' ++ Nat.toDigits base n

/-- The digits of a number are in lower case. -/
theorem toAsciiLowercase_toDigits {base : ℕ} (hone : 1 < base) (hbase : base ≤ 16) (n : ℕ) :
    toAsciiLowercase (Nat.toDigits base n) = Nat.toDigits base n := by
  have hdigit : ∀ d < base, toAsciiLowercase [d.digitChar] = [d.digitChar] := by
    intro d hd
    have hsmall : d < 16 := by omega
    interval_cases d <;> rfl
  induction n using Nat.strong_induction_on with
  | _ n ih =>
    rw [Nat.toDigits_eq_if hone]
    split
    · rename_i hlt
      exact hdigit n hlt
    · have hquot : n / base < n := Nat.div_lt_self (by omega) hone
      have happend : toAsciiLowercase (Nat.toDigits base (n / base) ++ [(n % base).digitChar]) =
          toAsciiLowercase (Nat.toDigits base (n / base)) ++
            toAsciiLowercase [(n % base).digitChar] := List.map_append
      rw [happend, ih _ hquot, hdigit _ (Nat.mod_lt _ (by omega))]

/-- The digits of a number are a text of it. -/
theorem NumberText.of_toDigits {base : ℕ} (hone : 1 < base) (hbase : base ≤ 16) (n : ℕ) :
    NumberText base n (Nat.toDigits base n) :=
  ⟨0, toAsciiLowercase_toDigits hone hbase n⟩

/-- A digit has the same value in lower case. -/
theorem digitValue_lowercase (base : ℕ) (c : Char) :
    digitValue base (if 'A' ≤ c ∧ c ≤ 'Z' then Char.ofNat (c.toNat + 32) else c) =
      digitValue base c := by
  split
  · rename_i hupper
    have hlo : 65 ≤ c.toNat := hupper.1
    have hhi : c.toNat ≤ 90 := hupper.2
    have hvalid : (c.toNat + 32).isValidChar := Or.inl (by omega)
    have hcode : (Char.ofNat (c.toNat + 32)).toNat = c.toNat + 32 := by
      rw [Char.ofNat, dif_pos hvalid]
      rfl
    unfold digitValue
    dsimp only
    rw [hcode]
    split_ifs <;> first | rfl | omega
  · rfl

/-- Digits stand for the same number in lower case. -/
theorem digitsValue_lowercase (base : ℕ) (text : List Char) :
    digitsValue base (toAsciiLowercase text) = digitsValue base text := by
  unfold digitsValue toAsciiLowercase
  rw [List.foldlM_map]
  simp only [digitValue_lowercase]

/-- The digit of a number is read back. -/
theorem digitValue_digitChar {base d : ℕ} (hbase : base ≤ 16) (hd : d < base) :
    digitValue base d.digitChar = some d := by
  have hsmall : d < 16 := by omega
  interval_cases d <;> exact if_pos hd

/-- One more digit. -/
theorem digitsValue_concat (base : ℕ) (digits : List Char) (c : Char) :
    digitsValue base (digits ++ [c]) =
      (digitsValue base digits).bind fun acc => (digitValue base c).map (acc * base + ·) := by
  unfold digitsValue
  rw [List.foldlM_append]
  simp [Option.bind_eq_bind]

/-- Digits behind zeros stand for the same number. -/
theorem digitsValue_zeros {base : ℕ} (hbase : 0 < base) (zeros : ℕ) (digits : List Char) :
    digitsValue base (List.replicate zeros '0' ++ digits) = digitsValue base digits := by
  have hzero : digitValue base '0' = some 0 := by
    have hvalue : ('0' : Char).toNat = 0x30 := rfl
    unfold digitValue
    simp [hvalue, hbase]
  induction zeros with
  | zero => rfl
  | succ zeros ih =>
    rw [List.replicate_succ, List.cons_append, ← ih]
    simp only [digitsValue, List.foldlM_cons, hzero]
    simp

/-- The digits of a number stand for it. -/
theorem digitsValue_toDigits {base : ℕ} (hone : 1 < base) (hbase : base ≤ 16) (n : ℕ) :
    digitsValue base (Nat.toDigits base n) = some n := by
  -- The last digit is the remainder, and the digits before it are those of the quotient.
  induction n using Nat.strong_induction_on with
  | _ n ih =>
    rw [Nat.toDigits_eq_if hone]
    split
    · rename_i hlt
      rw [show [n.digitChar] = [] ++ [n.digitChar] from rfl, digitsValue_concat,
        digitValue_digitChar hbase hlt]
      simp [digitsValue]
    · have hquot : n / base < n := Nat.div_lt_self (by omega) hone
      have hrem : n % base < base := Nat.mod_lt _ (by omega)
      rw [digitsValue_concat, ih _ hquot, digitValue_digitChar hbase hrem]
      simp only [Option.bind_some, Option.map_some, Option.some_inj]
      rw [Nat.mul_comm]
      exact Nat.div_add_mod n base

/-- The text of a number stands for it. -/
theorem NumberText.digitsValue_eq {base n : ℕ} {text : List Char} (hone : 1 < base)
    (hbase : base ≤ 16) (h : NumberText base n text) : digitsValue base text = some n := by
  obtain ⟨zeros, htext⟩ := h
  rw [← digitsValue_lowercase, htext, digitsValue_zeros (by omega), digitsValue_toDigits hone hbase]

/-- The text of a number is not empty. -/
theorem NumberText.ne_nil {base n : ℕ} {text : List Char} (h : NumberText base n text) :
    text ≠ [] := by
  obtain ⟨zeros, htext⟩ := h
  intro hnil
  have hlength := congrArg List.length htext
  have hpos : 0 < (Nat.toDigits base n).length := Nat.length_toDigits_pos
  rw [hnil, List.length_append] at hlength
  simp only [toAsciiLowercase, List.map_nil, List.length_nil] at hlength
  omega

/-- Every character of a text that stands for a number is a digit. -/
theorem digitValue_of_digitsValue {base n : ℕ} {text : List Char}
    (h : digitsValue base text = some n) : ∀ c ∈ text, ∃ d, digitValue base c = some d := by
  induction text using List.reverseRecOn generalizing n with
  | nil => exact fun c hc => absurd hc List.not_mem_nil
  | append_singleton text last ih =>
    rw [digitsValue_concat] at h
    obtain ⟨acc, hacc, hlast⟩ := Option.bind_eq_some_iff.mp h
    obtain ⟨d, hd, -⟩ := Option.map_eq_some_iff.mp hlast
    intro c hc
    rcases List.mem_append.mp hc with hc | hc
    · exact ih hacc c hc
    · exact ⟨d, by rw [List.mem_singleton.mp hc, hd]⟩

/-- A digit is a character from `0` on, and none of those between `9` and `A`. -/
theorem digit_bounds {base d : ℕ} {c : Char} (hbase : base ≤ 16) (h : digitValue base c = some d) :
    0x30 ≤ c.toNat ∧ c.toNat ≤ 0x39 ∨ IsLetter c := by
  unfold digitValue at h
  unfold IsLetter
  dsimp only at h
  split_ifs at h <;> omega

/-- The characters of a number are digits and letters. -/
theorem NumberText.bounds {base n : ℕ} {text : List Char} (hone : 1 < base) (hbase : base ≤ 16)
    (h : NumberText base n text) :
    ∀ c ∈ text, 0x30 ≤ c.toNat ∧ c.toNat ≤ 0x39 ∨ IsLetter c := by
  intro c hc
  obtain ⟨d, hd⟩ := digitValue_of_digitsValue (h.digitsValue_eq hone hbase) c hc
  exact digit_bounds hbase hd

/-- A number is read back from its text. -/
theorem NumberText.parseUnsigned_eq {base bound n : ℕ} {text : List Char} (hone : 1 < base)
    (hbase : base ≤ 16) (h : NumberText base n text) (hbound : n < bound) :
    parseUnsigned base bound text = some n := by
  have hplus : text.head? ≠ some '+' := by
    intro hhead
    have hcode : ('+' : Char).toNat = 0x2B := rfl
    have hrange := h.bounds hone hbase '+' (List.mem_of_mem_head? hhead)
    unfold IsLetter at hrange
    omega
  unfold parseUnsigned
  dsimp only
  rw [if_neg hplus, if_neg h.ne_nil, h.digitsValue_eq hone hbase, Option.filter_some]
  simp [hbound]

end Text
