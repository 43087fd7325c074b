import Mathlib.Data.List.Infix

/-!
# Globs

A glob is read into parts: `*` stands for any text, `[0-9]` for a digit, and any other character for
itself. Globs that consist of a star and characters say how a text ends (`matches_ending`).
-/

namespace Globs

/-- A part of a glob. -/
inductive Part where
  /-- `*` -/
  | star
  /-- `[0-9]` -/
  | digit
  | char (c : Char)
  deriving DecidableEq

/-- The parts of a glob. -/
def parse : List Char → List Part
  | [] => []
  | '*' :: rest => .star :: parse rest
  | '[' :: '0' :: '-' :: '9' :: ']' :: rest => .digit :: parse rest
  | c :: rest => .char c :: parse rest

/-- A text that a glob stands for. -/
def Matches : List Part → List Char → Prop
  | [], text => text = []
  | .star :: parts, text => ∃ front rest, text = front ++ rest ∧ Matches parts rest
  | .digit :: parts, text => ∃ c rest, text = c :: rest ∧ c.isDigit = true ∧ Matches parts rest
  | .char c :: parts, text => ∃ rest, text = c :: rest ∧ Matches parts rest

/-- Characters stand for themselves. -/
theorem matches_chars (chars : List Char) (parts : List Part) (text : List Char) :
    Matches (chars.map .char ++ parts) text ↔ ∃ rest, text = chars ++ rest ∧ Matches parts rest := by
  induction chars generalizing text with
  | nil => simp
  | cons c chars ih =>
    rw [List.map_cons, List.cons_append, Matches]
    constructor
    · rintro ⟨rest, rfl, hrest⟩
      obtain ⟨rest, rfl, hparts⟩ := (ih rest).mp hrest
      exact ⟨rest, rfl, hparts⟩
    · rintro ⟨rest, rfl, hparts⟩
      exact ⟨chars ++ rest, rfl, (ih _).mpr ⟨rest, rfl, hparts⟩⟩

/-- A glob of characters stands for one text. -/
theorem matches_only_chars (chars text : List Char) :
    Matches (chars.map .char) text ↔ text = chars := by
  rw [← List.append_nil (chars.map Part.char), matches_chars]
  constructor
  · rintro ⟨rest, rfl, rfl⟩
    exact List.append_nil _
  · rintro rfl
    exact ⟨[], (List.append_nil _).symm, rfl⟩

/-- A star and characters stand for the texts with that ending. -/
theorem matches_ending (chars text : List Char) :
    Matches (.star :: chars.map .char) text ↔ chars <:+ text := by
  rw [Matches]
  constructor
  · rintro ⟨front, rest, rfl, hrest⟩
    rw [(matches_only_chars chars rest).mp hrest]
    exact List.suffix_append _ _
  · rintro ⟨front, rfl⟩
    exact ⟨front, chars, rfl, (matches_only_chars chars chars).mpr rfl⟩

/-- A separator with a digit after it, somewhere before an ending. -/
theorem matches_digit_after (sep ending text : List Char) :
    Matches (.star :: (sep.map .char ++ .digit :: .star :: ending.map .char)) text ↔
      ∃ front d rest, text = front ++ sep ++ d :: rest ++ ending ∧ d.isDigit = true := by
  rw [Matches]
  constructor
  · rintro ⟨front, rest, rfl, hrest⟩
    obtain ⟨rest, rfl, d, rest', rfl, hdigit, hending⟩ := (matches_chars _ _ _).mp hrest
    obtain ⟨middle, rfl⟩ := (matches_ending ending rest').mp hending
    exact ⟨front, d, middle, by simp, hdigit⟩
  · rintro ⟨front, d, rest, rfl, hdigit⟩
    refine ⟨front, sep ++ d :: (rest ++ ending), by simp, (matches_chars _ _ _).mpr ?_⟩
    exact ⟨_, rfl, d, rest ++ ending, rfl, hdigit,
      (matches_ending ending _).mpr (List.suffix_append _ _)⟩

end Globs
