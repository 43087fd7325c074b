import Mathlib.Data.List.Infix
import VmSpect.Lib.Printing
import VmSpect.Parsers.Linux

/-!
# Stanzas of the dpkg database

`parse_dpkg_status` reads lines and keeps the stanza that is open in four variables. A blank line
closes the stanza: it is collected and the variables are empty again. From there on the lines cannot
tell what stood before them, so the packages of two texts with a blank line between them are the
packages of the one and then those of the other.
-/

namespace VmSpect.Linux

open Polling

/-! ## A character that no pattern has -/

/-- `contains` says whether the pattern stands somewhere. -/
theorem containsText_iff (pattern text : List Char) :
    containsText pattern text = true ↔ pattern <:+: text := by
  unfold containsText
  rw [List.any_eq_true, List.infix_iff_prefix_suffix]
  constructor
  · rintro ⟨tail, htail, hpre⟩
    exact ⟨tail, List.isPrefixOf_iff_prefix.mp hpre, (List.mem_tails _ _).mp htail⟩
  · rintro ⟨tail, hpre, htail⟩
    exact ⟨tail, (List.mem_tails _ _).mpr htail, List.isPrefixOf_iff_prefix.mpr hpre⟩

/-- A pattern is not found in a character that it does not have. -/
theorem containsText_concat {pattern : List Char} {c : Char} (h : c ∉ pattern) (text : List Char) :
    containsText pattern (text ++ [c]) = containsText pattern text := by
  rw [Bool.eq_iff_iff, containsText_iff, containsText_iff, List.infix_concat_iff]
  constructor
  · rintro (hsuffix | hinfix)
    · rw [List.suffix_concat_iff] at hsuffix
      rcases hsuffix with rfl | ⟨front, rfl, -⟩
      · exact List.nil_infix
      · exact absurd (List.mem_append_right _ List.mem_cons_self) h
    · exact hinfix
  · exact Or.inr

/-- What `trim_start_matches` leaves, when the pattern stands at the front. -/
theorem trimStartText_prefixed {pattern text : List Char} (hne : pattern ≠ [])
    (h : pattern.isPrefixOf text = true) :
    trimStartText pattern text = trimStartText pattern (text.drop pattern.length) := by
  obtain ⟨c, cs, rfl⟩ := List.exists_cons_of_ne_nil hne
  obtain _ | ⟨d, ds⟩ := text
  · exact absurd h (by simp)
  · rw [trimStartText, if_pos h]

/-- What `trim_start_matches` leaves, when the pattern does not stand at the front. -/
theorem trimStartText_unprefixed {pattern text : List Char}
    (h : pattern.isPrefixOf text = false) : trimStartText pattern text = text := by
  unfold trimStartText
  split
  · rfl
  · split
    · rfl
    · rw [if_neg (by rw [h]; exact Bool.false_ne_true)]

/-- `trim_start_matches` does not look at a character at the end that the pattern does not have. -/
theorem trimStartText_concat {pattern : List Char} {c : Char} (hne : pattern ≠ [])
    (h : c ∉ pattern) (text : List Char) :
    trimStartText pattern (text ++ [c]) = trimStartText pattern text ++ [c] := by
  -- Induction on what is left of the text: each round drops the pattern once.
  induction hlen : text.length using Nat.strong_induction_on generalizing text with
  | _ n ih =>
    have hsame := Text.isPrefixOf_concat h text
    rcases hpre : pattern.isPrefixOf text with _ | _
    · rw [trimStartText_unprefixed (hsame.trans hpre), trimStartText_unprefixed hpre]
    · have hle : pattern.length ≤ text.length := (List.isPrefixOf_iff_prefix.mp hpre).length_le
      have hpos : 0 < pattern.length := List.length_pos_of_ne_nil hne
      have hdrop : (text.drop pattern.length).length < n := by rw [List.length_drop]; omega
      rw [trimStartText_prefixed hne (hsame.trans hpre), trimStartText_prefixed hne hpre,
        List.drop_append_of_le_length hle]
      exact ih _ hdrop _ rfl

/-! ## The state between two lines -/

section Lines

variable (shouldApps : Bool)

/-- A blank line: the open stanza is collected and none is open. -/
def DpkgState.flush (s : DpkgState) : DpkgState :=
  { s.processPackage shouldApps with
    currentPkg := [], currentVer := [], currentSection := [], installed := false }

/-- The lines of a text, one after the other. -/
def DpkgState.read (s : DpkgState) (text : List Char) : DpkgState :=
  (Text.lines text).foldl (fun s line => s.line shouldApps line) s

/-- What is returned when the text ends. -/
def DpkgState.finish (s : DpkgState) : List Program × Option GuestTools :=
  ((s.processPackage shouldApps).packages, (s.processPackage shouldApps).guestTools)

/-- Without a cancellation all lines are read. -/
theorem calm_dpkgLines (lines : List (List Char)) (s : DpkgState) :
    (dpkgLines shouldApps lines s).calm =
      some (lines.foldl (fun s line => s.line shouldApps line) s) := by
  induction lines generalizing s with
  | nil => rfl
  | cons line rest ih => exact ih (s.line shouldApps line)

/-- Without a cancellation the whole text is read and its last stanza is collected. -/
theorem calm_parseDpkgStatus (content : List Char) (options : Options) :
    (parseDpkgStatus content options).calm =
      some ((DpkgState.read options.shouldAnalyzeApps {} content).finish
        options.shouldAnalyzeApps) := by
  unfold parseDpkgStatus
  rw [Prog.calm_bind, calm_dpkgLines]
  rfl

/-- A line that is blank collects the stanza. -/
theorem DpkgState.line_blank (s : DpkgState) {line : List Char}
    (h : ∀ c ∈ line, Text.isWhitespace c = true) : s.line shouldApps line = s.flush shouldApps := by
  have hfield {key : List Char} (hkey : key.any (fun c => !Text.isWhitespace c) = true) :
      key.isPrefixOf line = false := by
    obtain ⟨c, hc, hblack⟩ := List.any_eq_true.mp hkey
    rw [Bool.not_eq_true'] at hblack
    rw [← Bool.not_eq_true, List.isPrefixOf_iff_prefix]
    intro hpre
    rw [h c (hpre.subset hc)] at hblack
    exact absurd hblack (by decide)
  have htrim : Text.trim line = [] := (Text.trimMatches_eq_nil_iff _ _).mpr h
  unfold DpkgState.line flush
  rw [hfield (by decide), hfield (by decide), hfield (by decide), hfield (by decide), htrim]
  rfl

/-- An empty line collects the stanza. -/
theorem DpkgState.line_nil (s : DpkgState) : s.line shouldApps [] = s.flush shouldApps :=
  s.line_blank shouldApps fun _ hc => absurd hc List.not_mem_nil

/-- A carriage return at the end of a line changes nothing. -/
theorem DpkgState.line_cr (s : DpkgState) (line : List Char) :
    s.line shouldApps (line ++ ['\r']) = s.line shouldApps line := by
  have hblank : ∀ c ∈ ['\r'], Text.isWhitespace c = true := List.forall_mem_singleton.mpr rfl
  have hkey {key : List Char} (hcr : '\r' ∉ key) :
      key.isPrefixOf (line ++ ['\r']) = key.isPrefixOf line := Text.isPrefixOf_concat hcr line
  have hfield {key : List Char} (hne : key ≠ []) (hcr : '\r' ∉ key) :
      Text.trim (trimStartText key (line ++ ['\r'])) = Text.trim (trimStartText key line) := by
    rw [trimStartText_concat hne hcr]
    exact Text.trimMatches_append hblank _
  have htrim : Text.trim (line ++ ['\r']) = Text.trim line := Text.trimMatches_append hblank _
  unfold DpkgState.line
  dsimp only
  rw [hkey (by decide), hkey (by decide), hkey (by decide), hkey (by decide),
    hfield (by decide) (by decide), hfield (by decide) (by decide), hfield (by decide) (by decide),
    containsText_concat (by decide), htrim]

/-- `lines` may take a carriage return off a line, and the parser does not notice. -/
theorem DpkgState.line_stripCr (s : DpkgState) (line : List Char) :
    s.line shouldApps (Text.stripCr line) = s.line shouldApps line := by
  unfold Text.stripCr
  split
  · rename_i hlast
    conv_rhs => rw [← List.dropLast_append_getLast? _ hlast]
    exact (s.line_cr shouldApps _).symm
  · rfl

/-- Reading a text that has a line feed is reading its first line and then the rest. -/
theorem DpkgState.read_line (s : DpkgState) {line : List Char} (h : '\n' ∉ line)
    (rest : List Char) :
    s.read shouldApps (line ++ '\n' :: rest) = (s.line shouldApps line).read shouldApps rest := by
  unfold read
  rw [Text.lines_line h, List.foldl_cons, s.line_stripCr]

/-- Reading a text that has no line feed. -/
theorem DpkgState.read_last (s : DpkgState) {line : List Char} (h : '\n' ∉ line) :
    s.read shouldApps line = if line = [] then s else s.line shouldApps line := by
  unfold read
  rw [Text.lines_last h]
  split <;> rfl

/-- A second blank line does nothing. -/
theorem DpkgState.flush_flush (s : DpkgState) :
    (s.flush shouldApps).flush shouldApps = s.flush shouldApps := rfl

/-- An empty line, with the line feed that ends the text before it, closes what the text left
open. -/
theorem DpkgState.read_separated (a b : List Char) (s : DpkgState) :
    s.read shouldApps (a ++ '\n' :: '\n' :: b) =
      ((s.read shouldApps a).flush shouldApps).read shouldApps b := by
  -- Induction on the text before the empty line, one line at a time.
  induction hlen : a.length using Nat.strong_induction_on generalizing a s with
  | _ n ih =>
    have hempty (t : DpkgState) : t.read shouldApps ('\n' :: b) =
        (t.flush shouldApps).read shouldApps b := by
      rw [← t.line_nil]
      exact t.read_line shouldApps List.not_mem_nil b
    rcases Text.firstLine_or a with ⟨line, rest, hline, ha⟩ | ha
    · have hlt : rest.length < n := by
        rw [← hlen, ha, List.length_append, List.length_cons]
        omega
      rw [ha, List.append_assoc, List.cons_append, s.read_line shouldApps hline,
        s.read_line shouldApps hline]
      exact ih _ hlt rest _ rfl
    · rw [s.read_line shouldApps ha, s.read_last shouldApps ha, hempty]
      split
      · rename_i hnil
        rw [hnil, s.line_nil, flush_flush]
      · rfl

/-! ## What was collected before -/

/-- The state with packages and tools that were collected before. -/
def DpkgState.after (packages : List Program) (tools : Option GuestTools) (s : DpkgState) :
    DpkgState :=
  { s with packages := packages ++ s.packages, guestTools := tools.or s.guestTools }

variable (packages : List Program) (tools : Option GuestTools)

/-- A stanza is collected after what was collected before. -/
theorem DpkgState.processPackage_after (s : DpkgState) :
    (s.after packages tools).processPackage shouldApps =
      (s.processPackage shouldApps).after packages tools := by
  unfold processPackage after
  by_cases hopen : s.installed ∧ s.currentPkg ≠ []
  · rw [if_pos hopen, if_pos hopen]
    rcases shouldApps with _ | _ <;> simp [Option.or_assoc]
  · rw [if_neg hopen, if_neg hopen]

/-- A line does not look at what was collected before. -/
theorem DpkgState.line_after (s : DpkgState) (line : List Char) :
    (s.after packages tools).line shouldApps line =
      (s.line shouldApps line).after packages tools := by
  unfold DpkgState.line
  dsimp only
  rw [processPackage_after]
  split_ifs <;> rfl

/-- The lines of a text do not look at what was collected before. -/
theorem DpkgState.read_after (s : DpkgState) (text : List Char) :
    (s.after packages tools).read shouldApps text =
      (s.read shouldApps text).after packages tools := by
  unfold read
  induction Text.lines text generalizing s with
  | nil => rfl
  | cons line rest ih =>
    rw [List.foldl_cons, List.foldl_cons, line_after]
    exact ih _

/-- Once a stanza is closed only what was collected is left. -/
theorem DpkgState.flush_eq_after (s : DpkgState) :
    s.flush shouldApps =
      DpkgState.after (s.finish shouldApps).1 (s.finish shouldApps).2 {} := by
  unfold flush after finish
  simp

/-- What a text with an empty line in it yields. -/
theorem DpkgState.finish_separated (a b : List Char) :
    (DpkgState.read shouldApps {} (a ++ '\n' :: '\n' :: b)).finish shouldApps =
      (((DpkgState.read shouldApps {} a).finish shouldApps).1 ++
          ((DpkgState.read shouldApps {} b).finish shouldApps).1,
        ((DpkgState.read shouldApps {} a).finish shouldApps).2.or
          ((DpkgState.read shouldApps {} b).finish shouldApps).2) := by
  rw [read_separated, flush_eq_after, read_after]
  unfold finish
  rw [processPackage_after]
  rfl

end Lines

/-- Stanzas do not leak into each other: without a cancellation, two texts with an empty line
between them yield the packages of the first and then those of the second, and the guest tools of
the first if it has any, otherwise those of the second. -/
theorem parseDpkgStatus_separated (a b : List Char) (options : Options) :
    ∃ packagesA toolsA packagesB toolsB,
      (parseDpkgStatus a options).calm = some (packagesA, toolsA) ∧
      (parseDpkgStatus b options).calm = some (packagesB, toolsB) ∧
      (parseDpkgStatus (a ++ "\n\n".toList ++ b) options).calm =
        some (packagesA ++ packagesB, toolsA.or toolsB) := by
  refine ⟨_, _, _, _, calm_parseDpkgStatus a options, calm_parseDpkgStatus b options, ?_⟩
  have htext : a ++ "\n\n".toList ++ b = a ++ '\n' :: '\n' :: b := List.append_assoc _ _ _
  rw [htext, calm_parseDpkgStatus, DpkgState.finish_separated]
  rfl

end VmSpect.Linux
