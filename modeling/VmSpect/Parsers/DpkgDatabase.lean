import VmSpect.Parsers.DpkgStanzas

/-!
# The dpkg status database

The database as dpkg writes it: a stanza for each package that dpkg knows, with one `Package` and
one `Status` line, at most one `Version` and one `Section` line, other fields and continuation
lines, in any order; stanzas are separated by blank lines. The three words of a status are the
selection, the error flag and the state of the package. A package is installed when its state is
`installed`, but `parse_dpkg_status` looks for `install ok installed` in the line, and misses the
installed packages that are on hold, that are to be purged, or that must be reinstalled.
-/

namespace VmSpect.Linux

open Polling

/-! ## Status words -/

/-- What dpkg is to do with a package. -/
inductive Selection where
  | unknown
  | install
  | hold
  | deinstall
  | purge
  deriving DecidableEq, Repr

/-- Whether a package must be installed again. -/
inductive ErrorFlag where
  | ok
  | reinstreq
  deriving DecidableEq, Repr

/-- What became of a package. -/
inductive PackageState where
  | notInstalled
  | configFiles
  | halfInstalled
  | unpacked
  | halfConfigured
  | triggersAwaited
  | triggersPending
  | installed
  deriving DecidableEq, Repr

/-- The word for a selection. -/
def Selection.word : Selection → List Char
  | .unknown => "unknown".toList
  | .install => "install".toList
  | .hold => "hold".toList
  | .deinstall => "deinstall".toList
  | .purge => "purge".toList

/-- The word for an error flag. -/
def ErrorFlag.word : ErrorFlag → List Char
  | .ok => "ok".toList
  | .reinstreq => "reinstreq".toList

/-- The word for a state. -/
def PackageState.word : PackageState → List Char
  | .notInstalled => "not-installed".toList
  | .configFiles => "config-files".toList
  | .halfInstalled => "half-installed".toList
  | .unpacked => "unpacked".toList
  | .halfConfigured => "half-configured".toList
  | .triggersAwaited => "triggers-awaited".toList
  | .triggersPending => "triggers-pending".toList
  | .installed => "installed".toList

/-- The status of a package. -/
structure Status where
  selection : Selection
  flag : ErrorFlag
  state : PackageState
  deriving DecidableEq, Repr

/-- The line of a status. -/
def Status.line (status : Status) : List Char :=
  "Status: ".toList ++ status.selection.word ++ ' ' :: status.flag.word ++
    ' ' :: status.state.word

/-- The test of `parse_dpkg_status` on a status line. -/
def Status.reported (status : Status) : Bool :=
  containsText "install ok installed".toList status.line

/-- A word: a value that has no white space. -/
structure Word where
  text : List Char
  ne_nil : text ≠ []
  no_blank : ∀ c ∈ text, Text.isWhitespace c = false

/-- The lines of a stanza that tell nothing about the package: a continuation line, which begins
with a blank and is not blank, and a field of another name. -/
inductive OtherLine : List Char → Prop
  | continuation {blank : Char} {rest : List Char} (hblank : blank = ' ' ∨ blank = '\t')
      (hfeed : '\n' ∉ rest) (hrest : ∃ c ∈ rest, Text.isWhitespace c = false) :
      OtherLine (blank :: rest)
  | field {key value : List Char} (hne : key ≠ [])
      (hkey : ∀ c ∈ key, Text.isWhitespace c = false ∧ c ≠ ':')
      (hother : key ∉ ["Package".toList, "Status".toList, "Version".toList, "Section".toList])
      (hvalue : '\n' ∉ value) : OtherLine (key ++ ':' :: value)

/-- A line of a stanza. -/
inductive StanzaLine where
  | package (name : Word)
  | status (value : Status)
  | version (value : Word)
  | section_ (name : Word)
  | other (text : List Char) (h : OtherLine text)

/-- The text of a line. -/
def StanzaLine.text : StanzaLine → List Char
  | .package name => "Package: ".toList ++ name.text
  | .status value => value.line
  | .version value => "Version: ".toList ++ value.text
  | .section_ name => "Section: ".toList ++ name.text
  | .other text _ => text

/-- The name of the package, on a `Package` line. -/
def StanzaLine.package? : StanzaLine → Option Word
  | .package name => some name
  | _ => none

/-- The status, on a `Status` line. -/
def StanzaLine.status? : StanzaLine → Option Status
  | .status value => some value
  | _ => none

/-- The version, on a `Version` line. -/
def StanzaLine.version? : StanzaLine → Option Word
  | .version value => some value
  | _ => none

/-- The section, on a `Section` line. -/
def StanzaLine.section? : StanzaLine → Option Word
  | .section_ name => some name
  | _ => none

/-- A stanza: what it says of its package, and lines that say so, in any order. -/
structure Stanza where
  name : Word
  status : Status
  version : Option Word
  section_ : Option Word
  lines : List StanzaLine
  package_lines : lines.filterMap StanzaLine.package? = [name]
  status_lines : lines.filterMap StanzaLine.status? = [status]
  version_lines : lines.filterMap StanzaLine.version? = version.toList
  section_lines : lines.filterMap StanzaLine.section? = section_.toList

/-- The program that a stanza describes. -/
def Stanza.program (stanza : Stanza) : Program :=
  ⟨stanza.name.text, stanza.version.map Word.text, stanza.section_.map Word.text, none⟩

/-- The lines of a database with these stanzas: after a stanza comes a blank line or the end, and
blank lines may stand before, between and behind the stanzas. -/
inductive DatabaseLines : List Stanza → List (List Char) → Prop
  | empty : DatabaseLines [] []
  | blank {stanzas : List Stanza} {lines : List (List Char)} {blank : List Char}
      (hblank : ∀ c ∈ blank, c = ' ' ∨ c = '\t') (h : DatabaseLines stanzas lines) :
      DatabaseLines stanzas (blank :: lines)
  | last (stanza : Stanza) : DatabaseLines [stanza] (stanza.lines.map StanzaLine.text)
  | stanza {stanzas : List Stanza} {lines : List (List Char)} {blank : List Char}
      (stanza : Stanza) (hblank : ∀ c ∈ blank, c = ' ' ∨ c = '\t')
      (h : DatabaseLines stanzas lines) :
      DatabaseLines (stanza :: stanzas) (stanza.lines.map StanzaLine.text ++ blank :: lines)

/-- Lines, each ended by a line feed. -/
def fedLines (lines : List (List Char)) : List Char := lines.flatMap (· ++ ['\n'])

/-- A text that is a database with these stanzas. The line feed of the last line may be missing. -/
def Database (stanzas : List Stanza) (text : List Char) : Prop :=
  ∃ lines, DatabaseLines stanzas lines ∧ (text = fedLines lines ∨ text ++ ['\n'] = fedLines lines)

/-! ## Reading a stanza -/

/-- A field is not taken for one of another name. -/
theorem isPrefixOf_field {key name value rest : List Char} (hkey : ':' ∉ key) (hname : ':' ∉ name)
    (hne : name ≠ key) : (key ++ ':' :: rest).isPrefixOf (name ++ ':' :: value) = false := by
  rw [← Bool.not_eq_true, List.isPrefixOf_iff_prefix]
  rintro ⟨tail, htail⟩
  rw [List.append_assoc, List.cons_append] at htail
  have hkeySplit := Text.splitOnce_append hkey (rest ++ tail)
  rw [htail, Text.splitOnce_append hname] at hkeySplit
  exact hne (congrArg Prod.fst (Option.some.inj hkeySplit))

/-- A line that tells nothing about the package begins with none of the four fields. -/
theorem OtherLine.not_field {text : List Char} (h : OtherLine text) (key : List Char)
    (hkey : key ∈ ["Package".toList, "Status".toList, "Version".toList, "Section".toList]) :
    (key ++ [':', ' ']).isPrefixOf text = false := by
  have hcolon : ':' ∉ key := by
    have hall : ["Package".toList, "Status".toList, "Version".toList, "Section".toList].all
        (fun key => !key.contains ':') = true := by decide
    simpa using List.all_eq_true.mp hall key hkey
  rcases h with ⟨hblank, -, -⟩ | ⟨hne, hname, hother, -⟩
  · have hhead : ["Package".toList, "Status".toList, "Version".toList, "Section".toList].all
        (fun key => key.head? ≠ some ' ' ∧ key.head? ≠ some '\t' ∧ key ≠ []) = true := by decide
    have hkeyHead := List.all_eq_true.mp hhead key hkey
    obtain _ | ⟨c, key⟩ := key
    · exact absurd hkeyHead (by decide)
    · rcases hblank with rfl | rfl
      · simp_all [List.isPrefixOf]
      · simp_all [List.isPrefixOf]
  · refine isPrefixOf_field hcolon (fun hmem => (hname _ hmem).2 rfl) ?_
    rintro rfl
    exact hother hkey

/-- A line that tells nothing about the package is not blank. -/
theorem OtherLine.trim_ne_nil {text : List Char} (h : OtherLine text) : Text.trim text ≠ [] := by
  rw [Text.trim_ne_nil_iff]
  rcases h with ⟨-, -, c, hc, hblack⟩ | ⟨hne, hname, -, -⟩
  · exact ⟨c, List.mem_cons_of_mem _ hc, hblack⟩
  · obtain ⟨c, key, rfl⟩ := List.exists_cons_of_ne_nil hne
    exact ⟨c, List.mem_cons_self, (hname c List.mem_cons_self).1⟩

/-- The value of a field is the word that stands there. -/
theorem Word.field_value (word : Word) (key : List Char) (hkey : ' ' ∈ key) :
    Text.trim (trimStartText key (key ++ word.text)) = word.text := by
  have hne : key ≠ [] := List.ne_nil_of_mem hkey
  have hpre : key.isPrefixOf (key ++ word.text) = true :=
    List.isPrefixOf_iff_prefix.mpr (List.prefix_append _ _)
  have hword : key.isPrefixOf word.text = false := by
    rw [← Bool.not_eq_true, List.isPrefixOf_iff_prefix]
    intro hpre
    have hblank := word.no_blank ' ' (hpre.subset hkey)
    exact absurd hblank (by decide)
  rw [trimStartText_prefixed hne hpre, List.drop_left, trimStartText_unprefixed hword]
  exact (Text.Trimmed.of_forall word.no_blank).trimMatches_eq

/-- What a line of a stanza does to the stanza that is open. -/
def StanzaLine.apply (s : DpkgState) : StanzaLine → DpkgState
  | .package name => { s with currentPkg := name.text }
  | .status value => { s with installed := value.reported }
  | .version value => { s with currentVer := value.text }
  | .section_ name => { s with currentSection := name.text }
  | .other _ _ => s

/-- `parse_dpkg_status` takes each line of a stanza for what it is. -/
theorem DpkgState.line_text (shouldApps : Bool) (s : DpkgState) (line : StanzaLine) :
    s.line shouldApps line.text = line.apply s := by
  rcases line with name | value | value | name | ⟨text, hother⟩
  · have hvalue := name.field_value "Package: ".toList (by decide)
    unfold StanzaLine.text DpkgState.line StanzaLine.apply
    dsimp only
    rw [hvalue]
    rfl
  · rfl
  · have hvalue := value.field_value "Version: ".toList (by decide)
    unfold StanzaLine.text DpkgState.line StanzaLine.apply
    dsimp only
    rw [hvalue]
    rfl
  · have hvalue := name.field_value "Section: ".toList (by decide)
    unfold StanzaLine.text DpkgState.line StanzaLine.apply
    dsimp only
    rw [hvalue]
    rfl
  · have hpackage : "Package: ".toList.isPrefixOf text = false :=
      hother.not_field "Package".toList (by decide)
    have hstatus : "Status: ".toList.isPrefixOf text = false :=
      hother.not_field "Status".toList (by decide)
    have hversion : "Version: ".toList.isPrefixOf text = false :=
      hother.not_field "Version".toList (by decide)
    have hsection : "Section: ".toList.isPrefixOf text = false :=
      hother.not_field "Section".toList (by decide)
    unfold StanzaLine.text DpkgState.line StanzaLine.apply
    dsimp only
    rw [hpackage, hstatus, hversion, hsection, if_neg hother.trim_ne_nil]
    rfl

/-- A fold that keeps the last value of one kind of entry in a field. -/
theorem foldl_field {α β σ γ : Type} (step : σ → α → σ) (field : σ → γ) (pick : α → Option β)
    (value : β → γ) (h : ∀ s a, field (step s a) = ((pick a).map value).getD (field s))
    (entries : List α) (s : σ) :
    field (entries.foldl step s) =
      (entries.filterMap pick).foldl (fun _ b => value b) (field s) := by
  induction entries generalizing s with
  | nil => rfl
  | cons a rest ih =>
    rw [List.foldl_cons, ih, h]
    rcases hpick : pick a with _ | b
    · rw [List.filterMap_cons_none hpick]
      rfl
    · rw [List.filterMap_cons_some hpick]
      rfl

/-- The lines of a stanza set the open stanza to what the stanza says. -/
theorem Stanza.foldl_apply (stanza : Stanza) (packages : List Program)
    (tools : Option GuestTools) :
    stanza.lines.foldl StanzaLine.apply ⟨packages, tools, [], [], [], false⟩ =
      ⟨packages, tools, stanza.name.text, (stanza.version.map Word.text).getD [],
        (stanza.section_.map Word.text).getD [], stanza.status.reported⟩ := by
  set start : DpkgState := ⟨packages, tools, [], [], [], false⟩ with hstart
  have hpackages := foldl_field StanzaLine.apply DpkgState.packages (fun _ => (none : Option Unit))
    (fun _ => packages) (by rintro s (_ | _ | _ | _ | _) <;> rfl) stanza.lines start
  have htools := foldl_field StanzaLine.apply DpkgState.guestTools (fun _ => (none : Option Unit))
    (fun _ => tools) (by rintro s (_ | _ | _ | _ | _) <;> rfl) stanza.lines start
  have hname := foldl_field StanzaLine.apply DpkgState.currentPkg StanzaLine.package? Word.text
    (by rintro s (_ | _ | _ | _ | _) <;> rfl) stanza.lines start
  have hversion := foldl_field StanzaLine.apply DpkgState.currentVer StanzaLine.version? Word.text
    (by rintro s (_ | _ | _ | _ | _) <;> rfl) stanza.lines start
  have hsection := foldl_field StanzaLine.apply DpkgState.currentSection StanzaLine.section?
    Word.text (by rintro s (_ | _ | _ | _ | _) <;> rfl) stanza.lines start
  have hstatus := foldl_field StanzaLine.apply DpkgState.installed StanzaLine.status?
    Status.reported (by rintro s (_ | _ | _ | _ | _) <;> rfl) stanza.lines start
  rw [stanza.package_lines] at hname
  rw [stanza.version_lines] at hversion
  rw [stanza.section_lines] at hsection
  rw [stanza.status_lines] at hstatus
  have hnone : stanza.lines.filterMap (fun _ => (none : Option Unit)) = [] :=
    List.filterMap_eq_nil_iff.mpr fun _ _ => rfl
  rw [hnone] at hpackages htools
  generalize stanza.lines.foldl StanzaLine.apply start = s at *
  obtain ⟨_, _, _, _, _, _⟩ := s
  dsimp only at *
  subst hpackages htools hname hstatus
  rw [hversion, hsection]
  rcases stanza.version with _ | _ <;> rcases stanza.section_ with _ | _ <;> rfl

/-- A text is left out when it is empty, and a word is not. -/
theorem nonEmpty_word (word : Option Word) :
    nonEmpty ((word.map Word.text).getD []) = word.map Word.text := by
  rcases word with _ | word
  · rfl
  · exact if_neg word.ne_nil

/-- A stanza is collected when its status is accepted. -/
theorem Stanza.processPackage_eq (stanza : Stanza) (packages : List Program)
    (tools : Option GuestTools) :
    (DpkgState.processPackage true ⟨packages, tools, stanza.name.text,
        (stanza.version.map Word.text).getD [], (stanza.section_.map Word.text).getD [],
        stanza.status.reported⟩).packages =
      packages ++ if stanza.status.reported then [stanza.program] else [] := by
  unfold DpkgState.processPackage
  rcases hreported : stanza.status.reported with _ | _
  · simp
  · rw [if_pos ⟨rfl, stanza.name.ne_nil⟩, nonEmpty_word, nonEmpty_word]
    rfl

/-- The packages that a database yields: those of the stanzas whose status is accepted. -/
theorem DatabaseLines.packages_eq {stanzas : List Stanza} {lines : List (List Char)}
    (h : DatabaseLines stanzas lines) (packages : List Program) (tools : Option GuestTools) :
    ((lines.foldl (DpkgState.line true) ⟨packages, tools, [], [], [], false⟩).finish true).1 =
      packages ++ (stanzas.filter (·.status.reported)).map Stanza.program := by
  have hstanza (stanza : Stanza) (s : DpkgState) :
      (stanza.lines.map StanzaLine.text).foldl (DpkgState.line true) s =
        stanza.lines.foldl StanzaLine.apply s := by
    rw [List.foldl_map]
    simp only [DpkgState.line_text]
  have hblankLine {blank : List Char} (hblank : ∀ c ∈ blank, c = ' ' ∨ c = '\t') (s : DpkgState) :
      s.line true blank = s.flush true := by
    refine s.line_blank true fun c hc => ?_
    rcases hblank c hc with rfl | rfl <;> rfl
  induction h generalizing packages tools with
  | empty => exact (List.append_nil _).symm
  | blank hblank _ ih =>
    rw [List.foldl_cons, hblankLine hblank]
    exact ih packages tools
  | last stanza =>
    rw [hstanza, stanza.foldl_apply]
    refine (stanza.processPackage_eq packages tools).trans ?_
    rw [List.filter_cons]
    rcases stanza.status.reported with _ | _ <;> rfl
  | stanza stanza hblank _ ih =>
    rw [List.foldl_append, List.foldl_cons, hstanza, stanza.foldl_apply, hblankLine hblank]
    unfold DpkgState.flush
    dsimp only
    rw [ih, stanza.processPackage_eq packages tools, List.append_assoc, List.filter_cons]
    rcases stanza.status.reported with _ | _ <;> rfl

/-! ## The text of a database -/

/-- No line of a database has a line feed. -/
theorem StanzaLine.feed_not_mem (line : StanzaLine) : '\n' ∉ line.text := by
  have hword (key : List Char) (word : Word) (hkey : '\n' ∉ key) : '\n' ∉ key ++ word.text := by
    rw [List.mem_append]
    rintro (hmem | hmem)
    · exact hkey hmem
    · exact absurd (word.no_blank _ hmem) (by decide)
  rcases line with name | ⟨selection, flag, state⟩ | value | name | ⟨text, hother⟩
  · exact hword _ name (by decide)
  · rcases selection <;> rcases flag <;> rcases state <;> decide
  · exact hword _ value (by decide)
  · exact hword _ name (by decide)
  · unfold StanzaLine.text
    rcases hother with ⟨hblank, hfeed, -⟩ | ⟨-, hkey, -, hvalue⟩
    · rw [List.mem_cons, not_or]
      exact ⟨by rcases hblank with rfl | rfl <;> decide, hfeed⟩
    · rw [List.mem_append, List.mem_cons, not_or, not_or]
      exact ⟨fun hmem => absurd (hkey _ hmem).1 (by decide), by decide, hvalue⟩

/-- The lines of a database are lines. -/
theorem DatabaseLines.feed_not_mem {stanzas : List Stanza} {lines : List (List Char)}
    (h : DatabaseLines stanzas lines) : ∀ line ∈ lines, '\n' ∉ line := by
  have hstanza (stanza : Stanza) : ∀ line ∈ stanza.lines.map StanzaLine.text, '\n' ∉ line := by
    intro line hline
    obtain ⟨stanzaLine, -, rfl⟩ := List.mem_map.mp hline
    exact stanzaLine.feed_not_mem
  have hblankLine {blank : List Char} (hblank : ∀ c ∈ blank, c = ' ' ∨ c = '\t') :
      '\n' ∉ blank := fun hmem => absurd (hblank _ hmem) (by decide)
  induction h with
  | empty => exact fun line hline => absurd hline List.not_mem_nil
  | blank hblank _ ih => exact List.forall_mem_cons.mpr ⟨hblankLine hblank, ih⟩
  | last stanza => exact hstanza stanza
  | stanza stanza hblank _ ih =>
    exact List.forall_mem_append.mpr
      ⟨hstanza stanza, List.forall_mem_cons.mpr ⟨hblankLine hblank, ih⟩⟩

/-- Reading lines that all end with a line feed. -/
theorem DpkgState.read_fedLines (shouldApps : Bool) {lines : List (List Char)}
    (h : ∀ line ∈ lines, '\n' ∉ line) (s : DpkgState) :
    s.read shouldApps (fedLines lines) = lines.foldl (DpkgState.line shouldApps) s := by
  induction lines generalizing s with
  | nil => rfl
  | cons line rest ih =>
    obtain ⟨hline, hrest⟩ := List.forall_mem_cons.mp h
    have htext : fedLines (line :: rest) = line ++ '\n' :: fedLines rest := by
      rw [fedLines, List.flatMap_cons, List.append_assoc]
      rfl
    rw [htext, s.read_line shouldApps hline, List.foldl_cons]
    exact ih hrest _

/-- A line feed at the end of the text makes no difference. -/
theorem DpkgState.finish_feed (shouldApps : Bool) (text : List Char) (s : DpkgState) :
    (s.read shouldApps (text ++ ['\n'])).finish shouldApps =
      (s.read shouldApps text).finish shouldApps := by
  -- Induction on the text, one line at a time; an empty line at the end collects early.
  induction hlen : text.length using Nat.strong_induction_on generalizing text s with
  | _ n ih =>
    rcases Text.firstLine_or text with ⟨line, rest, hline, htext⟩ | hline
    · have hlt : rest.length < n := by
        rw [← hlen, htext, List.length_append, List.length_cons]
        omega
      rw [htext, List.append_assoc, List.cons_append, s.read_line shouldApps hline,
        s.read_line shouldApps hline]
      exact ih _ hlt rest _ rfl
    · rw [s.read_line shouldApps hline, s.read_last shouldApps hline]
      split
      · rename_i hnil
        rw [hnil, s.line_nil]
        rfl
      · rfl

/-- The programs that `parse_dpkg_status` finds in a database. -/
theorem Database.calm_eq {stanzas : List Stanza} {text : List Char} (h : Database stanzas text)
    (options : Options) (happs : options.shouldAnalyzeApps = true) :
    ∃ tools, (parseDpkgStatus text options).calm =
      some ((stanzas.filter (·.status.reported)).map Stanza.program, tools) := by
  obtain ⟨lines, hlines, htext⟩ := h
  have hread : (DpkgState.read true {} text).finish true =
      (lines.foldl (DpkgState.line true) {}).finish true := by
    rw [← DpkgState.read_fedLines true hlines.feed_not_mem]
    rcases htext with htext | htext
    · rw [htext]
    · rw [← htext, DpkgState.finish_feed]
  have hpackages := hlines.packages_eq [] none
  refine ⟨((lines.foldl (DpkgState.line true) {}).finish true).2, ?_⟩
  rw [calm_parseDpkgStatus, happs, hread]
  exact congrArg some (Prod.ext hpackages rfl)

/-- A word from a text, when it is one. -/
def Word.ofText (text : String)
    (h : text.toList ≠ [] ∧ text.toList.all (fun c => !Text.isWhitespace c) = true) : Word where
  text := text.toList
  ne_nil := h.1
  no_blank c hc := by simpa using List.all_eq_true.mp h.2 c hc

/-- Options that ask for the applications. -/
def appsOptions : Options := ⟨false, false, false, none, none, false, none⟩

end VmSpect.Linux
