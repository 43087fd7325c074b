import VmSpect.Parsers.DpkgDatabase

/-!
# The release file of a guest

`/etc/os-release` is a list of assignments, whose values may stand in quotes, with comments and
blank lines between them. A `Release` is what such a file says, and lines that say so, in any order.
`parse_os_release` gives it back (`Release.parse_eq`).
-/

namespace VmSpect.Linux

open Text (Trimmed isWhitespace trim trimMatches stripCr)

/-! ## Release files -/

/-- How a value is quoted. -/
inductive Quoting where
  | bare
  | double
  | single

/-- A value, which neither begins nor ends with a quote. Outside of quotes it has no blanks at its
ends either. -/
structure ReleaseValue where
  text : List Char
  quoting : Quoting
  feed_not_mem : '\n' ∉ text
  no_quotes : Trimmed (fun c => c = '"' || c = '\'') text
  no_blanks : quoting = .bare → Trimmed isWhitespace text

/-- The value as it stands in the file. -/
def ReleaseValue.written (value : ReleaseValue) : List Char :=
  match value.quoting with
  | .bare => value.text
  | .double => ['"'] ++ value.text ++ ['"']
  | .single => ['\''] ++ value.text ++ ['\'']

/-- A line of the file. -/
inductive ReleaseLine where
  | assign (key : List Char) (value : ReleaseValue)
      (hkey : ∀ c ∈ key, isWhitespace c = false ∧ c ≠ '=') (hhead : key.head? ≠ some '#')
  | comment (text : List Char) (htext : '\n' ∉ text)
  | blank (text : List Char) (htext : ∀ c ∈ text, c = ' ' ∨ c = '\t')

namespace ReleaseLine

/-- The text of a line. -/
def text : ReleaseLine → List Char
  | assign key value _ _ => key ++ '=' :: value.written
  | comment text _ => '#' :: text
  | blank text _ => text

/-- The value that a line gives to a key. -/
def value? (name : String) : ReleaseLine → Option (List Char)
  | assign key value _ _ => if key = name.toList then some value.text else none
  | _ => none

end ReleaseLine

/-- A release: what the file says about it, and lines that say so, in any order. -/
structure Release where
  prettyName : Option (List Char)
  name : Option (List Char)
  versionId : Option (List Char)
  lines : List ReleaseLine
  pretty_ne : ∀ value ∈ prettyName, value ≠ []
  pretty_lines : lines.filterMap (ReleaseLine.value? "PRETTY_NAME") = prettyName.toList
  name_lines : lines.filterMap (ReleaseLine.value? "NAME") = name.toList
  version_lines : lines.filterMap (ReleaseLine.value? "VERSION_ID") = versionId.toList

/-- A text of the release. The line feed of the last line may be missing. -/
def Release.Written (release : Release) (text : List Char) : Prop :=
  text = fedLines (release.lines.map ReleaseLine.text) ∨
    text ++ ['\n'] = fedLines (release.lines.map ReleaseLine.text)

/-- What the guest is called, by its release. -/
def Release.info (release : Release) : GuestInfo where
  osName := (release.prettyName.or release.name).getD []
  osBuild := release.versionId.getD []

/-! ## Lines -/

/-- What an assignment does to the information. -/
def setRelease (info : GuestInfo) (key value : List Char) : GuestInfo :=
  if key = "PRETTY_NAME".toList then { info with osName := value }
  else if key = "VERSION_ID".toList ∧ info.osBuild = [] then { info with osBuild := value }
  else if key = "NAME".toList ∧ info.osName = [] then { info with osName := value }
  else info

/-- What a line does to it. -/
def ReleaseLine.apply (info : GuestInfo) : ReleaseLine → GuestInfo
  | assign key value _ _ => setRelease info key value.text
  | _ => info

/-- The parser only looks at the trimmed line. -/
theorem osReleaseLine_trim {line line' : List Char} (h : trim line = trim line')
    (info : GuestInfo) : osReleaseLine info line = osReleaseLine info line' := by
  unfold osReleaseLine
  rw [h]

/-- So a carriage return at its end makes no difference. -/
theorem osReleaseLine_stripCr (info : GuestInfo) (line : List Char) :
    osReleaseLine info (stripCr line) = osReleaseLine info line := by
  obtain ⟨dropped, hdropped, hline⟩ := Text.stripCr_append line
  apply osReleaseLine_trim
  have hblank : ∀ c ∈ dropped, isWhitespace c = true := by
    intro c hc
    rw [hdropped c hc]
    rfl
  calc trim (stripCr line) = trim (stripCr line ++ dropped) :=
        (Text.trimMatches_append hblank _).symm
    _ = trim line := by rw [← hline]

/-- A text between two characters that are not trimmed is trimmed. -/
theorem trimmed_between {p : Char → Bool} {c : Char} (h : p c = false) (text : List Char) :
    Trimmed p ([c] ++ text ++ [c]) := by
  have hends : ∀ d ∈ some c, p d = false := by
    rintro d ⟨⟩
    exact h
  rw [List.append_assoc]
  exact Trimmed.of_ends (List.cons_ne_nil c []) (List.cons_ne_nil c []) hends hends text

namespace ReleaseValue

/-- A value has no blanks at its ends. -/
theorem trimmed_written (value : ReleaseValue) : Trimmed isWhitespace value.written := by
  obtain ⟨text, quoting, -, -, hblanks⟩ := value
  cases quoting with
  | bare => exact hblanks rfl
  | double => exact trimmed_between rfl text
  | single => exact trimmed_between rfl text

/-- A value is what is left of it without its quotes. -/
theorem unquoted (value : ReleaseValue) :
    trimMatches (· = '\'') (trimMatches (· = '"') value.written) = value.text := by
  obtain ⟨text, quoting, -, ⟨hhead, hlast⟩, -⟩ := value
  have hdouble : Trimmed (fun c => decide (c = '"')) text :=
    ⟨fun c hc => (Bool.or_eq_false_iff.mp (hhead c hc)).1,
      fun c hc => (Bool.or_eq_false_iff.mp (hlast c hc)).1⟩
  have hsingle : Trimmed (fun c => decide (c = '\'')) text :=
    ⟨fun c hc => (Bool.or_eq_false_iff.mp (hhead c hc)).2,
      fun c hc => (Bool.or_eq_false_iff.mp (hlast c hc)).2⟩
  cases quoting with
  | bare => rw [written, hdouble.trimMatches_eq, hsingle.trimMatches_eq]
  | double => rw [written, hdouble.trimMatches_padded (by simp) (by simp), hsingle.trimMatches_eq]
  | single =>
    have hquoted : Trimmed (fun c => decide (c = '"')) (['\''] ++ text ++ ['\'']) :=
      trimmed_between rfl text
    rw [written, hquoted.trimMatches_eq, hsingle.trimMatches_padded (by simp) (by simp)]

end ReleaseValue

/-- The parser takes each line for what it is. -/
theorem osReleaseLine_text (info : GuestInfo) (line : ReleaseLine) :
    osReleaseLine info line.text = line.apply info := by
  cases line with
  | assign key value hkey hhead =>
    have hline : Trimmed isWhitespace (key ++ '=' :: value.written) := by
      constructor
      · intro c hc
        cases key with
        | nil =>
          obtain rfl := Option.some.inj hc
          rfl
        | cons d rest =>
          obtain rfl := Option.some.inj hc
          exact (hkey _ List.mem_cons_self).1
      · rw [List.getLast?_append_of_ne_nil _ (List.cons_ne_nil _ _), List.getLast?_cons]
        rintro c ⟨⟩
        cases hlast : value.written.getLast? with
        | none => rfl
        | some d => exact value.trimmed_written.2 d hlast
    have hsplit := Text.splitOnce_append (fun hmem => (hkey _ hmem).2 rfl) value.written
    have hname : trim key = key := (Trimmed.of_forall fun c hc => (hkey c hc).1).trimMatches_eq
    have hvalue : trim value.written = value.written := value.trimmed_written.trimMatches_eq
    have hcomment : (key ++ '=' :: value.written).head? ≠ some '#' := by
      cases key with
      | nil => exact fun h => absurd (Option.some.inj h) (by decide)
      | cons d rest => exact hhead
    unfold osReleaseLine ReleaseLine.text
    rw [show trim (key ++ '=' :: value.written) = _ from hline.trimMatches_eq]
    dsimp only
    rw [if_neg hcomment, hsplit]
    dsimp only
    rw [hname, hvalue, value.unquoted]
    rfl
  | comment text htext =>
    obtain ⟨more, htrim⟩ := Text.trimMatches_cons (p := isWhitespace) (c := '#') rfl text
    unfold osReleaseLine ReleaseLine.text
    rw [show trim ('#' :: text) = '#' :: more from htrim]
    rfl
  | blank text htext =>
    have htrim : trim text = [] := by
      refine (Text.trimMatches_eq_nil_iff _ _).mpr fun c hc => ?_
      rcases htext c hc with rfl | rfl <;> rfl
    unfold osReleaseLine ReleaseLine.text
    rw [htrim]
    rfl

/-- No line has a line feed. -/
theorem ReleaseLine.feed_not_mem (line : ReleaseLine) : '\n' ∉ line.text := by
  cases line with
  | assign key value hkey hhead =>
    have hwritten : '\n' ∉ value.written := by
      obtain ⟨text, quoting, hfeed, -, -⟩ := value
      cases quoting <;> simp [ReleaseValue.written, hfeed]
    unfold text
    rw [List.mem_append, List.mem_cons, not_or, not_or]
    exact ⟨fun hmem => absurd (hkey _ hmem).1 (by decide), by decide, hwritten⟩
  | comment text htext =>
    unfold ReleaseLine.text
    rw [List.mem_cons, not_or]
    exact ⟨by decide, htext⟩
  | blank text htext => exact fun hmem => absurd (htext _ hmem) (by decide)

/-! ## Files -/

/-- Reading lines that all end with a line feed. -/
theorem parseOsRelease_fedLines {lines : List (List Char)} (h : ∀ line ∈ lines, '\n' ∉ line)
    (info : GuestInfo) :
    parseOsRelease (fedLines lines) info = lines.foldl osReleaseLine info := by
  induction lines generalizing info with
  | nil => rfl
  | cons line rest ih =>
    obtain ⟨hline, hrest⟩ := List.forall_mem_cons.mp h
    have htext : fedLines (line :: rest) = line ++ '\n' :: fedLines rest := by
      rw [fedLines, List.flatMap_cons, List.append_assoc]
      rfl
    unfold parseOsRelease at ih ⊢
    rw [htext, Text.lines_line hline, List.foldl_cons, osReleaseLine_stripCr, List.foldl_cons]
    exact ih hrest _

/-- A line feed at the end of the text makes no difference. -/
theorem parseOsRelease_feed (text : List Char) (info : GuestInfo) :
    parseOsRelease (text ++ ['\n']) info = parseOsRelease text info := by
  unfold parseOsRelease
  -- Induction on the text, one line at a time.
  induction hlen : text.length using Nat.strong_induction_on generalizing text info with
  | _ n ih =>
    rcases Text.firstLine_or text with ⟨line, rest, hline, htext⟩ | hline
    · have hlt : rest.length < n := by
        rw [← hlen, htext, List.length_append, List.length_cons]
        omega
      rw [htext, List.append_assoc, List.cons_append, Text.lines_line hline, Text.lines_line hline,
        List.foldl_cons, List.foldl_cons]
      exact ih _ hlt rest _ rfl
    · rw [Text.lines_line hline, Text.lines_last hline, List.foldl_cons, osReleaseLine_stripCr]
      split
      · rename_i hnil
        rw [hnil]
        rfl
      · rfl

/-- A text that is kept, or the first of some texts that is not empty. -/
def firstOf (old : List Char) (values : List (List Char)) : List Char :=
  if old = [] then (values.find? (· ≠ [])).getD [] else old

/-- The values can be taken in two parts. -/
theorem firstOf_append (old : List Char) (first second : List (List Char)) :
    firstOf (firstOf old first) second = firstOf old (first ++ second) := by
  unfold firstOf
  by_cases hold : old = []
  · rw [if_pos hold, if_pos hold, List.find?_append]
    cases hfound : first.find? (· ≠ []) with
    | none => rfl
    | some value =>
      have hvalue : value ≠ [] := by simpa using List.find?_some hfound
      exact if_neg hvalue
  · rw [if_neg hold, if_neg hold, if_neg hold]

/-- No value. -/
theorem firstOf_nil (old : List Char) : firstOf old [] = old := by
  unfold firstOf
  split
  · rename_i hnil
    exact hnil.symm
  · rfl

/-- One value. -/
theorem firstOf_singleton (old value : List Char) :
    firstOf old [value] = if old = [] then value else old := by
  unfold firstOf
  by_cases hvalue : value = []
  · rw [hvalue]
    rfl
  · rw [List.find?_singleton, if_pos (decide_eq_true hvalue)]
    rfl

/-- What a line does, field by field. -/
theorem ReleaseLine.apply_eq (info : GuestInfo) (line : ReleaseLine) :
    line.apply info = { info with
      osName := (line.value? "PRETTY_NAME").getD
        (firstOf info.osName (line.value? "NAME").toList)
      osBuild := firstOf info.osBuild (line.value? "VERSION_ID").toList } := by
  cases line with
  | assign key value hkey hhead =>
    have hpn : "PRETTY_NAME".toList ≠ "NAME".toList := by decide
    have hpv : "PRETTY_NAME".toList ≠ "VERSION_ID".toList := by decide
    have hvn : "VERSION_ID".toList ≠ "NAME".toList := by decide
    unfold apply setRelease value?
    dsimp only
    generalize "PRETTY_NAME".toList = pretty at *
    generalize "NAME".toList = name at *
    generalize "VERSION_ID".toList = version at *
    by_cases hpretty : key = pretty
    · subst hpretty
      rw [if_pos rfl, if_pos rfl, if_neg hpn, if_neg hpv, Option.toList_none, firstOf_nil,
        firstOf_nil]
      rfl
    · rw [if_neg hpretty, if_neg hpretty]
      by_cases hversion : key = version
      · subst hversion
        rw [if_pos rfl, if_neg hvn, Option.toList_none, firstOf_nil, Option.toList_some,
          firstOf_singleton]
        by_cases hbuild : info.osBuild = []
        · rw [if_pos ⟨rfl, hbuild⟩, if_pos hbuild]
          rfl
        · rw [if_neg fun h => hbuild h.2, if_neg fun h => hvn h.1, if_neg hbuild]
          rfl
      · rw [if_neg fun h => hversion h.1, if_neg hversion, Option.toList_none, firstOf_nil]
        by_cases hname : key = name
        · subst hname
          rw [if_pos rfl, Option.toList_some, firstOf_singleton]
          by_cases hold : info.osName = []
          · rw [if_pos ⟨rfl, hold⟩, if_pos hold]
            rfl
          · rw [if_neg fun h => hold h.2, if_neg hold]
            rfl
        · rw [if_neg fun h => hname h.1, if_neg hname, Option.toList_none, firstOf_nil]
          rfl
  | comment text htext =>
    unfold apply value?
    dsimp only
    rw [Option.toList_none, firstOf_nil, firstOf_nil]
    rfl
  | blank text htext =>
    unfold apply value?
    dsimp only
    rw [Option.toList_none, firstOf_nil, firstOf_nil]
    rfl

/-- The information after some lines: the last pretty name wins over any name, and otherwise what
comes first stays. -/
theorem foldl_apply {lines : List ReleaseLine} (info : GuestInfo)
    (h : ∀ value ∈ lines.filterMap (ReleaseLine.value? "PRETTY_NAME"), value ≠ []) :
    lines.foldl ReleaseLine.apply info =
      { info with
        osName := (lines.filterMap (ReleaseLine.value? "PRETTY_NAME")).getLast?.getD
          (firstOf info.osName (lines.filterMap (ReleaseLine.value? "NAME")))
        osBuild := firstOf info.osBuild (lines.filterMap (ReleaseLine.value? "VERSION_ID")) } := by
  induction lines generalizing info with
  | nil =>
    rw [List.foldl_nil, List.filterMap_nil, List.filterMap_nil, List.filterMap_nil, firstOf_nil,
      firstOf_nil]
    rfl
  | cons line rest ih =>
    have hcons (pick : ReleaseLine → Option (List Char)) :
        (line :: rest).filterMap pick = (pick line).toList ++ rest.filterMap pick := by
      rw [List.filterMap_cons]
      cases pick line <;> rfl
    rw [hcons] at h
    obtain ⟨hline, hrest⟩ := List.forall_mem_append.mp h
    rw [List.foldl_cons, ih _ hrest, line.apply_eq, hcons, hcons, hcons, firstOf_append]
    dsimp only
    cases hpretty : line.value? "PRETTY_NAME" with
    | none =>
      rw [Option.getD_none, firstOf_append]
      rfl
    | some value =>
      have hvalue : value ≠ [] := hline value (by rw [hpretty]; exact List.mem_singleton_self value)
      have hkept : firstOf value (rest.filterMap (ReleaseLine.value? "NAME")) = value :=
        if_neg hvalue
      rw [Option.getD_some, hkept, Option.toList_some, List.singleton_append, List.getLast?_cons,
        Option.getD_some]

/-- `parse_os_release` gives back what the file says. -/
theorem Release.parse_eq (release : Release) {text : List Char} (h : release.Written text) :
    parseOsRelease text {} = release.info := by
  have hlines : ∀ line ∈ release.lines.map ReleaseLine.text, '\n' ∉ line := by
    intro line hline
    obtain ⟨releaseLine, -, rfl⟩ := List.mem_map.mp hline
    exact releaseLine.feed_not_mem
  have hparse : parseOsRelease text {} = release.lines.foldl ReleaseLine.apply {} := by
    calc parseOsRelease text {}
        = parseOsRelease (fedLines (release.lines.map ReleaseLine.text)) {} := by
          rcases h with h | h
          · rw [h]
          · rw [← h, parseOsRelease_feed]
      _ = (release.lines.map ReleaseLine.text).foldl osReleaseLine {} :=
          parseOsRelease_fedLines hlines {}
      _ = release.lines.foldl ReleaseLine.apply {} := by
          rw [List.foldl_map]
          simp only [osReleaseLine_text]
  have hpretty : ∀ value ∈ release.lines.filterMap (ReleaseLine.value? "PRETTY_NAME"),
      value ≠ [] := by
    rw [release.pretty_lines]
    exact fun value hvalue => release.pretty_ne value (Option.mem_toList.mp hvalue)
  rw [hparse, foldl_apply {} hpretty, release.pretty_lines, release.name_lines,
    release.version_lines]
  unfold Release.info
  rcases release.name with _ | name <;> rcases release.prettyName with _ | pretty <;>
    rcases release.versionId with _ | version <;> simp [firstOf_nil, firstOf_singleton]

end VmSpect.Linux
