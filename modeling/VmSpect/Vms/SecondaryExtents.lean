import VmSpect.Lib.Globs
import VmSpect.Lib.Utf8
import VmSpect.Vms.Discovery

/-!
# Secondary extents

`is_secondary_extent` documents the names that it filters out as globs. It looks at the stem of a
name: at its end, and for the extents of a split disk at what follows the last `-s` and the last
`_s`. The globs of split disks ask for a digit after some `-s` or `_s`, so a name that goes on with
another `-s`, as in `a-s1-server.vmdk`, matches a glob and is not filtered out.
-/

namespace VmSpect.Discovery

open OsPath

/-! ## The documented globs -/

/-- The globs of the documentation of `is_secondary_extent`. -/
def documentedGlobs : List String :=
  ["*-flat.vmdk", "*_flat.vmdk", "*-delta.vmdk", "*_delta.vmdk", "*-sesparse.vmdk",
    "*_sesparse.vmdk", "*-s[0-9]*.vmdk", "*_s[0-9]*.vmdk",
    "*-sys.vhd", "*_sys.vhd", "*-delta.vhd", "*_delta.vhd",
    "*-sys.vhdx", "*_sys.vhdx", "*-delta.vhdx", "*_delta.vhdx"]

/-- A name in lower case that one of the globs stands for. -/
def DocumentedExtent (name : List Char) : Prop :=
  ∃ glob ∈ documentedGlobs, Globs.Matches (Globs.parse glob.toList) name

/-- The endings of the stem of a secondary `.vmdk`. -/
def vmdkEndings : List String := ["-flat", "_flat", "-delta", "_delta", "-sesparse", "_sesparse"]

/-- What stands before the number of an extent of a split disk. -/
def splitSeparators : List String := ["-s", "_s"]

/-- The endings of the stem of a secondary `.vhd` or `.vhdx`. -/
def vhdEndings : List String := ["-sys", "_sys", "-delta", "_delta"]

/-- A separator with a digit after it. -/
def FollowedByDigit (sep stem : List Char) : Prop :=
  ∃ front d rest, stem = front ++ sep ++ d :: rest ∧ d.isDigit = true

/-- A separator with a digit after its last occurrence. -/
def LastFollowedByDigit (sep stem : List Char) : Prop :=
  ∃ front d rest, stem = front ++ sep ++ d :: rest ∧ d.isDigit = true ∧
    ¬ sep <:+: (sep ++ d :: rest).tail

/-- The documented globs, as parts: a stem with an ending, or with a number, before an extension. -/
theorem documentedGlobs_parts :
    documentedGlobs.map (fun glob => Globs.parse glob.toList) =
      vmdkEndings.map (fun ending => .star :: (ending.toList ++ ".vmdk".toList).map .char) ++
        splitSeparators.map (fun sep =>
          .star :: (sep.toList.map .char ++ .digit :: .star :: ".vmdk".toList.map .char)) ++
        vhdEndings.map (fun ending => .star :: (ending.toList ++ ".vhd".toList).map .char) ++
        vhdEndings.map (fun ending => .star :: (ending.toList ++ ".vhdx".toList).map .char) := by
  decide

/-- A text with one of several endings. -/
theorem endsWithAny_iff (text : List Char) (endings : List String) :
    endsWithAny text endings = true ↔ ∃ ending ∈ endings, ending.toList <:+ text := by
  unfold endsWithAny
  rw [List.any_eq_true]
  simp only [List.isSuffixOf_iff_suffix]

/-- The documented names, by what their stems and extensions are. -/
theorem documentedExtent_iff (name : List Char) :
    DocumentedExtent name ↔
      (∃ stem, name = stem ++ ".vmdk".toList ∧ (endsWithAny stem vmdkEndings = true ∨
        ∃ sep ∈ splitSeparators, FollowedByDigit sep.toList stem)) ∨
      ∃ stem, (name = stem ++ ".vhd".toList ∨ name = stem ++ ".vhdx".toList) ∧
        endsWithAny stem vhdEndings = true := by
  have hending (endings : List String) (extension : List Char) :
      (∃ ending ∈ endings, ending.toList ++ extension <:+ name) ↔
        ∃ stem, name = stem ++ extension ∧ endsWithAny stem endings = true := by
    constructor
    · rintro ⟨ending, hmem, front, rfl⟩
      refine ⟨front ++ ending.toList, by simp, (endsWithAny_iff _ _).mpr ?_⟩
      exact ⟨ending, hmem, List.suffix_append _ _⟩
    · rintro ⟨stem, rfl, hends⟩
      obtain ⟨ending, hmem, hsuffix⟩ := (endsWithAny_iff _ _).mp hends
      exact ⟨ending, hmem, List.suffix_append_self_iff.mpr hsuffix⟩
  have hdigit (sep : List Char) :
      (∃ front d rest, name = front ++ sep ++ d :: rest ++ ".vmdk".toList ∧ d.isDigit = true) ↔
        ∃ stem, name = stem ++ ".vmdk".toList ∧ FollowedByDigit sep stem := by
    constructor
    · rintro ⟨front, d, rest, rfl, hd⟩
      exact ⟨_, rfl, front, d, rest, rfl, hd⟩
    · rintro ⟨stem, rfl, front, d, rest, rfl, hd⟩
      exact ⟨front, d, rest, rfl, hd⟩
  have hparts : DocumentedExtent name ↔
      ∃ parts ∈ documentedGlobs.map (fun glob => Globs.parse glob.toList),
        Globs.Matches parts name := by
    unfold DocumentedExtent
    simp only [List.mem_map, exists_exists_and_eq_and]
  rw [hparts, documentedGlobs_parts]
  simp only [List.mem_append, List.mem_map, or_and_right, exists_or, exists_exists_and_eq_and,
    Globs.matches_ending, Globs.matches_digit_after, hending, hdigit]
  constructor
  · rintro (((⟨stem, rfl, hends⟩ | ⟨sep, hsep, stem, rfl, hd⟩) | ⟨stem, rfl, hends⟩) |
      ⟨stem, rfl, hends⟩)
    · exact Or.inl ⟨stem, rfl, Or.inl hends⟩
    · exact Or.inl ⟨stem, rfl, Or.inr ⟨sep, hsep, hd⟩⟩
    · exact Or.inr (Or.inl ⟨stem, rfl, hends⟩)
    · exact Or.inr (Or.inr ⟨stem, rfl, hends⟩)
  · rintro (⟨stem, rfl, hends | ⟨sep, hsep, hd⟩⟩ | ⟨stem, rfl, hends⟩ | ⟨stem, rfl, hends⟩)
    · exact Or.inl (Or.inl (Or.inl ⟨stem, rfl, hends⟩))
    · exact Or.inl (Or.inl (Or.inr ⟨sep, hsep, stem, rfl, hd⟩))
    · exact Or.inl (Or.inr ⟨stem, rfl, hends⟩)
    · exact Or.inr ⟨stem, rfl, hends⟩

/-! ## The last separator -/

/-- A text without a separator in it has no last one. -/
theorem afterLast_eq_none_iff {sep : List Char} (hne : sep ≠ []) (text : List Char) :
    afterLast sep text = none ↔ ¬ sep <:+: text := by
  induction text with
  | nil => simp [afterLast, hne]
  | cons c rest ih =>
    rw [afterLast, List.infix_cons_iff, not_or, ← ih]
    rcases hrest : afterLast sep rest with _ | suffix
    · by_cases hpre : sep.isPrefixOf (c :: rest) = true
      · simp [hpre, List.isPrefixOf_iff_prefix.mp hpre]
      · have hnot : ¬ sep <+: c :: rest := fun h => hpre (List.isPrefixOf_iff_prefix.mpr h)
        simp [hpre, hnot]
    · simp

/-- What follows the last separator does not depend on what stands before. -/
theorem afterLast_append {sep text suffix : List Char} (h : afterLast sep text = some suffix)
    (front : List Char) : afterLast sep (front ++ text) = some suffix := by
  induction front with
  | nil => exact h
  | cons c front ih => rw [List.cons_append, afterLast, ih]

/-- What follows a separator after which there is no other one. -/
theorem afterLast_of_last {sep suffix : List Char} (hne : sep ≠ [])
    (h : ¬ sep <:+: (sep ++ suffix).tail) (front : List Char) :
    afterLast sep (front ++ (sep ++ suffix)) = some suffix := by
  refine afterLast_append ?_ front
  obtain ⟨c, cs, rfl⟩ := List.exists_cons_of_ne_nil hne
  have hnone : afterLast (c :: cs) (cs ++ suffix) = none := (afterLast_eq_none_iff hne _).mpr h
  have hpre : (c :: cs).isPrefixOf (c :: (cs ++ suffix)) = true :=
    List.isPrefixOf_iff_prefix.mpr (List.prefix_append (c :: cs) suffix)
  rw [List.cons_append, afterLast, hnone]
  dsimp only
  rw [if_pos hpre]
  exact congrArg some (@List.drop_left _ (c :: cs) suffix)

/-- Before what follows the last separator stands that separator. -/
theorem last_of_afterLast {sep text suffix : List Char} (hne : sep ≠ [])
    (h : afterLast sep text = some suffix) :
    ∃ front, text = front ++ (sep ++ suffix) ∧ ¬ sep <:+: (sep ++ suffix).tail := by
  induction text with
  | nil => exact absurd h (by simp [afterLast])
  | cons c rest ih =>
    rw [afterLast] at h
    rcases hrest : afterLast sep rest with _ | last
    · rw [hrest] at h
      dsimp only at h
      split at h
      · -- The separator at the front is the only one.
        rename_i hpre
        obtain ⟨after, hafter⟩ := List.isPrefixOf_iff_prefix.mp hpre
        rw [← hafter, List.drop_left, Option.some.injEq] at h
        subst h
        refine ⟨[], hafter.symm, ?_⟩
        rw [hafter]
        exact (afterLast_eq_none_iff hne rest).mp hrest
      · exact absurd h (Option.some_ne_none _).symm
    · rw [hrest] at h
      obtain ⟨front, hfront, hlast⟩ := ih (hrest.trans h)
      exact ⟨c :: front, by rw [hfront, List.cons_append], hlast⟩

/-- The test of `is_secondary_extent` on the number of an extent. -/
theorem lastFollowedByDigit_iff {sep : List Char} (hne : sep ≠ []) (stem : List Char) :
    (match afterLast sep stem with
      | some suffix => decide (0 < (suffix.takeWhile Char.isDigit).length)
      | none => false) = true ↔ LastFollowedByDigit sep stem := by
  have hdigits (suffix : List Char) : 0 < (suffix.takeWhile Char.isDigit).length ↔
      ∃ d rest, suffix = d :: rest ∧ d.isDigit = true := by
    rcases suffix with _ | ⟨d, rest⟩
    · simp
    · rw [List.takeWhile_cons]
      by_cases hd : d.isDigit = true <;> simp [hd]
  constructor
  · intro h
    rcases hlast : afterLast sep stem with _ | suffix
    · rw [hlast] at h
      exact absurd h (by decide)
    · rw [hlast] at h
      obtain ⟨d, rest, rfl, hd⟩ := (hdigits suffix).mp (of_decide_eq_true h)
      obtain ⟨front, hfront, hno⟩ := last_of_afterLast hne hlast
      exact ⟨front, d, rest, by rw [hfront, List.append_assoc], hd, hno⟩
  · rintro ⟨front, d, rest, rfl, hd, hno⟩
    rw [List.append_assoc, afterLast_of_last hne hno front]
    exact decide_eq_true ((hdigits _).mpr ⟨d, rest, rfl, hd⟩)

/-- A last separator is a separator. -/
theorem LastFollowedByDigit.followed {sep stem : List Char} (h : LastFollowedByDigit sep stem) :
    FollowedByDigit sep stem := by
  obtain ⟨front, d, rest, hstem, hd, -⟩ := h
  exact ⟨front, d, rest, hstem, hd⟩

/-! ## Names and stems -/

/-- The last occurrence of a character splits a text in one way. -/
theorem eq_of_last {α : Type} {a : α} {front front' back back' : List α} (hback : a ∉ back)
    (hback' : a ∉ back') (h : front ++ a :: back = front' ++ a :: back') :
    front = front' ∧ back = back' := by
  have hsplit {l m n : List α} (hn : a ∉ n) (h : a :: n = l ++ a :: m) : l = [] ∧ n = m := by
    rcases l with _ | ⟨b, l⟩
    · exact ⟨rfl, (List.cons.inj h).2⟩
    · exact absurd ((List.cons.inj h).2 ▸ List.mem_append_right _ List.mem_cons_self) hn
  rcases List.append_eq_append_iff.mp h with ⟨l, rfl, hl⟩ | ⟨l, rfl, hl⟩
  · obtain ⟨rfl, rfl⟩ := hsplit hback hl
    exact ⟨(List.append_nil _).symm, rfl⟩
  · obtain ⟨rfl, rfl⟩ := hsplit hback' hl
    exact ⟨List.append_nil _, rfl⟩

/-- A character is a dot in lower case only when it is one. -/
theorem lowercase_dot {c : Char}
    (h : (if 'A' ≤ c ∧ c ≤ 'Z' then Char.ofNat (c.toNat + 32) else c) = '.') : c = '.' := by
  split at h
  · rename_i hupper
    have hlo : 65 ≤ c.toNat := hupper.1
    have hhi : c.toNat ≤ 90 := hupper.2
    have hpoint := congrArg Char.toNat h
    rw [Text.toNat_ofNat (Or.inl (by omega))] at hpoint
    have hdot : '.'.toNat = 46 := rfl
    omega
  · exact h

/-- A name that ends with an extension in lower case, taken apart: its bytes at the last dot, and
its text there. -/
theorem name_split {name : OsString} {text stem extension : List Char} (hname : toStr name = some text)
    (hdot : '.' ∉ extension) (hlower : Text.toAsciiLowercase text = stem ++ '.' :: extension) :
    ∃ before after textBefore, name = before ++ 0x2E :: after ∧ (0x2E : UInt8) ∉ after ∧
      toStr before = some textBefore ∧ Text.toAsciiLowercase textBefore = stem ∧
      (after = [] → extension = []) ∧ (before = [] ↔ stem = []) := by
  have hsingle : (0x2E : UInt8).toNat < 0x80 := by decide
  obtain ⟨textStem, tail, htext, hstem, htail⟩ := List.map_eq_append_iff.mp hlower
  obtain ⟨c, textExtension, rfl, hc, hextension⟩ := List.map_eq_cons_iff.mp htail
  obtain rfl := lowercase_dot hc
  have hno : '.' ∉ textExtension := fun hmem =>
    hdot (hextension ▸ List.mem_map.mpr ⟨'.', hmem, rfl⟩)
  have hbyte : (0x2E : UInt8) ∈ name :=
    Text.mem_of_mem_fromUtf8 hsingle hname (htext ▸ List.mem_append_right _ List.mem_cons_self)
  -- The last such byte of the name.
  obtain ⟨after, before, hrev, hafter⟩ := List.eq_append_cons_of_mem (List.mem_reverse.mpr hbyte)
  have hsplit : name = before.reverse ++ 0x2E :: after.reverse := by
    have hname' := congrArg List.reverse hrev
    rw [List.reverse_reverse, List.reverse_append, List.reverse_cons, List.append_assoc] at hname'
    exact hname'
  have hafter' : (0x2E : UInt8) ∉ after.reverse := fun hmem => hafter (List.mem_reverse.mp hmem)
  rw [hsplit] at hname
  obtain ⟨textBefore, textAfter, hbefore, hafterText, htext'⟩ :=
    Text.fromUtf8_split hsingle hname
  have hno' : '.' ∉ textAfter := fun hmem =>
    hafter' (Text.mem_of_mem_fromUtf8 hsingle hafterText hmem)
  obtain ⟨rfl, rfl⟩ := eq_of_last hno hno' (htext.symm.trans htext')
  refine ⟨_, _, textStem, hsplit, hafter', hbefore, hstem, fun hnil => ?_, ?_⟩
  · rw [hnil] at hafterText
    obtain rfl := Option.some.inj hafterText
    exact hextension.symm
  · rw [← Text.fromUtf8_eq_nil_iff hbefore, ← hstem, List.map_eq_nil_iff]

/-- A name with something after its last dot, taken apart there, unless the dot is in front. -/
theorem splitAtDot_of_last {before after : OsString} (hafter : after ≠ [])
    (hdot : (0x2E : UInt8) ∉ after) :
    splitAtDot (before ++ 0x2E :: after) =
      if before = [] then (before ++ 0x2E :: after, none) else (before, some after) := by
  have htake : ((before ++ 0x2E :: after).reverse.takeWhile (· ≠ 0x2E)).reverse = after := by
    have hall : ∀ b ∈ after.reverse, decide (b ≠ 0x2E) = true := by
      intro b hb
      exact decide_eq_true fun heq => hdot (heq ▸ List.mem_reverse.mp hb)
    rw [List.reverse_append, List.reverse_cons, List.append_assoc,
      List.takeWhile_append_of_pos hall]
    simp
  have hlength : (before ++ 0x2E :: after).length - after.length - 1 = before.length := by
    rw [List.length_append, List.length_cons]
    omega
  have hdots : before ++ 0x2E :: after ≠ [0x2E, 0x2E] := by
    intro hname
    have hlast := congrArg List.getLast? hname
    rw [List.getLast?_append_of_ne_nil _ (List.cons_ne_nil _ _),
      List.getLast?_cons_of_ne_nil hafter] at hlast
    exact hdot (List.mem_of_getLast? hlast)
  have hlong : after.length ≠ (before ++ 0x2E :: after).length := by
    rw [List.length_append, List.length_cons]
    omega
  unfold splitAtDot
  dsimp only
  rw [htake, if_neg hdots, if_neg hlong, hlength, List.take_left]

/-- The stem of a path whose name has an extension, in lower case; the whole name, when nothing
stands before the extension. -/
theorem fileStem_lowercase {path : Path} {text stem : List Char} (extension : List Char)
    (hname : path.fileName.bind toStr = some text) (hne : extension ≠ []) (hdot : '.' ∉ extension)
    (hlower : Text.toAsciiLowercase text = stem ++ '.' :: extension) :
    (path.fileStem.bind toStr).map Text.toAsciiLowercase =
      some (if stem = [] then '.' :: extension else stem) := by
  obtain ⟨name, hfile, htext⟩ := Option.bind_eq_some_iff.mp hname
  obtain ⟨before, after, textBefore, hsplit, hafter, hbefore, hstem, hextension, hempty⟩ :=
    name_split htext hdot hlower
  have hafterNe : after ≠ [] := fun hnil => hne (hextension hnil)
  unfold Path.fileStem
  rw [hfile, Option.map_some, Option.bind_some]
  rw [hsplit, splitAtDot_of_last hafterNe hafter]
  split
  · -- A name with its only dot in front has no extension.
    rename_i hnil
    rw [← hsplit, htext, Option.map_some, hlower, if_pos (hempty.mp hnil), hempty.mp hnil]
    rfl
  · rename_i hnil
    rw [hbefore, Option.map_some, hstem, if_neg (mt hempty.mpr hnil)]

/-! ## The test -/

section Test

variable {path : Path} {text : List Char}

/-- The test on the stem of a `.vmdk`. -/
def vmdkStemTest (stem : List Char) : Bool :=
  endsWithAny stem vmdkEndings || splitSeparators.any fun sep =>
    match afterLast sep.toList stem with
    | some suffix => 0 < (suffix.takeWhile Char.isDigit).length
    | none => false

/-- The test on the stem of a `.vmdk`, as a proposition. -/
theorem vmdkStemTest_iff (stem : List Char) :
    vmdkStemTest stem = true ↔ endsWithAny stem vmdkEndings = true ∨
      ∃ sep ∈ splitSeparators, LastFollowedByDigit sep.toList stem := by
  have hne : splitSeparators.all (fun sep => sep.toList ≠ []) = true := by decide
  unfold vmdkStemTest
  rw [Bool.or_eq_true, List.any_eq_true]
  refine or_congr_right (exists_congr fun sep => and_congr_right fun hsep => ?_)
  exact lastFollowedByDigit_iff (of_decide_eq_true (List.all_eq_true.mp hne sep hsep)) stem

/-- `is_secondary_extent` of a name and a stem in lower case. -/
theorem isSecondaryExtent_eq {stem : List Char} (hname : path.fileName.bind toStr = some text)
    (hstem : (path.fileStem.bind toStr).map Text.toAsciiLowercase = some stem) :
    isSecondaryExtent path =
      if endsWithAny (Text.toAsciiLowercase text) [".vmdk"] then vmdkStemTest stem
      else if endsWithAny (Text.toAsciiLowercase text) [".vhd", ".vhdx"] then
        endsWithAny stem vhdEndings
      else false := by
  unfold isSecondaryExtent
  rw [hname, hstem]
  rfl

/-- A test on the stem of a name that is only an extension. -/
theorem stemTest_eq (test : List Char → Bool) {stem extension : List Char}
    (h : test extension = test []) : test (if stem = [] then extension else stem) = test stem := by
  split
  · rename_i hnil
    rw [h, hnil]
  · rfl

/-- No name ends with two of the extensions. -/
theorem extension_unique (stem stem' : List Char) :
    stem ++ ".vmdk".toList ≠ stem' ++ ".vhd".toList ∧
      stem ++ ".vmdk".toList ≠ stem' ++ ".vhdx".toList ∧
        stem ++ ".vhd".toList ≠ stem' ++ ".vhdx".toList := by
  have hlast (stem extension : List Char) (c : Char) :
      (stem ++ (extension ++ [c])).getLast? = some c := by
    rw [← List.append_assoc, List.getLast?_concat]
  have hvmdk := hlast stem ".vmd".toList 'k'
  have hvhd (stem : List Char) := hlast stem ".vh".toList 'd'
  have hvhdx := hlast stem' ".vhd".toList 'x'
  refine ⟨fun h => ?_, fun h => ?_, fun h => ?_⟩
  · exact absurd (hvmdk.symm.trans ((congrArg List.getLast? h).trans (hvhd stem'))) (by decide)
  · exact absurd (hvmdk.symm.trans ((congrArg List.getLast? h).trans hvhdx)) (by decide)
  · exact absurd ((hvhd stem).symm.trans ((congrArg List.getLast? h).trans hvhdx)) (by decide)

/-- A stem with an extension ends with the extension. -/
theorem endsWithAny_of_stem {name stem : List Char} {extension : String} {endings : List String}
    (hmem : extension ∈ endings) (hstem : name = stem ++ extension.toList) :
    endsWithAny name endings = true :=
  (endsWithAny_iff _ _).mpr ⟨extension, hmem, stem, hstem.symm⟩

/-- A name that is no stem with one of the extensions does not end with one. -/
theorem endsWithAny_eq_false {name : List Char} {endings : List String}
    (h : ∀ extension ∈ endings, ∀ stem, name ≠ stem ++ extension.toList) :
    endsWithAny name endings = false := by
  rw [← Bool.not_eq_true, endsWithAny_iff]
  rintro ⟨extension, hmem, stem, hstem⟩
  exact h extension hmem stem hstem.symm

/-- A `.vmdk` is tested by its stem. -/
theorem isSecondaryExtent_vmdk (hname : path.fileName.bind toStr = some text) {stem : List Char}
    (hstem : Text.toAsciiLowercase text = stem ++ ".vmdk".toList) :
    isSecondaryExtent path = vmdkStemTest stem := by
  have hfileStem := fileStem_lowercase "vmdk".toList hname (by decide) (by decide) hstem
  rw [isSecondaryExtent_eq hname hfileStem, if_pos (endsWithAny_of_stem List.mem_cons_self hstem)]
  exact stemTest_eq vmdkStemTest (by decide)

/-- So is a `.vhd` or a `.vhdx`. -/
theorem isSecondaryExtent_vhd (hname : path.fileName.bind toStr = some text) {stem : List Char}
    (hstem : Text.toAsciiLowercase text = stem ++ ".vhd".toList ∨
      Text.toAsciiLowercase text = stem ++ ".vhdx".toList) :
    isSecondaryExtent path = endsWithAny stem vhdEndings := by
  have hno : endsWithAny (Text.toAsciiLowercase text) [".vmdk"] = false := by
    refine endsWithAny_eq_false fun extension hmem stem' hvmdk => ?_
    rw [List.mem_singleton.mp hmem] at hvmdk
    rcases hstem with hstem | hstem
    · exact (extension_unique stem' stem).1 (hvmdk.symm.trans hstem)
    · exact (extension_unique stem' stem).2.1 (hvmdk.symm.trans hstem)
  have hends : endsWithAny (Text.toAsciiLowercase text) [".vhd", ".vhdx"] = true := by
    rcases hstem with hstem | hstem
    · exact endsWithAny_of_stem List.mem_cons_self hstem
    · exact endsWithAny_of_stem (List.mem_cons_of_mem _ List.mem_cons_self) hstem
  rcases hstem with hstem | hstem
  · have hfileStem := fileStem_lowercase "vhd".toList hname (by decide) (by decide) hstem
    rw [isSecondaryExtent_eq hname hfileStem, hno, if_neg Bool.false_ne_true, if_pos hends]
    exact stemTest_eq (fun stem => endsWithAny stem vhdEndings) (by decide)
  · have hfileStem := fileStem_lowercase "vhdx".toList hname (by decide) (by decide) hstem
    rw [isSecondaryExtent_eq hname hfileStem, hno, if_neg Bool.false_ne_true, if_pos hends]
    exact stemTest_eq (fun stem => endsWithAny stem vhdEndings) (by decide)

/-- Without one of the extensions a name is not looked at any further. -/
theorem isSecondaryExtent_other (hname : path.fileName.bind toStr = some text)
    (h : ∀ extension ∈ [".vmdk", ".vhd", ".vhdx"], ∀ stem,
      Text.toAsciiLowercase text ≠ stem ++ extension.toList) : isSecondaryExtent path = false := by
  rcases hfile : (path.fileStem.bind toStr).map Text.toAsciiLowercase with _ | stem
  · unfold isSecondaryExtent
    rw [hname, hfile]
    rfl
  · have hvmdk : endsWithAny (Text.toAsciiLowercase text) [".vmdk"] = false :=
      endsWithAny_eq_false fun extension hmem => h extension (List.mem_of_mem_take (i := 1) hmem)
    have hvhd : endsWithAny (Text.toAsciiLowercase text) [".vhd", ".vhdx"] = false :=
      endsWithAny_eq_false fun extension hmem => h extension (List.mem_cons_of_mem _ hmem)
    rw [isSecondaryExtent_eq hname hfile, hvmdk, hvhd]
    rfl

/-- The names that `is_secondary_extent` filters out: those documented, but for the extents of a
split disk only the ones with a digit after the last separator. -/
theorem isSecondaryExtent_iff (hname : path.fileName.bind toStr = some text) :
    isSecondaryExtent path = true ↔
      (∃ stem, Text.toAsciiLowercase text = stem ++ ".vmdk".toList ∧
        (endsWithAny stem vmdkEndings = true ∨
          ∃ sep ∈ splitSeparators, LastFollowedByDigit sep.toList stem)) ∨
      ∃ stem, (Text.toAsciiLowercase text = stem ++ ".vhd".toList ∨
          Text.toAsciiLowercase text = stem ++ ".vhdx".toList) ∧
        endsWithAny stem vhdEndings = true := by
  simp only [← vmdkStemTest_iff]
  constructor
  · intro hsecondary
    -- A name that is filtered out has one of the extensions, and its stem passes the test.
    by_cases hvmdk : ∃ stem, Text.toAsciiLowercase text = stem ++ ".vmdk".toList
    · obtain ⟨stem, hstem⟩ := hvmdk
      rw [isSecondaryExtent_vmdk hname hstem] at hsecondary
      exact Or.inl ⟨stem, hstem, hsecondary⟩
    by_cases hvhd : ∃ stem, Text.toAsciiLowercase text = stem ++ ".vhd".toList ∨
        Text.toAsciiLowercase text = stem ++ ".vhdx".toList
    · obtain ⟨stem, hstem⟩ := hvhd
      rw [isSecondaryExtent_vhd hname hstem] at hsecondary
      exact Or.inr ⟨stem, hstem, hsecondary⟩
    have hother : isSecondaryExtent path = false := by
      refine isSecondaryExtent_other hname fun extension hmem stem hstem => ?_
      rcases List.mem_cons.mp hmem with rfl | hmem
      · exact hvmdk ⟨stem, hstem⟩
      rcases List.mem_cons.mp hmem with rfl | hmem
      · exact hvhd ⟨stem, Or.inl hstem⟩
      · rw [List.mem_singleton.mp hmem] at hstem
        exact hvhd ⟨stem, Or.inr hstem⟩
    rw [hother] at hsecondary
    cases hsecondary
  · rintro (⟨stem, hstem, htest⟩ | ⟨stem, hstem, htest⟩)
    · rw [isSecondaryExtent_vmdk hname hstem]
      exact htest
    · rw [isSecondaryExtent_vhd hname hstem]
      exact htest

/-- `is_secondary_extent` accepts exactly the documented names, unless the name is that of a `.vmdk`
with a digit after some `-s` or `_s` of its stem, none of the other endings, and no digit after the
last `-s` nor after the last `_s`. -/
theorem isSecondaryExtent_documented_iff (hname : path.fileName.bind toStr = some text) :
    (isSecondaryExtent path = true ↔ DocumentedExtent (Text.toAsciiLowercase text)) ↔
      ∀ stem, Text.toAsciiLowercase text = stem ++ ".vmdk".toList →
        (∃ sep ∈ splitSeparators, FollowedByDigit sep.toList stem) →
          endsWithAny stem vmdkEndings = true ∨
            ∃ sep ∈ splitSeparators, LastFollowedByDigit sep.toList stem := by
  rw [isSecondaryExtent_iff hname, documentedExtent_iff]
  constructor
  · rintro ⟨-, hcode⟩ stem hstem hdigit
    rcases hcode (Or.inl ⟨stem, hstem, Or.inr hdigit⟩) with ⟨stem', hstem', htest⟩ | hvhd
    · rw [List.append_cancel_right (hstem.symm.trans hstem')]
      exact htest
    · obtain ⟨stem', hstem' | hstem', -⟩ := hvhd
      · exact absurd (hstem.symm.trans hstem') (extension_unique _ _).1
      · exact absurd (hstem.symm.trans hstem') (extension_unique _ _).2.1
  · intro hlast
    constructor
    · rintro (⟨stem, hstem, hends | ⟨sep, hsep, hdigit⟩⟩ | hvhd)
      · exact Or.inl ⟨stem, hstem, Or.inl hends⟩
      · exact Or.inl ⟨stem, hstem, Or.inr ⟨sep, hsep, hdigit.followed⟩⟩
      · exact Or.inr hvhd
    · rintro (⟨stem, hstem, hends | hdigit⟩ | hvhd)
      · exact Or.inl ⟨stem, hstem, Or.inl hends⟩
      · exact Or.inl ⟨stem, hstem, hlast stem hstem hdigit⟩
      · exact Or.inr hvhd

end Test

/-- The path with a name of these characters, which are single bytes. -/
def asciiPath (name : String) : Path :=
  ⟨[.normal (name.toList.map fun c => UInt8.ofNat c.toNat)]⟩

/-- An extent of a split disk is filtered out, as documented. -/
theorem isSecondaryExtent_split :
    isSecondaryExtent (asciiPath "disk-s001.vmdk") = true ↔
      DocumentedExtent (Text.toAsciiLowercase "disk-s001.vmdk".toList) :=
  (isSecondaryExtent_documented_iff (by decide)).mpr fun stem hstem _ => by
    have hcut : stem = "disk-s001".toList :=
      List.append_cancel_right (hstem.symm.trans (by decide : _ = "disk-s001".toList ++ _))
    refine Or.inr ⟨"-s", List.mem_cons_self, "disk".toList, '0', "01".toList, ?_, by decide, ?_⟩
    · rw [hcut]
      decide
    · exact (afterLast_eq_none_iff (by decide) _).mp (by decide)

/-- An extent with another `-s` after its number is not filtered out. -/
theorem not_isSecondaryExtent_server :
    isSecondaryExtent (asciiPath "a-s1-server.vmdk") = false ∧
      DocumentedExtent (Text.toAsciiLowercase "a-s1-server.vmdk".toList) ∧
      ¬ (isSecondaryExtent (asciiPath "a-s1-server.vmdk") = true ↔
        DocumentedExtent (Text.toAsciiLowercase "a-s1-server.vmdk".toList)) := by
  have hcode : isSecondaryExtent (asciiPath "a-s1-server.vmdk") = false := by decide
  have hglob : DocumentedExtent (Text.toAsciiLowercase "a-s1-server.vmdk".toList) :=
    (documentedExtent_iff _).mpr (Or.inl ⟨"a-s1-server".toList, by decide, Or.inr ⟨"-s",
      List.mem_cons_self, "a".toList, '1', "-server".toList, by decide, by decide⟩⟩)
  refine ⟨hcode, hglob, fun h => ?_⟩
  rw [hcode] at h
  exact absurd (h.mpr hglob) Bool.false_ne_true

end VmSpect.Discovery
