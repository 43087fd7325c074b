import VmSpect.Parsers.Windows

/-!
# What an analysis of Windows keeps of its sources

A Windows guest is described by up to three sources: the hives `SOFTWARE` and `SYSTEM`, and the file
system when `SOFTWARE` cannot be parsed. The crate that parses a hive may fail or panic.
`analyze_merges_iff` says what `WindowsInspector::analyze` makes of every combination of outcomes:
it keeps all that the sources found, except for the guest tools of `SYSTEM` when the file system
tells the operating system.
-/

namespace VmSpect.Windows

open Polling Polling.Prog

variable {ν α β : Type}

/-! ## The outcomes of the sources -/

/-- What parsing a hive gave: a value, an error, or a panic. -/
abbrev Outcome (α : Type) := Option (Except VmSpectError α)

/-- What `SOFTWARE` gives: the guest, the programs and possibly a warning. -/
abbrev SoftwareFound := GuestInfo × List Program × Option String

/-- What `SYSTEM` gives: the guest tools and possibly a warning. -/
abbrev SystemFound := Option GuestTools × Option String

/-- What the file system gives: the guest, the programs and the warnings. -/
abbrev FallbackFound := Option GuestInfo × List Program × List String

/-- The value of a hive that was parsed. -/
def parsed : Outcome α → Option α
  | some (.ok a) => some a
  | _ => none

/-- The guest in `SOFTWARE`, or the name that stands for it. -/
def softwareInfo (software : Outcome SoftwareFound) : GuestInfo :=
  ((parsed software).map (·.1)).getD { osName := dirtyName }

/-- The programs in `SOFTWARE`. -/
def softwarePrograms (software : Outcome SoftwareFound) : List Program :=
  ((parsed software).map (·.2.1)).getD []

/-- The guest tools in `SOFTWARE`. -/
def softwareTools (software : Outcome SoftwareFound) : Option GuestTools :=
  (parsed software).bind (·.1.guestTools)

/-- The guest tools in `SYSTEM`, when there is such a hive. -/
def systemTools (system : Option (Outcome SystemFound)) : Option GuestTools :=
  (system.bind parsed).bind (·.1)

/-- The warnings of parsing `SOFTWARE`. -/
def softwareWarnings : Outcome SoftwareFound → List String
  | some (.ok (_, _, notice)) => notice.toList
  | some (.error e) => ["SOFTWARE hive corrupt or inaccessible (dirty Registry): " ++ e.toText]
  | none => ["SOFTWARE hive severely damaged: the Registry parser failed irrecoverably " ++
      "(dirty Registry)"]

/-- The warnings of parsing `SYSTEM`. -/
def systemWarnings : Option (Outcome SystemFound) → List String
  | none => []
  | some (some (.ok (_, notice))) => notice.toList
  | some (some (.error e)) => ["SYSTEM hive corrupt or inaccessible (dirty Registry): " ++ e.toText]
  | some none => ["SYSTEM hive severely damaged: the Registry parser failed " ++
      "irrecoverably (dirty Registry)"]

/-- The guest that the hives show. -/
def hivesInfo (software : Outcome SoftwareFound) (system : Option (Outcome SystemFound)) : GuestInfo :=
  { softwareInfo software with
    guestTools := (softwareTools software).or (systemTools system) }

/-- The warnings of the hives, after those of their extraction. -/
def hivesWarnings (extraction : List String) (software : Outcome SoftwareFound)
    (system : Option (Outcome SystemFound)) : List String :=
  extraction ++ softwareWarnings software ++
    (if softwareTools software = none then systemWarnings system else [])

/-- The result of an analysis, by the outcomes of its sources. -/
def analysisResult (extraction : List String) (software : Outcome SoftwareFound)
    (system : Option (Outcome SystemFound)) (fallback : FallbackFound) : AnalysisResult :=
  if (parsed software).isNone then
    ⟨fallback.1.getD (hivesInfo software system), softwarePrograms software ++ fallback.2.1,
      hivesWarnings extraction software system ++ fallback.2.2⟩
  else
    ⟨hivesInfo software system, softwarePrograms software,
      hivesWarnings extraction software system⟩

/-- The result contains what the sources found. `SYSTEM` is only parsed when `SOFTWARE` shows no
guest tools, and the file system is only searched when `SOFTWARE` was not parsed. -/
structure Merged (extraction : List String) (software : Outcome SoftwareFound)
    (system : Option (Outcome SystemFound)) (fallback : FallbackFound) (result : AnalysisResult) :
    Prop where
  programs : result.programs = ((parsed software).map (·.2.1)).getD fallback.2.1
  /-- The name and the build of the operating system. -/
  os : ∀ info, ((parsed software).map (·.1)).or fallback.1 = some info →
    result.guestInfo.osName = info.osName ∧ result.guestInfo.osBuild = info.osBuild
  tools : result.guestInfo.guestTools = (softwareTools software).or (systemTools system)
  extractionWarned : ∀ w ∈ extraction, w ∈ result.warnings
  softwareWarned : ∀ w ∈ softwareWarnings software, w ∈ result.warnings
  systemWarned : softwareTools software = none → ∀ w ∈ systemWarnings system, w ∈ result.warnings
  fallbackWarned : parsed software = none → ∀ w ∈ fallback.2.2, w ∈ result.warnings
  warned : parsed software = none → result.warnings ≠ []

/-! ## The hives -/

section Hives

variable (hive : HiveCrate) (hives : Hives) (options : Options)

/-- What parsing `SOFTWARE` gives when the token is never set. -/
def softwareOutcome : Outcome SoftwareFound :=
  (tryAnalyzeSoftware hive hives.software options hives.softwareLogsPresent).run.calm

/-- What parsing `SYSTEM` gives, when there is such a hive. -/
def systemOutcome : Option (Outcome SystemFound) :=
  hives.system.map fun system =>
    (tryDetectGuestToolsInSystem hive system hives.systemLogsPresent).run.calm

/-- The part of `SYSTEM`. -/
theorem analyzeSystemHive_calm : (analyzeSystemHive hive hives).calm =
    some (systemTools (systemOutcome hive hives), systemWarnings (systemOutcome hive hives)) := by
  unfold analyzeSystemHive systemOutcome
  cases hives.system with
  | none => rfl
  | some system =>
    dsimp only [Option.map_some]
    rw [calm_bind, hiveOutcome, calm_catchPanic, Option.bind_some]
    rcases (tryDetectGuestToolsInSystem hive system hives.systemLogsPresent).run.calm with
      _ | _ | ⟨tools, notice⟩
    · rfl
    · rfl
    · rfl

/-- The part of `SOFTWARE`. -/
theorem analyzeSoftwareHive_calm :
    let software := softwareOutcome hive hives options
    (analyzeSoftwareHive hive hives options).calm =
      some (softwareInfo software, softwarePrograms software, softwareWarnings software,
        (parsed software).isNone) := by
  unfold analyzeSoftwareHive softwareOutcome
  dsimp only
  rw [calm_bind, hiveOutcome, calm_catchPanic, Option.bind_some]
  rcases (tryAnalyzeSoftware hive hives.software options hives.softwareLogsPresent).run.calm with
    _ | _ | ⟨info, programs, notice⟩
  · rfl
  · rfl
  · rfl

/-- `analyze_hives` returns, and asks for the file system when `SOFTWARE` was not parsed. -/
theorem analyzeHives_calm (hsystem : options.shouldAnalyzeSystem = true) :
    let software := softwareOutcome hive hives options
    (analyzeHives hive hives options).calm =
      some (⟨hivesInfo software (systemOutcome hive hives), softwarePrograms software,
        hivesWarnings hives.warnings software (systemOutcome hive hives)⟩,
        (parsed software).isNone) := by
  unfold analyzeHives hivesInfo hivesWarnings
  dsimp only
  rw [calm_bind, analyzeSoftwareHive_calm, Option.bind_some]
  dsimp only
  have htools : (softwareInfo (softwareOutcome hive hives options)).guestTools =
      softwareTools (softwareOutcome hive hives options) := by
    unfold softwareTools softwareInfo
    cases parsed (softwareOutcome hive hives options) <;> rfl
  rw [htools, hsystem]
  -- `SYSTEM` is read only when `SOFTWARE` showed no guest tools.
  cases hfound : softwareTools (softwareOutcome hive hives options) with
  | none =>
    rw [hfound] at htools
    simp only [Option.isNone_none, Bool.and_self, if_true, Option.none_or]
    rw [calm_bind, analyzeSystemHive_calm, Option.bind_some]
    rfl
  | some tools =>
    rw [hfound] at htools
    simp only [Option.isNone_some, Bool.and_false, Bool.false_eq_true, if_false, reduceCtorEq,
      Option.some_or]
    rw [← htools]
    rfl

end Hives

/-! ## The file system -/

section Fallback

/-- Every value that code on a view returns satisfies the condition. -/
def Shows (Q : α → Prop) (x : Viewing ν α) : Prop :=
  ∀ disk world, ((x.run disk).run world).Yields fun r => Q r.1.1

/-- A value that satisfies the condition. -/
theorem shows_pure {Q : α → Prop} {a : α} (h : Q a) : Shows Q (pure a : Viewing ν α) :=
  fun _ _ => h

/-- A sequence, when only its last part matters. -/
theorem Shows.of_bind {Q : β → Prop} {x : Viewing ν α} {f : α → Viewing ν β}
    (hf : ∀ a, Shows Q (f a)) : Shows Q (x >>= f) := by
  intro disk world
  rw [StateT.run_bind, StateT.run_bind]
  exact (yields_true _).bind fun r _ => hf r.1.1 r.1.2 r.2

/-- A sequence, by what its first part returns. -/
theorem Shows.bind {P : α → Prop} {Q : β → Prop} {x : Viewing ν α} {f : α → Viewing ν β}
    (hx : Shows P x) (hf : ∀ a, P a → Shows Q (f a)) : Shows Q (x >>= f) := by
  intro disk world
  rw [StateT.run_bind, StateT.run_bind]
  exact (hx disk world).bind fun r hr => hf r.1.1 hr r.1.2 r.2

variable (ntfs : NtfsCrate) (driver : VmDriver (Reading ν))

/-- The binaries of a system do not show guest tools. -/
theorem detectOsFromBinaries_tools (volume : ntfs.Volume) (system32 : ntfs.File) :
    Shows (fun found => ∀ info msg, found = some (info, msg) → info.guestTools = none)
      (detectOsFromBinaries ntfs driver volume system32) := by
  unfold detectOsFromBinaries
  refine Shows.of_bind fun bytes => ?_
  dsimp only
  -- With or without the header of the kernel, what follows goes by the timestamp.
  split
  all_goals
    refine Shows.of_bind fun timestamp => ?_
    cases timestamp with
    | some timestamp =>
      refine shows_pure fun info msg h => ?_
      cases h
      rfl
    | none =>
      refine Shows.of_bind fun license => ?_
      split
      · refine shows_pure fun info msg h => ?_
        cases h
        rfl
      · refine shows_pure fun info msg h => ?_
        cases h

/-- Nor does the information that the fallback makes of them. -/
theorem fallbackInfo_tools (volume : ntfs.Volume) (root : ntfs.File) :
    Shows (fun found => ∀ info, found.1 = some info → info.guestTools = none)
      (fallbackInfo ntfs driver volume root) := by
  unfold fallbackInfo
  refine Shows.of_bind fun directory => ?_
  split
  · refine (detectOsFromBinaries_tools ntfs driver volume _).bind fun found hfound => ?_
    cases found with
    | none =>
      refine shows_pure fun info h => ?_
      cases h
    | some found =>
      refine shows_pure fun info h => ?_
      obtain rfl := Option.some.inj h
      exact hfound _ _ rfl
  · refine shows_pure fun info h => ?_
    cases h

/-- The whole fallback finds no guest tools. -/
theorem fallbackScan_tools (volume : ntfs.Volume) (root : ntfs.File) (options : Options) :
    Shows (fun found => ∀ info, found.1 = some info → info.guestTools = none)
      (fallbackScan ntfs driver volume root options) := by
  unfold fallbackScan
  dsimp only
  split
  · refine (fallbackInfo_tools ntfs driver volume root).bind fun found hfound => ?_
    split
    · exact Shows.of_bind fun programs => shows_pure hfound
    · exact Shows.of_bind fun programs => shows_pure hfound
  · refine (shows_pure (fun _ h => by cases h) : Shows (fun found : Option GuestInfo × List String =>
      ∀ info, found.1 = some info → info.guestTools = none) _).bind fun found hfound => ?_
    split
    · exact Shows.of_bind fun programs => shows_pure hfound
    · exact Shows.of_bind fun programs => shows_pure hfound

/-- The file system does not show guest tools. -/
theorem applyFsFallback_tools (options : Options) :
    Shows (fun found => ∀ info, found.1 = some info → info.guestTools = none)
      (applyFsFallback ntfs driver options) := by
  unfold applyFsFallback
  refine Shows.of_bind fun volume => ?_
  split
  · exact shows_pure fun info h => by cases h
  refine Shows.of_bind fun volume => ?_
  split
  · exact shows_pure fun info h => by cases h
  refine Shows.of_bind fun root => ?_
  split
  · exact shows_pure fun info h => by cases h
  rename_i volume _ root
  exact fallbackScan_tools ntfs driver volume root options

/-- What the file system gives on a fresh view. -/
theorem fallback_tools {options : Options} {start size chunkSize : ℕ} {world world' : World ν}
    {found : FallbackFound}
    (h : calmFrom (withView start size chunkSize (applyFsFallback ntfs driver options)) world =
      some (found, world')) :
    ∀ info, found.1 = some info → info.guestTools = none := by
  unfold withView at h
  split at h
  · rw [calmFrom_bind] at h
    rename_i disk _
    obtain ⟨⟨⟨found', disk'⟩, world''⟩, hcalm, h⟩ := Option.bind_eq_some_iff.mp h
    cases h
    exact (applyFsFallback_tools ntfs driver options disk world).of_calm hcalm
  · cases h

end Fallback

/-! ## The analysis -/

section Merge

variable {extraction : List String} {software : Outcome SoftwareFound}
  {system : Option (Outcome SystemFound)} {fallback : FallbackFound}

/-- When `SOFTWARE` was parsed, the file system is not asked, and nothing is lost. -/
theorem merged_of_parsed {found : SoftwareFound} (hparsed : parsed software = some found) :
    Merged extraction software system fallback
      (analysisResult extraction software system fallback) := by
  -- The fallback is not asked.
  have hresult : analysisResult extraction software system fallback =
      ⟨hivesInfo software system, softwarePrograms software,
        hivesWarnings extraction software system⟩ := by
    rw [analysisResult, hparsed]
    rfl
  have hne : parsed software ≠ none := by
    rw [hparsed]
    exact Option.some_ne_none _
  rw [hresult]
  constructor
  · rw [hparsed, softwarePrograms, hparsed]
    rfl
  · intro info hinfo
    rw [hparsed] at hinfo
    obtain rfl := Option.some.inj hinfo
    rw [hivesInfo, softwareInfo, hparsed]
    exact ⟨rfl, rfl⟩
  · rfl
  · intro w hw
    simp [hivesWarnings, hw]
  · intro w hw
    simp [hivesWarnings, hw]
  · intro hnone w hw
    simp [hivesWarnings, hnone, hw]
  · exact fun h => absurd h hne
  · exact fun h => absurd h hne

/-- A hive that was not parsed is told in a warning. -/
theorem softwareWarnings_ne_nil (hparsed : parsed software = none) :
    softwareWarnings software ≠ [] := by
  rcases software with _ | _ | found
  · exact List.cons_ne_nil _ _
  · exact List.cons_ne_nil _ _
  · cases hparsed

/-- When `SOFTWARE` was not parsed, the guest tools of `SYSTEM` are lost exactly when the file
system tells the operating system. -/
theorem merged_iff_of_unparsed (hparsed : parsed software = none)
    (htools : ∀ info, fallback.1 = some info → info.guestTools = none) :
    Merged extraction software system fallback
        (analysisResult extraction software system fallback) ↔
      systemTools system = none ∨ fallback.1 = none := by
  have hnone : softwareTools software = none := by
    rw [softwareTools, hparsed]
    rfl
  have hprograms : softwarePrograms software = [] := by
    rw [softwarePrograms, hparsed]
    rfl
  -- The fallback replaces the system information as a whole when it finds any.
  have hresult : analysisResult extraction software system fallback =
      ⟨fallback.1.getD (hivesInfo software system), fallback.2.1,
        hivesWarnings extraction software system ++ fallback.2.2⟩ := by
    rw [analysisResult, hparsed, hprograms]
    rfl
  have hinfo : (hivesInfo software system).guestTools = systemTools system := by
    rw [hivesInfo, hnone, Option.none_or]
  rw [hresult]
  constructor
  · -- The fallback never tells guest tools, so where it tells a system those of `SYSTEM` are lost.
    intro h
    have hkept := h.tools
    rw [hnone, Option.none_or] at hkept
    cases hfallback : fallback.1 with
    | none => exact Or.inr rfl
    | some info =>
      refine Or.inl ?_
      rw [← hkept, hfallback]
      exact htools info hfallback
  · intro h
    constructor
    · rw [hparsed]
      rfl
    · intro info hor
      rw [hparsed, Option.map_none, Option.none_or] at hor
      rw [hor]
      exact ⟨rfl, rfl⟩
    · rw [hnone, Option.none_or]
      cases hfallback : fallback.1 with
      | none => exact hinfo
      | some info =>
        have hlost := h.resolve_right (hfallback ▸ Option.some_ne_none _)
        rw [hlost]
        exact htools info hfallback
    · intro w hw
      simp [hivesWarnings, hw]
    · intro w hw
      simp [hivesWarnings, hw]
    · intro _ w hw
      simp [hivesWarnings, hnone, hw]
    · intro _ w hw
      simp [hw]
    · intro _ hempty
      simp [hivesWarnings, softwareWarnings_ne_nil hparsed] at hempty

end Merge

section Analyze

variable (crates : Crates) (driver : VmDriver (Reading ν)) (partitions : List Partition)
  (chunkSize : ℕ) (options : Options)

/-- After the extraction of the hives, an analysis that is not cancelled returns. -/
theorem analyze_calm (hsystem : options.shouldAnalyzeSystem = true) {world w₁ w₂ w₃ : World ν}
    {p : Partition} {hives : Hives} {fallback : FallbackFound}
    (hpartition : calmFrom (findSystemPartition crates.ntfs driver chunkSize
      (partitions.filter (·.isNtfs))) world = some (some p, w₁))
    (hextract : calmFrom (withView p.start p.size chunkSize (extractNtfsHives crates.ntfs driver
      (options.includeSystem && options.shouldAnalyzeSystem)).run) w₁ = some (.ok hives, w₂))
    (hfallback : parsed (softwareOutcome crates.hive hives options) = none →
      calmFrom (withView p.start p.size chunkSize (applyFsFallback crates.ntfs driver options)) w₂ =
        some (fallback, w₃)) :
    ∃ w, calmFrom (analyze crates driver partitions chunkSize options) world =
      some (.ok (analysisResult hives.warnings (softwareOutcome crates.hive hives options)
        (systemOutcome crates.hive hives) fallback), w) := by
  unfold analyze
  -- The steps in the order of the source, each with the outcome that is assumed of it.
  rw [hsystem, if_neg (by simp), calmFrom_bind, hpartition, Option.bind_some]
  dsimp only
  rw [hsystem] at hextract
  rw [calmFrom_bind, hextract, Option.bind_some]
  dsimp only
  rw [calmFrom_bind, calmFrom_lift, analyzeHives_calm crates.hive hives options hsystem,
    Option.map_some, Option.bind_some]
  dsimp only
  unfold analysisResult
  cases hparsed : parsed (softwareOutcome crates.hive hives options) with
  | none =>
    rw [Option.isNone_none, if_pos rfl, if_pos rfl, calmFrom_bind, hfallback hparsed]
    exact ⟨w₃, rfl⟩
  | some found => exact ⟨w₂, rfl⟩

/-- With system analysis enabled and without cancellation, the analysis returns after the extraction
of the hives, whatever the outcomes of the sources are. Its result contains what they found exactly
when `SOFTWARE` was parsed, `SYSTEM` showed no guest tools, or the file system did not tell the
operating system. -/
theorem analyze_merges_iff (hsystem : options.shouldAnalyzeSystem = true)
    {world w₁ w₂ w₃ : World ν} {p : Partition} {hives : Hives} {fallback : FallbackFound}
    (hpartition : calmFrom (findSystemPartition crates.ntfs driver chunkSize
      (partitions.filter (·.isNtfs))) world = some (some p, w₁))
    (hextract : calmFrom (withView p.start p.size chunkSize (extractNtfsHives crates.ntfs driver
      (options.includeSystem && options.shouldAnalyzeSystem)).run) w₁ = some (.ok hives, w₂))
    (hfallback : parsed (softwareOutcome crates.hive hives options) = none →
      calmFrom (withView p.start p.size chunkSize (applyFsFallback crates.ntfs driver options)) w₂ =
        some (fallback, w₃)) :
    ∃ result w, calmFrom (analyze crates driver partitions chunkSize options) world =
        some (.ok result, w) ∧
      (Merged hives.warnings (softwareOutcome crates.hive hives options)
          (systemOutcome crates.hive hives) fallback result ↔
        parsed (softwareOutcome crates.hive hives options) ≠ none ∨
          systemTools (systemOutcome crates.hive hives) = none ∨ fallback.1 = none) := by
  obtain ⟨w, hrun⟩ := analyze_calm crates driver partitions chunkSize options hsystem hpartition
    hextract hfallback
  refine ⟨_, w, hrun, ?_⟩
  cases hparsed : parsed (softwareOutcome crates.hive hives options) with
  | none =>
    rw [or_iff_right fun h => h rfl]
    exact merged_iff_of_unparsed hparsed (fallback_tools crates.ntfs driver (hfallback hparsed))
  | some found =>
    exact iff_of_true (merged_of_parsed hparsed) (Or.inl (Option.some_ne_none _))

end Analyze

/-! ## Guest tools that are lost -/

/-- A volume with the hives and a licence, but without a kernel that can be read. -/
def sampleNtfs : NtfsCrate where
  Volume := Unit
  File := String
  Index := Unit
  Entry := String
  Item := String
  Attribute := String
  Value := String
  Entries := Unit
  new := .ret (.ok ())
  readUpcaseTable _ := .ret (.ok ())
  rootDirectory _ := .ret (.ok "")
  directoryIndex _ := .ret (.ok ())
  find _ _ name := .ret
    (if name ∈ configPath ++ ["SOFTWARE", "SYSTEM", "license.rtf"] then some (.ok name) else none)
  toFile _ name := .ret (.ok name)
  isDirectory name := name ∈ configPath
  data name _ := .ret (some (.ok name))
  toAttribute := .ok
  value name := .ret (.ok name)
  valueLength _ := 1
  readToEnd name := .ret (.ok [if name = "SYSTEM" then 1 else 0])
  readPrefix _ _ := .ret (.ok [])
  entries _ := ()
  next _ := .ret (none, ())
  maxEntries _ := 0

/-- The hive `SYSTEM` holds the service of VMware Tools, and `SOFTWARE` cannot be parsed. -/
def sampleHive : HiveCrate where
  Hive := Unit
  KeyNode := ℕ
  KeyValue := Unit
  new bytes := some (if bytes = [1] then .ok () else .error "InvalidSignature")
  withoutValidation _ := some (.error "InvalidSignature")
  rootKeyNode _ := some (.ok 0)
  subkeys n := [some (n + 1)]
  values _ := []
  keyName n := some (["", "ControlSet001", "Services", "VMTools"][n]?.map String.toList)
  valueName _ := some none
  valueData _ := some none

/-- The crates for a volume of another kind are not used. -/
def sampleExt4 : Ext4Crate where
  SuperBlock := Unit
  DirEntry := Unit
  Inode := Unit
  Reader := Unit
  new := .ret (.ok ())
  resolvePath _ _ := .ret (.error "NotFound")
  loadInode _ _ := .ret (.error "NotFound")
  openInode _ _ := .ret (.error "NotFound")
  readToEnd _ := .ret (.ok [])

/-- The crates of this guest. -/
def sampleCrates : Crates := ⟨sampleExt4, sampleNtfs, sampleHive⟩

/-- Both analyses are enabled, and `SYSTEM` is asked for. -/
def sampleOptions : Options := ⟨false, false, true, none, none, false, none⟩

/-- Its system partition. -/
def samplePartition : Partition := ⟨0, 0, 0, "", .ntfs, none⟩

/-- Its hives. -/
def sampleHives : Hives := ⟨[0], some [1], false, false, []⟩

/-- What the file system gives. -/
def sampleFallback : FallbackFound :=
  (some { osName := s!"Windows (detected by {fallbackFsOrigin}: license.rtf)".toList }, [],
    ["Registry completely inaccessible: ntoskrnl.exe could not be read, but Windows was " ++
      "confirmed via the presence of \\Windows\\System32\\license.rtf " ++
      s!"({fallbackFsOrigin})"])

/-- The partition is found. -/
theorem sample_partition : calmFrom (findSystemPartition sampleCrates.ntfs idleDriver 512
    ([samplePartition].filter (·.isNtfs))) idleWorld = some (some samplePartition, idleWorld) := rfl

/-- The hives are read. -/
theorem sample_hives : calmFrom (withView samplePartition.start samplePartition.size 512
    (extractNtfsHives sampleCrates.ntfs idleDriver
      (sampleOptions.includeSystem && sampleOptions.shouldAnalyzeSystem)).run) idleWorld =
    some (.ok sampleHives, idleWorld) := rfl

/-- The fallback finds the system. -/
theorem sample_fallback : calmFrom (withView samplePartition.start samplePartition.size 512
    (applyFsFallback sampleCrates.ntfs idleDriver sampleOptions)) idleWorld =
    some (sampleFallback, idleWorld) := rfl

/-- The equivalence for a damaged `SOFTWARE` hive beside an intact `SYSTEM` hive. -/
theorem analyze_merges_iff_dirty : ∃ result w,
    calmFrom (analyze sampleCrates idleDriver [samplePartition] 512 sampleOptions) idleWorld =
        some (.ok result, w) ∧
      (Merged sampleHives.warnings (softwareOutcome sampleCrates.hive sampleHives sampleOptions)
          (systemOutcome sampleCrates.hive sampleHives) sampleFallback result ↔
        parsed (softwareOutcome sampleCrates.hive sampleHives sampleOptions) ≠ none ∨
          systemTools (systemOutcome sampleCrates.hive sampleHives) = none ∨
          sampleFallback.1 = none) :=
  analyze_merges_iff sampleCrates idleDriver [samplePartition] 512 sampleOptions rfl
    sample_partition sample_hives fun _ => sample_fallback

/-- `SYSTEM` shows VMware Tools, and the result says that there are no guest tools. -/
theorem analyze_loses_tools : ∃ result w,
    calmFrom (analyze sampleCrates idleDriver [samplePartition] 512 sampleOptions) idleWorld =
        some (.ok result, w) ∧
      systemTools (systemOutcome sampleCrates.hive sampleHives) = some ⟨"VMware Tools", none, true⟩ ∧
      result.guestInfo.guestTools = none ∧
      ¬Merged sampleHives.warnings (softwareOutcome sampleCrates.hive sampleHives sampleOptions)
        (systemOutcome sampleCrates.hive sampleHives) sampleFallback result := by
  have hsoftware : parsed (softwareOutcome sampleCrates.hive sampleHives sampleOptions) = none := rfl
  have hsystem : systemTools (systemOutcome sampleCrates.hive sampleHives) =
      some ⟨"VMware Tools", none, true⟩ := by decide +kernel
  obtain ⟨w, hrun⟩ := analyze_calm sampleCrates idleDriver [samplePartition] 512 sampleOptions rfl
    sample_partition sample_hives fun _ => sample_fallback
  refine ⟨_, w, hrun, hsystem, ?_, ?_⟩
  · rw [analysisResult, hsoftware]
    rfl
  · rw [merged_iff_of_unparsed hsoftware
      (fallback_tools sampleCrates.ntfs idleDriver sample_fallback), hsystem]
    rintro (h | h) <;> cases h

end VmSpect.Windows
