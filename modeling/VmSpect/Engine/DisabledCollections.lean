import VmSpect.Engine.Inspection
import VmSpect.Parsers.WindowsMerge

/-!
# Collections that are disabled

`--no-system` and `--no-apps` disable the two collections of an analysis. Whatever the driver, the
partitions and the crates do, and whenever the token is set, no inspector returns programs that
were disabled, and those of Linux and of unknown systems return no disabled guest information
either. The one of Windows does, where the registry cannot be read: it names the operating system
without a look at the options (`analyzeGuest_honours_iff`).
-/

namespace VmSpect

open Polling Polling.Prog Windows

variable {ν α β : Type}

/-- The collections that are disabled are empty. -/
structure AnalysisResult.Honours (options : Options) (result : AnalysisResult) : Prop where
  guestInfo : options.noSystem = true → result.guestInfo = {}
  programs : options.noApps = true → result.programs = []

/-! ## Values of any run -/

/-- Every value that code on the image returns satisfies the condition. -/
def Gives (Q : α → Prop) (x : Reading ν α) : Prop := ∀ world, (x.run world).Yields fun r => Q r.1

/-- A value that satisfies the condition. -/
theorem gives_pure {Q : α → Prop} {a : α} (h : Q a) : Gives Q (pure a : Reading ν α) := fun _ => h

/-- A sequence, by what its first part returns. -/
theorem Gives.bind {P : α → Prop} {Q : β → Prop} {x : Reading ν α} {f : α → Reading ν β}
    (hx : Gives P x) (hf : ∀ a, P a → Gives Q (f a)) : Gives Q (x >>= f) := by
  intro world
  rw [StateT.run_bind]
  exact (hx world).bind fun r hr => hf r.1 hr r.2

/-- A sequence, when only its last part matters. -/
theorem Gives.of_bind {Q : β → Prop} {x : Reading ν α} {f : α → Reading ν β}
    (hf : ∀ a, Gives Q (f a)) : Gives Q (x >>= f) :=
  Gives.bind (P := fun _ => True) (fun _ => yields_true _) fun a _ => hf a

/-- Code that does not use the image. -/
theorem Gives.lift {Q : α → Prop} {p : Prog Site α} (h : p.Yields Q) :
    Gives Q (StateT.lift p : Reading ν α) :=
  fun _ => h.bind fun _ ha => ha

/-- Code on a fresh view. -/
theorem gives_withView {Q : α → Prop} {body : Viewing ν α} (h : Shows Q body)
    (start size chunkSize : ℕ) : Gives Q (withView start size chunkSize body) := by
  unfold VmSpect.withView
  split
  · rename_i disk _
    intro world
    rw [StateT.run_bind]
    exact (h disk world).bind fun r hr => hr
  · exact fun _ => trivial

/-! ## Linux -/

section Linux

variable (ext4 : Ext4Crate) (driver : VmDriver (Reading ν)) (options : Options)

/-- The system is not analyzed when it is disabled. -/
theorem shouldAnalyzeSystem_eq_false {options : Options} (h : options.noSystem = true) :
    options.shouldAnalyzeSystem = false := by
  rw [Options.shouldAnalyzeSystem, h]
  rfl

/-- The programs are not analyzed when they are disabled. -/
theorem shouldAnalyzeApps_eq_false {options : Options} (h : options.noApps = true) :
    options.shouldAnalyzeApps = false := by
  rw [Options.shouldAnalyzeApps, h]
  rfl

/-- What is found in a file system. -/
theorem analyzeFileSystem_honours (sb : ext4.SuperBlock) :
    Shows (AnalysisResult.Honours options) (Linux.analyzeFileSystem ext4 driver sb options) := by
  -- The files of guest tools are only looked for when the system is analyzed.
  have htools : ∀ (info : GuestInfo) (programs : List Program),
      (options.noSystem = true → info = {}) → (options.noApps = true → programs = []) →
      Shows (AnalysisResult.Honours options)
        (if (options.shouldAnalyzeSystem && info.guestTools.isNone) = true then do
          let tools ← Linux.detectGuestToolsLinuxFiles ext4 driver sb
          pure { guestInfo := { info with guestTools := tools },
                 programs := if options.shouldAnalyzeApps then sortAndDedup programs else programs }
        else pure { guestInfo := info,
                    programs := if options.shouldAnalyzeApps then sortAndDedup programs
                      else programs }) := by
    intro info programs hinfo hprograms
    have hsorted : options.noApps = true →
        (if options.shouldAnalyzeApps = true then sortAndDedup programs else programs) = [] := by
      intro h
      rw [shouldAnalyzeApps_eq_false h, hprograms h]
      rfl
    split
    · rename_i hsystem
      refine Shows.of_bind fun tools => shows_pure ⟨fun h => ?_, hsorted⟩
      rw [shouldAnalyzeSystem_eq_false h, Bool.false_and] at hsystem
      cases hsystem
    · exact shows_pure ⟨hinfo, hsorted⟩
  unfold Linux.analyzeFileSystem
  dsimp only
  split
  case' isTrue hsystem =>
    refine Shows.of_bind fun info => Shows.of_bind fun status => ?_
    have hinfo : options.noSystem = true → info = {} := by
      intro h
      rw [shouldAnalyzeSystem_eq_false h] at hsystem
      cases hsystem
  case' isFalse =>
    refine (shows_pure rfl : Shows (· = ({} : GuestInfo)) _).bind fun info hempty =>
      Shows.of_bind fun status => ?_
    have hinfo : options.noSystem = true → info = {} := fun _ => hempty
  -- The packages, with the guest tools among them, are the same in both cases.
  all_goals
    rcases status with e | dpkgStatus
    · exact htools info [] hinfo fun _ => rfl
    · refine Shows.of_bind fun found => htools _ _ (fun h => ?_) fun h => ?_
      · rw [shouldAnalyzeSystem_eq_false h]
        exact hinfo h
      · rw [shouldAnalyzeApps_eq_false h]
        rfl

/-- The loop over the candidates. -/
theorem tryCandidates_honours (chunkSize : ℕ) (candidates : List Partition) :
    Gives (fun found => ∀ result, found = some result → result.Honours options)
      (Linux.tryCandidates ext4 driver chunkSize options candidates) := by
  induction candidates with
  | nil =>
    refine gives_pure fun result h => ?_
    cases h
  | cons p rest ih =>
    unfold Linux.tryCandidates
    refine Gives.bind (P := fun found => ∀ result, found = some result → result.Honours options)
      ?_ fun found hfound => ?_
    · refine gives_withView (Shows.of_bind fun opened => ?_) _ _ _
      split
      · rw [map_eq_pure_bind]
        refine (analyzeFileSystem_honours ext4 driver options _).bind fun result hresult => ?_
        refine shows_pure fun result' h => ?_
        obtain rfl := Option.some.inj h
        exact hresult
      · refine shows_pure fun result h => ?_
        cases h
    · split
      · exact gives_pure hfound
      · exact ih

/-- The inspector of Linux. -/
theorem Linux.analyze_honours (partitions : List Partition) (chunkSize : ℕ) :
    Gives (fun r => ∀ result, r = .ok result → result.Honours options)
      (Linux.analyze ext4 driver partitions chunkSize options) := by
  unfold Linux.analyze
  split
  · refine gives_pure fun result h => ?_
    cases h
    exact ⟨fun _ => rfl, fun _ => rfl⟩
  · refine (tryCandidates_honours ext4 driver options chunkSize _).bind fun found hfound => ?_
    split
    · refine gives_pure fun result h => ?_
      cases h
      exact hfound _ rfl
    · refine gives_pure fun result h => ?_
      cases h
      split_ifs with hsystem
      · refine ⟨fun h => ?_, fun _ => rfl⟩
        rw [shouldAnalyzeSystem_eq_false h] at hsystem
        cases hsystem
      · exact ⟨fun _ => rfl, fun _ => rfl⟩

end Linux

/-- The inspector of an unknown system. -/
theorem analyzeUnknown_honours (options : Options) : (analyzeUnknown options).Honours options := by
  refine ⟨fun h => ?_, fun _ => rfl⟩
  unfold analyzeUnknown
  rw [shouldAnalyzeSystem_eq_false h]
  rfl

/-! ## Windows -/

namespace Windows

section Hives

variable (hive : HiveCrate) (options : Options)

/-- A hive that was parsed. -/
theorem eq_ok_of_parsed {outcome : Outcome α} {found : α} (h : parsed outcome = some found) :
    outcome = some (.ok found) := by
  rcases outcome with _ | _ | found'
  · cases h
  · cases h
  · obtain rfl := Option.some.inj h
    rfl

/-- A part of the analysis that is skipped when it is disabled. -/
theorem yields_skipped {enabled : Bool} {p : Prog Site α} {empty : α} {disabled : Prop}
    (h : disabled → enabled = false) :
    (if enabled = true then p else pure empty).Yields fun a => disabled → a = empty := by
  split
  · rename_i henabled
    refine (yields_true p).mono fun a _ hdisabled => ?_
    rw [h hdisabled] at henabled
    cases henabled
  · exact fun _ => rfl

/-- What `SOFTWARE` gives for a disabled collection is empty. -/
theorem tryAnalyzeSoftware_disabled (bytes : List UInt8) (logsPresent : Bool) :
    YieldsOk (fun found : SoftwareFound =>
        (options.noSystem = true → found.1 = {}) ∧ (options.noApps = true → found.2.1 = []))
      (tryAnalyzeSoftware hive bytes options logsPresent) := by
  unfold tryAnalyzeSoftware
  refine YieldsOk.of_bind fun opened => ?_
  refine (YieldsOk.lift (yields_skipped shouldAnalyzeSystem_eq_false)).bind fun info hinfo => ?_
  refine (YieldsOk.lift (yields_skipped shouldAnalyzeApps_eq_false)).bind fun programs hprograms => ?_
  exact YieldsOk.pure ⟨hinfo, hprograms⟩

/-- The part of `analyze_hives` on `SOFTWARE`, by what parsing the hive gives. -/
theorem analyzeSoftwareHive_run (hives : Hives) (left : ℕ) :
    let parse := (tryAnalyzeSoftware hive hives.software options hives.softwareLogsPresent).run
    (analyzeSoftwareHive hive hives options).run left =
      (some (softwareInfo (parse.run left).1, softwarePrograms (parse.run left).1,
        softwareWarnings (parse.run left).1, (parsed (parse.run left).1).isNone),
        (parse.run left).2) := by
  dsimp only
  unfold analyzeSoftwareHive hiveOutcome
  rw [run_bind, run_catchPanic]
  dsimp only
  rcases ((tryAnalyzeSoftware hive hives.software options hives.softwareLogsPresent).run.run left).1
    with _ | _ | ⟨info, programs, notice⟩ <;> rfl

/-- `analyze_hives` when the system is not analyzed: `SYSTEM` is not parsed. -/
theorem analyzeHives_run (hives : Hives) (hsystem : options.noSystem = true) (left : ℕ) :
    let parse := (tryAnalyzeSoftware hive hives.software options hives.softwareLogsPresent).run
    (analyzeHives hive hives options).run left =
      (some (⟨softwareInfo (parse.run left).1, softwarePrograms (parse.run left).1,
        hives.warnings ++ softwareWarnings (parse.run left).1⟩,
        (parsed (parse.run left).1).isNone), (parse.run left).2) := by
  dsimp only
  unfold analyzeHives
  rw [run_bind, analyzeSoftwareHive_run]
  dsimp only
  rw [shouldAnalyzeSystem_eq_false hsystem, Bool.false_and, if_neg Bool.false_ne_true]
  show (some ((⟨_, _, _ ++ []⟩ : AnalysisResult), _), _) = _
  rw [List.append_nil]

/-- The programs of the hives. -/
theorem analyzeHives_programs (hives : Hives) (happs : options.noApps = true) :
    (analyzeHives hive hives options).Yields fun r => r.1.programs = [] := by
  -- A hive that is parsed gives no programs, and one that is not gives none either.
  have hsoftware : (analyzeSoftwareHive hive hives options).Yields fun r => r.2.1 = [] := by
    unfold analyzeSoftwareHive hiveOutcome
    refine (tryAnalyzeSoftware_disabled hive options _ _).catchPanic.bind fun outcome h => ?_
    rcases outcome with _ | _ | found
    · rfl
    · rfl
    · exact (h _ rfl _ rfl).2 happs
  unfold analyzeHives
  refine hsoftware.bind fun software hprograms => ?_
  dsimp only
  split
  · exact (yields_true _).bind fun _ _ => hprograms
  · exact hprograms

end Hives

section Fallback

variable (ntfs : NtfsCrate) (driver : VmDriver (Reading ν)) (options : Options)

/-- What the file system gives for a disabled collection is empty. -/
theorem applyFsFallback_disabled :
    Shows (fun found : FallbackFound =>
        (options.noSystem = true → found.1 = none) ∧ (options.noApps = true → found.2.1 = []))
      (applyFsFallback ntfs driver options) := by
  unfold applyFsFallback
  refine Shows.of_bind fun volume => ?_
  split
  · exact shows_pure ⟨fun _ => rfl, fun _ => rfl⟩
  refine Shows.of_bind fun volume => ?_
  split
  · exact shows_pure ⟨fun _ => rfl, fun _ => rfl⟩
  refine Shows.of_bind fun root => ?_
  split
  · exact shows_pure ⟨fun _ => rfl, fun _ => rfl⟩
  rename_i volume _ root
  -- The folders are only scanned when the programs are analyzed.
  have hprograms : ∀ (info : Option GuestInfo) (warnings : List Program → List String),
      (options.noSystem = true → info = none) →
      Shows (fun found : FallbackFound =>
          (options.noSystem = true → found.1 = none) ∧ (options.noApps = true → found.2.1 = []))
        (if options.shouldAnalyzeApps = true then do
          let programs ← scanProgramFiles ntfs driver volume root programFilesDirs []
          pure (info, programs, warnings programs)
        else pure (info, [], warnings [])) := by
    intro info warnings hinfo
    split
    · rename_i happs
      refine Shows.of_bind fun programs => shows_pure ⟨hinfo, fun h => ?_⟩
      rw [shouldAnalyzeApps_eq_false h] at happs
      cases happs
    · exact shows_pure ⟨hinfo, fun _ => rfl⟩
  unfold fallbackScan
  dsimp only
  by_cases hsystem : options.shouldAnalyzeSystem = true
  · rw [if_pos hsystem]
    refine Shows.of_bind fun found => hprograms found.1 _ fun h => ?_
    rw [shouldAnalyzeSystem_eq_false h] at hsystem
    cases hsystem
  · rw [if_neg hsystem]
    refine (shows_pure rfl : Shows (· = ((none, []) : Option GuestInfo × List String)) _).bind
      fun found hfound => hprograms found.1 _ fun _ => ?_
    rw [hfound]

end Fallback

section Analyze

variable (crates : Crates) (driver : VmDriver (Reading ν)) (partitions : List Partition)
  (chunkSize : ℕ) (options : Options)

/-- In this run no registry can be read: no partition has one, its hives cannot be extracted, or
parsing `SOFTWARE` fails or panics. -/
def RegistryInaccessible (world : World ν) (moment : ℕ) : Prop :=
  match runFrom (findSystemPartition crates.ntfs driver chunkSize (partitions.filter (·.isNtfs)))
      world moment with
  | (some (none, _), _) => True
  | (some (some p, world), left) =>
    match runFrom (withView p.start p.size chunkSize (extractNtfsHives crates.ntfs driver
        (options.includeSystem && options.shouldAnalyzeSystem)).run) world left with
    | (some (.error _, _), _) => True
    | (some (.ok hives, _), left) => parsed ((tryAnalyzeSoftware crates.hive hives.software options
        hives.softwareLogsPresent).run.run left).1 = none
    | (none, _) => False
  | (none, _) => False

/-- No program is returned when the programs are disabled. -/
theorem analyze_programs (happs : options.noApps = true) :
    Gives (fun r => ∀ result, r = .ok result → result.programs = [])
      (analyze crates driver partitions chunkSize options) := by
  unfold analyze
  split
  · refine gives_pure fun result h => ?_
    cases h
    rfl
  refine Gives.of_bind fun partition => ?_
  split
  · refine gives_pure fun result h => ?_
    cases h
    rfl
  refine Gives.of_bind fun hives => ?_
  split
  · refine gives_pure fun result h => ?_
    cases h
    rfl
  refine (Gives.lift (analyzeHives_programs crates.hive options _ happs)).bind fun found hfound => ?_
  dsimp only
  split
  · refine (gives_withView (applyFsFallback_disabled crates.ntfs driver options) _ _ _).bind
      fun fallback hfallback => gives_pure fun result h => ?_
    cases h
    dsimp only
    rw [hfound, hfallback.2 happs]
    rfl
  · refine gives_pure fun result h => ?_
    cases h
    exact hfound

/-- With the system disabled and the programs enabled, the guest is named when the registry cannot
be read, and is not told otherwise. -/
theorem analyze_guestInfo (hsystem : options.noSystem = true) (happs : options.noApps = false)
    {world after : World ν} {moment : ℕ} {result : AnalysisResult}
    (h : (runFrom (analyze crates driver partitions chunkSize options) world moment).1 =
      some (.ok result, after)) :
    (RegistryInaccessible crates driver partitions chunkSize options world moment ∧
        result.guestInfo = { osName := dirtyName }) ∨
      (¬ RegistryInaccessible crates driver partitions chunkSize options world moment ∧
        result.guestInfo = {}) := by
  have hany : (!options.shouldAnalyzeSystem && !options.shouldAnalyzeApps) = false := by
    rw [Options.shouldAnalyzeApps, happs, Bool.not_false, Bool.not_true, Bool.and_false]
  unfold analyze at h
  rw [hany, if_neg Bool.false_ne_true] at h
  unfold RegistryInaccessible
  obtain ⟨partition, world₁, left₁, hpartition, h⟩ := runFrom_bind_returns h
  rw [hpartition]
  rcases partition with _ | p
  · -- No partition has a registry.
    obtain ⟨hresult, -⟩ := Prod.mk.inj (Option.some.inj h)
    exact Or.inl ⟨trivial, by rw [← Except.ok.inj hresult]; rfl⟩
  dsimp only at h ⊢
  obtain ⟨hives, world₂, left₂, hextract, h⟩ := runFrom_bind_returns h
  rw [hextract]
  rcases hives with e | hives
  · -- The hives cannot be extracted.
    obtain ⟨hresult, -⟩ := Prod.mk.inj (Option.some.inj h)
    exact Or.inl ⟨trivial, by rw [← Except.ok.inj hresult]; rfl⟩
  dsimp only at h ⊢
  obtain ⟨found, world₃, left₃, hanalyzed, h⟩ := runFrom_bind_returns h
  rw [runFrom_lift, analyzeHives_run _ _ _ hsystem, Option.map_some] at hanalyzed
  obtain ⟨hfound, -⟩ := Prod.mk.inj hanalyzed
  obtain ⟨rfl, rfl⟩ := Prod.mk.inj (Option.some.inj hfound)
  dsimp only at h
  cases hparsed : parsed ((tryAnalyzeSoftware crates.hive hives.software options
      hives.softwareLogsPresent).run.run left₂).1 with
  | none =>
    -- The file system does not tell the system either.
    rw [hparsed] at h
    obtain ⟨fallback, world₄, left₄, hfallback, h⟩ := runFrom_bind_returns h
    have hnone := (gives_withView (applyFsFallback_disabled crates.ntfs driver options) p.start
      p.size chunkSize _).of_run (congrArg Prod.fst hfallback)
    obtain ⟨hresult, -⟩ := Prod.mk.inj (Option.some.inj h)
    refine Or.inl ⟨rfl, ?_⟩
    rw [← Except.ok.inj hresult]
    dsimp only at hnone ⊢
    rw [hnone.1 hsystem, softwareInfo, hparsed]
    rfl
  | some software =>
    -- `SOFTWARE` was parsed without its part on the system.
    rw [hparsed] at h
    obtain ⟨hresult, -⟩ := Prod.mk.inj (Option.some.inj h)
    refine Or.inr ⟨Option.some_ne_none software, ?_⟩
    have hdisabled := (tryAnalyzeSoftware_disabled crates.hive options hives.software
      hives.softwareLogsPresent).of_run (eq_ok_of_parsed hparsed) software rfl
    rw [← Except.ok.inj hresult]
    dsimp only
    rw [softwareInfo, hparsed]
    exact hdisabled.1 hsystem

end Analyze

end Windows

/-! ## Every inspector -/

/-- A guest that is named although the system is disabled. -/
theorem dirtyName_ne : ({ osName := dirtyName } : GuestInfo) ≠ {} := by decide

/-- The disabled collections of a result are empty, whichever inspector returned it and whatever
happened in the run, exactly unless only the system is disabled and a Windows guest was analyzed
whose registry could not be read. -/
theorem analyzeGuest_honours_iff (crates : Crates) (driver : VmDriver (Reading ν))
    (disk : Detector.DetectedDisk) (chunkSize : ℕ) (options : Options) {world after : World ν}
    {moment : ℕ} {result : AnalysisResult}
    (h : (runFrom (analyzeGuest crates driver disk chunkSize options) world moment).1 =
      some (.ok result, after)) :
    result.Honours options ↔
      ¬ (options.noSystem = true ∧ options.noApps = false ∧ disk.operatingSystem = .windows ∧
        RegistryInaccessible crates driver disk.partitions chunkSize options world moment) := by
  unfold analyzeGuest at h
  cases hos : disk.operatingSystem with
  | linux =>
    rw [hos] at h
    have hresult := (Linux.analyze_honours crates.ext4 driver options disk.partitions chunkSize
      world).of_run h
    exact iff_of_true (hresult result rfl) fun hnot => by cases hnot.2.2.1
  | unknown =>
    rw [hos] at h
    obtain ⟨hresult, -⟩ := Prod.mk.inj (Option.some.inj h)
    rw [← Except.ok.inj hresult]
    exact iff_of_true (analyzeUnknown_honours options) fun hnot => by cases hnot.2.2.1
  | windows =>
    rw [hos] at h
    dsimp only at h
    cases hsystem : options.noSystem with
    | false =>
      refine iff_of_true ⟨fun hdisabled => ?_, fun happs => ?_⟩ fun hnot => by cases hnot.1
      · rw [hsystem] at hdisabled
        cases hdisabled
      · exact (analyze_programs crates driver disk.partitions chunkSize options happs world).of_run h
          result rfl
    | true =>
      cases happs : options.noApps with
      | true =>
        -- Nothing is analyzed.
        refine iff_of_true ?_ fun hnot => by cases hnot.2.1
        unfold Windows.analyze at h
        rw [shouldAnalyzeSystem_eq_false hsystem, shouldAnalyzeApps_eq_false happs,
          if_pos (by decide)] at h
        obtain ⟨hresult, -⟩ := Prod.mk.inj (Option.some.inj h)
        rw [← Except.ok.inj hresult]
        exact ⟨fun _ => rfl, fun _ => rfl⟩
      | false =>
        rcases analyze_guestInfo crates driver disk.partitions chunkSize options hsystem happs h with
          ⟨hinaccessible, hinfo⟩ | ⟨haccessible, hinfo⟩
        · refine iff_of_false (fun hhonours => ?_) fun hnot => ?_
          · exact dirtyName_ne (hinfo.symm.trans (hhonours.guestInfo hsystem))
          · exact hnot ⟨rfl, rfl, rfl, hinaccessible⟩
        · refine iff_of_true ⟨fun _ => hinfo, fun hdisabled => ?_⟩ fun hnot => ?_
          · rw [happs] at hdisabled
            cases hdisabled
          · exact haccessible hnot.2.2.2

/-! ## A guest that is named although the system is disabled -/

/-- Only the programs are analyzed. -/
def programsOnly : Options := ⟨false, true, false, none, none, false, none⟩

/-- The disk of a Windows guest whose `SOFTWARE` hive is damaged. -/
def damagedDisk : Detector.DetectedDisk := ⟨.mbr, [samplePartition], .windows⟩

/-- What is returned for it. -/
def damagedResult : AnalysisResult where
  guestInfo := { osName := dirtyName }
  warnings := ["SOFTWARE hive corrupt or inaccessible (dirty Registry): " ++
    "Windows Registry error: InvalidSignature"]

/-- The analysis returns it. -/
theorem damaged_run : (runFrom (analyzeGuest sampleCrates idleDriver damagedDisk 512 programsOnly)
    idleWorld 5).1 = some (.ok damagedResult, idleWorld) := rfl

/-- The registry of this guest cannot be read. -/
theorem damaged_inaccessible : RegistryInaccessible sampleCrates idleDriver damagedDisk.partitions
    512 programsOnly idleWorld 5 := by
  unfold RegistryInaccessible
  exact (rfl : parsed ((tryAnalyzeSoftware sampleCrates.hive [0] programsOnly false).run.run 5).1 = none)

/-- The crates with hives that can be parsed and hold no keys. -/
def readableCrates : Crates :=
  { sampleCrates with
    hive := { sampleHive with new := fun _ => some (.ok ()), subkeys := fun _ => [] } }

/-- Nothing is found in them. -/
theorem readable_run : (runFrom (analyzeGuest readableCrates idleDriver damagedDisk 512 programsOnly)
    idleWorld 5).1 = some (.ok {}, idleWorld) := by
  -- The sort of the programs, of which there are none, is not unfolded by default.
  with_unfolding_all rfl

/-- With these hives the registry can be read. -/
theorem readable_accessible : ¬ RegistryInaccessible readableCrates idleDriver
    damagedDisk.partitions 512 programsOnly idleWorld 5 := by
  unfold RegistryInaccessible
  intro h
  exact Option.some_ne_none _ h

/-- The result for the damaged hive tells the system, and the one for a readable hive does not. -/
theorem analyzeGuest_honours_iff_damaged :
    ¬ damagedResult.Honours programsOnly ∧ ({} : AnalysisResult).Honours programsOnly := by
  constructor
  · rw [analyzeGuest_honours_iff sampleCrates idleDriver damagedDisk 512 programsOnly damaged_run,
      not_not]
    exact ⟨rfl, rfl, rfl, damaged_inaccessible⟩
  · rw [analyzeGuest_honours_iff readableCrates idleDriver damagedDisk 512 programsOnly readable_run]
    exact fun h => readable_accessible h.2.2.2

/-- With the system disabled, the analysis returns the name of an operating system. -/
theorem damagedResult_tells_system :
    (runFrom (analyzeGuest sampleCrates idleDriver damagedDisk 512 programsOnly) idleWorld 5).1 =
      some (.ok damagedResult, idleWorld) ∧
      programsOnly.noSystem = true ∧ ¬ damagedResult.Honours programsOnly :=
  ⟨damaged_run, rfl, fun h => dirtyName_ne (h.guestInfo rfl)⟩

end VmSpect
