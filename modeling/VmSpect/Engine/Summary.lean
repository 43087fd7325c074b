import VmSpect.Engine.SameFindings

/-!
# The light inspection

`inspect_summary` inspects an image without its programs, and returns the summary of that report. It
agrees with the summary of the full report (`summary_of_report`), but for the note on the programs
that the full inspection recovers from the program folders of a Windows guest.

The two inspections read alike until the full one looks for programs, which is the last thing that
it does with the image. `Ends` compares such code: it needs no equal readers at the end.
-/

namespace VmSpect

open Polling Polling.Prog Relating UnixPath

variable {ν α β γ δ : Type}

/-! ## The summary -/

/-- `InspectionSummary`, without the duration. -/
structure InspectionSummary where
  path : Path
  operatingSystem : OperatingSystem
  guestTools : Option GuestTools
  accessMode : String
  warnings : List String
  deriving DecidableEq, Repr

/-- `InspectionReport::summary`. -/
def InspectionReport.summary (report : InspectionReport) : InspectionSummary where
  path := report.image.path
  operatingSystem := report.operatingSystem
  guestTools := report.guestInfo.guestTools
  accessMode := report.stats.accessMode
  warnings := report.warnings

/-- The options with `no_apps` set. -/
def Options.withoutApps (options : Options) : Options := { options with noApps := true }

/-- The engine that `inspect_summary` makes. -/
def Inspection.withoutApps (i : Inspection ν) : Inspection ν :=
  { i with options := i.options.withoutApps }

/-- `inspect_summary`. -/
def Inspection.inspectSummary (i : Inspection ν) (path : Path) :
    ExceptT VmSpectError EngineM InspectionSummary :=
  InspectionReport.summary <$> i.withoutApps.runInspection path

/-! ## Code that ends alike -/

/-- Whenever the first one returns, then so does the second one, with a related value, the same
progress and the same access mode. -/
def Ends (P : α → β → Prop) (x : Reading ν α) (y : Reading ν β) : Prop :=
  ∀ world a after, calmFrom x world = some (a, after) → ∃ b after',
    calmFrom y world = some (b, after') ∧ P a b ∧ after'.progress = after.progress ∧
      after'.reader.stats.accessMode = after.reader.stats.accessMode

/-- Readers that stay equal. -/
theorem readings_self (x : Reading ν α) : (readings (Eq : World ν → World ν → Prop)).Same x x := by
  rintro world _ rfl
  refine (Relating.calm Site Site).relates_mono (calm_self _) ?_
  rintro r _ rfl
  exact ⟨rfl, rfl⟩

/-- What two computations return that do the same on equal readers. -/
theorem calmFrom_of_relates {Q : α → β → Prop} {x : Reading ν α} {y : Reading ν β}
    (h : (readings Eq).relates Q x y) {world after : World ν} {a : α}
    (hx : calmFrom x world = some (a, after)) :
    ∃ b, calmFrom y world = some (b, after) ∧ Q a b := by
  have hend := h world world rfl
  change Option.Rel _ (calmFrom x world) (calmFrom y world) at hend
  rw [hx] at hend
  generalize calmFrom y world = r at hend ⊢
  obtain @⟨_, ⟨b, after'⟩, hQ, hafter⟩ := hend
  dsimp only at hQ hafter
  exact ⟨b, by rw [hafter], hQ⟩

/-- They end alike. -/
theorem Ends.of_relates {P : α → β → Prop} {x : Reading ν α} {y : Reading ν β}
    (h : (readings Eq).relates P x y) : Ends P x y := by
  intro world a after hx
  obtain ⟨b, hy, hP⟩ := calmFrom_of_relates h hx
  exact ⟨b, after, hy, hP, rfl, rfl⟩

/-- A sequence, the first parts of which leave equal readers. -/
theorem Ends.bind {P : γ → δ → Prop} {Q : α → β → Prop} {x : Reading ν α} {y : Reading ν β}
    {f : α → Reading ν γ} {g : β → Reading ν δ} (hxy : (readings Eq).relates Q x y)
    (hfg : ∀ a b, Q a b → Ends P (f a) (g b)) : Ends P (x >>= f) (y >>= g) := by
  intro world c after h
  rw [calmFrom_bind, Option.bind_eq_some_iff] at h
  obtain ⟨⟨a, mid⟩, hx, hf⟩ := h
  obtain ⟨b, hy, hQ⟩ := calmFrom_of_relates hxy hx
  obtain ⟨d, after', hg, hend⟩ := hfg a b hQ mid c after hf
  refine ⟨d, after', ?_, hend⟩
  rw [calmFrom_bind, hy]
  exact hg

/-- The same first part. -/
theorem Ends.bind_self {P : γ → δ → Prop} {x : Reading ν α} {f : α → Reading ν γ}
    {g : α → Reading ν δ} (hfg : ∀ a, Ends P (f a) (g a)) : Ends P (x >>= f) (x >>= g) := by
  refine Ends.bind (readings_self x) ?_
  rintro a _ rfl
  exact hfg a

/-- A sequence, the second part of which does not read the image. -/
theorem Ends.bind_pure {P : γ → δ → Prop} {Q : α → β → Prop} {x : Reading ν α} {y : Reading ν β}
    {f : α → γ} {g : β → δ} (hxy : Ends Q x y) (hfg : ∀ a b, Q a b → P (f a) (g b)) :
    Ends P (x >>= fun a => pure (f a)) (y >>= fun b => pure (g b)) := by
  intro world c after h
  rw [calmFrom_bind, Option.bind_eq_some_iff] at h
  obtain ⟨⟨a, mid⟩, hx, hf⟩ := h
  cases hf
  obtain ⟨b, after', hy, hQ, hend⟩ := hxy _ _ _ hx
  refine ⟨g b, after', ?_, hfg a b hQ, hend⟩
  rw [calmFrom_bind, hy]
  rfl

/-! ## What reading leaves alone -/

/-- The same reader, with this progress and this access mode. -/
structure Kept (progress : InspectionProgress) (mode : String) (world world' : World ν) : Prop where
  same : world = world'
  progress : world.progress = progress
  mode : world.reader.stats.accessMode = mode

/-- A read leaves the access mode alone. -/
theorem DiskReader.accessMode_fillRange (nbd : NbdApi ν) (reader : DiskReader ν)
    (offset len : ℕ) (devices : ℕ → Device) :
    (reader.fillRange nbd false offset len devices).1.stats.accessMode =
      reader.stats.accessMode := by
  have hread : (reader.readRange nbd false offset len devices).1.stats.accessMode =
      reader.stats.accessMode := by
    unfold DiskReader.readRange
    rw [if_neg (by decide)]
    split
    · rfl
    · rcases reader.backend.readRange nbd offset (min len (reader.virtualSize - offset)) devices with
        ⟨backend, e | data⟩ <;> rfl
  unfold DiskReader.fillRange
  rcases hresult : reader.readRange nbd false offset len devices with ⟨reader', e | data⟩ <;>
    rw [hresult] at hread <;> exact hread

section Kept

variable {progress : InspectionProgress} {mode : String}

/-- The calls of the driver keep them. -/
theorem diskDriver_kept (nbd : NbdApi ν) (virtualSize : ℕ) (reads : ℕ → ℕ → Device) :
    SameReads (readings (Kept progress mode)) (diskDriver nbd virtualSize reads)
      (diskDriver nbd virtualSize reads) where
  virtualSize := rfl
  readRange offset len := by
    refine same_bind (readings_poll .read) fun cancelled world world' h => ?_
    obtain ⟨rfl, hprogress, hmode⟩ := h
    cases cancelled with
    | true => exact .some ⟨rfl, rfl, hprogress, hmode⟩
    | false =>
      refine .some ⟨rfl, rfl, hprogress, ?_⟩
      exact (world.reader.accessMode_fillRange nbd offset len _).trans hmode
  recordCacheHit := stateT_modify fun world world' h => by
    obtain ⟨rfl, hprogress, hmode⟩ := h
    exact ⟨rfl, hprogress, hmode⟩

/-- Code over a view that does the same as itself keeps them. -/
theorem kept_of_same {x : Viewing ν α} (h : ∀ progress mode,
      (viewings (Kept progress mode) Eq).Same x x) {disk disk' : VirtualDisk}
    {world after : World ν} {a : α} (hx : calmFrom (x.run disk) world = some ((a, disk'), after)) :
    after.progress = world.progress ∧
      after.reader.stats.accessMode = world.reader.stats.accessMode := by
  have hend := h world.progress world.reader.stats.accessMode disk disk rfl world world
    ⟨rfl, rfl, rfl⟩
  change Option.Rel _ (calmFrom (x.run disk) world) (calmFrom (x.run disk) world) at hend
  rw [hx] at hend
  obtain @⟨_, _, -, hkept⟩ := hend
  exact ⟨hkept.progress, hkept.mode⟩

end Kept

/-! ## The analyzers -/

/-- Code over a view does the same as itself. -/
theorem viewings_self (x : Viewing ν α) :
    (viewings (Eq : World ν → World ν → Prop) Eq).Same x x := by
  rintro disk _ rfl
  refine (readings Eq).relates_mono (readings_self _) ?_
  rintro r _ rfl
  exact ⟨rfl, rfl⟩

/-- The result of a full analysis and of a light one: the same guest, and the same warnings but for a
note at the end. -/
def AnalysisResult.Covers (result result' : AnalysisResult) : Prop :=
  result.guestInfo = result'.guestInfo ∧
    ∃ note : List String, note.length ≤ 1 ∧ result.warnings = result'.warnings ++ note

/-- Results that differ in their programs. -/
theorem AnalysisResult.covers_of_eq {result result' : AnalysisResult}
    (hinfo : result.guestInfo = result'.guestInfo) (hwarnings : result.warnings = result'.warnings) :
    result.Covers result' :=
  ⟨hinfo, [], Nat.zero_le _, by rw [hwarnings, List.append_nil]⟩

namespace Linux

/-- States that differ in the packages that were collected. -/
structure DpkgState.SameTools (s s' : DpkgState) : Prop where
  guestTools : s.guestTools = s'.guestTools
  currentPkg : s.currentPkg = s'.currentPkg
  currentVer : s.currentVer = s'.currentVer
  currentSection : s.currentSection = s'.currentSection
  installed : s.installed = s'.installed

/-- The tools of a package do not depend on whether packages are collected. -/
theorem DpkgState.SameTools.processPackage {s s' : DpkgState} (h : s.SameTools s')
    (shouldApps shouldApps' : Bool) :
    (s.processPackage shouldApps).SameTools (s'.processPackage shouldApps') := by
  obtain ⟨htools, hpkg, hver, hsection, hinstalled⟩ := h
  unfold DpkgState.processPackage
  rw [hinstalled, hpkg, hver, htools]
  split
  · exact ⟨rfl, rfl, rfl, hsection, rfl⟩
  · exact ⟨htools, hpkg, hver, hsection, hinstalled⟩

/-- Neither do those of a line. -/
theorem DpkgState.SameTools.line {s s' : DpkgState} (h : s.SameTools s')
    (shouldApps shouldApps' : Bool) (line : List Char) :
    (s.line shouldApps line).SameTools (s'.line shouldApps' line) := by
  unfold DpkgState.line
  dsimp only
  split_ifs
  · exact ⟨h.guestTools, rfl, h.currentVer, h.currentSection, h.installed⟩
  · exact ⟨h.guestTools, h.currentPkg, h.currentVer, h.currentSection, rfl⟩
  · exact ⟨h.guestTools, h.currentPkg, rfl, h.currentSection, h.installed⟩
  · exact ⟨h.guestTools, h.currentPkg, h.currentVer, rfl, h.installed⟩
  · exact ⟨(h.processPackage shouldApps shouldApps').guestTools, rfl, rfl, rfl, rfl⟩
  · exact h

/-- The loop over the lines looks at the token equally often. -/
theorem dpkgLines_sameTools (shouldApps shouldApps' : Bool) (lines : List (List Char))
    {s s' : DpkgState} (h : s.SameTools s') :
    (Relating.calm Site Site).relates DpkgState.SameTools (dpkgLines shouldApps lines s)
      (dpkgLines shouldApps' lines s') := by
  induction lines generalizing s s' with
  | nil => exact (Relating.calm Site Site).relates_pure h
  | cons line rest ih =>
    refine bind_eq (calm_poll .dpkg .dpkg) fun cancelled => ?_
    cases cancelled with
    | true => exact (Relating.calm Site Site).relates_pure h
    | false => exact ih (h.line shouldApps shouldApps' line)

/-- The guest tools in the list of packages do not depend on the options. -/
theorem parseDpkgStatus_sameTools (content : List Char) (options options' : Options) :
    (Relating.calm Site Site).relates (fun parsed parsed' => parsed.2 = parsed'.2)
      (parseDpkgStatus content options) (parseDpkgStatus content options') := by
  refine (Relating.calm Site Site).relates_bind (dpkgLines_sameTools options.shouldAnalyzeApps
    options'.shouldAnalyzeApps _ ⟨rfl, rfl, rfl, rfl, rfl⟩) fun s s' h => ?_
  exact (Relating.calm Site Site).relates_pure (h.processPackage _ _).guestTools

variable (ext4 : Ext4Crate) (driver : VmDriver (Reading ν)) {options : Options}

/-- The analysis of one file system. -/
theorem analyzeFileSystem_covers (sb : ext4.SuperBlock)
    (hsystem : options.shouldAnalyzeSystem = true) :
    (viewings Eq Eq).relates AnalysisResult.Covers (analyzeFileSystem ext4 driver sb options)
      (analyzeFileSystem ext4 driver sb options.withoutApps) := by
  have hsystem' : options.withoutApps.shouldAnalyzeSystem = true := hsystem
  unfold analyzeFileSystem
  rw [hsystem, hsystem']
  refine bind_eq (viewings_self _) fun info => ?_
  refine bind_eq (viewings_self _) fun dpkgStatus => ?_
  -- The packages are not collected, but their tools are found.
  rcases dpkgStatus with e | content
  case' error =>
    refine (viewings Eq Eq).relates_bind (P := fun found found' => found.2 = found'.2)
      ((viewings Eq Eq).relates_pure rfl) ?_
  case' ok =>
    refine (viewings Eq Eq).relates_bind
      (stateT_lift (stateT_lift (parseDpkgStatus_sameTools content options options.withoutApps))) ?_
    rintro ⟨packages, tools⟩ ⟨packages', _⟩ rfl
    refine (viewings Eq Eq).relates_bind (P := fun found found' => found.2 = found'.2)
      ((viewings Eq Eq).relates_pure rfl) ?_
  all_goals
    rintro ⟨programs, info⟩ ⟨programs', _⟩ rfl
    dsimp only
    split
    · refine bind_eq (viewings_self _) fun tools => bind_eq (same_pure _) fun info => ?_
      exact (viewings Eq Eq).relates_pure (AnalysisResult.covers_of_eq rfl rfl)
    · refine bind_eq (same_pure _) fun info => ?_
      exact (viewings Eq Eq).relates_pure (AnalysisResult.covers_of_eq rfl rfl)

/-- Code on fresh views. -/
theorem withView_covers {P : α → β → Prop} {start size chunkSize : ℕ} {body : Viewing ν α}
    {body' : Viewing ν β} (h : (viewings Eq Eq).relates P body body') :
    (readings Eq).relates P (withView start size chunkSize body)
      (withView start size chunkSize body') := by
  unfold withView
  cases VirtualDisk.new start size chunkSize with
  | none => exact readings_panic _
  | some disk =>
    refine (readings Eq).relates_bind (h disk disk rfl) ?_
    rintro ⟨a, disk⟩ ⟨b, _⟩ ⟨hP, rfl⟩
    exact (readings Eq).relates_pure hP

/-- The analysis of the first candidate that can be opened. -/
theorem tryCandidates_covers (chunkSize : ℕ) (hsystem : options.shouldAnalyzeSystem = true)
    (partitions : List Partition) :
    (readings Eq).relates (Option.Rel AnalysisResult.Covers)
      (tryCandidates ext4 driver chunkSize options partitions)
      (tryCandidates ext4 driver chunkSize options.withoutApps partitions) := by
  induction partitions with
  | nil => exact (readings Eq).relates_pure .none
  | cons p rest ih =>
    refine (readings Eq).relates_bind (P := Option.Rel AnalysisResult.Covers)
      (withView_covers ?_) ?_
    · refine bind_eq (viewings_self _) fun opened => ?_
      cases opened with
      | error e => exact (viewings Eq Eq).relates_pure .none
      | ok sb =>
        dsimp only
        rw [map_eq_pure_bind, map_eq_pure_bind]
        refine (viewings Eq Eq).relates_bind (analyzeFileSystem_covers ext4 driver sb hsystem) ?_
        exact fun result result' h => (viewings Eq Eq).relates_pure (.some h)
    · rintro result result' (h | -)
      · exact (readings Eq).relates_pure (.some h)
      · exact ih

/-- The full and the light analysis of a Linux guest. -/
theorem analyze_covers (partitions : List Partition) (chunkSize : ℕ)
    (hsystem : options.shouldAnalyzeSystem = true) :
    (readings Eq).relates (Outcomes AnalysisResult.Covers)
      (analyze ext4 driver partitions chunkSize options)
      (analyze ext4 driver partitions chunkSize options.withoutApps) := by
  have hsystem' : options.withoutApps.shouldAnalyzeSystem = true := hsystem
  unfold analyze
  simp only [hsystem, hsystem', Bool.not_true, Bool.false_and, Bool.false_eq_true, ↓reduceIte]
  refine (readings Eq).relates_bind (tryCandidates_covers ext4 driver chunkSize hsystem _) ?_
  rintro result result' (h | -)
  · exact (readings Eq).relates_pure (.ok h)
  · exact (readings Eq).relates_pure (.ok (AnalysisResult.covers_of_eq rfl rfl))

end Linux

namespace Windows

/-! ### Windows -/

/-- The registry crate does not panic while the uninstall keys are listed. -/
def ListsPrograms (hive : HiveCrate) : Prop :=
  ∀ root : hive.KeyNode, (searchProgramsInRegistry hive root).calm ≠ none

/-- What the `SOFTWARE` hive gives, but for the programs. -/
theorem tryAnalyzeSoftware_covers {hive : HiveCrate} (hhive : ListsPrograms hive)
    (bytes : List UInt8) (logsPresent : Bool) {options : Options}
    (hsystem : options.shouldAnalyzeSystem = true) :
    ((Relating.calm Site Site).exceptT VmSpectError).relates
      (fun found found' => found.1 = found'.1 ∧ found.2.2 = found'.2.2)
      (tryAnalyzeSoftware hive bytes options logsPresent)
      (tryAnalyzeSoftware hive bytes options.withoutApps logsPresent) := by
  have hsystem' : options.withoutApps.shouldAnalyzeSystem = true := hsystem
  unfold tryAnalyzeSoftware
  rw [hsystem, hsystem']
  refine bind_eq (exceptT_same_iff.mpr (calm_self _)) ?_
  rintro ⟨root, notice⟩
  refine bind_eq (exceptT_same_iff.mpr (calm_self _)) fun info => ?_
  -- The programs are listed or not, without a panic.
  have hprograms : (Relating.calm Site Site).relates (fun _ _ => True)
      (if options.shouldAnalyzeApps then searchProgramsInRegistry hive root else pure [])
      (if options.withoutApps.shouldAnalyzeApps then searchProgramsInRegistry hive root
        else pure []) := by
    have hreturns : ∃ programs, (if options.shouldAnalyzeApps then
        searchProgramsInRegistry hive root else pure []).calm = some programs := by
      split
      · exact Option.ne_none_iff_exists'.mp (hhive root)
      · exact ⟨[], rfl⟩
    obtain ⟨programs, hreturns⟩ := hreturns
    show Option.Rel _ (Prog.calm _) (Prog.calm (pure []))
    rw [hreturns]
    exact .some trivial
  refine ((Relating.calm Site Site).exceptT VmSpectError).relates_bind (exceptT_lift hprograms) ?_
  rintro programs programs' -
  exact ((Relating.calm Site Site).exceptT VmSpectError).relates_pure ⟨rfl, rfl⟩

/-- What the `SOFTWARE` hive tells, or that it cannot be parsed. -/
theorem analyzeSoftwareHive_covers {hive : HiveCrate} (hhive : ListsPrograms hive) (hives : Hives)
    {options : Options} (hsystem : options.shouldAnalyzeSystem = true) :
    (Relating.calm Site Site).relates
      (fun found found' => found.1 = found'.1 ∧ found.2.2 = found'.2.2)
      (analyzeSoftwareHive hive hives options)
      (analyzeSoftwareHive hive hives options.withoutApps) := by
  refine (Relating.calm Site Site).relates_bind
    (calm_catch (tryAnalyzeSoftware_covers hhive _ _ hsystem)) ?_
  rintro outcome outcome' h
  cases h with
  | none => exact (Relating.calm Site Site).relates_pure ⟨rfl, rfl⟩
  | some h =>
    cases h with
    | error e => exact (Relating.calm Site Site).relates_pure ⟨rfl, rfl⟩
    | @ok found found' h =>
      obtain ⟨info, programs, notice⟩ := found
      obtain ⟨info', programs', notice'⟩ := found'
      obtain ⟨rfl, rfl⟩ := h
      exact (Relating.calm Site Site).relates_pure ⟨rfl, rfl⟩

/-- What both hives tell. -/
theorem analyzeHives_covers {hive : HiveCrate} (hhive : ListsPrograms hive) (hives : Hives)
    {options : Options} (hsystem : options.shouldAnalyzeSystem = true) :
    (Relating.calm Site Site).relates
      (fun found found' => found.1.guestInfo = found'.1.guestInfo ∧
        found.1.warnings = found'.1.warnings ∧ found.2 = found'.2)
      (analyzeHives hive hives options) (analyzeHives hive hives options.withoutApps) := by
  have hsystem' : options.withoutApps.shouldAnalyzeSystem = true := hsystem
  unfold analyzeHives
  rw [hsystem, hsystem']
  refine (Relating.calm Site Site).relates_bind (analyzeSoftwareHive_covers hhive hives hsystem) ?_
  rintro ⟨info, programs, warnings, fallback⟩ ⟨_, programs', _⟩ ⟨rfl, hrest⟩
  obtain ⟨rfl, rfl⟩ := Prod.mk.inj hrest
  dsimp only
  split
  · refine bind_eq (calm_self _) ?_
    rintro ⟨tools, systemWarnings⟩
    exact (Relating.calm Site Site).relates_pure ⟨rfl, rfl, rfl⟩
  · exact (Relating.calm Site Site).relates_pure ⟨rfl, rfl, rfl⟩

/-- What the file system gives in place of the registry: the same guest, and the same warnings but
for a note at the end. -/
def FallbackCovers (found found' : Option GuestInfo × List Program × List String) : Prop :=
  found.1 = found'.1 ∧ ∃ note : List String, note.length ≤ 1 ∧ found.2.2 = found'.2.2 ++ note

section Fallback

variable (ntfs : NtfsCrate) (nbd : NbdApi ν) (virtualSize : ℕ) (reads : ℕ → ℕ → Device)
  {options : Options} (hsystem : options.shouldAnalyzeSystem = true)

include hsystem

/-- The scan of the program folders is the last thing that reads the image. -/
theorem fallbackScan_ends (volume : ntfs.Volume) (root : ntfs.File) (disk : VirtualDisk) :
    Ends (fun found found' => FallbackCovers found.1 found'.1)
      ((fallbackScan ntfs (diskDriver nbd virtualSize reads) volume root options).run disk)
      ((fallbackScan ntfs (diskDriver nbd virtualSize reads) volume root options.withoutApps).run
        disk) := by
  have hsystem' : options.withoutApps.shouldAnalyzeSystem = true := hsystem
  unfold fallbackScan
  simp only [hsystem, hsystem', ↓reduceIte, StateT.run_bind]
  refine Ends.bind_self ?_
  rintro ⟨⟨info, warnings⟩, disk⟩ world found after h
  refine ⟨((info, [], warnings ++ []), disk), world, rfl, ?_⟩
  dsimp only at h
  split at h
  · rw [StateT.run_bind, calmFrom_bind, Option.bind_eq_some_iff] at h
    obtain ⟨⟨⟨programs, disk'⟩, mid⟩, hscan, h⟩ := h
    obtain ⟨hprogress, hmode⟩ := kept_of_same (fun _ _ => scanProgramFiles_same
      (diskDriver_kept nbd virtualSize reads).sameViews ntfs volume root programFilesDirs []) hscan
    cases h
    refine ⟨?_, hprogress.symm, hmode.symm⟩
    by_cases hnone : programs = []
    · exact ⟨rfl, [], Nat.zero_le _, by simp [hnone]⟩
    · exact ⟨rfl, [_], le_rfl, by dsimp only; rw [if_neg hnone, List.append_nil]⟩
  · cases h
    exact ⟨⟨rfl, [], Nat.zero_le _, by simp⟩, rfl, rfl⟩

/-- The fallback on a fresh view. -/
theorem applyFsFallback_ends (start size chunkSize : ℕ) :
    Ends FallbackCovers
      (withView start size chunkSize (applyFsFallback ntfs (diskDriver nbd virtualSize reads) options))
      (withView start size chunkSize
        (applyFsFallback ntfs (diskDriver nbd virtualSize reads) options.withoutApps)) := by
  have hbody : ∀ disk, Ends (fun found found' => FallbackCovers found.1 found'.1)
      ((applyFsFallback ntfs (diskDriver nbd virtualSize reads) options).run disk)
      ((applyFsFallback ntfs (diskDriver nbd virtualSize reads) options.withoutApps).run disk) := by
    have hstop : ∀ (warning : String) (disk : VirtualDisk),
        Ends (fun found found' => FallbackCovers found.1 found'.1)
          ((pure (none, [], [warning]) :
            Viewing ν (Option GuestInfo × List Program × List String)).run disk)
          ((pure (none, [], [warning]) : Viewing ν _).run disk) :=
      fun warning disk => Ends.of_relates
        ((readings Eq).relates_pure ⟨rfl, [], Nat.zero_le _, (List.append_nil _).symm⟩)
    intro disk
    unfold applyFsFallback
    simp only [StateT.run_bind]
    refine Ends.bind_self ?_
    rintro ⟨volume | volume, disk⟩
    · exact hstop _ disk
    simp only [StateT.run_bind]
    refine Ends.bind_self ?_
    rintro ⟨volume | volume, disk⟩
    · exact hstop _ disk
    simp only [StateT.run_bind]
    refine Ends.bind_self ?_
    rintro ⟨root | root, disk⟩
    · exact hstop _ disk
    · exact fallbackScan_ends ntfs nbd virtualSize reads hsystem volume root disk
  unfold withView
  cases VirtualDisk.new start size chunkSize with
  | none => exact Ends.of_relates (readings_panic _)
  | some disk =>
    exact Ends.bind_pure (hbody disk) fun found found' h => h

/-- The full and the light analysis of a Windows guest. -/
theorem analyze_ends (crates : Crates) (hhive : ListsPrograms crates.hive)
    (partitions : List Partition) (chunkSize : ℕ) :
    Ends (Outcomes AnalysisResult.Covers)
      (analyze crates (diskDriver nbd virtualSize reads) partitions chunkSize options)
      (analyze crates (diskDriver nbd virtualSize reads) partitions chunkSize options.withoutApps) := by
  have hsystem' : options.withoutApps.shouldAnalyzeSystem = true := hsystem
  have hdegraded : ∀ result : AnalysisResult, Ends (Outcomes AnalysisResult.Covers)
      (pure (.ok result) : Reading ν (Except VmSpectError AnalysisResult)) (pure (.ok result)) :=
    fun result => Ends.of_relates
      ((readings Eq).relates_pure (.ok (AnalysisResult.covers_of_eq rfl rfl)))
  unfold analyze
  simp only [hsystem, hsystem', Bool.not_true, Bool.false_and, Bool.false_eq_true, ↓reduceIte]
  refine Ends.bind_self fun found => ?_
  cases found with
  | none => exact hdegraded _
  | some p =>
    refine Ends.bind_self fun hives => ?_
    cases hives with
    | error e => exact hdegraded _
    | ok hives =>
      refine Ends.bind (stateT_lift (analyzeHives_covers hhive hives hsystem)) ?_
      rintro ⟨result, fallback⟩ ⟨result', _⟩ ⟨hinfo, hwarnings, rfl⟩
      dsimp only at hinfo hwarnings ⊢
      cases fallback with
      | false =>
        exact Ends.of_relates
          ((readings Eq).relates_pure (.ok (AnalysisResult.covers_of_eq hinfo hwarnings)))
      | true =>
        refine Ends.bind_pure
          (applyFsFallback_ends crates.ntfs nbd virtualSize reads hsystem p.start p.size chunkSize) ?_
        rintro found found' ⟨hsame, note, hnote, happend⟩
        refine .ok ⟨by rw [hinfo, hsame], note, hnote, ?_⟩
        rw [hwarnings, happend, List.append_assoc]

end Fallback

end Windows

/-! ## The inspections -/

/-- The full and the light analysis of a guest. -/
theorem analyzeGuest_ends (crates : Crates) (hhive : Windows.ListsPrograms crates.hive)
    (nbd : NbdApi ν) (virtualSize : ℕ) (reads : ℕ → ℕ → Device) (disk : Detector.DetectedDisk)
    (chunkSize : ℕ) {options : Options} (hsystem : options.shouldAnalyzeSystem = true) :
    Ends (Outcomes AnalysisResult.Covers)
      (analyzeGuest crates (diskDriver nbd virtualSize reads) disk chunkSize options)
      (analyzeGuest crates (diskDriver nbd virtualSize reads) disk chunkSize options.withoutApps) := by
  unfold analyzeGuest
  cases disk.operatingSystem with
  | windows =>
    exact Windows.analyze_ends nbd virtualSize reads hsystem crates hhive disk.partitions chunkSize
  | linux => exact Ends.of_relates (Linux.analyze_covers _ _ _ _ hsystem)
  | unknown =>
    exact Ends.of_relates ((readings Eq).relates_pure (.ok (AnalysisResult.covers_of_eq rfl rfl)))

namespace Inspection

variable {i : Inspection ν}

/-- What the engine makes of the result of an analyzer. -/
def resultOf : Except VmSpectError AnalysisResult → AnalysisResult
  | .ok result => result
  | .error e => { warnings :=
      ["Could not complete the guest OS analysis; continuing with image/partition data only: " ++
        e.toText] }

/-- The stage of the analysis, when the system is collected. -/
theorem analysisStage_eq (hsystem : i.options.shouldAnalyzeSystem = true) (reader : DiskReader ν)
    (disk : Detector.DetectedDisk) (chunkSize : ℕ) :
    i.analysisStage reader disk chunkSize =
      analyzeGuest i.crates (diskDriver i.nbd reader.virtualSize i.reads) disk chunkSize i.options >>=
        fun answer => pure (resultOf answer) := by
  unfold analysisStage
  rw [hsystem, Bool.true_or, if_pos rfl]
  refine bind_congr fun answer => ?_
  cases answer <;> rfl

/-- The stage of the analysis. -/
theorem analysisStage_ends (hhive : Windows.ListsPrograms i.crates.hive)
    (hsystem : i.options.shouldAnalyzeSystem = true) (reader : DiskReader ν)
    (disk : Detector.DetectedDisk) (chunkSize : ℕ) :
    Ends AnalysisResult.Covers (i.analysisStage reader disk chunkSize)
      (i.withoutApps.analysisStage reader disk chunkSize) := by
  have hsystem' : i.withoutApps.options.shouldAnalyzeSystem = true := hsystem
  rw [analysisStage_eq hsystem, analysisStage_eq hsystem']
  refine Ends.bind_pure (analyzeGuest_ends i.crates hhive i.nbd reader.virtualSize i.reads disk
    chunkSize hsystem) ?_
  rintro _ _ (h | e)
  · exact h
  · exact AnalysisResult.covers_of_eq rfl rfl

/-- A report and a light one of the same image. -/
structure Covers (report report' : InspectionReport) : Prop where
  image : report.image = report'.image
  scheme : report.scheme = report'.scheme
  partitions : report.partitions = report'.partitions
  operatingSystem : report.operatingSystem = report'.operatingSystem
  guestInfo : report.guestInfo = report'.guestInfo
  accessMode : report.stats.accessMode = report'.stats.accessMode
  warnings : ∃ note : List String, note.length ≤ 1 ∧ report.warnings = report'.warnings ++ note

/-- The calm run of a stage that reads the image. -/
theorem calmFrom_withReader (look : Site → Look) (reader : DiskReader ν) (stage : Reading ν α)
    (progress : InspectionProgress) :
    calmFrom (ExceptT.lift (withReader look reader stage) :
        ExceptT VmSpectError EngineM (α × DiskReader ν)).run progress =
      (calmFrom stage ⟨reader, progress⟩).map
        fun done => (.ok (done.1, done.2.reader), done.2.progress) := by
  have hrun : calmFrom (withReader look reader stage) progress =
      (calmFrom stage ⟨reader, progress⟩).map
        fun done => ((done.1, done.2.reader), done.2.progress) := by
    show (((stage.run ⟨reader, progress⟩).mapSites look) >>= fun done =>
      (pure ((done.1, done.2.reader), done.2.progress) : Prog Look _)).calm = _
    rw [calm_bind, Prog.calm_mapSites]
    unfold calmFrom
    cases (stage.run ⟨reader, progress⟩).calm <;> rfl
  show calmFrom (Except.ok <$> withReader look reader stage) progress = _
  rw [map_eq_pure_bind, calmFrom_bind, hrun, Option.bind_map]
  cases calmFrom stage ⟨reader, progress⟩ <;> rfl

/-- Sequences with the same first part, by what follows it. -/
theorem outcomes_bind {Q : β → γ → Prop} {x : ExceptT VmSpectError EngineM α}
    {f : α → ExceptT VmSpectError EngineM β} {g : α → ExceptT VmSpectError EngineM γ}
    {progress after : InspectionProgress} {result : Except VmSpectError β}
    (h : calmFrom (x >>= f).run progress = some (result, after))
    (hfg : ∀ a mid, calmFrom (f a).run mid = some (result, after) → ∃ result',
      calmFrom (g a).run mid = some (result', after) ∧ Outcomes Q result result') :
    ∃ result', calmFrom (x >>= g).run progress = some (result', after) ∧
      Outcomes Q result result' := by
  match hx : calmFrom x.run progress with
  | none =>
    rw [calmFrom_bind_of_panic f hx] at h
    cases h
  | some (.error e, mid) =>
    rw [calmFrom_bind_of_error f hx] at h
    cases h
    exact ⟨.error e, calmFrom_bind_of_error g hx, .error e⟩
  | some (.ok a, mid) =>
    rw [calmFrom_bind_of_ok f hx] at h
    obtain ⟨result', hg, houtcomes⟩ := hfg a mid h
    exact ⟨result', by rw [calmFrom_bind_of_ok g hx, hg], houtcomes⟩

/-- What follows the detection. -/
theorem finishStages_covers (hhive : Windows.ListsPrograms i.crates.hive)
    (hsystem : i.options.shouldAnalyzeSystem = true) (image : ImageInfo) (chunkSize : ℕ)
    (found : Detector.DetectedDisk × DiskReader ν) {progress after : InspectionProgress}
    {result : Except VmSpectError InspectionReport}
    (h : calmFrom (i.finishStages image chunkSize found).run progress = some (result, after)) :
    ∃ result', calmFrom (i.withoutApps.finishStages image chunkSize found).run progress =
      some (result', after) ∧ Outcomes Covers result result' := by
  obtain ⟨disk, reader⟩ := found
  refine outcomes_bind h fun _ mid h => outcomes_bind h fun _ mid h => ?_
  -- The analysis, after which the readers may differ.
  match hstage : calmFrom (i.analysisStage reader disk chunkSize) ⟨reader, mid⟩ with
  | none =>
    rw [calmFrom_bind_of_panic _ (by rw [calmFrom_withReader, hstage]; rfl)] at h
    cases h
  | some (analyzed, world) =>
    obtain ⟨analyzed', world', hlight, ⟨hinfo, hwarnings⟩, hprogress, hmode⟩ :=
      analysisStage_ends hhive hsystem reader disk chunkSize _ _ _ hstage
    rw [calmFrom_bind_of_ok (a := (analyzed, world.reader)) (t := world.progress) _
      (by rw [calmFrom_withReader, hstage]; rfl)] at h
    rw [calmFrom_bind_of_ok (a := (analyzed', world'.reader)) (t := world.progress) _
      (by rw [calmFrom_withReader, hlight, ← hprogress]; rfl)]
    refine outcomes_bind h fun _ mid h => outcomes_bind h fun _ mid h => ?_
    cases h
    exact ⟨_, rfl, .ok ⟨rfl, rfl, rfl, rfl, hinfo, hmode.symm, hwarnings⟩⟩

/-- When a full inspection is not disturbed and does not panic, then the light one of the same image
ends alike: with the same error, or with a report that agrees with the full one in everything but
the programs and the statistics, except for at most one warning at the end of the full report. -/
theorem summary_of_report (hhive : Windows.ListsPrograms i.crates.hive)
    (hsystem : i.options.noSystem = false) {path : Path} {progress after : InspectionProgress}
    {result : Except VmSpectError InspectionReport}
    (h : (i.inspect path progress).calm = some (result, after)) :
    ∃ result', calmFrom (i.inspectSummary path).run progress = some (result', after) ∧
      Outcomes (fun report summary => ∃ note : List String, note.length ≤ 1 ∧
        report.summary = { summary with warnings := summary.warnings ++ note }) result result' := by
  have hsystem' : i.options.shouldAnalyzeSystem = true := by
    unfold Options.shouldAnalyzeSystem
    rw [hsystem]
    rfl
  -- The light engine opens the image and detects its partitions in the same way.
  have hopen : i.withoutApps.runInspection path =
      i.openStages path >>= fun opened => i.withoutApps.readStages opened.1 opened.2 := rfl
  have hfull : i.runInspection path =
      i.openStages path >>= fun opened => i.readStages opened.1 opened.2 := rfl
  have hrun : ∃ result', calmFrom (i.withoutApps.runInspection path).run progress =
      some (result', after) ∧ Outcomes Covers result result' := by
    change calmFrom (i.runInspection path).run progress = some (result, after) at h
    rw [hfull] at h
    rw [hopen]
    refine outcomes_bind h fun opened mid h => ?_
    have hdetect : i.withoutApps.detect opened.2 = i.detect opened.2 := rfl
    have hchunk : i.withoutApps.chunkSizeOf opened.2 = i.chunkSizeOf opened.2 := rfl
    rw [readStages_eq] at h ⊢
    rw [hdetect, hchunk]
    refine outcomes_bind h fun _ mid h => outcomes_bind h fun found mid h => ?_
    exact finishStages_covers hhive hsystem' _ _ found h
  obtain ⟨result', hlight, houtcomes⟩ := hrun
  refine ⟨result'.map InspectionReport.summary, ?_, ?_⟩
  · have hmap : (i.inspectSummary path).run = (·.map InspectionReport.summary) <$>
        (i.withoutApps.runInspection path).run := ExceptT.run_map _ _
    rw [hmap, map_eq_pure_bind, calmFrom_bind, hlight]
    rfl
  · cases houtcomes with
    | error e => exact .error e
    | @ok report report' hcovers =>
      obtain ⟨note, hnote, hwarnings⟩ := hcovers.warnings
      refine .ok ⟨note, hnote, ?_⟩
      simp only [InspectionReport.summary, hcovers.image, hcovers.operatingSystem,
        hcovers.guestInfo, hcovers.accessMode, hwarnings]

/-- The full report of a Linux guest, and its summary. -/
theorem summary_of_report_guest :
    (linuxInspection.inspect emptyPath .new).calm = some (.ok linuxReport, linuxAfter) ∧
      linuxReport.installedPrograms ≠ [] ∧
      ∃ result', calmFrom (linuxInspection.inspectSummary emptyPath).run .new =
        some (result', linuxAfter) ∧
        Outcomes (fun report summary => ∃ note : List String, note.length ≤ 1 ∧
          report.summary = { summary with warnings := summary.warnings ++ note })
          (.ok linuxReport) result' := by
  have hcalm : (linuxInspection.inspect emptyPath .new).calm =
      some (.ok linuxReport, linuxAfter) := by decide +kernel
  have hhive : Windows.ListsPrograms linuxInspection.crates.hive := by
    intro root
    have hnone : (Windows.searchProgramsInRegistry noCrates.hive ()).calm ≠ none := by
      decide +kernel
    exact hnone
  exact ⟨hcalm, by decide +kernel, summary_of_report hhive rfl hcalm⟩

end Inspection

end VmSpect
