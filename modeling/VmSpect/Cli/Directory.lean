import VmSpect.Cli.Arguments
import VmSpect.Vms.DiscoveryExact
import VmSpect.Engine.BatchThreads
import VmSpect.Engine.DisabledCollections
import VmSpect.Engine.ChunkSizes
import VmSpect.Engine.Summary

/-!
# A directory on the command line

`run_directory` of `src/bin/vmspect.rs`: the images below a directory are listed, inspected in a
batch, and what was found is printed. This puts the parts together: the arguments become options,
the discovery gives the paths, the threads of the batch inspect them, each with an engine of its
own, and the outcomes become one output. Nobody sets the token of this process. Durations and the
layout of a report for humans are left out.

Whatever the threads do, every image that the arguments ask for is in the output once, with its
report or with its error (`runDirectory_lists`). Without `--full-report` no report lists programs.
-/

namespace VmSpect.Cli

open Batch (BatchResult ImageInspectionError)
open Discovery (DirectoryTree DiscoveryOptions DiscoveryReport Eligible Inaccessible Root)
open Polling Polling.Prog

variable {ν : Type}

/-! ## From the arguments to the stages -/

/-- The `PathBuf` of an argument. -/
def pathOfArgument (text : List Char) : OsPath.Path :=
  ⟨(UnixPath.Path.ofText text).components.map fun
    | .rootDir => .rootDir
    | .curDir => .curDir
    | .parentDir => .parentDir
    | .normal name => .normal (name.flatMap String.utf8EncodeChar)⟩

/-- A component whose name is a text. -/
def componentText : OsPath.Component → Option UnixPath.Component
  | .rootDir => some .rootDir
  | .curDir => some .curDir
  | .parentDir => some .parentDir
  | .normal name => (OsPath.toStr name).map .normal

/-- `Path::to_str`: a path is a text when all its names are. -/
def pathText (path : OsPath.Path) : Option UnixPath.Path :=
  (path.components.mapM componentText).map .mk

/-- The options that `main` makes of the arguments. -/
def CliConfig.options (config : CliConfig) : Options where
  noApps := config.noApps
  noSystem := config.noSystem
  includeSystem := config.includeSystem
  qemuNbd := none
  chunkSize := none
  forceNbd := config.forceNbd
  unixSocket := none

/-- The options of the batch: an initial listing does without the programs. -/
def CliConfig.batchOptions (config : CliConfig) : Options :=
  if config.fullReport then config.options else config.options.withoutApps

/-- The number of workers of the batch. -/
def CliConfig.workers (config : CliConfig) : ℕ :=
  max (config.maxWorkers.getD (if config.concurrent then 2 else 1)) 1

/-- The options of the discovery. -/
def CliConfig.discoveryOptions (config : CliConfig) : DiscoveryOptions where
  recursive := config.recursive
  excludedDirectories := config.excludedDirectories.map pathOfArgument
  maxDepth := config.maxDepth

/-! ## The output -/

/-- What a directory on the command line ends with. -/
inductive DirectoryOutput where
  /-- An error; the exit code is 1. -/
  | failed (message : String)
  /-- There is nothing to inspect. -/
  | noImages (message : String)
  /-- One JSON value. An error is serialized as its path and its text. -/
  | json (reports : List (InspectionReport ⊕ InspectionSummary))
      (errors : List (OsPath.Path × String)) (discoveryWarnings : List String)
      (inaccessibleDirectories : List OsPath.Path)
  /-- A path could not be serialized: `json!` unwraps the error. -/
  | panicked
  /-- Reports for humans, warnings, and the counts of the last line. -/
  | text (reports : List InspectionReport) (warnings : List String) (processed total errors : ℕ)
  deriving DecidableEq

/-- Paths are serialized as texts. -/
def serializable (path : OsPath.Path) : Bool := (pathText path).isSome

/-- The `json!` of an output. The paths of the reports are texts, and a JSON value can always be
printed. -/
def jsonOutput (reports : List (InspectionReport ⊕ InspectionSummary))
    (errors : List (OsPath.Path × String)) (discovery : DiscoveryReport) : DirectoryOutput :=
  if (errors.all fun e => serializable e.1) && discovery.inaccessibleDirectories.all serializable then
    .json reports errors discovery.warnings discovery.inaccessibleDirectories
  else .panicked

/-- The output for an empty list of images. -/
def emptyOutput (config : CliConfig) (directory : OsPath.Path) (discovery : DiscoveryReport) :
    DirectoryOutput :=
  if config.jsonFormat then jsonOutput [] [] discovery
  else .noImages s!"No virtual disk images were found in '{directory.display}'."

/-- The output for a batch. -/
def batchOutput (config : CliConfig) (discovery : DiscoveryReport) :
    Except VmSpectError (BatchResult OsPath.Path InspectionReport VmSpectError) → DirectoryOutput
  | .ok batch =>
    if config.jsonFormat then
      jsonOutput
        (batch.reports.map fun report =>
          if config.fullReport then .inl report else .inr report.summary)
        (batch.errors.map fun e => (e.path, e.error.toText)) discovery
    else
      .text batch.reports
        (batch.errors.map fun e =>
          s!"Warning: analysis of '{e.path.display}': {e.error.toText}")
        batch.reports.length (batch.reports.length + batch.errors.length) batch.errors.length
  | .error error => .failed s!"Error during batch processing: {error.toText}"

/-- The inspections of the workers: each one is made by an engine of its own, which nobody cancels.
The files that the discovery names are given to it by `name`. -/
def inspection (i : Inspection ν) (name : OsPath.Path → UnixPath.Path) (config : CliConfig)
    (job : Job OsPath.Path) : Batch.Inspection InspectionReport VmSpectError :=
  match ({ i with options := config.batchOptions }.inspect (name job.2) .new).calm with
  | some (result, _) => .returns result
  | none => .panics

/-- A run of `run_directory`, the error of the spawn that has failed in it, if any, and what it ends
with. -/
inductive RunDirectory (inspection : Job OsPath.Path → Batch.Inspection InspectionReport VmSpectError)
    (config : CliConfig) (root : Root) : Option IoError → DirectoryOutput → Prop where
  | unlisted {error} (h : Discovery.listVmsWithOptions root config.discoveryOptions = .error error) :
      RunDirectory inspection config root none
        (.failed s!"Error listing images in '{root.path.display}': {error.toText}")
  | empty {discovery}
      (h : Discovery.listVmsWithOptions root config.discoveryOptions = .ok discovery)
      (hnone : discovery.images = []) :
      RunDirectory inspection config root none (emptyOutput config root.path discovery)
  | batch {discovery : DiscoveryReport}
      {es : List (ForkJoin.Event (Batch.Event
        (workerCount config.workers discovery.images.length)))} {s} (spawnError : IoError)
      (h : Discovery.listVmsWithOptions root config.discoveryOptions = .ok discovery)
      (hsome : discovery.images ≠ [])
      (hrun : Interleaving.run (ForkJoin.step (Batch.pool inspection _) .giveUp) es
        (ForkJoin.start (Batch.start .new false discovery.images config.workers)) = some s)
      (hr : s.Returned) (hes : .pool .cancel ∉ es) :
      RunDirectory inspection config root
        (if ForkJoin.Event.spawn false ∈ es then some spawnError else none)
        (batchOutput config discovery (Batch.returned (.io spawnError) s))

/-- There is always a run, in which every thread is spawned. -/
theorem exists_runDirectory
    (inspection : Job OsPath.Path → Batch.Inspection InspectionReport VmSpectError)
    (config : CliConfig) (root : Root) :
    ∃ output, RunDirectory inspection config root none output := by
  cases hlist : Discovery.listVmsWithOptions root config.discoveryOptions with
  | error error => exact ⟨_, .unlisted hlist⟩
  | ok discovery =>
    by_cases hnone : discovery.images = []
    · exact ⟨_, .empty hlist hnone⟩
    · obtain ⟨es, s, hrun, hr, hspawn, hes⟩ := Batch.exists_returned inspection .new false
        discovery.images config.workers
      have hbatch := RunDirectory.batch ⟨.other, ""⟩ hlist hnone hrun hr hes
      rw [if_neg hspawn] at hbatch
      exact ⟨_, hbatch⟩

/-! ## Paths in the output -/

/-- When the paths of the errors can be serialized, an output cannot exactly if the path of a
directory cannot. -/
theorem jsonOutput_panicked_iff (reports : List (InspectionReport ⊕ InspectionSummary))
    {errors : List (OsPath.Path × String)} (discovery : DiscoveryReport)
    (herrors : ∀ e ∈ errors, serializable e.1 = true) :
    jsonOutput reports errors discovery = .panicked ↔
      ∃ directory ∈ discovery.inaccessibleDirectories, serializable directory = false := by
  have hall : (errors.all fun e => serializable e.1) = true := List.all_eq_true.mpr herrors
  unfold jsonOutput
  rw [hall, Bool.true_and]
  cases hclosed : discovery.inaccessibleDirectories.all serializable with
  | true =>
    refine iff_of_false (by simp) ?_
    rintro ⟨directory, hmem, hfalse⟩
    rw [List.all_eq_true.mp hclosed directory hmem] at hfalse
    cases hfalse
  | false =>
    obtain ⟨directory, hmem, hfalse⟩ := List.all_eq_false.mp hclosed
    exact iff_of_true (by simp) ⟨directory, hmem, Bool.not_eq_true _ ▸ hfalse⟩

/-! ## Listings without programs -/

/-- The options of a batch without full reports. -/
theorem CliConfig.batchOptions_noApps {config : CliConfig} (h : config.fullReport = false) :
    config.batchOptions.noApps = true := by
  unfold batchOptions
  rw [h]
  rfl

/-- Whichever inspector is used, a guest that is analyzed without programs has none. -/
theorem analyzeGuest_programs (crates : Crates) (driver : VmDriver (Reading ν))
    (disk : Detector.DetectedDisk) (chunkSize : ℕ) {options : Options}
    (happs : options.noApps = true) :
    Gives (fun r => ∀ result, r = .ok result → result.programs = [])
      (analyzeGuest crates driver disk chunkSize options) := by
  unfold analyzeGuest
  split
  · exact Windows.analyze_programs crates driver disk.partitions chunkSize options happs
  · intro world
    have hlinux := Linux.analyze_honours crates.ext4 driver options disk.partitions chunkSize world
    exact hlinux.mono fun r hr result hresult => (hr result hresult).programs happs
  · refine gives_pure fun result h => ?_
    rw [← Except.ok.inj h]
    rfl

/-- An undisturbed inspection without programs reports none. -/
theorem installedPrograms_of_noApps {i : Inspection ν} (happs : i.options.noApps = true)
    {path : UnixPath.Path} {progress after : InspectionProgress} {report : InspectionReport}
    (h : (i.inspect path progress).calm = some (.ok report, after)) :
    report.installedPrograms = [] := by
  have hstage : ∀ (reader : DiskReader ν) (disk : Detector.DetectedDisk) (chunkSize : ℕ),
      Gives (fun result => result.programs = []) (i.analysisStage reader disk chunkSize) := by
    intro reader disk chunkSize
    unfold Inspection.analysisStage
    split
    · refine (analyzeGuest_programs i.crates _ disk chunkSize happs).bind fun r hr => ?_
      cases r with
      | ok result => exact gives_pure (hr result rfl)
      | error e => exact gives_pure rfl
    · exact gives_pure rfl
  change calmFrom (i.openStages path >>= _).run progress = _ at h
  obtain ⟨opened, mid, -, h⟩ := calmFrom_bind_ok h
  obtain ⟨found, mid, -, h⟩ := Inspection.readStages_report h
  unfold Inspection.finishStages at h
  dsimp only at h
  obtain ⟨_, _, -, h⟩ := calmFrom_bind_ok h
  obtain ⟨_, mid, -, h⟩ := calmFrom_bind_ok h
  obtain ⟨⟨result, reader⟩, mid, hanalysis, h⟩ := calmFrom_bind_ok h
  obtain ⟨_, _, -, h⟩ := calmFrom_bind_ok h
  obtain ⟨_, _, -, h⟩ := calmFrom_bind_ok h
  have hreport := Except.ok.inj (Prod.mk.inj (Option.some.inj h)).1
  rw [Inspection.calmFrom_withReader] at hanalysis
  obtain ⟨done, hdone, heq⟩ := Option.map_eq_some_iff.mp hanalysis
  have hresult : done.1 = result := (Prod.mk.inj (Except.ok.inj (Prod.mk.inj heq).1)).1
  have hprograms := (hstage _ _ _ _).of_calm hdone
  rw [← hreport, ← hresult]
  exact hprograms

/-! ## Every image is listed -/

/-- The error entry of a path whose inspection has failed. -/
def errorOf (path : OsPath.Path) : Except VmSpectError InspectionReport →
    Option (ImageInspectionError OsPath.Path VmSpectError)
  | .ok _ => none
  | .error error => some ⟨path, error⟩

/-- The reports and the errors of these paths. -/
def inspected (result : OsPath.Path → Except VmSpectError InspectionReport)
    (images : List OsPath.Path) : BatchResult OsPath.Path InspectionReport VmSpectError :=
  ⟨images.filterMap fun path => (result path).toOption,
    images.filterMap fun path => errorOf path (result path)⟩

/-- The outcomes of a batch in the order of its paths, split. -/
theorem collect_inspected (result : OsPath.Path → Except VmSpectError InspectionReport)
    (images : List OsPath.Path) :
    Batch.collect ((enumerate images).map fun job => (job, result job.2)) =
      inspected result images := by
  have hmap : ∀ {β : Type} (g : OsPath.Path → Option β),
      (enumerate images).filterMap (fun job => g job.2) = images.filterMap g := by
    intro β g
    have hsnd : (enumerate images).map Prod.snd = images := by
      simp [enumerate, Function.comp_def]
    conv_rhs => rw [← hsnd, List.filterMap_map]
    rfl
  rw [Batch.collect_eq, List.filterMap_map, List.filterMap_map, inspected]
  have hreports := hmap fun path => (result path).toOption
  have herrors := hmap fun path => errorOf path (result path)
  have hentry : ∀ job : Job OsPath.Path,
      Batch.errorEntry job (result job.2) = errorOf job.2 (result job.2) := by
    intro job
    cases result job.2 <;> rfl
  simp only [Function.comp_def, hentry, hreports, herrors]

/-- Every path is in one of the two. -/
theorem inspected_length (result : OsPath.Path → Except VmSpectError InspectionReport)
    (images : List OsPath.Path) : (inspected result images).reports.length +
      (inspected result images).errors.length = images.length := by
  rw [← collect_inspected, Batch.collect_length, List.length_map, enumerate_length]

/-- The errors are those of the paths. -/
theorem mem_inspected_errors {result : OsPath.Path → Except VmSpectError InspectionReport}
    {images : List OsPath.Path} {e : ImageInspectionError OsPath.Path VmSpectError}
    (h : e ∈ (inspected result images).errors) : e.path ∈ images := by
  obtain ⟨path, hpath, he⟩ := List.mem_filterMap.mp h
  unfold errorOf at he
  split at he
  · cases he
  · obtain rfl := Option.some.inj he
    exact hpath

/-- The listing cannot be printed exactly if it is to be JSON and the path of a directory that could
not be opened is not a text. -/
theorem listing_panicked_iff (config : CliConfig) (directory : OsPath.Path)
    {discovery : DiscoveryReport} (result : OsPath.Path → Except VmSpectError InspectionReport)
    (himages : ∀ file ∈ discovery.images, serializable file = true) :
    (if discovery.images = [] then emptyOutput config directory discovery
      else batchOutput config discovery (.ok (inspected result discovery.images))) = .panicked ↔
      config.jsonFormat = true ∧
        ∃ closed ∈ discovery.inaccessibleDirectories, serializable closed = false := by
  have hnot : ∀ {output : DirectoryOutput}, output ≠ .panicked → ¬ config.jsonFormat = true →
      (output = .panicked ↔ config.jsonFormat = true ∧
        ∃ closed ∈ discovery.inaccessibleDirectories, serializable closed = false) :=
    fun houtput hjson => iff_of_false houtput fun h => hjson h.1
  unfold emptyOutput batchOutput
  dsimp only
  by_cases hjson : config.jsonFormat = true
  · simp only [if_pos hjson]
    rw [and_iff_right hjson]
    split
    · exact jsonOutput_panicked_iff _ _ (by simp)
    · refine jsonOutput_panicked_iff _ _ fun e he => ?_
      obtain ⟨error, herror, rfl⟩ := List.mem_map.mp he
      exact himages _ (mem_inspected_errors herror)
  · simp only [if_neg hjson]
    split
    · exact hnot (by simp) hjson
    · exact hnot (by simp) hjson

/-- A directory on the command line, whatever the threads of the batch do, as long as no inspection
panics and the names of the images are texts. When the spawn of a thread has failed, the output is
its error. Otherwise the output is made of the images that the arguments ask for, each of them
exactly once and in the order of their paths, with the result of an undisturbed inspection of it,
except that a directory whose path is not a text makes JSON panic. Without `--full-report` no report
lists programs. -/
theorem runDirectory_lists (i : Inspection ν) (name : OsPath.Path → UnixPath.Path)
    (config : CliConfig) (tree : DirectoryTree)
    (hname : ∀ file, Eligible config.discoveryOptions tree file → pathText file = some (name file))
    (hcalm : ∀ path,
      ({ i with options := config.batchOptions }.inspect (name path) .new).calm ≠ none)
    {failed : Option IoError} {output : DirectoryOutput}
    (h : RunDirectory (inspection i name config) config tree.root failed output) :
    (∀ error, failed = some error →
      output = .failed s!"Error during batch processing: {(VmSpectError.io error).toText}") ∧
    (failed = none →
      ∃ (discovery : DiscoveryReport) (result : OsPath.Path → Except VmSpectError InspectionReport),
        Discovery.listVmsWithOptions tree.root config.discoveryOptions = .ok discovery ∧
        (discovery.images.Pairwise fun p q => p.key < q.key) ∧
        (∀ file, file ∈ discovery.images ↔ Eligible config.discoveryOptions tree file) ∧
        (∀ directory, directory ∈ discovery.inaccessibleDirectories ↔
          Inaccessible config.discoveryOptions tree directory) ∧
        (∀ file, ∃ after, ({ i with options := config.batchOptions }.inspect (name file)
          .new).calm = some (result file, after)) ∧
        (config.fullReport = false → ∀ file report, result file = .ok report →
          report.installedPrograms = []) ∧
        (inspected result discovery.images).reports.length +
          (inspected result discovery.images).errors.length = discovery.images.length ∧
        (output = if discovery.images = [] then emptyOutput config tree.path discovery
          else batchOutput config discovery (.ok (inspected result discovery.images))) ∧
        (output = .panicked ↔ config.jsonFormat = true ∧ ∃ directory,
          Inaccessible config.discoveryOptions tree directory ∧ serializable directory = false)) := by
  -- What the undisturbed inspections return.
  have hreturns : ∀ path, ∃ r : Except VmSpectError InspectionReport × InspectionProgress,
      ({ i with options := config.batchOptions }.inspect (name path) .new).calm = some r :=
    fun path => Option.ne_none_iff_exists'.mp (hcalm path)
  choose done hdone using hreturns
  let result (path : OsPath.Path) : Except VmSpectError InspectionReport := (done path).1
  have hinspection : inspection i name config = fun job => .returns (result job.2) := by
    funext job
    unfold inspection
    rw [hdone]
  have hresult : ∀ file, ∃ after, ({ i with options := config.batchOptions }.inspect (name file)
      .new).calm = some (result file, after) := fun file => ⟨(done file).2, hdone file⟩
  have hprograms : config.fullReport = false → ∀ file report, result file = .ok report →
      report.installedPrograms = [] := by
    intro hlight file report hreport
    obtain ⟨after, hfile⟩ := hresult file
    rw [hreport] at hfile
    exact installedPrograms_of_noApps (CliConfig.batchOptions_noApps hlight) hfile
  -- What the discovery returns.
  obtain ⟨discovery, hlist, hsorted, himages, -, hclosed⟩ :=
    Discovery.listVmsWithOptions_report tree config.discoveryOptions
  have htexts : ∀ file ∈ discovery.images, serializable file = true := by
    intro file hfile
    rw [serializable, hname file ((himages file).mp hfile), Option.isSome_some]
  have hpanicked := listing_panicked_iff config tree.path result htexts
  simp only [hclosed] at hpanicked
  cases h with
  | unlisted h =>
    rw [hlist] at h
    cases h
  | empty h hnone =>
    rw [hlist] at h
    obtain rfl := Except.ok.inj h
    rw [if_pos hnone] at hpanicked
    exact ⟨fun _ hfailed => (nomatch hfailed), fun _ => ⟨discovery, result, hlist, hsorted, himages,
      hclosed, hresult, hprograms, inspected_length _ _, (if_pos hnone).symm, hpanicked⟩⟩
  | @batch _ es _ spawnError h hsome hrun hr hes =>
    rw [hlist] at h
    obtain rfl := Except.ok.inj h
    rw [hinspection] at hrun
    have hreturned := Batch.returned_eq (VmSpectError.io spawnError) hrun hr hes
    rw [collect_inspected] at hreturned
    have hfailed := ForkJoin.run_failed_iff hrun
    rw [hreturned]
    by_cases hspawn : ForkJoin.Event.spawn false ∈ es
    · rw [if_pos hspawn, if_pos (hfailed.mpr hspawn)]
      refine ⟨fun error herror => ?_, fun hnone => (nomatch hnone)⟩
      obtain rfl := Option.some.inj herror
      rfl
    · rw [if_neg hspawn, if_neg (mt hfailed.mp hspawn)]
      rw [if_neg hsome] at hpanicked
      exact ⟨fun _ hfailed => (nomatch hfailed), fun _ => ⟨discovery, result, hlist, hsorted, himages,
        hclosed, hresult, hprograms, inspected_length _ _, (if_neg hsome).symm, hpanicked⟩⟩

/-! ## A directory with one image -/

/-- A directory with the image of a Linux guest, an empty one and a text. -/
def sampleTree : DirectoryTree where
  path := ⟨[.normal [0x64]]⟩
  entries := [.file "a.raw".toUTF8.data.toList (.ok 2048), .file "b.raw".toUTF8.data.toList (.ok 0),
    .file "c.txt".toUTF8.data.toList (.ok 9)]
  distinct := .intro (by decide) (by simp)

/-- The path of the image. -/
def listedPath : UnixPath.Path := UnixPath.Path.ofText "d/a.raw".toList

/-- The inspection of the image. -/
def listedInspection : Inspection Unit :=
  { linuxInspection with fs := .single listedPath linuxVolume linuxVolume_lt }

/-- Its report without programs. -/
def listedReport : InspectionReport :=
  { linuxReport with image := ⟨listedPath, .raw, 2048, 2048, .unknown⟩, installedPrograms := [] }

/-- The listing of this directory. -/
theorem runDirectory_lists_sample :
    ∃ output, RunDirectory (inspection listedInspection (fun _ => listedPath) {}) {}
        sampleTree.root none output ∧ output = .text [listedReport] [] 1 1 0 := by
  obtain ⟨output, hrun⟩ := exists_runDirectory
    (inspection listedInspection (fun _ => listedPath) {}) {} sampleTree.root
  have hlist : Discovery.listVmsWithOptions sampleTree.root ({} : CliConfig).discoveryOptions =
      .ok ⟨[pathOfArgument "d/a.raw".toList], [], []⟩ := by decide +kernel
  have hcalm : ({ listedInspection with options := ({} : CliConfig).batchOptions }.inspect
      listedPath .new).calm = some (.ok listedReport, linuxAfter) := by decide +kernel
  have hname : ∀ file, Eligible ({} : CliConfig).discoveryOptions sampleTree file →
      pathText file = some listedPath := by
    intro file hfile
    obtain ⟨discovery, hok, -, himages, -⟩ :=
      Discovery.listVmsWithOptions_report sampleTree ({} : CliConfig).discoveryOptions
    obtain rfl := Except.ok.inj (hlist.symm.trans hok)
    rw [List.mem_singleton.mp ((himages file).mpr hfile)]
    decide +kernel
  obtain ⟨discovery, result, hok, -, -, -, hresult, -, -, houtput, -⟩ :=
    (runDirectory_lists _ _ _ sampleTree hname (fun _ => by rw [hcalm]; simp) hrun).2 rfl
  obtain rfl := Except.ok.inj (hlist.symm.trans hok)
  have hreport : ∀ file, result file = .ok listedReport := by
    intro file
    obtain ⟨after, hfile⟩ := hresult file
    exact (Prod.mk.inj (Option.some.inj (hfile.symm.trans hcalm))).1
  refine ⟨output, hrun, houtput.trans ?_⟩
  simp [batchOutput, inspected, hreport, errorOf, Except.toOption]

end VmSpect.Cli
