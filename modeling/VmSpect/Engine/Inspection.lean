import VmSpect.Parsers.Windows
import VmSpect.Vms.Detector
import VmSpect.Vms.NbdOpen

/-!
# One inspection

`InspectionEngine::run_inspection` of `src/engine/mod.rs`: an image is identified and opened, its
partitions are detected and its guest is analyzed. Between the stages the engine looks at the token.
The callback, the log and the durations are left out; they do not feed back into the inspection.
-/

namespace VmSpect

open Polling UnixPath

variable {ν α : Type}

/-- What an inspection is given: the options, the files, the surroundings of `qemu-nbd` and the
crates that read file systems and registries. The calls on the files may fail, by their use until the
image is open and by the number of the read afterwards. -/
structure Inspection (ν : Type) where
  options : Options
  fs : FileSystem
  env : NbdEnvironment ν
  nbd : NbdApi ν
  crates : Crates
  devices : Devices := .sound
  reads : ℕ → ℕ → Device := fun _ _ => .sound

/-- `InspectionReport`. -/
structure InspectionReport where
  image : ImageInfo
  scheme : PartitionScheme
  partitions : List Partition
  operatingSystem : OperatingSystem
  guestInfo : GuestInfo
  installedPrograms : List Program
  warnings : List String
  stats : ReadStats
  deriving DecidableEq, Repr

/-- A look at the token during an inspection: one of the engine's own, or one of a stage. -/
inductive Look where
  | engine
  | opening (site : Site)
  | detection (site : Site)
  | analysis (site : Site)
  deriving DecidableEq, Repr

/-- Code of the engine, which updates the progress. -/
abbrev EngineM := StateT InspectionProgress (Prog Look)

/-- `is_cancelled`: the token, the flag of the progress, and the token that the progress is linked
to, which is the same one. The flag is only set together with the token, so whoever finds it set
answers as if the token was. -/
def isCancelled : EngineM Bool := do
  if ← StateT.lift (Prog.poll .engine) then pure true
  else if (← get).cancelled then pure true
  else StateT.lift (Prog.poll .engine)

/-- The engine stops here when it is cancelled. -/
def ensureNotCancelled : ExceptT VmSpectError EngineM Unit := do
  if ← ExceptT.lift isCancelled then throw .cancelled else pure ()

/-- A stage that reads the image, with the reader after it. -/
def withReader (look : Site → Look) (reader : DiskReader ν) (stage : Reading ν α) :
    EngineM (α × DiskReader ν) :=
  fun progress => do
    let (result, world) ← (stage.run ⟨reader, progress⟩).mapSites look
    pure ((result, world.reader), world.progress)

/-- The error of a path that cannot be looked at. -/
def pathError (path : Path) (e : IoError) : VmSpectError :=
  if e.kind = .notFound then .imageNotFound path.display else .io e

/-- `UnknownInspector::analyze`. -/
def analyzeUnknown (options : Options) : AnalysisResult where
  guestInfo := if options.shouldAnalyzeSystem then { osName := "Unknown operating system".toList }
    else {}

/-- `get_inspector` and `analyze`. -/
def analyzeGuest (crates : Crates) (driver : VmDriver (Reading ν)) (disk : Detector.DetectedDisk)
    (chunkSize : ℕ) (options : Options) : Reading ν (Except VmSpectError AnalysisResult) :=
  match disk.operatingSystem with
  | .windows => Windows.analyze crates driver disk.partitions chunkSize options
  | .linux => Linux.analyze crates.ext4 driver disk.partitions chunkSize options
  | .unknown => pure (.ok (analyzeUnknown options))

namespace Inspection

/-- No call on the files fails. -/
structure FilesSound (i : Inspection ν) : Prop where
  devices : i.devices = .sound
  reads : i.reads = fun _ _ => .sound

/-- The stage of the partition detection. -/
def detectStage (i : Inspection ν) (reader : DiskReader ν) :
    Reading ν (Except IoError Detector.DetectedDisk) :=
  (Detector.detectWithProgress (diskDriver i.nbd reader.virtualSize i.reads)
    (Reading.poll .detector)
    (modify fun world => { world with progress := world.progress.incrementCompletedTasks })).run

/-- The detection, whose errors are told apart by their kind. -/
def detect (i : Inspection ν) (reader : DiskReader ν) :
    ExceptT VmSpectError EngineM (Detector.DetectedDisk × DiskReader ν) := do
  let (detected, reader) ← ExceptT.lift (withReader .detection reader (i.detectStage reader))
  match detected with
  | .ok disk => pure (disk, reader)
  | .error e =>
    if e.kind = .interrupted then do
      if ← ExceptT.lift isCancelled then throw .cancelled else throw (.io e)
    else throw (.io e)

/-- The analysis of the guest, whose failure is a warning. -/
def analysisStage (i : Inspection ν) (reader : DiskReader ν) (disk : Detector.DetectedDisk)
    (chunkSize : ℕ) : Reading ν AnalysisResult := do
  if i.options.shouldAnalyzeSystem || i.options.shouldAnalyzeApps then do
    let driver := diskDriver i.nbd reader.virtualSize i.reads
    match ← analyzeGuest i.crates driver disk chunkSize i.options with
    | .ok result => pure result
    | .error e => pure { warnings :=
        ["Could not complete the guest OS analysis; continuing with image/partition data only: " ++
          e.toText] }
  else pure {}

/-- The stages up to the open reader. -/
def openStages (i : Inspection ν) (path : Path) :
    ExceptT VmSpectError EngineM (ImageInfo × DiskReader ν) := do
  let _size ← ExceptT.mk (pure ((i.fs.stat path (i.devices .image)).mapError
    (pathError path)))
  ensureNotCancelled
  modify fun progress => (progress.setStageId 1).setPercentage 5
  let image ← ExceptT.mk (StateT.lift ((·.mapError (pathError path)) <$>
    (ofStop (identifyImage i.fs path i.devices).result).run))
  ensureNotCancelled
  modify fun progress => (progress.setTotalBytes image.virtualSize).setPercentage 15
  let reader ← ExceptT.mk (StateT.lift
    ((openWithOptionsDiagnostic i.fs i.env i.nbd image i.options i.devices).run.mapSites .opening))
  ensureNotCancelled
  pure (image, reader)

/-- The stages that read the image. -/
def readStages (i : Inspection ν) (image : ImageInfo) (reader : DiskReader ν) :
    ExceptT VmSpectError EngineM InspectionReport := do
  let chunkSize := i.options.chunkSize.getD reader.recommendedChunkSize
  modify fun progress => (progress.setStageId 2).setPercentage 25
  let (disk, reader) ← i.detect reader
  ensureNotCancelled
  modify fun progress => ((progress.setPercentage 45).setStageId 3).setPercentage 55
  let (result, reader) ← ExceptT.lift
    (withReader .analysis reader (i.analysisStage reader disk chunkSize))
  ensureNotCancelled
  modify fun progress => ((progress.setStageId 4).setPercentage 90).setPercentage 100
  pure {
    image
    scheme := disk.scheme
    partitions := disk.partitions
    operatingSystem := disk.operatingSystem
    guestInfo := result.guestInfo
    installedPrograms := result.programs
    warnings := result.warnings
    stats := reader.stats }

/-- `run_inspection`. -/
def runInspection (i : Inspection ν) (path : Path) :
    ExceptT VmSpectError EngineM InspectionReport := do
  let (image, reader) ← i.openStages path
  i.readStages image reader

end Inspection

end VmSpect
