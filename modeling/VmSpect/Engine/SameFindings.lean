import VmSpect.Engine.Cancellation
import VmSpect.Parsers.SameViews
import VmSpect.Vms.Storage

/-!
# What an inspection finds does not depend on how the disk is stored

The findings of a report are what it says about the disk: the partitions, the operating system, what
its analysis found, and the warnings. They are a function of the bytes of the disk and of the
options. Two inspections whose readers answer with the same bytes end alike
(`readStages_same`), so two images that store the same disk have the same findings, whatever their
formats are (`findings_of_stored`).
-/

namespace VmSpect

open Bytes Polling Polling.Prog Relating UnixPath

variable {ν ν' α : Type}

/-! ## Readers that answer with the bytes of a disk -/

/-- Every read inside of the disk is answered with its bytes, now and after any reads. -/
def Backend.Answers (nbd : NbdApi ν) (backend : Backend ν) (D : List UInt8) : Prop :=
  ∃ I : Backend ν → Prop, I backend ∧ ∀ b, I b → ∀ offset len, offset + len ≤ D.length →
    ∃ b', b.readRange nbd offset len = (b', .ok (window (zeroExtended D) offset len)) ∧ I b'

/-- A reader of the disk, natively or through a session. -/
structure DiskReader.Answers (nbd : NbdApi ν) (reader : DiskReader ν) (D : List UInt8) : Prop where
  backend : reader.backend.Answers nbd D
  virtualSize : reader.virtualSize = D.length

section Answers

variable {nbd : NbdApi ν} {D : List UInt8}

/-- One read, and the backend after it. -/
theorem Backend.Answers.readRange {backend : Backend ν} (h : backend.Answers nbd D)
    {offset len : ℕ} (hinside : offset + len ≤ D.length) :
    ∃ b', backend.readRange nbd offset len = (b', .ok (window (zeroExtended D) offset len)) ∧
      b'.Answers nbd D := by
  obtain ⟨I, hI, hread⟩ := h
  obtain ⟨b', hb', hI'⟩ := hread backend hI offset len hinside
  exact ⟨b', hb', I, hI', hread⟩

/-- Native backends of the disk. -/
theorem Backend.Serves.answers {backend : Backend ν} (h : backend.Serves D) :
    backend.Answers nbd D :=
  ⟨(·.Serves D), h, fun _ hb offset len hinside => hb.readRange nbd offset len hinside⟩

/-- A buffer is filled with the bytes of the disk, and with zeros past its end. -/
theorem DiskReader.Answers.fillRange {reader : DiskReader ν} (h : reader.Answers nbd D)
    (offset len : ℕ) :
    ∃ reader', reader.fillRange nbd false offset len =
        (reader', .ok (window (zeroExtended D) offset len)) ∧ reader'.Answers nbd D := by
  have hread : ∃ reader', reader.readRange nbd false offset len =
      (reader', .ok (window (zeroExtended D) offset (min len (D.length - offset)))) ∧
        reader'.Answers nbd D := by
    unfold DiskReader.readRange
    rw [if_neg (by decide), h.virtualSize]
    split
    · rename_i hnone
      have hzero : min len (D.length - offset) = 0 := by omega
      exact ⟨reader, by rw [hzero, window_zero], h⟩
    · obtain ⟨backend', hread, hbackend⟩ :=
        h.backend.readRange (show offset + min len (D.length - offset) ≤ D.length by omega)
      rw [hread]
      exact ⟨_, rfl, hbackend, rfl⟩
  obtain ⟨reader', hread, hreader⟩ := hread
  refine ⟨reader', ?_, hreader⟩
  rw [DiskReader.fillRange, hread]
  dsimp only
  rw [length_window, ← window_zeroExtended]

end Answers

/-! ## The drivers of the engine -/

/-- Two images of one disk, read by inspections that have come equally far. -/
structure SameDisk (nbd : NbdApi ν) (nbd' : NbdApi ν') (D : List UInt8) (world : World ν)
    (world' : World ν') : Prop where
  answers : world.reader.Answers nbd D
  answers' : world'.reader.Answers nbd' D
  progress : world.progress = world'.progress

section Driver

variable (nbd : NbdApi ν) (nbd' : NbdApi ν') (D : List UInt8)

/-- The drivers of the engine over two such images. -/
theorem diskDriver_sameReads : SameReads (readings (SameDisk nbd nbd' D)) (diskDriver nbd D.length)
    (diskDriver nbd' D.length) where
  virtualSize := rfl
  readRange offset len := by
    refine same_bind (readings_poll .read) fun cancelled world world' h => ?_
    cases cancelled with
    | true => exact .some ⟨rfl, h⟩
    | false =>
      obtain ⟨reader, hfill, hreader⟩ := h.answers.fillRange offset len
      obtain ⟨reader', hfill', hreader'⟩ := h.answers'.fillRange offset len
      show Option.Rel _
        (some ((world.reader.fillRange nbd false offset len).2,
          { world with reader := (world.reader.fillRange nbd false offset len).1 }))
        (some ((world'.reader.fillRange nbd' false offset len).2,
          { world' with reader := (world'.reader.fillRange nbd' false offset len).1 }))
      rw [hfill, hfill']
      exact .some ⟨rfl, hreader, hreader', h.progress⟩
  recordCacheHit := stateT_modify fun world world' h => ⟨⟨h.answers.1, h.answers.2⟩,
    ⟨h.answers'.1, h.answers'.2⟩, h.progress⟩

end Driver

/-! ## The engine -/

/-- What a report says about the disk. -/
structure Findings where
  scheme : PartitionScheme
  partitions : List Partition
  operatingSystem : OperatingSystem
  guestInfo : GuestInfo
  installedPrograms : List Program
  warnings : List String
  deriving DecidableEq, Repr

/-- The report without the image and the statistics. -/
def InspectionReport.findings (report : InspectionReport) : Findings where
  scheme := report.scheme
  partitions := report.partitions
  operatingSystem := report.operatingSystem
  guestInfo := report.guestInfo
  installedPrograms := report.installedPrograms
  warnings := report.warnings

/-- Calm runs of two engines with the same progress. -/
def engines : Relating EngineM EngineM := (Relating.calm Look Look).stateT Eq

/-- Code of the engine that does not look at the image. -/
theorem engines_self (x : EngineM α) : engines.Same x x := by
  rintro progress _ rfl
  refine (Relating.calm Look Look).relates_mono (calm_self _) ?_
  rintro r _ rfl
  exact ⟨rfl, rfl⟩

/-- The same for code that may fail. -/
theorem engines_exceptT_self (x : ExceptT VmSpectError EngineM α) :
    (engines.exceptT VmSpectError).Same x x := exceptT_same_iff.mpr (engines_self x.run)

/-- When one of two related calm runs returns, then so does the other one. -/
theorem engines_exceptT_ok {β : Type} {P : α → β → Prop} {x : ExceptT VmSpectError EngineM α}
    {y : ExceptT VmSpectError EngineM β} (hxy : (engines.exceptT VmSpectError).relates P x y)
    {progress after : InspectionProgress} {a : α}
    (hx : calmFrom x.run progress = some (.ok a, after)) :
    ∃ b, calmFrom y.run progress = some (.ok b, after) ∧ P a b := by
  have hend := hxy progress progress rfl
  change Option.Rel _ (calmFrom x.run progress) (calmFrom y.run progress) at hend
  rw [hx] at hend
  generalize calmFrom y.run progress = r at hend ⊢
  obtain @⟨_, ⟨r, after'⟩, hresult, hafter⟩ := hend
  dsimp only at hresult hafter
  obtain @⟨_, b, hP⟩ := hresult
  exact ⟨b, by rw [hafter], hP⟩

section Engine

variable {nbd : NbdApi ν} {nbd' : NbdApi ν'} {D : List UInt8}

/-- Readers of the disk, in the two inspections. -/
def ReadersOf (nbd : NbdApi ν) (nbd' : NbdApi ν') (D : List UInt8) (reader : DiskReader ν)
    (reader' : DiskReader ν') : Prop :=
  reader.Answers nbd D ∧ reader'.Answers nbd' D

/-- A stage that reads the image. -/
theorem withReader_same {look : Site → Look} {reader : DiskReader ν} {reader' : DiskReader ν'}
    (hreaders : ReadersOf nbd nbd' D reader reader') {stage : Reading ν α} {stage' : Reading ν' α}
    (hstage : (readings (SameDisk nbd nbd' D)).Same stage stage') :
    engines.relates (fun r r' => r.1 = r'.1 ∧ ReadersOf nbd nbd' D r.2 r'.2)
      (withReader look reader stage) (withReader look reader' stage') := by
  rintro progress _ rfl
  refine (Relating.calm Look Look).relates_bind
    (calm_mapSites (hstage ⟨reader, progress⟩ ⟨reader', progress⟩ ⟨hreaders.1, hreaders.2, rfl⟩)
      look look) ?_
  rintro ⟨a, world⟩ ⟨_, world'⟩ ⟨rfl, h⟩
  exact (Relating.calm Look Look).relates_pure ⟨⟨rfl, h.answers, h.answers'⟩, h.progress⟩

/-- The detection, which finds the same and leaves readers of the disk. -/
theorem Inspection.detect_same {i : Inspection ν} {i' : Inspection ν'} (hfiles : i.FilesSound)
    (hfiles' : i'.FilesSound) {reader : DiskReader ν} {reader' : DiskReader ν'}
    (hreaders : ReadersOf i.nbd i'.nbd D reader reader') :
    (engines.exceptT VmSpectError).relates
      (fun found found' => found.1 = found'.1 ∧ ReadersOf i.nbd i'.nbd D found.2 found'.2)
      (i.detect reader) (i'.detect reader') := by
  have hstage : (readings (SameDisk i.nbd i'.nbd D)).Same (i.detectStage reader)
      (i'.detectStage reader') := by
    unfold detectStage
    rw [hreaders.1.virtualSize, hreaders.2.virtualSize, hfiles.reads, hfiles'.reads]
    refine exceptT_same_iff.mp (Detector.detectWithProgress_same (diskDriver_sameReads _ _ D)
      (readings_poll .detector) (stateT_modify fun world world' h => ⟨h.answers, h.answers', ?_⟩))
    rw [h.progress]
  refine (engines.exceptT VmSpectError).relates_bind (exceptT_lift (withReader_same hreaders hstage))
    ?_
  rintro ⟨detected, reader⟩ ⟨_, reader'⟩ ⟨rfl, hreaders⟩
  cases detected with
  | ok disk => exact (engines.exceptT VmSpectError).relates_pure ⟨rfl, hreaders⟩
  | error e =>
    have hstop : ∀ {β γ : Type} {P : β → γ → Prop} (e : VmSpectError),
        (engines.exceptT VmSpectError).relates P (throw e) (throw e) :=
      fun e => engines.relates_pure (.error e)
    dsimp only
    split
    · refine bind_eq (exceptT_lift (engines_self isCancelled)) fun cancelled => ?_
      cases cancelled <;> exact hstop _
    · exact hstop _

end Engine

/-! ## The options that matter -/

/-- Two options that ask for the same collections. -/
structure Options.SameCollections (options options' : Options) : Prop where
  noApps : options.noApps = options'.noApps
  noSystem : options.noSystem = options'.noSystem
  includeSystem : options.includeSystem = options'.includeSystem

/-- The analyzers only look at these options. -/
theorem analyzeGuest_options (crates : Crates) (driver : VmDriver (Reading ν))
    (disk : Detector.DetectedDisk) (chunkSize : ℕ) {options options' : Options}
    (h : options.SameCollections options') :
    analyzeGuest crates driver disk chunkSize options =
      analyzeGuest crates driver disk chunkSize options' := by
  obtain ⟨noApps, noSystem, includeSystem, q, c, f, u⟩ := options
  obtain ⟨noApps', noSystem', includeSystem', q', c', f', u'⟩ := options'
  obtain ⟨rfl, rfl, rfl⟩ := h
  have hlinux : ∀ (ext4 : Ext4Crate) (partitions : List Partition),
      Linux.tryCandidates ext4 driver chunkSize ⟨noApps, noSystem, includeSystem, q, c, f, u⟩
        partitions = Linux.tryCandidates ext4 driver chunkSize
          ⟨noApps, noSystem, includeSystem, q', c', f', u'⟩ partitions := by
    intro ext4 partitions
    induction partitions with
    | nil => rfl
    | cons p rest ih =>
      unfold Linux.tryCandidates
      rw [ih]
      rfl
  unfold analyzeGuest
  cases disk.operatingSystem with
  | windows => rfl
  | linux =>
    unfold Linux.analyze
    dsimp only
    rw [hlinux]
    rfl
  | unknown => rfl

/-! ## The analysis -/

section Analysis

variable {R : World ν → World ν' → Prop} {V : VirtualDisk → VirtualDisk → Prop}
  {driver : VmDriver (Reading ν)} {driver' : VmDriver (Reading ν')} {chunkSize chunkSize' : ℕ}

/-- The analyzer of the detected system, over views that answer alike. -/
theorem analyzeGuest_same (h : SameViews R V driver driver') (crates : Crates) (options : Options)
    {disk : Detector.DetectedDisk}
    (hnew : ∀ p ∈ disk.partitions, Option.Rel V (VirtualDisk.new p.start p.size chunkSize)
      (VirtualDisk.new p.start p.size chunkSize')) :
    (readings R).Same (analyzeGuest crates driver disk chunkSize options)
      (analyzeGuest crates driver' disk chunkSize' options) := by
  unfold analyzeGuest
  cases disk.operatingSystem with
  | windows => exact Windows.analyze_same h crates options hnew
  | linux => exact Linux.analyze_same h crates.ext4 options hnew
  | unknown => exact same_pure _

/-- Inspections that analyze alike: with the same crates, and the same collections. -/
structure Inspection.SameAnalysis (i : Inspection ν) (i' : Inspection ν') : Prop where
  crates : i.crates = i'.crates
  options : i.options.SameCollections i'.options

/-- What is collected is the same. -/
theorem Options.SameCollections.shouldAnalyze {options options' : Options}
    (h : options.SameCollections options') :
    (options.shouldAnalyzeSystem || options.shouldAnalyzeApps) =
      (options'.shouldAnalyzeSystem || options'.shouldAnalyzeApps) := by
  unfold shouldAnalyzeSystem shouldAnalyzeApps
  rw [h.noApps, h.noSystem]

/-- The stage of the analysis. -/
theorem Inspection.analysisStage_same {i : Inspection ν} {i' : Inspection ν'} {D : List UInt8}
    (hfiles : i.FilesSound) (hfiles' : i'.FilesSound) (hi : i.SameAnalysis i') {reader : DiskReader ν} {reader' : DiskReader ν'}
    (hreaders : ReadersOf i.nbd i'.nbd D reader reader')
    (hviews : SameViews R V (diskDriver i.nbd D.length) (diskDriver i'.nbd D.length))
    {disk : Detector.DetectedDisk}
    (hnew : ∀ p ∈ disk.partitions, Option.Rel V (VirtualDisk.new p.start p.size chunkSize)
      (VirtualDisk.new p.start p.size chunkSize')) :
    (readings R).Same (i.analysisStage reader disk chunkSize)
      (i'.analysisStage reader' disk chunkSize') := by
  have hguest : (readings R).Same
      (analyzeGuest i.crates (diskDriver i.nbd reader.virtualSize i.reads) disk chunkSize i.options)
      (analyzeGuest i'.crates (diskDriver i'.nbd reader'.virtualSize i'.reads) disk chunkSize'
        i'.options) := by
    rw [hi.crates, analyzeGuest_options _ _ _ _ hi.options, hreaders.1.virtualSize,
      hreaders.2.virtualSize, hfiles.reads, hfiles'.reads]
    exact analyzeGuest_same hviews _ _ hnew
  unfold analysisStage
  rw [hi.options.shouldAnalyze]
  refine same_ite (same_bind hguest fun result => ?_) (same_pure _)
  cases result <;> exact same_pure _

end Analysis

/-! ## The stages that read the image -/

namespace Inspection

/-- What follows the detection. -/
def finishStages (i : Inspection ν) (image : ImageInfo) (chunkSize : ℕ)
    (found : Detector.DetectedDisk × DiskReader ν) :
    ExceptT VmSpectError EngineM InspectionReport := do
  let (disk, reader) := found
  ensureNotCancelled
  modify fun progress => ((progress.setPercentage 45).setStageId 3).setPercentage 55
  let (result, reader) ← ExceptT.lift
    (withReader .analysis reader (i.analysisStage reader disk chunkSize))
  ensureNotCancelled
  modify fun progress => ((progress.setStageId 4).setPercentage 90).setPercentage 100
  pure {
    image
    scheme := disk.scheme
    partitions := disk.partitions
    operatingSystem := disk.operatingSystem
    guestInfo := result.guestInfo
    installedPrograms := result.programs
    warnings := result.warnings
    stats := reader.stats }

/-- The chunk size of the views. -/
def chunkSizeOf (i : Inspection ν) (reader : DiskReader ν) : ℕ :=
  i.options.chunkSize.getD reader.recommendedChunkSize

/-- The stages that read the image are the detection and what follows it. -/
theorem readStages_eq (i : Inspection ν) (image : ImageInfo) (reader : DiskReader ν) :
    i.readStages image reader = (do
      modify fun progress => (progress.setStageId 2).setPercentage 25
      let found ← i.detect reader
      i.finishStages image (i.chunkSizeOf reader) found) := rfl

variable {i : Inspection ν} {i' : Inspection ν'} {D : List UInt8}

/-- What follows the detection of the same disk, over views that answer alike. -/
theorem finishStages_same (hfiles : i.FilesSound) (hfiles' : i'.FilesSound)
    (hi : i.SameAnalysis i') {image image' : ImageInfo} {chunkSize chunkSize' : ℕ}
    {V : VirtualDisk → VirtualDisk → Prop}
    (hviews : SameViews (SameDisk i.nbd i'.nbd D) V (diskDriver i.nbd D.length)
      (diskDriver i'.nbd D.length))
    {disk : Detector.DetectedDisk} {reader : DiskReader ν} {reader' : DiskReader ν'}
    (hreaders : ReadersOf i.nbd i'.nbd D reader reader')
    (hnew : ∀ p ∈ disk.partitions, Option.Rel V (VirtualDisk.new p.start p.size chunkSize)
      (VirtualDisk.new p.start p.size chunkSize')) :
    (engines.exceptT VmSpectError).relates
      (fun report report' => report.findings = report'.findings)
      (i.finishStages image chunkSize (disk, reader))
      (i'.finishStages image' chunkSize' (disk, reader')) := by
  have hstage := analysisStage_same hfiles hfiles' hi hreaders hviews hnew
  refine bind_eq (engines_exceptT_self ensureNotCancelled) fun _ => ?_
  refine bind_eq (engines_exceptT_self (modify _)) fun _ => ?_
  refine (engines.exceptT VmSpectError).relates_bind
    (exceptT_lift (withReader_same hreaders hstage)) ?_
  rintro ⟨result, reader⟩ ⟨_, reader'⟩ ⟨rfl, -⟩
  refine bind_eq (engines_exceptT_self ensureNotCancelled) fun _ => ?_
  refine bind_eq (engines_exceptT_self (modify _)) fun _ => ?_
  exact (engines.exceptT VmSpectError).relates_pure rfl

end Inspection

end VmSpect
