import VmSpect.Engine.ChunkSizes
import VmSpect.Engine.Summary
import VmSpect.Vms.DiskLayouts

/-!
# The report of a disk with a layout

From the image to the report: an image of a disk with a layout (`Detector.DiskLayout`), stored in
any way that is read natively or read through a session of `qemu-nbd`, is reported as that layout,
with the file system of every volume and the operating system that they tell. Nothing but a panic of
a crate or the token keeps the inspection from the report (`report_of_layout`): whatever goes wrong
in the analysis of the guest is a warning.
-/

namespace VmSpect

open Bytes Polling Polling.Prog Relating UnixPath
open Detector (DetectedDisk DiskLayout Formatted Signature)

variable {ν : Type} {nbd : NbdApi ν} {D : List UInt8}

/-- What a report says about the table and the volumes of the disk. -/
def InspectionReport.detected (report : InspectionReport) : DetectedDisk :=
  ⟨report.scheme, report.partitions, report.operatingSystem⟩

/-! ## Undisturbed runs -/

/-- The reader answers with the bytes of the disk, and nobody has cancelled the inspection. -/
structure Undisturbed (nbd : NbdApi ν) (D : List UInt8) (world : World ν) : Prop where
  answers : world.reader.Answers nbd D
  clear : world.progress.cancelled = false

/-- A finished task does not cancel the inspection. -/
theorem incrementCompletedTasks_clear {progress : InspectionProgress}
    (h : progress.cancelled = false) : progress.incrementCompletedTasks.cancelled = false := by
  unfold InspectionProgress.incrementCompletedTasks
  dsimp only
  split <;> exact h

/-- What undisturbed runs return. -/
def undisturbedRuns (nbd : NbdApi ν) (D : List UInt8) (h : ∃ world, Undisturbed nbd D world) :
    Returning (Reading ν) :=
  Returning.calm (Undisturbed nbd D) h

/-- The driver of the engine serves the disk. -/
theorem diskDriver_undisturbed (hlength : D.length < 2^64)
    (h : ∃ world, Undisturbed nbd D world) :
    Detector.Serves (undisturbedRuns nbd D h) (diskDriver nbd D.length) D where
  virtualSize := rfl
  length_lt := hlength
  readRange offset len := by
    intro world hworld
    obtain ⟨reader, hfill, hreader⟩ := hworld.answers.fillRange offset len
    refine ⟨{ world with reader }, ?_, hreader, hworld.clear⟩
    have hrun : calmFrom ((diskDriver nbd D.length).readRange offset len) world =
        some ((world.reader.fillRange nbd false offset len).2,
          { world with reader := (world.reader.fillRange nbd false offset len).1 }) := rfl
    rw [hrun, hfill]

/-- It reads the same in two undisturbed runs. -/
theorem diskDriver_sameUndisturbed :
    SameReads (readings fun world world' => Undisturbed nbd D world ∧ Undisturbed nbd D world')
      (diskDriver nbd D.length) (diskDriver nbd D.length) where
  virtualSize := rfl
  readRange offset len := by
    refine same_bind (readings_poll .read) fun cancelled world world' h => ?_
    cases cancelled with
    | true => exact .some ⟨rfl, h⟩
    | false =>
      obtain ⟨hworld, hworld'⟩ := h
      obtain ⟨reader, hfill, hreader⟩ := hworld.answers.fillRange offset len
      obtain ⟨reader', hfill', hreader'⟩ := hworld'.answers.fillRange offset len
      show Option.Rel _
        (some ((world.reader.fillRange nbd false offset len).2,
          { world with reader := (world.reader.fillRange nbd false offset len).1 }))
        (some ((world'.reader.fillRange nbd false offset len).2,
          { world' with reader := (world'.reader.fillRange nbd false offset len).1 }))
      rw [hfill, hfill']
      exact .some ⟨rfl, ⟨hreader, hworld.clear⟩, hreader', hworld'.clear⟩
  recordCacheHit := stateT_modify fun world world' h =>
    ⟨⟨⟨h.1.answers.1, h.1.answers.2⟩, h.1.clear⟩, ⟨h.2.answers.1, h.2.answers.2⟩, h.2.clear⟩

namespace Inspection

variable {i : Inspection ν} {path : Path}

/-- The detection returns what it finds on the disk. -/
theorem detect_undisturbed (hfiles : i.FilesSound) {reader : DiskReader ν} (hreader : reader.Answers i.nbd D)
    {disk : DetectedDisk}
    (hdisk : ∀ h : ∃ world, Undisturbed i.nbd D world,
      (undisturbedRuns i.nbd D h).outcome
        (Detector.detectWithProgress (diskDriver i.nbd D.length) (Reading.poll .detector)
          (modify fun world => { world with progress := world.progress.incrementCompletedTasks }))
        (.ok disk))
    {progress : InspectionProgress} (hclear : progress.cancelled = false) :
    ∃ reader' after, calmFrom (i.detect reader).run progress = some (.ok (disk, reader'), after) ∧
      reader'.Answers i.nbd D ∧ after.cancelled = false := by
  have hworld : Undisturbed i.nbd D ⟨reader, progress⟩ := ⟨hreader, hclear⟩
  obtain ⟨world, hstage, hafter⟩ := hdisk ⟨_, hworld⟩ _ hworld
  refine ⟨world.reader, world.progress, ?_, hafter.answers, hafter.clear⟩
  unfold detect
  rw [calmFrom_bind_of_ok (a := (.ok disk, world.reader)) (t := world.progress)]
  · rfl
  · have hrun : calmFrom (i.detectStage reader) ⟨reader, progress⟩ = some (.ok disk, world) := by
      unfold detectStage
      rw [hreader.virtualSize, hfiles.reads]
      exact hstage
    rw [calmFrom_withReader, hrun]
    rfl

/-- The analysis leaves a reader of the disk, and nobody has cancelled the inspection. -/
theorem analysisStage_undisturbed (hfiles : i.FilesSound) {reader : DiskReader ν} (hreader : reader.Answers i.nbd D)
    {disk : DetectedDisk} {chunkSize : ℕ} {progress : InspectionProgress}
    (hclear : progress.cancelled = false) {result : AnalysisResult} {world : World ν}
    (h : calmFrom (i.analysisStage reader disk chunkSize) ⟨reader, progress⟩ =
      some (result, world)) : Undisturbed i.nbd D world := by
  have hworld : Undisturbed i.nbd D ⟨reader, progress⟩ := ⟨hreader, hclear⟩
  have hsame : (readings fun world world' =>
        Undisturbed i.nbd D world ∧ Undisturbed i.nbd D world').Same
      (i.analysisStage reader disk chunkSize) (i.analysisStage reader disk chunkSize) :=
    analysisStage_same hfiles hfiles ⟨rfl, ⟨rfl, rfl, rfl⟩⟩ ⟨hreader, hreader⟩
      diskDriver_sameUndisturbed.sameViews fun p _ => by
        generalize VirtualDisk.new p.start p.size chunkSize = view
        cases view with
        | none => exact .none
        | some view => exact .some rfl
  have hend := hsame _ _ ⟨hworld, hworld⟩
  change Option.Rel _ (calmFrom (i.analysisStage reader disk chunkSize) _)
    (calmFrom (i.analysisStage reader disk chunkSize) _) at hend
  rw [h] at hend
  obtain ⟨-, hafter, -⟩ := hend
  exact hafter

/-- What follows the detection returns a report of what was detected, whatever the analysis finds. -/
theorem finishStages_undisturbed (hfiles : i.FilesSound) {image : ImageInfo} {chunkSize : ℕ}
    {disk : DetectedDisk} {reader : DiskReader ν} (hreader : reader.Answers i.nbd D)
    {progress after : InspectionProgress} (hclear : progress.cancelled = false)
    {result : Except VmSpectError InspectionReport}
    (h : calmFrom (i.finishStages image chunkSize (disk, reader)).run progress =
      some (result, after)) : ∃ report, result = .ok report ∧ report.detected = disk := by
  have hstage : ((((progress.setPercentage 45).setStageId 3).setPercentage 55)).cancelled = false :=
    hclear
  unfold finishStages at h
  dsimp only at h
  rw [calmFrom_bind_of_ok _ (calmFrom_ensureNotCancelled hclear),
    calmFrom_bind_of_ok (a := ())
      (t := ((progress.setPercentage 45).setStageId 3).setPercentage 55) _ rfl] at h
  match hanalysis : calmFrom (i.analysisStage reader disk chunkSize)
      ⟨reader, ((progress.setPercentage 45).setStageId 3).setPercentage 55⟩ with
  | none =>
    rw [calmFrom_bind_of_panic _ (by rw [calmFrom_withReader, hanalysis]; rfl)] at h
    cases h
  | some (analyzed, world) =>
    have hworld := analysisStage_undisturbed hfiles hreader hstage hanalysis
    rw [calmFrom_bind_of_ok (a := (analyzed, world.reader)) (t := world.progress) _
      (by rw [calmFrom_withReader, hanalysis]; rfl),
      calmFrom_bind_of_ok _ (calmFrom_ensureNotCancelled hworld.clear)] at h
    cases h
    exact ⟨_, rfl, rfl⟩

/-- An undisturbed inspection of a disk with a layout ends with a report, unless a crate panics, and
every report that is returned, at whatever moment the token is set, tells the layout of the disk with
the contents of its volumes. -/
theorem report_of_layout (himages : i.Images path D) (hlength : D.length < 2^63)
    {layout : DiskLayout} (hlayout : layout.OnDisk D) {contents : List (Option Signature)}
    (hcontents : List.Forall₂ (Formatted D) (layout.partitions D) contents)
    {progress : InspectionProgress} (hclear : progress.cancelled = false) :
    (∀ {result after}, (i.inspect path progress).calm = some (result, after) →
      ∃ report, result = .ok report ∧ report.detected = layout.reported D contents) ∧
    ∀ {moment report after}, ((i.inspect path progress).run moment).1 = some (.ok report, after) →
      report.detected = layout.reported D contents := by
  have hcalm : ∀ {result after}, (i.inspect path progress).calm = some (result, after) →
      ∃ report, result = .ok report ∧ report.detected = layout.reported D contents := by
    intro result after h
    obtain ⟨image, reader, hinspect, hreader, -⟩ := calm_inspect himages.opens hclear
    have hopened : (((openedProgress progress D).setStageId 2).setPercentage 25).cancelled = false :=
      hclear
    obtain ⟨reader', mid, hdetect, hreader', hmid⟩ := detect_undisturbed himages.files hreader
      (fun hworld => (diskDriver_undisturbed (by omega) hworld).detect_layout
        (fun world h => ⟨world, rfl, h⟩)
        (fun world h => ⟨{ world with progress := world.progress.incrementCompletedTasks }, rfl,
          h.answers, incrementCompletedTasks_clear h.clear⟩) hlength hlayout hcontents) hopened
    rw [hinspect, readStages_eq, calmFrom_bind_of_ok (a := ()) _ rfl,
      calmFrom_bind_of_ok _ hdetect] at h
    exact finishStages_undisturbed himages.files hreader' hmid h
  refine ⟨hcalm, fun hrun => ?_⟩
  obtain ⟨_, hreport, hdetected⟩ := hcalm (calm_of_report hrun)
  rw [Except.ok.inj hreport]
  exact hdetected

/-! ## A guest with two volumes -/

/-- An NTFS volume for recovery, and an ext volume that is part of a RAID. -/
def guestLayout : Detector.Layout where
  slots := [
    .primary ⟨0x27, 1, 5, by decide, by decide, by decide⟩,
    .primary ⟨0xFD, 6, 4, by decide, by decide, by decide⟩,
    .empty,
    .empty]
  length_slots := rfl

/-- Its disk. -/
def guestDisk : List UInt8 :=
  guestLayout.write (List.replicate 512 0 ++ Detector.plainNtfs ++ List.replicate 3128 0 ++
    [0x53, 0xEF] ++ List.replicate 966 0)

theorem length_guestDisk : guestDisk.length = 5120 := by decide +kernel

/-- A file can hold it. -/
theorem guestDisk_lt : guestDisk.length < 2^63 := by
  rw [length_guestDisk]
  norm_num

/-- The layout is written on it. -/
theorem guestDisk_onDisk : (DiskLayout.mbr guestLayout).OnDisk guestDisk := by
  refine ⟨guestLayout.onDisk_write (by decide +kernel) (by decide +kernel), by decide +kernel, ?_⟩
  intro hnone
  cases hnone

/-- Its partitions hold an NTFS and an ext volume. -/
theorem guestDisk_formatted : List.Forall₂ (Formatted guestDisk)
    ((DiskLayout.mbr guestLayout).partitions guestDisk) [some .ntfs, some .extFs] := by
  refine .cons ⟨fun s => ?_, Or.inl (by decide)⟩ (.cons ⟨fun s => ?_, Or.inl (by decide)⟩ .nil)
  · cases s <;> decide +kernel
  · cases s <;> decide +kernel

/-- A file system with the disk as a raw image. -/
def guestFs : FileSystem := .single emptyPath guestDisk guestDisk_lt

/-- The inspection of the image. -/
def guestInspection : Inspection Unit := { emptyInspection with fs := guestFs }

/-- The inspection reads this disk from the image. -/
theorem guestInspection_images : guestInspection.Images emptyPath guestDisk where
  files := ⟨rfl, rfl⟩
  stored := .raw (FileSystem.single_has guestDisk_lt) (by decide +kernel) (by decide +kernel)
  nonempty := List.ne_nil_of_length_eq_add_one length_guestDisk
  session h := by cases h

/-- Its report. -/
theorem report_of_layout_guest :
    (DiskLayout.mbr guestLayout).reported guestDisk [some .ntfs, some .extFs] =
        ⟨.mbr, [⟨0, 512, 2560, "Windows RE (hidden) (0x27)", .ntfs, none⟩,
          ⟨1, 3072, 2048, "Linux RAID (0xFD)", .ext2, none⟩], .windows⟩ ∧
      (guestInspection.inspect emptyPath .new).calm.isSome ∧
      (∀ {result after}, (guestInspection.inspect emptyPath .new).calm = some (result, after) →
        ∃ report, result = .ok report ∧ report.detected =
          (DiskLayout.mbr guestLayout).reported guestDisk [some .ntfs, some .extFs]) :=
  ⟨by decide +kernel, by decide +kernel,
    (report_of_layout guestInspection_images guestDisk_lt guestDisk_onDisk guestDisk_formatted rfl).1⟩

end Inspection

end VmSpect
