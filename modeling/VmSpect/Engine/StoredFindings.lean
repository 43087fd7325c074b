import VmSpect.Engine.SameFindings

/-!
# Images that store the same disk have the same findings

`Inspection.Opens` says that an undisturbed inspection comes to a reader that answers with the bytes
of a disk. An image that stores the disk natively does so (`opens_of_stored`), and so does one that
is read through a session of `qemu-nbd` that answers with the bytes of the disk
(`opens_of_session`). What the inspection finds after that depends on the disk and on the options
only.
-/

namespace VmSpect

open Bytes Polling Polling.Prog Relating UnixPath

variable {ν ν' : Type} {D : List UInt8} {path path' : Path}

/-! ## Opening the image of a disk -/

/-- A disk that is stored can be read natively. -/
theorem Stored.readable {fs : FileSystem} (h : Stored fs path D) (hD : D ≠ []) :
    Readable ν fs path D := by
  cases h with
  | raw hfile hsignature hextension => exact readable_raw hfile hsignature hextension
  | descriptor hfile hmagic htext hparent hparts hdisk hsize =>
    subst hdisk
    exact readable_descriptor hfile hmagic htext hparent hparts hsize hD
  | monolithicSparse hfile hheader hlayout hembedded =>
    exact readable_monolithicSparse hfile hheader hlayout hembedded

/-- The image of a stored disk is there. -/
theorem Stored.metadata {fs : FileSystem} (h : Stored fs path D) :
    ∃ size, fs.metadata path = .ok size := by
  cases h with
  | raw hfile _ _ => exact ⟨_, hfile.metadata⟩
  | descriptor hfile _ _ _ _ _ _ => exact ⟨_, hfile.metadata⟩
  | monolithicSparse hfile _ _ _ => exact ⟨_, hfile.metadata⟩

/-- The engine goes on while the inspection is not cancelled. -/
theorem calmFrom_isCancelled {progress : InspectionProgress} (h : progress.cancelled = false) :
    calmFrom isCancelled progress = some (false, progress) := by
  show (isCancelled.run progress).calm = _
  rw [isCancelled_run, Prog.calm, Bool.false_or, h]
  rfl

/-- So does a look that would end the inspection. -/
theorem calmFrom_ensureNotCancelled {progress : InspectionProgress}
    (h : progress.cancelled = false) :
    calmFrom ensureNotCancelled.run progress = some (.ok (), progress) := by
  have hlift : calmFrom (ExceptT.lift isCancelled : ExceptT VmSpectError EngineM Bool).run
      progress = some (.ok false, progress) := by
    show calmFrom (Except.ok <$> isCancelled) progress = _
    rw [map_eq_pure_bind, calmFrom_bind, calmFrom_isCancelled h]
    rfl
  exact calmFrom_bind_of_ok _ hlift

namespace Inspection

/-- The progress once the image is identified. -/
def openedProgress (progress : InspectionProgress) (D : List UInt8) : InspectionProgress :=
  (((progress.setStageId 1).setPercentage 5).setTotalBytes D.length).setPercentage 15

/-- Undisturbed, the inspection comes to a reader that answers with the bytes of the disk, and goes
on with views in chunks of this size. -/
def Opens (i : Inspection ν) (path : Path) (D : List UInt8) (chunkSize : ℕ) : Prop :=
  ∀ progress : InspectionProgress, progress.cancelled = false → ∃ image reader,
    calmFrom (i.openStages path).run progress =
      some (.ok (image, reader), openedProgress progress D) ∧
    reader.Answers i.nbd D ∧ i.chunkSizeOf reader = chunkSize

/-- The image of a disk, once its reader is opened. -/
theorem opens_of_reader {i : Inspection ν} (hfiles : i.FilesSound) {size : ℕ} {info : ImageInfo}
    {reader : DiskReader ν} (hmeta : i.fs.metadata path = .ok size) (hidentify : (identifyImage i.fs path).result = .ok info)
    (hsize : info.virtualSize = D.length)
    (hopen : (openWithOptionsDiagnostic i.fs i.env i.nbd info i.options).run.calm =
      some (.ok reader)) (hreader : reader.Answers i.nbd D) :
    i.Opens path D (i.chunkSizeOf reader) := by
  intro progress hclear
  refine ⟨info, reader, ?_, hreader, rfl⟩
  have hstage : ((progress.setStageId 1).setPercentage 5).cancelled = false := hclear
  have hlook : (openedProgress progress D).cancelled = false := hclear
  unfold openStages
  rw [hfiles.devices]
  rw [calmFrom_bind_of_ok (a := size) _ (by rw [FileSystem.stat_sound, hmeta]; rfl),
    calmFrom_bind_of_ok _ (calmFrom_ensureNotCancelled hclear),
    calmFrom_bind_of_ok (a := ()) (t := (progress.setStageId 1).setPercentage 5) _ rfl,
    calmFrom_bind_of_ok (a := info) (t := (progress.setStageId 1).setPercentage 5) _
      (by rw [hidentify]; rfl),
    calmFrom_bind_of_ok _ (calmFrom_ensureNotCancelled hstage),
    calmFrom_bind_of_ok (a := ()) (t := openedProgress progress D) _
      (by rw [openedProgress, ← hsize]; rfl)]
  have hlift : calmFrom (ExceptT.mk (StateT.lift ((openWithOptionsDiagnostic i.fs i.env i.nbd info
      i.options).run.mapSites Look.opening)) : ExceptT VmSpectError EngineM (DiskReader ν)).run
      (openedProgress progress D) = some (.ok reader, openedProgress progress D) := by
    show calmFrom (StateT.lift _) _ = _
    rw [calmFrom_lift, Prog.calm_mapSites, hopen]
    rfl
  rw [calmFrom_bind_of_ok _ hlift, calmFrom_bind_of_ok _ (calmFrom_ensureNotCancelled hlook)]
  rfl

/-- An image that stores a disk, opened natively. -/
theorem opens_of_stored {i : Inspection ν} (hfiles : i.FilesSound) (h : Stored i.fs path D) (hD : D ≠ [])
    (hnative : i.options.forceNbd = false) :
    i.Opens path D (i.options.chunkSize.getD (256 * 1024)) := by
  obtain ⟨size, hmeta⟩ := h.metadata
  obtain ⟨info, backend, mode, hidentify, -, hsize, hopen, hserves⟩ := h.readable (ν := ν) hD
  let reader : DiskReader ν :=
    ⟨backend, info.virtualSize, .opened info.path s!"direct-read ({mode})"⟩
  have hdirect : (openWithOptionsDiagnostic i.fs i.env i.nbd info i.options).run.calm =
      some (.ok reader) := by
    unfold openWithOptionsDiagnostic
    rw [if_neg (by rw [hnative]; decide), DiskReader.openDirect, Words.Logged.bind_of_ok hopen]
    rfl
  have hchunk : i.chunkSizeOf reader = i.options.chunkSize.getD (256 * 1024) := by
    unfold chunkSizeOf DiskReader.recommendedChunkSize
    cases hbackend : backend with
    | nbd session =>
      rw [hbackend] at hserves
      exact hserves.elim
    | _ => simp only [reader, hbackend]
  rw [← hchunk]
  exact opens_of_reader hfiles hmeta hidentify hsize hdirect ⟨hserves.answers, hsize⟩

/-- A session of `qemu-nbd` that can be opened, and answers with the bytes of the disk. -/
def SessionOf (i : Inspection ν) (D : List UInt8) : Prop :=
  ∃ program session, i.env.resolve i.options.qemuNbd = .ok program ∧
    (openNbd i.env program i.options).run.calm = some (.ok session) ∧
    i.nbd.virtualSize session = D.length ∧ (Backend.nbd session).Answers i.nbd D

/-- The same image, read through such a session. -/
theorem opens_of_session {i : Inspection ν} (hfiles : i.FilesSound) (h : Stored i.fs path D) (hD : D ≠ [])
    (hforce : i.options.forceNbd = true) (hsession : i.SessionOf D) :
    i.Opens path D (i.options.chunkSize.getD (512 * 1024)) := by
  obtain ⟨size, hmeta⟩ := h.metadata
  obtain ⟨info, backend, mode, hidentify, hpath, hsize, hopen, -⟩ := h.readable (ν := ν) hD
  obtain ⟨program, session, hresolve, hcalm, hvirtual, hanswers⟩ := hsession
  let channel := if i.options.unixSocket.isSome then "unix" else "tcp"
  let reader : DiskReader ν := ⟨.nbd session, max (i.nbd.virtualSize session) info.virtualSize,
    .opened info.path s!"explicit qemu-nbd {channel}"⟩
  -- An image that opens natively has all of its components.
  have hvalid : (if info.format = .vmdk then (validateVmdkComponents i.fs info.path).result
      else .ok ()) = .ok () := by
    split
    · rename_i hvmdk
      rw [openNative, hvmdk] at hopen
      obtain ⟨_, hvalid, -⟩ := Words.Logged.bind_eq_ok.mp hopen
      exact hvalid
    · rfl
  have hreader : (openWithOptionsDiagnostic i.fs i.env i.nbd info i.options).run.calm =
      some (.ok reader) := by
    unfold openWithOptionsDiagnostic
    have hopened : (ExceptT.mk ((·.mapError nbdErrorToVm) <$>
        (openNbd i.env program i.options).run)).run.calm = some (.ok session) := by
      show ((·.mapError nbdErrorToVm) <$> (openNbd i.env program i.options).run).calm = _
      rw [map_eq_pure_bind, calm_bind, hcalm]
      rfl
    rw [if_pos hforce, hvalid, hresolve, calm_bind_of_ok (a := ()) _ rfl,
      calm_bind_of_ok (a := program) _ rfl, calm_bind_of_ok _ hopened]
    rfl
  refine opens_of_reader hfiles hmeta hidentify hsize hreader ⟨hanswers, ?_⟩
  show max (i.nbd.virtualSize session) info.virtualSize = D.length
  rw [hvirtual, hsize, max_self]

/-! ## What is found -/

/-- What an inspection ends with, as far as it says something about the disk. -/
def conclusion (result : Except VmSpectError InspectionReport × InspectionProgress) :
    Except VmSpectError Findings × InspectionProgress :=
  (result.1.map (·.findings), result.2)

variable {i : Inspection ν} {i' : Inspection ν'}

/-- An inspection that returns a report was not disturbed. -/
theorem calm_of_report {progress after : InspectionProgress} {moment : ℕ}
    {report : InspectionReport}
    (h : ((i.inspect path progress).run moment).1 = some (.ok report, after)) :
    (i.inspect path progress).calm = some (.ok report, after) := by
  by_cases hlt : moment < (i.inspect path progress).sites.length
  · -- A look that finds the token set fails the inspection.
    have hfits := i.inspect_fits path progress (List.getElem?_eq_getElem hlt)
    rw [h] at hfits
    exact hfits.elim
  · rw [(i.inspect path progress).run_of_sites_le (by omega)] at h
    exact h

/-- An inspection, once its reader is opened. -/
theorem calm_inspect {chunkSize : ℕ} (h : i.Opens path D chunkSize) {progress : InspectionProgress}
    (hclear : progress.cancelled = false) : ∃ image reader,
      (i.inspect path progress).calm =
        calmFrom (i.readStages image reader).run (openedProgress progress D) ∧
      reader.Answers i.nbd D ∧ i.chunkSizeOf reader = chunkSize := by
  obtain ⟨image, reader, hopen, hreader, hchunk⟩ := h progress hclear
  refine ⟨image, reader, ?_, hreader, hchunk⟩
  show calmFrom (i.openStages path >>= fun opened => i.readStages opened.1 opened.2).run progress = _
  rw [calmFrom_bind_of_ok _ hopen]

/-- Two inspections of a disk, with views in chunks of the same size, end alike. -/
theorem conclusion_of_opens (hfiles : i.FilesSound) (hfiles' : i'.FilesSound)
    (hi : i.SameAnalysis i') {chunkSize : ℕ}
    (h : i.Opens path D chunkSize) (h' : i'.Opens path' D chunkSize)
    {progress : InspectionProgress} (hclear : progress.cancelled = false) :
    (i.inspect path progress).calm.map conclusion =
      (i'.inspect path' progress).calm.map conclusion := by
  obtain ⟨image, reader, hcalm, hreader, hchunk⟩ := calm_inspect h hclear
  obtain ⟨image', reader', hcalm', hreader', hchunk'⟩ := calm_inspect h' hclear
  have hstages : (engines.exceptT VmSpectError).relates
      (fun report report' => report.findings = report'.findings) (i.readStages image reader)
      (i'.readStages image' reader') := by
    rw [readStages_eq, readStages_eq, hchunk, hchunk']
    refine bind_eq (engines_exceptT_self (modify _)) fun _ => ?_
    refine (engines.exceptT VmSpectError).relates_bind (detect_same hfiles hfiles'
      ⟨hreader, hreader'⟩) ?_
    rintro ⟨disk, reader⟩ ⟨_, reader'⟩ ⟨rfl, hreaders⟩
    refine finishStages_same hfiles hfiles' hi (diskDriver_sameReads _ _ D).sameViews hreaders
      fun p _ => ?_
    generalize VirtualDisk.new p.start p.size chunkSize = disk
    cases disk with
    | none => exact .none
    | some disk => exact .some rfl
  have hend := hstages (openedProgress progress D) _ rfl
  rw [hcalm, hcalm']
  change Option.Rel _ (calmFrom (i.readStages image reader).run _)
    (calmFrom (i'.readStages image' reader').run _) at hend
  generalize calmFrom (i.readStages image reader).run (openedProgress progress D) = r,
    calmFrom (i'.readStages image' reader').run (openedProgress progress D) = r' at hend ⊢
  cases hend with
  | none => rfl
  | @some r r' h =>
    obtain ⟨result, after⟩ := r
    obtain ⟨result', after'⟩ := r'
    obtain ⟨hresult, rfl⟩ := h
    cases hresult with
    | ok hfindings => simp only [Option.map_some, conclusion, Except.map, hfindings]
    | error e => rfl

/-- Two images that store the same disk, whatever their formats are, inspected natively with the
same options, without failing calls on their files: the undisturbed inspections end alike, and any two
inspections that return a report have found the same. -/
theorem findings_of_stored (hstored : Stored i.fs path D) (hstored' : Stored i'.fs path' D)
    (hfiles : i.FilesSound) (hfiles' : i'.FilesSound) (hD : D ≠ []) (hi : i.SameAnalysis i') (hchunk : i.options.chunkSize = i'.options.chunkSize)
    (hnative : i.options.forceNbd = false) (hnative' : i'.options.forceNbd = false)
    {progress : InspectionProgress} (hclear : progress.cancelled = false) :
    (i.inspect path progress).calm.map conclusion =
        (i'.inspect path' progress).calm.map conclusion ∧
      ∀ {moment moment' : ℕ} {report report' : InspectionReport} {after after' : InspectionProgress},
        ((i.inspect path progress).run moment).1 = some (.ok report, after) →
        ((i'.inspect path' progress).run moment').1 = some (.ok report', after') →
        report.findings = report'.findings ∧ after = after' := by
  have hopens := opens_of_stored hfiles hstored hD hnative
  have hopens' := opens_of_stored hfiles' hstored' hD hnative'
  rw [← hchunk] at hopens'
  have hsame := conclusion_of_opens hfiles hfiles' hi hopens hopens' hclear
  refine ⟨hsame, fun hrun hrun' => ?_⟩
  rw [calm_of_report hrun, calm_of_report hrun'] at hsame
  simpa [conclusion, Except.map] using hsame

/-! ## A disk that is stored twice -/

/-- A file system with the sample disk as a raw image. -/
def rawFs : FileSystem := .single emptyPath sampleDisk (by decide +kernel)

/-- The image stores the sample disk. -/
theorem rawFs_stored : Stored rawFs emptyPath sampleDisk :=
  .raw (FileSystem.single_has _) (by decide +kernel) (by decide +kernel)

theorem sampleDisk_ne_nil : sampleDisk ≠ [] := List.ne_nil_of_length_eq_add_one length_sampleDisk

/-- The inspection of the raw image. -/
def rawInspection : Inspection Unit := { emptyInspection with fs := rawFs }

/-- The inspection of the descriptor. -/
def descriptorInspection : Inspection Unit := { emptyInspection with fs := sampleFs }

/-- The raw image and the descriptor of the sample disk. -/
theorem findings_of_stored_sample :
    ((rawInspection.inspect emptyPath .new).calm.map conclusion =
        (descriptorInspection.inspect samplePath .new).calm.map conclusion ∧
      ∀ {moment moment' : ℕ} {report report' : InspectionReport} {after after' : InspectionProgress},
        ((rawInspection.inspect emptyPath .new).run moment).1 = some (.ok report, after) →
        ((descriptorInspection.inspect samplePath .new).run moment').1 =
          some (.ok report', after') → report.findings = report'.findings ∧ after = after') ∧
      ((rawInspection.inspect emptyPath .new).run 18).1.isSome ∧
      ((descriptorInspection.inspect samplePath .new).run 18).1.isSome :=
  have hraw : Stored rawInspection.fs emptyPath sampleDisk := rawFs_stored
  have hdescriptor : Stored descriptorInspection.fs samplePath sampleDisk := sample_stored
  have hsame : rawInspection.SameAnalysis descriptorInspection := ⟨rfl, ⟨rfl, rfl, rfl⟩⟩
  ⟨findings_of_stored hraw hdescriptor ⟨rfl, rfl⟩ ⟨rfl, rfl⟩ sampleDisk_ne_nil hsame rfl rfl rfl rfl,
    by decide +kernel, by decide +kernel⟩

end Inspection

end VmSpect
