import VmSpect.Engine.StoredFindings

/-!
# The findings do not depend on the chunk size

A view answers every call as a cursor over the bytes of the disk does, whatever its chunk size is
(`perform_disk`), as long as the part of the disk that it covers ends below `2^64` and a chunk fits a
vector. So two inspections of a disk whose views have chunks of different sizes, or which read the
disk natively and through `qemu-nbd`, have the same findings (`findings_of_chunkSizes`), unless the
partition table tells of a partition that wraps around.

The views are compared with those of a driver that keeps the whole disk in memory.
-/

namespace VmSpect

open Bytes Words Polling Prog Relating Stateful UnixPath

variable {ν ν' : Type} {D : List UInt8}

/-! ## A disk in memory -/

/-- A driver that keeps the disk in memory. -/
def memoryDriver (D : List UInt8) : VmDriver (StateM Unit) where
  virtualSize := D.length
  readRange offset len := pure (.ok (window (zeroExtended D) offset len))
  recordCacheHit := pure ()

/-- Inside of the disk, it fills a buffer with its bytes. -/
theorem memoryDriver_serves (D : List UInt8) : (memoryDriver D).Serves D where
  size := rfl
  fills offset len data st hinside hdata := by
    have hwindow : window (zeroExtended D) offset len = data := Except.ok.inj hdata
    rw [← hwindow, window_eq_slice hinside]

/-- It never stops a read of a view whose chunks fit a vector. -/
theorem memoryDriver_stops {chunkSize : ℕ} (hfit : chunkSize ≤ maxVecLen) {stop : Stop IoError} :
    ¬ (memoryDriver D).Stops chunkSize stop := by
  rintro (⟨offset, len, st, e, h⟩ | h)
  · cases h
  · exact absurd hfit (by omega)

/-- Calm runs over an image of the disk that return what another program does, and change the image
by reads only. -/
def reads (nbd : NbdApi ν) (D : List UInt8) : Relating (Reading ν) (StateM Unit) where
  relates P x y := ∀ world, world.reader.Answers nbd D → ∃ a after,
    (x.run world).calm = some (a, after) ∧ after.reader.Answers nbd D ∧
      after.progress = world.progress ∧ P a (y.run ()).1
  relates_pure h world hworld := ⟨_, world, rfl, hworld, rfl, h⟩
  relates_bind hxy hfg world hworld := by
    obtain ⟨a, mid, hx, hmid, hprogress, hP⟩ := hxy world hworld
    obtain ⟨c, after, hf, hafter, hprogress', hQ⟩ := hfg _ _ hP mid hmid
    refine ⟨c, after, ?_, hafter, hprogress'.trans hprogress, hQ⟩
    rw [StateT.run_bind, calm_bind, hx]
    exact hf
  relates_mono hxy himp world hworld := by
    obtain ⟨a, after, hx, hafter, hprogress, hP⟩ := hxy world hworld
    exact ⟨a, after, hx, hafter, hprogress, himp _ _ hP⟩

/-- The driver of the engine reads what the disk in memory holds. -/
theorem diskDriver_memoryDriver (nbd : NbdApi ν) (D : List UInt8) :
    SameReads (reads nbd D) (diskDriver nbd D.length) (memoryDriver D) where
  virtualSize := rfl
  readRange offset len := by
    intro world hworld
    obtain ⟨reader, hfill, hreader⟩ := hworld.fillRange offset len
    refine ⟨.ok (window (zeroExtended D) offset len), { world with reader }, ?_, hreader, rfl, rfl⟩
    show some ((world.reader.fillRange nbd false offset len).2,
      { world with reader := (world.reader.fillRange nbd false offset len).1 }) = _
    rw [hfill]
  recordCacheHit := fun world hworld => ⟨(), _, rfl, ⟨hworld.1, hworld.2⟩, rfl, rfl⟩

/-! ## Views of the disk -/

/-- A call on a view is answered as by the cursor. -/
theorem VirtualDisk.perform_disk {nbd : NbdApi ν} {base length chunkSize : ℕ} {disk : VirtualDisk}
    (hdisk : disk.View D base length chunkSize) (hview : base + length < 2^64)
    (hfit : chunkSize ≤ maxVecLen) (call : DiskCall) {world : World ν}
    (hworld : world.reader.Answers nbd D) : ∃ disk' after,
      ((disk.perform (diskDriver nbd D.length) call).run world).calm =
        some ((disk', (Cursor.answer D base length disk.position call).1), after) ∧
      disk'.View D base length chunkSize ∧
      disk'.position = (Cursor.answer D base length disk.position call).2 ∧
      after.reader.Answers nbd D ∧ after.progress = world.progress := by
  obtain ⟨⟨disk', answer⟩, after, hcalm, hafter, hprogress, hsame⟩ :=
    perform_same (diskDriver_memoryDriver nbd D) disk call world hworld
  have hspec := perform_spec (memoryDriver_serves D) hdisk hview call ()
  rw [← hsame] at hspec
  obtain ⟨hview', hanswer | ⟨⟨stop, -, hstop⟩, -⟩⟩ := hspec
  · obtain ⟨hanswer, hposition⟩ := Prod.mk.inj hanswer
    dsimp only at hanswer hposition hview'
    subst hanswer
    exact ⟨disk', after, hcalm, hview', hposition, hafter, hprogress⟩
  · exact (memoryDriver_stops hfit hstop).elim

/-- Two views of the same part of the disk, at the same position. -/
structure SameCursor (D : List UInt8) (chunkSize chunkSize' : ℕ) (disk disk' : VirtualDisk) :
    Prop where
  view : disk.View D disk.base disk.length chunkSize
  view' : disk'.View D disk.base disk.length chunkSize'
  position : disk.position = disk'.position
  inside : disk.base + disk.length < 2^64

/-- The chunk size of a fresh view. -/
def roundedChunkSize (chunkSize : ℕ) : ℕ := nextPowerOfTwo (max chunkSize 512)

/-- Up to `2^62`, chunks fit a vector. -/
theorem roundedChunkSize_le {chunkSize : ℕ} (h : chunkSize ≤ 2^62) :
    0 < roundedChunkSize chunkSize ∧ roundedChunkSize chunkSize ≤ maxVecLen := by
  have hmax : max chunkSize 512 ≤ 2^62 := max_le h (by norm_num)
  have hlow : 2^8 < max chunkSize 512 := by omega
  have hle : roundedChunkSize chunkSize ≤ 2^62 :=
    (nextPowerOfTwo_bounds hlow hmax (by norm_num)).2
  rw [maxVecLen]
  exact ⟨nextPowerOfTwo_pos (hmax.trans (by norm_num)), by omega⟩

section Sizes

variable {chunkSize chunkSize' : ℕ} (h : chunkSize ≤ 2^62) (h' : chunkSize' ≤ 2^62)

include h h'

/-- Two such views answer alike. -/
theorem sameViews_of_chunkSizes {nbd : NbdApi ν} {nbd' : NbdApi ν'} :
    SameViews (SameDisk nbd nbd' D)
      (SameCursor D (roundedChunkSize chunkSize) (roundedChunkSize chunkSize'))
      (diskDriver nbd D.length) (diskDriver nbd' D.length) where
  perform {disk disk'} call hsame world world' hworld := by
    obtain ⟨after, world₁, hcalm, hview, hposition, hanswers, hprogress⟩ :=
      VirtualDisk.perform_disk hsame.view hsame.inside (roundedChunkSize_le h).2 call hworld.answers
    obtain ⟨after', world₁', hcalm', hview', hposition', hanswers', hprogress'⟩ :=
      VirtualDisk.perform_disk hsame.view' hsame.inside (roundedChunkSize_le h').2 call
        hworld.answers'
    rw [← hsame.position] at hcalm' hposition'
    show Option.Rel _ ((disk.perform (diskDriver nbd D.length) call).run world).calm
      ((disk'.perform (diskDriver nbd' D.length) call).run world').calm
    rw [hcalm, hcalm']
    refine .some ⟨⟨rfl, ?_, ?_, hposition.trans hposition'.symm, ?_⟩, hanswers, hanswers', ?_⟩
    · rw [hview.base_eq, hview.length_eq]
      exact hview
    · rw [hview.base_eq, hview.length_eq]
      exact hview'
    · rw [hview.base_eq, hview.length_eq]
      exact hsame.inside
    · rw [hprogress, hprogress', hworld.progress]

/-- Fresh views of a part of the disk. -/
theorem sameCursor_new {start size : ℕ} (hinside : start + size < 2^64) :
    Option.Rel (SameCursor D (roundedChunkSize chunkSize) (roundedChunkSize chunkSize'))
      (VirtualDisk.new start size chunkSize) (VirtualDisk.new start size chunkSize') := by
  have hnew : ∀ {n : ℕ}, n ≤ 2^62 → ∃ disk, VirtualDisk.new start size n = some disk ∧
      disk.View D start size (roundedChunkSize n) ∧ disk.position = 0 := by
    intro n hn
    refine ⟨_, dif_pos (roundedChunkSize_le hn).1, ?_, rfl⟩
    exact ⟨rfl, rfl, rfl, by show 0 < _; norm_num, by simp⟩
  obtain ⟨disk, hdisk, hview, hposition⟩ := hnew h
  obtain ⟨disk', hdisk', hview', hposition'⟩ := hnew h'
  rw [hdisk, hdisk']
  refine .some ⟨?_, ?_, hposition.trans hposition'.symm, ?_⟩
  · rw [hview.base_eq, hview.length_eq]
    exact hview
  · rw [hview.base_eq, hview.length_eq]
    exact hview'
  · rw [hview.base_eq, hview.length_eq]
    exact hinside

end Sizes

/-! ## Inspections -/

namespace Inspection

variable {i : Inspection ν} {i' : Inspection ν'} {path path' : Path}

/-- The way an image of a disk is read, without failing calls on its files: natively, or through a
session of `qemu-nbd` that answers with the bytes of the disk. -/
structure Images (i : Inspection ν) (path : Path) (D : List UInt8) : Prop where
  files : i.FilesSound
  stored : Stored i.fs path D
  nonempty : D ≠ []
  session : i.options.forceNbd = true → i.SessionOf D

/-- The chunk size that an inspection goes on with. -/
def effectiveChunkSize (i : Inspection ν) : ℕ :=
  i.options.chunkSize.getD (if i.options.forceNbd then 512 * 1024 else 256 * 1024)

/-- Either way, the reader answers with the bytes of the disk. -/
theorem Images.opens (h : i.Images path D) : i.Opens path D i.effectiveChunkSize := by
  unfold effectiveChunkSize
  split
  · rename_i hforce
    exact opens_of_session h.files h.stored h.nonempty hforce (h.session hforce)
  · rename_i hnative
    exact opens_of_stored h.files h.stored h.nonempty (by simpa using hnative)

/-- What follows a detection reports its partitions. -/
theorem finishStages_partitions {image : ImageInfo} {chunkSize : ℕ}
    {found : Detector.DetectedDisk × DiskReader ν} {progress after : InspectionProgress}
    {report : InspectionReport}
    (h : calmFrom (i.finishStages image chunkSize found).run progress =
      some (.ok report, after)) : report.partitions = found.1.partitions := by
  unfold finishStages at h
  dsimp only at h
  obtain ⟨_, _, -, h⟩ := calmFrom_bind_ok h
  obtain ⟨_, _, -, h⟩ := calmFrom_bind_ok h
  obtain ⟨⟨result, reader⟩, mid, -, h⟩ := calmFrom_bind_ok h
  obtain ⟨_, _, -, h⟩ := calmFrom_bind_ok h
  obtain ⟨_, _, -, h⟩ := calmFrom_bind_ok h
  have hreport := (Prod.mk.inj (Option.some.inj h)).1
  rw [← Except.ok.inj hreport]

/-- A report comes from a detection and from what follows it. -/
theorem readStages_report {image : ImageInfo} {reader : DiskReader ν}
    {progress after : InspectionProgress} {report : InspectionReport}
    (h : calmFrom (i.readStages image reader).run progress = some (.ok report, after)) :
    ∃ found mid, calmFrom (i.detect reader).run ((progress.setStageId 2).setPercentage 25) =
        some (.ok found, mid) ∧
      calmFrom (i.finishStages image (i.chunkSizeOf reader) found).run mid =
        some (.ok report, after) := by
  rw [readStages_eq, calmFrom_bind_of_ok (a := ()) _ rfl] at h
  exact calmFrom_bind_ok h

/-- Two inspections of a disk, with any chunk sizes up to `2^62`, natively or through `qemu-nbd`:
when one of them returns a report, and no partition in it wraps around, then the other one returns a
report with the same findings when it is not disturbed, and any report that it returns has the same
findings. -/
theorem findings_of_chunkSizes (himages : i.Images path D) (himages' : i'.Images path' D)
    (hi : i.SameAnalysis i') (hchunk : i.effectiveChunkSize ≤ 2^62)
    (hchunk' : i'.effectiveChunkSize ≤ 2^62) {progress : InspectionProgress}
    (hclear : progress.cancelled = false) {moment : ℕ} {report : InspectionReport}
    {after : InspectionProgress}
    (hrun : ((i.inspect path progress).run moment).1 = some (.ok report, after))
    (hfits : ∀ p ∈ report.partitions, p.start + p.size < 2^64) :
    (∃ report', (i'.inspect path' progress).calm = some (.ok report', after) ∧
      report'.findings = report.findings) ∧
    ∀ {moment' : ℕ} {report' : InspectionReport} {after' : InspectionProgress},
      ((i'.inspect path' progress).run moment').1 = some (.ok report', after') →
      report'.findings = report.findings ∧ after' = after := by
  have hopens := himages.opens
  have hopens' := himages'.opens
  generalize i.effectiveChunkSize = chunkSize at hchunk hopens
  generalize i'.effectiveChunkSize = chunkSize' at hchunk' hopens'
  obtain ⟨image, reader, hcalm, hreader, rfl⟩ := calm_inspect hopens hclear
  obtain ⟨image', reader', hcalm', hreader', rfl⟩ := calm_inspect hopens' hclear
  have hreport := calm_of_report hrun
  rw [hcalm] at hreport
  obtain ⟨⟨disk, reader₁⟩, mid, hdetect, hfinish⟩ := readStages_report hreport
  rw [finishStages_partitions hfinish] at hfits
  have hother : ∃ report', (i'.inspect path' progress).calm = some (.ok report', after) ∧
      report'.findings = report.findings := by
    -- The other detection finds the same disk, whose views answer alike.
    obtain ⟨⟨_, reader₁'⟩, hdetect', rfl, hreaders⟩ :=
      engines_exceptT_ok (detect_same himages.files himages'.files ⟨hreader, hreader'⟩) hdetect
    have hsame : (engines.exceptT VmSpectError).relates
        (fun report report' => report.findings = report'.findings)
        (i.finishStages image _ (disk, reader₁)) (i'.finishStages image' _ (disk, reader₁')) :=
      finishStages_same himages.files himages'.files hi (sameViews_of_chunkSizes hchunk hchunk') hreaders
        fun p hp => sameCursor_new hchunk hchunk' (hfits p hp)
    obtain ⟨report', hfinish', hfindings⟩ := engines_exceptT_ok hsame hfinish
    refine ⟨report', ?_, hfindings.symm⟩
    rw [hcalm', readStages_eq, calmFrom_bind_of_ok (a := ()) _ rfl, calmFrom_bind_of_ok _ hdetect']
    exact hfinish'
  obtain ⟨report', hreport', hfindings⟩ := hother
  refine ⟨⟨report', hreport', hfindings⟩, fun {moment' report'' after'} hrun' => ?_⟩
  have hcalm' := calm_of_report hrun'
  rw [hreport'] at hcalm'
  cases hcalm'
  exact ⟨hfindings, rfl⟩

/-! ## A disk that is read through a session -/

/-- The descriptor of the sample disk, which is read through a session in chunks of 4096 bytes. -/
def sessionInspection : Inspection Unit where
  options := ⟨false, false, false, none, some 4096, true, none⟩
  fs := sampleFs
  env := ⟨fun _ => .ok emptyPath, [], .ok (), .ok (), [⟨.ok none, .ok ()⟩], none, ""⟩
  nbd := ⟨fun _ => sampleDisk.length,
    fun session offset len => (session, .ok (window (zeroExtended sampleDisk) offset len))⟩
  crates := noCrates

/-- The session answers with the bytes of the disk. -/
theorem sessionInspection_images : sessionInspection.Images samplePath sampleDisk where
  files := ⟨rfl, rfl⟩
  stored := sample_stored
  nonempty := sampleDisk_ne_nil
  session _ := ⟨emptyPath, (), rfl, rfl, rfl, fun backend => backend = .nbd (), rfl,
    fun _ hbackend _ _ _ => ⟨.nbd (), by rw [hbackend]; rfl, rfl⟩⟩

/-- The report of the raw image. -/
def rawReport : InspectionReport := unknownReport 1536 3 2048

/-- The raw image of the sample disk, and its descriptor through the session. -/
theorem findings_of_chunkSizes_sample :
    ((rawInspection.inspect emptyPath .new).run 18).1 =
        some (.ok rawReport, ⟨0, 1, 0, 1536, 100, 4, false⟩) ∧
      (∃ report', (sessionInspection.inspect samplePath .new).calm =
          some (.ok report', ⟨0, 1, 0, 1536, 100, 4, false⟩) ∧
        report'.findings = rawReport.findings) := by
  have hrun : ((rawInspection.inspect emptyPath .new).run 18).1 =
      some (.ok rawReport, ⟨0, 1, 0, 1536, 100, 4, false⟩) := by decide +kernel
  have himages : rawInspection.Images emptyPath sampleDisk :=
    ⟨⟨rfl, rfl⟩, rawFs_stored, sampleDisk_ne_nil, fun h => by cases h⟩
  exact ⟨hrun, (findings_of_chunkSizes himages sessionInspection_images ⟨rfl, ⟨rfl, rfl, rfl⟩⟩
    (by decide) (by decide) rfl hrun (by decide)).1⟩

end Inspection

end VmSpect
