import VmSpect.Engine.Inspection
import VmSpect.Parsers.LinuxGuests

/-!
# Cancelled inspections

What an inspection returns when its token is set while it runs. A run is given by the number of
looks at the token that still find it clear; the token never goes back.
-/

namespace VmSpect

open Polling Polling.Prog UnixPath

variable {ν α β : Type}

/-! ## The detection -/

namespace Detector

/-- How the detection fails once it sees the token set: its own looks say so with the kind of the
error, and a look of the reader is turned into an error of the kind `other` by `read_blocks`. -/
def cancelStop : Site → Option IoError → Prop
  | .detector, some e => e.kind = .interrupted
  | .read, some e => e.kind = .other
  | _, _ => False

section Stops

variable (nbd : NbdApi ν) (virtualSize : ℕ) (reads : ℕ → ℕ → Device)

/-- Code that returns is not stopped. -/
theorem pure_stops (a : α) : StopsFrom cancelStop (pure a : ExceptT IoError (Reading ν) α) :=
  fun _ => Settles.of_sites_nil rfl

/-- Nor is code that fails. -/
theorem throw_stops (e : IoError) :
    StopsFrom cancelStop (throw e : ExceptT IoError (Reading ν) α) :=
  fun _ => Settles.of_sites_nil rfl

/-- A read of the driver that sees the token set fails. -/
theorem readRange_settles (offset len : ℕ) (world : World ν) :
    Settles (fun site r => site = .read ∧ ∃ e after, r = some (.error e, after))
      ((diskDriver nbd virtualSize reads).readRange offset len world) :=
  Settles.load ⟨rfl, _, _, rfl⟩ (Settles.of_sites_nil rfl)

/-- `read_blocks`: the driver looks at the token. -/
theorem readBlocks_stops (bs index count : ℕ) :
    StopsFrom cancelStop (readBlocks (diskDriver nbd virtualSize reads) bs index count) := by
  intro world
  refine Settles.bind (readRange_settles nbd virtualSize reads _ _ world) ?_ ?_ ?_
  · rintro site ⟨-, e, after, h⟩
    cases h
  · rintro site r ⟨rfl, e, after, h⟩
    cases h
    rfl
  · rintro ⟨answer, after⟩
    cases answer <;> exact Settles.of_sites_nil rfl

/-- `check_cancelled`. -/
theorem checkCancelled_stops :
    StopsFrom cancelStop (checkCancelled (Reading.poll .detector : Reading ν Bool)) :=
  fun _ => Settles.load rfl (Settles.of_sites_nil rfl)

/-- The chain of extended partitions. -/
theorem readExtendedChain_stops (lbaExtended left lbaEbr : ℕ) (output : List Partition) :
    StopsFrom cancelStop
      (readExtendedChain (diskDriver nbd virtualSize reads) lbaExtended left lbaEbr output) := by
  induction left generalizing lbaEbr output with
  | zero => exact pure_stops output
  | succ left ih =>
    refine (readBlocks_stops nbd virtualSize reads sector lbaEbr 1).bind fun ebr => ?_
    split
    · exact pure_stops output
    · dsimp only
      split
      · exact pure_stops _
      · exact ih _ _

/-- The entries of an MBR. -/
theorem readMbrEntries_stops (mbr : List UInt8) (entries : List ℕ) (output : List Partition) :
    StopsFrom cancelStop (readMbrEntries (diskDriver nbd virtualSize reads) mbr entries output) := by
  induction entries generalizing output with
  | nil => exact pure_stops output
  | cons i rest ih =>
    unfold readMbrEntries
    dsimp only
    split
    · exact ih output
    · split
      · exact (readExtendedChain_stops nbd virtualSize reads _ _ _ _).bind fun output => ih output
      · exact ih _

/-- `read_gpt`. -/
theorem readGpt_stops (header : List UInt8) :
    StopsFrom cancelStop (readGpt (diskDriver nbd virtualSize reads) header) := by
  unfold readGpt
  dsimp only
  split
  · exact throw_stops _
  · exact (readBlocks_stops nbd virtualSize reads _ _ _).bind fun table => pure_stops _

/-- `identify_linux_fs`. -/
theorem identifyLinuxFs_stops (start : ℕ) :
    StopsFrom cancelStop (identifyLinuxFs (diskDriver nbd virtualSize reads) start) := by
  refine (readBlocks_stops nbd virtualSize reads _ _ _).bind fun sb => ?_
  split
  · exact pure_stops _
  · refine (readBlocks_stops nbd virtualSize reads _ _ _).bind fun sbBtrfs => ?_
    split
    · exact pure_stops _
    · refine (readBlocks_stops nbd virtualSize reads _ _ _).bind fun page => ?_
      split <;> exact pure_stops _

/-- The partition table. -/
theorem readTable_stops (header : List UInt8) :
    StopsFrom cancelStop (readTable (diskDriver nbd virtualSize reads) header) := by
  unfold readTable
  dsimp only
  split
  · exact (readGpt_stops nbd virtualSize reads _).bind fun partitions => pure_stops _
  · split
    · refine (readMbrEntries_stops nbd virtualSize reads _ _ _).bind fun entries => ?_
      split <;> exact pure_stops _
    · exact pure_stops _

/-- The file system of a partition. -/
theorem probe_stops (p : Partition) :
    StopsFrom cancelStop (probe (diskDriver nbd virtualSize reads) p) := by
  unfold probe
  split
  · refine (readBlocks_stops nbd virtualSize reads _ _ _).bind fun firstSector => ?_
    split
    · split
      · exact (identifyLinuxFs_stops nbd virtualSize reads _).bind fun kind => pure_stops _
      · exact pure_stops _
    · exact pure_stops p
  · exact pure_stops p

/-- The loop over the partitions. -/
theorem probeAll_stops (increment : World ν → World ν) (partitions : List Partition) :
    StopsFrom cancelStop (probeAll (diskDriver nbd virtualSize reads) (Reading.poll .detector)
      (modify increment) partitions) := by
  induction partitions with
  | nil => exact pure_stops []
  | cons p rest ih =>
    refine checkCancelled_stops.bind fun _ => ?_
    refine (probe_stops nbd virtualSize reads p).bind fun probed => ?_
    refine StopsFrom.bind (fun _ => Settles.of_sites_nil rfl) fun _ => ?_
    exact ih.bind fun others => pure_stops _

/-- The whole detection stops at the first look that finds the token set. -/
theorem detectWithProgress_stops (increment : World ν → World ν) :
    StopsFrom cancelStop (detectWithProgress (diskDriver nbd virtualSize reads) (Reading.poll .detector)
      (modify increment)) := by
  refine checkCancelled_stops.bind fun _ => ?_
  refine (readBlocks_stops nbd virtualSize reads _ _ _).bind fun header => ?_
  split
  · exact throw_stops _
  · refine (readTable_stops nbd virtualSize reads header).bind fun table => ?_
    refine checkCancelled_stops.bind fun _ => ?_
    exact (probeAll_stops nbd virtualSize reads increment table.2).bind fun probed => pure_stops _

end Stops

end Detector

/-! ## Opening a session -/

/-- The error of a load that sees the token set while a session is opened. -/
def nbdCancelStop (_site : Site) (stop : Option IoError) : Prop :=
  ∃ e, stop = some e ∧ e.kind = .interrupted

/-- `NbdSessionPermit::acquire`. -/
theorem acquirePermit_settles (fullSlots : List Bool) :
    Settles (Fits nbdCancelStop) (acquirePermit fullSlots) := by
  induction fullSlots with
  | nil => exact Settles.of_sites_nil rfl
  | cons expired rest ih =>
    refine Settles.load ⟨_, rfl, rfl⟩ ?_
    cases expired with
    | true => exact Settles.of_sites_nil rfl
    | false => exact ih

/-- The connection loop. -/
theorem connectLoop_settles (path : Path) (attempts : List (NbdAttempt ν)) (last : Option IoError) :
    Settles (Fits nbdCancelStop) (connectLoop path attempts last) := by
  induction attempts generalizing last with
  | nil => exact Settles.of_sites_nil rfl
  | cons attempt rest ih =>
    refine Settles.load ⟨_, rfl, rfl⟩ ?_
    split
    · exact Settles.of_sites_nil rfl
    · exact Settles.of_sites_nil rfl
    · split
      · exact Settles.of_sites_nil rfl
      · split
        · exact ih _
        · exact Settles.of_sites_nil rfl

/-- `NbdReader::open_with_options`. -/
theorem openNbd_stops (env : NbdEnvironment ν) (path : Path) (options : Options) :
    Stops nbdCancelStop (openNbd env path options) := by
  refine Settles.load ⟨_, rfl, rfl⟩ ?_
  show Stops nbdCancelStop _
  refine Stops.bind (acquirePermit_settles env.fullSlots) fun _ => ?_
  refine Stops.bind (Settles.of_sites_nil rfl) fun _ => ?_
  refine Stops.bind (Settles.of_sites_nil rfl) fun _ => ?_
  refine Stops.bind (connectLoop_settles path env.attempts none) fun session => ?_
  cases session with
  | ok session => exact Settles.of_sites_nil rfl
  | error last =>
    dsimp only
    split <;> exact Settles.of_sites_nil rfl

/-- A computation without loads. -/
theorem ofStop_sites {ι ε : Type} (result : Except (Stop ε) α) :
    (ofStop result : ExceptT ε (Prog ι) α).run.sites = [] := by
  rcases result with (e | -) | a <;> rfl

/-- A reader that is not opened because of the token is not opened with `Cancelled`. -/
theorem openWithOptionsDiagnostic_stops (fs : FileSystem) (env : NbdEnvironment ν) (nbd : NbdApi ν)
    (info : ImageInfo) (options : Options) (devices : Devices) :
    Stops (fun _ stop => stop = some .cancelled)
      (openWithOptionsDiagnostic fs env nbd info options devices) := by
  unfold openWithOptionsDiagnostic
  split
  · refine Stops.bind (Settles.of_sites_nil (ofStop_sites _)) fun _ => ?_
    refine Stops.bind (Settles.of_sites_nil rfl) fun path => ?_
    refine Stops.bind ?_ fun session => Settles.of_sites_nil rfl
    refine Settles.bind (openNbd_stops env path options) ?_ ?_ fun _ => Settles.of_sites_nil rfl
    · rintro site ⟨e, h, -⟩
      cases h
    · rintro site r h
      cases r with
      | ok session => exact h.elim
      | error e =>
        obtain ⟨e', he, hkind⟩ := h
        cases he
        show some (nbdErrorToVm e) = some .cancelled
        rw [nbdErrorToVm, if_pos hkind]
  · exact Settles.of_sites_nil (ofStop_sites _)

/-! ## The stages of the engine -/

/-- How an inspection fails by the look that finds the token set: with `Cancelled`, unless the look
is one of a read of the detection, or one of the analysis after which a crate panics. -/
def Look.cancelStop : Look → Option VmSpectError → Prop
  | .detection .read, stop => ∃ e : IoError, stop = some (.io e)
  | .analysis _, stop => stop = none ∨ stop = some .cancelled
  | _, stop => stop = some .cancelled

/-- An error that fits any other look is `Cancelled`. -/
theorem Look.cancelled_of_stop {look : Look} {e : VmSpectError} (hlook : look ≠ .detection .read)
    (h : look.cancelStop (some e)) : e = .cancelled := by
  rcases look with _ | site | site | site
  · exact Option.some_inj.mp h
  · exact Option.some_inj.mp h
  · cases site with
    | read => exact absurd rfl hlook
    | _ => exact Option.some_inj.mp h
  · rcases h with h | h
    · cases h
    · exact Option.some_inj.mp h

/-- The looks of `is_cancelled`: the second one is made when neither the first one nor the flag of
the progress says that the inspection is cancelled. -/
theorem isCancelled_run (progress : InspectionProgress) :
    isCancelled.run progress = .load .engine fun seen =>
      if seen || progress.cancelled then .done (true, progress)
      else .load .engine fun seen => .done (seen, progress) := by
  refine congrArg _ (funext fun seen => ?_)
  cases seen with
  | true => rfl
  | false =>
    show (if progress.cancelled then pure true else StateT.lift (Prog.poll .engine) : EngineM Bool)
      progress = _
    cases progress.cancelled <;> rfl

/-- A look at the token by the engine answers that it is set. -/
theorem isCancelled_settles (progress : InspectionProgress) :
    Settles (fun look r => look = .engine ∧ r.map Prod.fst = some true)
      (isCancelled.run progress) := by
  rw [isCancelled_run]
  refine Settles.load ⟨rfl, rfl⟩ ?_
  rw [Bool.false_or]
  split
  · exact Settles.of_sites_nil rfl
  · exact Settles.load ⟨rfl, rfl⟩ (Settles.of_sites_nil rfl)

/-- What follows a look at the token by the engine. -/
theorem isCancelled_bind_stops {f : Bool → ExceptT VmSpectError EngineM α}
    (htrue : f true = throw .cancelled) (hfalse : StopsFrom Look.cancelStop (f false)) :
    StopsFrom Look.cancelStop (ExceptT.lift isCancelled >>= f) := by
  refine StopsFrom.lift_bind isCancelled_settles ?_ ?_ ?_
  · rintro look ⟨-, h⟩
    cases h
  · rintro look answer progress ⟨rfl, h⟩
    cases h
    rw [htrue]
    rfl
  · rintro (_ | _)
    · exact hfalse
    · rw [htrue]
      exact fun _ => Settles.of_sites_nil rfl

/-- The engine stops when it is cancelled. -/
theorem ensureNotCancelled_stops : StopsFrom Look.cancelStop ensureNotCancelled :=
  isCancelled_bind_stops rfl fun _ => Settles.of_sites_nil rfl

/-- A stage that reads the image, by its own looks. -/
theorem withReader_settles {look : Site → Look} {P : Look → Option α → Prop}
    {reader : DiskReader ν} {stage : Reading ν α} {progress : InspectionProgress}
    (h : Settles (fun site r => P (look site) (r.map Prod.fst)) (stage.run ⟨reader, progress⟩)) :
    Settles (fun l r => P l (r.map fun done => done.1.1))
      ((withReader look reader stage).run progress) := by
  have hmap : Settles (fun l r => P l (r.map Prod.fst))
      ((stage.run ⟨reader, progress⟩).mapSites look) := Settles.mapSites h
  exact hmap.bind (fun _ h => h) (fun _ _ h => h) fun _ => Settles.of_sites_nil rfl

/-- The detection ended with an error that fits a look of its own. -/
def Inspection.DetectionStopped (look : Look) (r : Option (Except IoError Detector.DetectedDisk)) :
    Prop :=
  ∃ site e, look = .detection site ∧ Detector.cancelStop site (some e) ∧ r = some (.error e)

/-- What the engine makes of an error of the detection. -/
theorem Inspection.DetectionStopped.classify {e : IoError} {site : Site}
    (h : Detector.cancelStop site (some e)) :
    if e.kind = .interrupted then Look.cancelStop (.detection site) (some .cancelled)
    else Look.cancelStop (.detection site) (some (.io e)) := by
  cases site with
  | detector =>
    rw [if_pos (show e.kind = .interrupted from h)]
    rfl
  | read =>
    have hkind : e.kind = .other := h
    rw [if_neg (by rw [hkind]; decide)]
    exact ⟨e, rfl⟩
  | _ => exact h.elim

/-- The detection. -/
theorem Inspection.detect_stops (i : Inspection ν) (reader : DiskReader ν) :
    StopsFrom Look.cancelStop (i.detect reader) := by
  refine StopsFrom.lift_bind (fun progress => withReader_settles (P := DetectionStopped) ?_)
    ?_ ?_ ?_
  · -- Inside of the detection.
    refine (Detector.detectWithProgress_stops i.nbd reader.virtualSize i.reads _ _).mono ?_
    intro site r hfit
    match r, hfit with
    | some (.error e, world), hfit => exact ⟨site, e, rfl, hfit, rfl⟩
    | none, hfit => cases site <;> exact hfit.elim
  · rintro look ⟨site, e, -, -, h⟩
    cases h
  · -- The error of the detection is told apart by its kind, and the token is still set.
    rintro look ⟨detected, reader⟩ progress ⟨site, e, rfl, hstop, h⟩
    cases h
    have hclass := DetectionStopped.classify hstop
    dsimp only
    split at hclass
    · rename_i hkind
      simp only [if_pos hkind]
      exact hclass
    · rename_i hkind
      simp only [if_neg hkind]
      exact hclass
  · rintro ⟨detected, reader⟩
    cases detected with
    | ok disk => exact fun _ => Settles.of_sites_nil rfl
    | error e =>
      dsimp only
      split
      · exact isCancelled_bind_stops rfl fun _ => Settles.of_sites_nil rfl
      · exact fun _ => Settles.of_sites_nil rfl

/-- Code without a state, as a step of the engine. -/
theorem lift_stops {bad : Look → Option VmSpectError → Prop} {p : Prog Look (Except VmSpectError α)}
    (h : Settles (Fits bad) p) :
    StopsFrom bad (ExceptT.mk (StateT.lift p) : ExceptT VmSpectError EngineM α) :=
  fun _ => h.bind (fun _ h => h) (fun _ _ h => h) fun _ => Settles.of_sites_nil rfl

namespace Inspection

/-- The stages up to the open reader. -/
theorem openStages_stops (i : Inspection ν) (path : Path) :
    StopsFrom Look.cancelStop (i.openStages path) := by
  refine StopsFrom.bind (fun _ => Settles.of_sites_nil rfl) fun _ => ?_
  refine ensureNotCancelled_stops.bind fun _ => ?_
  refine StopsFrom.bind (fun _ => Settles.of_sites_nil rfl) fun _ => ?_
  refine StopsFrom.bind (lift_stops (Settles.of_sites_nil ?_)) fun image => ?_
  · rcases (identifyImage i.fs path i.devices).result with (e | -) | image <;> rfl
  refine ensureNotCancelled_stops.bind fun _ => ?_
  refine StopsFrom.bind (fun _ => Settles.of_sites_nil rfl) fun _ => ?_
  refine StopsFrom.bind (lift_stops (Settles.mapSites ?_)) fun reader => ?_
  · exact openWithOptionsDiagnostic_stops i.fs i.env i.nbd image i.options i.devices
  exact ensureNotCancelled_stops.bind fun _ _ => Settles.of_sites_nil rfl

/-- The stages that read the image. An analysis that sees the token set may return anything, but the
look after it fails. -/
theorem readStages_stops (i : Inspection ν) (image : ImageInfo) (reader : DiskReader ν) :
    StopsFrom Look.cancelStop (i.readStages image reader) := by
  refine StopsFrom.bind (fun _ => Settles.of_sites_nil rfl) fun _ => ?_
  refine (i.detect_stops reader).bind fun detected => ?_
  refine ensureNotCancelled_stops.bind fun _ => ?_
  refine StopsFrom.bind (fun _ => Settles.of_sites_nil rfl) fun _ => ?_
  refine StopsFrom.lift_bind (fun progress => withReader_settles
    (P := fun look _ => ∃ site, look = .analysis site) ?_) ?_ ?_ ?_
  · exact fun left site hsite => ⟨site, rfl⟩
  · rintro look ⟨site, rfl⟩
    exact Or.inl rfl
  · rintro look analyzed progress ⟨site, rfl⟩
    exact Or.inr rfl
  · exact fun analyzed => ensureNotCancelled_stops.bind fun _ _ => Settles.of_sites_nil rfl

/-- A whole inspection. -/
theorem runInspection_stops (i : Inspection ν) (path : Path) :
    StopsFrom Look.cancelStop (i.runInspection path) :=
  (i.openStages_stops path).bind fun opened => i.readStages_stops opened.1 opened.2

/-- A whole inspection from a state of the progress, as a program that looks at the token. -/
def inspect (i : Inspection ν) (path : Path) (progress : InspectionProgress) :
    Prog Look (Except VmSpectError InspectionReport × InspectionProgress) :=
  (i.runInspection path).run.run progress

/-- A run in which a look finds the token set fails as that look says. -/
theorem inspect_fits (i : Inspection ν) (path : Path) (progress : InspectionProgress) {moment : ℕ}
    {look : Look} (h : (i.inspect path progress).sites[moment]? = some look) :
    Fits Look.cancelStop look (((i.inspect path progress).run moment).1.map Prod.fst) :=
  i.runInspection_stops path progress moment look h

end Inspection

/-! ## An empty image -/

/-- A raw image of one empty sector. -/
def emptySector : List UInt8 := List.replicate 512 0

/-- The path of the image. -/
def emptyPath : Path := Path.ofText "disk.raw".toList

/-- A file system with the image. -/
def emptyFs : FileSystem := .single emptyPath emptySector (by decide +kernel)

/-- Crates that find no file system. -/
def noCrates : Crates where
  ext4 := ⟨Unit, Unit, Unit, Unit, .ret (.error "BadMagic"), fun _ _ => .panic, fun _ _ => .panic,
    fun _ _ => .panic, fun _ => .panic⟩
  ntfs := ⟨Unit, Unit, Unit, Unit, Unit, Unit, Unit, Unit, .ret (.error "InvalidBootSignature"),
    fun _ => .panic, fun _ => .panic, fun _ => .panic, fun _ _ _ => .panic, fun _ _ => .panic,
    fun _ => false, fun _ _ => .panic, fun _ => .error "", fun _ => .panic, fun _ => 0,
    fun _ => .panic, fun _ _ => .panic, fun _ => (), fun _ => .panic, fun _ => 0⟩
  hive := ⟨Unit, Unit, Unit, fun _ => none, fun _ => none, fun _ => none, fun _ => [], fun _ => [],
    fun _ => none, fun _ => none, fun _ => none⟩

/-- The default inspection of the image. -/
def emptyInspection : Inspection Unit where
  options := ⟨false, false, false, none, none, false, none⟩
  fs := emptyFs
  env := ⟨fun _ => .error ⟨.notFound, "qemu-nbd"⟩, [], .ok (), .ok (), [], none, ""⟩
  nbd := ⟨fun _ => 0, fun _ _ _ => ((), .ok [])⟩
  crates := noCrates

/-- The report of a raw image of this size without a file system, after so many reads. -/
def unknownReport (size readOperations bytesRead : ℕ) : InspectionReport where
  image := ⟨emptyPath, .raw, size, size, .unknown⟩
  scheme := .none
  partitions := [⟨0, 0, size, "Volume without a partition table", .unknown, none⟩]
  operatingSystem := .unknown
  guestInfo := { osName := "Unknown operating system".toList }
  installedPrograms := []
  warnings := []
  stats := ⟨"direct-read (raw)", "unclassified", none, 0, readOperations, 0, bytesRead⟩

/-- The report of the image. -/
def emptyReport : InspectionReport := unknownReport 512 2 1024

/-- The progress after the report. -/
def emptyAfter : InspectionProgress := ⟨0, 1, 0, 512, 100, 4, false⟩

/-! ## A Linux guest -/

/-- A small ext volume that is a whole disk. -/
def linuxVolume : List UInt8 := List.replicate 1080 0 ++ [0x53, 0xEF] ++ List.replicate 966 0

/-- It is short enough to be a file. -/
theorem linuxVolume_lt : linuxVolume.length < 2^63 := by decide +kernel

/-- A file system with the volume as a raw image. -/
def linuxFs : FileSystem := .single emptyPath linuxVolume linuxVolume_lt

/-- The default inspection of the volume, in which the crate finds the files of a guest. -/
def linuxInspection : Inspection Unit :=
  { emptyInspection with fs := linuxFs, crates := { noCrates with ext4 := Linux.boxExt4 } }

/-- The report of the guest. -/
def linuxReport : InspectionReport where
  image := ⟨emptyPath, .raw, 2048, 2048, .unknown⟩
  scheme := .none
  partitions := [⟨0, 0, 2048, "Volume without a partition table", .ext2, none⟩]
  operatingSystem := .linux
  guestInfo := Linux.box.reported.guestInfo
  installedPrograms := Linux.box.reported.programs
  warnings := []
  stats := ⟨"direct-read (raw)", "unclassified", none, 0, 3, 0, 2560⟩

/-- The progress after this report. -/
def linuxAfter : InspectionProgress := ⟨0, 1, 0, 2048, 100, 4, false⟩

/-! ## What a cancelled inspection returns -/

namespace Inspection

/-- A report is returned only when no look has found the token set, so it is the report of the run
in which the token is never set. -/
theorem report_complete (i : Inspection ν) (path : Path) (progress : InspectionProgress)
    (moment : ℕ) {report : InspectionReport} {after : InspectionProgress}
    (h : ((i.inspect path progress).run moment).1 = some (.ok report, after)) :
    (i.inspect path progress).calm = some (.ok report, after) := by
  by_cases hlt : moment < (i.inspect path progress).sites.length
  · have hfits := i.inspect_fits path progress (List.getElem?_eq_getElem hlt)
    rw [h] at hfits
    exact hfits.elim
  · rw [(i.inspect path progress).run_of_sites_le (by omega)] at h
    exact h

/-- The loop over the package database of the guest looks at the token. Its report is the same when
the token is set after the last look. -/
theorem report_complete_guest :
    Look.analysis .dpkg ∈ (linuxInspection.inspect emptyPath .new).sites ∧
      ((linuxInspection.inspect emptyPath .new).run 19).1 = some (.ok linuxReport, linuxAfter) ∧
      (linuxInspection.inspect emptyPath .new).calm = some (.ok linuxReport, linuxAfter) := by
  have hrun : ((linuxInspection.inspect emptyPath .new).run 19).1 =
      some (.ok linuxReport, linuxAfter) := by decide +kernel
  exact ⟨by decide +kernel, hrun, report_complete linuxInspection emptyPath .new 19 hrun⟩

/-- Of an image that is inspected when nobody cancels, a cancelled inspection returns no error but
`Cancelled` exactly when the first look that finds the token set is not one of a read of the
detection. -/
theorem only_cancelled_iff (i : Inspection ν) (path : Path) (progress : InspectionProgress)
    (moment : ℕ) {report : InspectionReport} {after : InspectionProgress}
    (hcalm : (i.inspect path progress).calm = some (.ok report, after)) :
    (∀ e later, ((i.inspect path progress).run moment).1 = some (.error e, later) →
      e = .cancelled) ↔
        (i.inspect path progress).sites[moment]? ≠ some (.detection .read) := by
  constructor
  · -- A read of the detection that sees the token fails the inspection with an I/O error.
    intro honly hlook
    have hfits := i.inspect_fits path progress hlook
    match hrun : ((i.inspect path progress).run moment).1 with
    | none =>
      rw [hrun] at hfits
      obtain ⟨e, he⟩ := hfits
      cases he
    | some (.ok report, later) =>
      rw [hrun] at hfits
      exact hfits
    | some (.error e, later) =>
      rw [hrun] at hfits
      obtain ⟨source, he⟩ := hfits
      have hcancelled := honly e later hrun
      rw [Option.some_inj.mp he] at hcancelled
      cases hcancelled
  · -- The token is set at one of the looks, which tells the error, or after the last one, when the
    -- inspection returns its report.
    intro hlook e later hrun
    by_cases hlt : moment < (i.inspect path progress).sites.length
    · rw [List.getElem?_eq_getElem hlt] at hlook
      have hfits := i.inspect_fits path progress (List.getElem?_eq_getElem hlt)
      rw [hrun] at hfits
      exact (i.inspect path progress).sites[moment].cancelled_of_stop (by simpa using hlook) hfits
    · rw [(i.inspect path progress).run_of_sites_le (by omega), hcalm] at hrun
      cases hrun

/-- The empty image, with the token set before the last look. -/
theorem only_cancelled_iff_empty :
    (emptyInspection.inspect emptyPath .new).calm = some (.ok emptyReport, emptyAfter) ∧
      ((∀ e later, ((emptyInspection.inspect emptyPath .new).run 17).1 = some (.error e, later) →
        e = .cancelled) ↔
          (emptyInspection.inspect emptyPath .new).sites[17]? ≠ some (.detection .read)) := by
  have hcalm : (emptyInspection.inspect emptyPath .new).calm =
      some (.ok emptyReport, emptyAfter) := by decide +kernel
  exact ⟨hcalm, only_cancelled_iff emptyInspection emptyPath .new 17 hcalm⟩

/-- A token that is set before the first read of the detection makes the inspection of the empty
image fail with an I/O error. -/
theorem not_only_cancelled :
    (emptyInspection.inspect emptyPath .new).calm = some (.ok emptyReport, emptyAfter) ∧
      ¬ ∀ e later, ((emptyInspection.inspect emptyPath .new).run 7).1 = some (.error e, later) →
        e = .cancelled := by
  refine ⟨by decide +kernel, fun honly => ?_⟩
  have hrun : ((emptyInspection.inspect emptyPath .new).run 7).1 =
      some (.error (.io ⟨.other, "I/O error: Analysis cancelled by the user"⟩),
        ⟨0, 0, 0, 512, 25, 2, false⟩) := by decide +kernel
  have hcancelled := honly _ _ hrun
  cases hcancelled

end Inspection

end VmSpect
