import VmSpect.Lib.Notifying
import VmSpect.Engine.Cancellation

/-!
# The events of an inspection

`inspect_with_progress` of `src/engine/mod.rs` runs an inspection with a callback, which is told
about every stage before it begins. The code is that of `run_inspection` with the calls of the
callback in their places. What the callback does is up to its owner; the inspection goes on in the
same way. Sizes are shown by `format_bytes`, which computes with floating point numbers and is a
parameter here.

The callback takes no part in the inspection, and its events are the beginning of one fixed list of
percentages and stages. They are the whole list, for the system that is reported, exactly when a
report is returned (`inspectWithProgress_events`).
-/

namespace VmSpect

open Polling UnixPath

variable {ν α : Type}

/-- `InspectionProgressEvent`. -/
structure InspectionProgressEvent where
  percentage : ℕ
  stage : String
  detail : Option String
  deriving DecidableEq, Repr

/-- What tells an event apart: its percentage and its stage. -/
def InspectionProgressEvent.key (event : InspectionProgressEvent) : ℕ × String :=
  (event.percentage, event.stage)

/-- `Hypervisor::name`. -/
def Hypervisor.name : Hypervisor → String
  | vmware => "VMware"
  | virtualBox => "VirtualBox"
  | hyperV => "Hyper-V / Virtual PC"
  | qemu => "QEMU / KVM"
  | unknown => "Unknown (raw image or other)"

/-- An operating system as its `Debug` shows it. -/
def OperatingSystem.debug : OperatingSystem → String
  | windows => "Windows"
  | linux => "Linux"
  | unknown => "Unknown"

/-- Code of the engine that calls the callback. -/
abbrev Observed := Notifying InspectionProgressEvent VmSpectError InspectionProgress Look

namespace Inspection

section Model

variable (formatBytes : ℕ → String) (i : Inspection ν)

/-- The stages up to the open reader. -/
def openObserved (path : Path) : Observed (ImageInfo × DiskReader ν) := do
  let _size ← quietly (ExceptT.mk (pure
    ((i.fs.stat path (i.devices .image)).mapError (pathError path))))
  quietly ensureNotCancelled
  quietly (modify fun progress => (progress.setStageId 1).setPercentage 5)
  notify ⟨5, "Identifying disk image", some s!"Analyzing {path.display}"⟩
  let image ← quietly (ExceptT.mk (StateT.lift ((·.mapError (pathError path)) <$>
    (ofStop (identifyImage i.fs path i.devices).result).run)))
  quietly ensureNotCancelled
  quietly (modify fun progress => (progress.setTotalBytes image.virtualSize).setPercentage 15)
  notify ⟨15, "Initializing read backend", some (s!"Format: {image.format.name} | Hypervisor: " ++
    s!"{image.hypervisor.name} | Size: {formatBytes image.virtualSize}")⟩
  if i.options.forceNbd then
    notify ⟨15, "Explicit external backend enabled", some ("Warning: qemu-nbd will be launched as " ++
      "an explicitly requested, read-only helper. It does not mount or attach the image in the " ++
      "host OS.")⟩
  let reader ← quietly (ExceptT.mk (StateT.lift
    ((openWithOptionsDiagnostic i.fs i.env i.nbd image i.options i.devices).run.mapSites
      .opening)))
  quietly ensureNotCancelled
  pure (image, reader)

/-- The stages that read the image. -/
def readObserved (image : ImageInfo) (reader : DiskReader ν) : Observed InspectionReport := do
  let chunkSize := i.options.chunkSize.getD reader.recommendedChunkSize
  quietly (modify fun progress => (progress.setStageId 2).setPercentage 25)
  notify ⟨25, "Reading partition table", some (s!"Access: {reader.stats.accessMode} | " ++
    s!"Chunk size: {formatBytes chunkSize}")⟩
  let (disk, reader) ← quietly (i.detect reader)
  quietly ensureNotCancelled
  quietly (modify fun progress => progress.setPercentage 45)
  notify ⟨45, "Analyzing file systems", some (s!"{disk.partitions.length} partitions found. " ++
    s!"OS detected: {disk.operatingSystem.debug}")⟩
  quietly (modify fun progress => (progress.setStageId 3).setPercentage 55)
  notify ⟨55, s!"Analyzing operating system ({disk.operatingSystem.debug})",
    some "Starting system files / Registry scan"⟩
  let (result, reader) ← quietly (ExceptT.lift
    (withReader .analysis reader (i.analysisStage reader disk chunkSize)))
  quietly ensureNotCancelled
  quietly (modify fun progress => (progress.setStageId 4).setPercentage 90)
  notify ⟨90, "Generating final report",
    some s!"{result.programs.length} programs/packages identified"⟩
  quietly (modify fun progress => progress.setPercentage 100)
  notify ⟨100, "Analysis completed successfully", some (s!"Backend: {reader.stats.accessMode} | " ++
    s!"Reads: {reader.stats.readOperations} | Bytes: {formatBytes reader.stats.bytesRead} | " ++
    s!"Cache hits: {reader.stats.cacheHits}")⟩
  pure {
    image
    scheme := disk.scheme
    partitions := disk.partitions
    operatingSystem := disk.operatingSystem
    guestInfo := result.guestInfo
    installedPrograms := result.programs
    warnings := result.warnings
    stats := reader.stats }

/-- `inspect_with_progress`. -/
def inspectWithProgress (path : Path) : Observed InspectionReport := do
  let (image, reader) ← i.openObserved formatBytes path
  i.readObserved formatBytes image reader

end Model

/-! ## Without the callback -/

variable (formatBytes : ℕ → String) (i : Inspection ν)

/-- The open stages and any code after them, without the callback. -/
theorem openObserved_silences (path : Path) {f : ImageInfo × DiskReader ν → Observed α}
    {g : ImageInfo × DiskReader ν → ExceptT VmSpectError EngineM α}
    (h : ∀ opened, Silences (f opened) (g opened)) :
    Silences (i.openObserved formatBytes path >>= f) (i.openStages path >>= g) := by
  unfold openObserved openStages
  simp only [bind_assoc]
  refine Silences.quietly_bind fun _ => Silences.quietly_bind fun _ =>
    Silences.quietly_bind fun _ => Silences.notify_bind ?_
  refine Silences.quietly_bind fun image => Silences.quietly_bind fun _ =>
    Silences.quietly_bind fun _ => Silences.notify_bind ?_
  have hrest : Silences
      (quietly (ExceptT.mk (StateT.lift
          ((openWithOptionsDiagnostic i.fs i.env i.nbd image i.options i.devices).run.mapSites
            .opening))) >>=
        fun reader => quietly ensureNotCancelled >>= fun _ => pure (image, reader) >>= f)
      (ExceptT.mk (StateT.lift
          ((openWithOptionsDiagnostic i.fs i.env i.nbd image i.options i.devices).run.mapSites
            .opening)) >>=
        fun reader => ensureNotCancelled >>= fun _ => pure (image, reader) >>= g) := by
    refine Silences.quietly_bind fun reader => Silences.quietly_bind fun _ => ?_
    rw [pure_bind, pure_bind]
    exact h (image, reader)
  split
  · simp only [bind_assoc]
    exact Silences.notify_bind hrest
  · simp only [bind_assoc]
    exact hrest

/-- The stages that read the image, without the callback. -/
theorem readObserved_silences (image : ImageInfo) (reader : DiskReader ν) :
    Silences (i.readObserved formatBytes image reader) (i.readStages image reader) := by
  -- Two updates of the progress around an event are one.
  have hmodify : ∀ (g g' : InspectionProgress → InspectionProgress)
      (x : ExceptT VmSpectError EngineM InspectionReport),
      (modify (g' ∘ g) >>= fun _ => x) = (modify g >>= fun _ => modify g' >>= fun _ => x) :=
    fun _ _ _ => rfl
  unfold readObserved readStages
  refine Silences.quietly_bind fun _ => Silences.notify_bind ?_
  refine Silences.quietly_bind fun found => Silences.quietly_bind fun _ => ?_
  rw [show (fun progress : InspectionProgress => ((progress.setPercentage 45).setStageId
    3).setPercentage 55) = (fun progress => (progress.setStageId 3).setPercentage 55) ∘
      fun progress => progress.setPercentage 45 from rfl, hmodify]
  refine Silences.quietly_bind fun _ => Silences.notify_bind ?_
  refine Silences.quietly_bind fun _ => Silences.notify_bind ?_
  refine Silences.quietly_bind fun analyzed => Silences.quietly_bind fun _ => ?_
  rw [show (fun progress : InspectionProgress => ((progress.setStageId 4).setPercentage
    90).setPercentage 100) = (fun progress => progress.setPercentage 100) ∘
      fun progress => (progress.setStageId 4).setPercentage 90 from rfl, hmodify]
  refine Silences.quietly_bind fun _ => Silences.notify_bind ?_
  exact Silences.quietly_bind fun _ => Silences.notify_bind (Silences.pure _)

/-- The callback takes no part in an inspection. -/
theorem inspectWithProgress_silences (path : Path) :
    Silences (i.inspectWithProgress formatBytes path) (i.runInspection path) :=
  i.openObserved_silences formatBytes path fun opened =>
    i.readObserved_silences formatBytes opened.1 opened.2

/-! ## What the callback is told -/

/-- The stages from the report on. -/
def reportMilestones : List (ℕ × String) :=
  [(90, "Generating final report"), (100, "Analysis completed successfully")]

/-- The stages from the partition table on. -/
def readMilestones (os : OperatingSystem) : List (ℕ × String) :=
  (25, "Reading partition table") :: (45, "Analyzing file systems") ::
    (55, s!"Analyzing operating system ({os.debug})") :: reportMilestones

/-- The stages up to the open reader. -/
def openMilestones (forceNbd : Bool) : List (ℕ × String) :=
  [(5, "Identifying disk image"), (15, "Initializing read backend")] ++
    if forceNbd then [(15, "Explicit external backend enabled")] else []

/-- The stages of a whole inspection. -/
def milestones (forceNbd : Bool) (os : OperatingSystem) : List (ℕ × String) :=
  openMilestones forceNbd ++ readMilestones os

/-- Code that is to tell the stages `rest` of one of the operating systems that are still possible:
it tells all of them when it returns a report, and only the first ones when it fails. -/
def Tells (possible : OperatingSystem → Prop) (rest : OperatingSystem → List (ℕ × String))
    (x : Observed InspectionReport) : Prop :=
  Traces
    (fun report events => possible report.operatingSystem ∧
      events.map InspectionProgressEvent.key = rest report.operatingSystem)
    (fun events => ∃ os, possible os ∧ events.map InspectionProgressEvent.key <+: rest os ∧
      events.map InspectionProgressEvent.key ≠ rest os) x

section Tells

variable {possible possible' : OperatingSystem → Prop}
  {rest : OperatingSystem → List (ℕ × String)}

/-- More operating systems are possible. -/
theorem Tells.mono {x : Observed InspectionReport} (h : Tells possible rest x)
    (hpossible : ∀ os, possible os → possible' os) : Tells possible' rest x :=
  Traces.mono h (fun _ _ ⟨hos, hevents⟩ => ⟨hpossible _ hos, hevents⟩)
    fun _ ⟨os, hos, hevents⟩ => ⟨os, hpossible os hos, hevents⟩

/-- A report, after which nothing is told. -/
theorem Tells.pure {report : InspectionReport} (hos : possible report.operatingSystem)
    (hrest : rest report.operatingSystem = []) : Tells possible rest (Pure.pure report) :=
  Traces.pure ⟨hos, hrest.symm⟩

/-- An event that is the next for every system that is possible. -/
theorem Tells.notify_bind (rest' : OperatingSystem → List (ℕ × String))
    {event : InspectionProgressEvent} {f : Unit → Observed InspectionReport}
    (h : Tells possible rest' (f ()))
    (hrest : ∀ os, possible os → rest os = event.key :: rest' os) :
    Tells possible rest (notify event >>= f) := by
  refine Traces.mono (Traces.notify_bind h) ?_ ?_
  · rintro report _ ⟨events, rfl, hos, hevents⟩
    exact ⟨hos, by rw [hrest _ hos, List.map_cons, hevents]⟩
  · rintro _ ⟨events, rfl, os, hos, hprefix, hne⟩
    refine ⟨os, hos, ?_, ?_⟩
    · rw [hrest os hos, List.map_cons]
      exact List.cons_prefix_cons.mpr ⟨rfl, hprefix⟩
    · rw [hrest os hos, List.map_cons]
      exact fun heq => hne (List.cons.inj heq).2

/-- Code that tells nothing may end the inspection while something is left to tell. -/
theorem Tells.quietly_bind {x : ExceptT VmSpectError EngineM α} {f : α → Observed InspectionReport}
    (h : ∀ a, Tells possible rest (f a)) (hsome : ∃ os, possible os ∧ rest os ≠ []) :
    Tells possible rest (quietly x >>= f) := by
  refine Traces.mono (Traces.quietly_bind h) (fun _ _ hr => hr) ?_
  rintro events (rfl | hfailed)
  · obtain ⟨os, hos, hne⟩ := hsome
    exact ⟨os, hos, List.nil_prefix, hne.symm⟩
  · exact hfailed

end Tells

/-- The stages that read the image tell the stages from the partition table on. -/
theorem readObserved_tells (image : ImageInfo) (reader : DiskReader ν) :
    Tells (fun _ => True) readMilestones (i.readObserved formatBytes image reader) := by
  have hany : ∀ {rest : OperatingSystem → List (ℕ × String)}, (∀ os, rest os ≠ []) →
      ∃ os, True ∧ rest os ≠ [] := fun h => ⟨.unknown, trivial, h _⟩
  unfold readObserved
  refine Tells.quietly_bind (fun _ => Tells.notify_bind _ ?_ fun _ _ => rfl)
    (hany fun _ => List.cons_ne_nil _ _)
  refine Tells.quietly_bind (fun found => ?_) (hany fun _ => List.cons_ne_nil _ _)
  -- From here on there is one operating system only.
  have hone : ∀ {rest : OperatingSystem → List (ℕ × String)}, (∀ os, rest os ≠ []) →
      ∃ os, os = found.1.operatingSystem ∧ rest os ≠ [] := fun h => ⟨_, rfl, h _⟩
  have hall : ∀ os, os = found.1.operatingSystem → True := fun _ _ => trivial
  refine Tells.mono ?_ hall
  refine Tells.quietly_bind (fun _ => ?_) (hone fun _ => List.cons_ne_nil _ _)
  refine Tells.quietly_bind (fun _ => Tells.notify_bind _ ?_ fun _ _ => rfl)
    (hone fun _ => List.cons_ne_nil _ _)
  refine Tells.quietly_bind (fun _ => Tells.notify_bind (fun _ => reportMilestones) ?_ ?_)
    (hone fun _ => List.cons_ne_nil _ _)
  · refine Tells.quietly_bind (fun analyzed => ?_) (hone fun _ => List.cons_ne_nil _ _)
    refine Tells.quietly_bind (fun _ => ?_) (hone fun _ => List.cons_ne_nil _ _)
    refine Tells.quietly_bind (fun _ => Tells.notify_bind _ ?_ fun _ _ => rfl)
      (hone fun _ => List.cons_ne_nil _ _)
    refine Tells.quietly_bind (fun _ => Tells.notify_bind _ ?_ fun _ _ => rfl)
      (hone fun _ => List.cons_ne_nil _ _)
    exact Tells.pure rfl rfl
  · rintro os rfl
    rfl

/-- The open stages tell their own stages before what any code after them tells. -/
theorem openObserved_tells (path : Path)
    {f : ImageInfo × DiskReader ν → Observed InspectionReport}
    (h : ∀ opened, Tells (fun _ => True) readMilestones (f opened)) :
    Tells (fun _ => True) (milestones i.options.forceNbd)
      (i.openObserved formatBytes path >>= f) := by
  have hany : ∀ {rest : OperatingSystem → List (ℕ × String)}, (∀ os, rest os ≠ []) →
      ∃ os, True ∧ rest os ≠ [] := fun h => ⟨.unknown, trivial, h _⟩
  have hread : ∀ os, readMilestones os ≠ [] := fun _ => List.cons_ne_nil _ _
  have hrest : ∀ image, Tells (fun _ => True) readMilestones
      (quietly (ExceptT.mk (StateT.lift
          ((openWithOptionsDiagnostic i.fs i.env i.nbd image i.options i.devices).run.mapSites
            .opening))) >>=
        fun reader => quietly ensureNotCancelled >>= fun _ => pure (image, reader) >>= f) := by
    refine fun image => Tells.quietly_bind (fun reader => Tells.quietly_bind (fun _ => ?_)
      (hany hread)) (hany hread)
    rw [pure_bind]
    exact h (image, reader)
  unfold openObserved milestones openMilestones
  simp only [bind_assoc]
  refine Tells.quietly_bind (fun _ => Tells.quietly_bind (fun _ => Tells.quietly_bind (fun _ =>
    Tells.notify_bind _ ?_ fun _ _ => rfl) (hany fun _ => List.cons_ne_nil _ _))
      (hany fun _ => List.cons_ne_nil _ _)) (hany fun _ => List.cons_ne_nil _ _)
  refine Tells.quietly_bind (fun image => Tells.quietly_bind (fun _ => Tells.quietly_bind (fun _ =>
    Tells.notify_bind _ ?_ fun _ _ => rfl) (hany fun _ => List.cons_ne_nil _ _))
      (hany fun _ => List.cons_ne_nil _ _)) (hany fun _ => List.cons_ne_nil _ _)
  split
  · simp only [bind_assoc]
    exact Tells.notify_bind _ (hrest image) fun _ _ => rfl
  · simp only [bind_assoc]
    exact hrest image

/-- In every run that is not stopped by a panic, the events are the beginning of the stages of one
operating system, and all of them exactly if there is a report. -/
theorem inspectWithProgress_tells (path : Path) :
    Tells (fun _ => True) (milestones i.options.forceNbd) (i.inspectWithProgress formatBytes path) :=
  i.openObserved_tells formatBytes path fun opened =>
    i.readObserved_tells formatBytes opened.1 opened.2

/-- The percentages of the stages never decrease. -/
theorem milestones_sorted (forceNbd : Bool) (os : OperatingSystem) :
    ((milestones forceNbd os).map Prod.fst).Pairwise (· ≤ ·) := by
  cases forceNbd <;> simp [milestones, openMilestones, readMilestones, reportMilestones]

/-- Nor do those of the events that are the beginning of the stages. -/
theorem percentages_sorted {forceNbd : Bool} {os : OperatingSystem}
    {events : List InspectionProgressEvent}
    (h : events.map InspectionProgressEvent.key <+: milestones forceNbd os) :
    (events.map InspectionProgressEvent.percentage).Pairwise (· ≤ ·) := by
  have hkeys : (events.map InspectionProgressEvent.key).map Prod.fst =
      events.map InspectionProgressEvent.percentage := List.map_map
  rw [← hkeys]
  exact (milestones_sorted forceNbd os).sublist (h.map Prod.fst).sublist

/-- A callback changes nothing: at whatever moment the token is set, an inspection with a callback
returns what the one without it returns, and leaves the same progress. The percentages that the
callback is told never decrease. When there is a report, it has been told all stages, those of the
reported system; when there is an error, it has been told the beginning of the stages of some system,
but not all of them. -/
theorem inspectWithProgress_events (path : Path) {progress after : InspectionProgress} {moment : ℕ}
    {r : Except VmSpectError InspectionReport}
    (h : ((i.inspect path progress).run moment).1 = some (r, after)) :
    ∃ events,
      (Prog.runFrom ((i.inspectWithProgress formatBytes path).run.run []) progress moment).1 =
        some ((r, events), after) ∧
      (events.map InspectionProgressEvent.percentage).Pairwise (· ≤ ·) ∧
      (∀ report, r = .ok report → events.map InspectionProgressEvent.key =
        milestones i.options.forceNbd report.operatingSystem) ∧
      (∀ e, r = .error e → ∃ os,
        events.map InspectionProgressEvent.key <+: milestones i.options.forceNbd os ∧
        events.map InspectionProgressEvent.key ≠ milestones i.options.forceNbd os) := by
  obtain ⟨events, hrun⟩ := (i.inspectWithProgress_silences formatBytes path).run [] h
  have htells := Prog.Yields.of_run (i.inspectWithProgress_tells formatBytes path [] progress) hrun
  obtain ⟨told, rfl : events = told, hr⟩ := htells
  cases r with
  | ok report =>
    obtain ⟨-, hall⟩ := hr
    have hprefix : events.map InspectionProgressEvent.key <+:
        milestones i.options.forceNbd report.operatingSystem := hall ▸ List.prefix_rfl
    refine ⟨events, hrun, percentages_sorted hprefix, fun report' heq => ?_, fun e heq => ?_⟩
    · rw [← Except.ok.inj heq]
      exact hall
    · cases heq
  | error e =>
    obtain ⟨os, -, hprefix, hne⟩ := hr
    refine ⟨events, hrun, percentages_sorted hprefix, fun report heq => ?_, fun _ _ => ?_⟩
    · cases heq
    · exact ⟨os, hprefix, hne⟩

/-- The stages of a Linux guest. -/
theorem inspectWithProgress_events_guest :
    ((linuxInspection.inspect emptyPath .new).run 19).1 = some (.ok linuxReport, linuxAfter) ∧
      ∃ events,
        (Prog.runFrom ((linuxInspection.inspectWithProgress toString emptyPath).run.run [])
          .new 19).1 = some ((.ok linuxReport, events), linuxAfter) ∧
        (events.map InspectionProgressEvent.percentage).Pairwise (· ≤ ·) ∧
        events.map InspectionProgressEvent.key = milestones false .linux := by
  have hrun : ((linuxInspection.inspect emptyPath .new).run 19).1 =
      some (.ok linuxReport, linuxAfter) := by decide +kernel
  obtain ⟨events, hwith, hsorted, hall, -⟩ :=
    linuxInspection.inspectWithProgress_events toString emptyPath hrun
  exact ⟨hrun, events, hwith, hsorted, hall linuxReport rfl⟩

end Inspection

end VmSpect
