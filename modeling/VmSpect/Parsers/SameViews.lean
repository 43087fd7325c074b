import VmSpect.Parsers.Windows
import VmSpect.Vms.SameReads

/-!
# Two analyses over views that answer alike

The analyzers only see the image through views, and leave the rest to crates that are the same for
both analyses. So over two drivers whose views answer every call alike (`SameViews`) they return the
same result (`Linux.analyze_same`, `Windows.analyze_same`), whatever the drivers and the views keep
for themselves. Two readers are kept in a relation `R`, and two views in a relation `V`.
-/

namespace VmSpect

open Polling Relating

variable {ν ν' : Type} {α : Type}

/-- Calm runs over two images, which are kept in the relation `R`. -/
def readings (R : World ν → World ν' → Prop) : Relating (Reading ν) (Reading ν') :=
  (Relating.calm Site Site).stateT R

/-- Calm runs over a view of each, which are kept in the relation `V`. -/
def viewings (R : World ν → World ν' → Prop) (V : VirtualDisk → VirtualDisk → Prop) :
    Relating (Viewing ν) (Viewing ν') :=
  (readings R).stateT V

/-- Views of two drivers that answer every call alike. -/
structure SameViews (R : World ν → World ν' → Prop) (V : VirtualDisk → VirtualDisk → Prop)
    (driver : VmDriver (Reading ν)) (driver' : VmDriver (Reading ν')) : Prop where
  perform : ∀ {disk disk' : VirtualDisk} (call : DiskCall), V disk disk' →
    (readings R).relates (fun r r' => r.2 = r'.2 ∧ V r.1 r'.1) (disk.perform driver call)
      (disk'.perform driver' call)

/-- The views of drivers that read the same. -/
theorem SameReads.sameViews {R : World ν → World ν' → Prop} {driver : VmDriver (Reading ν)}
    {driver' : VmDriver (Reading ν')} (h : SameReads (readings R) driver driver') :
    SameViews R Eq driver driver' where
  perform call hdisk := by
    subst hdisk
    refine (readings R).relates_mono (VirtualDisk.perform_same h _ call) ?_
    rintro r _ rfl
    exact ⟨rfl, rfl⟩

section Reading

variable {R : World ν → World ν' → Prop}

/-- Two readings that panic are related. -/
theorem readings_panic {β : Type} (P : α → β → Prop) :
    (readings R).relates P (Reading.panic : Reading ν α) (Reading.panic : Reading ν' β) :=
  fun _ _ _ => calm_panic _

/-- A look at the token, which nobody has set. -/
theorem readings_poll (site : Site) :
    (readings R).Same (Reading.poll site) (Reading.poll site) :=
  stateT_lift (calm_poll site site)

/-- A program that does not read the image. -/
theorem readings_prog (p : Prog Site α) :
    (readings R).Same (StateT.lift p : Reading ν α) (StateT.lift p) :=
  stateT_lift (calm_self p)

end Reading

variable {R : World ν → World ν' → Prop} {V : VirtualDisk → VirtualDisk → Prop}
  {driver : VmDriver (Reading ν)} {driver' : VmDriver (Reading ν')}

/-- A call of a crate is a sequence of calls on the view. -/
theorem DiskProg.exec_same (h : SameViews R V driver driver') (prog : DiskProg α) :
    (viewings R V).Same (prog.exec driver) (prog.exec driver') := by
  induction prog with
  | ret a => exact same_pure a
  | panic => exact stateT_lift (readings_panic _)
  | call c next ih =>
    refine (viewings R V).relates_bind stateT_get fun disk disk' hdisk => ?_
    refine (viewings R V).relates_bind (stateT_lift (h.perform c hdisk)) ?_
    rintro ⟨disk, answer⟩ ⟨disk', _⟩ ⟨rfl, hdisk⟩
    refine same_bind (stateT_set hdisk) fun _ => ?_
    exact same_ite (stateT_lift (readings_panic _)) (ih answer)

/-- Fresh views, and what is done with them. -/
theorem withView_same {start size chunkSize chunkSize' : ℕ} {body : Viewing ν α}
    {body' : Viewing ν' α}
    (hnew : Option.Rel V (VirtualDisk.new start size chunkSize)
      (VirtualDisk.new start size chunkSize'))
    (hbody : (viewings R V).Same body body') :
    (readings R).Same (withView start size chunkSize body)
      (withView start size chunkSize' body') := by
  unfold withView
  generalize VirtualDisk.new start size chunkSize = disk,
    VirtualDisk.new start size chunkSize' = disk' at hnew
  cases hnew with
  | none => exact readings_panic _
  | some hdisk =>
    refine (readings R).relates_bind (hbody _ _ hdisk) ?_
    rintro ⟨a, disk⟩ ⟨_, disk'⟩ ⟨rfl, -⟩
    exact same_pure a

/-! ## Linux -/

namespace Linux

variable (h : SameViews R V driver driver') (ext4 : Ext4Crate) (sb : ext4.SuperBlock)

include h

/-- `read_text_file`. -/
theorem readTextFile_same (path : String) :
    ((viewings R V).exceptT VmSpectError).Same (readTextFile ext4 driver sb path)
      (readTextFile ext4 driver' sb path) := by
  unfold readTextFile
  refine same_bind (exceptT_mk (same_map (DiskProg.exec_same h _) _)) fun entry => ?_
  refine same_bind (exceptT_mk (same_map (DiskProg.exec_same h _) _)) fun inode => ?_
  refine same_bind (exceptT_mk (same_map (DiskProg.exec_same h _) _)) fun reader => ?_
  exact same_bind (exceptT_mk (same_map (DiskProg.exec_same h _) _)) fun buffer => same_pure _

/-- The text of a file, or why it cannot be read. -/
theorem readTextFile_run_same (path : String) :
    (viewings R V).Same (readTextFile ext4 driver sb path).run
      (readTextFile ext4 driver' sb path).run :=
  exceptT_same_iff.mp (readTextFile_same h ext4 sb path)

/-- The first of the paths that exists. -/
theorem findTools_same (paths : List (String × String)) :
    (viewings R V).Same (findTools ext4 driver sb paths) (findTools ext4 driver' sb paths) := by
  induction paths with
  | nil => exact same_pure none
  | cons entry rest ih =>
    refine same_bind (DiskProg.exec_same h _) fun resolved => ?_
    cases resolved with
    | ok _ => exact same_pure _
    | error _ => exact ih

/-- `detect_guest_tools_linux_files`. -/
theorem detectGuestToolsLinuxFiles_same :
    (viewings R V).Same (detectGuestToolsLinuxFiles ext4 driver sb)
      (detectGuestToolsLinuxFiles ext4 driver' sb) :=
  findTools_same h ext4 sb _

/-- The release and the host name. -/
theorem systemInfo_same :
    (viewings R V).Same (systemInfo ext4 driver sb) (systemInfo ext4 driver' sb) := by
  refine same_bind (readTextFile_run_same h ext4 sb _) fun release => ?_
  dsimp only
  rcases release with e | content
  case' error => refine same_bind (readTextFile_run_same h ext4 sb _) fun release => ?_
  case' ok => refine same_bind (same_pure _) fun release => ?_
  all_goals
    refine same_bind (readTextFile_run_same h ext4 sb _) fun hostname => ?_
    cases hostname <;> exact same_pure _

/-- `analyze_file_system`. -/
theorem analyzeFileSystem_same (options : Options) :
    (viewings R V).Same (analyzeFileSystem ext4 driver sb options)
      (analyzeFileSystem ext4 driver' sb options) := by
  refine same_ite_bind (systemInfo_same h ext4 sb) (same_pure _) fun info => ?_
  refine same_bind (readTextFile_run_same h ext4 sb _) fun dpkgStatus => ?_
  rcases dpkgStatus with e | content
  case' error => refine same_bind (same_pure _) fun found => ?_
  case' ok =>
    refine same_bind (stateT_lift (readings_prog _)) fun parsed => ?_
    refine same_bind (same_pure _) fun found => ?_
  all_goals
    refine same_ite ?_ (same_bind (same_pure _) fun info => same_pure _)
    refine same_bind (detectGuestToolsLinuxFiles_same h ext4 sb) fun tools => ?_
    exact same_bind (same_pure _) fun info => same_pure _

omit sb in
/-- The loop over the candidates, whose views are related. -/
theorem tryCandidates_same (options : Options) {chunkSize chunkSize' : ℕ} {partitions : List Partition}
    (hnew : ∀ p ∈ partitions, Option.Rel V (VirtualDisk.new p.start p.size chunkSize)
      (VirtualDisk.new p.start p.size chunkSize')) :
    (readings R).Same (tryCandidates ext4 driver chunkSize options partitions)
      (tryCandidates ext4 driver' chunkSize' options partitions) := by
  induction partitions with
  | nil => exact same_pure none
  | cons p rest ih =>
    refine same_bind (withView_same (hnew p List.mem_cons_self) ?_) fun result => ?_
    · refine same_bind (DiskProg.exec_same h _) fun opened => ?_
      cases opened with
      | ok sb => exact same_map (analyzeFileSystem_same h ext4 sb options) _
      | error _ => exact same_pure none
    · cases result with
      | some result => exact same_pure _
      | none => exact ih fun q hq => hnew q (List.mem_cons_of_mem p hq)

omit sb in

/-- `LinuxInspector::analyze`. -/
theorem analyze_same (options : Options) {chunkSize chunkSize' : ℕ} {partitions : List Partition}
    (hnew : ∀ p ∈ partitions, Option.Rel V (VirtualDisk.new p.start p.size chunkSize)
      (VirtualDisk.new p.start p.size chunkSize')) :
    (readings R).Same (analyze ext4 driver partitions chunkSize options)
      (analyze ext4 driver' partitions chunkSize' options) := by
  refine same_ite (same_pure _) (same_bind (tryCandidates_same h ext4 options fun p hp => ?_)
    fun result => ?_)
  · exact hnew p (List.mem_of_mem_filter (List.mem_mergeSort.mp hp))
  · cases result <;> exact same_pure _

end Linux

/-! ## Windows -/

namespace Windows

variable (h : SameViews R V driver driver') (ntfs : NtfsCrate) (volume : ntfs.Volume)

include h

/-- A call of the crate whose error is named. -/
theorem orFileSystem_same (call : DiskProg (Except String α)) :
    ((viewings R V).exceptT VmSpectError).Same (orFileSystem driver call)
      (orFileSystem driver' call) :=
  exceptT_mk (same_map (DiskProg.exec_same h call) _)

omit volume in

/-- The volume is mounted. -/
theorem mount_same :
    ((viewings R V).exceptT String).Same (mount ntfs driver) (mount ntfs driver') := by
  refine same_bind (exceptT_mk (DiskProg.exec_same h _)) fun volume => ?_
  refine same_bind (exceptT_mk (DiskProg.exec_same h _)) fun volume => ?_
  exact same_bind (exceptT_mk (DiskProg.exec_same h _)) fun root => same_pure _

/-- `navigate_directory`. -/
theorem navigateDirectory_same (segments : List String) (current : ntfs.File) :
    ((viewings R V).exceptT String).Same (navigateDirectory ntfs driver volume segments current)
      (navigateDirectory ntfs driver' volume segments current) := by
  induction segments generalizing current with
  | nil => exact same_pure _
  | cons segment rest ih =>
    refine same_bind (exceptT_mk (DiskProg.exec_same h _)) fun index => ?_
    refine same_bind (exceptT_lift (DiskProg.exec_same h _)) fun entry => ?_
    cases entry with
    | none => exact same_pure _
    | some entry =>
      refine same_bind (exceptT_mk (same_pure _)) fun entry => ?_
      refine same_bind (exceptT_mk (DiskProg.exec_same h _)) fun next => ?_
      exact same_ite (ih next) (same_pure _)

/-- Where the path leads, or why it cannot be followed. -/
theorem navigateDirectory_run_same (segments : List String) (current : ntfs.File) :
    (viewings R V).Same (navigateDirectory ntfs driver volume segments current).run
      (navigateDirectory ntfs driver' volume segments current).run :=
  exceptT_same_iff.mp (navigateDirectory_same h ntfs volume segments current)

/-- The data of a file are opened. -/
theorem openStream_same (directory : ntfs.File) (name : String) :
    ((viewings R V).exceptT VmSpectError).Same (openStream ntfs driver volume directory name)
      (openStream ntfs driver' volume directory name) := by
  refine same_bind (orFileSystem_same h _) fun index => ?_
  refine same_bind (exceptT_lift (DiskProg.exec_same h _)) fun entry => ?_
  cases entry with
  | none => exact same_pure _
  | some entry =>
    refine same_bind (exceptT_mk (same_pure _)) fun entry => ?_
    refine same_bind (orFileSystem_same h _) fun file => ?_
    refine same_bind (exceptT_lift (DiskProg.exec_same h _)) fun item => ?_
    cases item with
    | none => exact exceptT_throw _
    | some item =>
      refine same_bind (exceptT_mk (same_pure _)) fun item => ?_
      refine same_bind (exceptT_mk (same_pure _)) fun attr => ?_
      exact same_bind (orFileSystem_same h _) fun value => same_pure _

/-- `read_file_bytes`. -/
theorem readFileBytes_same (directory : ntfs.File) (name : String) :
    ((viewings R V).exceptT VmSpectError).Same (readFileBytes ntfs driver volume directory name)
      (readFileBytes ntfs driver' volume directory name) := by
  refine same_bind (openStream_same h ntfs volume directory name) fun value => ?_
  cases value with
  | none => exact same_pure _
  | some value =>
    refine same_ite (exceptT_throw _) ?_
    exact same_bind (exceptT_mk (same_map (DiskProg.exec_same h _) _)) fun data => same_pure _

/-- `read_file_prefix`. -/
theorem readFilePrefix_same (directory : ntfs.File) (name : String) (maxBytes : ℕ) :
    ((viewings R V).exceptT VmSpectError).Same
      (readFilePrefix ntfs driver volume directory name maxBytes)
      (readFilePrefix ntfs driver' volume directory name maxBytes) := by
  refine same_bind (openStream_same h ntfs volume directory name) fun value => ?_
  cases value with
  | none => exact same_pure _
  | some value =>
    exact same_bind (exceptT_mk (same_map (DiskProg.exec_same h _) _)) fun data => same_pure _

/-- `file_exists`. -/
theorem fileExists_same (directory : ntfs.File) (name : String) :
    (viewings R V).Same (fileExists ntfs driver volume directory name)
      (fileExists ntfs driver' volume directory name) := by
  refine same_bind (DiskProg.exec_same h _) fun index => ?_
  cases index with
  | error e => exact same_pure _
  | ok index =>
    refine same_bind (DiskProg.exec_same h _) fun entry => ?_
    rcases entry with _ | e | entry <;> exact same_pure _

/-- One of two files exists. -/
theorem eitherExists_same (directory : ntfs.File) (a b : String) :
    (viewings R V).Same (eitherExists ntfs driver volume directory a b)
      (eitherExists ntfs driver' volume directory a b) := by
  refine same_bind (fileExists_same h ntfs volume directory a) fun found => ?_
  exact same_ite (same_pure _) (fileExists_same h ntfs volume directory b)

omit volume in

/-- `is_system_partition`. -/
theorem isSystemPartition_same :
    (viewings R V).Same (isSystemPartition ntfs driver) (isSystemPartition ntfs driver') := by
  refine same_bind (exceptT_same_iff.mp (mount_same h ntfs)) fun mounted => ?_
  cases mounted with
  | error e => exact same_pure _
  | ok mounted =>
    refine same_bind (navigateDirectory_run_same h ntfs mounted.1 _ mounted.2) fun config => ?_
    rcases config with e | _ | config <;> exact same_pure _

omit volume in
/-- The search for the partition that holds the registry, which is one of those that are tried. -/
theorem findSystemPartition_same {chunkSize chunkSize' : ℕ} {partitions : List Partition}
    (hnew : ∀ p ∈ partitions, Option.Rel V (VirtualDisk.new p.start p.size chunkSize)
      (VirtualDisk.new p.start p.size chunkSize')) :
    (readings R).relates (fun found found' => found = found' ∧ ∀ p ∈ found, p ∈ partitions)
      (findSystemPartition ntfs driver chunkSize partitions)
      (findSystemPartition ntfs driver' chunkSize' partitions) := by
  induction partitions with
  | nil => exact (readings R).relates_pure ⟨rfl, by simp⟩
  | cons p rest ih =>
    refine bind_eq (withView_same (hnew p List.mem_cons_self) (isSystemPartition_same h ntfs))
      fun found => ?_
    cases found with
    | true => exact (readings R).relates_pure ⟨rfl, by simp⟩
    | false =>
      refine (readings R).relates_mono (ih fun q hq => hnew q (List.mem_cons_of_mem p hq)) ?_
      rintro found found' ⟨heq, hmem⟩
      exact ⟨heq, fun q hq => List.mem_cons_of_mem p (hmem q hq)⟩

/-- The hive `SYSTEM` is extracted. -/
theorem extractSystem_same (config : ntfs.File) :
    (viewings R V).Same (extractSystem ntfs driver volume config)
      (extractSystem ntfs driver' volume config) := by
  refine same_bind (eitherExists_same h ntfs volume config _ _) fun logs => ?_
  refine same_bind (exceptT_same_iff.mp (readFileBytes_same h ntfs volume config _)) fun bytes => ?_
  cases bytes <;> exact same_pure _

omit volume in

/-- `extract_ntfs_hives`. -/
theorem extractNtfsHives_same (includeSystem : Bool) :
    ((viewings R V).exceptT VmSpectError).Same (extractNtfsHives ntfs driver includeSystem)
      (extractNtfsHives ntfs driver' includeSystem) := by
  refine same_bind (exceptT_mk (same_map (exceptT_same_iff.mp (mount_same h ntfs)) _))
    fun mounted => ?_
  refine same_bind (exceptT_mk (same_map
    (navigateDirectory_run_same h ntfs mounted.1 _ mounted.2) _)) fun config => ?_
  cases config with
  | none => exact exceptT_throw _
  | some config =>
    refine same_bind (readFileBytes_same h ntfs mounted.1 config _) fun software => ?_
    cases software with
    | none => exact exceptT_throw _
    | some software =>
      refine same_bind (exceptT_lift (eitherExists_same h ntfs mounted.1 config _ _)) fun logs => ?_
      refine same_bind (exceptT_lift (same_ite ?_ (same_pure _))) fun system => same_pure _
      exact extractSystem_same h ntfs mounted.1 config

/-- `detect_os_from_binaries`. -/
theorem detectOsFromBinaries_same (system32 : ntfs.File) :
    (viewings R V).Same (detectOsFromBinaries ntfs driver volume system32)
      (detectOsFromBinaries ntfs driver' volume system32) := by
  refine same_bind (exceptT_same_iff.mp (readFilePrefix_same h ntfs volume system32 _ _))
    fun bytes => ?_
  dsimp only
  rcases bytes with e | _ | bytes
  all_goals
    refine same_bind (same_pure _) fun timestamp => ?_
    cases timestamp with
    | some timestamp => exact same_pure _
    | none =>
      refine same_bind (fileExists_same h ntfs volume system32 _) fun found => ?_
      exact same_ite (same_pure _) (same_pure _)

omit volume in
/-- The loop over the entries of a folder. -/
theorem scanEntries_same (left : ℕ) (entries : ntfs.Entries) (seen : List (List Char))
    (output : List Program) :
    (viewings R V).Same (scanEntries ntfs driver left entries seen output)
      (scanEntries ntfs driver' left entries seen output) := by
  induction left generalizing entries seen output with
  | zero => exact same_pure _
  | succ left ih =>
    refine same_bind (stateT_lift (readings_poll _)) fun cancelled => same_ite (same_pure _) ?_
    refine same_bind (DiskProg.exec_same h _) fun next => ?_
    rcases next with ⟨_ | _ | key, entries⟩
    · exact same_pure _
    · exact ih _ _ _
    · exact same_ite (ih _ _ _) (ih _ _ _)

omit volume in

/-- `scan_folders_as_programs`. -/
theorem scanFoldersAsPrograms_same (directory : ntfs.File) (output : List Program) :
    (viewings R V).Same (scanFoldersAsPrograms ntfs driver directory output)
      (scanFoldersAsPrograms ntfs driver' directory output) := by
  refine same_bind (DiskProg.exec_same h _) fun index => ?_
  cases index with
  | error e => exact same_pure _
  | ok index => exact scanEntries_same h ntfs _ _ _ _

/-- The loop over the program folders. -/
theorem scanProgramFiles_same (root : ntfs.File) (folders : List String) (output : List Program) :
    (viewings R V).Same (scanProgramFiles ntfs driver volume root folders output)
      (scanProgramFiles ntfs driver' volume root folders output) := by
  induction folders generalizing output with
  | nil => exact same_pure _
  | cons folder rest ih =>
    refine same_bind (stateT_lift (readings_poll _)) fun cancelled => same_ite (same_pure _) ?_
    refine same_bind (navigateDirectory_run_same h ntfs volume _ root) fun dir => ?_
    rcases dir with e | _ | dir
    · exact ih output
    · exact ih output
    · exact same_bind (scanFoldersAsPrograms_same h ntfs dir output) fun output => ih output

/-- What the files tell of the system. -/
theorem fallbackInfo_same (root : ntfs.File) :
    (viewings R V).Same (fallbackInfo ntfs driver volume root)
      (fallbackInfo ntfs driver' volume root) := by
  refine same_bind (navigateDirectory_run_same h ntfs volume _ root) fun system32 => ?_
  rcases system32 with e | _ | system32
  · exact same_pure _
  · exact same_pure _
  · refine same_bind (detectOsFromBinaries_same h ntfs volume system32) fun found => ?_
    cases found <;> exact same_pure _

/-- What the files tell of the system and the programs. -/
theorem fallbackScan_same (root : ntfs.File) (options : Options) :
    (viewings R V).Same (fallbackScan ntfs driver volume root options)
      (fallbackScan ntfs driver' volume root options) := by
  refine same_ite_bind (fallbackInfo_same h ntfs volume root) (same_pure _) fun info => ?_
  refine same_ite_bind (scanProgramFiles_same h ntfs volume root _ _) (same_pure _)
    fun programs => same_pure _

omit volume in

/-- `apply_fs_fallback`. -/
theorem applyFsFallback_same (options : Options) :
    (viewings R V).Same (applyFsFallback ntfs driver options)
      (applyFsFallback ntfs driver' options) := by
  refine same_bind (DiskProg.exec_same h _) fun volume => ?_
  cases volume with
  | error e => exact same_pure _
  | ok volume =>
    refine same_bind (DiskProg.exec_same h _) fun volume => ?_
    cases volume with
    | error e => exact same_pure _
    | ok volume =>
      refine same_bind (DiskProg.exec_same h _) fun root => ?_
      cases root with
      | error e => exact same_pure _
      | ok root => exact fallbackScan_same h ntfs volume root options

omit ntfs volume in

/-- `WindowsInspector::analyze`. -/
theorem analyze_same (crates : Crates) (options : Options) {chunkSize chunkSize' : ℕ}
    {partitions : List Partition}
    (hnew : ∀ p ∈ partitions, Option.Rel V (VirtualDisk.new p.start p.size chunkSize)
      (VirtualDisk.new p.start p.size chunkSize')) :
    (readings R).Same (analyze crates driver partitions chunkSize options)
      (analyze crates driver' partitions chunkSize' options) := by
  refine same_ite (same_pure _) ?_
  refine (readings R).relates_bind (findSystemPartition_same h crates.ntfs fun p hp =>
    hnew p (List.mem_of_mem_filter hp)) ?_
  rintro found _ ⟨rfl, hfound⟩
  cases found with
  | none => exact same_pure _
  | some p =>
    have hp := hnew p (List.mem_of_mem_filter (hfound p rfl))
    refine same_bind (withView_same hp (exceptT_same_iff.mp (extractNtfsHives_same h crates.ntfs _)))
      fun hives => ?_
    cases hives with
    | error e => exact same_pure _
    | ok hives =>
      refine same_bind (readings_prog _) fun analyzed => ?_
      exact same_ite (same_bind (withView_same hp (applyFsFallback_same h crates.ntfs options))
        fun found => same_pure _) (same_pure _)

end Windows

end VmSpect
