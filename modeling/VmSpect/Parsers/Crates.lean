import VmSpect.Lib.Polling
import VmSpect.Models.Progress
import VmSpect.Vms.Cursor
import VmSpect.Vms.DiskReader

/-!
# The surroundings of the analyzers

An analyzer reads the image through views of a driver that looks at the token before each read, and
leaves the file systems and the registry to the crates `ext4`, `ntfs` and `nt_hive`. Those crates
are not part of the repository. They are given by what they do: a call on a file system is a program
whose reads depend on the answers to earlier ones (`DiskProg`), and a call on a hive is a function
of its bytes. Either may panic. Errors are given by their `Debug` text, which is all that is used of
them.
-/

namespace VmSpect

open Polling Words

/-! ## The token and the driver -/

/-- The places below the engine that look at the token. -/
inductive Site where
  /-- `open_with_options` of `NbdReader`, and the wait for a session slot in it. -/
  | nbdOpen
  | nbdSlot
  /-- `detect_with_progress`. -/
  | detector
  /-- `DiskReader::read_range`. -/
  | read
  /-- The loops of `parse_dpkg_status`, `extract_programs_from_subkeys`, `apply_fs_fallback` and
  `scan_folders_as_programs`. -/
  | dpkg
  | uninstallKeys
  | programFiles
  | folders
  deriving DecidableEq, Repr

variable {ν α : Type}

/-- What reading an image changes: the reader and the progress. -/
structure World (ν : Type) where
  reader : DiskReader ν
  progress : InspectionProgress

/-- Code that reads the image. -/
abbrev Reading (ν : Type) := StateT (World ν) (Prog Site)

/-- Code that reads a view of the image. -/
abbrev Viewing (ν : Type) := StateT VirtualDisk (Reading ν)

/-- A panic. -/
def Reading.panic : Reading ν α := fun _ => Prog.panic

/-- A load of the token. -/
def Reading.poll (site : Site) : Reading ν Bool := StateT.lift (Prog.poll site)

/-- The reader as a driver, whose reads look at the token first. The files of the image are on the
devices that `reads` gives for the number of the read. -/
def diskDriver (nbd : NbdApi ν) (virtualSize : ℕ) (reads : ℕ → ℕ → Device := fun _ _ => .sound) :
    VmDriver (Reading ν) where
  virtualSize := virtualSize
  readRange offset len := do
    let cancelled ← Reading.poll .read
    let world ← get
    let (reader, answer) := world.reader.fillRange nbd cancelled offset len
      (reads world.reader.stats.readOperations)
    set { world with reader }
    pure answer
  recordCacheHit := modify fun world =>
    { world with reader := { world.reader with
      stats := { world.reader.stats with cacheHits := addw world.reader.stats.cacheHits 1 } } }

/-! ## Programs over a view -/

/-- A call of a crate that reads a view. -/
inductive DiskProg (α : Type) where
  | ret (a : α)
  | panic
  | call (c : DiskCall) (next : DiskAnswer → DiskProg α)

/-- The call did not return because the view panicked. -/
def DiskAnswer.panicked : DiskAnswer → Bool
  | read (.error .panic) => true
  | readAtOffset (.error .panic) => true
  | _ => false

/-- The calls are made on the view, one after the other. -/
def DiskProg.exec (driver : VmDriver (Reading ν)) : DiskProg α → Viewing ν α
  | ret a => pure a
  | panic => StateT.lift Reading.panic
  | call c next => do
    let disk ← get
    let performed ← StateT.lift (disk.perform driver c)
    set performed.1
    if performed.2.panicked then StateT.lift Reading.panic else (next performed.2).exec driver

/-- A fresh view, and what is done with it. -/
def withView (start size chunkSize : ℕ) (body : Viewing ν α) : Reading ν α :=
  match VirtualDisk.new start size chunkSize with
  | some disk => do
    let (result, _) ← body.run disk
    pure result
  | none => Reading.panic

/-! ## The crates -/

/-- The crate `ext4`. -/
structure Ext4Crate where
  SuperBlock : Type
  DirEntry : Type
  Inode : Type
  Reader : Type
  new : DiskProg (Except String SuperBlock)
  resolvePath : SuperBlock → String → DiskProg (Except String DirEntry)
  loadInode : SuperBlock → DirEntry → DiskProg (Except String Inode)
  openInode : SuperBlock → Inode → DiskProg (Except String Reader)
  readToEnd : Reader → DiskProg (Except IoError (List UInt8))

/-- A key of a directory index. -/
structure NtfsFileName where
  isDirectory : Bool
  /-- The namespace is `NtfsFileNamespace::Dos`. -/
  isDos : Bool
  name : List Char

/-- The crate `ntfs`. A directory has finitely many entries, at most `maxEntries`. -/
structure NtfsCrate where
  Volume : Type
  File : Type
  Index : Type
  Entry : Type
  Item : Type
  Attribute : Type
  Value : Type
  Entries : Type
  new : DiskProg (Except String Volume)
  readUpcaseTable : Volume → DiskProg (Except String Volume)
  rootDirectory : Volume → DiskProg (Except String File)
  directoryIndex : File → DiskProg (Except String Index)
  find : Volume → Index → String → DiskProg (Option (Except String Entry))
  toFile : Volume → Entry → DiskProg (Except String File)
  isDirectory : File → Bool
  data : File → String → DiskProg (Option (Except String Item))
  toAttribute : Item → Except String Attribute
  value : Attribute → DiskProg (Except String Value)
  valueLength : Value → ℕ
  readToEnd : Value → DiskProg (Except IoError (List UInt8))
  /-- `take(max)` and `read_to_end`. -/
  readPrefix : Value → ℕ → DiskProg (Except IoError (List UInt8))
  entries : Index → Entries
  /-- The next entry, with its key when there is one that can be read. -/
  next : Entries → DiskProg (Option (Option NtfsFileName) × Entries)
  maxEntries : Index → ℕ

/-- The crate `nt_hive`. A function that returns `none` panics, and an iterator that yields `none`
panics there; what it cannot read it leaves out. -/
structure HiveCrate where
  Hive : Type
  KeyNode : Type
  KeyValue : Type
  new : List UInt8 → Option (Except String Hive)
  withoutValidation : List UInt8 → Option (Except String Hive)
  rootKeyNode : Hive → Option (Except String KeyNode)
  subkeys : KeyNode → List (Option KeyNode)
  values : KeyNode → List (Option KeyValue)
  keyName : KeyNode → Option (Option (List Char))
  valueName : KeyValue → Option (Option (List Char))
  /-- `data` and `into_vec`. -/
  valueData : KeyValue → Option (Option (List UInt8))

/-- The crates together. -/
structure Crates where
  ext4 : Ext4Crate
  ntfs : NtfsCrate
  hive : HiveCrate

/-! ## An empty disk -/

/-- A driver of a disk without bytes. -/
def idleDriver : VmDriver (Reading Unit) where
  virtualSize := 0
  readRange _ _ := pure (.ok [])
  recordCacheHit := pure ()

/-- A reader of such a disk, at the start of an inspection. -/
def idleWorld : World Unit := ⟨⟨.raw [], 0, .opened ⟨[]⟩ "raw"⟩, .new⟩

end VmSpect
