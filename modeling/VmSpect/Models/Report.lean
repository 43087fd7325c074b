import Mathlib.Data.Char
import Mathlib.Data.List.Lex
import VmSpect.Lib.UnixPath

/-!
# What an inspection reports

The partitions of `src/models/partition.rs`, the programs and the guest information of
`src/models/software.rs`, the options of `src/models/options.rs` and the result of an analyzer of
`src/models/traits.rs`. Texts that come from the guest are lists of characters.
-/

namespace VmSpect

open UnixPath (Path)

/-- `PartitionScheme`. -/
inductive PartitionScheme where
  | mbr
  | gpt
  | none
  deriving DecidableEq, Repr

/-- `FileSystem`, the type of the file system in a partition. -/
inductive FileSystemKind where
  | ntfs
  | fat
  | ext2
  | ext3
  | ext4
  | xfs
  | btrfs
  | linuxSwap
  | lvm2
  | unknown
  deriving DecidableEq, Repr

/-- `OperatingSystem`. -/
inductive OperatingSystem where
  | windows
  | linux
  | unknown
  deriving DecidableEq, Repr

/-- `Partition`. -/
structure Partition where
  index : ℕ
  start : ℕ
  size : ℕ
  kind : String
  fileSystem : FileSystemKind
  label : Option (List Char)
  deriving DecidableEq, Repr

/-- `is_ntfs`. -/
def Partition.isNtfs (p : Partition) : Bool := p.fileSystem = .ntfs

/-- `Program`. -/
structure Program where
  name : List Char
  version : Option (List Char)
  publisher : Option (List Char)
  source : Option (List Char)
  deriving DecidableEq, Repr

/-- `GuestTools`. -/
structure GuestTools where
  kind : String
  version : Option (List Char)
  present : Bool
  deriving DecidableEq, Repr

/-- `GuestInfo`, with its defaults. -/
structure GuestInfo where
  osName : List Char := []
  osEdition : List Char := []
  osServicePack : List Char := []
  osBuild : List Char := []
  guestTools : Option GuestTools := none
  deriving DecidableEq, Repr

/-- `AnalysisResult`, with its defaults. -/
structure AnalysisResult where
  guestInfo : GuestInfo := {}
  programs : List Program := []
  warnings : List String := []
  deriving DecidableEq, Repr

/-- The `Options` that decide what an inspection does. -/
structure Options where
  noApps : Bool
  noSystem : Bool
  includeSystem : Bool
  qemuNbd : Option Path
  chunkSize : Option ℕ
  forceNbd : Bool
  unixSocket : Option Path
  deriving DecidableEq, Repr

/-- `should_analyze_apps`. -/
def Options.shouldAnalyzeApps (o : Options) : Bool := !o.noApps

/-- `should_analyze_system`. -/
def Options.shouldAnalyzeSystem (o : Options) : Bool := !o.noSystem

/-- `sort_by` on the names, then `dedup_by` on name and version: of neighbours that agree in both
the first one stays. -/
def sortAndDedup (programs : List Program) : List Program :=
  let sorted := programs.mergeSort fun a b => decide (a.name ≤ b.name)
  (sorted.foldl (fun (kept : List Program) p =>
    match kept with
    | last :: _ => if p.name = last.name ∧ p.version = last.version then kept else p :: kept
    | [] => [p]) []).reverse

end VmSpect
