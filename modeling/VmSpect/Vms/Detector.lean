import VmSpect.Lib.Text
import VmSpect.Models.Report
import VmSpect.Vms.VirtualDisk

/-!
# Partition detection

`src/vms/detector.rs`: the partition table, the file systems and the operating system, from the
first sectors of the disk and of its partitions. The driver, the load of the token and the progress
counter are given by their effects in a monad `m`.
-/

namespace VmSpect.Detector

open Bytes Words

/-- `SECTOR`. -/
def sector : ℕ := 512

/-- `DetectedDisk`. -/
structure DetectedDisk where
  scheme : PartitionScheme
  partitions : List Partition
  operatingSystem : OperatingSystem
  deriving DecidableEq, Repr

/-! ## Names -/

/-- A digit in upper-case hexadecimal. -/
def hexDigit (n : ℕ) : Char := "0123456789ABCDEF".toList.getD n '0'

/-- A number in upper-case hexadecimal, with `width` digits. -/
def hexText : ℕ → ℕ → List Char
  | 0, _ => []
  | width + 1, n => hexText width (n / 16) ++ [hexDigit (n % 16)]

/-- `mbr_type_name`. -/
def mbrTypeName (kind : ℕ) : String :=
  let name :=
    if kind ∈ [0x01, 0x04, 0x06, 0x0B, 0x0C, 0x0E] then "FAT"
    else if kind = 0x07 then "NTFS / exFAT / HPFS"
    else if kind = 0x27 then "Windows RE (hidden)"
    else if kind = 0x82 then "Linux swap"
    else if kind = 0x83 then "Linux"
    else if kind = 0x8E then "Linux LVM"
    else if kind = 0xEE then "GPT protective"
    else if kind = 0xEF then "EFI System"
    else if kind = 0xFD then "Linux RAID"
    else "Other"
  name ++ " (0x" ++ String.ofList (hexText 2 kind) ++ ")"

/-- The byte at a place of a buffer, which is long enough wherever this is used. -/
def byteAt (buf : List UInt8) (i : ℕ) : ℕ := (buf.getD i 0).toNat

/-- `guid_to_text`. -/
def guidToText (g : List UInt8) : String :=
  String.ofList (hexText 8 (ofLe (slice g 0 4)) ++ ['-'] ++ hexText 4 (ofLe (slice g 4 2)) ++ ['-'] ++
    hexText 4 (ofLe (slice g 6 2)) ++ ['-'] ++ hexText 4 (ofBe (slice g 8 2)) ++ ['-'] ++
    hexText 12 (ofBe (slice g 10 6)))

/-- The names of the partition types that are known by their GUID. -/
def gptTypes : List (String × String) :=
  [("EBD0A0A2-B9E5-4433-87C0-68B6B72699C7", "Microsoft Basic Data"),
    ("E3C9E316-0B5C-4DB8-817D-F92DF00215AE", "Microsoft Reserved"),
    ("DE94BBA4-06D1-4D40-A16A-BFD50179D6AC", "Windows Recovery"),
    ("C12A7328-F81F-11D2-BA4B-00A0C93EC93B", "EFI System"),
    ("0FC63DAF-8483-4772-8E79-3D69D8477DE4", "Linux filesystem"),
    ("0657FD6D-A4AB-43C4-84E5-0933C84B4F4F", "Linux swap"),
    ("E6D6D379-F507-44C2-A23C-238F2A3DF928", "Linux LVM"),
    ("4F68BCE3-E8CD-4DB1-96E7-FBCAF984B709", "Linux root (x86-64)"),
    ("21686148-6449-6E6F-744E-656564454649", "BIOS boot")]

/-- `gpt_type_name`. -/
def gptTypeName (guid : List UInt8) : String := (gptTypes.lookup (guidToText guid)).getD "Other"

/-! ## Signatures -/

/-- `identify_fs`. -/
def identifyFs (sectorBytes : List UInt8) : FileSystemKind :=
  let is (offset : ℕ) (text : String) : Bool :=
    slice sectorBytes offset text.length = text.toList.map fun c => UInt8.ofNat c.toNat
  if sectorBytes.length < 512 then .unknown
  else if is 3 "NTFS    " then .ntfs
  else if is 0 "XFSB" then .xfs
  else if is 0 "LABELONE" then .lvm2
  else if (is 54 "FAT12   " || is 54 "FAT16   " || is 82 "FAT32   ") &&
      byteAt sectorBytes 510 = 0x55 && byteAt sectorBytes 511 = 0xAA then .fat
  else .unknown

/-- The file system of an ext superblock, by its features. -/
def extKind (sb : List UInt8) : FileSystemKind :=
  let featureCompat := ofLe (slice sb 0x5C 4)
  let featureIncompat := ofLe (slice sb 0x60 4)
  -- `INCOMPAT_EXTENTS`, `INCOMPAT_64BIT` and `INCOMPAT_FLEX_BG`; then `HAS_JOURNAL`.
  if featureIncompat &&& (0x0040 ||| 0x0080 ||| 0x0200) ≠ 0 then .ext4
  else if featureCompat &&& 0x0004 ≠ 0 then .ext3
  else .ext2

/-- `classify_os`. -/
def classifyOs (partitions : List Partition) : OperatingSystem :=
  let hasNtfs := partitions.any fun p => p.fileSystem = .ntfs
  let hasLinux := partitions.any fun p =>
    p.fileSystem ∈ [.ext2, .ext3, .ext4, .xfs, .btrfs, .lvm2]
  match hasNtfs, hasLinux with
  | true, _ => .windows
  | false, true => .linux
  | false, false => .unknown

/-! ## Reading the tables -/

section Reading

variable {m : Type → Type} [Monad m]

/-- `read_blocks`: whatever the driver's error is, it becomes one of the kind `other`. -/
def readBlocks (driver : VmDriver m) (bs index count : ℕ) : ExceptT IoError m (List UInt8) :=
  ExceptT.mk do
    match ← driver.readRange (mulw index bs) (mulw count bs) with
    | .ok data => pure (.ok data)
    | .error e => pure (.error (IoError.ofOther e.toText))

/-- An entry of an MBR or EBR: its type, its first sector and its number of sectors. -/
def mbrEntry (buf : List UInt8) (at' : ℕ) : ℕ × ℕ × ℕ :=
  (byteAt buf (at' + 4), ofLe (slice buf (at' + 8) 4), ofLe (slice buf (at' + 12) 4))

/-- A partition that is not probed yet. -/
def found (output : List Partition) (start size : ℕ) (kind : String) (label : Option (List Char)) :
    Partition :=
  ⟨output.length, start, size, kind, .unknown, label⟩

/-- `read_extended_chain`, with the number of links that it may still follow. -/
def readExtendedChain (driver : VmDriver m) (lbaExtended : ℕ) :
    ℕ → ℕ → List Partition → ExceptT IoError m (List Partition)
  | 0, _, output => pure output
  | left + 1, lbaEbr, output => do
    let ebr ← readBlocks driver sector lbaEbr 1
    if ebr.length < 512 ∨ byteAt ebr 510 ≠ 0x55 ∨ byteAt ebr 511 ≠ 0xAA then pure output
    else
      let (kind, relStart, sectors) := mbrEntry ebr 446
      let output := if kind ≠ 0 ∧ sectors ≠ 0 then
          output ++ [found output (mulw (addw lbaEbr relStart) sector) (mulw sectors sector)
            (mbrTypeName kind) none]
        else output
      let (nextKind, relNext, _) := mbrEntry ebr 462
      if nextKind = 0 ∨ relNext = 0 then pure output
      else readExtendedChain driver lbaExtended left (addw lbaExtended relNext) output

/-- The loop of `read_mbr` over the entries of the table. -/
def readMbrEntries (driver : VmDriver m) (mbr : List UInt8) :
    List ℕ → List Partition → ExceptT IoError m (List Partition)
  | [], output => pure output
  | i :: rest, output => do
    let (kind, lbaStart, sectors) := mbrEntry mbr (446 + i * 16)
    if kind = 0 ∨ sectors = 0 then readMbrEntries driver mbr rest output
    else if kind ∈ [0x05, 0x0F, 0x85] then do
      let output ← readExtendedChain driver lbaStart 64 lbaStart output
      readMbrEntries driver mbr rest output
    else readMbrEntries driver mbr rest (output ++
      [found output (mulw lbaStart sector) (mulw sectors sector) (mbrTypeName kind) none])

/-- `read_mbr`. -/
def readMbr (driver : VmDriver m) (mbr : List UInt8) : ExceptT IoError m (List Partition) :=
  readMbrEntries driver mbr [0, 1, 2, 3] []

/-- The name of a GPT entry, up to its first zero unit. -/
def gptLabel (entry : List UInt8) : Option (List Char) :=
  let units := (List.range 36).map fun i => ofLe (slice entry (56 + 2 * i) 2)
  let label := Text.trim (Text.fromUtf16Lossy (units.takeWhile (· ≠ 0)))
  if label = [] then none else some label

/-- The loop of `read_gpt` over the entries of the table. -/
def gptPartitions (table : List UInt8) (entrySize : ℕ) :
    List ℕ → List Partition → List Partition
  | [], output => output
  | i :: rest, output =>
    let start := i * entrySize
    if table.length < start + 128 then output
    else
      let entry := slice table start 128
      let firstLba := ofLe (slice entry 32 8)
      let lastLba := ofLe (slice entry 40 8)
      if (slice entry 0 16).all (· = 0) then gptPartitions table entrySize rest output
      else if lastLba < firstLba then gptPartitions table entrySize rest output
      else gptPartitions table entrySize rest (output ++
        [found output (mulw firstLba sector) (mulw (addw (lastLba - firstLba) 1) sector)
          (gptTypeName (slice entry 0 16)) (gptLabel entry)])

/-- `read_gpt`, on a header of 512 bytes. -/
def readGpt (driver : VmDriver m) (header : List UInt8) : ExceptT IoError m (List Partition) := do
  let lbaEntries := ofLe (slice header 72 8)
  let numEntries := ofLe (slice header 80 4)
  let entrySize := ofLe (slice header 84 4)
  if entrySize < 128 ∨ numEntries = 0 ∨ 1024 < numEntries then
    throw ⟨.invalidData, "GPT header has invalid table parameters"⟩
  else do
    let tableSectors := (numEntries * entrySize + sector - 1) / sector
    let table ← readBlocks driver sector lbaEntries tableSectors
    pure (gptPartitions table entrySize (List.range numEntries) [])

/-- `identify_linux_fs`. -/
def identifyLinuxFs (driver : VmDriver m) (start : ℕ) : ExceptT IoError m FileSystemKind := do
  let sb ← readBlocks driver sector (addw (start / sector) 2) 2
  if 0x64 ≤ sb.length ∧ byteAt sb 56 = 0x53 ∧ byteAt sb 57 = 0xEF then pure (extKind sb)
  else do
    let sbBtrfs ← readBlocks driver sector (addw (start / sector) 128) 1
    if 0x48 ≤ sbBtrfs.length ∧
        slice sbBtrfs 0x40 8 = "_BHRfS_M".toList.map (fun c => UInt8.ofNat c.toNat) then pure .btrfs
    else do
      let page ← readBlocks driver sector (addw (start / sector) 7) 1
      if page.length = 512 ∧
          slice page 502 10 = "SWAPSPACE2".toList.map (fun c => UInt8.ofNat c.toNat) then
        pure .linuxSwap
      else pure .unknown

/-- `single_partition`. -/
def singlePartition (driver : VmDriver m) (sector0 : List UInt8) : Partition :=
  ⟨0, 0, driver.virtualSize, "Volume without a partition table", identifyFs sector0, none⟩

/-- The error of a load that sees the token set. -/
def interrupted : IoError := ⟨.interrupted, "Analysis cancelled by the user"⟩

/-- A look at the token. -/
def checkCancelled (cancelled : m Bool) : ExceptT IoError m Unit := do
  if ← cancelled then throw interrupted else pure ()

/-- The scheme and the partitions, before they are probed. -/
def readTable (driver : VmDriver m) (header : List UInt8) :
    ExceptT IoError m (PartitionScheme × List Partition) := do
  let mbr := header.take 512
  if 1024 ≤ header.length ∧
      slice header 512 8 = "EFI PART".toList.map (fun c => UInt8.ofNat c.toNat) then do
    let partitions ← readGpt driver (slice header 512 512)
    pure (.gpt, partitions)
  else if byteAt mbr 510 = 0x55 ∧ byteAt mbr 511 = 0xAA then do
    let entries ← readMbr driver mbr
    if entries = [] ∧ identifyFs mbr ≠ .unknown then pure (.none, [singlePartition driver mbr])
    else pure (.mbr, entries)
  else pure (.none, [singlePartition driver mbr])

/-- The file system of one partition. -/
def probe (driver : VmDriver m) (p : Partition) : ExceptT IoError m Partition := do
  if p.fileSystem = .unknown ∧ 0 < p.size then do
    let firstSector ← readBlocks driver sector (p.start / sector) 1
    if firstSector.length = 512 then
      if identifyFs firstSector = .unknown then do
        let kind ← identifyLinuxFs driver p.start
        pure { p with fileSystem := kind }
      else pure { p with fileSystem := identifyFs firstSector }
    else pure p
  else pure p

/-- The loop over the partitions. -/
def probeAll (driver : VmDriver m) (cancelled : m Bool) (increment : m Unit) :
    List Partition → ExceptT IoError m (List Partition)
  | [] => pure []
  | p :: rest => do
    checkCancelled cancelled
    let probed ← probe driver p
    increment
    let others ← probeAll driver cancelled increment rest
    pure (probed :: others)

/-- `detect_with_progress`. -/
def detectWithProgress (driver : VmDriver m) (cancelled : m Bool) (increment : m Unit) :
    ExceptT IoError m DetectedDisk := do
  checkCancelled cancelled
  let header ← readBlocks driver sector 0 2
  if header.length < sector then
    throw ⟨.unexpectedEof, "The virtual disk is too small to contain a boot sector"⟩
  else do
    let (scheme, partitions) ← readTable driver header
    checkCancelled cancelled
    let probed ← probeAll driver cancelled increment partitions
    pure ⟨scheme, probed, classifyOs probed⟩

end Reading

end VmSpect.Detector
