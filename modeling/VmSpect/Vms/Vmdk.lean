import VmSpect.Lib.Logged
import VmSpect.Vms.FileSystem

/-!
# The VMDK format

The sparse header, the text descriptor and the sparse extent of `src/vms/vmdk.rs`. The arithmetic on
header fields wraps at 64 bits, as it does in a release build, and is logged. A sparse extent
carries that its grain size and table size are positive: it is only built after a division by their
product.
-/

namespace VmSpect.Vmdk

open Bytes Words UnixPath

/-- `SECTOR`. -/
def sector : ℕ := 512

/-- `MAGIC_KDMV`. -/
def magicKdmv : List UInt8 := [0x4B, 0x44, 0x4D, 0x56]

/-- `u64::MAX`. -/
def u64Max : ℕ := 2^64 - 1

/-- `OpenResult`. -/
inductive OpenResult (α : Type) where
  | native (value : α)
  | needsNbd (reason : String)

/-! ## The header of a sparse extent -/

/-- `SparseHeader`. -/
structure SparseHeader where
  version : ℕ
  flags : ℕ
  capacitySectors : ℕ
  grainSectors : ℕ
  descriptorOffset : ℕ
  descriptorSectors : ℕ
  gtesPerGt : ℕ
  rgdOffset : ℕ
  gdOffset : ℕ
  compression : ℕ
  deriving DecidableEq, Repr

/-- `is_sparse_header`. -/
def isSparseHeader (buf : List UInt8) : Bool := 4 ≤ buf.length && buf.take 4 = magicKdmv

/-- `read_sparse_header`. -/
def readSparseHeader (buf : List UInt8) : Except IoError SparseHeader :=
  let u32At (o : ℕ) : ℕ := ofLe (slice buf o 4)
  let u64At (o : ℕ) : ℕ := ofLe (slice buf o 8)
  if buf.length < 80 ∨ isSparseHeader buf = false then
    .error ⟨.invalidData, "Invalid VMDK sparse header"⟩
  else
    .ok {
      version := u32At 4
      flags := u32At 8
      capacitySectors := u64At 12
      grainSectors := u64At 20
      descriptorOffset := u64At 28
      descriptorSectors := u64At 36
      gtesPerGt := u32At 44
      rgdOffset := u64At 48
      gdOffset := u64At 56
      compression := ofLe (slice buf 77 2) }

/-- `u64::is_power_of_two`. -/
def isPowerOfTwo (n : ℕ) : Bool := n ≠ 0 && n &&& (n - 1) = 0

/-- `unsupported_reason`. -/
def SparseHeader.unsupportedReason (h : SparseHeader) : Option String :=
  -- `FLAG_GRAINS_COMPRIMIDOS` and `FLAG_MARCADORES`.
  if h.compression ≠ 0 ∨ h.flags &&& (2^16 ||| 2^17) ≠ 0 then
    some "VMDK with compressed grains (streamOptimized)"
  else if h.gdOffset = u64Max ∨ h.gdOffset = 0 then
    some "VMDK without a grain directory in its header"
  else if h.grainSectors = 0 ∨ isPowerOfTwo h.grainSectors = false then
    some s!"VMDK with unsupported grain size ({h.grainSectors} sectors)"
  else if h.gtesPerGt = 0 ∨ h.capacitySectors = 0 then
    some "VMDK with inconsistent sparse header"
  else none

/-! ## The text descriptor -/

/-- `ExtentDescriptor`. -/
structure ExtentDescriptor where
  access : List Char
  sectors : ℕ
  kind : List Char
  file : Option (List Char)
  offsetSectors : ℕ
  deriving DecidableEq, Repr

/-- `Descriptor`. -/
structure Descriptor where
  createType : List Char := []
  parentCid : Option ℕ := none
  parentFileNameHint : Option (List Char) := none
  extents : List ExtentDescriptor := []
  deriving DecidableEq, Repr

/-- The hint that names a parent: one that is blank does not. -/
def Descriptor.parentName (d : Descriptor) : Option (List Char) :=
  d.parentFileNameHint.filter (fun name => Text.trim name ≠ [])

/-- `has_parent`. -/
def Descriptor.hasParent (d : Descriptor) : Bool :=
  d.parentName.isSome || d.parentCid.any (· ≠ 0xFFFFFFFF)

/-- `is_text_descriptor`. -/
def isTextDescriptor (buf : List UInt8) : Bool :=
  "# Disk DescriptorFile".toList.isPrefixOf (Text.trimStart (Text.fromUtf8Lossy (buf.take 64)))

/-- The state of `tokenize`: the finished tokens, the current one, and whether a quote is open. -/
structure Tokens where
  tokens : List (List Char)
  current : List Char
  inQuotes : Bool

/-- The current token is finished, unless it is empty. -/
def Tokens.push (t : Tokens) : List (List Char) :=
  if t.current = [] then t.tokens else t.tokens ++ [t.current]

/-- One character of `tokenize`. -/
def Tokens.next (t : Tokens) (c : Char) : Tokens :=
  if c = '"' then { t with inQuotes := !t.inQuotes }
  else if (c = ' ' ∨ c = '\t') ∧ t.inQuotes = false then { t with tokens := t.push, current := [] }
  else { t with current := t.current ++ [c] }

/-- `tokenize`. -/
def tokenize (line : List Char) : List (List Char) := (line.foldl Tokens.next ⟨[], [], false⟩).push

/-- An extent line: access, sectors, type, and possibly a file and an offset. -/
def parseExtent (tokens : List (List Char)) : ExtentDescriptor where
  access := Text.toAsciiUppercase (tokens.getD 0 [])
  sectors := (Text.parseUnsigned 10 (2^64) (tokens.getD 1 [])).getD 0
  kind := Text.toAsciiUppercase (tokens.getD 2 [])
  file := tokens[3]?
  offsetSectors := ((tokens[4]?).bind (Text.parseUnsigned 10 (2^64))).getD 0

/-- A `key=value` line. -/
def parseEntry (d : Descriptor) (line : List Char) : Descriptor :=
  match Text.splitOnce '=' line with
  | none => d
  | some (key, value) =>
    let key := Text.toAsciiLowercase (Text.trim key)
    let value := Text.trimMatches (· = '"') (Text.trim value)
    if key = "createtype".toList then { d with createType := value }
    else if key = "parentcid".toList then
      { d with parentCid := Text.parseUnsigned 16 (2^32) value }
    else if key = "parentfilenamehint".toList then { d with parentFileNameHint := some value }
    else d

/-- The words that an extent line starts with. -/
def accessWords : List (List Char) := ["RW".toList, "RDONLY".toList, "NOACCESS".toList]

/-- One line of `parse_descriptor`. -/
def parseLine (d : Descriptor) (line : List Char) : Descriptor :=
  let line := Text.trimMatches (fun c => c = '\x00' ∨ c = ' ' ∨ c = '\t' ∨ c = '\r') line
  if line = [] ∨ line.head? = some '#' then d
  else
    let tokens := tokenize line
    if tokens = [] then d
    else if Text.toAsciiUppercase (tokens.getD 0 []) ∈ accessWords ∧ 3 ≤ tokens.length then
      { d with extents := d.extents ++ [parseExtent tokens] }
    else parseEntry d line

/-- `parse_descriptor`. -/
def parseDescriptor (text : List Char) : Descriptor := (Text.lines text).foldl parseLine {}

/-- `resolve_extent_path`. -/
def resolveExtentPath (descriptor : Path) (file : List Char) : Path :=
  let p := Path.ofText file
  if p.isAbsolute then p
  else
    match descriptor.parent with
    | some dir => dir.join p
    | none => p

/-- `open_component_file`. -/
def openComponentFile (fs : FileSystem) (path descriptorPath : Path) (declaredName : List Char)
    (componentType : String) (device : Device := .sound) : Except VmSpectError (List UInt8) :=
  (fs.openReadFile path device).mapError
    (.fromDiskComponentIo descriptorPath declaredName path componentType "open")

/-- On a sound device a component is opened when it can be. -/
@[simp] theorem openComponentFile_sound (fs : FileSystem) (path descriptorPath : Path)
    (declaredName : List Char) (componentType : String) :
    openComponentFile fs path descriptorPath declaredName componentType = (fs.openRead path).mapError
      (.fromDiskComponentIo descriptorPath declaredName path componentType "open") :=
  rfl

/-- `ensure_component_exists`. -/
def ensureComponentExists (fs : FileSystem) (descriptorPath : Path) (declaredName : List Char)
    (resolvedPath : Path) (componentType : String) (device : Device := .sound) :
    Except VmSpectError Unit :=
  ((fs.stat resolvedPath device).map fun _ => ()).mapError
    (.fromDiskComponentIo descriptorPath declaredName resolvedPath componentType "stat")

/-- On a sound device a component exists when it has metadata. -/
@[simp] theorem ensureComponentExists_sound (fs : FileSystem) (descriptorPath : Path)
    (declaredName : List Char) (resolvedPath : Path) (componentType : String) :
    ensureComponentExists fs descriptorPath declaredName resolvedPath componentType =
      ((fs.metadata resolvedPath).map fun _ => ()).mapError
        (.fromDiskComponentIo descriptorPath declaredName resolvedPath componentType "stat") :=
  rfl

/-! ## The sparse extent -/

/-- `SparseExtent`, with the tables that were loaded, by their index. -/
structure SparseExtent where
  file : List UInt8
  grainBytes : ℕ
  gtesPerGt : ℕ
  capacityBytes : ℕ
  directory : List ℕ
  tables : ℕ → Option (List ℕ)
  grainBytes_pos : 0 < grainBytes
  gtesPerGt_pos : 0 < gtesPerGt

/-- The words of four bytes in a buffer; a rest of fewer bytes is left out. -/
def wordsOf (raw : List UInt8) : List ℕ :=
  (List.range (raw.length / 4)).map fun i => ofLe (slice raw (4 * i) 4)

/-- The directory that is read: the redundant one when the header marks it as used. -/
def SparseHeader.directoryOffset (h : SparseHeader) : ℕ :=
  if h.flags &&& 0x2 ≠ 0 ∧ h.rgdOffset ≠ 0 ∧ h.rgdOffset ≠ u64Max then h.rgdOffset else h.gdOffset

/-- A product that is not zero has no factor that is. -/
theorem factors_pos {n a b : ℕ} (h : n = mulw a b) (hn : n ≠ 0) : 0 < a ∧ 0 < b := by
  subst h
  constructor <;> refine Nat.pos_of_ne_zero fun hzero => hn ?_ <;> simp [mulw, hzero]

/-- `SparseExtent::from_header`. -/
def SparseExtent.fromHeader (file : List UInt8) (cab : SparseHeader) (device : Device := .sound) :
    Logged (Stop IoError) (OpenResult SparseExtent) :=
  match cab.unsupportedReason with
  | some reason => pure (.needsNbd reason)
  | none => do
    let ⟨grainBytes, _⟩ ← Logged.mul cab.grainSectors sector
    let ⟨bytesPerGt, hbytes⟩ ← Logged.mul grainBytes cab.gtesPerGt
    let ⟨capacityBytes, _⟩ ← Logged.mul cab.capacitySectors sector
    let ⟨numGts, hnum⟩ ← Logged.divCeil .panic capacityBytes bytesPerGt
    if 2^20 < numGts then
      pure (.needsNbd "VMDK with a disproportionate grain directory")
    else do
      let ⟨start, _⟩ ← Logged.mul cab.directoryOffset sector
      Logged.ofExcept ((seekFile start device).mapError .error)
      let raw ← Logged.ofExcept ((readExact file start (numGts * 4) device).mapError .error)
      pure (.native {
        file, grainBytes, capacityBytes
        gtesPerGt := cab.gtesPerGt
        directory := wordsOf raw
        tables := fun _ => none
        grainBytes_pos := (factors_pos hbytes hnum.1).1
        gtesPerGt_pos := (factors_pos hbytes hnum.1).2 })

/-- `SparseExtent::open`. The file is opened and its header is read on `device`, and the directory on
`directory`. -/
def SparseExtent.open (fs : FileSystem) (path descriptorPath : Path) (declaredName : List Char)
    (componentType : String) (device directory : Device := .sound) :
    Logged (Stop VmSpectError) (OpenResult SparseExtent) := do
  let readError (e : IoError) : VmSpectError :=
    .fromDiskComponentIo descriptorPath declaredName path componentType "read" e
  let file ← Logged.ofExcept
    ((openComponentFile fs path descriptorPath declaredName componentType device).mapError .error)
  let buf ← Logged.ofExcept ((readExact file 0 512 device).mapError fun e => .error (readError e))
  let cab ← Logged.ofExcept ((readSparseHeader buf).mapError fun e => .error (readError e))
  (SparseExtent.fromHeader file cab directory).mapError (.map readError)

namespace SparseExtent

/-- `table`: the table at a place of the directory, loaded when it is not cached; `none` when it is
not allocated. -/
def table (ext : SparseExtent) (gdIndex : ℕ) (device : Device := .sound) :
    SparseExtent × Except IoError (Option (List ℕ)) :=
  match ext.directory[gdIndex]? with
  | none => (ext, .ok none)
  | some gde =>
    if gde ≤ 1 then (ext, .ok none)
    else
      match ext.tables gdIndex with
      | some table => (ext, .ok (some table))
      | none =>
        match seekFile (mulw gde sector) device with
        | .error e => (ext, .error e)
        | .ok () =>
          match readExact ext.file (mulw gde sector) (ext.gtesPerGt * 4) device with
          | .error e => (ext, .error e)
          | .ok raw =>
            ({ ext with tables := Function.update ext.tables gdIndex (some (wordsOf raw)) },
              .ok (some (wordsOf raw)))

/-- The sector of a grain in the file: 0 when its table or its entry is missing. -/
def grainSector (table : Option (List ℕ)) (gteIndex : ℕ) : ℕ :=
  (table.bind (·[gteIndex]?)).getD 0

/-- The part of a grain at `within`: from the file, or zeros when it is not allocated. -/
def grainPart (ext : SparseExtent) (sectorOfGrain within n : ℕ) (device : Device := .sound) :
    Except IoError (List UInt8) :=
  if 1 < sectorOfGrain then do
    seekFile (addw (mulw sectorOfGrain sector) within) device
    tryReadOrZeros ext.file (addw (mulw sectorOfGrain sector) within) n device
  else .ok (List.replicate n 0)

/-- The loop of `read_at`, once `done` of `total` bytes are in the buffer. -/
def readGrains (offset total : ℕ) (ext : SparseExtent) (done : ℕ) (buf : List UInt8)
    (device : Device := .sound) : SparseExtent × Except IoError (ℕ × List UInt8) :=
  if _hlt : done < total then
    let pos := addw offset done
    let grain := pos / ext.grainBytes
    let within := pos % ext.grainBytes
    let n := min (ext.grainBytes - within) (total - done)
    let gdIndex := (grain / ext.gtesPerGt) % 2^32
    let gteIndex := grain % ext.gtesPerGt
    match ext.table gdIndex device with
    | (ext', .error e) => (ext', .error e)
    | (ext', .ok table) =>
      match ext'.grainPart (grainSector table gteIndex) within n device with
      | .error e => (ext', .error e)
      | .ok part => readGrains offset total ext' (done + n) (writeAt buf done part) device
  else (ext, .ok (total, buf))
  termination_by total - done
  decreasing_by
    have hwithin : addw offset done % ext.grainBytes < ext.grainBytes :=
      Nat.mod_lt _ ext.grainBytes_pos
    omega

/-- `read_at`: how many bytes of the buffer fall within the capacity, and the buffer. -/
def readAt (ext : SparseExtent) (offset : ℕ) (buf : List UInt8) (device : Device := .sound) :
    SparseExtent × Except IoError (ℕ × List UInt8) :=
  if ext.capacityBytes ≤ offset then (ext, .ok (0, buf))
  else readGrains offset (min buf.length (ext.capacityBytes - offset)) ext 0 buf device

end SparseExtent

end VmSpect.Vmdk
