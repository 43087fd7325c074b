import VmSpect.Vms.Vmdk

/-!
# Identifying and opening an image

`identify_image` and `open_native` of `src/vms/stream.rs`: the format of an image by its first bytes
and its extension, its virtual size, and the backend that reads it. The validation of the components
of a VMDK follows its parents up to `MAX_VMDK_PARENT_DEPTH`.

Vectors longer than `isize::MAX` panic. Running out of memory for a shorter one is not modelled.
-/

namespace VmSpect

open Bytes Words UnixPath Vmdk

/-- `Hypervisor`. -/
inductive Hypervisor where
  | vmware
  | virtualBox
  | hyperV
  | qemu
  | unknown
  deriving DecidableEq, Repr

/-- The formats that an image is identified as. -/
inductive Format where
  | raw
  | vmdk
  | vdi
  | vpc
  | vhdx
  | qcow2
  | qcow
  | qed
  deriving DecidableEq, Repr

/-- The name of a format in `ImageInfo`. -/
def Format.name : Format → String
  | raw => "raw"
  | vmdk => "vmdk"
  | vdi => "vdi"
  | vpc => "vpc"
  | vhdx => "vhdx"
  | qcow2 => "qcow2"
  | qcow => "qcow"
  | qed => "qed"

/-- `Hypervisor::from_format`. -/
def Hypervisor.fromFormat : Format → Hypervisor
  | .vmdk => .vmware
  | .vdi => .virtualBox
  | .vpc => .hyperV
  | .vhdx => .hyperV
  | .qcow => .qemu
  | .qcow2 => .qemu
  | .qed => .qemu
  | .raw => .unknown

/-- `ImageInfo`. -/
structure ImageInfo where
  path : Path
  format : Format
  virtualSize : ℕ
  actualSize : ℕ
  hypervisor : Hypervisor
  deriving DecidableEq, Repr

/-! ## The uses of files -/

/-- What a file is used for while it is a component of an image. -/
inductive FilePart where
  /-- It is opened, and its front is read. -/
  | header
  | descriptor
  | text
  | directory
  deriving DecidableEq, Repr

/-- The uses of files until an image is open. -/
inductive FileUse where
  /-- The look at the image before anything else. -/
  | image
  /-- `identify_image`, `native_vmdk_capacity` and `compute_actual_vmdk_size`. -/
  | identified
  | fileSize
  | footer
  | capacityText
  | actualSize
  | actualSizeText
  /-- The size of an extent, whose failure is ignored. -/
  | extentSize (path : Path)
  /-- `validate_vmdk_components_inner`, with the number of levels that are left. -/
  | component (left : ℕ) (part : FilePart)
  | parentStat (left : ℕ)
  /-- The check of an extent with so many after it. -/
  | extentStat (left rest : ℕ)
  /-- `open_native`. -/
  | main (part : FilePart)
  /-- An extent of a text descriptor with so many before it. -/
  | extent (index : ℕ) (part : FilePart)
  deriving DecidableEq, Repr

/-- What the system answers in each use. -/
abbrev Devices := FileUse → Device

/-- No call fails in any of them. -/
abbrev Devices.sound : Devices := fun _ => .sound

/-! ## Identification -/

/-- `format_by_extension`. -/
def formatByExtension (path : Path) : Option Format := do
  let ext := Text.toAsciiLowercase (← path.extension)
  if ext = "vmdk".toList then some .vmdk
  else if ext = "vdi".toList then some .vdi
  else if ext = "vhd".toList then some .vpc
  else if ext = "vhdx".toList then some .vhdx
  else if ext = "qcow2".toList then some .qcow2
  else if ext = "qcow".toList then some .qcow
  else if ext = "qed".toList then some .qed
  else if ext ∈ ["img".toList, "raw".toList, "dd".toList, "bin".toList] then some .raw
  else none

/-- The bytes of an ASCII text. -/
def asciiBytes (text : String) : List UInt8 := text.toList.map fun c => UInt8.ofNat c.toNat

/-- `format_by_signature`. -/
def formatBySignature (header : List UInt8) : Option Format :=
  if header.length < 8 then none
  else if isSparseHeader header ∨ isTextDescriptor header then some .vmdk
  -- The text of a VirtualBox image, and its signature at offset 0x40.
  else if (asciiBytes "<<< ").isPrefixOf header ∧ 0x44 ≤ header.length ∧
      slice header 0x40 4 = [0x7F, 0x10, 0xDA, 0xBE] then some .vdi
  else if (asciiBytes "conectix").isPrefixOf header then some .vpc
  else if (asciiBytes "vhdxfile").isPrefixOf header then some .vhdx
  else if (asciiBytes "QFI" ++ [0xFB]).isPrefixOf header then some .qcow2
  else if (asciiBytes "QED" ++ [0]).isPrefixOf header then some .qed
  else none

/-- `native_vmdk_capacity`. -/
def nativeVmdkCapacity (fs : FileSystem) (path : Path) (header : List UInt8)
    (device : Device := .sound) : Logged (Stop IoError) (Option ℕ) :=
  if isSparseHeader header then do
    let cab ← Logged.ofExcept ((readSparseHeader header).mapError .error)
    let ⟨capacity, _⟩ ← Logged.mul cab.capacitySectors sector
    pure (some capacity)
  else if isTextDescriptor header then do
    let text := (fs.readToString path device).toOption.getD []
    let total ← Logged.sum ((parseDescriptor text).extents.map (·.sectors)) 0
    if 0 < total then do
      let ⟨capacity, _⟩ ← Logged.mul total sector
      pure (some capacity)
    else pure none
  else pure none

/-- `compute_actual_vmdk_size`. -/
def computeActualVmdkSize (fs : FileSystem) (vmdkPath : Path) (header : List UInt8)
    (devices : Devices := .sound) : ℕ :=
  let own := (fs.stat vmdkPath (devices .actualSize)).toOption.getD 0
  if isTextDescriptor header then
    match fs.readToString vmdkPath (devices .actualSizeText) with
    | .error _ => own
    | .ok text => (parseDescriptor text).extents.foldl (fun total extent =>
        match extent.file with
        | none => total
        | some name =>
          let path := resolveExtentPath vmdkPath name
          match fs.stat path (devices (.extentSize path)) with
          | .ok size => addw total size
          | .error _ => total) own
  else own

/-- The size that a header or footer gives, unless it is zero. -/
def sizeOr (fileSize size : ℕ) : ℕ := if 0 < size then size else fileSize

/-- The virtual size of a `vpc` image, from its footer or, without one that can be read, from the copy
at its front. -/
def vpcVirtualSize (file header : List UInt8) (device : Device := .sound) : ℕ :=
  if 512 ≤ file.length then
    let start := file.length - 512
    let footer := slice file start 512
    let isRead := (device.seek start).isNone && (device.filling start 512).isNone
    if isRead && (asciiBytes "conectix").isPrefixOf footer then
      sizeOr file.length (ofBe (slice footer 48 8))
    else if (asciiBytes "conectix").isPrefixOf header then
      sizeOr file.length (ofBe (slice header 48 8))
    else file.length
  else file.length

/-- The buffer for the header after the read, whose failure is ignored. -/
def identifiedHeader (file : List UInt8) (device : Device := .sound) : List UInt8 :=
  match device.read 0 (min 1024 file.length) with
  | some _ => List.replicate (min 1024 file.length) 0
  | none => file.take 1024

/-- The rest of `identify_image`, by the front of the file. -/
def identifyFormat (fs : FileSystem) (path : Path) (file header : List UInt8)
    (devices : Devices := .sound) : Logged (Stop IoError) ImageInfo :=
  let fileSize := file.length
  match (formatBySignature header).or (formatByExtension path) with
  | some .vmdk => do
    match ← nativeVmdkCapacity fs path header (devices .capacityText) with
    | some capacity =>
      let actualSize := computeActualVmdkSize fs path header devices
      pure ⟨path, .vmdk, capacity, actualSize, .vmware⟩
    | none =>
      let actualSize := computeActualVmdkSize fs path header devices
      pure ⟨path, .vmdk, fileSize, sizeOr fileSize actualSize, .vmware⟩
  | some .qcow2 =>
    let virtualSize :=
      if 32 ≤ header.length ∧ (asciiBytes "QFI" ++ [0xFB]).isPrefixOf header then
        sizeOr fileSize (ofBe (slice header 24 8))
      else fileSize
    pure ⟨path, .qcow2, virtualSize, fileSize, .qemu⟩
  | some .vpc =>
    pure ⟨path, .vpc, vpcVirtualSize file header (devices .footer), fileSize, .hyperV⟩
  | some .vdi =>
    let virtualSize :=
      if 0x178 ≤ header.length ∧ (asciiBytes "<<< ").isPrefixOf header then
        sizeOr fileSize (ofLe (slice header 0x170 8))
      else fileSize
    pure ⟨path, .vdi, virtualSize, fileSize, .virtualBox⟩
  | some format => pure ⟨path, format, fileSize, fileSize, .fromFormat format⟩
  | none => pure ⟨path, .raw, fileSize, fileSize, .unknown⟩

/-- `identify_image`. -/
def identifyImage (fs : FileSystem) (path : Path) (devices : Devices := .sound) :
    Logged (Stop IoError) ImageInfo := do
  let file ← Logged.ofExcept ((fs.openReadFile path (devices .identified)).mapError .error)
  Logged.ofExcept ((Device.orError (devices .fileSize).access (.ok ())).mapError .error)
  identifyFormat fs path file (identifiedHeader file (devices .identified)) devices

/-- When no call fails, the header is the front of the file. -/
theorem identifyImage_sound (fs : FileSystem) (path : Path) :
    identifyImage fs path = (do
      let file ← Logged.ofExcept ((fs.openRead path).mapError .error)
      identifyFormat fs path file (file.take 1024)) :=
  rfl

/-- An image that can be opened is identified by its front. -/
theorem identifyImage_of_openRead {fs : FileSystem} {path : Path} {file : List UInt8}
    (hopen : fs.openRead path = .ok file) :
    identifyImage fs path = identifyFormat fs path file (file.take 1024) := by
  rw [identifyImage_sound, hopen, Logged.ofExcept_ok_bind]

/-- A VMDK is identified with the capacity that its header or descriptor gives, or else with the
size of the file. -/
theorem identifyImage_vmdk {fs : FileSystem} {path : Path} {file : List UInt8} {capacity : Option ℕ}
    (hopen : fs.openRead path = .ok file) (hformat : formatBySignature (file.take 1024) = some .vmdk)
    (hcapacity : (nativeVmdkCapacity fs path (file.take 1024)).result = .ok capacity) :
    ∃ actualSize, (identifyImage fs path).result =
      .ok ⟨path, .vmdk, capacity.getD file.length, actualSize, .vmware⟩ := by
  rw [identifyImage_of_openRead hopen, identifyFormat, hformat]
  dsimp only [Option.or]
  rw [Logged.bind_of_ok hcapacity]
  cases capacity with
  | none => exact ⟨_, rfl⟩
  | some capacity => exact ⟨_, rfl⟩

/-! ## The backends -/

/-- `ExtentData`. -/
inductive ExtentData where
  | flat (file : List UInt8) (offset : ℕ)
  | sparse (extent : SparseExtent)
  | zero

/-- `OpenExtent`. -/
structure OpenExtent where
  start : ℕ
  length : ℕ
  data : ExtentData

/-- `Backend`, over the type of an open NBD session. -/
inductive Backend (ν : Type) where
  | raw (file : List UInt8)
  | sparse (extent : SparseExtent)
  | extents (extents : List OpenExtent)
  | nbd (reader : ν)

/-! ## Validation of the components -/

/-- `open_main_image_file`. -/
def openMainImageFile (fs : FileSystem) (path : Path) (device : Device := .sound) :
    Except VmSpectError (List UInt8) :=
  (fs.openReadFile path device).mapError fun source =>
    if source.kind = .notFound then .imageNotFound path.display else .io source

/-- On a sound device the image is opened when it can be. -/
@[simp] theorem openMainImageFile_sound (fs : FileSystem) (path : Path) :
    openMainImageFile fs path = (fs.openRead path).mapError fun source =>
      if source.kind = .notFound then .imageNotFound path.display else .io source :=
  rfl

/-- Opening the image gives what the file system holds. -/
theorem openMainImageFile_eq_ok {fs : FileSystem} {path : Path} {file : List UInt8} :
    openMainImageFile fs path = .ok file ↔ fs.openRead path = .ok file := by
  rw [openMainImageFile_sound]
  cases fs.openRead path <;> simp [Except.mapError]

/-- The descriptor inside a sparse file, if it has one. -/
def embeddedDescriptor (file : List UInt8) (cab : SparseHeader) (device : Device := .sound) :
    Logged (Stop VmSpectError) (Option Descriptor) :=
  if cab.descriptorOffset = 0 ∨ cab.descriptorSectors = 0 then pure none
  else do
    let ⟨size, _⟩ ← Logged.mul cab.descriptorSectors sector
    if maxVecLen < size then throw .panic
    else do
      let ⟨start, _⟩ ← Logged.mul cab.descriptorOffset sector
      Logged.ofExcept ((seekFile start device).mapError fun e => .error (.io e))
      let text ← Logged.ofExcept
        ((tryReadOrZeros file start size device).mapError fun e => .error (.io e))
      pure (some (parseDescriptor (Text.fromUtf8Lossy text)))

/-- On a sound device only the seek can fail. -/
theorem embeddedDescriptor_sound (file : List UInt8) (cab : SparseHeader) :
    embeddedDescriptor file cab =
      (if cab.descriptorOffset = 0 ∨ cab.descriptorSectors = 0 then pure none
      else do
        let ⟨size, _⟩ ← Logged.mul cab.descriptorSectors sector
        if maxVecLen < size then throw .panic
        else do
          let ⟨start, _⟩ ← Logged.mul cab.descriptorOffset sector
          Logged.ofExcept ((seekFile start).mapError fun e => .error (.io e))
          pure (some (parseDescriptor (Text.fromUtf8Lossy (readOrZeros file start size))))) :=
  rfl

/-- `validate_parent_reference`. -/
def validateParentReference (fs : FileSystem) (descriptorPath : Path) (d : Descriptor)
    (device : Device := .sound) : Except VmSpectError Unit :=
  match d.parentName with
  | none => .ok ()
  | some name => ensureComponentExists fs descriptorPath name
      (resolveExtentPath descriptorPath name) "VMDK parent disk" device

/-- `validate_extent_paths`, with the device of each extent by the number of those after it. -/
def validateExtentPaths (fs : FileSystem) (descriptorPath : Path) (extents : List ExtentDescriptor)
    (devices : ℕ → Device := fun _ => .sound) : Except VmSpectError Unit :=
  match extents with
  | [] => .ok ()
  | extent :: rest =>
    if extent.kind = "ZERO".toList then validateExtentPaths fs descriptorPath rest devices
    else
      match extent.file with
      | none => validateExtentPaths fs descriptorPath rest devices
      | some name => do
        ensureComponentExists fs descriptorPath name (resolveExtentPath descriptorPath name)
          "VMDK extent" (devices rest.length)
        validateExtentPaths fs descriptorPath rest devices

/-- `validate_descriptor_components`. -/
def validateDescriptorComponents (fs : FileSystem) (descriptorPath : Path) (d : Descriptor)
    (parent : Device := .sound) (extents : ℕ → Device := fun _ => .sound) :
    Except VmSpectError Unit := do
  validateParentReference fs descriptorPath d parent
  validateExtentPaths fs descriptorPath d.extents extents

/-- `MAX_VMDK_PARENT_DEPTH`. -/
def maxVmdkParentDepth : ℕ := 32

/-- The descriptor of a VMDK file, if it has one. -/
def componentDescriptor (fs : FileSystem) (path : Path) (file : List UInt8)
    (parts : FilePart → Device := fun _ => .sound) :
    Logged (Stop VmSpectError) (Option Descriptor) := do
  let header ← Logged.ofExcept
    ((readFront file 512 (parts .header)).mapError fun e => .error (.io e))
  if isSparseHeader header then do
    let cab ← Logged.ofExcept ((readSparseHeader header).mapError fun e => .error (.io e))
    embeddedDescriptor file cab (parts .descriptor)
  else if isTextDescriptor header then do
    let text ← Logged.ofExcept
      ((fs.readToString path (parts .text)).mapError fun e => .error (.io e))
    pure (some (parseDescriptor text))
  else pure none

/-- On a sound device the front of the file is read. -/
theorem componentDescriptor_sound (fs : FileSystem) (path : Path) (file : List UInt8) :
    componentDescriptor fs path file =
      (if isSparseHeader (file.take 512) then do
        let cab ← Logged.ofExcept
          ((readSparseHeader (file.take 512)).mapError fun e => .error (.io e))
        embeddedDescriptor file cab
      else if isTextDescriptor (file.take 512) then do
        let text ← Logged.ofExcept ((fs.readToString path).mapError fun e => .error (.io e))
        pure (some (parseDescriptor text))
      else pure none) :=
  rfl

/-- The image itself, or a parent through the reference to it. -/
def openReferenced (fs : FileSystem) (path : Path) (parentContext : Option (Path × List Char))
    (device : Device := .sound) : Except VmSpectError (List UInt8) :=
  match parentContext with
  | some (descriptorPath, name) =>
    openComponentFile fs path descriptorPath name "VMDK parent disk" device
  | none => openMainImageFile fs path device

/-- `validate_vmdk_components_inner`, with the number of levels that are left and the reference
through which the file is reached. -/
def validateVmdkComponentsInner (fs : FileSystem) (left : ℕ) (path : Path) (visited : List Path)
    (parentContext : Option (Path × List Char)) (devices : Devices := .sound) :
    Logged (Stop VmSpectError) Unit :=
  match left with
  | 0 => throw (.error (.parse
      (s!"VMDK parent chain exceeds the maximum depth of {maxVmdkParentDepth} at " ++
        s!"'{path.display}'")))
  | left + 1 => do
    let identity := (fs.canonicalize path).getD path
    if identity ∈ visited then
      throw (.error (.parse s!"VMDK parent chain contains a cycle at '{path.display}'"))
    else do
      let parts (part : FilePart) : Device := devices (.component left part)
      let file ← Logged.ofExcept
        ((openReferenced fs path parentContext (parts .header)).mapError .error)
      match ← componentDescriptor fs path file parts with
      | none => pure ()
      | some d => do
        Logged.ofExcept ((validateDescriptorComponents fs path d (devices (.parentStat left))
          fun rest => devices (.extentStat left rest)).mapError .error)
        match d.parentName with
        | none => pure ()
        | some name =>
          validateVmdkComponentsInner fs left (resolveExtentPath path name) (identity :: visited)
            (some (path, name)) devices

/-- One level of the chain, when no call fails. -/
theorem validateVmdkComponentsInner_succ (fs : FileSystem) (left : ℕ) (path : Path)
    (visited : List Path) (parentContext : Option (Path × List Char)) :
    validateVmdkComponentsInner fs (left + 1) path visited parentContext = (
      let identity := (fs.canonicalize path).getD path
      if identity ∈ visited then
        throw (.error (.parse s!"VMDK parent chain contains a cycle at '{path.display}'"))
      else do
        let file ← Logged.ofExcept ((openReferenced fs path parentContext).mapError .error)
        match ← componentDescriptor fs path file with
        | none => pure ()
        | some d => do
          Logged.ofExcept ((validateDescriptorComponents fs path d).mapError .error)
          match d.parentName with
          | none => pure ()
          | some name =>
            validateVmdkComponentsInner fs left (resolveExtentPath path name) (identity :: visited)
              (some (path, name))) :=
  rfl

/-- `validate_vmdk_components`. -/
def validateVmdkComponents (fs : FileSystem) (path : Path) (devices : Devices := .sound) :
    Logged (Stop VmSpectError) Unit :=
  validateVmdkComponentsInner fs (maxVmdkParentDepth + 1) path [] none devices

/-! ## Opening -/

/-- The data of one extent of a text descriptor. -/
def openExtentData (fs : FileSystem) (path : Path) (e : ExtentDescriptor)
    (parts : FilePart → Device := fun _ => .sound) :
    Logged (Stop VmSpectError) (OpenResult ExtentData) :=
  if e.kind = "ZERO".toList then pure (.native .zero)
  else if e.kind ∈ ["FLAT".toList, "VMFS".toList, "VMFSRAW".toList] then
    match e.file with
    | none => pure (.needsNbd "FLAT extent without a file")
    | some name => do
      let file ← Logged.ofExcept ((openComponentFile fs (resolveExtentPath path name) path name
        "VMDK extent" (parts .header)).mapError .error)
      let ⟨offset, _⟩ ← Logged.mul e.offsetSectors sector
      pure (.native (.flat file offset))
  else if e.kind ∈ ["SPARSE".toList, "VMFSSPARSE".toList] then
    match e.file with
    | none => pure (.needsNbd "SPARSE extent without a file")
    | some name => do
      match ← SparseExtent.open fs (resolveExtentPath path name) path name "VMDK extent"
        (parts .header) (parts .directory) with
      | .native extent => pure (.native (.sparse extent))
      | .needsNbd reason => pure (.needsNbd reason)
  else pure (.needsNbd s!"VMDK extent of type {String.ofList e.kind} is not supported")

/-- The loop over the extents of a text descriptor, from the running start on. -/
def openExtents (fs : FileSystem) (path : Path) (extents : List ExtentDescriptor) (start : ℕ)
    (opened : List OpenExtent) (devices : Devices := .sound) :
    Logged (Stop VmSpectError) (OpenResult (List OpenExtent)) :=
  match extents with
  | [] => pure (.native opened)
  | e :: rest => do
    let ⟨length, _⟩ ← Logged.mul e.sectors sector
    match ← openExtentData fs path e fun part => devices (.extent opened.length part) with
    | .needsNbd reason => pure (.needsNbd reason)
    | .native data => do
      let ⟨next, _⟩ ← Logged.add start length
      openExtents fs path rest next (opened ++ [⟨start, length, data⟩]) devices

/-- The first extent is opened, and then the others behind it, when no call fails. -/
theorem openExtents_cons (fs : FileSystem) (path : Path) (e : ExtentDescriptor)
    (rest : List ExtentDescriptor) (start : ℕ) (opened : List OpenExtent) :
    openExtents fs path (e :: rest) start opened = (do
      let ⟨length, _⟩ ← Logged.mul e.sectors sector
      match ← openExtentData fs path e with
      | .needsNbd reason => pure (.needsNbd reason)
      | .native data => do
        let ⟨next, _⟩ ← Logged.add start length
        openExtents fs path rest next (opened ++ [⟨start, length, data⟩])) :=
  rfl

variable {ν : Type}

/-- A monolithic sparse file. -/
def openMonolithicSparse (file header : List UInt8) (parts : FilePart → Device := fun _ => .sound) :
    Logged (Stop VmSpectError) (OpenResult (Backend ν × String)) := do
  let cab ← Logged.ofExcept ((readSparseHeader header).mapError fun e => .error (.io e))
  let embedded ← embeddedDescriptor file cab (parts .descriptor)
  if embedded.any (·.hasParent) then pure (.needsNbd "VMDK delta/snapshot with a parent disk")
  else if embedded.any (fun d => 1 < d.extents.length) then
    pure (.needsNbd "VMDK sparse with multiple declared extents")
  else do
    match ← (SparseExtent.fromHeader file cab (parts .directory)).mapError (.map .io) with
    | .native extent => pure (.native (.sparse extent, "vmdk monolithicSparse"))
    | .needsNbd reason => pure (.needsNbd reason)

/-- A text descriptor with external extents. -/
def openTextDescriptor (fs : FileSystem) (path : Path) (devices : Devices := .sound) :
    Logged (Stop VmSpectError) (OpenResult (Backend ν × String)) := do
  let text ← Logged.ofExcept
    ((fs.readToString path (devices (.main .text))).mapError fun e => .error (.io e))
  let d := parseDescriptor text
  if d.hasParent then pure (.needsNbd "VMDK delta/snapshot with a parent disk")
  else if d.extents = [] then pure (.needsNbd "VMDK descriptor with no extents")
  else do
    match ← openExtents fs path d.extents 0 [] devices with
    | .needsNbd reason => pure (.needsNbd reason)
    | .native extents =>
      let tipo := if d.createType = [] then s!"{extents.length} extents"
        else String.ofList d.createType
      pure (.native (.extents extents, s!"vmdk {tipo}"))

/-- `open_vmdk_native`. -/
def openVmdkNative (fs : FileSystem) (path : Path) (devices : Devices := .sound) :
    Logged (Stop VmSpectError) (OpenResult (Backend ν × String)) := do
  validateVmdkComponents fs path devices
  let parts (part : FilePart) : Device := devices (.main part)
  let file ← Logged.ofExcept ((openMainImageFile fs path (parts .header)).mapError .error)
  let header ← Logged.ofExcept
    ((readFront file 512 (parts .header)).mapError fun e => .error (.io e))
  if isSparseHeader header then openMonolithicSparse file header parts
  else if isTextDescriptor header then openTextDescriptor fs path devices
  else pure (.needsNbd "VMDK with unrecognized header")

/-- When no call fails, the front of the file is read. -/
theorem openVmdkNative_front (fs : FileSystem) (path : Path) :
    (openVmdkNative fs path : Logged (Stop VmSpectError) (OpenResult (Backend ν × String))) = (do
      validateVmdkComponents fs path
      let file ← Logged.ofExcept ((openMainImageFile fs path).mapError .error)
      if isSparseHeader (file.take 512) then openMonolithicSparse file (file.take 512)
      else if isTextDescriptor (file.take 512) then openTextDescriptor fs path
      else pure (.needsNbd "VMDK with unrecognized header")) :=
  rfl

/-- `open_native`. -/
def openNative (fs : FileSystem) (info : ImageInfo) (devices : Devices := .sound) :
    Logged (Stop VmSpectError) (OpenResult (Backend ν × String)) :=
  match info.format with
  | .raw => do
    let file ← Logged.ofExcept
      ((openMainImageFile fs info.path (devices (.main .header))).mapError .error)
    pure (.native (.raw file, "raw"))
  | .vmdk => openVmdkNative fs info.path devices
  | format => pure (.needsNbd s!"format {format.name}")

end VmSpect
