import VmSpect.Vms.Stream

/-!
# `DiskReader`

Opening a reader and reading from it: `DiskReader::open_with_options_diagnostic`,
`DiskReader::read_range` and `VmDriver::read_range` of `src/vms/stream.rs`. A reader is changed by
reads, for it counts them and the sparse extents load their tables on demand, so a read returns the
reader after it. An NBD session is given by what its reads return.
-/

namespace VmSpect

open Bytes Words UnixPath Vmdk

/-- The counters of `Stats` that a reader keeps, with what it knows about its source. -/
structure ReadStats where
  accessMode : String
  sourceLocation : String
  sourceIsNetwork : Option Bool
  nbdRequests : ℕ
  readOperations : ℕ
  cacheHits : ℕ
  bytesRead : ℕ
  deriving DecidableEq, Repr

/-- What an NBD session does: its size, and the answer to a read with the session after it. -/
structure NbdApi (ν : Type) where
  virtualSize : ν → ℕ
  readRange : ν → ℕ → ℕ → ν × Except IoError (List UInt8)

/-- Sessions without an export, for backends that have none. -/
def noSessions : NbdApi Unit := ⟨fun _ => 0, fun session _ _ => (session, .ok [])⟩

/-- `DiskReader`, without its token. -/
structure DiskReader (ν : Type) where
  backend : Backend ν
  virtualSize : ℕ
  stats : ReadStats

/-- One extent at `within`: `n` bytes of the virtual disk. -/
def ExtentData.readAt (data : ExtentData) (within n : ℕ) (device : Device := .sound) :
    ExtentData × Except IoError (List UInt8) :=
  match data with
  | .zero => (.zero, .ok (List.replicate n 0))
  | .flat file base =>
    match seekFile (addw base within) device with
    | .error e => (data, .error e)
    | .ok () => (data, tryReadOrZeros file (addw base within) n device)
  | .sparse extent =>
    match extent.readAt within (List.replicate n 0) device with
    | (extent', .error e) => (.sparse extent', .error e)
    | (extent', .ok (read, dst)) =>
      -- What lies past the capacity of the extent is zero.
      (.sparse extent', .ok (dst.take read ++ List.replicate (n - read) 0))

/-- Whether a position falls into an extent. -/
def OpenExtent.covers (e : OpenExtent) (pos : ℕ) : Bool :=
  e.start ≤ pos && pos < addw e.start e.length

/-- A covered position lies before the end of the extent. -/
theorem OpenExtent.within_lt {e : OpenExtent} {pos : ℕ} (h : e.covers pos = true) :
    pos - e.start < e.length := by
  simp only [covers, Bool.and_eq_true, decide_eq_true_eq] at h
  have hmod := Nat.mod_le (e.start + e.length) (2^64)
  unfold addw at h
  omega

/-- The first extent that covers a position, between those before it and those after it. -/
def findExtent (pos : ℕ) : List OpenExtent →
    Option (List OpenExtent × { e : OpenExtent // e.covers pos = true } × List OpenExtent)
  | [] => none
  | e :: rest =>
    if h : e.covers pos then some ([], ⟨e, h⟩, rest)
    else (findExtent pos rest).map fun (before, hit, after) => (e :: before, hit, after)

/-- The loop of `read_from_extents`, once `done` of `len` bytes are in the buffer. Each extent is on
the device of its number. -/
def readFromExtentsLoop (offset len : ℕ) (extents : List OpenExtent) (done : ℕ) (buf : List UInt8)
    (devices : ℕ → Device := fun _ => .sound) : List OpenExtent × Except IoError (List UInt8) :=
  if _hlt : done < len then
    match findExtent (addw offset done) extents with
    -- A gap that no extent covers is left as zeros.
    | none => (extents, .ok buf)
    | some (before, ⟨ext, _hcovers⟩, after) =>
      let within := addw offset done - ext.start
      let n := min (ext.length - within) (len - done)
      match ext.data.readAt within n (devices before.length) with
      | (data, .error e) => (before ++ { ext with data } :: after, .error e)
      | (data, .ok part) =>
        readFromExtentsLoop offset len (before ++ { ext with data } :: after) (done + n)
          (writeAt buf done part) devices
  else (extents, .ok buf)
  termination_by len - done
  decreasing_by
    have hwithin := OpenExtent.within_lt _hcovers
    omega

/-- `read_from_extents`. The length is that of a buffer of the caller, so that there can be another
vector as long. -/
def readFromExtents (extents : List OpenExtent) (offset len : ℕ)
    (devices : ℕ → Device := fun _ => .sound) : List OpenExtent × Except IoError (List UInt8) :=
  readFromExtentsLoop offset len extents 0 (List.replicate len 0) devices

variable {ν : Type}

/-- A read of `len` bytes from the backend. A single file is on device 0. -/
def Backend.readRange (nbd : NbdApi ν) (backend : Backend ν) (offset len : ℕ)
    (devices : ℕ → Device := fun _ => .sound) : Backend ν × Except IoError (List UInt8) :=
  match backend with
  | .raw file =>
    match seekFile offset (devices 0) with
    | .error e => (.raw file, .error e)
    | .ok () => (.raw file, tryReadOrZeros file offset len (devices 0))
  | .sparse extent =>
    match extent.readAt offset (List.replicate len 0) (devices 0) with
    | (extent', .error e) => (.sparse extent', .error e)
    | (extent', .ok (n, buf)) => (.sparse extent', .ok (buf.take n))
  | .extents parts =>
    let (parts', result) := readFromExtents parts offset len devices
    (.extents parts', result)
  | .nbd reader =>
    let (reader', result) := nbd.readRange reader offset len
    (.nbd reader', result)

/-- Whether the backend is an NBD session. -/
def Backend.isNbd : Backend ν → Bool
  | .nbd _ => true
  | _ => false

/-- `classify_source_path`. -/
def classifySourcePath (path : Path) : String × Option Bool :=
  if ['\\', '\\'].isPrefixOf path.display.toList then ("unc-network", some true)
  else ("unclassified", none)

/-- The statistics of a reader that was just opened. -/
def ReadStats.opened (path : Path) (accessMode : String) : ReadStats where
  accessMode := accessMode
  sourceLocation := (classifySourcePath path).1
  sourceIsNetwork := (classifySourcePath path).2
  nbdRequests := 0
  readOperations := 0
  cacheHits := 0
  bytesRead := 0

namespace DiskReader

/-- `open_with_options_diagnostic` when `force_nbd` is not set. -/
def openDirect (fs : FileSystem) (info : ImageInfo) (devices : Devices := .sound) :
    Logged (Stop VmSpectError) (DiskReader ν) := do
  match ← openNative fs info devices with
  | .native (backend, mode) =>
    pure ⟨backend, info.virtualSize, .opened info.path s!"direct-read ({mode})"⟩
  | .needsNbd reason => throw (.error (.unsupportedFormat
      (s!"{info.format.name} requires an external read backend ({reason}). Standard inspection " ++
        "uses direct, read-only file access only and will not launch qemu-nbd automatically. " ++
        "Enable Options::with_force_nbd(true) or --force-nbd only after reviewing its " ++
        "external-helper warning.")))

/-- `DiskReader::read_range`, with what the load of the token at its start says. -/
def readRange (nbd : NbdApi ν) (cancelled : Bool) (reader : DiskReader ν) (offset len : ℕ)
    (devices : ℕ → Device := fun _ => .sound) : DiskReader ν × Except IoError (List UInt8) :=
  if cancelled then (reader, .error ⟨.interrupted, "Analysis cancelled by the user"⟩)
  else if reader.virtualSize ≤ offset ∨ len = 0 then (reader, .ok [])
  else
    let stats := { reader.stats with
      readOperations := addw reader.stats.readOperations 1
      nbdRequests := addw reader.stats.nbdRequests (if reader.backend.isNbd then 1 else 0) }
    match reader.backend.readRange nbd offset (min len (reader.virtualSize - offset)) devices with
    | (backend, .error e) => ({ reader with backend, stats }, .error e)
    | (backend, .ok data) =>
      ({ reader with
          backend
          stats := { stats with bytesRead := addw stats.bytesRead data.length } }, .ok data)

/-- `VmDriver::read_range` for a buffer of `len` bytes: what the read leaves open is filled with
zeros. -/
def fillRange (nbd : NbdApi ν) (cancelled : Bool) (reader : DiskReader ν) (offset len : ℕ)
    (devices : ℕ → Device := fun _ => .sound) : DiskReader ν × Except VmSpectError (List UInt8) :=
  match reader.readRange nbd cancelled offset len devices with
  | (reader', .error e) => (reader', .error (.io e))
  | (reader', .ok data) => (reader', .ok (data ++ List.replicate (len - data.length) 0))

/-- The answers to a sequence of reads, each an offset and the length of its buffer. -/
def fillAll (nbd : NbdApi ν) (reader : DiskReader ν) :
    List (ℕ × ℕ) → List (Except VmSpectError (List UInt8))
  | [] => []
  | (offset, len) :: rest =>
    let (reader', answer) := reader.fillRange nbd false offset len
    answer :: reader'.fillAll nbd rest

end DiskReader

end VmSpect
