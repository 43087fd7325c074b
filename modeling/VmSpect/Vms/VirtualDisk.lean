import VmSpect.Lib.Bytes
import VmSpect.Lib.Words
import VmSpect.Error

/-!
# `VirtualDisk`

The `Read + Seek` view of a part of a disk, with its cache of chunks, from `src/vms/stream.rs`. The
driver below it is given by what its calls do in a monad `m`, so that it may keep a state of its
own, fail now and then, and observe what it likes. The cache behind a `RefCell` and the cursor are
passed explicitly.

`readWithCache` is the loop that all reads go through. It ends because every round copies at least
one byte or leaves the loop, and Lean accepts it for that reason.
-/

namespace VmSpect

open Bytes Words

/-- The parts of the trait `VmDriver` that a view uses, with effects in `m`. `readRange offset len`
fills a buffer of `len` bytes. -/
structure VmDriver (m : Type → Type) where
  virtualSize : ℕ
  readRange : ℕ → ℕ → m (Except VmSpectError (List UInt8))
  recordCacheHit : m Unit

/-- `VirtualDisk`, with the chunks of its cache from the most to the least recently used. -/
structure VirtualDisk where
  base : ℕ
  length : ℕ
  position : ℕ
  chunkSize : ℕ
  cache : List (ℕ × List UInt8)
  maxChunks : ℕ
  /-- Positions are divided by the chunk size. -/
  chunkSize_pos : 0 < chunkSize

/-- `SeekFrom`. -/
inductive SeekFrom where
  | start (p : ℕ)
  | fromEnd (d : ℤ)
  | current (d : ℤ)

namespace VirtualDisk

/-- `VirtualDisk::new`. It panics when the rounded chunk size does not fit a word, for then it is
zero and the size of the cache is a division by it. -/
def new (base length chunkSize : ℕ) : Option VirtualDisk :=
  let size := nextPowerOfTwo (max chunkSize 512)
  if h : 0 < size then
    some {
      base, length
      position := 0
      chunkSize := size
      cache := []
      -- About 64 MiB of cache whatever the chunk size is, clamped to 4 and 512 chunks.
      maxChunks := max 4 (min (64 * 1024 * 1024 / size) 512)
      chunkSize_pos := h }
  else none

variable {m : Type → Type} [Monad m]

/-- Loads a chunk from the driver, cut off at the end of the disk. -/
def loadChunk (driver : VmDriver m) (disk : VirtualDisk) (chunkIndex : ℕ) :
    m (Except (Stop IoError) (List UInt8)) :=
  let abs := addw disk.base (mulw chunkIndex disk.chunkSize)
  if maxVecLen < disk.chunkSize then
    -- The buffer of one chunk exceeds the longest possible vector.
    pure (.error .panic)
  else if abs < driver.virtualSize then do
    match ← driver.readRange abs (min disk.chunkSize (driver.virtualSize - abs)) with
    | .ok data => pure (.ok data)
    | .error e => pure (.error (.error (IoError.ofOther e.toText)))
  else pure (.ok [])

/-- The cache with room for one more chunk: the least recently used one goes when it is full. -/
def evicted (disk : VirtualDisk) : List (ℕ × List UInt8) :=
  if disk.maxChunks ≤ disk.cache.length then disk.cache.dropLast else disk.cache

/-- Makes sure that a chunk sits at the front of the cache, and returns it. -/
def fetchChunk (driver : VmDriver m) (disk : VirtualDisk) (chunkIndex : ℕ) :
    m (VirtualDisk × Except (Stop IoError) (List UInt8)) :=
  match disk.cache.find? (fun entry => entry.1 = chunkIndex) with
  | some entry => do
    driver.recordCacheHit
    let rest := disk.cache.eraseP (fun entry => entry.1 = chunkIndex)
    pure ({ disk with cache := entry :: rest }, .ok entry.2)
  | none => do
    match ← loadChunk driver disk chunkIndex with
    | .ok data => pure ({ disk with cache := (chunkIndex, data) :: disk.evicted }, .ok data)
    | .error stop => pure (disk, .error stop)

/-- The loop of `read_with_cache`, once `transferred` of `total` bytes are in the buffer. -/
def copyChunks (driver : VmDriver m) (pos total : ℕ) (disk : VirtualDisk) (transferred : ℕ)
    (buf : List UInt8) : m (VirtualDisk × Except (Stop IoError) (ℕ × List UInt8)) :=
  if _h : transferred < total then do
    let currentOffset := addw pos transferred
    let chunkIndex := currentOffset / disk.chunkSize
    let withinChunk := currentOffset % disk.chunkSize
    let fetched ← fetchChunk driver disk chunkIndex
    match fetched.2 with
    | .error stop => pure (fetched.1, .error stop)
    | .ok data =>
      if _hw : data.length ≤ withinChunk then pure (fetched.1, .ok (transferred, buf))
      else
        let toCopy := min (total - transferred) (data.length - withinChunk)
        copyChunks driver pos total fetched.1 (transferred + toCopy)
          (writeAt buf transferred (slice data withinChunk toCopy))
  else pure (disk, .ok (transferred, buf))
  termination_by total - transferred
  decreasing_by
    have hdata : addw pos transferred % disk.chunkSize < data.length := Nat.lt_of_not_le _hw
    omega

/-- `read_with_cache`: how many bytes were transferred, and the buffer after that. -/
def readWithCache (driver : VmDriver m) (disk : VirtualDisk) (pos : ℕ) (buf : List UInt8) :
    m (VirtualDisk × Except (Stop IoError) (ℕ × List UInt8)) :=
  if disk.length ≤ pos ∨ buf = [] then pure (disk, .ok (0, buf))
  else copyChunks driver pos (min (disk.length - pos) buf.length) disk 0 buf

/-- `Read::read`. -/
def read (driver : VmDriver m) (disk : VirtualDisk) (buf : List UInt8) :
    m (VirtualDisk × Except (Stop IoError) (ℕ × List UInt8)) := do
  let result ← disk.readWithCache driver disk.position buf
  match result.2 with
  | .ok (n, buf') =>
    pure ({ result.1 with position := addw result.1.position n }, .ok (n, buf'))
  | .error stop => pure (result.1, .error stop)

/-- The position that a seek asks for, in the wide arithmetic of the source. -/
def seekTarget (length position : ℕ) : SeekFrom → ℤ
  | .start p => p
  | .fromEnd d => length + d
  | .current d => position + d

/-- `Seek::seek`. -/
def seek (disk : VirtualDisk) (pos : SeekFrom) : VirtualDisk × Except IoError ℕ :=
  let new := seekTarget disk.length disk.position pos
  if new < 0 then (disk, .error ⟨.invalidInput, "seek to a negative position"⟩)
  else
    let position := new.toNat % 2^64
    ({ disk with position }, .ok position)

/-- `ReadAt::read_at`. -/
def readAt (driver : VmDriver m) (disk : VirtualDisk) (pos : ℕ) (buf : List UInt8) :
    m (VirtualDisk × Except (Stop IoError) (ℕ × List UInt8)) :=
  disk.readWithCache driver pos buf

/-- `MemoryMapper::read_at_offset`. -/
def readAtOffset (driver : VmDriver m) (disk : VirtualDisk) (offset : ℕ) (buf : List UInt8) :
    m (VirtualDisk × Except (Stop VmSpectError) (ℕ × List UInt8)) := do
  let result ← disk.readWithCache driver offset buf
  match result.2 with
  | .ok transferred => pure (result.1, .ok transferred)
  | .error (.error e) => pure (result.1, .error (.error (.io e)))
  | .error .panic => pure (result.1, .error .panic)

end VirtualDisk

end VmSpect
