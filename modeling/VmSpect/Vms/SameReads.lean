import VmSpect.Lib.Relating
import VmSpect.Vms.Cursor
import VmSpect.Vms.Detector

/-!
# Two drivers that read the same

Over two drivers with the same answers a view answers the same calls alike and ends with the same
cache (`perform_same`), and the detector finds the same partitions (`detectWithProgress_same`).
-/

namespace VmSpect

open Bytes Words Polling Relating

variable {m n : Type → Type} [Monad m] [Monad n]

/-- Two drivers whose calls do the same. -/
structure SameReads (M : Relating m n) (driver : VmDriver m) (driver' : VmDriver n) : Prop where
  virtualSize : driver.virtualSize = driver'.virtualSize
  readRange : ∀ offset len, M.Same (driver.readRange offset len) (driver'.readRange offset len)
  recordCacheHit : M.Same driver.recordCacheHit driver'.recordCacheHit

variable {M : Relating m n} {driver : VmDriver m} {driver' : VmDriver n}

/-! ## Views -/

namespace VirtualDisk

/-- A chunk is loaded alike. -/
theorem loadChunk_same (h : SameReads M driver driver') (disk : VirtualDisk) (chunkIndex : ℕ) :
    M.Same (disk.loadChunk driver chunkIndex) (disk.loadChunk driver' chunkIndex) := by
  unfold loadChunk
  rw [h.virtualSize]
  refine same_ite (same_pure _) (same_ite ?_ (same_pure _))
  refine same_bind (h.readRange _ _) fun answer => ?_
  cases answer <;> exact same_pure _

/-- A chunk is fetched alike. -/
theorem fetchChunk_same (h : SameReads M driver driver') (disk : VirtualDisk) (chunkIndex : ℕ) :
    M.Same (disk.fetchChunk driver chunkIndex) (disk.fetchChunk driver' chunkIndex) := by
  unfold fetchChunk
  split
  · exact same_bind h.recordCacheHit fun _ => same_pure _
  · refine same_bind (loadChunk_same h disk chunkIndex) fun loaded => ?_
    cases loaded <;> exact same_pure _

/-- The loop of a read does the same in every round. -/
theorem copyChunks_same (h : SameReads M driver driver') (pos total : ℕ) (disk : VirtualDisk)
    (transferred : ℕ) (buf : List UInt8) :
    M.Same (copyChunks driver pos total disk transferred buf)
      (copyChunks driver' pos total disk transferred buf) := by
  induction hleft : total - transferred using Nat.strong_induction_on
    generalizing disk transferred buf with
  | _ left ih =>
    subst hleft
    unfold copyChunks
    split
    · refine same_bind (fetchChunk_same h disk _) fun fetched => ?_
      cases fetched.2 with
      | error stop => exact same_pure _
      | ok data =>
        dsimp only
        split
        · exact same_pure _
        · exact ih _ (by omega) _ _ _ rfl
    · exact same_pure _

/-- A read through the cache. -/
theorem readWithCache_same (h : SameReads M driver driver') (disk : VirtualDisk) (pos : ℕ)
    (buf : List UInt8) :
    M.Same (disk.readWithCache driver pos buf) (disk.readWithCache driver' pos buf) :=
  same_ite (same_pure _) (copyChunks_same h _ _ disk _ _)

/-- Every call on a view is answered alike, and leaves the same view. -/
theorem perform_same (h : SameReads M driver driver') (disk : VirtualDisk) (call : DiskCall) :
    M.Same (disk.perform driver call) (disk.perform driver' call) := by
  cases call with
  | seek pos => exact same_pure _
  | readAt pos buf => exact same_bind (readWithCache_same h disk pos buf) fun _ => same_pure _
  | read buf =>
    refine same_bind (same_bind (readWithCache_same h disk disk.position buf) fun result => ?_)
      fun _ => same_pure _
    cases result.2 <;> exact same_pure _
  | readAtOffset offset buf =>
    refine same_bind (same_bind (readWithCache_same h disk offset buf) fun result => ?_)
      fun _ => same_pure _
    rcases result.2 with (e | -) | transferred <;> exact same_pure _

end VirtualDisk

/-! ## The detector -/

namespace Detector

/-- Blocks are read alike. -/
theorem readBlocks_same (h : SameReads M driver driver') (bs index count : ℕ) :
    (M.exceptT IoError).Same (readBlocks driver bs index count)
      (readBlocks driver' bs index count) := by
  refine exceptT_mk (same_bind (h.readRange _ _) fun answer => ?_)
  cases answer <;> exact same_pure _

/-- The chain of extended partitions. -/
theorem readExtendedChain_same (h : SameReads M driver driver') (lbaExtended left lbaEbr : ℕ)
    (output : List Partition) :
    (M.exceptT IoError).Same (readExtendedChain driver lbaExtended left lbaEbr output)
      (readExtendedChain driver' lbaExtended left lbaEbr output) := by
  induction left generalizing lbaEbr output with
  | zero => exact same_pure output
  | succ left ih =>
    refine same_bind (readBlocks_same h _ _ _) fun ebr => ?_
    exact same_ite (same_pure _) (same_ite (same_pure _) (ih _ _))

/-- The entries of an MBR. -/
theorem readMbrEntries_same (h : SameReads M driver driver') (mbr : List UInt8) (entries : List ℕ)
    (output : List Partition) :
    (M.exceptT IoError).Same (readMbrEntries driver mbr entries output)
      (readMbrEntries driver' mbr entries output) := by
  induction entries generalizing output with
  | nil => exact same_pure output
  | cons i rest ih =>
    refine same_ite (ih _) (same_ite ?_ (ih _))
    exact same_bind (readExtendedChain_same h _ _ _ _) fun output => ih output

/-- The GPT. -/
theorem readGpt_same (h : SameReads M driver driver') (header : List UInt8) :
    (M.exceptT IoError).Same (readGpt driver header) (readGpt driver' header) :=
  same_ite (exceptT_throw _) (same_bind (readBlocks_same h _ _ _) fun _ => same_pure _)

/-- The partition that fills the disk. -/
theorem singlePartition_same (h : SameReads M driver driver') (sector0 : List UInt8) :
    singlePartition driver sector0 = singlePartition driver' sector0 := by
  unfold singlePartition
  rw [h.virtualSize]

/-- Any partition table. -/
theorem readTable_same (h : SameReads M driver driver') (header : List UInt8) :
    (M.exceptT IoError).Same (readTable driver header) (readTable driver' header) := by
  unfold readTable
  dsimp only
  rw [singlePartition_same h]
  refine same_ite (same_bind (readGpt_same h _) fun _ => same_pure _) (same_ite ?_ (same_pure _))
  refine same_bind (readMbrEntries_same h _ _ _) fun entries => ?_
  exact same_ite (same_pure _) (same_pure _)

/-- The signatures behind the first sector. -/
theorem identifyLinuxFs_same (h : SameReads M driver driver') (start : ℕ) :
    (M.exceptT IoError).Same (identifyLinuxFs driver start) (identifyLinuxFs driver' start) := by
  refine same_bind (readBlocks_same h _ _ _) fun sb => same_ite (same_pure _) ?_
  refine same_bind (readBlocks_same h _ _ _) fun sbBtrfs => same_ite (same_pure _) ?_
  exact same_bind (readBlocks_same h _ _ _) fun page => same_ite (same_pure _) (same_pure _)

/-- The probe of a partition. -/
theorem probe_same (h : SameReads M driver driver') (p : Partition) :
    (M.exceptT IoError).Same (probe driver p) (probe driver' p) := by
  refine same_ite (same_bind (readBlocks_same h _ _ _) fun firstSector => ?_) (same_pure _)
  refine same_ite (same_ite ?_ (same_pure _)) (same_pure _)
  exact same_bind (identifyLinuxFs_same h _) fun _ => same_pure _

variable [LawfulMonad m] [LawfulMonad n] {cancelled : m Bool} {cancelled' : n Bool}
  {increment : m Unit} {increment' : n Unit}

/-- A look at the token. -/
theorem checkCancelled_same (hcancelled : M.Same cancelled cancelled') :
    (M.exceptT IoError).Same (checkCancelled cancelled) (checkCancelled cancelled') :=
  same_bind (exceptT_lift hcancelled) fun _ => same_ite (exceptT_throw _) (same_pure _)

/-- The loop over the partitions. -/
theorem probeAll_same (h : SameReads M driver driver') (hcancelled : M.Same cancelled cancelled')
    (hincrement : M.Same increment increment') (partitions : List Partition) :
    (M.exceptT IoError).Same (probeAll driver cancelled increment partitions)
      (probeAll driver' cancelled' increment' partitions) := by
  induction partitions with
  | nil => exact same_pure []
  | cons p rest ih =>
    refine same_bind (checkCancelled_same hcancelled) fun _ => ?_
    refine same_bind (probe_same h p) fun probed => ?_
    refine same_bind (exceptT_lift hincrement) fun _ => ?_
    exact same_bind ih fun _ => same_pure _

/-- The whole detection. -/
theorem detectWithProgress_same (h : SameReads M driver driver')
    (hcancelled : M.Same cancelled cancelled') (hincrement : M.Same increment increment') :
    (M.exceptT IoError).Same (detectWithProgress driver cancelled increment)
      (detectWithProgress driver' cancelled' increment') := by
  refine same_bind (checkCancelled_same hcancelled) fun _ => ?_
  refine same_bind (readBlocks_same h _ _ _) fun header => same_ite (exceptT_throw _) ?_
  refine same_bind (readTable_same h header) fun table => ?_
  refine same_bind (checkCancelled_same hcancelled) fun _ => ?_
  exact same_bind (probeAll_same h hcancelled hincrement _) fun _ => same_pure _

end Detector

end VmSpect
