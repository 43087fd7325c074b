import VmSpect.Lib.Returning
import VmSpect.Lib.UnixPath
import VmSpect.Parsers.Crates
import VmSpect.Vms.Detector
import VmSpect.Vms.DiskReads

/-!
# What the detector reads

The detector only asks its driver for sectors. Over a driver that serves a disk (`Serves`), what it
finds is a function of the bytes of the disk: `sectorAt` is a sector, `linuxKindAt` and
`fileSystemAt` are the file system that the signatures at a place tell. The driver of the engine
serves the disk of its reader (`diskDriver_serves`), as long as the token is not set.
-/

namespace VmSpect.Detector

open Bytes Words Polling UnixPath

/-- A sector of the disk. -/
def sectorAt (D : List UInt8) (lba : ℕ) : List UInt8 := window (zeroExtended D) (lba * 512) 512

@[simp] theorem length_sectorAt (D : List UInt8) (lba : ℕ) : (sectorAt D lba).length = 512 :=
  length_window _ _ _

/-- A field of `w` bytes is a word of so many. -/
theorem ofLe_slice_lt (s : List UInt8) (i w : ℕ) : ofLe (slice s i w) < 2^(8 * w) := by
  have hlength : (slice s i w).length ≤ w := by
    rw [length_slice]
    exact Nat.min_le_left _ _
  calc ofLe (slice s i w) < 2^(8 * (slice s i w).length) := ofLe_lt _
    _ ≤ 2^(8 * w) := Nat.pow_le_pow_right (by norm_num) (by omega)

/-- The file system that a superblock inside a volume tells, for a volume that begins at a
sector. -/
def linuxKindAt (D : List UInt8) (lba : ℕ) : FileSystemKind :=
  let sb := window (zeroExtended D) ((lba + 2) * 512) 1024
  if byteAt sb 56 = 0x53 ∧ byteAt sb 57 = 0xEF then extKind sb
  else if slice (sectorAt D (lba + 128)) 0x40 8 =
      "_BHRfS_M".toList.map (fun c => UInt8.ofNat c.toNat) then .btrfs
  else if slice (sectorAt D (lba + 7)) 502 10 =
      "SWAPSPACE2".toList.map (fun c => UInt8.ofNat c.toNat) then .linuxSwap
  else .unknown

/-- The file system of a volume that begins at a sector. -/
def fileSystemAt (D : List UInt8) (lba : ℕ) : FileSystemKind :=
  if identifyFs (sectorAt D lba) = .unknown then linuxKindAt D lba
  else identifyFs (sectorAt D lba)

section Serves

variable {m : Type → Type} [Monad m]

/-- The driver reads the disk `D`, and zeros past its end. -/
structure Serves (R : Returning m) (driver : VmDriver m) (D : List UInt8) : Prop where
  virtualSize : driver.virtualSize = D.length
  length_lt : D.length < 2^64
  readRange : ∀ offset len,
    R.returns (driver.readRange offset len) (.ok (window (zeroExtended D) offset len))

variable {R : Returning m} {driver : VmDriver m} {D : List UInt8}

/-- Blocks are read from where their wrapped index says. -/
theorem Serves.readBlocks (h : Serves R driver D) (bs index count : ℕ) :
    R.outcome (readBlocks driver bs index count)
      (.ok (window (zeroExtended D) (mulw index bs) (mulw count bs))) := by
  unfold Detector.readBlocks Returning.outcome
  exact R.returns_bind (h.readRange _ _) (R.returns_pure _)

/-- Sectors whose addresses fit a word are read from their place. -/
theorem Serves.readSectors (h : Serves R driver D) {index count : ℕ} (hindex : index * 512 < 2^64)
    (hcount : count * 512 < 2^64) :
    R.outcome (Detector.readBlocks driver sector index count)
      (.ok (window (zeroExtended D) (index * 512) (count * 512))) := by
  have hread := h.readBlocks sector index count
  unfold sector at hread ⊢
  rw [mulw_of_lt hindex, mulw_of_lt hcount] at hread
  exact hread

/-- So is one sector. -/
theorem Serves.readSector (h : Serves R driver D) {lba : ℕ} (hlba : lba * 512 < 2^64) :
    R.outcome (Detector.readBlocks driver sector lba 1) (.ok (sectorAt D lba)) :=
  h.readSectors hlba (by norm_num)

/-- `identify_linux_fs`, where its last probe does not wrap. -/
theorem Serves.identifyLinuxFs (h : Serves R driver D) {start : ℕ}
    (hstart : (start / 512 + 128) * 512 < 2^64) :
    R.outcome (Detector.identifyLinuxFs driver start) (.ok (linuxKindAt D (start / 512))) := by
  have hadd : ∀ k ≤ 128, addw (start / sector) k = start / 512 + k := by
    intro k hk
    unfold sector
    exact addw_of_lt (by omega)
  have hplace : ∀ k ≤ 128, (start / 512 + k) * 512 < 2^64 := by
    intro k hk
    exact (Nat.mul_le_mul_right 512 (Nat.add_le_add_left hk _)).trans_lt hstart
  unfold Detector.identifyLinuxFs linuxKindAt
  rw [hadd 2 (by norm_num), hadd 128 (by norm_num), hadd 7 (by norm_num)]
  refine Returning.outcome_bind (h.readSectors (hplace 2 (by norm_num)) (by norm_num)) ?_
  dsimp only
  rw [length_window]
  by_cases hext : byteAt (window (zeroExtended D) ((start / 512 + 2) * 512) (2 * 512)) 56 = 0x53 ∧
      byteAt (window (zeroExtended D) ((start / 512 + 2) * 512) (2 * 512)) 57 = 0xEF
  · rw [if_pos ⟨by norm_num, hext⟩, if_pos hext]
    exact Returning.outcome_pure _
  · rw [if_neg (fun hboth => hext hboth.2), if_neg hext]
    refine Returning.outcome_bind (h.readSector (hplace 128 le_rfl)) ?_
    rw [length_sectorAt]
    by_cases hbtrfs : slice (sectorAt D (start / 512 + 128)) 0x40 8 =
        "_BHRfS_M".toList.map (fun c => UInt8.ofNat c.toNat)
    · rw [if_pos ⟨by norm_num, hbtrfs⟩, if_pos hbtrfs]
      exact Returning.outcome_pure _
    · rw [if_neg (fun hboth => hbtrfs hboth.2), if_neg hbtrfs]
      refine Returning.outcome_bind (h.readSector (hplace 7 (by norm_num))) ?_
      rw [length_sectorAt]
      by_cases hswap : slice (sectorAt D (start / 512 + 7)) 502 10 =
          "SWAPSPACE2".toList.map (fun c => UInt8.ofNat c.toNat)
      · rw [if_pos ⟨rfl, hswap⟩, if_pos hswap]
        exact Returning.outcome_pure _
      · rw [if_neg (fun hboth => hswap hboth.2), if_neg hswap]
        exact Returning.outcome_pure _

/-- The probe of a partition that was not identified yet. -/
theorem Serves.probe (h : Serves R driver D) {p : Partition} (hp : p.fileSystem = .unknown)
    (hsize : 0 < p.size) (hstart : (p.start / 512 + 128) * 512 < 2^64) :
    R.outcome (Detector.probe driver p)
      (.ok { p with fileSystem := fileSystemAt D (p.start / 512) }) := by
  unfold Detector.probe fileSystemAt
  rw [if_pos ⟨hp, hsize⟩]
  have hfirst : p.start / sector * 512 < 2^64 :=
    (Nat.mul_le_mul_right 512 (Nat.le_add_right _ 128)).trans_lt hstart
  refine Returning.outcome_bind (h.readSector hfirst) ?_
  rw [if_pos (length_sectorAt _ _)]
  unfold sector
  by_cases hfs : identifyFs (sectorAt D (p.start / 512)) = .unknown
  · rw [if_pos hfs, if_pos hfs]
    exact Returning.outcome_bind (h.identifyLinuxFs hstart) (Returning.outcome_pure _)
  · rw [if_neg hfs, if_neg hfs]
    exact Returning.outcome_pure _

variable {cancelled : m Bool} {increment : m Unit} [LawfulMonad m]

/-- A load of a token that is not set. -/
theorem checkCancelled_calm (hcalm : R.returns cancelled false) :
    R.outcome (checkCancelled cancelled) (.ok ()) := by
  unfold checkCancelled
  exact Returning.outcome_bind (Returning.outcome_lift hcalm) (Returning.outcome_pure ())

/-- The probes of the partitions. -/
theorem Serves.probeAll (h : Serves R driver D) (hcalm : R.returns cancelled false)
    (hincrement : R.returns increment ()) {partitions : List Partition}
    (hpartitions : ∀ p ∈ partitions, p.fileSystem = .unknown ∧ 0 < p.size ∧
      (p.start / 512 + 128) * 512 < 2^64) :
    R.outcome (Detector.probeAll driver cancelled increment partitions)
      (.ok (partitions.map fun p => { p with fileSystem := fileSystemAt D (p.start / 512) })) := by
  induction partitions with
  | nil => exact Returning.outcome_pure []
  | cons p rest ih =>
    obtain ⟨hp, hsize, hstart⟩ := hpartitions p List.mem_cons_self
    have hrest := ih fun q hq => hpartitions q (List.mem_cons_of_mem p hq)
    unfold Detector.probeAll
    refine Returning.outcome_bind (checkCancelled_calm hcalm) ?_
    refine Returning.outcome_bind (h.probe hp hsize hstart) ?_
    refine Returning.outcome_bind (Returning.outcome_lift hincrement) ?_
    exact Returning.outcome_bind hrest (Returning.outcome_pure _)

/-- `detect_with_progress`, by the table that it reads and the partitions that it probes. -/
theorem Serves.detect (h : Serves R driver D) (hcalm : R.returns cancelled false)
    {scheme : PartitionScheme} {partitions probed : List Partition}
    (htable : R.outcome (readTable driver (window (zeroExtended D) 0 1024))
      (.ok (scheme, partitions)))
    (hprobed : R.outcome (Detector.probeAll driver cancelled increment partitions) (.ok probed)) :
    R.outcome (detectWithProgress driver cancelled increment)
      (.ok ⟨scheme, probed, classifyOs probed⟩) := by
  have hheader := h.readSectors (show 0 * 512 < 2^64 by norm_num)
    (show 2 * 512 < 2^64 by norm_num)
  unfold detectWithProgress
  refine Returning.outcome_bind (checkCancelled_calm hcalm) ?_
  refine Returning.outcome_bind hheader ?_
  have hlong : ¬ (window (zeroExtended D) (0 * 512) (2 * 512)).length < sector := by
    rw [length_window]
    norm_num [sector]
  rw [if_neg hlong]
  refine Returning.outcome_bind htable ?_
  refine Returning.outcome_bind (checkCancelled_calm hcalm) ?_
  exact Returning.outcome_bind hprobed (Returning.outcome_pure _)

end Serves

/-! ## The driver of the engine -/

section DiskDriver

variable {ν : Type}

/-- Calm runs over a reader of the disk `D`. -/
def servedRuns (D : List UInt8) (h : ∃ world : World ν, world.reader.Serves D) :
    Returning (Reading ν) :=
  Returning.calm (fun world => world.reader.Serves D) h

/-- The driver of the engine serves the disk of its reader. -/
theorem diskDriver_serves (nbd : NbdApi ν) {D : List UInt8} (hlength : D.length < 2^64)
    (hworld : ∃ world : World ν, world.reader.Serves D) :
    Serves (servedRuns D hworld) (diskDriver nbd D.length) D where
  virtualSize := rfl
  length_lt := hlength
  readRange offset len := by
    intro world hserves
    obtain ⟨reader', hfill, hserves'⟩ := hserves.fillRange nbd offset len
    refine ⟨{ world with reader := reader' }, ?_, hserves'⟩
    have hrun : Prog.calmFrom ((diskDriver nbd D.length).readRange offset len) world =
        some ((world.reader.fillRange nbd false offset len).2,
          { world with reader := (world.reader.fillRange nbd false offset len).1 }) := rfl
    rw [hrun, hfill]

/-- A load of the token that sees it not set. -/
theorem poll_calm {D : List UInt8} (site : Site) (hworld : ∃ world : World ν, world.reader.Serves D) :
    (servedRuns D hworld).returns (Reading.poll site) false :=
  fun world hserves => ⟨world, rfl, hserves⟩

/-- An update of the progress. -/
theorem progress_calm {D : List UInt8} (update : InspectionProgress → InspectionProgress)
    (hworld : ∃ world : World ν, world.reader.Serves D) :
    (servedRuns D hworld).returns
      (modify fun world => { world with progress := update world.progress }) () :=
  fun world hserves => ⟨{ world with progress := update world.progress }, rfl, hserves⟩

/-- No NBD session is open. -/
def noNbd : NbdApi Empty := ⟨nofun, nofun⟩

/-- A raw image that was just opened. -/
def rawWorld (D : List UInt8) : World Empty :=
  ⟨⟨.raw D, D.length, .opened (Path.ofText "disk.raw".toList) "direct-read (raw)"⟩, .new⟩

/-- Calm runs over a raw image. -/
def rawRuns (D : List UInt8) (h : D.length < 2^63) : Returning (Reading Empty) :=
  servedRuns D ⟨rawWorld D, ⟨rfl, h⟩, rfl⟩

/-- The raw image serves the bytes of the disk. -/
theorem rawRuns_serves {D : List UInt8} (h : D.length < 2^63) :
    Serves (rawRuns D h) (diskDriver noNbd D.length) D :=
  diskDriver_serves noNbd (h.trans (by norm_num)) _

end DiskDriver

end VmSpect.Detector
