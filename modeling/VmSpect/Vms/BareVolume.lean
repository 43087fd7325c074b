import VmSpect.Vms.MbrTable

/-!
# Volumes without a partition table

A disk may hold one file system and no partition table. Its first sector is then a boot record of
the file system, whose bytes the detector also reads as the four slots of an MBR.
`detect_bareVolume_iff` says which of these disks are recognised: those whose first sector is not
signed, and those whose file system is known by its first sector and whose slots happen to hold
nothing.
-/

namespace VmSpect.Detector

open Bytes Words Polling

/-- The signatures that `identify_fs` and `identify_linux_fs` know. -/
inductive Signature where
  | ntfs
  | xfs
  | lvm2
  | fat
  | extFs
  | btrfs
  | swap
  deriving DecidableEq, Repr

/-- The disk has a text at a place. -/
def TextAt (D : List UInt8) (place : ℕ) (text : String) : Prop :=
  window (zeroExtended D) place text.length = text.toList.map fun c => UInt8.ofNat c.toNat

instance instDecidableTextAt (D : List UInt8) (place : ℕ) (text : String) :
    Decidable (TextAt D place text) :=
  inferInstanceAs (Decidable (_ = _))

/-- The signature of a file system that starts at byte 0 is on the disk. -/
def Signature.On (D : List UInt8) : Signature → Prop
  | ntfs => TextAt D 3 "NTFS    "
  | xfs => TextAt D 0 "XFSB"
  | lvm2 => TextAt D 0 "LABELONE"
  | fat => (TextAt D 54 "FAT12   " ∨ TextAt D 54 "FAT16   " ∨ TextAt D 82 "FAT32   ") ∧
      BootSigned (sectorAt D 0)
  | extFs => zeroExtended D (1024 + 56) = 0x53 ∧ zeroExtended D (1024 + 57) = 0xEF
  | btrfs => TextAt D (64 * 1024 + 0x40) "_BHRfS_M"
  | swap => TextAt D (4096 - 10) "SWAPSPACE2"

instance instDecidableOn (D : List UInt8) : (s : Signature) → Decidable (s.On D)
  | .ntfs => inferInstanceAs (Decidable (TextAt _ _ _))
  | .xfs => inferInstanceAs (Decidable (TextAt _ _ _))
  | .lvm2 => inferInstanceAs (Decidable (TextAt _ _ _))
  | .fat => inferInstanceAs (Decidable (_ ∧ _))
  | .extFs => inferInstanceAs (Decidable (_ ∧ _))
  | .btrfs => inferInstanceAs (Decidable (TextAt _ _ _))
  | .swap => inferInstanceAs (Decidable (TextAt _ _ _))

/-- The file system of a signature. -/
def Signature.kind (D : List UInt8) : Signature → FileSystemKind
  | ntfs => .ntfs
  | xfs => .xfs
  | lvm2 => .lvm2
  | fat => .fat
  | extFs => extKind (window (zeroExtended D) 1024 1024)
  | btrfs => .btrfs
  | swap => .linuxSwap

/-- The signature is in the first sector. -/
def Signature.inFirstSector (s : Signature) : Bool := s ∈ [ntfs, xfs, lvm2, fat]

/-- A disk with the signature of one file system, and no GPT. -/
structure BareVolume (D : List UInt8) (s : Signature) : Prop where
  on : s.On D
  only : ∀ t : Signature, t.On D → t = s
  noGpt : ¬ TextAt D 512 "EFI PART"

/-- The slot of the first sector reads as one that holds no partition: it is empty, or it leads to
a chain of EBRs that are. -/
def SlotVoid (D : List UInt8) (i : ℕ) : Prop :=
  let (kind, lbaStart, sectors) := mbrEntry (sectorAt D 0) (446 + i * 16)
  kind = 0 ∨ sectors = 0 ∨
    kind ∈ [0x05, 0x0F, 0x85] ∧ ∀ lba ∈ ebrChain D lbaStart 64 lbaStart, logicalAt D lba = none

/-- What the detection is to return for a volume without a partition table. -/
def bareDisk (D : List UInt8) (s : Signature) : DetectedDisk :=
  let volume : Partition :=
    ⟨0, 0, D.length, "Volume without a partition table", s.kind D, none⟩
  ⟨.none, [volume], classifyOs [volume]⟩

/-! ## Signatures -/

variable {D : List UInt8} {s : Signature}

/-- A text in the first sector. -/
theorem textAt_iff_slice {place : ℕ} {text : String} (h : place + text.length ≤ 512) :
    TextAt D place text ↔ slice (sectorAt D 0) place text.length =
      text.toList.map fun c => UInt8.ofNat c.toNat := by
  unfold TextAt sectorAt
  rw [slice_window _ h, Nat.zero_mul, Nat.zero_add]

/-- `identify_fs` on the first sector. -/
theorem identifyFs_sector :
    identifyFs (sectorAt D 0) =
      if Signature.ntfs.On D then .ntfs
      else if Signature.xfs.On D then .xfs
      else if Signature.lvm2.On D then .lvm2
      else if Signature.fat.On D then .fat
      else .unknown := by
  have hlong : ¬ (sectorAt D 0).length < 512 := by
    rw [length_sectorAt]
    norm_num
  have hntfs : TextAt D 3 "NTFS    " ↔ _ := textAt_iff_slice (by decide)
  have hxfs : TextAt D 0 "XFSB" ↔ _ := textAt_iff_slice (by decide)
  have hlvm2 : TextAt D 0 "LABELONE" ↔ _ := textAt_iff_slice (by decide)
  have hfat12 : TextAt D 54 "FAT12   " ↔ _ := textAt_iff_slice (by decide)
  have hfat16 : TextAt D 54 "FAT16   " ↔ _ := textAt_iff_slice (by decide)
  have hfat32 : TextAt D 82 "FAT32   " ↔ _ := textAt_iff_slice (by decide)
  unfold identifyFs
  simp only [if_neg hlong, Signature.On, hntfs, hxfs, hlvm2, hfat12, hfat16, hfat32, BootSigned,
    Bool.and_eq_true, Bool.or_eq_true, decide_eq_true_eq, or_assoc, and_assoc]

/-- `identify_linux_fs` on a volume at byte 0. -/
theorem linuxKindAt_zero :
    linuxKindAt D 0 =
      if Signature.extFs.On D then extKind (window (zeroExtended D) 1024 1024)
      else if Signature.btrfs.On D then .btrfs
      else if Signature.swap.On D then .linuxSwap
      else .unknown := by
  have hbyte : ∀ i < 1024, byteAt (window (zeroExtended D) 1024 1024) i =
      (zeroExtended D (1024 + i)).toNat := by
    intro i hi
    unfold byteAt
    rw [List.getD_eq_getElem?_getD, getElem?_window _ hi, Option.getD_some]
  have hmagic : byteAt (window (zeroExtended D) 1024 1024) 56 = 0x53 ∧
      byteAt (window (zeroExtended D) 1024 1024) 57 = 0xEF ↔ Signature.extFs.On D := by
    rw [hbyte 56 (by norm_num), hbyte 57 (by norm_num), Signature.On, ← UInt8.toNat_inj,
      ← UInt8.toNat_inj]
    rfl
  have hbtrfs : slice (sectorAt D 128) 0x40 8 = "_BHRfS_M".toList.map (fun c => UInt8.ofNat c.toNat) ↔
      Signature.btrfs.On D := by
    unfold sectorAt
    rw [slice_window _ (by norm_num)]
    rfl
  have hswap : slice (sectorAt D 7) 502 10 = "SWAPSPACE2".toList.map (fun c => UInt8.ofNat c.toNat) ↔
      Signature.swap.On D := by
    unfold sectorAt
    rw [slice_window _ (by norm_num)]
    rfl
  have hplace : (0 + 2) * 512 = 1024 := rfl
  unfold linuxKindAt
  simp only [hplace, Nat.zero_add, hmagic, hbtrfs, hswap]

/-- A signature tells some file system. -/
theorem Signature.kind_ne_unknown : s.kind D ≠ .unknown := by
  cases s with
  | extFs =>
    unfold Signature.kind extKind
    dsimp only
    split_ifs <;> decide
  | _ => exact FileSystemKind.noConfusion

/-- The other signatures are not on the disk. -/
theorem BareVolume.not_on (h : BareVolume D s) {t : Signature} (hne : t ≠ s) : ¬ t.On D :=
  fun ht => hne (h.only t ht)

/-- `identify_fs` knows the volume by its first sector, if its signature is there. -/
theorem BareVolume.identifyFs (h : BareVolume D s) :
    identifyFs (sectorAt D 0) = if s.inFirstSector then s.kind D else .unknown := by
  rw [identifyFs_sector]
  cases s with
  | ntfs => rw [if_pos h.on]; rfl
  | xfs => rw [if_neg (h.not_on (by decide)), if_pos h.on]; rfl
  | lvm2 => rw [if_neg (h.not_on (by decide)), if_neg (h.not_on (by decide)), if_pos h.on]; rfl
  | fat =>
    rw [if_neg (h.not_on (by decide)), if_neg (h.not_on (by decide)), if_neg (h.not_on (by decide)),
      if_pos h.on]
    rfl
  | _ =>
    rw [if_neg (h.not_on (by decide)), if_neg (h.not_on (by decide)), if_neg (h.not_on (by decide)),
      if_neg (h.not_on (by decide))]
    rfl

/-- The probe tells the file system of the volume. -/
theorem BareVolume.fileSystemAt (h : BareVolume D s) : fileSystemAt D 0 = s.kind D := by
  unfold Detector.fileSystemAt
  rw [h.identifyFs, linuxKindAt_zero]
  cases s with
  | extFs => exact if_pos h.on
  | btrfs => exact (if_neg (h.not_on (by decide))).trans (if_pos h.on)
  | swap =>
    exact (if_neg (h.not_on (by decide))).trans ((if_neg (h.not_on (by decide))).trans (if_pos h.on))
  | _ => rfl

/-- A slot that reads as one that holds nothing adds nothing. -/
theorem slotFound_eq_nil {i : ℕ} : slotFound D (sectorAt D 0) i = [] ↔ SlotVoid D i := by
  rcases hentry : mbrEntry (sectorAt D 0) (446 + i * 16) with ⟨kind, lbaStart, sectors⟩
  simp only [slotFound_of_entry hentry, SlotVoid, hentry]
  split_ifs with hempty hextended
  · exact iff_of_true rfl (hempty.imp_right Or.inl)
  · obtain ⟨hkind, hsectors⟩ := not_or.mp hempty
    rw [or_iff_right hkind, or_iff_right hsectors, and_iff_right hextended,
      List.filterMap_eq_nil_iff]
  · obtain ⟨hkind, hsectors⟩ := not_or.mp hempty
    rw [or_iff_right hkind, or_iff_right hsectors]
    exact iff_of_false id fun hvoid => hextended hvoid.1

/-- The table holds nothing when its slots do not. -/
theorem mbrFound_eq_nil : mbrFound D (sectorAt D 0) = [] ↔ ∀ i < 4, SlotVoid D i := by
  unfold mbrFound
  simp only [List.flatMap_eq_nil_iff, slotFound_eq_nil]
  constructor
  · intro h i hi
    exact h i (by interval_cases i <;> decide)
  · intro h i hi
    exact h i (by fin_cases hi <;> decide)

/-! ## The detection -/

section Detection

variable {m : Type → Type} [Monad m] {R : Returning m} {driver : VmDriver m}

/-- The two sectors that the detection reads first hold no GPT. -/
theorem BareVolume.header_noGpt (h : BareVolume D s) :
    ¬ (1024 ≤ (window (zeroExtended D) 0 1024).length ∧
      slice (window (zeroExtended D) 0 1024) 512 8 =
        "EFI PART".toList.map fun c => UInt8.ofNat c.toNat) := by
  rintro ⟨-, hgpt⟩
  rw [slice_window _ (by norm_num), Nat.zero_add] at hgpt
  exact h.noGpt hgpt

/-- The first of them is the boot sector. -/
theorem take_header : (window (zeroExtended D) 0 1024).take 512 = sectorAt D 0 := by
  have hslice : slice (window (zeroExtended D) 0 1024) 0 512 = window (zeroExtended D) (0 + 0) 512 :=
    slice_window _ (by norm_num)
  exact hslice

/-- Bare volumes whose first sector is not taken for a table. -/
def Recognisable (D : List UInt8) (s : Signature) : Prop :=
  ¬ BootSigned (sectorAt D 0) ∨ s.inFirstSector ∧ ∀ i < 4, SlotVoid D i

/-- The table of a bare volume is the volume, where the first sector is not taken for one. -/
theorem BareVolume.readTable_single (h : BareVolume D s) (hserves : Serves R driver D)
    (hrec : Recognisable D s) :
    R.outcome (readTable driver (window (zeroExtended D) 0 1024))
      (.ok (.none, [singlePartition driver (sectorAt D 0)])) := by
  unfold readTable
  rw [take_header, if_neg h.header_noGpt]
  split
  · rename_i hsigned
    obtain ⟨hfirst, hvoid⟩ := hrec.resolve_left (not_not_intro hsigned)
    have hnone : numbered (mbrFound D (sectorAt D 0)) = [] :=
      numbered_eq_nil.mpr (mbrFound_eq_nil.mpr hvoid)
    have hknown : Detector.identifyFs (sectorAt D 0) ≠ .unknown := by
      rw [h.identifyFs, if_pos hfirst]
      exact Signature.kind_ne_unknown
    refine Returning.outcome_bind (hserves.readMbr (sectorAt D 0)) ?_
    rw [if_pos ⟨hnone, hknown⟩]
    exact Returning.outcome_pure _
  · exact Returning.outcome_pure _

/-- Otherwise it is what the slots of the first sector hold. -/
theorem BareVolume.readTable_mbr (h : BareVolume D s) (hserves : Serves R driver D)
    (hrec : ¬ Recognisable D s) :
    R.outcome (readTable driver (window (zeroExtended D) 0 1024))
      (.ok (.mbr, numbered (mbrFound D (sectorAt D 0)))) := by
  obtain ⟨hsigned, hnot⟩ := not_or.mp hrec
  have hsigned : BootSigned (sectorAt D 0) := not_not.mp hsigned
  have hmbr : ¬ (numbered (mbrFound D (sectorAt D 0)) = [] ∧
      Detector.identifyFs (sectorAt D 0) ≠ .unknown) := by
    rintro ⟨hnone, hknown⟩
    have hvoid := mbrFound_eq_nil.mp (numbered_eq_nil.mp hnone)
    rw [h.identifyFs] at hknown
    have hfirst : s.inFirstSector = true := by
      by_contra hlater
      exact hknown (if_neg hlater)
    exact hnot ⟨hfirst, hvoid⟩
  unfold readTable
  rw [take_header, if_neg h.header_noGpt]
  unfold BootSigned at hsigned
  rw [if_pos hsigned]
  refine Returning.outcome_bind (hserves.readMbr (sectorAt D 0)) ?_
  rw [if_neg hmbr]
  exact Returning.outcome_pure _

/-- A disk with a signature is not empty. -/
theorem Signature.On.length_pos (h : s.On D) : 0 < D.length := by
  by_contra hempty
  obtain rfl : D = [] := List.eq_nil_of_length_eq_zero (by omega)
  have hnone : ∀ t : Signature, ¬ t.On [] := by
    intro t
    cases t <;> decide +kernel
  exact hnone s h

/-- The probe of the one partition of a volume without a table. -/
theorem BareVolume.probe (h : BareVolume D s) (hserves : Serves R driver D) :
    R.outcome (Detector.probe driver (singlePartition driver (sectorAt D 0)))
      (.ok ⟨0, 0, D.length, "Volume without a partition table", s.kind D, none⟩) := by
  by_cases hfirst : s.inFirstSector = true
  · have hknown : Detector.identifyFs (sectorAt D 0) = s.kind D := by
      rw [h.identifyFs, if_pos hfirst]
    unfold Detector.probe singlePartition
    rw [hknown, hserves.virtualSize, if_neg fun hprobe => Signature.kind_ne_unknown hprobe.1]
    exact Returning.outcome_pure _
  · have hunknown : Detector.identifyFs (sectorAt D 0) = .unknown := by
      rw [h.identifyFs, if_neg hfirst]
    have hprobe := hserves.probe
      (p := ⟨0, 0, D.length, "Volume without a partition table", .unknown, none⟩) rfl
      h.on.length_pos (by norm_num)
    have hkind : Detector.fileSystemAt D (0 / 512) = s.kind D := h.fileSystemAt
    rw [hkind] at hprobe
    unfold singlePartition
    rw [hunknown, hserves.virtualSize]
    exact hprobe

variable [LawfulMonad m] {cancelled : m Bool} {increment : m Unit}

/-- A volume without a partition table is recognised exactly when its first sector is not signed, or
when its signature is in that sector and no slot of it holds a partition. -/
theorem detect_bareVolume_iff (hserves : Serves R driver D) (hcalm : R.returns cancelled false)
    (hincrement : R.returns increment ()) (h : BareVolume D s) :
    R.outcome (detectWithProgress driver cancelled increment) (.ok (bareDisk D s)) ↔
      ¬ BootSigned (sectorAt D 0) ∨ s.inFirstSector ∧ ∀ i < 4, SlotVoid D i := by
  by_cases hrec : Recognisable D s
  · refine iff_of_true (hserves.detect hcalm (h.readTable_single hserves hrec) ?_) hrec
    unfold probeAll
    refine Returning.outcome_bind (checkCancelled_calm hcalm) ?_
    refine Returning.outcome_bind (h.probe hserves) ?_
    refine Returning.outcome_bind (Returning.outcome_lift hincrement) ?_
    exact Returning.outcome_bind (Returning.outcome_pure []) (Returning.outcome_pure _)
  · have hmbr := hserves.detect hcalm (h.readTable_mbr hserves hrec)
      (hserves.probeAll hcalm hincrement numbered_probeable)
    rw [Returning.outcome_iff hmbr]
    refine iff_of_false ?_ hrec
    intro heq
    have hscheme := congrArg DetectedDisk.scheme (Except.ok.inj heq)
    cases hscheme

end Detection

/-! ## Two raw images -/

/-- The first sector of an NTFS volume without boot code. -/
def plainNtfs : List UInt8 :=
  [0xEB, 0x52, 0x90] ++ "NTFS    ".toList.map (fun c => UInt8.ofNat c.toNat) ++
    List.replicate 499 0 ++ [0x55, 0xAA]

/-- It is a volume without a partition table. -/
theorem plainNtfs_bare : BareVolume plainNtfs .ntfs where
  on := by decide +kernel
  only t := by cases t <;> decide +kernel
  noGpt := by decide +kernel

theorem plainNtfs_length : plainNtfs.length < 2^63 := by decide +kernel

/-- It is recognised. -/
theorem plainNtfs_recognised :
    (rawRuns plainNtfs plainNtfs_length).outcome
      (detectWithProgress (diskDriver noNbd plainNtfs.length) (Reading.poll .detector)
        (modify fun world => { world with progress := world.progress.incrementCompletedTasks }))
      (.ok (bareDisk plainNtfs .ntfs)) := by
  refine (detect_bareVolume_iff (rawRuns_serves _) (poll_calm _ _) (progress_calm _ _)
    plainNtfs_bare).mpr (Or.inr ⟨rfl, ?_⟩)
  intro i hi
  left
  interval_cases i <;> decide +kernel

/-- An ext2 volume whose first sector carries the signature of a boot record. -/
def bootableExt : List UInt8 :=
  List.replicate 510 0 ++ [0x55, 0xAA] ++ List.replicate 568 0 ++ [0x53, 0xEF]

/-- So is this one. -/
theorem bootableExt_bare : BareVolume bootableExt .extFs where
  on := by decide +kernel
  only t := by cases t <;> decide +kernel
  noGpt := by decide +kernel

theorem bootableExt_length : bootableExt.length < 2^63 := by decide +kernel

/-- It is reported as a disk with an MBR and no partition. -/
theorem bootableExt_missed :
    BareVolume bootableExt .extFs ∧
      (rawRuns bootableExt bootableExt_length).outcome
        (detectWithProgress (diskDriver noNbd bootableExt.length) (Reading.poll .detector)
          (modify fun world => { world with progress := world.progress.incrementCompletedTasks }))
        (.ok ⟨.mbr, [], .unknown⟩) ∧
      ¬ (rawRuns bootableExt bootableExt_length).outcome
        (detectWithProgress (diskDriver noNbd bootableExt.length) (Reading.poll .detector)
          (modify fun world => { world with progress := world.progress.incrementCompletedTasks }))
        (.ok (bareDisk bootableExt .extFs)) := by
  have hserves := rawRuns_serves bootableExt_length
  have hmissed : ¬ Recognisable bootableExt .extFs := by
    rintro (hsigned | ⟨hfirst, -⟩)
    · exact hsigned (by decide +kernel)
    · exact absurd hfirst (by decide)
  have hnone : numbered (mbrFound bootableExt (sectorAt bootableExt 0)) = [] := by decide +kernel
  have hdetect := hserves.detect (poll_calm .detector _)
    (bootableExt_bare.readTable_mbr hserves hmissed)
    (hserves.probeAll (poll_calm .detector _)
      (progress_calm InspectionProgress.incrementCompletedTasks _) numbered_probeable)
  rw [hnone] at hdetect
  refine ⟨bootableExt_bare, hdetect, ?_⟩
  rw [Returning.outcome_iff hdetect]
  intro heq
  have hscheme := congrArg DetectedDisk.scheme (Except.ok.inj heq)
  cases hscheme

end VmSpect.Detector
