import VmSpect.Vms.BareVolume
import VmSpect.Vms.GptTable
import VmSpect.Vms.MbrLayout

/-!
# Disks with a layout

What the tools that set up a guest leave on its disk: an MBR, a GPT or no table at all, and in every
volume one file system, or nothing that is known. The detection gives the layout back, with the file
system of every volume and the operating system that these tell (`Serves.detect_layout`).

The probe of a volume reads up to 129 sectors from its start on, wherever the volume ends. So a
smaller volume whose signature is not in its first sectors is only known if nothing follows it.
-/

namespace VmSpect.Detector

open Bytes Words Polling

variable {D V : List UInt8} {p : Partition} {content : Option Signature}

/-! ## Volumes -/

/-- The signatures on a volume are those of its file system: one, or none if nothing is known. -/
def Holds (V : List UInt8) (content : Option Signature) : Prop :=
  ∀ s : Signature, s.On V ↔ content = some s

/-- The file system that is reported for a volume. -/
def reportedKind (V : List UInt8) (content : Option Signature) : FileSystemKind :=
  content.elim .unknown fun s => s.kind V

/-- The bytes of a partition. -/
def volume (D : List UInt8) (p : Partition) : List UInt8 := (D.drop p.start).take p.size

/-- How many bytes of a volume the probe looks at, by what it finds there. -/
def reach : Option Signature → ℕ
  | some .ntfs | some .xfs | some .lvm2 | some .fat => 512
  | some .extFs => 2048
  | some .btrfs | some .swap | none => 129 * 512

/-- A partition with its content. What the probe looks at is in the volume, or past the end of the
disk. -/
structure Formatted (D : List UInt8) (p : Partition) (content : Option Signature) : Prop where
  holds : Holds (volume D p) content
  inside : reach content ≤ p.size ∨ D.length ≤ p.start + p.size

/-- No signature is in the first sector. -/
theorem identifyFs_eq_unknown :
    identifyFs (sectorAt V 0) = .unknown ↔ ∀ s : Signature, s.inFirstSector → ¬ s.On V := by
  rw [identifyFs_sector]
  constructor
  · intro h s hs
    split_ifs at h with hntfs hxfs hlvm2 hfat
    cases s <;> first | assumption | cases hs
  · intro h
    rw [if_neg (h .ntfs rfl), if_neg (h .xfs rfl), if_neg (h .lvm2 rfl), if_neg (h .fat rfl)]

/-- What `identify_fs` says about a volume. -/
theorem Holds.identifyFs (h : Holds V content) :
    identifyFs (sectorAt V 0) =
      if (content.any fun s => s.inFirstSector) then reportedKind V content else .unknown := by
  rw [identifyFs_sector]
  simp only [h _]
  rcases content with _ | s
  · rfl
  · cases s <;> rfl

/-- The probe tells the content of a volume. -/
theorem Holds.fileSystemAt (h : Holds V content) : fileSystemAt V 0 = reportedKind V content := by
  unfold Detector.fileSystemAt
  rw [h.identifyFs, linuxKindAt_zero]
  simp only [h _]
  rcases content with _ | s
  · rfl
  · cases s <;> rfl

/-- The magic of an ext superblock. -/
theorem extMagic_iff :
    byteAt (window (zeroExtended V) ((0 + 2) * 512) 1024) 56 = 0x53 ∧
      byteAt (window (zeroExtended V) ((0 + 2) * 512) 1024) 57 = 0xEF ↔ Signature.extFs.On V := by
  have hbyte : ∀ i < 1024, byteAt (window (zeroExtended V) ((0 + 2) * 512) 1024) i =
      (zeroExtended V (1024 + i)).toNat := by
    intro i hi
    unfold byteAt
    rw [List.getD_eq_getElem?_getD, getElem?_window _ hi, Option.getD_some]
  rw [hbyte 56 (by norm_num), hbyte 57 (by norm_num), Signature.On, ← UInt8.toNat_inj,
    ← UInt8.toNat_inj]
  rfl

namespace Formatted

/-- What the probe looks at are bytes of the volume. -/
theorem byte_eq (h : Formatted D p content) {i : ℕ} (hi : i < reach content) :
    zeroExtended D (p.start + i) = zeroExtended (volume D p) i := by
  have hget : (volume D p)[i]? = D[p.start + i]? := by
    unfold volume
    rcases h.inside with hsize | hend
    · rw [List.getElem?_take_of_lt (by omega), List.getElem?_drop]
    · rw [List.take_of_length_le (by rw [List.length_drop]; omega), List.getElem?_drop]
  unfold zeroExtended
  rw [List.getD_eq_getElem?_getD, List.getD_eq_getElem?_getD, hget]

/-- So it reads the same there. -/
theorem window_eq (h : Formatted D p content) {offset n : ℕ} (hreach : offset + n ≤ reach content) :
    window (zeroExtended D) (p.start + offset) n = window (zeroExtended (volume D p)) offset n := by
  apply window_congr
  intro k hk
  rw [Nat.add_assoc]
  exact h.byte_eq (by omega)

/-- So does each of its first sectors. -/
theorem sector_eq (h : Formatted D p content) (hstart : 512 ∣ p.start) {k : ℕ}
    (hreach : (k + 1) * 512 ≤ reach content) :
    sectorAt D (p.start / 512 + k) = sectorAt (volume D p) k := by
  have hplace : (p.start / 512 + k) * 512 = p.start + k * 512 := by
    rw [Nat.add_mul, Nat.div_mul_cancel hstart]
  unfold sectorAt
  rw [hplace]
  exact h.window_eq (by omega)

/-- The file system that is probed at the place of a volume. -/
theorem fileSystemAt (h : Formatted D p content) (hstart : 512 ∣ p.start) :
    fileSystemAt D (p.start / 512) = reportedKind (volume D p) content := by
  have hsector : 512 ≤ reach content := by
    rcases content with _ | s
    · simp only [reach, Nat.reduceMul, Nat.reduceLeDiff]
    · cases s <;> simp only [reach, Nat.reduceMul, Nat.reduceLeDiff, le_refl]
  have hfirst : identifyFs (sectorAt D (p.start / 512)) = identifyFs (sectorAt (volume D p) 0) :=
    congrArg identifyFs (h.sector_eq hstart (k := 0) hsector)
  have hsuper : 2048 ≤ reach content →
      window (zeroExtended D) ((p.start / 512 + 2) * 512) 1024 =
        window (zeroExtended (volume D p)) ((0 + 2) * 512) 1024 := by
    intro hreach
    rw [show (p.start / 512 + 2) * 512 = p.start + (0 + 2) * 512 by omega]
    exact h.window_eq hreach
  have hkind := h.holds.fileSystemAt
  have hknown := h.holds.identifyFs
  rw [← hkind]
  unfold Detector.fileSystemAt
  rw [hfirst]
  split
  · -- The signature is not in the first sector.
    unfold linuxKindAt
    by_cases hfar : 129 * 512 ≤ reach content
    · rw [hsuper (by omega), h.sector_eq hstart (k := 128) (by omega),
        h.sector_eq hstart (k := 7) (by omega)]
    · rename_i hunknown
      have hext : content = some .extFs := by
        have hnear : ¬ (content.any fun s => s.inFirstSector) = true := by
          intro hany
          rw [hunknown, if_pos hany] at hknown
          rcases content with _ | s
          · cases hany
          · exact Signature.kind_ne_unknown hknown.symm
        rcases content with _ | s
        · exact absurd le_rfl hfar
        · cases s <;> first | rfl | exact absurd rfl hnear | exact absurd le_rfl hfar
      have hmagic := extMagic_iff.mpr ((h.holds .extFs).mpr hext)
      rw [hsuper (by rw [hext]; exact le_rfl), if_pos hmagic, if_pos hmagic]
  · rfl

end Formatted

/-! ## Systems -/

/-- The operating system that the contents of the volumes tell. -/
def systemOf (contents : List (Option Signature)) : OperatingSystem :=
  if some .ntfs ∈ contents then .windows
  else if ∃ s ∈ [Signature.extFs, .xfs, .btrfs, .lvm2], some s ∈ contents then .linux
  else .unknown

/-- A pointwise relation carries over what some element satisfies. -/
theorem exists_mem_iff_of_forall₂ {α β : Type} {R : α → β → Prop} {P : α → Prop} {Q : β → Prop}
    {xs : List α} {ys : List β} (h : List.Forall₂ R xs ys) (hR : ∀ x y, R x y → (P x ↔ Q y)) :
    (∃ x ∈ xs, P x) ↔ ∃ y ∈ ys, Q y := by
  induction h with
  | nil => simp only [List.not_mem_nil, false_and, exists_false]
  | cons hxy _ ih => simp only [List.exists_mem_cons_iff, ih, hR _ _ hxy]

/-- The kind of an ext superblock. -/
theorem extKind_mem (sb : List UInt8) : extKind sb ∈ [FileSystemKind.ext2, .ext3, .ext4] := by
  unfold extKind
  dsimp only
  split_ifs <;> decide

/-- Only the signature of NTFS is reported as NTFS. -/
theorem reportedKind_eq_ntfs : reportedKind V content = .ntfs ↔ content = some .ntfs := by
  rcases content with _ | s
  · simp [reportedKind]
  · cases s with
    | extFs =>
      have hext := extKind_mem (window (zeroExtended V) 1024 1024)
      refine iff_of_false (fun hntfs => ?_) (by decide)
      change extKind _ = .ntfs at hntfs
      rw [hntfs] at hext
      exact absurd hext (by decide)
    | _ => simp [reportedKind, Signature.kind]

/-- The kinds of Linux are reported for the signatures of Linux. -/
theorem reportedKind_mem_linux :
    reportedKind V content ∈ [.ext2, .ext3, .ext4, .xfs, .btrfs, FileSystemKind.lvm2] ↔
      ∃ s ∈ [Signature.extFs, .xfs, .btrfs, .lvm2], content = some s := by
  rcases content with _ | s
  · simp [reportedKind]
  · cases s with
    | extFs =>
      have hext := extKind_mem (window (zeroExtended V) 1024 1024)
      refine iff_of_true ?_ ⟨.extFs, by decide, rfl⟩
      change extKind _ ∈ _
      simp only [List.mem_cons, List.not_mem_nil, or_false] at hext ⊢
      tauto
    | _ => simp [reportedKind, Signature.kind]

/-- The kinds of the volumes tell the system that their contents tell. -/
theorem classifyOs_eq_systemOf {partitions : List Partition} {contents : List (Option Signature)}
    (h : List.Forall₂ (fun p content => ∃ V, p.fileSystem = reportedKind V content) partitions
      contents) : classifyOs partitions = systemOf contents := by
  have hntfs : (partitions.any fun p => decide (p.fileSystem = .ntfs)) =
      decide (some .ntfs ∈ contents) := by
    have hmem := exists_mem_iff_of_forall₂ (P := fun p => p.fileSystem = .ntfs)
      (Q := fun content => content = some .ntfs) h fun p content ⟨V, hkind⟩ => by
        rw [hkind, reportedKind_eq_ntfs]
    rw [exists_eq_right] at hmem
    rw [Bool.eq_iff_iff, List.any_eq_true, decide_eq_true_eq, ← hmem]
    simp only [decide_eq_true_eq]
  have hlinux : (partitions.any fun p =>
      decide (p.fileSystem ∈ [.ext2, .ext3, .ext4, .xfs, .btrfs, FileSystemKind.lvm2])) =
      decide (∃ s ∈ [Signature.extFs, .xfs, .btrfs, .lvm2], some s ∈ contents) := by
    have hmem := exists_mem_iff_of_forall₂
      (P := fun p => p.fileSystem ∈ [.ext2, .ext3, .ext4, .xfs, .btrfs, FileSystemKind.lvm2])
      (Q := fun content => ∃ s ∈ [Signature.extFs, .xfs, .btrfs, .lvm2], content = some s) h
      fun p content ⟨V, hkind⟩ => by rw [hkind, reportedKind_mem_linux]
    have hswap : (∃ content ∈ contents, ∃ s ∈ [Signature.extFs, .xfs, .btrfs, .lvm2],
        content = some s) ↔ ∃ s ∈ [Signature.extFs, .xfs, .btrfs, .lvm2], some s ∈ contents := by
      constructor
      · rintro ⟨_, hcontent, s, hs, rfl⟩
        exact ⟨s, hs, hcontent⟩
      · rintro ⟨s, hs, hcontent⟩
        exact ⟨some s, hcontent, s, hs, rfl⟩
    rw [Bool.eq_iff_iff, List.any_eq_true, decide_eq_true_eq, ← hswap, ← hmem]
    simp only [decide_eq_true_eq]
  unfold classifyOs systemOf
  dsimp only
  rw [hntfs, hlinux]
  by_cases hwindows : some .ntfs ∈ contents
  · rw [decide_eq_true hwindows, if_pos hwindows]
  · rw [decide_eq_false hwindows, if_neg hwindows]
    split_ifs with hany
    · rw [decide_eq_true hany]
    · rw [decide_eq_false hany]

/-! ## Layouts -/

/-- The layout of a disk: a table, or one volume that is the whole disk. -/
inductive DiskLayout where
  | mbr (layout : Layout)
  | gpt (lba size : ℕ) (entries : List (Option GptEntry))
  | bare

namespace DiskLayout

/-- The scheme of a layout. -/
def scheme : DiskLayout → PartitionScheme
  | mbr _ => .mbr
  | gpt _ _ _ => .gpt
  | bare => .none

/-- The volumes of a layout, before anything is known about their contents. -/
def partitions (D : List UInt8) : DiskLayout → List Partition
  | mbr layout => numbered layout.found
  | gpt _ _ entries => (entries.filterMap id).mapIdx fun index e => e.partition index
  | bare => [⟨0, 0, D.length, "Volume without a partition table", .unknown, none⟩]

/-- The disk holds the layout. An MBR without partitions looks like the boot sector of a volume if
there is a signature in it, and the boot sector of a volume looks like an MBR if it is signed. -/
def OnDisk (D : List UInt8) : DiskLayout → Prop
  | mbr layout => layout.OnDisk D ∧ ¬ TextAt D 512 "EFI PART" ∧
      (layout.found = [] → ∀ s : Signature, s.inFirstSector → ¬ s.On D)
  | gpt lba size entries => TextAt D 512 "EFI PART" ∧ GptOnDisk D (sectorAt D 1) lba size entries ∧
      ∀ e ∈ entries.filterMap id, (e.lastLba + 1) * 512 ≤ D.length
  | bare => D ≠ [] ∧ ¬ TextAt D 512 "EFI PART" ∧ (BootSigned (sectorAt D 0) →
      (∃ s : Signature, s.inFirstSector ∧ s.On D) ∧ ∀ i < 4, SlotVoid D i)

/-- What is to be reported for a layout with these contents. -/
def reported (layout : DiskLayout) (D : List UInt8) (contents : List (Option Signature)) :
    DetectedDisk where
  scheme := layout.scheme
  partitions := List.zipWith
    (fun p content => { p with fileSystem := reportedKind (volume D p) content })
    (layout.partitions D) contents
  operatingSystem := systemOf contents

end DiskLayout

/-! ## Detection -/

/-- The volumes that are found, each with the file system of its content. -/
theorem reported_partitions {partitions : List Partition} {contents : List (Option Signature)}
    (h : List.Forall₂ (Formatted D) partitions contents)
    (hstart : ∀ p ∈ partitions, 512 ∣ p.start) :
    (partitions.map fun p => { p with fileSystem := fileSystemAt D (p.start / 512) }) =
      List.zipWith (fun p content => { p with fileSystem := reportedKind (volume D p) content })
        partitions contents := by
  induction h with
  | nil => rfl
  | cons hp _ ih =>
    rw [List.map_cons, List.zipWith_cons_cons, hp.fileSystemAt (hstart _ List.mem_cons_self),
      ih fun q hq => hstart q (List.mem_cons_of_mem _ hq)]

/-- They tell the system of their contents. -/
theorem classifyOs_reported {partitions : List Partition} {contents : List (Option Signature)}
    (h : List.Forall₂ (Formatted D) partitions contents) :
    classifyOs (List.zipWith
      (fun p content => { p with fileSystem := reportedKind (volume D p) content })
      partitions contents) = systemOf contents := by
  apply classifyOs_eq_systemOf
  induction h with
  | nil => exact .nil
  | cons _ _ ih => exact .cons ⟨_, rfl⟩ ih

section Detection

variable {m : Type → Type} [Monad m] {R : Returning m} {driver : VmDriver m}

/-- The sectors that the detection reads first tell a GPT by its signature. -/
theorem header_gpt :
    (1024 ≤ (window (zeroExtended D) 0 1024).length ∧ slice (window (zeroExtended D) 0 1024) 512 8 =
      "EFI PART".toList.map fun c => UInt8.ofNat c.toNat) ↔ TextAt D 512 "EFI PART" := by
  rw [length_window, slice_window _ (by norm_num), Nat.zero_add]
  exact and_iff_right le_rfl

/-- The used entries of a table on the disk, as they are found. -/
theorem GptOnDisk.gptNumbered {header : List UInt8} {lba size : ℕ}
    {entries : List (Option GptEntry)} (h : GptOnDisk D header lba size entries) :
    gptNumbered (Detector.tableFound D (lba * 512) entries.length size) =
      (entries.filterMap id).mapIdx fun index e => e.partition index := by
  rw [h.tableFound]
  unfold Detector.gptNumbered
  rw [List.mapIdx_eq_iff]
  intro i
  rw [List.getElem?_mapIdx, List.getElem?_map, Option.map_map]
  simp only [Function.comp_def, GptEntry.partition_eq]

/-- The header of a table on the disk. -/
theorem GptOnDisk.header {header : List UInt8} {lba size : ℕ} {entries : List (Option GptEntry)}
    (h : GptOnDisk D header lba size entries) (hlength : D.length < 2^64) :
    GptHeader header lba entries.length size ∧ TableAccepted entries.length size := by
  have hinside := h.inside
  have hnum := h.length_le
  have hsize := h.size_lt
  refine ⟨⟨?_, ?_, ?_⟩, h.size_ge, List.length_pos_iff.mpr h.entries_ne |>.ne', hnum⟩
  · rw [h.lba_eq, ofLe_toLe]
    omega
  · rw [h.num_eq, ofLe_toLe]
    omega
  · rw [h.size_eq, ofLe_toLe]
    omega

/-- The table of a layout. -/
theorem Serves.readTable_layout (h : Serves R driver D) {layout : DiskLayout}
    (hlayout : layout.OnDisk D) (hbare : layout ≠ .bare) :
    R.outcome (readTable driver (window (zeroExtended D) 0 1024))
      (.ok (layout.scheme, layout.partitions D)) := by
  cases layout with
  | mbr layout =>
    obtain ⟨hdisk, hgpt, hnone⟩ := hlayout
    have hmbr : R.outcome (Detector.readMbr driver (sectorAt D 0)) (.ok (numbered layout.found)) := by
      rw [← hdisk.mbrFound]
      exact h.readMbr (sectorAt D 0)
    have hsigned : BootSigned (sectorAt D 0) := hdisk.1
    have htable : ¬ (numbered layout.found = [] ∧ identifyFs (sectorAt D 0) ≠ .unknown) :=
      fun hboot => hboot.2 (identifyFs_eq_unknown.mpr (hnone (numbered_eq_nil.mp hboot.1)))
    unfold Detector.readTable
    rw [take_header, if_neg (mt header_gpt.mp hgpt)]
    unfold BootSigned at hsigned
    rw [if_pos hsigned]
    refine Returning.outcome_bind hmbr ?_
    rw [if_neg htable]
    exact Returning.outcome_pure _
  | gpt lba size entries =>
    obtain ⟨hgpt, hdisk, -⟩ := hlayout
    obtain ⟨hheader, haccepted⟩ := hdisk.header h.length_lt
    have hinside := hdisk.inside
    have hlength := h.length_lt
    have hread := h.readGpt hheader haccepted
    rw [mulw_of_lt (by omega), hdisk.gptNumbered] at hread
    have hsector : slice (window (zeroExtended D) 0 1024) 512 512 = sectorAt D 1 :=
      slice_window _ (by norm_num)
    unfold Detector.readTable
    rw [if_pos (header_gpt.mpr hgpt), hsector]
    exact Returning.outcome_bind hread (Returning.outcome_pure _)
  | bare => exact absurd rfl hbare

/-- Without a table, the disk is one volume. -/
theorem Serves.readTable_bare (h : Serves R driver D) (hlayout : DiskLayout.bare.OnDisk D) :
    R.outcome (readTable driver (window (zeroExtended D) 0 1024))
      (.ok (.none, [singlePartition driver (sectorAt D 0)])) := by
  obtain ⟨-, hgpt, hboot⟩ := hlayout
  unfold Detector.readTable
  rw [take_header, if_neg (mt header_gpt.mp hgpt)]
  split
  · rename_i hsigned
    obtain ⟨⟨s, hfirst, hs⟩, hvoid⟩ := hboot hsigned
    have hnone : numbered (mbrFound D (sectorAt D 0)) = [] :=
      numbered_eq_nil.mpr (mbrFound_eq_nil.mpr hvoid)
    have hknown : identifyFs (sectorAt D 0) ≠ .unknown := fun hunknown =>
      identifyFs_eq_unknown.mp hunknown s hfirst hs
    refine Returning.outcome_bind (h.readMbr (sectorAt D 0)) ?_
    rw [if_pos ⟨hnone, hknown⟩]
    exact Returning.outcome_pure _
  · exact Returning.outcome_pure _

/-- The volumes of a layout are not identified yet, and they begin at a sector of the disk. -/
theorem DiskLayout.OnDisk.probeable {layout : DiskLayout} (hlayout : layout.OnDisk D)
    (hlength : D.length < 2^63) :
    ∀ p ∈ layout.partitions D, 512 ∣ p.start ∧ p.fileSystem = .unknown ∧ 0 < p.size ∧
      (p.start / 512 + 128) * 512 < 2^64 := by
  intro p hp
  cases layout with
  | mbr layout =>
    obtain ⟨hdisk, -, -⟩ := hlayout
    have hfound := hp
    change p ∈ numbered layout.found at hfound
    rw [← hdisk.mbrFound] at hfound
    obtain ⟨index, hindex, rfl⟩ := List.mem_mapIdx.mp hp
    exact ⟨Nat.dvd_mul_left 512 _, numbered_probeable _ hfound⟩
  | gpt lba size entries =>
    obtain ⟨-, -, hinside⟩ := hlayout
    obtain ⟨index, hindex, rfl⟩ := List.mem_mapIdx.mp hp
    have hend := hinside _ (List.getElem_mem hindex)
    have horder := ((entries.filterMap id)[index]).first_le_last
    refine ⟨Nat.dvd_mul_left 512 _, rfl, ?_, ?_⟩
    · unfold GptEntry.partition
      dsimp only
      omega
    · unfold GptEntry.partition
      dsimp only
      omega
  | bare =>
    obtain ⟨hnonempty, -, -⟩ := hlayout
    obtain rfl := List.mem_singleton.mp hp
    exact ⟨dvd_zero 512, rfl, List.length_pos_iff.mpr hnonempty, by norm_num⟩

variable [LawfulMonad m] {cancelled : m Bool} {increment : m Unit}

/-- The probe of one volume. -/
theorem probeAll_singleton {probed : Partition} (hcalm : R.returns cancelled false)
    (hincrement : R.returns increment ()) (hprobe : R.outcome (probe driver p) (.ok probed)) :
    R.outcome (probeAll driver cancelled increment [p]) (.ok [probed]) := by
  unfold probeAll
  refine Returning.outcome_bind (checkCancelled_calm hcalm) ?_
  refine Returning.outcome_bind hprobe ?_
  refine Returning.outcome_bind (Returning.outcome_lift hincrement) ?_
  exact Returning.outcome_bind (Returning.outcome_pure []) (Returning.outcome_pure _)

/-- The probe of a disk without a table, which may be identified by its first sector already. -/
theorem Serves.probeAll_bare (h : Serves R driver D) (hcalm : R.returns cancelled false)
    (hincrement : R.returns increment ()) (hnonempty : D ≠ []) :
    R.outcome
      (Detector.probeAll driver cancelled increment [singlePartition driver (sectorAt D 0)])
      (.ok ((DiskLayout.bare.partitions D).map fun p =>
        { p with fileSystem := fileSystemAt D (p.start / 512) })) := by
  have hplace : fileSystemAt D (0 / 512) = fileSystemAt D 0 := by rw [Nat.zero_div]
  unfold DiskLayout.partitions singlePartition
  rw [List.map_singleton, hplace, h.virtualSize]
  apply probeAll_singleton hcalm hincrement
  by_cases hunknown : identifyFs (sectorAt D 0) = .unknown
  · have hprobe := h.probe
      (p := ⟨0, 0, D.length, "Volume without a partition table", .unknown, none⟩) rfl
      (List.length_pos_iff.mpr hnonempty) (by norm_num)
    rw [hplace] at hprobe
    rw [hunknown]
    exact hprobe
  · have hknown : fileSystemAt D 0 = identifyFs (sectorAt D 0) := by
      unfold fileSystemAt
      rw [if_neg hunknown]
    rw [hknown]
    unfold Detector.probe
    simp only [hunknown, false_and, if_false]
    exact Returning.outcome_pure _

/-- The detection gives back the layout of a disk, with the contents of its volumes. -/
theorem Serves.detect_layout (h : Serves R driver D) (hcalm : R.returns cancelled false)
    (hincrement : R.returns increment ()) (hlength : D.length < 2^63) {layout : DiskLayout}
    (hlayout : layout.OnDisk D) {contents : List (Option Signature)}
    (hcontents : List.Forall₂ (Formatted D) (layout.partitions D) contents) :
    R.outcome (detectWithProgress driver cancelled increment) (.ok (layout.reported D contents)) := by
  have hprobeable := hlayout.probeable hlength
  unfold DiskLayout.reported
  rw [← classifyOs_reported hcontents,
    ← reported_partitions hcontents fun p hp => (hprobeable p hp).1]
  by_cases hbare : layout = .bare
  · subst hbare
    exact h.detect hcalm (h.readTable_bare hlayout) (h.probeAll_bare hcalm hincrement hlayout.1)
  · exact h.detect hcalm (h.readTable_layout hlayout hbare)
      (h.probeAll hcalm hincrement fun p hp => (hprobeable p hp).2)

end Detection

end VmSpect.Detector
