import VmSpect.Lib.Recording
import VmSpect.Vms.BareVolume
import VmSpect.Vms.GptTable

/-!
# The arithmetic of hostile GPTs

The header and the entries of a GPT are guest data of 64 bits, and the detector computes byte
offsets and sizes from them. `recordingDriver` notes what the detector asks for, and `exactRun` is
what it would ask for and return with numbers that do not wrap. The two runs are the same exactly
when every address and size that is computed stays below `2^64` (`detect_exact_iff`).
-/

namespace VmSpect.Detector

open Bytes Words Recording

/-- Requests for bytes, each an offset and a length. -/
abbrev Requests := List (ℕ × ℕ)

/-- A driver over the disk `D` that notes what it is asked for. -/
def recordingDriver (D : List UInt8) : VmDriver (StateM Requests) where
  virtualSize := D.length
  readRange offset len := do
    modify (· ++ [(offset, len)])
    pure (.ok (window (zeroExtended D) offset len))
  recordCacheHit := pure ()

/-! ## The probe of one partition -/

/-- The bytes have the magic number of an ext superblock. -/
def ExtMagic (sb : List UInt8) : Prop := byteAt sb 56 = 0x53 ∧ byteAt sb 57 = 0xEF

instance instDecidableExtMagic (sb : List UInt8) : Decidable (ExtMagic sb) :=
  inferInstanceAs (Decidable (_ ∧ _))

/-- The probe of a volume whose sectors 0, 2, 128 and 7 are at the given bytes of the disk: the file
system, and the requests. -/
def probeAt (D : List UInt8) (place : ℕ → ℕ) : FileSystemKind × Requests :=
  let first := window (zeroExtended D) (place 0) 512
  let sb := window (zeroExtended D) (place 2) 1024
  if identifyFs first ≠ .unknown then (identifyFs first, [(place 0, 512)])
  else if ExtMagic sb then (extKind sb, [(place 0, 512), (place 2, 1024)])
  else if slice (window (zeroExtended D) (place 128) 512) 0x40 8 =
      "_BHRfS_M".toList.map (fun c => UInt8.ofNat c.toNat) then
    (.btrfs, [(place 0, 512), (place 2, 1024), (place 128, 512)])
  else if slice (window (zeroExtended D) (place 7) 512) 502 10 =
      "SWAPSPACE2".toList.map (fun c => UInt8.ofNat c.toNat) then
    (.linuxSwap, [(place 0, 512), (place 2, 1024), (place 128, 512), (place 7, 512)])
  else (.unknown, [(place 0, 512), (place 2, 1024), (place 128, 512), (place 7, 512)])

/-- The byte of a sector of a volume, as the code computes it. -/
def wordPlace (start k : ℕ) : ℕ := mulw (addw (start / 512) k) 512

/-- The byte of a sector of a volume. -/
def exactPlace (lba k : ℕ) : ℕ := (lba + k) * 512

/-- A partition after its probe, and the requests. -/
def probed (D : List UInt8) (p : Partition) : Partition × Requests :=
  if p.size = 0 then (p, [])
  else ({ p with fileSystem := (probeAt D (wordPlace p.start)).1 }, (probeAt D (wordPlace p.start)).2)

/-! ## The run -/

/-- The partition of an entry, with numbers that do not wrap. -/
def exactPartition (D : List UInt8) (f : GptFound) (index : ℕ) : Partition :=
  ⟨index, f.firstLba * 512, (f.lastLba - f.firstLba + 1) * 512, f.kind,
    (probeAt D (exactPlace f.firstLba)).1, f.label⟩

/-- The run of the detection on a GPT with numbers that do not wrap: what it returns and what it
asks for. -/
def exactRun (D : List UInt8) (lba num size : ℕ) : Except IoError DetectedDisk × Requests :=
  if TableAccepted num size then
    let found := tableFound D (lba * 512) num size
    let partitions := found.mapIdx fun index f => exactPartition D f index
    (.ok ⟨.gpt, partitions, classifyOs partitions⟩,
      (0, 1024) :: (lba * 512, tableSectors num size * 512) ::
        found.flatMap fun f => (probeAt D (exactPlace f.firstLba)).2)
  else (.error ⟨.invalidData, "GPT header has invalid table parameters"⟩, [(0, 1024)])

/-- The numbers that are computed for an entry fit: its first byte, its size, and the places of the
superblocks that are looked at. -/
def EntryFits (D : List UInt8) (f : GptFound) : Prop :=
  f.firstLba < 2^55 ∧ f.lastLba - f.firstLba + 1 < 2^55 ∧
    (identifyFs (sectorAt D f.firstLba) ≠ .unknown ∨
      f.firstLba + 2 < 2^55 ∧
        (ExtMagic (window (zeroExtended D) ((f.firstLba + 2) * 512) 1024) ∨
          f.firstLba + 128 < 2^55))

/-! ## What the code records -/

variable {D : List UInt8}

/-- `read_blocks` makes one request, with wrapped products. -/
theorem readBlocks_records (bs index count : ℕ) :
    Outcome (readBlocks (recordingDriver D) bs index count)
      (.ok (window (zeroExtended D) (mulw index bs) (mulw count bs)))
      [(mulw index bs, mulw count bs)] := by
  intro log
  rfl

/-- Sectors of a volume. -/
theorem readSectors_records (start k count : ℕ) (hcount : count * 512 < 2^64) :
    Outcome (readBlocks (recordingDriver D) sector (addw (start / sector) k) count)
      (.ok (window (zeroExtended D) (wordPlace start k) (count * 512)))
      [(wordPlace start k, count * 512)] := by
  have hread := readBlocks_records (D := D) sector (addw (start / sector) k) count
  unfold sector at hread ⊢
  rw [mulw_of_lt hcount] at hread
  exact hread

/-- `identify_linux_fs`, after a first sector that tells nothing. -/
theorem identifyLinuxFs_records {start : ℕ}
    (hunknown : identifyFs (window (zeroExtended D) (wordPlace start 0) 512) = .unknown) :
    ∃ requests, Outcome (identifyLinuxFs (recordingDriver D) start)
        (.ok (probeAt D (wordPlace start)).1) requests ∧
      (probeAt D (wordPlace start)).2 = (wordPlace start 0, 512) :: requests := by
  have hsb := readSectors_records (D := D) start 2 2 (by norm_num)
  have hbtrfs := readSectors_records (D := D) start 128 1 (by norm_num)
  have hswap := readSectors_records (D := D) start 7 1 (by norm_num)
  unfold probeAt
  simp only [if_neg (not_not_intro hunknown)]
  by_cases hext : ExtMagic (window (zeroExtended D) (wordPlace start 2) 1024)
  · rw [if_pos hext]
    refine ⟨[(wordPlace start 2, 1024)] ++ [], Outcome.bind hsb ?_, rfl⟩
    rw [length_window, if_pos ⟨by norm_num, hext⟩]
    exact Outcome.pure _
  · rw [if_neg hext]
    by_cases hmagic : slice (window (zeroExtended D) (wordPlace start 128) 512) 0x40 8 =
        "_BHRfS_M".toList.map (fun c => UInt8.ofNat c.toNat)
    · rw [if_pos hmagic]
      refine ⟨[(wordPlace start 2, 1024)] ++ ([(wordPlace start 128, 512)] ++ []),
        Outcome.bind hsb ?_, rfl⟩
      rw [length_window, if_neg fun hboth => hext hboth.2]
      refine Outcome.bind hbtrfs ?_
      rw [length_window, if_pos ⟨by norm_num, hmagic⟩]
      exact Outcome.pure _
    · rw [if_neg hmagic]
      have hpage : ∀ kind, Outcome (if (window (zeroExtended D) (wordPlace start 7) 512).length = 512 ∧
          slice (window (zeroExtended D) (wordPlace start 7) 512) 502 10 =
            "SWAPSPACE2".toList.map (fun c => UInt8.ofNat c.toNat) then pure .linuxSwap
          else pure .unknown : ExceptT IoError (StateM Requests) FileSystemKind) (.ok kind) [] →
          Outcome (identifyLinuxFs (recordingDriver D) start) (.ok kind)
            ([(wordPlace start 2, 1024)] ++ ([(wordPlace start 128, 512)] ++
              ([(wordPlace start 7, 512)] ++ []))) := by
        intro kind hkind
        refine Outcome.bind hsb ?_
        rw [length_window, if_neg fun hboth => hext hboth.2]
        refine Outcome.bind hbtrfs ?_
        rw [length_window, if_neg fun hboth => hmagic hboth.2]
        exact Outcome.bind hswap hkind
      by_cases hsig : slice (window (zeroExtended D) (wordPlace start 7) 512) 502 10 =
          "SWAPSPACE2".toList.map (fun c => UInt8.ofNat c.toNat)
      · rw [if_pos hsig]
        refine ⟨_, hpage .linuxSwap ?_, rfl⟩
        rw [if_pos ⟨length_window _ _ _, hsig⟩]
        exact Outcome.pure _
      · rw [if_neg hsig]
        refine ⟨_, hpage .unknown ?_, rfl⟩
        rw [if_neg fun hboth => hsig hboth.2]
        exact Outcome.pure _

/-- The probe of a partition that is not identified yet. -/
theorem probe_records {p : Partition} (hp : p.fileSystem = .unknown) (hstart : p.start < 2^64) :
    Outcome (probe (recordingDriver D) p) (.ok (probed D p).1) (probed D p).2 := by
  have hfirst : addw (p.start / sector) 0 = p.start / sector := addw_of_lt (by unfold sector; omega)
  have hread := readSectors_records (D := D) p.start 0 1 (by norm_num)
  rw [hfirst, Nat.one_mul] at hread
  unfold probe probed
  by_cases hsize : p.size = 0
  · rw [if_neg fun hprobe => Nat.ne_of_gt hprobe.2 hsize, if_pos hsize]
    exact Outcome.pure p
  · rw [if_pos ⟨hp, Nat.pos_of_ne_zero hsize⟩, if_neg hsize]
    by_cases hunknown : identifyFs (window (zeroExtended D) (wordPlace p.start 0) 512) = .unknown
    · obtain ⟨requests, hlinux, hrequests⟩ := identifyLinuxFs_records hunknown
      dsimp only
      rw [hrequests, ← List.singleton_append, ← List.append_nil requests]
      refine Outcome.bind hread ?_
      rw [if_pos (length_window _ _ _), if_pos hunknown]
      exact Outcome.bind hlinux (Outcome.pure _)
    · have hknown : probeAt D (wordPlace p.start) = (identifyFs (window (zeroExtended D)
          (wordPlace p.start 0) 512), [(wordPlace p.start 0, 512)]) := by
        unfold probeAt
        dsimp only
        rw [if_pos hunknown]
      rw [hknown]
      dsimp only
      rw [← List.append_nil [(wordPlace p.start 0, 512)]]
      refine Outcome.bind hread ?_
      rw [if_pos (length_window _ _ _), if_neg hunknown]
      exact Outcome.pure _

/-- The token is not set, and no one looks at the progress. -/
theorem checkCancelled_records :
    Outcome (checkCancelled (pure false : StateM Requests Bool)) (.ok ()) [] := by
  intro log
  rw [List.append_nil]
  rfl

/-- The loop over the partitions. -/
theorem probeAll_records {partitions : List Partition}
    (h : ∀ p ∈ partitions, p.fileSystem = .unknown ∧ p.start < 2^64) :
    Outcome (probeAll (recordingDriver D) (pure false) (pure ()) partitions)
      (.ok (partitions.map fun p => (probed D p).1)) (partitions.flatMap fun p => (probed D p).2) := by
  induction partitions with
  | nil => exact Outcome.pure []
  | cons p rest ih =>
    obtain ⟨hp, hstart⟩ := h p List.mem_cons_self
    have hrest := ih fun q hq => h q (List.mem_cons_of_mem p hq)
    unfold probeAll
    rw [List.flatMap_cons, List.map_cons, ← List.nil_append ((probed D p).2 ++ _)]
    refine Outcome.bind checkCancelled_records ?_
    refine Outcome.bind (probe_records hp hstart) ?_
    rw [← List.nil_append (List.flatMap _ rest)]
    refine Outcome.bind (a := ()) (fun log => by rw [List.append_nil]; rfl) ?_
    rw [← List.append_nil (List.flatMap _ rest)]
    exact Outcome.bind hrest (Outcome.pure _)

/-- `read_gpt`. -/
theorem readGpt_records {header : List UInt8} {lba num size : ℕ}
    (hheader : GptHeader header lba num size) (haccepted : TableAccepted num size) :
    Outcome (readGpt (recordingDriver D) header)
      (.ok (gptNumbered (tableFound D (mulw lba 512) num size)))
      [(mulw lba 512, tableSectors num size * 512)] := by
  have htable := readBlocks_records (D := D) sector lba (tableSectors num size)
  unfold sector at htable
  rw [mulw_of_lt (tableSectors_lt haccepted.2.2 hheader.size_lt)] at htable
  rw [readGpt_accepted hheader haccepted, ← List.append_nil [(mulw lba 512, _)]]
  refine Outcome.bind htable ?_
  rw [gptPartitions_window D _ haccepted]
  exact Outcome.pure _

/-- The partitions of entries are not identified, and their first bytes are words. -/
theorem gptNumbered_unprobed (fs : List GptFound) :
    ∀ p ∈ gptNumbered fs, p.fileSystem = .unknown ∧ p.start < 2^64 := by
  intro p hp
  obtain ⟨index, hindex, rfl⟩ := List.mem_mapIdx.mp hp
  exact ⟨rfl, Nat.mod_lt _ (by norm_num)⟩

/-- The disk has a GPT, whose header has these fields. -/
structure HasGpt (D : List UInt8) (lba num size : ℕ) : Prop where
  signature : TextAt D 512 "EFI PART"
  header : GptHeader (sectorAt D 1) lba num size

/-- The run of the detection on a GPT, from an empty log. -/
def detectRun (D : List UInt8) : Except IoError DetectedDisk × Requests :=
  (detectWithProgress (recordingDriver D) (pure false) (pure ())).run.run []

section Run

variable {lba num size : ℕ}

/-- The two sectors that the detection reads first. -/
theorem header_records :
    Outcome (readBlocks (recordingDriver D) sector 0 2) (.ok (window (zeroExtended D) 0 1024))
      [(0, 1024)] :=
  readBlocks_records sector 0 2

/-- The table of a disk with a GPT. -/
theorem HasGpt.readTable (h : HasGpt D lba num size) :
    readTable (recordingDriver D) (window (zeroExtended D) 0 1024) =
      readGpt (recordingDriver D) (sectorAt D 1) >>= fun partitions => pure (.gpt, partitions) := by
  have hheader : slice (window (zeroExtended D) 0 1024) 512 512 = sectorAt D 1 :=
    slice_window _ (by norm_num)
  have hsignature : slice (window (zeroExtended D) 0 1024) 512 8 =
      "EFI PART".toList.map (fun c => UInt8.ofNat c.toNat) := by
    rw [slice_window _ (by norm_num), Nat.zero_add]
    exact h.signature
  unfold Detector.readTable
  rw [length_window, if_pos ⟨le_rfl, hsignature⟩, hheader]

/-- A header with other parameters is refused. -/
theorem HasGpt.detectRun_refused (h : HasGpt D lba num size) (hrefused : ¬ TableAccepted num size) :
    detectRun D =
      (.error ⟨.invalidData, "GPT header has invalid table parameters"⟩, [(0, 1024)]) := by
  have hlong : ¬ (window (zeroExtended D) 0 1024).length < sector := by
    rw [length_window]
    decide
  have hrun : Outcome (detectWithProgress (recordingDriver D) (pure false) (pure ()))
      (.error ⟨.invalidData, "GPT header has invalid table parameters"⟩)
      ([] ++ ([(0, 1024)] ++ [])) := by
    unfold detectWithProgress
    refine Outcome.bind checkCancelled_records (Outcome.bind header_records ?_)
    rw [if_neg hlong, h.readTable, readGpt_refused h.header hrefused]
    exact Outcome.bind_error (Outcome.bind_error (Outcome.throw _))
  exact hrun []

/-- The run on a table that is accepted, with the words of the code. -/
theorem HasGpt.detectRun_accepted (h : HasGpt D lba num size) (haccepted : TableAccepted num size)
    {partitions : List Partition}
    (hpartitions : partitions = gptNumbered (tableFound D (mulw lba 512) num size)) :
    detectRun D =
      (.ok ⟨.gpt, partitions.map fun p => (probed D p).1,
          classifyOs (partitions.map fun p => (probed D p).1)⟩,
        (0, 1024) :: (mulw lba 512, tableSectors num size * 512) ::
          partitions.flatMap fun p => (probed D p).2) := by
  have hlong : ¬ (window (zeroExtended D) 0 1024).length < sector := by
    rw [length_window]
    decide
  have htable := readGpt_records (D := D) h.header haccepted
  rw [← hpartitions] at htable
  have hprobes : Outcome (probeAll (recordingDriver D) (pure false) (pure ()) partitions) _ _ :=
    probeAll_records (by rw [hpartitions]; exact gptNumbered_unprobed _)
  have hrun : Outcome (detectWithProgress (recordingDriver D) (pure false) (pure ()))
      (.ok ⟨.gpt, partitions.map fun p => (probed D p).1,
        classifyOs (partitions.map fun p => (probed D p).1)⟩)
      ([] ++ ([(0, 1024)] ++ (([(mulw lba 512, tableSectors num size * 512)] ++ []) ++
        ([] ++ (partitions.flatMap (fun p => (probed D p).2) ++ []))))) := by
    unfold detectWithProgress
    refine Outcome.bind checkCancelled_records (Outcome.bind header_records ?_)
    rw [if_neg hlong, h.readTable]
    refine Outcome.bind (Outcome.bind htable (Outcome.pure _)) ?_
    exact Outcome.bind checkCancelled_records (Outcome.bind hprobes (Outcome.pure _))
  rw [detectRun, hrun []]
  simp only [List.nil_append, List.append_nil, List.cons_append]

end Run

/-! ## Words and numbers -/

/-- A product of words is the number if that fits, and only then. -/
theorem mulw_eq_iff {a b : ℕ} : mulw a b = a * b ↔ a * b < 2^64 := by
  constructor
  · intro h
    rw [← h]
    exact Nat.mod_lt _ (by norm_num)
  · exact mulw_of_lt

/-- The place of a sector of a volume is the exact one if that fits. -/
theorem wordPlace_eq_iff {lba k : ℕ} (hlba : lba < 2^55) (hk : k ≤ 128) :
    wordPlace (lba * 512) k = exactPlace lba k ↔ lba + k < 2^55 := by
  unfold wordPlace exactPlace
  rw [Nat.mul_div_cancel lba (by norm_num), addw_of_lt (by omega), mulw_eq_iff]
  omega

/-- The first request of a probe, and the second one after a sector that tells nothing. -/
theorem probeAt_second {place : ℕ → ℕ}
    (hunknown : identifyFs (window (zeroExtended D) (place 0) 512) = .unknown) :
    ∃ rest, (probeAt D place).2 = (place 0, 512) :: (place 2, 1024) :: rest := by
  unfold probeAt
  simp only [if_neg (not_not_intro hunknown)]
  split_ifs
  · exact ⟨_, rfl⟩
  · exact ⟨_, rfl⟩
  · exact ⟨_, rfl⟩
  · exact ⟨_, rfl⟩

/-- The third one, where there is no ext superblock. -/
theorem probeAt_third {place : ℕ → ℕ}
    (hunknown : identifyFs (window (zeroExtended D) (place 0) 512) = .unknown)
    (hext : ¬ ExtMagic (window (zeroExtended D) (place 2) 1024)) :
    ∃ rest, (probeAt D place).2 = (place 0, 512) :: (place 2, 1024) :: (place 128, 512) :: rest := by
  unfold probeAt
  simp only [if_neg (not_not_intro hunknown), if_neg hext]
  split_ifs
  · exact ⟨_, rfl⟩
  · exact ⟨_, rfl⟩
  · exact ⟨_, rfl⟩

/-- The requests of a probe only depend on the places that it looks at. -/
def PlacesAgree (D : List UInt8) (p q : ℕ → ℕ) : Prop :=
  identifyFs (window (zeroExtended D) (q 0) 512) ≠ .unknown ∨
    p 2 = q 2 ∧ (ExtMagic (window (zeroExtended D) (q 2) 1024) ∨ p 128 = q 128)

/-- Probes agree where their places do, and diverge otherwise. -/
theorem probeAt_agree_or_diverges {p q : ℕ → ℕ} (hzero : p 0 = q 0) (hpage : p 128 = q 128 → p 7 = q 7) :
    PlacesAgree D p q ∧ probeAt D p = probeAt D q ∨
      ¬ PlacesAgree D p q ∧ Diverges (probeAt D p).2 (probeAt D q).2 := by
  unfold PlacesAgree
  by_cases hunknown : identifyFs (window (zeroExtended D) (q 0) 512) = .unknown
  · have hunknown' : identifyFs (window (zeroExtended D) (p 0) 512) = .unknown := by
      rw [hzero]
      exact hunknown
    by_cases htwo : p 2 = q 2
    · by_cases hext : ExtMagic (window (zeroExtended D) (q 2) 1024)
      · left
        refine ⟨Or.inr ⟨htwo, Or.inl hext⟩, ?_⟩
        unfold probeAt
        simp only [hzero, htwo, if_neg (not_not_intro hunknown), if_pos hext]
      · by_cases hfar : p 128 = q 128
        · left
          refine ⟨Or.inr ⟨htwo, Or.inr hfar⟩, ?_⟩
          unfold probeAt
          simp only [hzero, htwo, hfar, hpage hfar]
        · -- The third request is made at two places.
          right
          refine ⟨?_, ?_⟩
          · rintro (hknown | ⟨-, hmagic | hsame⟩)
            · exact hknown hunknown
            · exact hext hmagic
            · exact hfar hsame
          obtain ⟨rest, hp⟩ := probeAt_third hunknown' (by rw [htwo]; exact hext)
          obtain ⟨rest', hq⟩ := probeAt_third hunknown hext
          rw [hp, hq, hzero, htwo]
          refine Diverges.cons _ (Diverges.cons _ ⟨[], _, _, rest, rest', rfl, rfl, ?_⟩)
          intro heq
          exact hfar (Prod.mk.inj heq).1
    · right
      refine ⟨?_, ?_⟩
      · rintro (hknown | ⟨hsame, -⟩)
        · exact hknown hunknown
        · exact htwo hsame
      obtain ⟨rest, hp⟩ := probeAt_second hunknown'
      obtain ⟨rest', hq⟩ := probeAt_second hunknown
      rw [hp, hq, hzero]
      refine Diverges.cons _ ⟨[], _, _, rest, rest', rfl, rfl, ?_⟩
      intro heq
      exact htwo (Prod.mk.inj heq).1
  · left
    refine ⟨Or.inl hunknown, ?_⟩
    unfold probeAt
    simp only [hzero, if_pos hunknown]

/-! ## Entries -/

/-- The first byte and the size of an entry fit a word. -/
def PlaceFits (f : GptFound) : Prop := f.firstLba < 2^55 ∧ f.lastLba - f.firstLba + 1 < 2^55

/-- They are then what the code computes. -/
theorem PlaceFits.partition {f : GptFound} (h : PlaceFits f) (index : ℕ) :
    f.partition index = ⟨index, f.firstLba * 512, (f.lastLba - f.firstLba + 1) * 512, f.kind,
      .unknown, f.label⟩ := by
  obtain ⟨hfirst, hsize⟩ := h
  unfold GptFound.partition
  rw [addw_of_lt (by omega), mulw_of_lt (by omega), mulw_of_lt (by omega)]

/-- The probe of such an entry. -/
theorem PlaceFits.probed {f : GptFound} (h : PlaceFits f) (index : ℕ) :
    probed D (f.partition index) =
      (⟨index, f.firstLba * 512, (f.lastLba - f.firstLba + 1) * 512, f.kind,
        (probeAt D (wordPlace (f.firstLba * 512))).1, f.label⟩,
        (probeAt D (wordPlace (f.firstLba * 512))).2) := by
  rw [h.partition]
  unfold Detector.probed
  exact if_neg (by dsimp only; omega)

/-- A probe does not move a partition. -/
theorem probed_start (p : Partition) : (probed D p).1.start = p.start := by
  unfold Detector.probed
  split_ifs <;> rfl

/-- Nor does it resize one. -/
theorem probed_size (p : Partition) : (probed D p).1.size = p.size := by
  unfold Detector.probed
  split_ifs <;> rfl

/-- An entry whose partition is reported as it is fits. -/
theorem placeFits_of_probed {f : GptFound} {index : ℕ}
    (h : (probed D (f.partition index)).1 = exactPartition D f index) : PlaceFits f := by
  have hstart : (probed D (f.partition index)).1.start = mulw f.firstLba 512 := probed_start _
  have hsize : (probed D (f.partition index)).1.size =
      mulw (addw (f.lastLba - f.firstLba) 1) 512 := probed_size _
  rw [h] at hstart hsize
  have hfirst : f.firstLba * 512 < 2^64 := mulw_eq_iff.mp hstart.symm
  have hcount : (f.lastLba - f.firstLba + 1) * 512 < 2^64 := by
    have hword : (f.lastLba - f.firstLba + 1) * 512 =
      mulw (addw (f.lastLba - f.firstLba) 1) 512 := hsize
    rw [hword]
    exact Nat.mod_lt _ (by norm_num)
  constructor
  · omega
  · omega

/-- What the probe of an entry looks at fits a word. -/
theorem placesAgree_iff {f : GptFound} (h : PlaceFits f) :
    PlacesAgree D (wordPlace (f.firstLba * 512)) (exactPlace f.firstLba) ↔ EntryFits D f := by
  have hplace : f.firstLba < 2^55 ∧ f.lastLba - f.firstLba + 1 < 2^55 := h
  unfold PlacesAgree EntryFits
  rw [wordPlace_eq_iff h.1 (by norm_num), wordPlace_eq_iff h.1 le_rfl, ← and_assoc,
    and_iff_right hplace, exactPlace, exactPlace]
  rfl

/-- The probe of an entry agrees with the exact one where it fits. -/
theorem probe_agrees_or_diverges {f : GptFound} (h : PlaceFits f) :
    EntryFits D f ∧ probeAt D (wordPlace (f.firstLba * 512)) = probeAt D (exactPlace f.firstLba) ∨
      ¬ EntryFits D f ∧ Diverges (probeAt D (wordPlace (f.firstLba * 512))).2
        (probeAt D (exactPlace f.firstLba)).2 := by
  rw [← placesAgree_iff h]
  apply probeAt_agree_or_diverges
  · exact (wordPlace_eq_iff h.1 (by norm_num)).mpr h.1
  · intro hfar
    have hlt := (wordPlace_eq_iff h.1 le_rfl).mp hfar
    exact (wordPlace_eq_iff h.1 (by norm_num)).mpr (by omega)

/-! ## The two runs -/

section Runs

variable {fs : List GptFound}

/-- The partitions are reported as they are only if their places fit. -/
theorem placeFits_of_partitions
    (h : (gptNumbered fs).map (fun p => (probed D p).1) =
      fs.mapIdx fun index f => exactPartition D f index) : ∀ f ∈ fs, PlaceFits f := by
  intro f hf
  obtain ⟨i, hi⟩ := List.mem_iff_getElem?.mp hf
  have hget := congrArg (·[i]?) h
  simp only [gptNumbered, List.getElem?_map, List.getElem?_mapIdx, hi, Option.map_some,
    Option.some_inj] at hget
  exact placeFits_of_probed hget

/-- The requests of entries whose places fit. -/
theorem requests_of_placeFits (h : ∀ f ∈ fs, PlaceFits f) :
    (gptNumbered fs).flatMap (fun p => (probed D p).2) =
      fs.flatMap fun f => (probeAt D (wordPlace (f.firstLba * 512))).2 := by
  have hmap : (gptNumbered fs).map (fun p => (probed D p).2) =
      fs.map fun f => (probeAt D (wordPlace (f.firstLba * 512))).2 := by
    apply List.ext_getElem?
    intro i
    simp only [gptNumbered, List.getElem?_map, List.getElem?_mapIdx]
    rcases hi : fs[i]? with _ | f
    · rfl
    · have hfits := h f (List.mem_of_getElem? hi)
      rw [Option.map_some, Option.map_some, Option.map_some, hfits.probed]
  rw [List.flatMap_def, List.flatMap_def, hmap]

/-- The requests are the exact ones only if all that is computed for the entries fits. -/
theorem requests_eq_iff (h : ∀ f ∈ fs, PlaceFits f) :
    (gptNumbered fs).flatMap (fun p => (probed D p).2) =
      fs.flatMap (fun f => (probeAt D (exactPlace f.firstLba)).2) ↔ ∀ f ∈ fs, EntryFits D f := by
  have hcases : ∀ f ∈ fs, _ := fun f hf => probe_agrees_or_diverges (D := D) (h f hf)
  rw [requests_of_placeFits h, flatMap_eq_iff]
  · constructor
    · intro hall f hf
      rcases hcases f hf with ⟨hfits, -⟩ | ⟨-, hdiv⟩
      · exact hfits
      · exact absurd (by rw [hall f hf]) (hdiv.append_ne [] [])
    · intro hall f hf
      rcases hcases f hf with ⟨-, heq⟩ | ⟨hnot, -⟩
      · rw [heq]
      · exact absurd (hall f hf) hnot
  · intro f hf
    rcases hcases f hf with ⟨-, heq⟩ | ⟨-, hdiv⟩
    · exact Or.inl (by rw [heq])
    · exact Or.inr hdiv

/-- Entries for which all fits are reported as they are. -/
theorem partitions_of_entryFits (h : ∀ f ∈ fs, EntryFits D f) :
    (gptNumbered fs).map (fun p => (probed D p).1) =
      fs.mapIdx fun index f => exactPartition D f index := by
  apply List.ext_getElem?
  intro i
  simp only [gptNumbered, List.getElem?_map, List.getElem?_mapIdx]
  rcases hi : fs[i]? with _ | f
  · rfl
  · have hfits := h f (List.mem_of_getElem? hi)
    have hplace : PlaceFits f := ⟨hfits.1, hfits.2.1⟩
    rw [Option.map_some, Option.map_some, Option.map_some, hplace.probed]
    rcases probe_agrees_or_diverges (D := D) hplace with ⟨-, heq⟩ | ⟨hnot, -⟩
    · rw [heq]
      rfl
    · exact absurd hfits hnot

end Runs

/-- The run of the detection on a GPT is the one with numbers that do not wrap exactly when the
header is refused, or the table begins below `2^64` and all that is computed for its used entries
stays below that. -/
theorem detect_exact_iff {lba num size : ℕ} (h : HasGpt D lba num size) :
    detectRun D = exactRun D lba num size ↔
      ¬ TableAccepted num size ∨
        lba < 2^55 ∧ ∀ f ∈ tableFound D (lba * 512) num size, EntryFits D f := by
  by_cases haccepted : TableAccepted num size
  · unfold exactRun
    rw [h.detectRun_accepted haccepted rfl, if_pos haccepted,
      or_iff_right (not_not_intro haccepted)]
    simp only [Prod.mk.injEq, Except.ok.injEq, DetectedDisk.mk.injEq, List.cons.injEq, true_and,
      and_true]
    constructor
    · rintro ⟨⟨hpartitions, -⟩, hlba, hrequests⟩
      -- The table is read from its place, so that both runs see the same entries.
      rw [hlba] at hpartitions hrequests
      have hlt := mulw_eq_iff.mp hlba
      have hplaces := placeFits_of_partitions hpartitions
      exact ⟨by omega, (requests_eq_iff hplaces).mp hrequests⟩
    · rintro ⟨hlt, hfits⟩
      have hlba : mulw lba 512 = lba * 512 := mulw_of_lt (by omega)
      have hplaces : ∀ f ∈ tableFound D (lba * 512) num size, PlaceFits f := fun f hf =>
        ⟨(hfits f hf).1, (hfits f hf).2.1⟩
      have hpartitions := partitions_of_entryFits hfits
      rw [hlba, hpartitions]
      exact ⟨⟨rfl, rfl⟩, rfl, (requests_eq_iff hplaces).mpr hfits⟩
  · unfold exactRun
    rw [h.detectRun_refused haccepted, if_neg haccepted]
    exact iff_of_true rfl (Or.inl haccepted)

/-! ## A table of one entry -/

/-- The bytes of an entry of an unknown type without a name. -/
def plainEntry (firstLba lastLba : ℕ) : List UInt8 :=
  List.replicate 16 1 ++ List.replicate 16 0 ++ toLe 8 firstLba ++ toLe 8 lastLba ++
    List.replicate 80 0

/-- Two sectors with the header of a GPT of one entry in sector 2. -/
def oneEntryHeader : List UInt8 :=
  List.replicate 512 0 ++ "EFI PART".toList.map (fun c : Char => UInt8.ofNat c.toNat) ++
    List.replicate 64 0 ++ toLe 8 2 ++ toLe 4 1 ++ toLe 4 128 ++ List.replicate 424 0

/-- A disk with this header and an entry. -/
def oneEntryDisk (firstLba lastLba : ℕ) : List UInt8 :=
  oneEntryHeader ++ (plainEntry firstLba lastLba ++ [])

/-- The table of the disk. -/
theorem oneEntryDisk_found (firstLba lastLba : ℕ) :
    tableFound (oneEntryDisk firstLba lastLba) (2 * 512) 1 128 =
      (gptFound (plainEntry firstLba lastLba)).toList := by
  have hlength : (plainEntry firstLba lastLba).length = 128 := by
    simp only [plainEntry, List.length_append, List.length_replicate, length_toLe]
  have hheader : oneEntryHeader.length = 2 * 512 + 0 * 128 := by decide +kernel
  have hinside : 2 * 512 + 0 * 128 + 128 ≤ (oneEntryDisk firstLba lastLba).length := by
    rw [oneEntryDisk, List.length_append, List.length_append, hheader, hlength, List.length_nil]
  have hentry : window (zeroExtended (oneEntryDisk firstLba lastLba)) (2 * 512 + 0 * 128) 128 =
      plainEntry firstLba lastLba := by
    rw [window_eq_slice hinside]
    exact slice_field _ _ hheader hlength
  unfold tableFound
  rw [List.range_one, List.filterMap_cons, hentry, List.filterMap_nil]
  cases gptFound (plainEntry firstLba lastLba) <;> rfl

/-- An entry of ten sectors. -/
def fittingGpt : List UInt8 := oneEntryDisk 40 49

/-- It has a table of one entry. -/
theorem fittingGpt_hasGpt : HasGpt fittingGpt 2 1 128 where
  signature := by decide +kernel
  header := ⟨by decide +kernel, by decide +kernel, by decide +kernel⟩

/-- It is reported as it is. -/
theorem fittingGpt_exact : detectRun fittingGpt = exactRun fittingGpt 2 1 128 := by
  have hfound : tableFound fittingGpt (2 * 512) 1 128 = [⟨40, 49, "Other", none⟩] := by
    rw [fittingGpt, oneEntryDisk_found]
    decide +kernel
  refine (detect_exact_iff fittingGpt_hasGpt).mpr (Or.inr ⟨by norm_num, ?_⟩)
  rw [hfound]
  intro f hf
  obtain rfl := List.mem_singleton.mp hf
  exact ⟨by norm_num, by norm_num, Or.inr ⟨by norm_num, Or.inr (by norm_num)⟩⟩

/-- An entry whose first byte is `2^64`. -/
def hostileGpt : List UInt8 := oneEntryDisk (2^55) (2^55)

/-- Its table has one entry too. -/
theorem hostileGpt_hasGpt : HasGpt hostileGpt 2 1 128 where
  signature := by decide +kernel
  header := ⟨by decide +kernel, by decide +kernel, by decide +kernel⟩

/-- It is reported as a partition at byte 0. -/
theorem hostileGpt_wraps :
    HasGpt hostileGpt 2 1 128 ∧
      tableFound hostileGpt (2 * 512) 1 128 = [⟨2^55, 2^55, "Other", none⟩] ∧
      (∃ disk requests, detectRun hostileGpt = (.ok disk, requests) ∧
        disk.partitions.map (·.start) = [0]) ∧
      detectRun hostileGpt ≠ exactRun hostileGpt 2 1 128 := by
  have hfound : tableFound hostileGpt (2 * 512) 1 128 = [⟨2^55, 2^55, "Other", none⟩] := by
    rw [hostileGpt, oneEntryDisk_found]
    decide +kernel
  have hrun := hostileGpt_hasGpt.detectRun_accepted (by decide) rfl
  rw [mulw_of_lt (by norm_num), hfound] at hrun
  have hstarts : ((gptNumbered [⟨2^55, 2^55, "Other", none⟩]).map
      fun p => (probed hostileGpt p).1).map (·.start) = [0] := by
    simp only [gptNumbered, List.mapIdx_cons, List.mapIdx_nil, List.map_cons, List.map_nil,
      probed_start, GptFound.partition]
    decide
  refine ⟨hostileGpt_hasGpt, hfound, ⟨_, _, hrun, hstarts⟩, ?_⟩
  unfold exactRun
  rw [hrun, if_pos (by decide), hfound]
  intro heq
  simp only [Prod.mk.injEq, Except.ok.injEq, DetectedDisk.mk.injEq, true_and] at heq
  have hfits := placeFits_of_partitions heq.1.1 _ (List.mem_singleton_self _)
  exact absurd hfits.1 (lt_irrefl _)

end VmSpect.Detector
