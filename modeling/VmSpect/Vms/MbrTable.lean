import VmSpect.Vms.DetectorReads

/-!
# The partitions of an MBR

What `read_mbr` returns, as a function of the bytes of the disk. The walk along the chain of an
extended partition visits the sectors of `ebrChain`, each reached from the one before by its link
(`follow`); `mbrFound` lists what the table and the chains hold, and `readMbr_outcome` says that the
call returns that list, numbered, with offsets and sizes that do not wrap.
-/

namespace VmSpect.Detector

open Bytes Words Polling

/-- A partition that the table or an EBR holds: the sector of the EBR, if it is a logical one, its
first sector, how many there are, and its type. -/
structure Found where
  ebr : Option ℕ
  start : ℕ
  sectors : ℕ
  kind : ℕ
  deriving DecidableEq, Repr

/-- The partition with a number. -/
def Found.partition (f : Found) (index : ℕ) : Partition :=
  ⟨index, f.start * 512, f.sectors * 512, mbrTypeName f.kind, .unknown, none⟩

/-- The partitions, numbered in their order. -/
def numbered (fs : List Found) : List Partition := fs.mapIdx fun index f => f.partition index

@[simp] theorem numbered_nil : numbered [] = [] := rfl

@[simp] theorem length_numbered (fs : List Found) : (numbered fs).length = fs.length :=
  List.length_mapIdx

theorem numbered_eq_nil {fs : List Found} : numbered fs = [] ↔ fs = [] := by
  rw [← List.length_eq_zero_iff, length_numbered, List.length_eq_zero_iff]

/-- One more partition has the next number. -/
theorem numbered_append_one (fs : List Found) (f : Found) :
    numbered (fs ++ [f]) = numbered fs ++ [f.partition fs.length] := by
  unfold numbered
  rw [List.mapIdx_concat]

/-- The sector ends with the signature of a boot record. -/
def BootSigned (s : List UInt8) : Prop := byteAt s 510 = 0x55 ∧ byteAt s 511 = 0xAA

instance instDecidableBootSigned (s : List UInt8) : Decidable (BootSigned s) :=
  inferInstanceAs (Decidable (_ ∧ _))

/-- The sector that the link of an EBR leads to. -/
def nextEbr (D : List UInt8) (lbaExtended lba : ℕ) : Option ℕ :=
  let (kind, relNext, _) := mbrEntry (sectorAt D lba) 462
  if kind = 0 ∨ relNext = 0 then none else some (lbaExtended + relNext)

/-- The EBRs that a walk visits, which may follow `left` links less one. -/
def ebrChain (D : List UInt8) (lbaExtended : ℕ) : ℕ → ℕ → List ℕ
  | 0, _ => []
  | left + 1, lba =>
    if BootSigned (sectorAt D lba) then
      lba :: (nextEbr D lbaExtended lba).elim [] (ebrChain D lbaExtended left)
    else []

/-- The partition that an EBR holds. -/
def logicalAt (D : List UInt8) (lba : ℕ) : Option Found :=
  let (kind, relStart, sectors) := mbrEntry (sectorAt D lba) 446
  if kind ≠ 0 ∧ sectors ≠ 0 then some ⟨some lba, lba + relStart, sectors, kind⟩ else none

/-- What a slot of the table holds. -/
def slotFound (D mbr : List UInt8) (i : ℕ) : List Found :=
  let (kind, lbaStart, sectors) := mbrEntry mbr (446 + i * 16)
  if kind = 0 ∨ sectors = 0 then []
  else if kind ∈ [0x05, 0x0F, 0x85] then (ebrChain D lbaStart 64 lbaStart).filterMap (logicalAt D)
  else [⟨none, lbaStart, sectors, kind⟩]

/-- What the table and its chains hold. -/
def mbrFound (D mbr : List UInt8) : List Found := [0, 1, 2, 3].flatMap (slotFound D mbr)

/-! ## Fields of entries -/

section Entries

variable {D mbr : List UInt8} {lbaExtended lba i kind start sectors : ℕ}

/-- The link of an EBR, by its second entry. -/
theorem nextEbr_of_entry (h : mbrEntry (sectorAt D lba) 462 = (kind, start, sectors)) :
    nextEbr D lbaExtended lba =
      if kind = 0 ∨ start = 0 then none else some (lbaExtended + start) := by
  simp only [nextEbr, h]

/-- The logical partition of an EBR, by its first entry. -/
theorem logicalAt_of_entry (h : mbrEntry (sectorAt D lba) 446 = (kind, start, sectors)) :
    logicalAt D lba =
      if kind ≠ 0 ∧ sectors ≠ 0 then some ⟨some lba, lba + start, sectors, kind⟩ else none := by
  simp only [logicalAt, h]

/-- What a slot of the table gives, by its entry. -/
theorem slotFound_of_entry (h : mbrEntry mbr (446 + i * 16) = (kind, start, sectors)) :
    slotFound D mbr i =
      if kind = 0 ∨ sectors = 0 then []
      else if kind ∈ [0x05, 0x0F, 0x85] then (ebrChain D start 64 start).filterMap (logicalAt D)
      else [⟨none, start, sectors, kind⟩] := by
  simp only [slotFound, h]

end Entries

/-- The first sector and the number of sectors are words of 32 bits. -/
theorem mbrEntry_lt {s : List UInt8} {i kind start sectors : ℕ}
    (h : mbrEntry s i = (kind, start, sectors)) : start < 2^32 ∧ sectors < 2^32 := by
  simp only [mbrEntry, Prod.mk.injEq] at h
  obtain ⟨-, rfl, rfl⟩ := h
  exact ⟨ofLe_slice_lt s (i + 8) 4, ofLe_slice_lt s (i + 12) 4⟩

/-- A link leads to a sector whose number is below the sum of two words of 32 bits. -/
theorem nextEbr_lt {D : List UInt8} {lbaExtended lba next : ℕ} (hext : lbaExtended < 2^32)
    (h : nextEbr D lbaExtended lba = some next) : next < 2^33 := by
  rcases hlink : mbrEntry (sectorAt D lba) 462 with ⟨kind, relNext, sectors⟩
  obtain ⟨hrel, -⟩ := mbrEntry_lt hlink
  rw [nextEbr_of_entry hlink] at h
  split at h
  · cases h
  · obtain rfl := Option.some.inj h
    omega

/-- The EBRs that a walk visits are at such sectors. -/
theorem ebrChain_lt {D : List UInt8} {lbaExtended left lba : ℕ} (hext : lbaExtended < 2^32)
    (hlba : lba < 2^33) : ∀ e ∈ ebrChain D lbaExtended left lba, e < 2^33 := by
  induction left generalizing lba with
  | zero =>
    intro e he
    cases he
  | succ left ih =>
    intro e he
    rw [ebrChain] at he
    split at he
    · rcases List.mem_cons.mp he with rfl | he
      · exact hlba
      · rcases hnext : nextEbr D lbaExtended lba with _ | next
        · rw [hnext] at he
          cases he
        · rw [hnext] at he
          exact ih (nextEbr_lt hext hnext) e he
    · cases he

/-- A partition that an EBR holds is not empty, and its numbers are small. -/
theorem logicalAt_bounds {D : List UInt8} {lba : ℕ} {f : Found} (hlba : lba < 2^33)
    (h : logicalAt D lba = some f) : 0 < f.sectors ∧ f.sectors < 2^32 ∧ f.start < 2^34 := by
  rcases hentry : mbrEntry (sectorAt D lba) 446 with ⟨kind, relStart, sectors⟩
  obtain ⟨hrel, hsectors⟩ := mbrEntry_lt hentry
  rw [logicalAt_of_entry hentry] at h
  split at h
  · rename_i hused
    obtain rfl := Option.some.inj h
    have hpos := Nat.pos_of_ne_zero hused.2
    dsimp only
    omega
  · cases h

/-- So are the partitions of a slot. -/
theorem slotFound_bounds {D mbr : List UInt8} {i : ℕ} {f : Found} (h : f ∈ slotFound D mbr i) :
    0 < f.sectors ∧ f.sectors < 2^32 ∧ f.start < 2^34 := by
  rcases hentry : mbrEntry mbr (446 + i * 16) with ⟨kind, lbaStart, sectors⟩
  obtain ⟨hstart, hsectors⟩ := mbrEntry_lt hentry
  rw [slotFound_of_entry hentry] at h
  split at h
  · cases h
  · rename_i hused
    split at h
    · obtain ⟨lba, hlba, hf⟩ := List.mem_filterMap.mp h
      exact logicalAt_bounds (ebrChain_lt hstart (by omega) lba hlba) hf
    · obtain rfl := List.mem_singleton.mp h
      dsimp only
      omega

/-- The partitions that are found are not identified, and their offsets and sizes are small. -/
theorem numbered_bounds {D mbr : List UInt8} :
    ∀ p ∈ numbered (mbrFound D mbr), p.fileSystem = .unknown ∧ 0 < p.size ∧ p.size < 2^41 ∧
      p.start < 2^43 := by
  intro p hp
  obtain ⟨index, hindex, rfl⟩ := List.mem_mapIdx.mp hp
  obtain ⟨i, -, hf⟩ := List.mem_flatMap.mp (List.getElem_mem hindex)
  obtain ⟨hpos, hsectors, hstart⟩ := slotFound_bounds hf
  unfold Found.partition
  dsimp only
  refine ⟨rfl, by omega, by omega, by omega⟩

/-- So they can be probed. -/
theorem numbered_probeable {D mbr : List UInt8} :
    ∀ p ∈ numbered (mbrFound D mbr), p.fileSystem = .unknown ∧ 0 < p.size ∧
      (p.start / 512 + 128) * 512 < 2^64 := by
  intro p hp
  obtain ⟨hunknown, hpos, -, hstart⟩ := numbered_bounds p hp
  exact ⟨hunknown, hpos, by omega⟩

/-! ## The calls -/

section Calls

variable {m : Type → Type} [Monad m] {R : Returning m} {driver : VmDriver m} {D : List UInt8}

/-- A partition of 32-bit numbers is reported without a wrap, and has the next number. -/
theorem numbered_append_found (fs : List Found) (ebr : Option ℕ) {start sectors : ℕ} (kind : ℕ)
    (hstart : start < 2^34) (hsectors : sectors < 2^32) :
    numbered fs ++ [found (numbered fs) (mulw start sector) (mulw sectors sector)
      (mbrTypeName kind) none] = numbered (fs ++ [⟨ebr, start, sectors, kind⟩]) := by
  unfold found sector
  rw [mulw_of_lt (by omega), mulw_of_lt (by omega), numbered_append_one, length_numbered]
  unfold Found.partition
  rfl

/-- The output after an EBR. -/
theorem numbered_append_logical (fs : List Found) {lba kind relStart sectors : ℕ}
    (hlba : lba < 2^33) (hentry : mbrEntry (sectorAt D lba) 446 = (kind, relStart, sectors)) :
    (if kind ≠ 0 ∧ sectors ≠ 0 then
      numbered fs ++ [found (numbered fs) (mulw (addw lba relStart) sector) (mulw sectors sector)
        (mbrTypeName kind) none]
      else numbered fs) = numbered (fs ++ (logicalAt D lba).toList) := by
  obtain ⟨hrel, hsectors⟩ := mbrEntry_lt hentry
  rw [logicalAt_of_entry hentry]
  split
  · rw [addw_of_lt (by omega), numbered_append_found fs (some lba) kind (by omega) hsectors,
      Option.toList_some]
  · rw [Option.toList_none, List.append_nil]

/-- The walk along a chain returns what its EBRs hold. -/
theorem Serves.readExtendedChain (h : Serves R driver D) {lbaExtended : ℕ}
    (hext : lbaExtended < 2^32) (left : ℕ) {lba : ℕ} (hlba : lba < 2^33) (fs : List Found) :
    R.outcome (Detector.readExtendedChain driver lbaExtended left lba (numbered fs))
      (.ok (numbered (fs ++ (ebrChain D lbaExtended left lba).filterMap (logicalAt D)))) := by
  induction left generalizing lba fs with
  | zero =>
    rw [ebrChain, List.filterMap_nil, List.append_nil]
    exact Returning.outcome_pure _
  | succ left ih =>
    rcases hentry : mbrEntry (sectorAt D lba) 446 with ⟨kind, relStart, sectors⟩
    rcases hlink : mbrEntry (sectorAt D lba) 462 with ⟨nextKind, relNext, nextSectors⟩
    unfold Detector.readExtendedChain
    refine Returning.outcome_bind (h.readSector (by omega)) ?_
    rw [ebrChain, length_sectorAt]
    by_cases hsigned : BootSigned (sectorAt D lba)
    · have hgo : ¬ (512 < 512 ∨ byteAt (sectorAt D lba) 510 ≠ 0x55 ∨
          byteAt (sectorAt D lba) 511 ≠ 0xAA) := by
        unfold BootSigned at hsigned
        omega
      rw [if_neg hgo, if_pos hsigned]
      simp only [hentry, hlink]
      rw [numbered_append_logical fs hlba hentry]
      -- The EBR adds what it holds; then the walk ends or follows the link.
      have hcons : ∀ rest : List ℕ, fs ++ (lba :: rest).filterMap (logicalAt D) =
          (fs ++ (logicalAt D lba).toList) ++ rest.filterMap (logicalAt D) := by
        intro rest
        rw [List.append_assoc, List.filterMap_cons]
        cases logicalAt D lba <;> rfl
      rw [hcons]
      by_cases hend : nextKind = 0 ∨ relNext = 0
      · have hnext : nextEbr D lbaExtended lba = none := by
          rw [nextEbr_of_entry hlink, if_pos hend]
        rw [if_pos hend, hnext, Option.elim_none, List.filterMap_nil, List.append_nil]
        exact Returning.outcome_pure _
      · have hnext : nextEbr D lbaExtended lba = some (lbaExtended + relNext) := by
          rw [nextEbr_of_entry hlink, if_neg hend]
        have hlt := nextEbr_lt hext hnext
        rw [if_neg hend, hnext, Option.elim_some, addw_of_lt (by omega)]
        exact ih hlt _
    · have hstop : 512 < 512 ∨ byteAt (sectorAt D lba) 510 ≠ 0x55 ∨
          byteAt (sectorAt D lba) 511 ≠ 0xAA := by
        unfold BootSigned at hsigned
        omega
      rw [if_pos hstop, if_neg hsigned, List.filterMap_nil, List.append_nil]
      exact Returning.outcome_pure _

/-- The loop over the slots returns what they hold. -/
theorem Serves.readMbrEntries (h : Serves R driver D) (mbr : List UInt8) (slots : List ℕ)
    (fs : List Found) :
    R.outcome (Detector.readMbrEntries driver mbr slots (numbered fs))
      (.ok (numbered (fs ++ slots.flatMap (slotFound D mbr)))) := by
  induction slots generalizing fs with
  | nil =>
    rw [List.flatMap_nil, List.append_nil]
    exact Returning.outcome_pure _
  | cons i rest ih =>
    rcases hentry : mbrEntry mbr (446 + i * 16) with ⟨kind, lbaStart, sectors⟩
    obtain ⟨hstart, hsectors⟩ := mbrEntry_lt hentry
    rw [List.flatMap_cons, ← List.append_assoc, slotFound_of_entry hentry]
    unfold Detector.readMbrEntries
    simp only [hentry]
    by_cases hempty : kind = 0 ∨ sectors = 0
    · rw [if_pos hempty, if_pos hempty, List.append_nil]
      exact ih fs
    · rw [if_neg hempty, if_neg hempty]
      by_cases hextended : kind ∈ [0x05, 0x0F, 0x85]
      · rw [if_pos hextended, if_pos hextended]
        exact Returning.outcome_bind (h.readExtendedChain hstart 64 (by omega) fs) (ih _)
      · rw [if_neg hextended, if_neg hextended,
          numbered_append_found fs none kind (by omega) hsectors]
        exact ih _

/-- `read_mbr` returns what the table and its chains hold. -/
theorem Serves.readMbr (h : Serves R driver D) (mbr : List UInt8) :
    R.outcome (Detector.readMbr driver mbr) (.ok (numbered (mbrFound D mbr))) :=
  h.readMbrEntries mbr [0, 1, 2, 3] []

end Calls

end VmSpect.Detector
