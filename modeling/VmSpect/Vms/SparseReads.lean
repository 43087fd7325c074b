import VmSpect.Vms.GrainWalk

/-!
# What a sparse extent reads

`SparseLayout` says, in the terms of the VMDK format, what a sparse file stores: a byte lies in a
grain, the directory gives the table of the grain, the table gives the place of the grain in the
file, and an entry of 0 or 1 in either stands for zeros. An extent that is opened from such a file
reads the stored content (`SparseExtent.Holds.readAt_spec`), for the walk through its tables leads
to that content.
-/

namespace VmSpect.Vmdk

open Bytes Words

/-! ## The format -/

/-- Where the byte `p` of the disk is in the file, according to the primary directory; `none` when
its table or its grain is not allocated. -/
def SparseHeader.place (h : SparseHeader) (file : List UInt8) (p : ℕ) : Option ℕ :=
  let grain := p / h.grainBytes
  let gde := entryAt file (h.gdOffset * sector) (grain / h.gtesPerGt)
  let gte := entryAt file (gde * sector) (grain % h.gtesPerGt)
  if gde ≤ 1 ∨ gte ≤ 1 then none else some (gte * sector + p % h.grainBytes)

/-- The sparse file with header `h` stores the disk `D`. -/
structure SparseLayout (file : List UInt8) (h : SparseHeader) (D : List UInt8) : Prop where
  /-- The extent is one that is read natively. -/
  supported : h.unsupportedReason = none
  capacity : h.capacitySectors * sector = D.length
  /-- The sizes fit 64 bits. -/
  size_lt : D.length < 2^64
  table_lt : h.grainBytes * h.gtesPerGt < 2^64
  tableCount_le : h.tableCount ≤ 2^20
  /-- The directory that is read lies in the file, and is the same as the primary one. -/
  directory_inside : h.directoryOffset * sector + 4 * h.tableCount ≤ file.length
  directory_same : slice file (h.directoryOffset * sector) (4 * h.tableCount) =
    slice file (h.gdOffset * sector) (4 * h.tableCount)
  /-- So do the allocated tables. -/
  tables_inside : ∀ i < h.tableCount, 1 < entryAt file (h.gdOffset * sector) i →
    entryAt file (h.gdOffset * sector) i * sector + 4 * h.gtesPerGt ≤ file.length
  /-- A byte that is not allocated is zero. -/
  unallocated : ∀ p < D.length, h.place file p = none → zeroExtended D p = 0
  /-- The other bytes are at their places. -/
  allocated : ∀ p < D.length, ∀ q, h.place file p = some q →
    q < file.length ∧ zeroExtended D p = zeroExtended file q

/-! ## An extent that reads a disk -/

/-- The extent reads the disk `D`: every byte is where the directory and its table say, and the
loaded tables are those of the file. -/
structure SparseExtent.Holds (ext : SparseExtent) (D : List UInt8) : Prop where
  capacity : ext.capacityBytes = D.length
  size_lt : D.length < 2^64
  file_lt : ext.file.length < 2^63
  directory_lt : ext.directory.length < 2^32
  covers : ∀ p < D.length, p / ext.grainBytes / ext.gtesPerGt < ext.directory.length
  tables_inside : ∀ i gde : ℕ, ext.directory[i]? = some gde → 1 < gde →
    gde * sector + 4 * ext.gtesPerGt ≤ ext.file.length
  loaded : ∀ (i : ℕ) (table : List ℕ), ext.tables i = some table →
    ∃ gde : ℕ, ext.directory[i]? = some gde ∧ table = wordsOf (slice ext.file (gde * sector) (4 * ext.gtesPerGt))
  stored : ∀ p < D.length, ∀ gde : ℕ, ext.directory[p / ext.grainBytes / ext.gtesPerGt]? = some gde →
    let gte := entryAt ext.file (gde * sector) (p / ext.grainBytes % ext.gtesPerGt)
    if 1 < gde ∧ 1 < gte then
      gte * sector + p % ext.grainBytes < ext.file.length ∧
        zeroExtended D p = zeroExtended ext.file (gte * sector + p % ext.grainBytes)
    else zeroExtended D p = 0

namespace SparseExtent

variable {ext : SparseExtent} {D : List UInt8}

/-- The walk leads to the bytes of the disk, and every place on it lies in the file. -/
theorem Holds.walk_spec (h : ext.Holds D) {p : ℕ} (hp : p < D.length) :
    ext.walk p = zeroExtended D p ∧ ext.TableReadable .sound p ∧ (1 < ext.directoryEntry p →
      1 < ext.tableEntry p → ext.tableEntry p * sector + p % ext.grainBytes < ext.file.length) := by
  have hentry : ext.directory[p / ext.grainBytes / ext.gtesPerGt]? =
      some (ext.directoryEntry p) := by
    have hcovers := h.covers p hp
    rw [directoryEntry, List.getD_eq_getElem?_getD, List.getElem?_eq_getElem hcovers,
      Option.getD_some]
  have hstored := h.stored p hp (ext.directoryEntry p) hentry
  have hgte : entryAt ext.file (ext.directoryEntry p * sector)
      (p / ext.grainBytes % ext.gtesPerGt) = ext.tableEntry p := rfl
  rw [hgte] at hstored
  dsimp only at hstored
  refine ⟨?_, ?_, fun hgde hgte => ?_⟩
  · unfold walk
    by_cases hfree : ext.directoryEntry p ≤ 1 ∨ ext.tableEntry p ≤ 1
    · rw [if_neg (by omega)] at hstored
      rw [if_pos hfree, hstored]
    · rw [if_pos (by omega)] at hstored
      rw [if_neg hfree, hstored.2]
  · by_cases hgde : 1 < ext.directoryEntry p
    · have hinside := h.tables_inside _ _ hentry hgde
      have hfile := h.file_lt
      exact Or.inr ⟨Device.not_refuses_sound (by omega), hinside⟩
    · exact Or.inl (not_lt.mp hgde)
  · rw [if_pos ⟨hgde, hgte⟩] at hstored
    exact hstored.1

/-- The loaded tables are those of the file. -/
theorem Holds.cached (h : ext.Holds D) : ext.Cached .sound := by
  have hfile := h.file_lt
  refine ⟨fun gde hmem => ?_, fun p hp hgde hgte => ?_, fun i table htable => ?_⟩
  · obtain ⟨i, hi⟩ := List.getElem?_of_mem hmem
    by_cases hgde : 1 < gde
    · have hinside := h.tables_inside i gde hi hgde
      omega
    · unfold sector
      omega
  · rw [h.capacity] at hp
    have hplace := (h.walk_spec hp).2.2 hgde hgte
    omega
  · obtain ⟨gde, hi, rfl⟩ := h.loaded i table htable
    refine ⟨gde, hi, fun hgde => ?_, rfl⟩
    have hinside := h.tables_inside i gde hi hgde
    exact ⟨Device.not_refuses_sound (by omega), hinside⟩

/-- An extent fills the part of a buffer that lies within its capacity. -/
theorem Holds.readAt_spec (h : ext.Holds D) (offset : ℕ) (buf : List UInt8) :
    ∃ ext', ext.readAt offset buf = (ext', .ok (min buf.length (D.length - offset),
        window (zeroExtended D) offset (min buf.length (D.length - offset)) ++
          buf.drop (min buf.length (D.length - offset)))) ∧
      ext'.Holds D := by
  have hcap := h.capacity
  have hindex : ext.IndexFits := by
    intro p hp
    rw [hcap] at hp
    exact (h.covers p hp).trans h.directory_lt
  obtain ⟨tables, hcached, -, hpass⟩ := h.cached.readAt_spec (by rw [hcap]; exact h.size_lt) hindex
    offset buf (n := min buf.length (D.length - offset)) (by rw [hcap])
  generalize hn : min buf.length (D.length - offset) = n at hpass ⊢
  -- No table is missing, and no place lies past the end of the file.
  have hsound : ¬ext.Fails .sound offset n 0 := by
    rintro (⟨k, -, hk, hbad⟩ | ⟨k, -, hk, -, hgde, hgte, hrefused⟩)
    · exact hbad (h.walk_spec (by omega)).2.1
    · have hplace := (h.walk_spec (p := offset + k) (by omega)).2.2 hgde hgte
      have hfile := h.file_lt
      exact Device.not_refuses_sound (by omega) hrefused
  have hwindow : window ext.walk offset n = window (zeroExtended D) offset n :=
    window_congr fun k hk => (h.walk_spec (by omega)).1
  refine ⟨_, by rw [hpass hsound, hwindow], ?_⟩
  refine ⟨hcap, h.size_lt, h.file_lt, h.directory_lt, h.covers, h.tables_inside, ?_, h.stored⟩
  intro i table htable
  obtain ⟨gde, hi, -, rfl⟩ := hcached.loaded i table htable
  exact ⟨gde, hi, rfl⟩

end SparseExtent

/-! ## Opening -/

namespace SparseLayout

variable {file : List UInt8} {cab : SparseHeader} {D : List UInt8}

/-- The directory has one entry for each table, as the primary directory gives it. -/
theorem directory_getElem? (h : SparseLayout file cab D) (i : ℕ) :
    (wordsOf (slice file (cab.directoryOffset * sector) (4 * cab.tableCount)))[i]? =
      if i < cab.tableCount then some (entryAt file (cab.gdOffset * sector) i) else none := by
  by_cases hzero : cab.tableCount = 0
  · simp [hzero, wordsOf, slice]
  · have hlen := congrArg List.length h.directory_same
    have hinside := h.directory_inside
    rw [length_slice, length_slice] at hlen
    rw [h.directory_same, wordsOf_slice_getElem? (by omega)]

/-- A file that stores `D` is opened as an extent that reads `D`. -/
theorem fromHeader (h : SparseLayout file cab D) (hfile : file.length < 2^63) :
    ∃ ext, (SparseExtent.fromHeader file cab).result = .ok (.native ext) ∧ ext.Holds D := by
  obtain ⟨hgrain, hgtes, hcap⟩ := SparseHeader.pos_of_supported h.supported
  have hgb : 0 < cab.grainBytes := Nat.mul_pos hgrain (by norm_num [sector])
  have hbpg : 0 < cab.grainBytes * cab.gtesPerGt := Nat.mul_pos hgb hgtes
  have hgb_le : cab.grainBytes ≤ cab.grainBytes * cab.gtesPerGt := Nat.le_mul_of_pos_right _ hgtes
  have htable := h.table_lt
  have hinside := h.directory_inside
  -- None of the products wraps.
  have hg : cab.grainBytes = mulw cab.grainSectors sector :=
    (mulw_of_lt (show cab.grainBytes < 2^64 by omega)).symm
  have hb : cab.grainBytes * cab.gtesPerGt = mulw cab.grainBytes cab.gtesPerGt :=
    (mulw_of_lt htable).symm
  have hc : D.length = mulw cab.capacitySectors sector := by
    rw [mulw_of_lt (by rw [h.capacity]; exact h.size_lt), h.capacity]
  have hs : cab.directoryOffset * sector = mulw cab.directoryOffset sector :=
    (mulw_of_lt (by omega)).symm
  have hcount : cab.tableCount =
      (D.length + cab.grainBytes * cab.gtesPerGt - 1) / (cab.grainBytes * cab.gtesPerGt) := by
    rw [SparseHeader.tableCount, h.capacity]
  refine ⟨_, SparseExtent.fromHeader_native h.supported hg hb hc hs (by omega) hcount
    h.tableCount_le (by omega) (Or.inr (by omega)), ?_⟩
  rw [Nat.mul_comm cab.tableCount 4]
  have hdirlen : (wordsOf (slice file (cab.directoryOffset * sector) (4 * cab.tableCount))).length =
      cab.tableCount := by
    simp only [wordsOf, List.length_map, List.length_range, length_slice]
    omega
  refine ⟨rfl, h.size_lt, hfile, ?_, ?_, ?_, by simp, ?_⟩
  · have := h.tableCount_le
    rw [hdirlen]
    omega
  · -- The last byte is in the last table.
    intro p hp
    dsimp only
    rw [hdirlen, Nat.div_div_eq_div_mul, hcount, Nat.div_lt_iff_lt_mul hbpg]
    have hceil := Nat.lt_div_mul_add hbpg (a := D.length + cab.grainBytes * cab.gtesPerGt - 1)
    omega
  · intro i gde hi hgde
    rw [h.directory_getElem?] at hi
    split at hi
    · rename_i hlt
      obtain rfl := Option.some.inj hi
      exact h.tables_inside i hlt hgde
    · cases hi
  · intro p hp gde hgde
    dsimp only at hgde ⊢
    rw [h.directory_getElem?] at hgde
    split at hgde
    · obtain rfl := Option.some.inj hgde
      split
      · rename_i halloc
        refine h.allocated p hp _ ?_
        rw [SparseHeader.place, if_neg (by omega)]
      · rename_i hfree
        refine h.unallocated p hp ?_
        rw [SparseHeader.place, if_pos (by omega)]
    · cases hgde

end SparseLayout

end VmSpect.Vmdk
