import VmSpect.Vms.GrainWalk

/-!
# The redundant grain directory

A sparse header gives the place of a grain directory and of a redundant copy of it, and a comment in
`from_header` says that the copy is used when the primary directory is invalid. `from_header` uses
the copy whenever the header marks it as used, and `unsupported_reason` has refused every header
whose primary directory is invalid before. `redundantIsFallback_iff` says for which headers the copy
is nevertheless only a fallback, whatever the file holds.
-/

namespace VmSpect.Vmdk

open Bytes Words

/-! ## What a fallback is -/

/-- An offset at which a directory can be. -/
def ValidOffset (offset : ℕ) : Prop := offset ≠ 0 ∧ offset ≠ u64Max

/-- Whether an offset is valid can be decided. -/
instance decidableValidOffset (offset : ℕ) : Decidable (ValidOffset offset) :=
  inferInstanceAs (Decidable (offset ≠ 0 ∧ offset ≠ u64Max))

namespace SparseHeader

variable (h : SparseHeader)

/-- The directory at an offset of the header, as far as it lies in the file. -/
def directoryAt (file : List UInt8) (offset : ℕ) : List ℕ :=
  wordsOf (slice file (mulw offset sector) (h.directoryTables * 4))

/-- The header marks its redundant directory as used, at a valid offset that a file can be sought
to, and nothing but its primary directory stands against it. -/
structure RedundantOpens : Prop where
  flagged : h.flags &&& 0x2 ≠ 0
  valid : ValidOffset h.rgdOffset
  supported : ({ h with gdOffset := h.rgdOffset } : SparseHeader).unsupportedReason = none
  tableBytes_ne : h.tableBytes ≠ 0
  tables_le : h.directoryTables ≤ 2^20
  reachable : mulw h.rgdOffset sector < 2^63

/-- The redundant directory is only a fallback: with a valid primary directory, reads return the
bytes that it and its tables give; without one, the extent is opened through the redundant
directory. -/
structure RedundantIsFallback : Prop where
  primary : ValidOffset h.gdOffset → ∀ (file : List UInt8) (ext : SparseExtent),
    (SparseExtent.fromHeader file h).result = .ok (.native ext) →
    ∀ (earlier : List (ℕ × List UInt8)) (offset : ℕ) (buf : List UInt8) (n : ℕ)
      (bytes : List UInt8), ((ext.afterReads earlier).readAt offset buf).2 = .ok (n, bytes) →
      bytes.take n = window
        ({ ext with directory := h.directoryAt file h.gdOffset } : SparseExtent).walk offset n
  fallback : ¬ValidOffset h.gdOffset → h.RedundantOpens → ∀ file : List UInt8,
    mulw h.rgdOffset sector + h.directoryTables * 4 ≤ file.length →
    ∃ ext, (SparseExtent.fromHeader file h).result = .ok (.native ext) ∧
      ext.directory = h.directoryAt file h.rgdOffset

variable {h}

/-- A supported header has a valid primary directory. -/
theorem validOffset_of_supported (hsup : h.unsupportedReason = none) : ValidOffset h.gdOffset := by
  unfold unsupportedReason at hsup
  split_ifs at hsup with hcompressed hdirectory hgrain hrest
  rw [not_or] at hdirectory
  exact ⟨hdirectory.2, hdirectory.1⟩

/-- Of the directories, only their offsets count for a header to be supported. -/
theorem unsupportedReason_eq_of_valid {offset : ℕ} (hgd : ValidOffset h.gdOffset)
    (hoffset : ValidOffset offset) :
    ({ h with gdOffset := offset } : SparseHeader).unsupportedReason = h.unsupportedReason := by
  have hold : ¬ (h.gdOffset = u64Max ∨ h.gdOffset = 0) := not_or.mpr ⟨hgd.2, hgd.1⟩
  have hnew : ¬ (offset = u64Max ∨ offset = 0) := not_or.mpr ⟨hoffset.2, hoffset.1⟩
  unfold unsupportedReason
  dsimp only
  rw [if_neg hold, if_neg hnew]

/-- The directory that is read when the redundant one is marked. -/
theorem directoryOffset_of_flagged (hflag : h.flags &&& 0x2 ≠ 0) (hvalid : ValidOffset h.rgdOffset) :
    h.directoryOffset = h.rgdOffset := if_pos ⟨hflag, hvalid⟩

end SparseHeader

namespace SparseExtent

variable {file : List UInt8} {cab : SparseHeader} {ext : SparseExtent}

/-- An extent is opened only if the size of a table does not wrap to zero and its directory can be
sought. -/
theorem reached_of_native (h : (SparseExtent.fromHeader file cab).result = .ok (.native ext)) :
    cab.tableBytes ≠ 0 ∧ mulw cab.directoryOffset sector < 2^63 := by
  have hopened := SparseExtent.opened h
  rw [fromHeader_result, hopened.supported] at h
  dsimp only at h
  split_ifs at h with hzero hmany
  · cases h
  refine ⟨hzero, ?_⟩
  by_contra hfar
  rw [seekFile, if_neg hfar] at h
  cases h

/-- A read of an opened extent returns the bytes of its walk. -/
theorem Opened.readAt_take (h : Opened file cab ext) (earlier : List (ℕ × List UInt8)) (offset : ℕ)
    (buf : List UInt8) {n : ℕ} {bytes : List UInt8}
    (hread : ((ext.afterReads earlier).readAt offset buf).2 = .ok (n, bytes)) :
    bytes.take n = window ext.walk offset n := by
  obtain ⟨tables, hafter, hcached⟩ :=
    (h.cached .sound).afterReads h.capacity_lt h.indexFits earlier
  obtain ⟨tables', -, hfail, hpass⟩ := hcached.readAt_spec h.capacity_lt h.indexFits offset buf rfl
  rw [hafter] at hread
  by_cases hfails : ({ ext with tables } : SparseExtent).Fails .sound offset
      (min buf.length (ext.capacityBytes - offset)) 0
  · obtain ⟨e, he⟩ := hfail hfails
    rw [he] at hread
    cases hread
  · rw [hpass hfails] at hread
    obtain ⟨rfl, rfl⟩ := Prod.mk.injEq .. ▸ Except.ok.inj hread
    have hwalk : ({ ext with tables } : SparseExtent).walk = ext.walk := rfl
    rw [hwalk, List.take_left' (length_window _ _ _)]

end SparseExtent

/-! ## A file whose directories differ -/

/-- The content of a file with a table at the sector `t` and a grain at the sector `g`, to which
only the directory at `place` leads. -/
def divergentContent (place t g : ℕ) (k : ℕ) : UInt8 :=
  if k = place then UInt8.ofNat t
  else if k = t * sector then UInt8.ofNat g
  else if k = g * sector then 1
  else 0

/-- The first entry of a table in a file is the first byte when the next three are zero. -/
theorem entryAt_window {f : ℕ → UInt8} {base len : ℕ} (hlen : base + 4 ≤ len)
    (hzero : ∀ k, 0 < k → k < 4 → f (base + k) = 0) :
    entryAt (window f 0 len) base 0 = (f base).toNat := by
  have hslice : slice (window f 0 len) base 4 = [f base, 0, 0, 0] := by
    rw [slice_window f hlen, Nat.zero_add]
    have h1 := hzero 1 (by norm_num) (by norm_num)
    have h2 := hzero 2 (by norm_num) (by norm_num)
    have h3 := hzero 3 (by norm_num) (by norm_num)
    simp [window, List.range_succ, h1, h2, h3]
  rw [entryAt, Nat.mul_zero, Nat.add_zero, hslice]
  simp [ofLe]

/-- The content between two sectors is zero. -/
theorem divergentContent_between {place t g base k : ℕ} (hplace : place % sector = 0)
    (hbase : base % sector = 0) (hpos : 0 < k) (hk : k < 4) :
    divergentContent place t g (base + k) = 0 := by
  unfold sector at hplace hbase
  have hne : base + k ≠ place := by omega
  have htable : base + k ≠ t * sector := by
    unfold sector
    omega
  have hgrain : base + k ≠ g * sector := by
    unfold sector
    omega
  rw [divergentContent, if_neg hne, if_neg htable, if_neg hgrain]

/-- A place on a sector's start that is none of the three holds zeros. -/
theorem entryAt_divergent_of_ne {place t g base len : ℕ} (hplace : place % sector = 0)
    (hbase : base % sector = 0) (hlen : base + 4 ≤ len) (hne : base ≠ place)
    (htable : t * sector ≠ base) (hgrain : g * sector ≠ base) :
    entryAt (window (divergentContent place t g) 0 len) base 0 = 0 := by
  rw [entryAt_window hlen fun k hpos hk => divergentContent_between hplace hbase hpos hk,
    divergentContent, if_neg hne, if_neg htable.symm, if_neg hgrain.symm]
  rfl

/-- The directory at `place` leads to the table, the table to the grain, and the grain holds a
one. -/
theorem divergent_entries {place t g len : ℕ} (hplace : place % sector = 0) (ht : t < 6) (hg : g < 6)
    (hne : t ≠ g) (htable : t * sector ≠ place) (hgrain : g * sector ≠ place)
    (hlen : place + 6 * sector ≤ len) :
    entryAt (window (divergentContent place t g) 0 len) place 0 = t ∧
      entryAt (window (divergentContent place t g) 0 len) (t * sector) 0 = g ∧
      zeroExtended (window (divergentContent place t g) 0 len) (g * sector) = 1 := by
  have hbase : t * sector % sector = 0 := Nat.mul_mod_left _ _
  have hgt : g * sector ≠ t * sector := by
    unfold sector
    omega
  refine ⟨?_, ?_, ?_⟩
  · rw [entryAt_window (by unfold sector at *; omega)
        fun k hpos hk => divergentContent_between hplace hplace hpos hk,
      divergentContent, if_pos rfl, UInt8.toNat_ofNat']
    omega
  · rw [entryAt_window (by unfold sector at *; omega)
        fun k hpos hk => divergentContent_between hplace hbase hpos hk,
      divergentContent, if_neg htable, if_pos rfl, UInt8.toNat_ofNat']
    omega
  · rw [zeroExtended, List.getD_eq_getElem?_getD,
      getElem?_window _ (by unfold sector at *; omega), Option.getD_some, Nat.zero_add,
      divergentContent, if_neg hgrain, if_neg hgt, if_pos rfl]

/-- Two sectors beside two given places. -/
theorem exists_free_sectors (a b : ℕ) : ∃ t g, (2 ≤ t ∧ t < 6) ∧ (2 ≤ g ∧ g < 6) ∧ t ≠ g ∧
    (t * sector ≠ a ∧ t * sector ≠ b) ∧ g * sector ≠ a ∧ g * sector ≠ b := by
  have hfree : ∀ {t c : ℕ}, t ≠ c / sector → t * sector ≠ c := by
    intro t c hne heq
    rw [← heq, Nat.mul_div_cancel _ (by norm_num [sector])] at hne
    exact hne rfl
  have hcard : 1 < (Finset.Ico 2 6 \ {a / sector, b / sector}).card := by
    have hle := Finset.le_card_sdiff {a / sector, b / sector} (Finset.Ico 2 6)
    have htwo : ({a / sector, b / sector} : Finset ℕ).card ≤ 2 := Finset.card_le_two
    rw [Nat.card_Ico] at hle
    omega
  obtain ⟨t, ht, g, hg, hne⟩ := Finset.one_lt_card.mp hcard
  simp only [Finset.mem_sdiff, Finset.mem_Ico, Finset.mem_insert, Finset.mem_singleton, not_or]
    at ht hg
  exact ⟨t, g, ht.1, hg.1, hne, ⟨hfree ht.2.1, hfree ht.2.2⟩, hfree hg.2.1, hfree hg.2.2⟩

/-- A place that a header gives is the start of a sector. -/
theorem mulw_sector_mod (offset : ℕ) : mulw offset sector % sector = 0 := by
  unfold mulw sector
  omega

/-- The first entry of a directory that lies in the file. -/
theorem SparseHeader.directoryAt_getD_zero {h : SparseHeader} {file : List UInt8} {offset : ℕ}
    (htables : h.directoryTables ≠ 0)
    (hinside : mulw offset sector + h.directoryTables * 4 ≤ file.length) :
    (h.directoryAt file offset).getD 0 0 = entryAt file (mulw offset sector) 0 := by
  have hentry : (wordsOf (slice file (mulw offset sector) (4 * h.directoryTables)))[0]? =
      some (entryAt file (mulw offset sector) 0) := by
    rw [wordsOf_slice_getElem? (by omega), if_pos (Nat.pos_of_ne_zero htables)]
  rw [directoryAt, Nat.mul_comm, List.getD_eq_getElem?_getD, hentry, Option.getD_some]

/-- A header with tables has a capacity. -/
theorem SparseHeader.capacity_pos {h : SparseHeader} (hbytes : h.tableBytes ≠ 0)
    (htables : h.directoryTables ≠ 0) : 0 < mulw h.capacitySectors sector := by
  rw [Nat.pos_iff_ne_zero]
  intro hzero
  rw [directoryTables, hzero, Nat.zero_add] at htables
  exact htables (Nat.div_eq_of_lt (by omega))

/-- The walk of the first byte, by the first entries of the directory and its table. -/
theorem SparseExtent.walk_zero (ext : SparseExtent) :
    ext.walk 0 =
      if ext.directory.getD 0 0 ≤ 1 ∨ entryAt ext.file (ext.directory.getD 0 0 * sector) 0 ≤ 1 then 0
      else zeroExtended ext.file (entryAt ext.file (ext.directory.getD 0 0 * sector) 0 * sector) := by
  simp only [walk, directoryEntry, tableEntry, Nat.zero_div, Nat.zero_mod, Nat.add_zero]

/-- A read of the first byte, when its table lies in the file. -/
theorem SparseExtent.Opened.readAt_zero {file : List UInt8} {cab : SparseHeader}
    {ext : SparseExtent} (h : Opened file cab ext) (hcap : 0 < ext.capacityBytes)
    (hinside : ext.directory.getD 0 0 * sector + 4 * ext.gtesPerGt ≤ ext.file.length) :
    (ext.readAt 0 [0]).2 = .ok (1, [ext.walk 0]) := by
  have hzero : ext.directoryEntry 0 = ext.directory.getD 0 0 := by
    rw [directoryEntry, Nat.zero_div, Nat.zero_div]
  have htable : ext.TableReadable .sound 0 := by
    refine Or.inr ⟨Device.not_refuses_sound ?_, hzero ▸ hinside⟩
    rw [hzero, List.getD_eq_getElem?_getD]
    cases hfirst : ext.directory[0]? with
    | none => decide
    | some gde => exact (h.cached .sound).entry_lt gde (List.mem_of_getElem? hfirst)
  have hn : 1 = min [(0 : UInt8)].length (ext.capacityBytes - 0) := by
    rw [List.length_singleton]
    omega
  obtain ⟨tables, -, -, hpass⟩ := (h.cached .sound).readAt_spec h.capacity_lt h.indexFits 0 [0] hn
  rw [hpass]
  · rfl
  · rintro (⟨k, -, hk, hbad⟩ | ⟨k, -, hk, -, -, -, hrefused⟩)
    · obtain rfl : k = 0 := by omega
      exact hbad htable
    -- The grain lies at the place of an entry, which a file can be sought to.
    · obtain rfl : k = 0 := by omega
      have hlt : ext.tableEntry (0 + 0) < 2^32 := entryAt_lt _ _ _
      refine Device.not_refuses_sound ?_ hrefused
      rw [Nat.zero_mod]
      unfold sector
      omega

/-- A marked redundant directory at another place than the primary one can differ from it: there is
a file from which the first byte is read by the redundant directory. -/
theorem SparseHeader.RedundantOpens.exists_divergent {h : SparseHeader} (hopens : h.RedundantOpens)
    (hgd : ValidOffset h.gdOffset) (htables : h.directoryTables ≠ 0)
    (hplaces : mulw h.gdOffset sector ≠ mulw h.rgdOffset sector) :
    ∃ (file : List UInt8) (ext : SparseExtent),
      (SparseExtent.fromHeader file h).result = .ok (.native ext) ∧
      (ext.readAt 0 [0]).2 = .ok (1, [1]) ∧
      ({ ext with directory := h.directoryAt file h.gdOffset } : SparseExtent).walk 0 = 0 := by
  obtain ⟨t, g, ht, hg, hne, ⟨htr, htp⟩, hgr, hgp⟩ :=
    exists_free_sectors (mulw h.rgdOffset sector) (mulw h.gdOffset sector)
  have hrmod := mulw_sector_mod h.rgdOffset
  have hpmod := mulw_sector_mod h.gdOffset
  have hdir := SparseHeader.directoryOffset_of_flagged hopens.flagged hopens.valid
  have hsup : h.unsupportedReason = none := by
    rw [← SparseHeader.unsupportedReason_eq_of_valid hgd hopens.valid]
    exact hopens.supported
  -- The file is long enough for both directories, the table and the grain.
  obtain ⟨len, hlen⟩ : ∃ len, len = mulw h.rgdOffset sector + mulw h.gdOffset sector +
      h.directoryTables * 4 + 6 * sector + 4 * h.gtesPerGt := ⟨_, rfl⟩
  obtain ⟨file, hfile⟩ : ∃ file, file =
      window (divergentContent (mulw h.rgdOffset sector) t g) 0 len := ⟨_, rfl⟩
  have hlength : file.length = len := by rw [hfile, length_window]
  have hreach : mulw h.directoryOffset sector < 2^63 := by
    rw [hdir]
    exact hopens.reachable
  have hinside : mulw h.directoryOffset sector + h.directoryTables * 4 ≤ file.length := by
    rw [hdir]
    omega
  obtain ⟨ext, hopen⟩ : ∃ ext, (SparseExtent.fromHeader file h).result = .ok (.native ext) :=
    ⟨_, SparseExtent.fromHeader_native hsup rfl rfl rfl rfl hopens.tableBytes_ne rfl
      hopens.tables_le hreach (Or.inr hinside)⟩
  have hopened := SparseExtent.opened hopen
  -- The first entry of the redundant directory is `t`, that of its table `g`, and of the primary 0.
  obtain ⟨hfirst, htable, hgrain⟩ : entryAt file (mulw h.rgdOffset sector) 0 = t ∧
      entryAt file (t * sector) 0 = g ∧ zeroExtended file (g * sector) = 1 := by
    rw [hfile]
    exact divergent_entries hrmod ht.2 hg.2 hne htr hgr (by omega)
  have hentry : ext.directory.getD 0 0 = t := by
    have hdirectory : ext.directory = h.directoryAt file h.rgdOffset := by
      rw [hopened.directory_eq, hdir, SparseHeader.directoryAt]
    rw [hdirectory, SparseHeader.directoryAt_getD_zero htables (by rwa [← hdir]), hfirst]
  have hprimary : (h.directoryAt file h.gdOffset).getD 0 0 = 0 := by
    rw [SparseHeader.directoryAt_getD_zero htables (by omega), hfile]
    exact entryAt_divergent_of_ne hrmod hpmod (by omega) hplaces htp hgp
  refine ⟨file, ext, hopen, ?_, ?_⟩
  · have hcap : 0 < ext.capacityBytes := by
      rw [hopened.capacity_eq]
      exact SparseHeader.capacity_pos hopens.tableBytes_ne htables
    have htable' : ext.directory.getD 0 0 * sector + 4 * ext.gtesPerGt ≤ ext.file.length := by
      rw [hentry, hopened.gtesPerGt_eq, hopened.file_eq, hlength]
      unfold sector at *
      omega
    rw [hopened.readAt_zero hcap htable', ext.walk_zero, hentry, hopened.file_eq, htable, hgrain,
      if_neg (by omega)]
  · rw [SparseExtent.walk_zero]
    dsimp only
    rw [hprimary]
    exact if_pos (Or.inl (Nat.zero_le 1))

/-! ## When it is a fallback -/

/-- The redundant directory is only a fallback exactly for the headers that cannot be opened through
it, those without a table, and those with a valid primary directory at the same place. -/
theorem redundantIsFallback_iff (h : SparseHeader) :
    h.RedundantIsFallback ↔ (h.RedundantOpens → ValidOffset h.gdOffset ∧
      (h.directoryTables = 0 ∨ mulw h.gdOffset sector = mulw h.rgdOffset sector)) := by
  constructor
  · intro hfallback hopens
    -- A header without a valid primary directory is never opened.
    have hgd : ValidOffset h.gdOffset := by
      by_contra hinvalid
      obtain ⟨ext, hopen, -⟩ := hfallback.fallback hinvalid hopens
        (List.replicate (mulw h.rgdOffset sector + h.directoryTables * 4) 0)
        (by rw [List.length_replicate])
      exact hinvalid (SparseHeader.validOffset_of_supported (SparseExtent.opened hopen).supported)
    refine ⟨hgd, ?_⟩
    by_contra hdiffer
    rw [not_or] at hdiffer
    obtain ⟨file, ext, hopen, hread, hwalk⟩ := hopens.exists_divergent hgd hdiffer.1 hdiffer.2
    have hprimary := hfallback.primary hgd file ext hopen [] 0 [0] 1 [1] hread
    have hbyte : window ({ ext with directory := h.directoryAt file h.gdOffset } :
        SparseExtent).walk 0 1 = [0] := by
      rw [← hwalk]
      rfl
    rw [hbyte] at hprimary
    exact absurd hprimary (by decide)
  · intro hcond
    refine ⟨fun _ file ext hopen earlier offset buf n bytes hread => ?_, fun hinvalid hopens => ?_⟩
    · have hopened := SparseExtent.opened hopen
      obtain ⟨hbytes, hreach⟩ := SparseExtent.reached_of_native hopen
      -- The directory that was read is the primary one, or is at its place, or is empty.
      have hdirectory : h.directoryAt file h.gdOffset = ext.directory := by
        rw [hopened.directory_eq, SparseHeader.directoryAt]
        by_cases hmarked : h.flags &&& 0x2 ≠ 0 ∧ ValidOffset h.rgdOffset
        · have hdir := SparseHeader.directoryOffset_of_flagged hmarked.1 hmarked.2
          have hgd := SparseHeader.validOffset_of_supported hopened.supported
          have hsup : ({ h with gdOffset := h.rgdOffset } : SparseHeader).unsupportedReason =
              none := by
            rw [SparseHeader.unsupportedReason_eq_of_valid hgd hmarked.2, hopened.supported]
          rw [hdir] at hreach ⊢
          obtain ⟨-, hzero | hplace⟩ := hcond ⟨hmarked.1, hmarked.2, hsup, hbytes,
            hopened.tables_le, hreach⟩
          · have hnone : ∀ place, slice file place (0 * 4) = [] := fun place => List.take_zero
            rw [hzero, hnone, hnone]
          · rw [hplace]
        · have hdir : h.directoryOffset = h.gdOffset := if_neg hmarked
          rw [hdir]
      rw [hdirectory]
      exact hopened.readAt_take earlier offset buf hread
    · exact absurd (hcond hopens).1 hinvalid

/-! ## An image whose directories differ -/

/-- A header that marks the redundant directory, in sector 2, as used; the primary directory is in
sector 1. -/
def twinHeader : SparseHeader where
  version := 1
  flags := 3
  capacitySectors := 1
  grainSectors := 1
  descriptorOffset := 0
  descriptorSectors := 0
  gtesPerGt := 1
  rgdOffset := 2
  gdOffset := 1
  compression := 0

/-- A sector that starts with some bytes. -/
def sectorWith (bytes : List UInt8) : List UInt8 := bytes ++ List.replicate (512 - bytes.length) 0

/-- An image with this header: the primary directory gives the table in sector 3, which gives the
grain in sector 4; `entry` stands in the redundant directory. -/
def twinImage (entry : UInt8) : List UInt8 :=
  sectorWith (magicKdmv ++ toLe 4 1 ++ toLe 4 3 ++ toLe 8 1 ++ toLe 8 1 ++ toLe 8 0 ++ toLe 8 0 ++
    toLe 4 1 ++ toLe 8 2 ++ toLe 8 1) ++
  (sectorWith [3] ++ (sectorWith [entry] ++ (sectorWith [4] ++ [7])))

/-- The image is opened through the redundant directory. -/
theorem twinImage_opens {entry : UInt8} (hlength : (twinImage entry).length = 2049) :
    ∃ ext, (SparseExtent.fromHeader (twinImage entry) twinHeader).result = .ok (.native ext) := by
  have hgrain : 512 = mulw twinHeader.grainSectors sector := by decide
  have htable : 512 = mulw 512 twinHeader.gtesPerGt := by decide
  have hcap : 512 = mulw twinHeader.capacitySectors sector := by decide
  have hstart : 1024 = mulw twinHeader.directoryOffset sector := by decide
  have hcount : 1 = (512 + 512 - 1) / 512 := by decide
  refine ⟨_, SparseExtent.fromHeader_native (by decide) hgrain htable hcap hstart (by decide) hcount
    (by decide) (by decide) (Or.inr ?_)⟩
  have hinside : 1024 + 1 * 4 ≤ 2049 := by norm_num
  rwa [hlength]

/-- The first byte that is read, when the table of the redundant directory's entry is in the
image. -/
theorem twinImage_readAt {entry : UInt8} (hlength : (twinImage entry).length = 2049)
    (hentry : entryAt (twinImage entry) 1024 0 = entry.toNat) (hsmall : entry.toNat ≤ 3)
    {ext : SparseExtent}
    (hopen : (SparseExtent.fromHeader (twinImage entry) twinHeader).result = .ok (.native ext)) :
    (ext.readAt 0 [0]).2 = .ok (1, [ext.walk 0]) ∧ ext.directory.getD 0 0 = entry.toNat := by
  have hopened := SparseExtent.opened hopen
  have htables : twinHeader.directoryTables = 1 := by decide
  have hplace : mulw twinHeader.rgdOffset sector = 1024 := by decide
  have hdirectory : ext.directory.getD 0 0 = entry.toNat := by
    have heq : ext.directory = twinHeader.directoryAt (twinImage entry) twinHeader.rgdOffset :=
      hopened.directory_eq
    rw [heq, SparseHeader.directoryAt_getD_zero (by rw [htables]; norm_num)
      (by rw [hplace, htables, hlength]; norm_num), hplace, hentry]
  refine ⟨hopened.readAt_zero ?_ ?_, hdirectory⟩
  · rw [hopened.capacity_eq]
    decide
  · have hgtes : twinHeader.gtesPerGt = 1 := rfl
    rw [hdirectory, hopened.gtesPerGt_eq, hopened.file_eq, hlength, hgtes]
    unfold sector
    omega

/-- Two images that differ only in the redundant directory are read differently although the
primary directory is valid, and a header without a primary directory is refused although its
redundant directory could be opened. -/
theorem twinImage_redundant_read :
    readSparseHeader ((twinImage 3).take 512) = .ok twinHeader ∧
    readSparseHeader ((twinImage 0).take 512) = .ok twinHeader ∧
    (twinImage 3).set 1024 0 = twinImage 0 ∧ ValidOffset twinHeader.gdOffset ∧
    (∃ ext, (SparseExtent.fromHeader (twinImage 3) twinHeader).result = .ok (.native ext) ∧
      (ext.readAt 0 [0]).2 = .ok (1, [7])) ∧
    (∃ ext, (SparseExtent.fromHeader (twinImage 0) twinHeader).result = .ok (.native ext) ∧
      (ext.readAt 0 [0]).2 = .ok (1, [0])) ∧
    ({ twinHeader with gdOffset := 0 } : SparseHeader).RedundantOpens ∧
    (SparseExtent.fromHeader (twinImage 3) { twinHeader with gdOffset := 0 }).result =
      .ok (.needsNbd "VMDK without a grain directory in its header") := by
  have hlength : (twinImage 3).length = 2049 := by decide +kernel
  have hlength' : (twinImage 0).length = 2049 := by decide +kernel
  refine ⟨by decide +kernel, by decide +kernel, by decide +kernel, by decide, ?_, ?_, ?_, ?_⟩
  · obtain ⟨ext, hopen⟩ := twinImage_opens hlength
    refine ⟨ext, hopen, ?_⟩
    obtain ⟨hread, hentry⟩ := twinImage_readAt hlength (by decide +kernel) (by decide) hopen
    have hthree : (3 : UInt8).toNat = 3 := rfl
    have htable : entryAt (twinImage 3) (3 * sector) 0 = 4 := by decide +kernel
    have hgrain : zeroExtended (twinImage 3) (4 * sector) = 7 := by decide +kernel
    rw [hread, ext.walk_zero, hentry, (SparseExtent.opened hopen).file_eq, hthree, htable, hgrain,
      if_neg (by decide)]
  · obtain ⟨ext, hopen⟩ := twinImage_opens hlength'
    refine ⟨ext, hopen, ?_⟩
    obtain ⟨hread, hentry⟩ := twinImage_readAt hlength' (by decide +kernel) (by decide) hopen
    rw [hread, ext.walk_zero, hentry]
    rfl
  · exact ⟨by decide, by decide, by decide, by decide, by decide, by decide⟩
  · rw [SparseExtent.fromHeader_result]
    rfl

end VmSpect.Vmdk
