import VmSpect.Vms.DetectorReads

/-!
# The partitions of a GPT

What `read_gpt` returns, as a function of the header and of the bytes of the disk. `gptFound`
decodes one entry of the table, and `Serves.readGpt` says that the call returns the entries that
are used, numbered, with offsets and sizes as the words of the code hold them. For a table that was
written to the disk these are the entries themselves (`readGpt_layout`).
-/

namespace VmSpect.Detector

open Bytes Words Polling

/-- An entry of the table that is used. -/
structure GptFound where
  firstLba : ℕ
  lastLba : ℕ
  kind : String
  label : Option (List Char)
  deriving DecidableEq, Repr

/-- The entry that 128 bytes of the table hold, if it is used. -/
def gptFound (entry : List UInt8) : Option GptFound :=
  let firstLba := ofLe (slice entry 32 8)
  let lastLba := ofLe (slice entry 40 8)
  if (slice entry 0 16).all (· = 0) then none
  else if lastLba < firstLba then none
  else some ⟨firstLba, lastLba, gptTypeName (slice entry 0 16), gptLabel entry⟩

/-- The partition as the code computes it. -/
def GptFound.partition (f : GptFound) (index : ℕ) : Partition :=
  ⟨index, mulw f.firstLba 512, mulw (addw (f.lastLba - f.firstLba) 1) 512, f.kind, .unknown, f.label⟩

/-- The partitions, numbered in their order. -/
def gptNumbered (fs : List GptFound) : List Partition :=
  fs.mapIdx fun index f => f.partition index

/-- The number of sectors of a table. -/
def tableSectors (num size : ℕ) : ℕ := (num * size + 512 - 1) / 512

/-- The used entries of a table that begins at a byte of the disk. -/
def tableFound (D : List UInt8) (offset num size : ℕ) : List GptFound :=
  (List.range num).filterMap fun i => gptFound (window (zeroExtended D) (offset + i * size) 128)

/-! ## The call -/

/-- One more partition has the next number. -/
theorem gptNumbered_append_one (fs : List GptFound) (f : GptFound) :
    gptNumbered (fs ++ [f]) = gptNumbered fs ++ [f.partition fs.length] := by
  unfold gptNumbered
  rw [List.mapIdx_concat]

/-- One round of the loop. -/
theorem gptPartitions_cons {table : List UInt8} {entrySize i : ℕ}
    (h : i * entrySize + 128 ≤ table.length) (rest : List ℕ) (output : List Partition) :
    gptPartitions table entrySize (i :: rest) output =
      match gptFound (slice table (i * entrySize) 128) with
      | none => gptPartitions table entrySize rest output
      | some f => gptPartitions table entrySize rest (output ++ [f.partition output.length]) := by
  have hlong : ¬ table.length < i * entrySize + 128 := by omega
  rw [gptPartitions, if_neg hlong]
  unfold gptFound found sector
  dsimp only
  split_ifs
  · rfl
  · rfl
  · simp only [GptFound.partition]

/-- The loop over a table that is long enough returns its used entries. -/
theorem gptPartitions_eq {table : List UInt8} {entrySize : ℕ} {entries : List ℕ}
    (h : ∀ i ∈ entries, i * entrySize + 128 ≤ table.length) (fs : List GptFound) :
    gptPartitions table entrySize entries (gptNumbered fs) =
      gptNumbered (fs ++ entries.filterMap fun i => gptFound (slice table (i * entrySize) 128)) := by
  induction entries generalizing fs with
  | nil => rw [gptPartitions, List.filterMap_nil, List.append_nil]
  | cons i rest ih =>
    have hrest := ih fun j hj => h j (List.mem_cons_of_mem i hj)
    rw [gptPartitions_cons (h i List.mem_cons_self)]
    rcases hfound : gptFound (slice table (i * entrySize) 128) with _ | f
    · simp only [List.filterMap_cons, hfound]
      exact hrest fs
    · have hlength : (gptNumbered fs).length = fs.length := List.length_mapIdx
      simp only [List.filterMap_cons, hfound]
      rw [hlength, ← gptNumbered_append_one, hrest, List.append_assoc, List.singleton_append]

/-- The entries of a table are inside of the sectors that are read for it. -/
theorem entry_le_tableSectors {num size i : ℕ} (hsize : 128 ≤ size) (hi : i < num) :
    i * size + 128 ≤ tableSectors num size * 512 := by
  have hentry : i * size + size ≤ num * size := by
    rw [← Nat.succ_mul]
    exact Nat.mul_le_mul_right size hi
  unfold tableSectors
  omega

/-- They are less than `2^64` bytes. -/
theorem tableSectors_lt {num size : ℕ} (hnum : num ≤ 1024) (hsize : size < 2^32) :
    tableSectors num size * 512 < 2^64 := by
  have hbytes : num * size ≤ 1024 * 2^32 := Nat.mul_le_mul hnum hsize.le
  unfold tableSectors
  omega

section Calls

variable {m : Type → Type} [Monad m] {R : Returning m} {driver : VmDriver m} {D header : List UInt8}
  {lba num size : ℕ}

/-- The fields of a header that `read_gpt` uses. -/
structure GptHeader (header : List UInt8) (lba num size : ℕ) : Prop where
  lba_eq : ofLe (slice header 72 8) = lba
  num_eq : ofLe (slice header 80 4) = num
  size_eq : ofLe (slice header 84 4) = size

/-- The parameters of a table that `read_gpt` accepts. -/
def TableAccepted (num size : ℕ) : Prop := 128 ≤ size ∧ num ≠ 0 ∧ num ≤ 1024

instance instDecidableTableAccepted (num size : ℕ) : Decidable (TableAccepted num size) :=
  inferInstanceAs (Decidable (_ ∧ _))

/-- The size of an entry has 32 bits. -/
theorem GptHeader.size_lt (hheader : GptHeader header lba num size) : size < 2^32 := by
  rw [← hheader.size_eq]
  exact ofLe_slice_lt header 84 4

/-- `read_gpt` refuses other parameters. -/
theorem readGpt_refused (hheader : GptHeader header lba num size)
    (h : ¬ TableAccepted num size) :
    readGpt driver header = throw ⟨.invalidData, "GPT header has invalid table parameters"⟩ := by
  have hbad : size < 128 ∨ num = 0 ∨ 1024 < num := by
    unfold TableAccepted at h
    omega
  unfold readGpt
  rw [hheader.num_eq, hheader.size_eq]
  exact if_pos hbad

/-- Otherwise it reads the table and goes through its entries. -/
theorem readGpt_accepted (hheader : GptHeader header lba num size)
    (haccepted : TableAccepted num size) :
    readGpt driver header = readBlocks driver sector lba (tableSectors num size) >>= fun table =>
      pure (gptPartitions table size (List.range num) []) := by
  have hgood : ¬ (size < 128 ∨ num = 0 ∨ 1024 < num) := by
    unfold TableAccepted at haccepted
    omega
  unfold readGpt
  simp only [hheader.lba_eq, hheader.num_eq, hheader.size_eq, if_neg hgood]
  rfl

/-- The partitions of a table that was read from a byte of the disk. -/
theorem gptPartitions_window (D : List UInt8) (offset : ℕ) (haccepted : TableAccepted num size) :
    gptPartitions (window (zeroExtended D) offset (tableSectors num size * 512)) size
      (List.range num) [] = gptNumbered (tableFound D offset num size) := by
  have hentry : ∀ i ∈ List.range num, i * size + 128 ≤ tableSectors num size * 512 := fun i hi =>
    entry_le_tableSectors haccepted.1 (List.mem_range.mp hi)
  have hinside : ∀ i ∈ List.range num, i * size + 128 ≤
      (window (zeroExtended D) offset (tableSectors num size * 512)).length := by
    intro i hi
    rw [length_window]
    exact hentry i hi
  have hentries : ((List.range num).filterMap fun i => gptFound (slice (window (zeroExtended D)
      offset (tableSectors num size * 512)) (i * size) 128)) = tableFound D offset num size := by
    apply List.filterMap_congr
    intro i hi
    rw [slice_window _ (hentry i hi)]
  have hloop := gptPartitions_eq hinside []
  rw [List.nil_append, hentries] at hloop
  exact hloop

/-- `read_gpt` reads the table and returns its used entries. -/
theorem Serves.readGpt (h : Serves R driver D) (hheader : GptHeader header lba num size)
    (haccepted : TableAccepted num size) :
    R.outcome (Detector.readGpt driver header)
      (.ok (gptNumbered (tableFound D (mulw lba 512) num size))) := by
  have htable := h.readBlocks sector lba (tableSectors num size)
  unfold sector at htable
  rw [mulw_of_lt (tableSectors_lt haccepted.2.2 hheader.size_lt)] at htable
  rw [readGpt_accepted hheader haccepted]
  refine Returning.outcome_bind htable ?_
  rw [gptPartitions_window D _ haccepted]
  exact Returning.outcome_pure _

end Calls

/-! ## Tables on a disk -/

/-- A used entry of a table. The character NUL ends a name and is not part of it. -/
structure GptEntry where
  guid : List UInt8
  firstLba : ℕ
  lastLba : ℕ
  name : List Char
  length_guid : guid.length = 16
  guid_ne : ∃ b ∈ guid, b ≠ 0
  first_le_last : firstLba ≤ lastLba
  last_lt : lastLba + 1 < 2^55
  noNul : Char.ofNat 0 ∉ name
  length_name : (Text.encodeUtf16 name).length ≤ 36

/-- The label that the entry gives its partition. -/
def GptEntry.label (e : GptEntry) : Option (List Char) :=
  if Text.trim e.name = [] then none else some (Text.trim e.name)

/-- The partition of an entry, with a number. -/
def GptEntry.partition (e : GptEntry) (index : ℕ) : Partition :=
  ⟨index, e.firstLba * 512, (e.lastLba - e.firstLba + 1) * 512, gptTypeName e.guid, .unknown, e.label⟩

/-- The bytes of an entry hold it. The name ends with the field or with a zero unit, after which
anything may follow. -/
structure GptEntry.OnBytes (b : List UInt8) (e : GptEntry) : Prop where
  guid_eq : slice b 0 16 = e.guid
  first_eq : slice b 32 8 = toLe 8 e.firstLba
  last_eq : slice b 40 8 = toLe 8 e.lastLba
  name_eq : ∃ tail : List ℕ, slice b 56 72 = (Text.encodeUtf16 e.name ++ tail).flatMap (toLe 2) ∧
    (tail = [] ∨ tail.head? = some 0)

/-- The bytes of an entry hold what is written to it: a used entry, or none, which is told by a type
of zeros. -/
def EntryOnBytes (b : List UInt8) : Option GptEntry → Prop
  | none => slice b 0 16 = List.replicate 16 0
  | some e => e.OnBytes b

/-- A header and the disk hold a table. -/
structure GptOnDisk (D header : List UInt8) (lba size : ℕ) (entries : List (Option GptEntry)) :
    Prop where
  lba_eq : slice header 72 8 = toLe 8 lba
  num_eq : slice header 80 4 = toLe 4 entries.length
  size_eq : slice header 84 4 = toLe 4 size
  entries_ne : entries ≠ []
  length_le : entries.length ≤ 1024
  size_ge : 128 ≤ size
  size_lt : size < 2^32
  inside : lba * 512 + entries.length * size ≤ D.length
  entry : ∀ (i : ℕ) (e : Option GptEntry), entries[i]? = some e →
    EntryOnBytes (window (zeroExtended D) (lba * 512 + i * size) 128) e

/-! ## Decoding -/

/-- The units of a name, from its bytes. -/
theorem nameUnits_eq {b : List UInt8} {units : List ℕ} (h : slice b 56 72 = units.flatMap (toLe 2))
    (hlength : units.length = 36) :
    ((List.range 36).map fun i => ofLe (slice b (56 + 2 * i) 2)) = units.map (· % 2^16) := by
  apply List.ext_getElem?
  intro i
  by_cases hi : i < 36
  · obtain ⟨u, hu⟩ : ∃ u, units[i]? = some u := ⟨units[i], List.getElem?_eq_getElem (by omega)⟩
    have hunit : slice b (56 + 2 * i) 2 = toLe 2 u := by
      rw [← slice_slice (show 2 * i + 2 ≤ 72 by omega), h, Nat.mul_comm]
      exact slice_flatMap (length_toLe 2) hu
    rw [List.getElem?_map, List.getElem?_range hi, List.getElem?_map, hu, Option.map_some,
      Option.map_some, hunit, ofLe_toLe]
  · rw [List.getElem?_eq_none (by rw [List.length_map, List.length_range]; omega),
      List.getElem?_eq_none (by rw [List.length_map]; omega)]

/-- A name is decoded to what was written. -/
theorem GptEntry.OnBytes.gptLabel {b : List UInt8} {e : GptEntry} (h : e.OnBytes b)
    (hb : b.length = 128) : gptLabel b = e.label := by
  obtain ⟨tail, hname, htail⟩ := h.name_eq
  have hlength : (Text.encodeUtf16 e.name ++ tail).length = 36 := by
    have hbytes := congrArg List.length hname
    rw [length_slice, length_flatMap_const (length_toLe 2)] at hbytes
    omega
  have hbounds := Text.encodeUtf16_bounds e.noNul
  -- The units of the name stay as they are, and the unit after them is zero.
  have hunits : (Text.encodeUtf16 e.name).map (· % 2^16) = Text.encodeUtf16 e.name := by
    rw [List.map_congr_left fun u hu => Nat.mod_eq_of_lt (hbounds u hu).2, List.map_id']
  have hcut : ((Text.encodeUtf16 e.name ++ tail).map (· % 2^16)).takeWhile (· ≠ 0) =
      Text.encodeUtf16 e.name := by
    have hend : (tail.map (· % 2^16)).takeWhile (· ≠ 0) = [] := by
      cases tail with
      | nil => rfl
      | cons u rest =>
        have hzero : u = 0 := by simpa using htail
        rw [hzero]
        rfl
    have hnonzero : ∀ u ∈ Text.encodeUtf16 e.name, decide (u ≠ 0) = true := fun u hu =>
      decide_eq_true (Nat.ne_of_gt (hbounds u hu).1)
    rw [List.map_append, hunits, List.takeWhile_append_of_pos hnonzero, hend, List.append_nil]
  unfold Detector.gptLabel
  rw [nameUnits_eq hname hlength]
  dsimp only
  rw [hcut, Text.fromUtf16Lossy_encodeUtf16]
  rfl

/-- The bytes of an entry are decoded to it. -/
theorem GptEntry.OnBytes.gptFound {b : List UInt8} {e : GptEntry} (h : e.OnBytes b)
    (hb : b.length = 128) :
    gptFound b = some ⟨e.firstLba, e.lastLba, gptTypeName e.guid, e.label⟩ := by
  have hlast := e.last_lt
  have horder := e.first_le_last
  have hfirst64 : ofLe (toLe 8 e.firstLba) = e.firstLba := by
    rw [ofLe_toLe]
    omega
  have hlast64 : ofLe (toLe 8 e.lastLba) = e.lastLba := by
    rw [ofLe_toLe]
    omega
  have hused : ¬ e.guid.all (· = 0) = true := by
    obtain ⟨byte, hmem, hne⟩ := e.guid_ne
    rw [List.all_eq_true]
    intro hall
    exact hne (of_decide_eq_true (hall byte hmem))
  unfold Detector.gptFound
  rw [h.first_eq, h.last_eq, h.guid_eq, h.gptLabel hb, hfirst64, hlast64, if_neg hused,
    if_neg (Nat.not_lt_of_le horder)]

/-- An unused entry is passed over. -/
theorem gptFound_unused {b : List UInt8} (h : slice b 0 16 = List.replicate 16 0) :
    gptFound b = none := by
  unfold gptFound
  rw [h]
  exact if_pos (by decide)

/-- The exact partition of an entry is the one that the code computes. -/
theorem GptEntry.partition_eq (e : GptEntry) (index : ℕ) :
    GptFound.partition ⟨e.firstLba, e.lastLba, gptTypeName e.guid, e.label⟩ index =
      e.partition index := by
  have hlast := e.last_lt
  have horder := e.first_le_last
  unfold GptFound.partition GptEntry.partition
  dsimp only
  rw [addw_of_lt (by omega), mulw_of_lt (by omega), mulw_of_lt (by omega)]

/-- The used entries of a table on the disk. -/
theorem GptOnDisk.tableFound {D header : List UInt8} {lba size : ℕ}
    {entries : List (Option GptEntry)} (h : GptOnDisk D header lba size entries) :
    tableFound D (lba * 512) entries.length size = (entries.filterMap id).map fun e =>
      ⟨e.firstLba, e.lastLba, gptTypeName e.guid, e.label⟩ := by
  have hdecode : ∀ (i : ℕ) (e : Option GptEntry), entries[i]? = some e →
      gptFound (window (zeroExtended D) (lba * 512 + i * size) 128) =
        e.map fun e => ⟨e.firstLba, e.lastLba, gptTypeName e.guid, e.label⟩ := by
    intro i e hi
    have hentry := h.entry i e hi
    rcases e with _ | e
    · exact gptFound_unused hentry
    · exact GptEntry.OnBytes.gptFound hentry (length_window _ _ _)
  have hmap : ((List.range entries.length).map fun i =>
      gptFound (window (zeroExtended D) (lba * 512 + i * size) 128)) =
      entries.map (Option.map fun e => ⟨e.firstLba, e.lastLba, gptTypeName e.guid, e.label⟩) := by
    apply List.ext_getElem?
    intro i
    by_cases hi : i < entries.length
    · have hget := List.getElem?_eq_getElem hi
      rw [List.getElem?_map, List.getElem?_map, List.getElem?_range hi, hget, Option.map_some,
        Option.map_some, hdecode i _ hget]
    · rw [List.getElem?_eq_none (by rw [List.length_map, List.length_range]; omega),
        List.getElem?_eq_none (by rw [List.length_map]; omega)]
  calc Detector.tableFound D (lba * 512) entries.length size
      = ((List.range entries.length).map fun i =>
          gptFound (window (zeroExtended D) (lba * 512 + i * size) 128)).filterMap id := by
        rw [List.filterMap_map]
        rfl
    _ = (entries.map (Option.map fun e =>
          ⟨e.firstLba, e.lastLba, gptTypeName e.guid, e.label⟩)).filterMap id := by rw [hmap]
    _ = (entries.filterMap id).map fun e =>
          ⟨e.firstLba, e.lastLba, gptTypeName e.guid, e.label⟩ := by
        rw [List.filterMap_map, List.map_filterMap]
        rfl

section Calls

variable {m : Type → Type} [Monad m] {R : Returning m} {driver : VmDriver m} {D header : List UInt8}
  {lba size : ℕ} {entries : List (Option GptEntry)}

/-- `read_gpt` returns the used entries of the table that the disk holds, each at its place in the
list. The sectors that it reads cover the whole table, so that it does not leave the loop early. -/
theorem readGpt_layout (h : Serves R driver D) (hdisk : GptOnDisk D header lba size entries) :
    R.outcome (readGpt driver header)
      (.ok ((entries.filterMap id).mapIdx fun index e => e.partition index)) ∧
    ∃ table, R.outcome (readBlocks driver sector lba (tableSectors entries.length size)) (.ok table) ∧
      ∀ i < entries.length, ¬ table.length < i * size + 128 := by
  have hlength := h.length_lt
  have hinside := hdisk.inside
  have hlba : lba * 512 < 2^64 := by omega
  have hnum := hdisk.length_le
  have hsize := hdisk.size_lt
  have hheader : GptHeader header lba entries.length size := by
    constructor
    · rw [hdisk.lba_eq, ofLe_toLe]
      omega
    · rw [hdisk.num_eq, ofLe_toLe]
      omega
    · rw [hdisk.size_eq, ofLe_toLe]
      omega
  have haccepted : TableAccepted entries.length size :=
    ⟨hdisk.size_ge, List.length_pos_iff.mpr hdisk.entries_ne |>.ne', hnum⟩
  constructor
  · have hcall := h.readGpt hheader haccepted
    rw [mulw_of_lt hlba, hdisk.tableFound] at hcall
    have hexact : gptNumbered ((entries.filterMap id).map fun e =>
        ⟨e.firstLba, e.lastLba, gptTypeName e.guid, e.label⟩) =
        (entries.filterMap id).mapIdx fun index e => e.partition index := by
      unfold gptNumbered
      rw [List.mapIdx_eq_iff]
      intro i
      rw [List.getElem?_mapIdx, List.getElem?_map, Option.map_map]
      simp only [Function.comp_def, GptEntry.partition_eq]
    rw [hexact] at hcall
    exact hcall
  · refine ⟨_, h.readSectors hlba (tableSectors_lt hnum hsize), ?_⟩
    intro i hi
    rw [length_window]
    have hentry := entry_le_tableSectors hdisk.size_ge hi
    omega

end Calls

/-- A Linux file system with a name that has blanks around it. -/
def sampleEntry : GptEntry where
  guid := [0xAF, 0x3D, 0xC6, 0x0F, 0x83, 0x84, 0x72, 0x47, 0x8E, 0x79, 0x3D, 0x69, 0xD8, 0x47, 0x7D,
    0xE4]
  firstLba := 40
  lastLba := 49
  name := " data ".toList
  length_guid := rfl
  guid_ne := ⟨0xAF, by decide, by decide⟩
  first_le_last := by decide
  last_lt := by decide
  noNul := by decide
  length_name := by decide

/-- A header for a table of two entries of 200 bytes in sector 2. -/
def sampleHeader : List UInt8 :=
  List.replicate 72 0 ++ toLe 8 2 ++ toLe 4 2 ++ toLe 4 200 ++ List.replicate 424 0

/-- The bytes of the entry. -/
def sampleEntryBytes : List UInt8 :=
  sampleEntry.guid ++ List.replicate 16 0 ++ toLe 8 40 ++ toLe 8 49 ++ List.replicate 8 0 ++
    (Text.encodeUtf16 " data ".toList).flatMap (toLe 2) ++ List.replicate 60 0

/-- A disk with this header and a table whose second entry is used. -/
def sampleGptDisk : List UInt8 :=
  (List.replicate 512 0 ++ sampleHeader ++ List.replicate 200 0) ++
    (sampleEntryBytes ++ List.replicate 72 0)

theorem sampleGptDisk_length : sampleGptDisk.length < 2^63 := by decide +kernel

/-- The table is written on it. -/
theorem sampleGptDisk_onDisk :
    GptOnDisk sampleGptDisk sampleHeader 2 200 [none, some sampleEntry] where
  lba_eq := by decide +kernel
  num_eq := by decide +kernel
  size_eq := by decide +kernel
  entries_ne := by decide
  length_le := by decide
  size_ge := by decide
  size_lt := by decide
  inside := by decide +kernel
  entry i e hi := by
    match i, hi with
    | 0, hi =>
      obtain rfl := Option.some.inj hi
      unfold EntryOnBytes
      rw [slice_window _ (by norm_num), window_eq_slice (by decide +kernel)]
      decide +kernel
    | 1, hi =>
      obtain rfl := Option.some.inj hi
      have hbytes : window (zeroExtended sampleGptDisk) (2 * 512 + 1 * 200) 128 =
          sampleEntryBytes := by
        rw [window_eq_slice (by decide +kernel)]
        exact slice_field _ _ (by decide +kernel) (by decide +kernel)
      rw [hbytes]
      exact ⟨by decide +kernel, by decide +kernel, by decide +kernel,
        List.replicate 30 0, by decide +kernel, Or.inr rfl⟩

/-- Its partition. -/
theorem sampleGptDisk_partitions :
    (rawRuns sampleGptDisk sampleGptDisk_length).outcome
      (readGpt (diskDriver noNbd sampleGptDisk.length) sampleHeader)
      (.ok [⟨0, 20480, 5120, "Linux filesystem", .unknown, some "data".toList⟩]) := by
  have hpartitions : ([none, some sampleEntry].filterMap id).mapIdx
      (fun index e => e.partition index) =
      [⟨0, 20480, 5120, "Linux filesystem", .unknown, some "data".toList⟩] := by decide +kernel
  have hcall := (readGpt_layout (rawRuns_serves sampleGptDisk_length) sampleGptDisk_onDisk).1
  rw [hpartitions] at hcall
  exact hcall

end VmSpect.Detector
