import VmSpect.Vms.MbrTable

/-!
# Layouts of an MBR

A layout is what a partitioning tool writes: four slots, each empty, a primary partition or an
extended partition with its chain of EBRs. `Layout.OnDisk` says that the bytes of a disk hold a
layout, and leaves open all bytes that have no part in it. `read_mbr` gives back the partitions of
the layout (`readMbr_layout`).
-/

namespace VmSpect.Detector

open Bytes Words Polling

/-- The types of an extended partition. -/
def extendedKinds : List UInt8 := [0x05, 0x0F, 0x85]

/-- A primary partition. -/
structure Primary where
  kind : UInt8
  start : UInt32
  sectors : UInt32
  kind_ne : kind ≠ 0
  kind_notMem : kind ∉ extendedKinds
  sectors_ne : sectors ≠ 0

/-- A logical partition, whose start is relative to its EBR. -/
structure Logical where
  kind : UInt8
  relStart : UInt32
  sectors : UInt32
  kind_ne : kind ≠ 0
  sectors_ne : sectors ≠ 0

/-- An EBR of a chain: how many sectors after the start of the extended partition it is, and the
logical partition that it holds. -/
structure Ebr where
  offset : UInt32
  logical : Option Logical

/-- An extended partition. The first EBR of its chain is at its start, and the others are linked by
their offsets. -/
structure Extended where
  kind : UInt8
  start : UInt32
  sectors : UInt32
  first : Option Logical
  rest : List Ebr
  kind_mem : kind ∈ extendedKinds
  sectors_ne : sectors ≠ 0
  offset_ne : ∀ e ∈ rest, e.offset ≠ 0
  length_lt : rest.length < 64

/-- A slot of the table. -/
inductive Slot where
  | empty
  | primary (p : Primary)
  | extended (e : Extended)

/-- The four slots. -/
structure Layout where
  slots : List Slot
  length_slots : slots.length = 4

/-! ## The partitions of a layout -/

/-- The logical partition of an EBR at a sector. -/
def Logical.found (l : Logical) (lba : ℕ) : Found :=
  ⟨some lba, lba + l.relStart.toNat, l.sectors.toNat, l.kind.toNat⟩

/-- The chain of an extended partition. -/
def Extended.ebrs (e : Extended) : List Ebr := ⟨0, e.first⟩ :: e.rest

/-- The partitions of a slot. -/
def Slot.found : Slot → List Found
  | empty => []
  | primary p => [⟨none, p.start.toNat, p.sectors.toNat, p.kind.toNat⟩]
  | extended e => e.ebrs.filterMap fun r =>
      r.logical.map fun l => l.found (e.start.toNat + r.offset.toNat)

/-- The partitions of a layout, in the order of the slots and of the chains. -/
def Layout.found (layout : Layout) : List Found := layout.slots.flatMap Slot.found

/-! ## Layouts on a disk -/

/-- The entry at a place of a sector has a type, a first sector and a number of sectors. -/
structure EntryHolds (s : List UInt8) (place : ℕ) (kind : UInt8) (start sectors : UInt32) :
    Prop where
  kind_eq : s[place + 4]? = some kind
  start_eq : slice s (place + 8) 4 = toLe 4 start.toNat
  sectors_eq : slice s (place + 12) 4 = toLe 4 sectors.toNat

/-- The entry at a place of a sector has no type, or the number at another place is zero. -/
def EntryUnused (s : List UInt8) (place count : ℕ) : Prop :=
  s[place + 4]? = some 0 ∨ slice s (place + count) 4 = toLe 4 0

/-- A sector is the record of an EBR. -/
def Ebr.OnSector (s : List UInt8) (r : Ebr) : Prop :=
  BootSigned s ∧
    match r.logical with
    | none => EntryUnused s 446 12
    | some l => EntryHolds s 446 l.kind l.relStart l.sectors

/-- An EBR and those after it are on the disk, each with a link to the next. -/
def ChainOnDisk (D : List UInt8) (start : ℕ) : Ebr → List Ebr → Prop
  | r, [] => r.OnSector (sectorAt D (start + r.offset.toNat)) ∧
      EntryUnused (sectorAt D (start + r.offset.toNat)) 462 8
  | r, next :: rest => r.OnSector (sectorAt D (start + r.offset.toNat)) ∧
      (∃ kind sectors, kind ≠ 0 ∧
        EntryHolds (sectorAt D (start + r.offset.toNat)) 462 kind next.offset sectors) ∧
      ChainOnDisk D start next rest

/-- The table of a disk has a slot at a place. -/
def Slot.OnDisk (D mbr : List UInt8) (i : ℕ) : Slot → Prop
  | empty => EntryUnused mbr (446 + i * 16) 12
  | primary p => EntryHolds mbr (446 + i * 16) p.kind p.start p.sectors
  | extended e => EntryHolds mbr (446 + i * 16) e.kind e.start e.sectors ∧
      ChainOnDisk D e.start.toNat ⟨0, e.first⟩ e.rest

/-- The disk holds the layout: the table in its first sector, and the chains. -/
def Layout.OnDisk (D : List UInt8) (layout : Layout) : Prop :=
  BootSigned (sectorAt D 0) ∧
    ∀ (i : ℕ) (slot : Slot), layout.slots[i]? = some slot → slot.OnDisk D (sectorAt D 0) i

/-! ## Decoding -/

/-- An entry is decoded to what it holds. -/
theorem EntryHolds.mbrEntry {s : List UInt8} {place : ℕ} {kind : UInt8} {start sectors : UInt32}
    (h : EntryHolds s place kind start sectors) :
    mbrEntry s place = (kind.toNat, start.toNat, sectors.toNat) := by
  have hkind : byteAt s (place + 4) = kind.toNat := by
    unfold byteAt
    rw [List.getD_eq_getElem?_getD, h.kind_eq, Option.getD_some]
  have hstart : start.toNat % 2^(8 * 4) = start.toNat := Nat.mod_eq_of_lt start.toNat_lt
  have hsectors : sectors.toNat % 2^(8 * 4) = sectors.toNat := Nat.mod_eq_of_lt sectors.toNat_lt
  unfold Detector.mbrEntry
  rw [hkind, h.start_eq, h.sectors_eq, ofLe_toLe, ofLe_toLe, hstart, hsectors]

/-- An unused entry has no type or a zero. -/
theorem EntryUnused.decoded {s : List UInt8} {place count : ℕ} (h : EntryUnused s place count) :
    byteAt s (place + 4) = 0 ∨ ofLe (slice s (place + count) 4) = 0 := by
  rcases h with hkind | hzero
  · left
    unfold byteAt
    rw [List.getD_eq_getElem?_getD, hkind]
    rfl
  · right
    rw [hzero, ofLe_toLe]
    rfl

/-- What an EBR holds is found at its sector. -/
theorem Ebr.OnSector.logicalAt {D : List UInt8} {lba : ℕ} {r : Ebr}
    (h : r.OnSector (sectorAt D lba)) :
    logicalAt D lba = r.logical.map fun l => l.found lba := by
  obtain ⟨-, hentry⟩ := h
  rcases hl : r.logical with _ | l
  · rw [hl] at hentry
    have hunused := hentry.decoded
    rw [logicalAt_of_entry rfl, if_neg fun hused => hunused.elim hused.1 hused.2, Option.map_none]
  · rw [hl] at hentry
    have hkind : l.kind.toNat ≠ 0 := fun hzero => l.kind_ne (UInt8.toNat_inj.mp hzero)
    have hsectors : l.sectors.toNat ≠ 0 := fun hzero => l.sectors_ne (UInt32.toNat_inj.mp hzero)
    rw [logicalAt_of_entry hentry.mbrEntry, if_pos ⟨hkind, hsectors⟩, Option.map_some]
    rfl

/-- The walk visits the EBRs of the chain. -/
theorem ebrChain_chainOnDisk {D : List UInt8} {start : ℕ} {r : Ebr} {rest : List Ebr}
    (h : ChainOnDisk D start r rest) (hoffset : ∀ e ∈ rest, e.offset ≠ 0) {left : ℕ}
    (hleft : rest.length < left) :
    ebrChain D start left (start + r.offset.toNat) =
      (r :: rest).map fun e => start + e.offset.toNat := by
  induction rest generalizing r left with
  | nil =>
    obtain ⟨hsector, hunused⟩ := h
    obtain ⟨left, rfl⟩ : ∃ k, left = k + 1 := ⟨left - 1, by omega⟩
    have hnext : nextEbr D start (start + r.offset.toNat) = none := by
      rw [nextEbr_of_entry rfl, if_pos hunused.decoded]
    rw [ebrChain, if_pos hsector.1, hnext]
    rfl
  | cons next rest ih =>
    obtain ⟨hsector, ⟨kind, sectors, hkind, hlink⟩, hrest⟩ := h
    obtain ⟨left, rfl⟩ : ∃ k, left = k + 1 := ⟨left - 1, by omega⟩
    rw [List.length_cons] at hleft
    have hne : kind.toNat ≠ 0 := fun hzero => hkind (UInt8.toNat_inj.mp hzero)
    have hoff : next.offset.toNat ≠ 0 := fun hzero =>
      hoffset next List.mem_cons_self (UInt32.toNat_inj.mp hzero)
    have hnext : nextEbr D start (start + r.offset.toNat) = some (start + next.offset.toNat) := by
      rw [nextEbr_of_entry hlink.mbrEntry, if_neg (not_or_intro hne hoff)]
    rw [ebrChain, if_pos hsector.1, hnext, Option.elim_some,
      ih hrest (fun e he => hoffset e (List.mem_cons_of_mem next he)) (by omega)]
    rfl

/-- Every EBR of the chain is on its sector. -/
theorem ChainOnDisk.onSector {D : List UInt8} {start : ℕ} {r : Ebr} {rest : List Ebr}
    (h : ChainOnDisk D start r rest) :
    ∀ e ∈ r :: rest, e.OnSector (sectorAt D (start + e.offset.toNat)) := by
  induction rest generalizing r with
  | nil =>
    intro e he
    obtain rfl := List.mem_singleton.mp he
    exact h.1
  | cons next rest ih =>
    intro e he
    rcases List.mem_cons.mp he with rfl | he
    · exact h.1
    · exact ih h.2.2 e he

/-- A slot is decoded to its partitions. -/
theorem Slot.OnDisk.slotFound {D mbr : List UInt8} {i : ℕ} {slot : Slot}
    (h : slot.OnDisk D mbr i) : slotFound D mbr i = slot.found := by
  have hextended : ∀ kind : UInt8, kind.toNat ∈ [0x05, 0x0F, 0x85] ↔ kind ∈ extendedKinds := by
    intro kind
    simp only [extendedKinds, List.mem_cons, List.not_mem_nil, or_false, ← UInt8.toNat_inj]
    rfl
  cases slot with
  | empty =>
    rw [slotFound_of_entry rfl, if_pos h.decoded]
    rfl
  | primary p =>
    have hkind : p.kind.toNat ≠ 0 := fun hzero => p.kind_ne (UInt8.toNat_inj.mp hzero)
    have hsectors : p.sectors.toNat ≠ 0 := fun hzero => p.sectors_ne (UInt32.toNat_inj.mp hzero)
    have hnot : p.kind.toNat ∉ [0x05, 0x0F, 0x85] := fun hmem => p.kind_notMem ((hextended _).mp hmem)
    rw [slotFound_of_entry h.mbrEntry, if_neg (not_or_intro hkind hsectors), if_neg hnot]
    rfl
  | extended e =>
    obtain ⟨hentry, hchain⟩ := h
    have hmem : e.kind ∈ extendedKinds := e.kind_mem
    have hkind : e.kind.toNat ≠ 0 := by
      intro hzero
      have hnotMem : (0 : UInt8) ∉ extendedKinds := by decide
      have heq : e.kind = 0 := UInt8.toNat_inj.mp hzero
      exact hnotMem (heq ▸ hmem)
    have hsectors : e.sectors.toNat ≠ 0 := fun hzero => e.sectors_ne (UInt32.toNat_inj.mp hzero)
    have hvisits := ebrChain_chainOnDisk hchain e.offset_ne e.length_lt
    have hfirst : e.start.toNat + (⟨0, e.first⟩ : Ebr).offset.toNat = e.start.toNat :=
      Nat.add_zero _
    rw [hfirst] at hvisits
    rw [slotFound_of_entry hentry.mbrEntry, if_neg (not_or_intro hkind hsectors),
      if_pos ((hextended _).mpr hmem), hvisits, List.filterMap_map]
    unfold Slot.found Extended.ebrs
    apply List.filterMap_congr
    intro r hr
    rw [Function.comp_apply, (hchain.onSector r hr).logicalAt]

/-- The table is decoded to the partitions of the layout. -/
theorem Layout.OnDisk.mbrFound {D : List UInt8} {layout : Layout} (h : layout.OnDisk D) :
    mbrFound D (sectorAt D 0) = layout.found := by
  obtain ⟨slots, hlength⟩ := layout
  obtain ⟨-, hslots⟩ := h
  -- There are four slots, and the table is read slot by slot.
  obtain ⟨s₀, s₁, s₂, s₃, rfl⟩ := List.length_eq_four.mp hlength
  have h₀ := (hslots 0 s₀ rfl).slotFound
  have h₁ := (hslots 1 s₁ rfl).slotFound
  have h₂ := (hslots 2 s₂ rfl).slotFound
  have h₃ := (hslots 3 s₃ rfl).slotFound
  simp only [Detector.mbrFound, Layout.found, List.flatMap_cons, List.flatMap_nil, h₀, h₁, h₂, h₃]

/-! ## Writing a layout -/

/-- The bytes of an entry. -/
def entryBytes (e : UInt8 × UInt32 × UInt32) : List UInt8 :=
  [0, 0, 0, 0, e.1, 0, 0, 0] ++ (toLe 4 e.2.1.toNat ++ toLe 4 e.2.2.toNat)

/-- A boot record with its four entries and no code. -/
def recordBytes (entries : List (UInt8 × UInt32 × UInt32)) : List UInt8 :=
  List.replicate 446 0 ++ (entries.flatMap entryBytes ++ [0x55, 0xAA])

/-- The entries of an EBR: its partition, and a link to the next one. -/
def Ebr.entries (r : Ebr) (next : Option Ebr) : List (UInt8 × UInt32 × UInt32) :=
  [r.logical.elim (0, 0, 0) fun l => (l.kind, l.relStart, l.sectors),
    next.elim (0, 0, 0) fun n => (0x05, n.offset, 1), (0, 0, 0), (0, 0, 0)]

/-- The records of a chain, each with its sector. -/
def chainRecords (start : ℕ) : Ebr → List Ebr → List (ℕ × List UInt8)
  | r, [] => [(start + r.offset.toNat, recordBytes (r.entries none))]
  | r, next :: rest =>
    (start + r.offset.toNat, recordBytes (r.entries (some next))) :: chainRecords start next rest

/-- The entry of a slot. -/
def Slot.entry : Slot → UInt8 × UInt32 × UInt32
  | empty => (0, 0, 0)
  | primary p => (p.kind, p.start, p.sectors)
  | extended e => (e.kind, e.start, e.sectors)

/-- The records of a slot outside of the table. -/
def Slot.records : Slot → List (ℕ × List UInt8)
  | empty => []
  | primary _ => []
  | extended e => chainRecords e.start.toNat ⟨0, e.first⟩ e.rest

/-- The records of a layout. -/
def Layout.records (layout : Layout) : List (ℕ × List UInt8) :=
  (0, recordBytes (layout.slots.map Slot.entry)) :: layout.slots.flatMap Slot.records

/-- The disk after sectors are written to it. -/
def writeSectors (D : List UInt8) : List (ℕ × List UInt8) → List UInt8
  | [] => D
  | (lba, s) :: rest => writeSectors (writeAt D (lba * 512) s) rest

/-- The disk with the layout written to it. -/
def Layout.write (layout : Layout) (D : List UInt8) : List UInt8 := writeSectors D layout.records

/-- An entry has 16 bytes. -/
theorem length_entryBytes (e : UInt8 × UInt32 × UInt32) : (entryBytes e).length = 16 := by
  simp [entryBytes]

/-- A record holds its entries. -/
theorem recordBytes_entryHolds {entries : List (UInt8 × UInt32 × UInt32)} {i : ℕ} {kind : UInt8}
    {start sectors : UInt32} (h : entries[i]? = some (kind, start, sectors)) :
    EntryHolds (recordBytes entries) (446 + i * 16) kind start sectors := by
  have hi := (List.getElem?_eq_some_iff.mp h).1
  -- The record, cut at the entry.
  obtain ⟨pre, hpre⟩ : ∃ pre, pre = List.replicate 446 (0 : UInt8) ++
    (entries.take i).flatMap entryBytes := ⟨_, rfl⟩
  obtain ⟨post, hpost⟩ : ∃ post, post = (entries.drop (i + 1)).flatMap entryBytes ++
    [0x55, 0xAA] := ⟨_, rfl⟩
  have hlength : pre.length = 446 + i * 16 := by
    rw [hpre, List.length_append, List.length_replicate, length_flatMap_take length_entryBytes hi.le]
  have hsplit : recordBytes entries = pre ++ (entryBytes (kind, start, sectors) ++ post) := by
    rw [recordBytes, flatMap_cut h, hpre, hpost]
    simp only [List.append_assoc]
  constructor
  · rw [hsplit, ← hlength, List.getElem?_append_right (Nat.le_add_right _ _),
      Nat.add_sub_cancel_left]
    rfl
  · have hfront : (pre ++ [0, 0, 0, 0, kind, 0, 0, 0]).length = 446 + i * 16 + 8 := by
      rw [List.length_append, hlength]
      rfl
    have hfield : recordBytes entries = (pre ++ [0, 0, 0, 0, kind, 0, 0, 0]) ++
        (toLe 4 start.toNat ++ (toLe 4 sectors.toNat ++ post)) := by
      rw [hsplit, entryBytes]
      simp only [List.append_assoc]
    rw [hfield]
    exact slice_field _ _ hfront (length_toLe _ _)
  · have hfront : (pre ++ ([0, 0, 0, 0, kind, 0, 0, 0] ++ toLe 4 start.toNat)).length =
        446 + i * 16 + 12 := by
      rw [List.length_append, List.length_append, hlength, length_toLe]
      rfl
    have hfield : recordBytes entries = (pre ++ ([0, 0, 0, 0, kind, 0, 0, 0] ++
        toLe 4 start.toNat)) ++ (toLe 4 sectors.toNat ++ post) := by
      rw [hsplit, entryBytes]
      simp only [List.append_assoc]
    rw [hfield]
    exact slice_field _ _ hfront (length_toLe _ _)

/-- An entry of zeros is unused, as a partition and as a link. -/
theorem EntryHolds.unused {s : List UInt8} {place : ℕ} (h : EntryHolds s place 0 0 0) (count : ℕ) :
    EntryUnused s place count :=
  Or.inl h.kind_eq

/-- A record with four entries fills a sector. -/
theorem length_recordBytes {entries : List (UInt8 × UInt32 × UInt32)} (h : entries.length = 4) :
    (recordBytes entries).length = 512 := by
  rw [recordBytes, List.length_append, List.length_append, List.length_replicate,
    length_flatMap_const length_entryBytes, h]
  rfl

/-- It is signed. -/
theorem bootSigned_recordBytes {entries : List (UInt8 × UInt32 × UInt32)} (h : entries.length = 4) :
    BootSigned (recordBytes entries) := by
  have hfront : (List.replicate 446 (0 : UInt8) ++ entries.flatMap entryBytes).length = 510 := by
    rw [List.length_append, List.length_replicate, length_flatMap_const length_entryBytes, h]
  have hget : ∀ k, (recordBytes entries)[510 + k]? = [0x55, 0xAA][k]? := by
    intro k
    rw [recordBytes, ← List.append_assoc, List.getElem?_append_right (by omega), hfront,
      Nat.add_sub_cancel_left]
  unfold BootSigned byteAt
  rw [List.getD_eq_getElem?_getD, List.getD_eq_getElem?_getD, hget 0, hget 1]
  decide

/-- The record of an EBR holds it. -/
theorem Ebr.onSector_record (r : Ebr) (next : Option Ebr) :
    r.OnSector (recordBytes (r.entries next)) := by
  refine ⟨bootSigned_recordBytes rfl, ?_⟩
  rcases hlogical : r.logical with _ | l
  · have hentry : (r.entries next)[0]? = some (0, 0, 0) := by
      rw [Ebr.entries, hlogical]
      rfl
    exact (recordBytes_entryHolds hentry).unused 12
  · have hentry : (r.entries next)[0]? = some (l.kind, l.relStart, l.sectors) := by
      rw [Ebr.entries, hlogical]
      rfl
    exact recordBytes_entryHolds hentry

/-- A chain whose records are on the disk. -/
theorem chainOnDisk_of_records {D : List UInt8} {start : ℕ} {r : Ebr} {rest : List Ebr}
    (h : ∀ w ∈ chainRecords start r rest, sectorAt D w.1 = w.2) : ChainOnDisk D start r rest := by
  induction rest generalizing r with
  | nil =>
    have hsector : sectorAt D (start + r.offset.toNat) = recordBytes (r.entries none) :=
      h (start + r.offset.toNat, recordBytes (r.entries none)) List.mem_cons_self
    have hlink : EntryHolds (recordBytes (r.entries none)) (446 + 1 * 16) 0 0 0 :=
      recordBytes_entryHolds rfl
    rw [ChainOnDisk, hsector]
    exact ⟨r.onSector_record none, hlink.unused 8⟩
  | cons next rest ih =>
    have hsector : sectorAt D (start + r.offset.toNat) = recordBytes (r.entries (some next)) :=
      h (start + r.offset.toNat, recordBytes (r.entries (some next))) List.mem_cons_self
    have hlink : EntryHolds (recordBytes (r.entries (some next))) (446 + 1 * 16) 0x05 next.offset 1 :=
      recordBytes_entryHolds rfl
    have hrest := ih fun w hw => h w (List.mem_cons_of_mem _ hw)
    rw [ChainOnDisk, hsector]
    exact ⟨r.onSector_record (some next), ⟨0x05, 1, by decide, hlink⟩, hrest⟩

/-- A layout whose records are on the disk. -/
theorem Layout.onDisk_of_records {D : List UInt8} {layout : Layout}
    (h : ∀ w ∈ layout.records, sectorAt D w.1 = w.2) : layout.OnDisk D := by
  have htable : sectorAt D 0 = recordBytes (layout.slots.map Slot.entry) :=
    h (0, recordBytes (layout.slots.map Slot.entry)) List.mem_cons_self
  have hlength : (layout.slots.map Slot.entry).length = 4 := by
    rw [List.length_map, layout.length_slots]
  refine ⟨by rw [htable]; exact bootSigned_recordBytes hlength, ?_⟩
  intro i slot hslot
  have hentry : (layout.slots.map Slot.entry)[i]? = some slot.entry := by
    rw [List.getElem?_map, hslot, Option.map_some]
  have hholds := recordBytes_entryHolds hentry
  rw [← htable] at hholds
  cases slot with
  | empty => exact hholds.unused 12
  | primary p => exact hholds
  | extended e =>
    refine ⟨hholds, chainOnDisk_of_records fun w hw => h w (List.mem_cons_of_mem _ ?_)⟩
    exact List.mem_flatMap.mpr ⟨.extended e, List.mem_of_getElem? hslot, hw⟩

/-! ### Written sectors -/

/-- Bytes outside of what is written. -/
theorem zeroExtended_writeAt {D s : List UInt8} {offset p : ℕ} (h : offset + s.length ≤ D.length)
    (hp : p < offset ∨ offset + s.length ≤ p) :
    zeroExtended (writeAt D offset s) p = zeroExtended D p := by
  have hbefore : (D.take offset).length = offset := by
    rw [List.length_take]
    omega
  have hfront : (D.take offset ++ s).length = offset + s.length := by
    rw [List.length_append, hbefore]
  have hget : (writeAt D offset s)[p]? = D[p]? := by
    unfold writeAt
    rcases hp with hp | hp
    · rw [List.getElem?_append_left (by omega), List.getElem?_append_left (by omega),
        List.getElem?_take_of_lt hp]
    · rw [List.getElem?_append_right (by omega), List.getElem?_drop, hfront]
      congr 1
      omega
  unfold zeroExtended
  rw [List.getD_eq_getElem?_getD, List.getD_eq_getElem?_getD, hget]

/-- A sector after one is written. -/
theorem sectorAt_writeAt {D s : List UInt8} {lba : ℕ} (hs : s.length = 512)
    (hlba : (lba + 1) * 512 ≤ D.length) (other : ℕ) :
    sectorAt (writeAt D (lba * 512) s) other = if other = lba then s else sectorAt D other := by
  have hbefore : (D.take (lba * 512)).length = lba * 512 := by
    rw [List.length_take]
    omega
  have hafter : (D.drop (lba * 512 + s.length)).length = D.length - (lba + 1) * 512 := by
    rw [List.length_drop, hs]
    omega
  split
  · rename_i heq
    rw [heq, sectorAt, writeAt, window_eq_slice (by
      rw [List.length_append, List.length_append, hbefore, hafter, hs]
      omega), List.append_assoc]
    exact slice_field _ _ hbefore hs
  · rename_i hne
    apply window_congr
    intro k hk
    apply zeroExtended_writeAt
    · omega
    · rw [hs]
      omega

/-- Sectors that are written once are there afterwards. -/
theorem sectorAt_writeSectors {D : List UInt8} {records : List (ℕ × List UInt8)}
    (hlength : ∀ w ∈ records, w.2.length = 512 ∧ (w.1 + 1) * 512 ≤ D.length)
    (hnodup : (records.map Prod.fst).Nodup) :
    (∀ w ∈ records, sectorAt (writeSectors D records) w.1 = w.2) ∧
      ∀ lba ∉ records.map Prod.fst, sectorAt (writeSectors D records) lba = sectorAt D lba := by
  induction records generalizing D with
  | nil => exact ⟨fun w hw => absurd hw List.not_mem_nil, fun lba _ => rfl⟩
  | cons first rest ih =>
    obtain ⟨lba, s⟩ := first
    obtain ⟨hs, hlba⟩ := hlength (lba, s) List.mem_cons_self
    have hnew : lba ∉ rest.map Prod.fst := (List.nodup_cons.mp hnodup).1
    have hkeep : (writeAt D (lba * 512) s).length = D.length := length_writeAt (by rw [hs]; omega)
    have hone := sectorAt_writeAt hs hlba
    obtain ⟨hrest, hothers⟩ := ih (D := writeAt D (lba * 512) s)
      (fun w hw => by
        rw [hkeep]
        exact hlength w (List.mem_cons_of_mem _ hw))
      (List.nodup_cons.mp hnodup).2
    constructor
    · intro w hw
      rcases List.mem_cons.mp hw with rfl | hw
      · rw [writeSectors, hothers lba hnew, hone, if_pos rfl]
      · exact hrest w hw
    · intro other hother
      rw [List.map_cons, List.mem_cons, not_or] at hother
      rw [writeSectors, hothers other hother.2, hone, if_neg hother.1]

/-- The records of a chain fill their sectors. -/
theorem length_chainRecords {start : ℕ} {r : Ebr} {rest : List Ebr} :
    ∀ w ∈ chainRecords start r rest, w.2.length = 512 := by
  induction rest generalizing r with
  | nil =>
    intro w hw
    obtain rfl := List.mem_singleton.mp hw
    exact length_recordBytes rfl
  | cons next rest ih =>
    intro w hw
    rcases List.mem_cons.mp hw with rfl | hw
    · exact length_recordBytes rfl
    · exact ih w hw

/-- So do those of a layout. -/
theorem Layout.length_records {layout : Layout} : ∀ w ∈ layout.records, w.2.length = 512 := by
  intro w hw
  rcases List.mem_cons.mp hw with rfl | hw
  · exact length_recordBytes (by rw [List.length_map, layout.length_slots])
  · obtain ⟨slot, -, hw⟩ := List.mem_flatMap.mp hw
    cases slot with
    | extended e => exact length_chainRecords w hw
    | _ => cases hw

/-- A layout that is written to sectors of the disk that are distinct is there afterwards. -/
theorem Layout.onDisk_write {layout : Layout} {D : List UInt8}
    (hinside : ∀ w ∈ layout.records, (w.1 + 1) * 512 ≤ D.length)
    (hnodup : (layout.records.map Prod.fst).Nodup) : layout.OnDisk (layout.write D) := by
  have hwritten := sectorAt_writeSectors
    (fun w hw => ⟨layout.length_records w hw, hinside w hw⟩) hnodup
  exact Layout.onDisk_of_records hwritten.1

/-! ## The call -/

section Calls

variable {m : Type → Type} [Monad m] {R : Returning m} {driver : VmDriver m} {D : List UInt8}

/-- `read_mbr` returns the partitions of the layout that the disk holds, each at its place in the
list, with the offset and the size that its sectors have. -/
theorem readMbr_layout (h : Serves R driver D) {layout : Layout} (hlayout : layout.OnDisk D) :
    R.outcome (readMbr driver (sectorAt D 0)) (.ok (numbered layout.found)) ∧
      ∀ p ∈ numbered layout.found, p.start < 2^64 ∧ p.size < 2^64 := by
  rw [← hlayout.mbrFound]
  refine ⟨h.readMbr (sectorAt D 0), ?_⟩
  intro p hp
  obtain ⟨-, -, hsize, hstart⟩ := numbered_bounds p hp
  omega

end Calls

/-- A primary partition, and an extended one with two logical partitions. -/
def sampleLayout : Layout where
  slots := [
    .primary ⟨0x83, 4, 2, by decide, by decide, by decide⟩,
    .extended {
      kind := 0x05
      start := 1
      sectors := 3
      first := some ⟨0x83, 1, 1, by decide, by decide⟩
      rest := [⟨1, some ⟨0x07, 1, 1, by decide, by decide⟩⟩]
      kind_mem := by decide
      sectors_ne := by decide
      offset_ne := by decide
      length_lt := by decide },
    .empty,
    .empty]
  length_slots := rfl

/-- A disk of six sectors with this layout. -/
def sampleDisk : List UInt8 := sampleLayout.write (List.replicate 3072 0)

theorem sampleDisk_length : sampleDisk.length < 2^63 := by decide +kernel

/-- The layout is written on it. -/
theorem sampleDisk_onDisk : sampleLayout.OnDisk sampleDisk :=
  sampleLayout.onDisk_write (by decide +kernel) (by decide +kernel)

/-- Its partitions. -/
theorem sampleDisk_partitions :
    (rawRuns sampleDisk sampleDisk_length).outcome
      (readMbr (diskDriver noNbd sampleDisk.length) (sectorAt sampleDisk 0))
      (.ok [⟨0, 2048, 1024, "Linux (0x83)", .unknown, none⟩,
        ⟨1, 1024, 512, "Linux (0x83)", .unknown, none⟩,
        ⟨2, 1536, 512, "NTFS / exFAT / HPFS (0x07)", .unknown, none⟩]) :=
  (readMbr_layout (rawRuns_serves sampleDisk_length) sampleDisk_onDisk).1

end VmSpect.Detector
