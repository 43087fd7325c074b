import VmSpect.Vms.Preflight
import VmSpect.Vms.ExtentReads

/-!
# The size that is reported for a VMDK

`identify_image` and `open_vmdk_native` each parse a VMDK for themselves: one computes a size from
it, the other opens a backend. `DiskReader::read_range` cuts a read off at the size. The size is the
capacity of the backend if the image declares one, and a read then serves exactly the requested
positions that the backend maps (`identifyImage_reports_capacity`). For a descriptor whose extents
are all empty, the size is that of the descriptor file, and a read serves zeros.

A read changes the tables that are loaded, and neither the capacity of a sparse extent nor the
places of the extents of a list.
-/

namespace VmSpect

open Bytes Words Vmdk UnixPath

/-! ## What a read of one extent keeps -/

namespace Vmdk.SparseExtent

/-- Looking a table up may load it, and changes nothing else. -/
theorem table_keeps (ext : SparseExtent) (i : ℕ) :
    ∃ tables, (ext.table i).1 = { ext with tables } := by
  unfold table
  split
  · exact ⟨ext.tables, rfl⟩
  split_ifs
  · exact ⟨ext.tables, rfl⟩
  split
  · exact ⟨ext.tables, rfl⟩
  split
  · exact ⟨ext.tables, rfl⟩
  split
  · exact ⟨ext.tables, rfl⟩
  · exact ⟨_, rfl⟩

/-- A part of a grain has the length that was asked for. -/
theorem length_grainPart {ext : SparseExtent} {place within n : ℕ} {part : List UInt8}
    (h : ext.grainPart place within n = .ok part) : part.length = n := by
  unfold grainPart at h
  split_ifs at h
  · cases hseek : seekFile (addw (mulw place sector) within) with
    | error e =>
      rw [hseek] at h
      cases h
    | ok _ =>
      rw [hseek] at h
      cases h
      exact length_window _ _ _
  · cases h
    exact List.length_replicate

/-- The loop of `read_at` loads tables only, and fills the buffer without changing its length. -/
theorem readGrains_keeps (offset total : ℕ) (ext : SparseExtent) (done : ℕ) (buf : List UInt8)
    (htotal : total ≤ buf.length) :
    ∃ tables, (readGrains offset total ext done buf).1 = { ext with tables } ∧
      ∀ r, (readGrains offset total ext done buf).2 = .ok r →
        r.1 = total ∧ r.2.length = buf.length := by
  induction hleft : total - done using Nat.strong_induction_on generalizing ext done buf with
  | _ left ih =>
    subst hleft
    rw [readGrains]
    split
    · rename_i hlt
      dsimp only
      have hwithin := Nat.mod_lt (addw offset done) ext.grainBytes_pos
      generalize hn : min (ext.grainBytes - addw offset done % ext.grainBytes) (total - done) = n
      obtain ⟨tables, htables⟩ :=
        ext.table_keeps (addw offset done / ext.grainBytes / ext.gtesPerGt % 2^32)
      cases htable : ext.table (addw offset done / ext.grainBytes / ext.gtesPerGt % 2^32) with
      | mk ext' found =>
        rw [htable] at htables
        dsimp only at htables
        subst htables
        cases found with
        | error e => exact ⟨tables, rfl, fun r h => by cases h⟩
        | ok table =>
          dsimp only
          split
          · exact ⟨tables, rfl, fun r h => by cases h⟩
          · rename_i part hpart
            -- The part lies in the buffer, so that the rest of the loop finds a buffer as long.
            have hlength := length_grainPart hpart
            have hwrite : (writeAt buf done part).length = buf.length :=
              length_writeAt (by omega)
            obtain ⟨tables', hrest, hresult⟩ := ih (total - (done + n)) (by omega)
              { ext with tables } (done + n) (writeAt buf done part) (by omega) rfl
            rw [hwrite] at hresult
            exact ⟨tables', hrest, hresult⟩
    · refine ⟨ext.tables, rfl, fun r h => ?_⟩
      cases h
      exact ⟨rfl, rfl⟩

/-- `read_at` loads tables only, and fills the buffer as far as the capacity goes. -/
theorem readAt_keeps (ext : SparseExtent) (offset : ℕ) (buf : List UInt8) :
    ∃ tables, (ext.readAt offset buf).1 = { ext with tables } ∧
      ∀ r, (ext.readAt offset buf).2 = .ok r →
        r.1 = min buf.length (ext.capacityBytes - offset) ∧ r.2.length = buf.length := by
  unfold readAt
  split_ifs with hpast
  · refine ⟨ext.tables, rfl, fun r h => ?_⟩
    cases h
    exact ⟨by omega, rfl⟩
  · exact readGrains_keeps offset _ ext 0 buf (Nat.min_le_left _ _)

end Vmdk.SparseExtent

/-- What is read of an extent has the length that was asked for. -/
theorem ExtentData.length_readAt {data : ExtentData} {within n : ℕ} {part : List UInt8}
    (h : (data.readAt within n).2 = .ok part) : part.length = n := by
  cases data with
  | zero =>
    cases h
    exact List.length_replicate
  | flat file base =>
    rw [readAt] at h
    cases hseek : seekFile (addw base within) with
    | error e =>
      rw [hseek] at h
      cases h
    | ok _ =>
      rw [hseek] at h
      cases h
      exact length_window _ _ _
  | sparse extent =>
    obtain ⟨-, -, hresult⟩ := extent.readAt_keeps within (List.replicate n 0)
    rw [readAt] at h
    cases hread : extent.readAt within (List.replicate n 0) with
    | mk extent' result =>
      rw [hread] at h hresult
      cases result with
      | error e => cases h
      | ok r =>
        obtain ⟨hread, hbuffer⟩ := hresult r rfl
        rw [List.length_replicate] at hread hbuffer
        cases h
        rw [List.length_append, List.length_take, List.length_replicate]
        omega

/-! ## What a read of a list of extents keeps -/

/-- Where an extent stands: its start and its length. -/
def OpenExtent.place (e : OpenExtent) : ℕ × ℕ := (e.start, e.length)

/-- The extent that is found is one of the list. -/
theorem findExtent_eq_some {pos : ℕ} {extents before after : List OpenExtent}
    {hit : { e : OpenExtent // e.covers pos = true }}
    (h : findExtent pos extents = some (before, hit, after)) :
    extents = before ++ hit.1 :: after := by
  induction extents generalizing before with
  | nil => cases h
  | cons e rest ih =>
    rw [findExtent] at h
    split_ifs at h
    · cases h
      rfl
    · obtain ⟨⟨before', hit', after'⟩, hfind, heq⟩ := Option.map_eq_some_iff.mp h
      cases heq
      rw [List.cons_append, ← ih hfind]

/-- The loop over the extents keeps their places, and the length of the buffer. -/
theorem readFromExtentsLoop_keeps (offset len : ℕ) (extents : List OpenExtent) (done : ℕ)
    (buf : List UInt8) (hbuf : buf.length = len) :
    (readFromExtentsLoop offset len extents done buf).1.map (·.place) = extents.map (·.place) ∧
      ∀ data, (readFromExtentsLoop offset len extents done buf).2 = .ok data →
        data.length = len := by
  induction hleft : len - done using Nat.strong_induction_on generalizing extents done buf with
  | _ left ih =>
    subst hleft
    rw [readFromExtentsLoop]
    split
    · rename_i hlt
      split
      · refine ⟨rfl, fun data h => ?_⟩
        cases h
        exact hbuf
      · rename_i before hit hcovers after hfind
        dsimp only
        have hlist := findExtent_eq_some hfind
        have hwithin := OpenExtent.within_lt hcovers
        generalize hn : min (hit.length - (addw offset done - hit.start)) (len - done) = n
        -- The extent is replaced by one at the same place.
        have hplaces : ∀ data, (before ++ { hit with data } :: after).map (·.place) =
            extents.map (·.place) := by
          intro data
          rw [hlist, List.map_append, List.map_append, List.map_cons, List.map_cons]
          rfl
        split
        · exact ⟨hplaces _, fun data h => by cases h⟩
        · rename_i data part hread
          have hlength : part.length = n := ExtentData.length_readAt (by rw [hread])
          obtain ⟨hrest, hresult⟩ := ih (len - (done + n)) (by omega)
            (before ++ { hit with data } :: after) (done + n) (writeAt buf done part)
            (by rw [length_writeAt (by omega), hbuf]) rfl
          exact ⟨hrest.trans (hplaces data), hresult⟩
    · refine ⟨rfl, fun data h => ?_⟩
      cases h
      exact hbuf

/-- Extents that are all empty cover nothing. -/
theorem findExtent_of_empty {extents : List OpenExtent} (h : totalLength extents = 0) (pos : ℕ) :
    findExtent pos extents = none := by
  induction extents with
  | nil => rfl
  | cons e rest ih =>
    rw [totalLength_cons] at h
    have hcovers : ¬e.covers pos = true := by
      intro hcovers
      have hwithin := OpenExtent.within_lt hcovers
      omega
    rw [findExtent, dif_neg hcovers, ih (by omega)]
    rfl

/-- So a read of them is a gap, which is left as zeros. -/
theorem readFromExtents_of_empty {extents : List OpenExtent} (h : totalLength extents = 0)
    (offset len : ℕ) :
    readFromExtents extents offset len = (extents, .ok (List.replicate len 0)) := by
  rw [readFromExtents, readFromExtentsLoop, findExtent_of_empty h]
  split <;> rfl

/-! ## What a read of a reader keeps -/

variable {ν : Type}

/-- The capacity of a native backend: that of the sparse extent, or the lengths of the extents. -/
def Backend.capacity : Backend ν → ℕ
  | .raw file => file.length
  | .sparse extent => extent.capacityBytes
  | .extents parts => totalLength parts
  | .nbd _ => 0

/-- The positions that a native backend maps: those below the capacity of the sparse extent, or
those that an extent of the list covers. -/
def Backend.Maps : Backend ν → ℕ → Prop
  | .raw file, p => p < file.length
  | .sparse extent, p => p < extent.capacityBytes
  | .extents parts, p => ∃ e ∈ parts, e.covers p = true
  | .nbd _, _ => False

/-- A backend of a VMDK that maps the positions below `size`, as many as its capacity. -/
structure Backend.Spans (backend : Backend ν) (size : ℕ) : Prop where
  vmdk : (∃ extent, backend = .sparse extent) ∨ ∃ parts, backend = .extents parts
  capacity_eq : backend.capacity = size
  maps_iff : ∀ p, backend.Maps p ↔ p < size

/-- The capacity of a list of extents and what it covers depend on the places of the extents. -/
theorem extents_of_places {parts parts' : List OpenExtent}
    (h : parts'.map (·.place) = parts.map (·.place)) :
    totalLength parts' = totalLength parts ∧
      ∀ p, (∃ e ∈ parts', e.covers p = true) ↔ ∃ e ∈ parts, e.covers p = true := by
  have hlengths : parts'.map (·.length) = parts.map (·.length) := by
    have hsnd := congrArg (List.map Prod.snd) h
    rwa [List.map_map, List.map_map] at hsnd
  have hcovers : ∀ p, parts'.map (·.covers p) = parts.map (·.covers p) := by
    intro p
    have hcover := congrArg
      (List.map fun place : ℕ × ℕ => place.1 ≤ p && p < addw place.1 place.2) h
    rwa [List.map_map, List.map_map] at hcover
  refine ⟨by rw [totalLength, totalLength, hlengths], fun p => ?_⟩
  rw [← List.mem_map, ← List.mem_map, hcovers p]

/-- A read inside of the capacity keeps what a backend spans, and returns as many bytes as were
asked for. -/
theorem Backend.Spans.readRange {backend : Backend ν} {size : ℕ} (h : backend.Spans size)
    (nbd : NbdApi ν) {offset len : ℕ} (hinside : offset + len ≤ size) :
    (backend.readRange nbd offset len).1.Spans size ∧
      ∀ data, (backend.readRange nbd offset len).2 = .ok data → data.length = len := by
  obtain ⟨⟨extent, rfl⟩ | ⟨parts, rfl⟩, hcapacity, hmaps⟩ := h
  · obtain ⟨tables, htables, hresult⟩ := extent.readAt_keeps offset (List.replicate len 0)
    rw [Backend.readRange]
    cases hread : extent.readAt offset (List.replicate len 0) with
    | mk extent' result =>
      rw [hread] at htables hresult
      dsimp only at htables
      subst htables
      have hspans : (Backend.sparse { extent with tables } : Backend ν).Spans size :=
        ⟨Or.inl ⟨_, rfl⟩, hcapacity, hmaps⟩
      cases result with
      | error e => exact ⟨hspans, fun data h => by cases h⟩
      | ok r =>
        obtain ⟨hread, hbuffer⟩ := hresult r rfl
        rw [List.length_replicate] at hread hbuffer
        rw [Backend.capacity] at hcapacity
        refine ⟨hspans, fun data h => ?_⟩
        cases h
        rw [List.length_take]
        omega
  · obtain ⟨hplaces, hresult⟩ := readFromExtentsLoop_keeps offset len parts 0 (List.replicate len 0)
      List.length_replicate
    obtain ⟨htotal, hcovers⟩ := extents_of_places hplaces
    refine ⟨⟨Or.inr ⟨_, rfl⟩, htotal.trans hcapacity, fun p => (hcovers p).trans (hmaps p)⟩, ?_⟩
    exact hresult

namespace DiskReader

/-- The reader after a sequence of reads, each with what the load of the token says, an offset and a
length. -/
def afterRanges (nbd : NbdApi ν) (reader : DiskReader ν) : List (Bool × ℕ × ℕ) → DiskReader ν
  | [] => reader
  | (cancelled, offset, len) :: rest =>
    (reader.readRange nbd cancelled offset len).1.afterRanges nbd rest

/-- What is kept by every step of the reader is kept by a run. -/
theorem afterRanges_keeps (nbd : NbdApi ν) (Keeps : DiskReader ν → Prop)
    (hstep : ∀ reader cancelled offset len, Keeps reader →
      Keeps (reader.readRange nbd cancelled offset len).1)
    {reader : DiskReader ν} (h : Keeps reader) (reads : List (Bool × ℕ × ℕ)) :
    Keeps (reader.afterRanges nbd reads) := by
  induction reads generalizing reader with
  | nil => exact h
  | cons read rest ih => exact ih (hstep reader read.1 read.2.1 read.2.2 h)

/-- The size of a reader is the capacity of its backend, after any reads, and the bytes that a read
returns are those of the requested positions that the backend maps. -/
def SizeAgrees (nbd : NbdApi ν) (reader : DiskReader ν) : Prop :=
  ∀ earlier, (reader.afterRanges nbd earlier).virtualSize =
      (reader.afterRanges nbd earlier).backend.capacity ∧
    ∀ offset len data,
      ((reader.afterRanges nbd earlier).readRange nbd false offset len).2 = .ok data →
      ∀ p, (offset ≤ p ∧ p < offset + data.length) ↔
        (offset ≤ p ∧ p < offset + len) ∧ (reader.afterRanges nbd earlier).backend.Maps p

/-- Reads return zeros, up to the size of the reader. -/
def ServesZeros (nbd : NbdApi ν) (reader : DiskReader ν) : Prop :=
  ∀ earlier offset len, ((reader.afterRanges nbd earlier).readRange nbd false offset len).2 =
    .ok (List.replicate (min len (reader.virtualSize - offset)) 0)

/-- A reader whose size is what its backend spans. -/
structure Spans (reader : DiskReader ν) (size : ℕ) : Prop where
  virtualSize_eq : reader.virtualSize = size
  backend : reader.backend.Spans size

/-- A read keeps the size and what the backend spans, and returns what is left of the request. -/
theorem Spans.readRange {reader : DiskReader ν} {size : ℕ} (h : reader.Spans size) (nbd : NbdApi ν)
    (cancelled : Bool) (offset len : ℕ) :
    (reader.readRange nbd cancelled offset len).1.Spans size ∧
      ∀ data, (reader.readRange nbd cancelled offset len).2 = .ok data →
        data.length = min len (size - offset) := by
  obtain ⟨rfl, hbackend⟩ := h
  unfold DiskReader.readRange
  by_cases hcancelled : cancelled = true
  · rw [if_pos hcancelled]
    exact ⟨⟨rfl, hbackend⟩, fun data hdata => by cases hdata⟩
  rw [if_neg hcancelled]
  by_cases hnone : reader.virtualSize ≤ offset ∨ len = 0
  · rw [if_pos hnone]
    refine ⟨⟨rfl, hbackend⟩, fun data hdata => ?_⟩
    cases hdata
    rw [List.length_nil]
    omega
  rw [if_neg hnone]
  -- What is left of the request lies in the backend.
  obtain ⟨hspans, hresult⟩ := hbackend.readRange nbd
    (show offset + min len (reader.virtualSize - offset) ≤ reader.virtualSize by omega)
  dsimp only
  cases hread : reader.backend.readRange nbd offset (min len (reader.virtualSize - offset)) with
  | mk backend result =>
    rw [hread] at hspans hresult
    cases result with
    | error e => exact ⟨⟨rfl, hspans⟩, fun data hdata => by cases hdata⟩
    | ok bytes =>
      refine ⟨⟨rfl, hspans⟩, fun data hdata => ?_⟩
      cases hdata
      exact hresult bytes rfl

/-- So a reader of that size serves what its backend maps, in every state that reads lead to. -/
theorem Spans.sizeAgrees {reader : DiskReader ν} {size : ℕ} (h : reader.Spans size)
    (nbd : NbdApi ν) : reader.SizeAgrees nbd := by
  intro earlier
  have hafter : (reader.afterRanges nbd earlier).Spans size :=
    afterRanges_keeps nbd (·.Spans size) (fun reader cancelled offset len hreader =>
      (hreader.readRange nbd cancelled offset len).1) h earlier
  refine ⟨hafter.virtualSize_eq.trans hafter.backend.capacity_eq.symm, ?_⟩
  intro offset len data hdata p
  have hlength := (hafter.readRange nbd false offset len).2 data hdata
  rw [hafter.backend.maps_iff p]
  omega

/-- A reader whose extents are all empty answers every read with the zeros of a gap. -/
theorem servesZeros_of_empty {reader : DiskReader ν} {parts : List OpenExtent}
    (hbackend : reader.backend = .extents parts) (hempty : totalLength parts = 0)
    (nbd : NbdApi ν) : reader.ServesZeros nbd := by
  have hstep : ∀ (r : DiskReader ν) cancelled offset len,
      r.backend = .extents parts ∧ r.virtualSize = reader.virtualSize →
      ((r.readRange nbd cancelled offset len).1.backend = .extents parts ∧
        (r.readRange nbd cancelled offset len).1.virtualSize = reader.virtualSize) ∧
      (cancelled = false → (r.readRange nbd cancelled offset len).2 =
        .ok (List.replicate (min len (reader.virtualSize - offset)) 0)) := by
    intro r cancelled offset len hkept
    obtain ⟨hparts, hsize⟩ := hkept
    unfold DiskReader.readRange
    by_cases hcancelled : cancelled = true
    · rw [if_pos hcancelled]
      exact ⟨⟨hparts, hsize⟩, fun hno => absurd hcancelled (by rw [hno]; decide)⟩
    rw [if_neg hcancelled, hsize]
    by_cases hnone : reader.virtualSize ≤ offset ∨ len = 0
    · have hleft : min len (reader.virtualSize - offset) = 0 := by omega
      rw [if_pos hnone, hleft]
      exact ⟨⟨hparts, hsize⟩, fun _ => rfl⟩
    · rw [if_neg hnone, hparts, Backend.readRange, readFromExtents_of_empty hempty]
      exact ⟨⟨rfl, rfl⟩, fun _ => rfl⟩
  intro earlier offset len
  have hafter := afterRanges_keeps nbd
    (fun r => r.backend = .extents parts ∧ r.virtualSize = reader.virtualSize)
    (fun r cancelled offset len hkept => (hstep r cancelled offset len hkept).1)
    ⟨hbackend, rfl⟩ earlier
  exact (hstep _ false offset len hafter).2 rfl

end DiskReader

/-! ## The size and the backend of a VMDK -/

variable {fs : FileSystem} {path : Path} {file : List UInt8} {text : List Char}

/-- Extents one after the other from zero on cover the positions below their total length. -/
theorem ExtentsPlaced.covered_iff {P : ExtentSpec} {f : ℕ → UInt8} {parts : List OpenExtent}
    (h : ExtentsPlaced P f 0 parts) (hend : totalLength parts < 2^64) (p : ℕ) :
    (∃ e ∈ parts, e.covers p = true) ↔ p < totalLength parts := by
  constructor
  · rintro ⟨e, he, hcovers⟩
    obtain ⟨-, hin, -⟩ := h.of_mem he
    have hto := ((e.covers_iff (by omega) p).mp hcovers).2
    omega
  · intro hp
    obtain ⟨before, hit, after, hfind, -⟩ :=
      findExtent_spec p h (by omega) (Nat.zero_le p) (by omega)
    refine ⟨hit.1, ?_, hit.2⟩
    rw [findExtent_eq_some hfind]
    exact List.mem_append_right before List.mem_cons_self

/-- The total length of the extents of a descriptor, when it fits. -/
theorem totalLength_of_sectors {descriptors : List ExtentDescriptor} {parts : List OpenExtent}
    (h : parts.map (·.length) = descriptors.map (fun e => mulw e.sectors sector))
    (hfits : (descriptors.map (·.sectors)).sum * sector < 2^64) :
    totalLength parts = (descriptors.map (·.sectors)).sum * sector := by
  rw [totalLength, h]
  clear h
  induction descriptors with
  | nil => rfl
  | cons e rest ih =>
    rw [List.map_cons, List.sum_cons, Nat.add_mul] at hfits
    rw [List.map_cons, List.sum_cons, List.map_cons, List.sum_cons, Nat.add_mul, ih (by omega),
      mulw_of_lt (by omega)]

/-- The capacity that is read from the header of a sparse file. -/
theorem nativeVmdkCapacity_sparse {cab : SparseHeader} (hsparse : isSparseHeader file = true)
    (hcab : readSparseHeader file = .ok cab) :
    (nativeVmdkCapacity fs path (file.take 1024)).result =
      .ok (some (mulw cab.capacitySectors sector)) := by
  unfold nativeVmdkCapacity
  rw [isSparseHeader_take (by norm_num), if_pos hsparse, readSparseHeader_take (by norm_num), hcab]
  rfl

/-- The capacity that is read from a descriptor: that of its extents, unless they are all empty. -/
theorem nativeVmdkCapacity_text (hsparse : isSparseHeader file = false)
    (htext : isTextDescriptor file = true) (hread : fs.readToString path = .ok text)
    (hfits : ((parseDescriptor text).extents.map (·.sectors)).sum * sector < 2^64) :
    (nativeVmdkCapacity fs path (file.take 1024)).result =
      .ok (if 0 < ((parseDescriptor text).extents.map (·.sectors)).sum then
        some (((parseDescriptor text).extents.map (·.sectors)).sum * sector) else none) := by
  unfold nativeVmdkCapacity
  rw [isSparseHeader_take (by norm_num), isTextDescriptor_take (by norm_num), hsparse,
    if_neg Bool.false_ne_true, if_pos htext, hread]
  show (Logged.sum ((parseDescriptor text).extents.map (·.sectors)) 0 >>= _).result = _
  generalize ((parseDescriptor text).extents.map (·.sectors)) = sectors at hfits ⊢
  have hsum : 0 + sectors.sum < 2^64 := by
    unfold sector at hfits
    omega
  rw [Logged.bind_of_ok (Logged.result_sum 0 sectors hsum), Nat.zero_add]
  split_ifs
  · rw [Logged.result_mul_bind]
    dsimp only
    rw [mulw_of_lt hfits]
    rfl
  · rfl

/-- The image declares a capacity: it is a sparse file, whose header does, or a descriptor with an
extent that is not empty. -/
def DeclaresCapacity (file : List UInt8) : Prop :=
  isSparseHeader file = true ∨ ∃ text, Text.fromUtf8 file = some text ∧
    ∃ e ∈ (parseDescriptor text).extents, 0 < e.sectors

/-- The reader of an image that was identified as a VMDK and that is read directly. -/
theorem DiskReader.openDirect_vmdk {backend : Backend ν} {mode : String} {info : ImageInfo}
    (hpath : info.path = path) (hformat : info.format = .vmdk)
    (h : (openVmdkNative fs path).result = .ok (.native (backend, mode))) :
    (DiskReader.openDirect fs info).result =
      .ok ⟨backend, info.virtualSize, .opened path s!"direct-read ({mode})"⟩ := by
  have hnative : (openNative fs info).result = .ok (.native (backend, mode)) := by
    rw [openNative, hformat, hpath]
    exact h
  rw [DiskReader.openDirect, Logged.bind_of_ok hnative, hpath]
  rfl

/-- A descriptor declares a capacity when its extents have sectors in all. -/
theorem declaresCapacity_text (hsparse : isSparseHeader file = false)
    (hutf8 : Text.fromUtf8 file = some text) :
    DeclaresCapacity file ↔ 0 < ((parseDescriptor text).extents.map (·.sectors)).sum := by
  have hsome : (∃ e ∈ (parseDescriptor text).extents, 0 < e.sectors) ↔
      0 < ((parseDescriptor text).extents.map (·.sectors)).sum := by
    rw [List.sum_pos_iff_exists_pos_nat]
    simp
  rw [← hsome, DeclaresCapacity, hsparse, hutf8]
  simp

/-- For a VMDK that is read directly, the size that is reported is the capacity of the backend if
the image declares one, and then reads serve exactly the requested positions that the backend maps.
If it declares none, the backend is empty, the size is that of the file, and reads serve zeros. -/
theorem identifyImage_reports_capacity (nbd : NbdApi ν) {backend : Backend ν} {mode : String}
    (hopen : fs.openRead path = .ok file)
    (hnative : (openVmdkNative fs path).result = .ok (.native (backend, mode)))
    (hfits : CapacityFits file) :
    ∃ info reader, (identifyImage fs path).result = .ok info ∧
      (DiskReader.openDirect fs info).result = .ok reader ∧
      reader.backend = backend ∧ reader.virtualSize = info.virtualSize ∧
      (DeclaresCapacity file →
        info.virtualSize = backend.capacity ∧ reader.SizeAgrees nbd) ∧
      (¬DeclaresCapacity file → info.virtualSize = file.length ∧ backend.capacity = 0 ∧
        (∀ p, ¬backend.Maps p) ∧ reader.ServesZeros nbd) := by
  obtain ⟨file', hfile', hkind⟩ := openVmdkNative_native hnative
  rw [hopen] at hfile'
  obtain rfl := Except.ok.inj hfile'
  rcases hkind with ⟨cab, extent, hsparse, hcab, hextent, rfl⟩ |
    ⟨text, parts, hsparse, htext, hread, hparts, rfl⟩
  · -- A sparse file: both read the same header.
    have hopened := SparseExtent.opened hextent
    have hlen := (of_readSparseHeader hcab).2
    obtain ⟨actualSize, hinfo⟩ := identifyImage_vmdk hopen
      (formatBySignature_vmdk (by omega) (Or.inl hsparse)) (nativeVmdkCapacity_sparse hsparse hcab)
    have hdeclares : DeclaresCapacity file := Or.inl hsparse
    have hspans : (Backend.sparse extent : Backend ν).Spans (mulw cab.capacitySectors sector) :=
      ⟨Or.inl ⟨extent, rfl⟩, hopened.capacity_eq, fun p => by rw [Backend.Maps, hopened.capacity_eq]⟩
    refine ⟨_, _, hinfo, DiskReader.openDirect_vmdk rfl rfl hnative, rfl, rfl, fun _ => ?_,
      fun hno => absurd hdeclares hno⟩
    exact ⟨hopened.capacity_eq.symm, DiskReader.Spans.sizeAgrees ⟨rfl, hspans⟩ nbd⟩
  · -- A descriptor: both parse the same text, and multiply its sectors.
    have hutf8 := (readToString_eq_ok hopen).mp hread
    have hsectors := hfits.2 htext text hutf8
    obtain ⟨actualSize, hinfo⟩ := identifyImage_vmdk hopen
      (formatBySignature_vmdk (length_of_isTextDescriptor htext) (Or.inr htext))
      (nativeVmdkCapacity_text hsparse htext hread hsectors)
    obtain ⟨new, hnew, hlengths, hsound⟩ := openExtents_sound hparts
    rw [List.nil_append] at hnew
    subst hnew
    have htotal := totalLength_of_sectors hlengths hsectors
    rw [declaresCapacity_text hsparse hutf8]
    refine ⟨_, _, hinfo, DiskReader.openDirect_vmdk rfl rfl hnative, rfl, rfl, ?_, ?_⟩
    · intro hpos
      have hspans : (Backend.extents parts : Backend ν).Spans
          (((parseDescriptor text).extents.map (·.sectors)).sum * sector) := by
        refine ⟨Or.inr ⟨parts, rfl⟩, htotal, fun p => ?_⟩
        rw [Backend.Maps, (hsound (by omega)).covered_iff (by omega) p, htotal]
      rw [if_pos hpos]
      exact ⟨htotal.symm, DiskReader.Spans.sizeAgrees ⟨rfl, hspans⟩ nbd⟩
    · intro hzero
      have hempty : totalLength parts = 0 := by
        rw [htotal, Nat.eq_zero_of_not_pos hzero, Nat.zero_mul]
      rw [if_neg hzero]
      refine ⟨rfl, hempty, fun p hmaps => ?_, DiskReader.servesZeros_of_empty rfl hempty nbd⟩
      have hp := ((hsound (by omega)).covered_iff (by omega) p).mp hmaps
      omega

/-! ## A descriptor of one extent of zeros -/

/-- The descriptor of an extent of zeros, of as many sectors as the digit says. -/
def zeroText (sectors : Char) : List Char :=
  "# Disk DescriptorFile\nRW ".toList ++ [sectors] ++ " ZERO\n".toList

/-- The file that holds it. -/
def zeroFile (sectors : Char) : List UInt8 := (zeroText sectors).map fun c => UInt8.ofNat c.toNat

theorem length_zeroFile (sectors : Char) : (zeroFile sectors).length = 32 := by
  have hhead : "# Disk DescriptorFile\nRW ".toList.length = 25 := by decide
  have htail : " ZERO\n".toList.length = 6 := by decide
  unfold zeroFile zeroText
  simp only [List.length_map, List.length_append, List.length_singleton, hhead, htail]

/-- A file system with that file only. -/
def zeroFs (sectors : Char) : FileSystem where
  metadata _ := .ok 32
  openRead _ := .ok (zeroFile sectors)
  canonicalize := some
  size_lt := by
    rintro path bytes ⟨⟩
    rw [length_zeroFile]
    norm_num

/-- The path of the image. -/
def zeroPath : Path := Path.ofText "d.vmdk".toList

/-- An image of two sectors is opened. -/
theorem zero_opens : (openVmdkNative (zeroFs '2') zeroPath).result =
    .ok (.native ((Backend.extents [⟨0, 1024, .zero⟩] : Backend Unit), "vmdk 1 extents")) := by
  with_unfolding_all rfl

/-- So is one of none. -/
theorem empty_opens : (openVmdkNative (zeroFs '0') zeroPath).result =
    .ok (.native ((Backend.extents [⟨0, 0, .zero⟩] : Backend Unit), "vmdk 1 extents")) := by
  with_unfolding_all rfl

/-- The capacity of a descriptor with this text fits when its sectors do. -/
theorem capacityFits_text (hsparse : isSparseHeader file = false)
    (hutf8 : Text.fromUtf8 file = some text)
    (hfits : ((parseDescriptor text).extents.map (·.sectors)).sum * sector < 2^64) :
    CapacityFits file := by
  refine ⟨fun cab hcab => ?_, fun _ text' htext' => ?_⟩
  · rw [(of_readSparseHeader hcab).1] at hsparse
    cases hsparse
  · rw [hutf8] at htext'
    obtain rfl := Option.some.inj htext'
    exact hfits

/-- Its capacity does not wrap. -/
theorem zero_fits : CapacityFits (zeroFile '2') :=
  capacityFits_text (by decide) (by with_unfolding_all rfl : _ = some (zeroText '2'))
    (by decide +kernel)

/-- Nor does that of the empty extent. -/
theorem empty_fits : CapacityFits (zeroFile '0') :=
  capacityFits_text (by decide) (by with_unfolding_all rfl : _ = some (zeroText '0'))
    (by decide +kernel)

/-- The image of two sectors. -/
theorem zero_reports_capacity :
    ∃ info reader, (identifyImage (zeroFs '2') zeroPath).result = .ok info ∧
      (DiskReader.openDirect (zeroFs '2') info).result = .ok reader ∧
      reader.backend = .extents [⟨0, 1024, .zero⟩] ∧ reader.virtualSize = info.virtualSize ∧
      info.virtualSize = 1024 ∧ reader.SizeAgrees noSessions := by
  have hutf8 : Text.fromUtf8 (zeroFile '2') = some (zeroText '2') := by with_unfolding_all rfl
  have hdeclares : DeclaresCapacity (zeroFile '2') :=
    (declaresCapacity_text (by decide) hutf8).mpr (by decide +kernel)
  obtain ⟨info, reader, hinfo, hreader, hbackend, hsize, hdeclared, -⟩ :=
    identifyImage_reports_capacity noSessions rfl zero_opens zero_fits
  exact ⟨info, reader, hinfo, hreader, hbackend, hsize, hdeclared hdeclares⟩

/-- The size of an image whose only extent is empty is that of its descriptor, and a read serves a
byte that no extent backs. -/
theorem empty_reports_file :
    (openVmdkNative (zeroFs '0') zeroPath).result =
        .ok (.native ((Backend.extents [⟨0, 0, .zero⟩] : Backend Unit), "vmdk 1 extents")) ∧
      CapacityFits (zeroFile '0') ∧
      ∃ info reader, (identifyImage (zeroFs '0') zeroPath).result = .ok info ∧
        info.virtualSize = 32 ∧
        (DiskReader.openDirect (zeroFs '0') info).result = .ok reader ∧
        reader.backend = (Backend.extents [⟨0, 0, .zero⟩] : Backend Unit) ∧
        reader.backend.capacity = 0 ∧ (∀ p, ¬reader.backend.Maps p) ∧
        (reader.readRange noSessions false 0 1).2 = .ok [0] := by
  refine ⟨empty_opens, empty_fits, ⟨zeroPath, .vmdk, 32, 32, .vmware⟩,
    ⟨.extents [⟨0, 0, .zero⟩], 32, .opened zeroPath "direct-read (vmdk 1 extents)"⟩, ?_, rfl, ?_, rfl,
    rfl, ?_, ?_⟩
  · with_unfolding_all rfl
  · with_unfolding_all rfl
  · rintro p ⟨e, he, hcovers⟩
    rw [List.mem_singleton] at he
    subst he
    have hwithin : p - 0 < 0 := OpenExtent.within_lt hcovers
    omega
  · exact DiskReader.servesZeros_of_empty rfl rfl noSessions [] 0 1

end VmSpect
