import VmSpect.Vms.DiskReads
import VmSpect.Vms.Headers

/-!
# The storage formats are transparent

`Stored` says what it means that an image stores a disk `D`: as a raw file, as a text descriptor
whose extents hold consecutive parts of `D`, or as a monolithic sparse file. Whatever the way, the
image is identified with the size of `D`, is opened natively, and every read returns the bytes of
`D`, with zeros past its end (`storage_transparent`).
-/

namespace VmSpect

open Bytes Words UnixPath Vmdk

/-! ## The ways of storing a disk -/

/-- A file that exists, with its contents. -/
structure FileSystem.Has (fs : FileSystem) (path : Path) (bytes : List UInt8) : Prop where
  metadata : fs.metadata path = .ok bytes.length
  openRead : fs.openRead path = .ok bytes

/-- A file system with one file has it. -/
theorem FileSystem.single_has {path : Path} {bytes : List UInt8} (hbytes : bytes.length < 2^63) :
    (FileSystem.single path bytes hbytes).Has path bytes := by
  constructor
  · simp only [FileSystem.single, ↓reduceIte]
  · simp only [FileSystem.single, ↓reduceIte]

/-- The part of a disk that one extent of a text descriptor stores. -/
inductive StoresExtent (fs : FileSystem) (path : Path) : ExtentDescriptor → List UInt8 → Prop
  | zero {e : ExtentDescriptor} (hkind : e.kind = "ZERO".toList) :
    StoresExtent fs path e (List.replicate (e.sectors * sector) 0)
  | flat {e : ExtentDescriptor} {name : List Char} {file : List UInt8}
      (hkind : e.kind ∈ ["FLAT".toList, "VMFS".toList, "VMFSRAW".toList])
      (hname : e.file = some name) (hfile : fs.Has (resolveExtentPath path name) file)
      (hinside : e.offsetSectors * sector + e.sectors * sector ≤ file.length) :
    StoresExtent fs path e (slice file (e.offsetSectors * sector) (e.sectors * sector))
  | sparse {e : ExtentDescriptor} {name : List Char} {file D : List UInt8} {cab : SparseHeader}
      (hkind : e.kind ∈ ["SPARSE".toList, "VMFSSPARSE".toList])
      (hname : e.file = some name) (hfile : fs.Has (resolveExtentPath path name) file)
      (hheader : readSparseHeader (file.take 512) = .ok cab) (hlayout : SparseLayout file cab D)
      (hinside : e.sectors * sector ≤ D.length) :
    StoresExtent fs path e (D.take (e.sectors * sector))

/-- The descriptor inside a sparse file names no parent and at most one extent, whose file
exists. -/
structure EmbeddedStandalone (fs : FileSystem) (path : Path) (file : List UInt8)
    (cab : SparseHeader) : Prop where
  size_lt : cab.descriptorSectors * sector < 2^63
  offset_lt : cab.descriptorOffset * sector < 2^63
  noParent : (parseDescriptor (Text.fromUtf8Lossy (readOrZeros file (cab.descriptorOffset * sector)
    (cab.descriptorSectors * sector)))).hasParent = false
  extents_le : (parseDescriptor (Text.fromUtf8Lossy (readOrZeros file (cab.descriptorOffset * sector)
    (cab.descriptorSectors * sector)))).extents.length ≤ 1
  files : ∀ e ∈ (parseDescriptor (Text.fromUtf8Lossy (readOrZeros file
    (cab.descriptorOffset * sector) (cab.descriptorSectors * sector)))).extents,
    ∀ name, e.file = some name → ∃ bytes, fs.Has (resolveExtentPath path name) bytes

/-- The image at `path` stores the disk `D`. -/
inductive Stored (fs : FileSystem) (path : Path) (D : List UInt8) : Prop
  | raw (hfile : fs.Has path D) (hsignature : formatBySignature (D.take 1024) = none)
      (hextension : formatByExtension path = some .raw)
  | descriptor {file : List UInt8} {text : List Char} {parts : List (List UInt8)}
      (hfile : fs.Has path file) (hmagic : isTextDescriptor file = true)
      (htext : Text.fromUtf8 file = some text) (hparent : (parseDescriptor text).hasParent = false)
      (hparts : List.Forall₂ (StoresExtent fs path) (parseDescriptor text).extents parts)
      (hdisk : D = parts.flatten) (hsize : D.length < 2^64)
  | monolithicSparse {file : List UInt8} {cab : SparseHeader} (hfile : fs.Has path file)
      (hheader : readSparseHeader (file.take 512) = .ok cab) (hlayout : SparseLayout file cab D)
      (hembedded : (cab.descriptorOffset = 0 ∨ cab.descriptorSectors = 0) ∨
        EmbeddedStandalone fs path file cab)

/-- The directory of a sparse file lies after its first sector. -/
theorem Vmdk.SparseLayout.length_file {file : List UInt8} {cab : SparseHeader} {D : List UInt8}
    (h : SparseLayout file cab D) : 512 ≤ file.length := by
  have hinside := h.directory_inside
  have hoffset : 1 ≤ cab.directoryOffset := by
    have hsup := h.supported
    unfold SparseHeader.unsupportedReason at hsup
    split_ifs at hsup with hcompressed hdirectory
    unfold SparseHeader.directoryOffset
    split <;> omega
  rw [sector] at hinside
  omega

/-! ## Opening the components -/

variable {fs : FileSystem} {path : Path}

/-- A sparse component that stores `D` is opened as an extent that reads `D`. -/
theorem sparseExtent_open_spec (descriptorPath : Path) (name : List Char) {file D : List UInt8}
    {cab : SparseHeader} (hfile : fs.Has path file)
    (hheader : readSparseHeader (file.take 512) = .ok cab) (hlayout : SparseLayout file cab D)
    (componentType : String) :
    ∃ ext, (SparseExtent.open fs path descriptorPath name componentType).result =
        .ok (.native ext) ∧ ext.Holds D := by
  obtain ⟨ext, hopen, hholds⟩ := hlayout.fromHeader (fs.size_lt path file hfile.openRead)
  refine ⟨ext, ?_, hholds⟩
  have hread : readExact file 0 512 = .ok (file.take 512) := by
    rw [readExact_sound, if_pos (Or.inr (by have := hlayout.length_file; omega)), slice,
      List.drop_zero]
  unfold SparseExtent.open
  rw [openComponentFile_sound]
  dsimp only
  rw [hfile.openRead, Logged.bind_of_ok (a := file) rfl]
  dsimp only
  rw [hread, Logged.bind_of_ok (a := file.take 512) rfl]
  dsimp only
  rw [hheader, Logged.bind_of_ok (a := cab) rfl]
  dsimp only
  rw [Logged.result_mapError, hopen]
  rfl

/-- What an extent holds depends on the content below its length only. -/
theorem ExtentData.Serves.congr {data : ExtentData} {f g : ℕ → UInt8} {length : ℕ}
    (h : data.Serves f length) (hfg : ∀ p < length, g p = f p) : data.Serves g length := by
  cases data with
  | zero => exact fun p hp => (hfg p hp).trans (h p hp)
  | flat file base => exact ⟨h.1, h.2.1, fun p hp => (hfg p hp).trans (h.2.2 p hp)⟩
  | sparse extent =>
    obtain ⟨D, hholds, hbytes⟩ := h
    exact ⟨D, hholds, fun p hp => (hfg p hp).trans (hbytes p hp)⟩

/-- The part that an extent stores has the length that the descriptor gives. -/
theorem StoresExtent.length_part {e : ExtentDescriptor} {part : List UInt8}
    (h : StoresExtent fs path e part) : part.length = e.sectors * sector := by
  cases h with
  | zero hkind => rw [List.length_replicate]
  | flat hkind hname hfile hinside =>
    rw [length_slice]
    omega
  | sparse hkind hname hfile hheader hlayout hinside =>
    rw [List.length_take]
    omega

/-- An extent of a text descriptor is opened as one that reads its part. -/
theorem StoresExtent.openExtentData {e : ExtentDescriptor} {part : List UInt8}
    (h : StoresExtent fs path e part) :
    ∃ data, (openExtentData fs path e).result = .ok (.native data) ∧
      data.Serves (zeroExtended part) (e.sectors * sector) := by
  cases h with
  | zero hkind =>
    refine ⟨.zero, ?_, fun p hp => ?_⟩
    · rw [VmSpect.openExtentData, if_pos hkind]
      rfl
    · simp [zeroExtended, List.getD_eq_getElem?_getD, hp]
  -- The offset of the data in the file does not wrap, since the data lies in it.
  | @flat name file hkind hname hfile hinside =>
    have hzero : e.kind ≠ "ZERO".toList := by
      rintro heq
      rw [heq] at hkind
      revert hkind
      decide
    have hlen := fs.size_lt _ _ hfile.openRead
    refine ⟨.flat file (e.offsetSectors * sector), ?_, hlen, hinside, fun p hp => ?_⟩
    · rw [VmSpect.openExtentData, if_neg hzero, if_pos hkind, hname]
      dsimp only
      rw [openComponentFile_sound, hfile.openRead, Logged.bind_of_ok (a := file) rfl]
      dsimp only
      rw [Logged.bind_of_ok (Logged.result_mul _ _)]
      dsimp only
      rw [mulw_of_lt (by omega)]
      rfl
    · simp [zeroExtended, slice, List.getD_eq_getElem?_getD, hp]
  | @sparse name file D cab hkind hname hfile hheader hlayout hinside =>
    have hzero : e.kind ≠ "ZERO".toList := by
      rintro heq
      rw [heq] at hkind
      revert hkind
      decide
    -- The kinds are compared in order, and the kinds of the three branches differ.
    have hflat : e.kind ∉ ["FLAT".toList, "VMFS".toList, "VMFSRAW".toList] := by
      intro hmem
      simp only [List.mem_cons, List.not_mem_nil, or_false] at hmem hkind
      rcases hmem with heq | heq | heq <;> rw [heq] at hkind <;> revert hkind <;> decide
    obtain ⟨ext, hopen, hholds⟩ :=
      sparseExtent_open_spec path name hfile hheader hlayout "VMDK extent"
    refine ⟨.sparse ext, ?_, D, hholds, fun p hp => ?_⟩
    · rw [VmSpect.openExtentData, if_neg hzero, if_neg hflat, if_pos hkind, hname]
      dsimp only
      rw [Logged.bind_of_ok hopen]
      rfl
    · simp [zeroExtended, List.getD_eq_getElem?_getD, hp]

/-- A content at the end of a concatenation. -/
theorem zeroExtended_append_right (xs ys : List UInt8) (p : ℕ) :
    zeroExtended (xs ++ ys) (xs.length + p) = zeroExtended ys p := by
  rw [zeroExtended, zeroExtended, List.getD_eq_getElem?_getD, List.getD_eq_getElem?_getD,
    List.getElem?_append_right (Nat.le_add_right _ _), Nat.add_sub_cancel_left]

/-- A content at the front of a concatenation. -/
theorem zeroExtended_append_left {xs : List UInt8} (ys : List UInt8) {p : ℕ} (h : p < xs.length) :
    zeroExtended (xs ++ ys) p = zeroExtended xs p := by
  simp [zeroExtended, List.getD_eq_getElem?_getD, List.getElem?_append_left h]

/-- The loop over the extents, after those that hold the first `start` bytes of the disk. -/
theorem openExtents_spec {extents : List ExtentDescriptor} {parts : List (List UInt8)}
    (h : List.Forall₂ (StoresExtent fs path) extents parts) (before : List UInt8)
    (hsize : (before ++ parts.flatten).length < 2^64) (opened : List OpenExtent) :
    ∃ new, (openExtents fs path extents before.length opened).result =
        .ok (.native (opened ++ new)) ∧
      ExtentsServe (zeroExtended (before ++ parts.flatten)) before.length new ∧
      totalLength new = parts.flatten.length := by
  -- Over the extents, with the bytes of the disk that come before them.
  induction h generalizing before opened with
  | nil => exact ⟨[], by rw [openExtents, List.append_nil]; rfl, trivial, rfl⟩
  | @cons e part extents parts hpart _ ih =>
    have hlen := hpart.length_part
    simp only [List.flatten_cons, List.length_append] at hsize
    have hmul : mulw e.sectors sector = part.length := by rw [mulw_of_lt (by omega), hlen]
    obtain ⟨data, hopen, hserves⟩ := hpart.openExtentData
    obtain ⟨new, hnew, hserve, htotal⟩ := ih (before ++ part)
      (by simp only [List.length_append]; omega) (opened ++ [⟨before.length, part.length, data⟩])
    refine ⟨⟨before.length, part.length, data⟩ :: new, ?_, ⟨rfl, ?_, ?_⟩, ?_⟩
    · rw [openExtents_cons, Logged.bind_of_ok (Logged.result_mul _ _)]
      dsimp only
      rw [Logged.bind_of_ok hopen]
      dsimp only
      rw [Logged.bind_of_ok (Logged.result_add _ _)]
      dsimp only
      rw [hmul, addw_of_lt (by omega), ← List.length_append, hnew, List.append_assoc]
      rfl
    · rw [← hlen] at hserves
      refine hserves.congr fun p hp => ?_
      rw [zeroExtended_append_right, List.flatten_cons, zeroExtended_append_left _ hp]
    · rw [List.append_assoc, List.length_append] at hserve
      exact hserve
    · rw [totalLength] at htotal ⊢
      rw [List.map_cons, List.sum_cons, htotal, List.flatten_cons, List.length_append]

/-! ## The validation of the components -/

/-- Whether the components that a descriptor names are there, and no parent is among them. -/
structure Vmdk.Descriptor.Standalone (fs : FileSystem) (path : Path) (d : Descriptor) : Prop where
  noParent : d.hasParent = false
  files : ∀ e ∈ d.extents, e.kind ≠ "ZERO".toList → ∀ name, e.file = some name →
    ∃ bytes, fs.Has (resolveExtentPath path name) bytes

/-- A descriptor without a parent names none. -/
theorem Vmdk.Descriptor.Standalone.parentName {d : Descriptor} (h : d.Standalone fs path) :
    d.parentName = none := by
  have hnone := h.noParent
  rw [Descriptor.hasParent, Bool.or_eq_false_iff] at hnone
  exact Option.not_isSome_iff_eq_none.mp (by rw [hnone.1]; decide)

/-- The files of all extents are there. -/
theorem validateExtentPaths_ok {extents : List ExtentDescriptor}
    (h : ∀ e ∈ extents, e.kind ≠ "ZERO".toList → ∀ name, e.file = some name →
      ∃ bytes, fs.Has (resolveExtentPath path name) bytes) :
    validateExtentPaths fs path extents = .ok () := by
  induction extents with
  | nil => rfl
  | cons e rest ih =>
    have hrest := ih fun e' he' => h e' (List.mem_cons_of_mem e he')
    rw [validateExtentPaths]
    split
    · exact hrest
    · rename_i hkind
      split
      · exact hrest
      · rename_i name hname
        obtain ⟨bytes, hfile⟩ := h e List.mem_cons_self hkind name hname
        rw [ensureComponentExists_sound, hfile.metadata]
        exact hrest

/-- A standalone descriptor passes the validation. -/
theorem validateVmdkComponents_ok {file : List UInt8} {d : Option Descriptor}
    (hfile : fs.Has path file) (hcomponent : (componentDescriptor fs path file).result = .ok d)
    (hd : ∀ d' ∈ d, d'.Standalone fs path) :
    (validateVmdkComponents fs path).result = .ok () := by
  rw [validateVmdkComponents, validateVmdkComponentsInner_succ]
  dsimp only [openReferenced]
  rw [if_neg List.not_mem_nil, openMainImageFile_sound, hfile.openRead, Logged.bind_of_ok (a := file) rfl]
  dsimp only
  rw [Logged.bind_of_ok hcomponent]
  cases d with
  | none => rfl
  | some d =>
    have hstandalone := hd d rfl
    have hvalid : validateDescriptorComponents fs path d = .ok () := by
      rw [validateDescriptorComponents, validateParentReference, hstandalone.parentName]
      exact validateExtentPaths_ok hstandalone.files
    dsimp only
    rw [hvalid, Logged.bind_of_ok (a := ()) rfl]
    dsimp only
    rw [hstandalone.parentName]
    rfl

/-! ## Each way of storing a disk -/

/-- What opening and reading gives for a stored disk. -/
def Readable (ν : Type) (fs : FileSystem) (path : Path) (D : List UInt8) : Prop :=
  ∃ (info : ImageInfo) (backend : Backend ν) (mode : String),
    (identifyImage fs path).result = .ok info ∧ info.path = path ∧ info.virtualSize = D.length ∧
    (openNative fs info).result = .ok (.native (backend, mode)) ∧ backend.Serves D

variable {ν : Type} {D : List UInt8}

/-- A raw file. -/
theorem readable_raw (hfile : fs.Has path D) (hsignature : formatBySignature (D.take 1024) = none)
    (hextension : formatByExtension path = some .raw) : Readable ν fs path D := by
  refine ⟨⟨path, .raw, D.length, D.length, .unknown⟩, .raw D, "raw", ?_, rfl, rfl, ?_, rfl,
    fs.size_lt path D hfile.openRead⟩
  · rw [identifyImage_of_openRead hfile.openRead, identifyFormat]
    dsimp only
    rw [hsignature, hextension]
    rfl
  · rw [openNative]
    dsimp only
    rw [openMainImageFile_sound, hfile.openRead]
    rfl

/-- Once the components are validated, a VMDK is opened by what its header is. -/
theorem openNative_vmdk {file : List UInt8} {capacity actualSize : ℕ} {hypervisor : Hypervisor}
    (hfile : fs.Has path file) (hvalid : (validateVmdkComponents fs path).result = .ok ()) :
    (openNative fs ⟨path, .vmdk, capacity, actualSize, hypervisor⟩).result =
      (if isSparseHeader (file.take 512) then openMonolithicSparse file (file.take 512)
        else if isTextDescriptor (file.take 512) then openTextDescriptor fs path
        else pure (.needsNbd "VMDK with unrecognized header") :
        Logged (Stop VmSpectError) (OpenResult (Backend ν × String))).result := by
  rw [openNative]
  dsimp only
  rw [openVmdkNative_front, Logged.bind_of_ok hvalid]
  dsimp only
  rw [openMainImageFile_sound, hfile.openRead, Logged.bind_of_ok (a := file) rfl]

/-- The sectors of the extents of a descriptor add up to the disk. -/
theorem sum_sectors {extents : List ExtentDescriptor} {parts : List (List UInt8)}
    (h : List.Forall₂ (StoresExtent fs path) extents parts) :
    (extents.map (·.sectors)).sum * sector = parts.flatten.length := by
  induction h with
  | nil => rfl
  | cons hpart _ ih =>
    rw [List.map_cons, List.sum_cons, Nat.add_mul, ih, List.flatten_cons, List.length_append,
      hpart.length_part]

/-- The files of the extents that store a disk are there. -/
theorem files_of_forall₂ {extents : List ExtentDescriptor} {parts : List (List UInt8)}
    (h : List.Forall₂ (StoresExtent fs path) extents parts) :
    ∀ e ∈ extents, e.kind ≠ "ZERO".toList → ∀ name, e.file = some name →
      ∃ bytes, fs.Has (resolveExtentPath path name) bytes := by
  intro e he hkind name hname
  obtain ⟨part, hpart⟩ : ∃ part, StoresExtent fs path e part := by
    obtain ⟨i, hi, rfl⟩ := List.mem_iff_getElem.mp he
    exact ⟨_, List.Forall₂.get h hi (by rw [← h.length_eq]; exact hi)⟩
  cases hpart with
  | zero hzero => exact absurd hzero hkind
  | flat _ hname' hfile _ =>
    rw [hname', Option.some.injEq] at hname
    exact ⟨_, hname ▸ hfile⟩
  | sparse _ hname' hfile _ _ _ =>
    rw [hname', Option.some.injEq] at hname
    exact ⟨_, hname ▸ hfile⟩

/-- A text descriptor. -/
theorem readable_descriptor {file : List UInt8} {text : List Char} {parts : List (List UInt8)}
    (hfile : fs.Has path file) (hmagic : isTextDescriptor file = true)
    (htext : Text.fromUtf8 file = some text) (hparent : (parseDescriptor text).hasParent = false)
    (hparts : List.Forall₂ (StoresExtent fs path) (parseDescriptor text).extents parts)
    (hsize : parts.flatten.length < 2^64) (hnonempty : parts.flatten ≠ []) :
    Readable ν fs path parts.flatten := by
  have hread : fs.readToString path = .ok text := by
    rw [FileSystem.readToString_sound, hfile.openRead]
    dsimp only
    rw [htext]
  have hsum := sum_sectors hparts
  have hpos : 0 < parts.flatten.length := List.length_pos_iff.mpr hnonempty
  have hlen := length_of_isTextDescriptor hmagic
  have hsparse {n : ℕ} (hn : 64 ≤ n) : isSparseHeader (file.take n) = false := by
    rw [isSparseHeader_take (by omega), not_isSparseHeader hmagic]
  have htextual {n : ℕ} (hn : 64 ≤ n) : isTextDescriptor (file.take n) = true := by
    rw [isTextDescriptor_take hn, hmagic]
  have hformat : formatBySignature (file.take 1024) = some .vmdk := by
    rw [formatBySignature, if_neg (by rw [List.length_take]; omega),
      if_pos (Or.inr (htextual (by norm_num)))]
  -- The capacity is the sum of the sectors, in bytes.
  have hcapacity : (nativeVmdkCapacity fs path (file.take 1024)).result =
      .ok (some parts.flatten.length) := by
    rw [nativeVmdkCapacity, if_neg (by rw [hsparse (by norm_num)]; decide),
      if_pos (htextual (by norm_num)), hread]
    dsimp only [Except.toOption, Option.getD]
    rw [Logged.bind_of_ok (Logged.result_sum 0 _ (by rw [sector] at hsum; omega))]
    dsimp only
    rw [Nat.zero_add, if_pos (by rw [sector] at hsum; omega),
      Logged.bind_of_ok (Logged.result_mul _ _)]
    dsimp only
    rw [mulw_of_lt (by omega), hsum]
    rfl
  have hvalid : (validateVmdkComponents fs path).result = .ok () := by
    refine validateVmdkComponents_ok (d := some (parseDescriptor text)) hfile ?_ ?_
    · rw [componentDescriptor_sound, if_neg (by rw [hsparse (by norm_num)]; decide),
        if_pos (htextual (by norm_num)), hread]
      rfl
    · rintro d ⟨⟩
      exact ⟨hparent, files_of_forall₂ hparts⟩
  have hextents : (parseDescriptor text).extents ≠ [] := by
    intro hnil
    rw [hnil, List.map_nil, List.sum_nil] at hsum
    omega
  obtain ⟨extents, hopen, hserve, htotal⟩ := openExtents_spec hparts [] hsize []
  rw [List.length_nil, List.nil_append] at hopen
  have hnative : ∃ mode, (openTextDescriptor fs path).result =
      .ok (.native ((.extents extents : Backend ν), mode)) := by
    apply Exists.intro
    rw [openTextDescriptor, hread, Logged.bind_of_ok (a := text) rfl]
    dsimp only
    rw [if_neg (by rw [hparent]; decide), if_neg hextents, Logged.bind_of_ok hopen]
    rfl
  obtain ⟨mode, hnative⟩ := hnative
  obtain ⟨_, hinfo⟩ := identifyImage_vmdk hfile.openRead hformat hcapacity
  refine ⟨_, .extents extents, mode, hinfo, rfl, rfl, ?_,
    hserve, htotal, hsize⟩
  rw [openNative_vmdk hfile hvalid, if_neg (by rw [hsparse (by norm_num)]; decide),
    if_pos (htextual (by norm_num)), hnative]

/-- The descriptor inside a sparse file is absent, or stands alone with at most one extent. -/
theorem embeddedDescriptor_spec {file : List UInt8} {cab : SparseHeader}
    (h : (cab.descriptorOffset = 0 ∨ cab.descriptorSectors = 0) ∨
      EmbeddedStandalone fs path file cab) :
    ∃ d, (embeddedDescriptor file cab).result = .ok d ∧
      ∀ d' ∈ d, d'.Standalone fs path ∧ d'.extents.length ≤ 1 := by
  rw [embeddedDescriptor_sound]
  split
  · exact ⟨none, rfl, by simp⟩
  · rename_i hpresent
    have hstandalone := h.resolve_left hpresent
    have hsize := hstandalone.size_lt
    have hoffset := hstandalone.offset_lt
    refine ⟨some (parseDescriptor (Text.fromUtf8Lossy (readOrZeros file
      (cab.descriptorOffset * sector) (cab.descriptorSectors * sector)))), ?_, ?_⟩
    · rw [Logged.bind_of_ok (Logged.result_mul _ _)]
      dsimp only
      rw [mulw_of_lt (by omega), if_neg (by rw [maxVecLen]; omega),
        Logged.bind_of_ok (Logged.result_mul _ _)]
      dsimp only
      rw [mulw_of_lt (by omega), seekFile, if_pos hoffset, Logged.bind_of_ok (a := ()) rfl]
      rfl
    · rintro d ⟨⟩
      exact ⟨⟨hstandalone.noParent, fun e he _ => hstandalone.files e he⟩, hstandalone.extents_le⟩

/-- A monolithic sparse file. -/
theorem readable_monolithicSparse {file : List UInt8} {cab : SparseHeader} (hfile : fs.Has path file)
    (hheader : readSparseHeader (file.take 512) = .ok cab) (hlayout : SparseLayout file cab D)
    (hembedded : (cab.descriptorOffset = 0 ∨ cab.descriptorSectors = 0) ∨
      EmbeddedStandalone fs path file cab) : Readable ν fs path D := by
  have hread : readSparseHeader file = .ok cab := by
    rw [← hheader, readSparseHeader_take (by norm_num)]
  obtain ⟨hmagic, hlen⟩ := of_readSparseHeader hread
  have hsparse {n : ℕ} (hn : 80 ≤ n) : isSparseHeader (file.take n) = true := by
    rw [isSparseHeader_take (by omega), hmagic]
  have hformat : formatBySignature (file.take 1024) = some .vmdk := by
    rw [formatBySignature, if_neg (by rw [List.length_take]; omega),
      if_pos (Or.inl (hsparse (by norm_num)))]
  -- The capacity in the header is the size of the disk.
  have hcapacity : (nativeVmdkCapacity fs path (file.take 1024)).result = .ok (some D.length) := by
    rw [nativeVmdkCapacity, if_pos (hsparse (by norm_num)), readSparseHeader_take (by norm_num), hread,
      Logged.bind_of_ok (a := cab) rfl]
    dsimp only
    rw [Logged.bind_of_ok (Logged.result_mul _ _)]
    dsimp only
    rw [mulw_of_lt (by rw [hlayout.capacity]; exact hlayout.size_lt), hlayout.capacity]
    rfl
  obtain ⟨extent, hopen, hholds⟩ := hlayout.fromHeader (fs.size_lt path file hfile.openRead)
  obtain ⟨d, hembed, hd⟩ := embeddedDescriptor_spec hembedded
  -- The validation reads the descriptor in the file, and finds nothing missing.
  have hcomponent : (componentDescriptor fs path file).result = .ok d := by
    rw [componentDescriptor_sound, if_pos (hsparse (by norm_num)), hheader,
      Logged.bind_of_ok (a := cab) rfl]
    exact hembed
  obtain ⟨_, hinfo⟩ := identifyImage_vmdk hfile.openRead hformat hcapacity
  refine ⟨_, .sparse extent, "vmdk monolithicSparse", hinfo, rfl, rfl, ?_, hholds⟩
  rw [openNative_vmdk hfile (validateVmdkComponents_ok hfile hcomponent fun d' hd' => (hd d' hd').1),
    if_pos (hsparse (by norm_num)), openMonolithicSparse, hheader, Logged.bind_of_ok (a := cab) rfl]
  dsimp only
  rw [Logged.bind_of_ok hembed]
  dsimp only
  -- Neither a parent nor a second extent makes the reader give it to NBD.
  have hparent : d.any (·.hasParent) = false := by
    rw [Option.any_eq_false]
    exact fun d' hd' => by rw [(hd d' hd').1.noParent]
  have hone : d.any (fun d => 1 < d.extents.length) = false := by
    rw [Option.any_eq_false]
    exact fun d' hd' => by simpa using (hd d' hd').2
  rw [hparent, if_neg (by decide), hone, if_neg (by decide), Logged.bind_of_ok (a := .native extent)
    (by rw [Logged.result_mapError, hopen]; rfl)]
  rfl

/-- Whatever way a disk is stored in, the image is identified with its size, opens natively, and a
sequence of reads returns its bytes, with zeros past its end. -/
theorem storage_transparent {fs : FileSystem} {path : Path} {D : List UInt8} (h : Stored fs path D)
    (hD : D ≠ []) {ν : Type} (nbd : NbdApi ν) :
    ∃ (info : ImageInfo) (backend : Backend ν) (mode : String) (reader : DiskReader ν),
      (identifyImage fs path).result = .ok info ∧ info.virtualSize = D.length ∧
      (openNative fs info).result = .ok (.native (backend, mode)) ∧
      (DiskReader.openDirect fs info).result = .ok reader ∧
      ∀ reads : List (ℕ × ℕ), reader.fillAll nbd reads =
        reads.map fun (offset, len) => .ok (window (zeroExtended D) offset len) := by
  have hreadable : Readable ν fs path D := by
    cases h with
    | raw hfile hsignature hextension => exact readable_raw hfile hsignature hextension
    | descriptor hfile hmagic htext hparent hparts hdisk hsize =>
      subst hdisk
      exact readable_descriptor hfile hmagic htext hparent hparts hsize hD
    | monolithicSparse hfile hheader hlayout hembedded =>
      exact readable_monolithicSparse hfile hheader hlayout hembedded
  obtain ⟨info, backend, mode, hidentify, -, hsize, hopen, hserves⟩ := hreadable
  let reader : DiskReader ν :=
    ⟨backend, info.virtualSize, .opened info.path s!"direct-read ({mode})"⟩
  have hreader : reader.Serves D := ⟨hserves, hsize⟩
  refine ⟨info, backend, mode, reader, hidentify, hsize, hopen, ?_, hreader.fillAll nbd⟩
  rw [DiskReader.openDirect, Logged.bind_of_ok hopen]
  rfl

/-! ## A descriptor with two extents -/

/-- A descriptor with a part of zeros and a part from the second sector of a file on. -/
def sampleText : List Char :=
  ("# Disk DescriptorFile\nversion=1\nparentCID=ffffffff\ncreateType=\"custom\"\n" ++
    "RW 1 ZERO\nRW 2 FLAT \"d.bin\" 1\n").toList

/-- The bytes of the descriptor. -/
def sampleDescriptor : List UInt8 := sampleText.map fun c => UInt8.ofNat c.toNat

/-- The file of the second extent. -/
def sampleBytes : List UInt8 := List.replicate 512 1 ++ List.replicate 1024 7

theorem length_sampleBytes : sampleBytes.length = 1536 := by
  rw [sampleBytes, List.length_append, List.length_replicate, List.length_replicate]

/-- The disk that the descriptor stores. -/
def sampleDisk : List UInt8 := List.replicate 512 0 ++ List.replicate 1024 7

theorem length_sampleDisk : sampleDisk.length = 1536 := by
  rw [sampleDisk, List.length_append, List.length_replicate, List.length_replicate]

/-- The path of the descriptor. -/
def samplePath : Path := Path.ofText "vm/d.vmdk".toList

/-- The two files. -/
def sampleFiles (path : Path) : Except IoError (List UInt8) :=
  if path = samplePath then .ok sampleDescriptor
  else if path = Path.ofText "vm/d.bin".toList then .ok sampleBytes
  else .error ⟨.notFound, "No such file or directory (os error 2)"⟩

/-- A file system with the two files. -/
def sampleFs : FileSystem where
  metadata path := (sampleFiles path).map List.length
  openRead := sampleFiles
  canonicalize := some
  size_lt := by
    intro path bytes h
    unfold sampleFiles at h
    split_ifs at h
    · cases h
      have hlen : sampleDescriptor.length < 2^63 := by decide +kernel
      exact hlen
    · cases h
      rw [length_sampleBytes]
      norm_num

/-- A file of the sample file system. -/
theorem sampleFs_has {path : Path} {bytes : List UInt8} (h : sampleFiles path = .ok bytes) :
    sampleFs.Has path bytes := by
  refine ⟨?_, h⟩
  show (sampleFiles path).map List.length = _
  rw [h, Except.map]

/-- The sample descriptor stores the sample disk. -/
theorem sample_stored : Stored sampleFs samplePath sampleDisk := by
  have hextents : (parseDescriptor sampleText).extents =
      [⟨"RW".toList, 1, "ZERO".toList, none, 0⟩,
        ⟨"RW".toList, 2, "FLAT".toList, some "d.bin".toList, 1⟩] := by decide +kernel
  have hfile : sampleFs.Has samplePath sampleDescriptor := sampleFs_has rfl
  have htext : Text.fromUtf8 sampleDescriptor = some sampleText := by decide +kernel
  have hdata : sampleFs.Has (resolveExtentPath samplePath "d.bin".toList) sampleBytes :=
    sampleFs_has rfl
  have hpart : slice sampleBytes (1 * sector) (2 * sector) = List.replicate 1024 7 := by
    rw [slice, sampleBytes, List.drop_left' (by rw [List.length_replicate]; rfl),
      List.take_of_length_le (by rw [List.length_replicate]; decide)]
  have hflat : StoresExtent sampleFs samplePath
      ⟨"RW".toList, 2, "FLAT".toList, some "d.bin".toList, 1⟩ (List.replicate 1024 7) := by
    rw [← hpart]
    exact .flat (by decide) rfl hdata (by rw [length_sampleBytes]; decide)
  have hparts : List.Forall₂ (StoresExtent sampleFs samplePath) (parseDescriptor sampleText).extents
      [List.replicate 512 0, List.replicate 1024 7] := by
    rw [hextents]
    exact .cons (.zero rfl) (.cons hflat .nil)
  have hdisk : sampleDisk = [List.replicate 512 0, List.replicate 1024 7].flatten := by
    rw [sampleDisk, List.flatten_cons, List.flatten_cons, List.flatten_nil, List.append_nil]
  exact .descriptor hfile (by decide +kernel) htext (by decide +kernel) hparts hdisk
    (by rw [length_sampleDisk]; norm_num)

/-- The sample disk is read through its descriptor. -/
theorem storage_transparent_sample :
    Stored sampleFs samplePath sampleDisk ∧ sampleDisk ≠ [] ∧
    ∃ (info : ImageInfo) (backend : Backend Unit) (mode : String) (reader : DiskReader Unit),
      (identifyImage sampleFs samplePath).result = .ok info ∧ info.virtualSize = sampleDisk.length ∧
      (openNative sampleFs info).result = .ok (.native (backend, mode)) ∧
      (DiskReader.openDirect sampleFs info).result = .ok reader ∧
      ∀ reads : List (ℕ × ℕ),
        reader.fillAll ⟨fun _ => 0, fun _ _ _ => ((), .ok [])⟩ reads =
          reads.map fun (offset, len) => .ok (window (zeroExtended sampleDisk) offset len) :=
  have hnonempty : sampleDisk ≠ [] := List.ne_nil_of_length_eq_add_one length_sampleDisk
  ⟨sample_stored, hnonempty, storage_transparent sample_stored hnonempty _⟩

end VmSpect
