import VmSpect.Vms.Headers
import VmSpect.Vms.SparseReads
import VmSpect.Vms.Stream

/-!
# The arithmetic on the geometry of a VMDK

Identifying and opening a VMDK computes with fields that the image gives. The computation is careful
when every product, sum and quotient of it has its mathematical value, or the image is refused.
`GeometryHandled` is the condition on the files under which it is careful: the products fit 64 bits,
or one of the checks that the code does make refuses the image. Along the way the products that were
computed so far are collected in a proposition `fits`.
-/

namespace VmSpect

open Bytes Words UnixPath Vmdk

variable {ν α β ε : Type}

/-- The result of opening an image that is an error or asks for the external backend. -/
def Rejected : Except (Stop VmSpectError) (OpenResult α) → Prop
  | .error (.error _) => True
  | .error .panic => False
  | .ok (.needsNbd _) => True
  | .ok (.native _) => False

/-- An image is identified and opened. -/
def identifyAndOpen (ν : Type) (fs : FileSystem) (path : Path) :
    Logged (Stop VmSpectError) (OpenResult (Backend ν × String)) := do
  let info ← (identifyImage fs path).mapError (.map fun e =>
    if e.kind = .notFound then .imageNotFound path.display else .io e)
  openNative fs info

/-- All arithmetic is exact, or the image is refused. -/
def GeometryExact (fs : FileSystem) (path : Path) : Prop :=
  Rejected (identifyAndOpen Unit fs path).result ∨
    ∀ op ∈ (identifyAndOpen Unit fs path).ops, op.Exact

/-! ## The condition on the files -/

namespace Vmdk.SparseHeader

/-- The bytes that one grain table covers, as 64 bits keep them. -/
def wrappedTable (h : SparseHeader) : ℕ := h.grainSectors * sector * h.gtesPerGt % 2^64

/-- The number of grain tables, from the sizes as 64 bits keep them. -/
def wrappedCount (h : SparseHeader) : ℕ :=
  (h.capacitySectors * sector % 2^64 + h.wrappedTable - 1) / h.wrappedTable

/-- The place of the directory, as 64 bits keep it. -/
def wrappedStart (h : SparseHeader) : ℕ := h.directoryOffset * sector % 2^64

/-- The sizes of a sparse extent fit 64 bits. -/
structure Fits (h : SparseHeader) : Prop where
  table : h.grainSectors * sector * h.gtesPerGt < 2^64
  capacity : h.capacitySectors * sector < 2^64
  directory : h.directoryOffset * sector < 2^64

/-- A sparse extent is refused by its header, by the number of its tables or by the place of its
directory, or else its sizes fit and `k` holds of what follows. In no case is the table size
zero. -/
def Handled (h : SparseHeader) (file : List UInt8) (fits : Prop) (k : Prop → Prop) : Prop :=
  h.unsupportedReason ≠ none ∨
    (h.wrappedTable ≠ 0 ∧
      (2^20 < h.wrappedCount ∨ 2^63 ≤ h.wrappedStart ∨
        (h.wrappedCount ≠ 0 ∧ file.length < h.wrappedStart + h.wrappedCount * 4) ∨
        k (fits ∧ h.Fits)))

/-- The descriptor inside a sparse file is absent, is longer than a vector can be, lies where no
seek goes, or is read. -/
def DescriptorHandled (h : SparseHeader) (file : List UInt8) (fits : Prop)
    (k : Option Descriptor → Prop → Prop) : Prop :=
  if h.descriptorOffset = 0 ∨ h.descriptorSectors = 0 then k none fits
  else if maxVecLen < h.descriptorSectors * sector % 2^64 then
    fits ∧ h.descriptorSectors * sector < 2^64
  else 2^63 ≤ h.descriptorOffset * sector % 2^64 ∨
    k (some (parseDescriptor (Text.fromUtf8Lossy (readOrZeros file
        (h.descriptorOffset * sector % 2^64) (h.descriptorSectors * sector % 2^64)))))
      ((fits ∧ h.descriptorSectors * sector < 2^64) ∧ h.descriptorOffset * sector < 2^64)

end Vmdk.SparseHeader

/-- The files that a descriptor names are there. -/
structure Vmdk.Descriptor.Present (fs : FileSystem) (path : Path) (d : Descriptor) : Prop where
  parent : ∀ name, d.parentName = some name →
    ∃ size, fs.metadata (resolveExtentPath path name) = .ok size
  extents : ∀ e ∈ d.extents, e.kind ≠ "ZERO".toList → ∀ name, e.file = some name →
    ∃ size, fs.metadata (resolveExtentPath path name) = .ok size

/-- The descriptor of a VMDK file, inside of it or as its text. -/
def ComponentHandled (file : List UInt8) (fits : Prop) (k : Option Descriptor → Prop → Prop) : Prop :=
  if isSparseHeader file then
    ∀ cab, readSparseHeader file = .ok cab → cab.DescriptorHandled file fits k
  else if isTextDescriptor file then
    ∀ text, Text.fromUtf8 file = some text → k (some (parseDescriptor text)) fits
  else k none fits

/-- The chain of parents: its walk ends with an error, or at a file without a parent. -/
def ParentsHandled (fs : FileSystem) (k : Prop → Prop) : ℕ → Path → List Path → Prop → Prop
  | 0, _, _, _ => True
  | left + 1, path, visited, fits =>
    let identity := (fs.canonicalize path).getD path
    identity ∉ visited → ∀ file, fs.openRead path = .ok file →
      ComponentHandled file fits fun d fits =>
        match d with
        | none => k fits
        | some d => d.Present fs path →
          match d.parentName with
          | none => k fits
          | some name =>
            ParentsHandled fs k left (resolveExtentPath path name) (identity :: visited) fits

/-- The file of an extent. -/
def extentFile (fs : FileSystem) (path : Path) (e : ExtentDescriptor) : Option (List UInt8) :=
  e.file.bind fun name => (fs.openRead (resolveExtentPath path name)).toOption

/-- The extents of a text descriptor: one of them is refused, or the sizes of all of them fit. -/
def ExtentsHandled (fs : FileSystem) (path : Path) : List ExtentDescriptor → Prop → Prop
  | [], fits => fits
  | e :: rest, fits =>
    if e.kind = "ZERO".toList then ExtentsHandled fs path rest fits
    else if e.kind ∈ ["FLAT".toList, "VMFS".toList, "VMFSRAW".toList] then
      ∀ file, extentFile fs path e = some file →
        ExtentsHandled fs path rest (fits ∧ e.offsetSectors * sector < 2^64)
    else if e.kind ∈ ["SPARSE".toList, "VMFSSPARSE".toList] then
      ∀ file, extentFile fs path e = some file → 512 ≤ file.length →
        ∀ cab, readSparseHeader file = .ok cab →
          cab.Handled file fits fun fits => ExtentsHandled fs path rest fits
    else True

/-- Opening a VMDK whose components are there. -/
def OpenHandled (fs : FileSystem) (path : Path) (file : List UInt8) (fits : Prop) : Prop :=
  if isSparseHeader file then
    ∀ cab, readSparseHeader file = .ok cab → cab.DescriptorHandled file fits fun d fits =>
      d.any (·.hasParent) ∨ d.any (fun d => 1 < d.extents.length) ∨ cab.Handled file fits id
  else if isTextDescriptor file then
    ∀ text, Text.fromUtf8 file = some text → (parseDescriptor text).hasParent ∨
      (parseDescriptor text).extents = [] ∨ ExtentsHandled fs path (parseDescriptor text).extents fits
  else True

/-- The capacity of a VMDK fits 64 bits. -/
def CapacityFits (file : List UInt8) : Prop :=
  (∀ cab, readSparseHeader file = .ok cab → cab.capacitySectors * sector < 2^64) ∧
    (isTextDescriptor file → ∀ text, Text.fromUtf8 file = some text →
      ((parseDescriptor text).extents.map (·.sectors)).sum * sector < 2^64)

/-- An image whose geometry is handled exactly or refused. -/
def GeometryHandled (fs : FileSystem) (path : Path) : Prop :=
  ∀ file, fs.openRead path = .ok file →
    ParentsHandled fs (OpenHandled fs path file) (maxVmdkParentDepth + 1) path [] (CapacityFits file)

/-! ## Each function under the condition -/

/-- When a seek succeeds. -/
theorem seekFile_eq_ok {pos : ℕ} {a : Unit} : seekFile pos = .ok a ↔ pos < 2^63 := by
  rw [seekFile_sound]
  split
  · rename_i hlt
    exact iff_of_true rfl hlt
  · rename_i hge
    exact iff_of_false (by simp) hge

/-- When a read of a given length succeeds, and what it returns. -/
theorem readExact_eq_ok {file bytes : List UInt8} {pos len : ℕ} : readExact file pos len = .ok bytes ↔
    (len = 0 ∨ pos + len ≤ file.length) ∧ slice file pos len = bytes := by
  rw [readExact_sound]
  split <;> simp [*]

/-- `read_to_string` of the file that is open. -/
theorem readToString_eq_ok {fs : FileSystem} {path : Path} {file : List UInt8} {text : List Char}
    (hfile : fs.openRead path = .ok file) :
    fs.readToString path = .ok text ↔ Text.fromUtf8 file = some text := by
  rw [FileSystem.readToString_sound, hfile]
  dsimp only
  split <;> simp [*]

/-- When all files that a descriptor names are there. -/
theorem validateExtentPaths_eq_ok {fs : FileSystem} {path : Path} {extents : List ExtentDescriptor}
    {a : Unit} : validateExtentPaths fs path extents = .ok a ↔
      ∀ e ∈ extents, e.kind ≠ "ZERO".toList → ∀ name, e.file = some name →
        ∃ size, fs.metadata (resolveExtentPath path name) = .ok size := by
  induction extents with
  | nil => simp [validateExtentPaths]
  | cons e rest ih =>
    rw [validateExtentPaths, List.forall_mem_cons]
    split
    · rename_i hkind
      rw [ih]
      simp [hkind]
    · rename_i hkind
      split
      · rename_i hname
        rw [ih]
        simp [hname]
      · rename_i name hname
        simp only [hname, Option.some.injEq, forall_eq', ne_eq, hkind, not_false_eq_true, true_imp_iff]
        rw [ensureComponentExists_sound]
        -- The file is looked up by name, and the rest of the extents after it.
        cases hmeta : fs.metadata (resolveExtentPath path name) with
        | error e => simp [Except.map, Except.mapError, bind, Except.bind]
        | ok size =>
          rw [← ih]
          simp [Except.map, Except.mapError, bind, Except.bind]

/-- `validate_descriptor_components`. -/
theorem validateDescriptorComponents_eq_ok {fs : FileSystem} {path : Path} {d : Descriptor}
    {a : Unit} : validateDescriptorComponents fs path d = .ok a ↔ d.Present fs path := by
  rw [validateDescriptorComponents, validateParentReference]
  cases hparent : d.parentName with
  | none =>
    show validateExtentPaths fs path d.extents = .ok a ↔ _
    rw [validateExtentPaths_eq_ok]
    exact ⟨fun h => ⟨by simp [hparent], h⟩, fun h => h.extents⟩
  | some name =>
    dsimp only
    rw [ensureComponentExists_sound]
    cases hmeta : fs.metadata (resolveExtentPath path name) with
    | error e =>
      refine iff_of_false (by simp [Except.map, Except.mapError, bind, Except.bind]) fun h => ?_
      obtain ⟨size, hsize⟩ := h.parent name hparent
      rw [hmeta] at hsize
      cases hsize
    | ok size =>
      show validateExtentPaths fs path d.extents = .ok a ↔ _
      rw [validateExtentPaths_eq_ok]
      refine ⟨fun h => ⟨fun name' hname' => ?_, h⟩, fun h => h.extents⟩
      rw [hparent, Option.some.injEq] at hname'
      exact ⟨size, hname' ▸ hmeta⟩

/-- When the file of an extent can be opened. -/
theorem extentFile_eq_some {fs : FileSystem} {path : Path} {e : ExtentDescriptor} {name : List Char}
    (hname : e.file = some name) {file : List UInt8} : extentFile fs path e = some file ↔
      fs.openRead (resolveExtentPath path name) = .ok file := by
  rw [extentFile, hname, Option.bind_some]
  cases fs.openRead (resolveExtentPath path name) <;> simp [Except.toOption]

section Careful

variable {refused : Except (Stop ε) β → Prop} {fits : Prop}

/-- The products of a header are those of the sizes. -/
theorem Vmdk.SparseHeader.mulw_table (h : SparseHeader) :
    mulw (mulw h.grainSectors sector) h.gtesPerGt = h.wrappedTable := by
  rw [mulw, mulw, Nat.mod_mul_mod, wrappedTable]

/-- The products of a supported header fit one by one when its sizes fit. -/
theorem Vmdk.SparseHeader.fits_iff {h : SparseHeader} (hsup : h.unsupportedReason = none) :
    ((((fits ∧ h.grainSectors * sector < 2^64) ∧
      mulw h.grainSectors sector * h.gtesPerGt < 2^64) ∧ h.capacitySectors * sector < 2^64) ∧
      h.directoryOffset * sector < 2^64) ↔ fits ∧ h.Fits := by
  have hgtes : 0 < h.gtesPerGt := (SparseHeader.pos_of_supported hsup).2.1
  constructor
  · rintro ⟨⟨⟨⟨hfits, hgrain⟩, htable⟩, hcapacity⟩, hdirectory⟩
    rw [mulw_of_lt hgrain] at htable
    exact ⟨hfits, htable, hcapacity, hdirectory⟩
  · rintro ⟨hfits, htable, hcapacity, hdirectory⟩
    have hgrain : h.grainSectors * sector < 2^64 :=
      lt_of_le_of_lt (Nat.le_mul_of_pos_right _ hgtes) htable
    exact ⟨⟨⟨⟨hfits, hgrain⟩, by rwa [mulw_of_lt hgrain]⟩, hcapacity⟩, hdirectory⟩

/-- `from_header`, with what follows it. -/
theorem careful_fromHeader_bind {file : List UInt8} {cab : SparseHeader} {g : IoError → ε}
    (herror : ∀ e, refused (.error (.error (g e)))) (hpanic : ¬ refused (.error .panic))
    {f : OpenResult SparseExtent → Logged (Stop ε) β} {k : Prop → Prop}
    (hneeds : ∀ reason fits, Logged.Careful refused fits (f (.needsNbd reason)))
    (hnative : ∀ ext, Logged.Careful refused (fits ∧ cab.Fits) (f (.native ext)) ↔
      k (fits ∧ cab.Fits)) :
    Logged.Careful refused fits ((SparseExtent.fromHeader file cab).mapError (.map g) >>= f) ↔
      cab.Handled file fits k := by
  unfold SparseExtent.fromHeader SparseHeader.Handled
  cases hsup : cab.unsupportedReason with
  | some reason =>
    dsimp only
    rw [Logged.mapError_pure, pure_bind]
    simp [hneeds]
  | none =>
    dsimp only
    -- The three products of the geometry, and the division by the size of a table.
    rw [Logged.mapError_bind, Logged.mapError_mul, bind_assoc, Logged.careful_mul_bind]
    dsimp only
    rw [Logged.mapError_bind, Logged.mapError_mul, bind_assoc, Logged.careful_mul_bind]
    dsimp only
    rw [Logged.mapError_bind, Logged.mapError_mul, bind_assoc, Logged.careful_mul_bind]
    dsimp only
    rw [Logged.mapError_bind, Logged.mapError_divCeil, bind_assoc,
      show Stop.map g .panic = .panic from rfl, Logged.careful_divCeil_bind hpanic]
    rw [ne_self_iff_false, false_or]
    refine Iff.trans (b := ∃ _ : mulw (mulw cab.grainSectors sector) cab.gtesPerGt ≠ 0,
      2^20 < cab.wrappedCount ∨ 2^63 ≤ cab.wrappedStart ∨
      (cab.wrappedCount ≠ 0 ∧ file.length < cab.wrappedStart + cab.wrappedCount * 4) ∨
        k (fits ∧ cab.Fits))
      (exists_congr fun htable => ?_) (by rw [exists_prop, cab.mulw_table])
    dsimp only
    simp only [cab.mulw_table]
    rw [show (mulw cab.capacitySectors sector + cab.wrappedTable - 1) / cab.wrappedTable =
      cab.wrappedCount from rfl]
    -- Too many tables are left to NBD before the directory is read.
    by_cases hcount : 2^20 < cab.wrappedCount
    · rw [if_pos hcount, Logged.mapError_pure, pure_bind]
      simp only [hneeds, hcount, true_or]
    · rw [if_neg hcount, Logged.mapError_bind, Logged.mapError_mul, bind_assoc,
        Logged.careful_mul_bind, Logged.careful_congr (cab.fits_iff hsup)]
      dsimp only
      -- The directory is looked for and read; both may fail, which refuses the image.
      have hrefused : ∀ e, refused (.error ((Stop.map g ∘ Stop.error) e)) := herror
      rw [Logged.mapError_bind, Logged.mapError_ofExcept, bind_assoc,
        Logged.careful_ofExcept_bind hrefused]
      simp only [seekFile_eq_ok, forall_const, Logged.mapError_bind, Logged.mapError_ofExcept,
        bind_assoc, Logged.careful_ofExcept_bind hrefused, readExact_eq_ok, Logged.mapError_pure,
        pure_bind, hnative]
      rw [show mulw cab.directoryOffset sector = cab.wrappedStart from rfl]
      constructor
      · intro h
        by_cases hseek : cab.wrappedStart < 2^63
        · by_cases hread : cab.wrappedCount * 4 = 0 ∨
            cab.wrappedStart + cab.wrappedCount * 4 ≤ file.length
          · exact Or.inr (Or.inr (Or.inr (h hseek _ ⟨hread, rfl⟩)))
          · exact Or.inr (Or.inr (Or.inl (by omega)))
        · exact Or.inr (Or.inl (by omega))
      · rintro (h | h | h | h) hseek bytes ⟨hread, -⟩
        · exact absurd h hcount
        · omega
        · omega
        · exact h

variable {path : Path} {fs : FileSystem} {file : List UInt8}
  {refused : Except (Stop VmSpectError) β → Prop} (herror : ∀ e, refused (.error (.error e)))
  (hpanic : ¬ refused (.error .panic))

include herror hpanic

/-- The descriptor inside a sparse file, with what follows it. -/
theorem careful_embeddedDescriptor_bind {cab : SparseHeader}
    {f : Option Descriptor → Logged (Stop VmSpectError) β} {k : Option Descriptor → Prop → Prop}
    (hf : ∀ d fits', (fits' → fits) → (Logged.Careful refused fits' (f d) ↔ k d fits')) :
    Logged.Careful refused fits (embeddedDescriptor file cab >>= f) ↔
      cab.DescriptorHandled file fits k := by
  rw [embeddedDescriptor_sound, SparseHeader.DescriptorHandled]
  split
  · rw [pure_bind, hf none fits id]
  · rw [bind_assoc, Logged.careful_mul_bind]
    dsimp only
    rw [show mulw cab.descriptorSectors sector = cab.descriptorSectors * sector % 2^64 from rfl]
    split
    · have hthrow : (throw .panic : Logged (Stop VmSpectError) (Option Descriptor)) >>= f =
        throw .panic := rfl
      rw [hthrow, Logged.careful_throw]
      simp only [hpanic, false_or]
    · rw [bind_assoc, Logged.careful_mul_bind]
      dsimp only
      rw [show mulw cab.descriptorOffset sector = cab.descriptorOffset * sector % 2^64 from rfl,
        bind_assoc, Logged.careful_ofExcept_bind (fun e => herror _)]
      simp only [seekFile_eq_ok, forall_const, pure_bind]
      rw [hf _ _ fun h => h.1.1, ← not_lt, imp_iff_not_or]

/-- The descriptor of a VMDK file, with what follows it. -/
theorem careful_componentDescriptor_bind (hfile : fs.openRead path = .ok file)
    {f : Option Descriptor → Logged (Stop VmSpectError) β} {k : Option Descriptor → Prop → Prop}
    (hf : ∀ d fits', (fits' → fits) → (Logged.Careful refused fits' (f d) ↔ k d fits')) :
    Logged.Careful refused fits (componentDescriptor fs path file >>= f) ↔
      ComponentHandled file fits k := by
  rw [componentDescriptor_sound, ComponentHandled]
  rw [isSparseHeader_take (by norm_num), isTextDescriptor_take (by norm_num),
    readSparseHeader_take (by norm_num)]
  split
  · rw [bind_assoc, Logged.careful_ofExcept_bind (fun e => herror _)]
    simp only [careful_embeddedDescriptor_bind herror hpanic hf]
  · split
    · rw [bind_assoc, Logged.careful_ofExcept_bind (fun e => herror _)]
      simp only [readToString_eq_ok hfile, pure_bind, hf _ fits id]
    · rw [pure_bind, hf none fits id]

/-- The validation of the components, with what follows it: along the chain of parents. -/
theorem careful_validateVmdkComponentsInner_bind
    {f : Unit → Logged (Stop VmSpectError) β} {k : Prop → Prop}
    (hf : ∀ fits', (fits' → fits) → (Logged.Careful refused fits' (f ()) ↔ k fits')) (left : ℕ)
    (path : Path) (visited : List Path) (parentContext : Option (Path × List Char)) (fits' : Prop)
    (hle : fits' → fits) :
    Logged.Careful refused fits'
        (validateVmdkComponentsInner fs left path visited parentContext >>= f) ↔
      ParentsHandled fs k left path visited fits' := by
  induction left generalizing path visited parentContext fits' with
  | zero =>
    refine iff_of_true (Or.inl ?_) trivial
    exact herror _
  | succ left ih =>
    rw [validateVmdkComponentsInner_succ, ParentsHandled]
    dsimp only
    split
    · rename_i hvisited
      refine iff_of_true (Or.inl ?_) (fun h => absurd hvisited h)
      exact herror _
    · rename_i hvisited
      simp only [hvisited, not_false_eq_true, true_imp_iff]
      -- The file is opened as the image or as a parent, which differ in their errors only.
      obtain ⟨g, hopen⟩ : ∃ g,
          openReferenced fs path parentContext = (fs.openRead path).mapError g := by
        rcases parentContext with _ | ⟨descriptorPath, name⟩
        · exact ⟨_, rfl⟩
        · exact ⟨_, rfl⟩
      rw [hopen, Logged.mapError_mapError, bind_assoc,
        Logged.careful_ofExcept_bind (g := Stop.error ∘ g) (fun e => herror (g e))]
      refine forall_congr' fun file => imp_congr_right fun hfile => ?_
      rw [bind_assoc]
      refine careful_componentDescriptor_bind herror hpanic hfile fun d fits'' hle' => ?_
      cases d with
      | none =>
        dsimp only
        rw [pure_bind, hf fits'' (hle ∘ hle')]
      | some d =>
        dsimp only
        rw [bind_assoc, Logged.careful_ofExcept_bind (fun e => herror e)]
        simp only [validateDescriptorComponents_eq_ok, forall_const]
        refine imp_congr_right fun _ => ?_
        cases d.parentName with
        | none =>
          dsimp only
          rw [pure_bind, hf fits'' (hle ∘ hle')]
        | some name => exact ih _ _ _ _ (hle ∘ hle')

/-- The data of one extent, with what follows it. -/
theorem careful_openExtentData_bind {e : ExtentDescriptor}
    {f : OpenResult ExtentData → Logged (Stop VmSpectError) β} {k : Prop → Prop}
    (hneeds : ∀ reason fits, Logged.Careful refused fits (f (.needsNbd reason)))
    (hnative : ∀ data fits', (fits' → fits) →
      (Logged.Careful refused fits' (f (.native data)) ↔ k fits')) :
    Logged.Careful refused fits (openExtentData fs path e >>= f) ↔
      if e.kind = "ZERO".toList then k fits
      else if e.kind ∈ ["FLAT".toList, "VMFS".toList, "VMFSRAW".toList] then
        ∀ file, extentFile fs path e = some file → k (fits ∧ e.offsetSectors * sector < 2^64)
      else if e.kind ∈ ["SPARSE".toList, "VMFSSPARSE".toList] then
        ∀ file, extentFile fs path e = some file → 512 ≤ file.length →
          ∀ cab, readSparseHeader file = .ok cab → cab.Handled file fits k
      else True := by
  unfold openExtentData
  split
  · rw [pure_bind]
    exact hnative _ _ id
  split
  · -- A flat extent is a place in its file.
    cases hname : e.file with
    | none =>
      dsimp only
      rw [pure_bind]
      exact iff_of_true (hneeds _ _) (by simp [extentFile, hname])
    | some name =>
      dsimp only
      rw [openComponentFile_sound, Logged.mapError_mapError, bind_assoc,
        Logged.careful_ofExcept_bind (g := Stop.error ∘ _) (fun e => herror _)]
      simp only [extentFile_eq_some hname]
      refine forall_congr' fun file => imp_congr_right fun hfile => ?_
      rw [bind_assoc, Logged.careful_mul_bind]
      dsimp only
      rw [pure_bind]
      exact hnative _ _ And.left
  split
  · -- A sparse extent is opened by its own header.
    cases hname : e.file with
    | none =>
      dsimp only
      rw [pure_bind]
      exact iff_of_true (hneeds _ _) (by simp [extentFile, hname])
    | some name =>
      dsimp only
      rw [SparseExtent.open, openComponentFile_sound, Logged.mapError_mapError, bind_assoc, bind_assoc,
        Logged.careful_ofExcept_bind (g := Stop.error ∘ _) (fun e => herror _)]
      simp only [extentFile_eq_some hname]
      refine forall_congr' fun file => imp_congr_right fun hfile => ?_
      simp only [bind_assoc]
      rw [Logged.careful_ofExcept_bind (fun e => herror _)]
      simp only [readExact_eq_ok, Nat.zero_add, OfNat.ofNat_ne_zero, false_or, and_imp]
      refine forall_comm.trans (imp_congr_right fun _ => forall_eq'.trans ?_)
      rw [Logged.careful_ofExcept_bind (fun e => herror _),
        show slice file 0 512 = file.take 512 from rfl, readSparseHeader_take (by norm_num)]
      refine forall_congr' fun cab => imp_congr_right fun _ => ?_
      refine careful_fromHeader_bind (fun e => herror _) hpanic (fun reason fits => ?_) fun extent => ?_
      · dsimp only
        rw [pure_bind]
        exact hneeds _ _
      · dsimp only
        rw [pure_bind]
        exact hnative _ _ And.left
  · rw [pure_bind]
    exact iff_of_true (hneeds _ _) trivial

/-- The extents of a text descriptor, whose sizes add up. -/
theorem careful_openExtents_bind
    {f : OpenResult (List OpenExtent) → Logged (Stop VmSpectError) β}
    (hneeds : ∀ reason fits, Logged.Careful refused fits (f (.needsNbd reason)))
    (hnative : ∀ opened fits, Logged.Careful refused fits (f (.native opened)) ↔ fits)
    (extents : List ExtentDescriptor) (start : ℕ) (opened : List OpenExtent) (fits : Prop)
    (hsum : fits → start + (extents.map (·.sectors)).sum * sector < 2^64) :
    Logged.Careful refused fits (openExtents fs path extents start opened >>= f) ↔
      ExtentsHandled fs path extents fits := by
  induction extents generalizing start opened fits with
  | nil => rw [openExtents, pure_bind, hnative, ExtentsHandled]
  | cons e rest ih =>
    rw [List.map_cons, List.sum_cons, Nat.add_mul] at hsum
    -- The length of the extent and the next start fit, for the sum does.
    have hlength : fits ∧ e.sectors * sector < 2^64 ↔ fits :=
      and_iff_left_of_imp fun h => by have := hsum h; omega
    rw [openExtents, bind_assoc, Logged.careful_mul_bind, Logged.careful_congr hlength, bind_assoc,
      ExtentsHandled]
    refine careful_openExtentData_bind herror hpanic (fun reason fits' => ?_) fun data fits' hle => ?_
    · dsimp only
      rw [pure_bind]
      exact hneeds _ _
    · have hwrap : fits' → mulw e.sectors sector = e.sectors * sector := fun h =>
        mulw_of_lt (by have := hsum (hle h); omega)
      have hnext : fits' ∧ start + mulw e.sectors sector < 2^64 ↔ fits' :=
        and_iff_left_of_imp fun h => by
          have := hsum (hle h)
          rw [hwrap h]
          omega
      dsimp only
      rw [bind_assoc, Logged.careful_add_bind]
      dsimp only
      rw [Logged.careful_congr hnext, ih]
      intro h
      have := hsum (hle h)
      rw [hwrap h, addw_of_lt (by omega)]
      omega

end Careful

/-! ## The whole image -/

variable {fs : FileSystem} {path : Path} {file : List UInt8}

/-- An error is a rejection, and a panic is not. -/
theorem rejected_error (e : VmSpectError) :
    Rejected (.error (.error e) : Except (Stop VmSpectError) (OpenResult α)) := trivial

theorem not_rejected_panic :
    ¬ Rejected (.error .panic : Except (Stop VmSpectError) (OpenResult α)) := id

/-- A sparse file is opened by its own header. -/
theorem careful_openMonolithicSparse {fits : Prop} :
    Logged.Careful Rejected fits (openMonolithicSparse file (file.take 512) :
        Logged (Stop VmSpectError) (OpenResult (Backend ν × String))) ↔
      ∀ cab, readSparseHeader file = .ok cab → cab.DescriptorHandled file fits fun d fits =>
        d.any (·.hasParent) ∨ d.any (fun d => 1 < d.extents.length) ∨ cab.Handled file fits id := by
  rw [openMonolithicSparse, readSparseHeader_take (by norm_num),
    Logged.careful_ofExcept_bind (fun e => rejected_error _)]
  refine forall_congr' fun cab => imp_congr_right fun _ => ?_
  refine careful_embeddedDescriptor_bind rejected_error not_rejected_panic fun d fits'' _ => ?_
  by_cases hparent : d.any (·.hasParent) = true
  · rw [if_pos hparent, Logged.careful_pure]
    exact iff_of_true (Or.inl trivial) (Or.inl hparent)
  by_cases hmany : d.any (fun d => 1 < d.extents.length) = true
  · rw [if_neg hparent, if_pos hmany, Logged.careful_pure]
    exact iff_of_true (Or.inl trivial) (Or.inr (Or.inl hmany))
  · rw [if_neg hparent, if_neg hmany]
    simp only [hparent, hmany, Bool.false_eq_true, false_or]
    refine careful_fromHeader_bind (fun e => rejected_error _) not_rejected_panic
      (fun reason fits => ?_) fun extent => ?_
    · exact Or.inl trivial
    · dsimp only
      rw [Logged.careful_pure]
      exact or_iff_right id

/-- A text descriptor is opened by its extents. -/
theorem careful_openTextDescriptor {fits : Prop} (hfile : fs.openRead path = .ok file)
    (hsum : fits → ∀ text, Text.fromUtf8 file = some text →
      ((parseDescriptor text).extents.map (·.sectors)).sum * sector < 2^64) :
    Logged.Careful Rejected fits (openTextDescriptor fs path :
        Logged (Stop VmSpectError) (OpenResult (Backend ν × String))) ↔
      ∀ text, Text.fromUtf8 file = some text → (parseDescriptor text).hasParent ∨
        (parseDescriptor text).extents = [] ∨
        ExtentsHandled fs path (parseDescriptor text).extents fits := by
  rw [openTextDescriptor, Logged.careful_ofExcept_bind (fun e => rejected_error _)]
  simp only [readToString_eq_ok hfile]
  refine forall_congr' fun text => imp_congr_right fun htext => ?_
  by_cases hparent : (parseDescriptor text).hasParent = true
  · rw [if_pos hparent, Logged.careful_pure]
    exact iff_of_true (Or.inl trivial) (Or.inl hparent)
  by_cases hnone : (parseDescriptor text).extents = []
  · rw [if_neg hparent, if_pos hnone, Logged.careful_pure]
    exact iff_of_true (Or.inl trivial) (Or.inr (Or.inl hnone))
  · rw [if_neg hparent, if_neg hnone]
    simp only [hparent, hnone, Bool.false_eq_true, false_or]
    refine careful_openExtents_bind rejected_error not_rejected_panic
      (fun reason fits => ?_) (fun opened fits => ?_) _ _ _ _ fun h => ?_
    · exact Or.inl trivial
    · dsimp only
      rw [Logged.careful_pure]
      exact or_iff_right id
    · rw [Nat.zero_add]
      exact hsum h text htext

/-- Opening a VMDK after the validation of its components. -/
theorem careful_openVmdkNative {fits : Prop} (hfile : fs.openRead path = .ok file)
    (hfits : fits → CapacityFits file) :
    Logged.Careful Rejected fits
        (openVmdkNative fs path : Logged (Stop VmSpectError) (OpenResult (Backend ν × String))) ↔
      ParentsHandled fs (OpenHandled fs path file) (maxVmdkParentDepth + 1) path [] fits := by
  rw [openVmdkNative_front, validateVmdkComponents]
  refine careful_validateVmdkComponentsInner_bind rejected_error not_rejected_panic
    (fun fits' (hle : fits' → fits) => ?_) _ _ _ _ _ id
  rw [openMainImageFile_sound, Logged.mapError_mapError,
    Logged.careful_ofExcept_bind (g := Stop.error ∘ _) (fun e => rejected_error _), hfile]
  simp only [Except.ok.injEq, forall_eq']
  rw [isSparseHeader_take (by norm_num), isTextDescriptor_take (by norm_num), OpenHandled]
  split
  · exact careful_openMonolithicSparse
  split
  · rename_i htext
    exact careful_openTextDescriptor hfile fun h => (hfits (hle h)).2 htext
  · rw [Logged.careful_pure]
    exact iff_of_true (Or.inl trivial) trivial

/-- A file with neither a header nor a text descriptor is not opened natively. -/
theorem parentsHandled_of_unreadable {fits : Prop} (hfile : fs.openRead path = .ok file)
    (hheader : ∀ cab, readSparseHeader file ≠ .ok cab) (htext : isTextDescriptor file = false)
    (left : ℕ) : ParentsHandled fs (OpenHandled fs path file) (left + 1) path [] fits := by
  unfold ParentsHandled
  intro _ _ file' hfile'
  obtain rfl : file = file' := Except.ok.inj (hfile.symm.trans hfile')
  unfold ComponentHandled OpenHandled
  by_cases hsparse : isSparseHeader file = true
  · rw [if_pos hsparse]
    exact fun cab hcab => absurd hcab (hheader cab)
  · rw [if_neg hsparse, htext, if_neg Bool.false_ne_true]
    dsimp only
    rw [if_neg hsparse, if_neg Bool.false_ne_true]
    trivial

/-- The capacity, with what follows it. -/
theorem careful_nativeVmdkCapacity_bind (hfile : fs.openRead path = .ok file)
    {g : IoError → VmSpectError} {y : Logged (Stop VmSpectError) (OpenResult α)} :
    Logged.Careful Rejected True
        ((nativeVmdkCapacity fs path (file.take 1024)).mapError (.map g) >>= fun _ => y) ↔
      ((isSparseHeader file = true → ∃ cab, readSparseHeader file = .ok cab) →
        Logged.Careful Rejected (CapacityFits file) y) := by
  unfold nativeVmdkCapacity
  rw [isSparseHeader_take (by norm_num), isTextDescriptor_take (by norm_num),
    readSparseHeader_take (by norm_num)]
  split
  · rename_i hsparse
    have htext : isTextDescriptor file = false := by
      rw [Bool.eq_false_iff]
      exact fun htext => absurd (not_isSparseHeader htext) (by rw [hsparse]; decide)
    rw [Logged.mapError_bind, Logged.mapError_ofExcept, bind_assoc,
      Logged.careful_ofExcept_bind (g := Stop.map g ∘ Stop.error) (fun e => rejected_error (g e))]
    simp only [Logged.mapError_bind, Logged.mapError_mul, Logged.mapError_pure, bind_assoc,
      Logged.careful_mul_bind, pure_bind, hsparse, true_imp_iff, forall_exists_index]
    refine forall_congr' fun cab => imp_congr_right fun hcab => Logged.careful_congr ?_
    simp only [CapacityFits, hcab, Except.ok.injEq, forall_eq', htext, Bool.false_eq_true,
      false_imp_iff, true_and, and_true]
  · rename_i hsparse
    have hheader : ∀ cab, readSparseHeader file ≠ .ok cab :=
      fun cab hcab => hsparse (of_readSparseHeader hcab).1
    split
    · rename_i htext
      simp only [hsparse, Bool.false_eq_true, false_imp_iff, true_imp_iff]
      -- A text that is not valid is taken to be empty, and then nothing is added up.
      obtain ⟨text, htext', hfits⟩ : ∃ text, (fs.readToString path).toOption.getD [] = text ∧
          (CapacityFits file ↔
            ((parseDescriptor text).extents.map (·.sectors)).sum * sector < 2^64) := by
        refine ⟨_, rfl, ?_⟩
        have hcapacity : CapacityFits file ↔ ∀ text, Text.fromUtf8 file = some text →
            ((parseDescriptor text).extents.map (·.sectors)).sum * sector < 2^64 :=
          ⟨fun h => h.2 htext, fun h => ⟨fun cab hcab => absurd hcab (hheader cab), fun _ => h⟩⟩
        rw [hcapacity, FileSystem.readToString_sound, hfile]
        dsimp only
        cases Text.fromUtf8 file with
        | none =>
          have hnone : (parseDescriptor []).extents = [] := by decide
          simp [Except.toOption, hnone]
        | some text => simp [Except.toOption]
      rw [htext', Logged.mapError_bind, Logged.mapError_sum, bind_assoc,
        Logged.careful_sum_bind _ (by norm_num), Logged.careful_congr hfits, Nat.zero_add]
      generalize ((parseDescriptor text).extents.map (·.sectors)).sum = total
      by_cases hpos : 0 < total % 2^64
      · rw [if_pos hpos]
        simp only [Logged.mapError_bind, Logged.mapError_mul, Logged.mapError_pure, bind_assoc,
          Logged.careful_mul_bind, pure_bind]
        refine Logged.careful_congr ?_
        rw [true_and, sector]
        omega
      · rw [if_neg hpos, Logged.mapError_pure, pure_bind]
        refine Logged.careful_congr ?_
        rw [true_and, sector]
        omega
    · rename_i htext
      rw [Logged.mapError_pure, pure_bind]
      simp only [hsparse, false_imp_iff, true_imp_iff, Bool.false_eq_true]
      exact Logged.careful_congr (iff_of_true trivial
        ⟨fun cab hcab => absurd hcab (hheader cab), fun h => absurd h htext⟩)

/-- The other formats need no arithmetic. -/
theorem careful_openNative_of_ne {info : ImageInfo} (h : info.format ≠ .vmdk) :
    Logged.Careful Rejected True
      (openNative fs info : Logged (Stop VmSpectError) (OpenResult (Backend ν × String))) := by
  rw [openNative]
  split
  · rw [openMainImageFile_sound, Logged.mapError_mapError,
      Logged.careful_ofExcept_bind (g := Stop.error ∘ _) (fun e => rejected_error _)]
    intro file _
    rw [Logged.careful_pure]
    exact Or.inr trivial
  · exact absurd ‹_› h
  · rw [Logged.careful_pure]
    exact Or.inl trivial

/-- A VMDK is recognised by its first bytes. -/
theorem formatBySignature_vmdk (hlen : 8 ≤ file.length)
    (hheader : isSparseHeader file = true ∨ isTextDescriptor file = true) :
    formatBySignature (file.take 1024) = some .vmdk := by
  rw [formatBySignature, isSparseHeader_take (by norm_num), isTextDescriptor_take (by norm_num),
    if_neg (by rw [List.length_take]; omega), if_pos hheader]

/-- Whatever image is identified and opened, its arithmetic is exact or it is refused, if and only
if its geometry is one that the code handles. -/
theorem geometryExact_iff (fs : FileSystem) (path : Path) :
    GeometryExact fs path ↔ GeometryHandled fs path := by
  -- The condition on the run is that of the log, for the whole of identifying and opening.
  have hcareful : GeometryExact fs path ↔
      Logged.Careful Rejected True (identifyAndOpen Unit fs path) := by
    rw [GeometryExact, Logged.Careful, true_and]
  rw [hcareful, identifyAndOpen, identifyImage_sound, Logged.mapError_bind, Logged.mapError_ofExcept,
    bind_assoc, Logged.careful_ofExcept_bind (g := Stop.map _ ∘ Stop.error) (fun e => rejected_error _)]
  refine forall_congr' fun file => imp_congr_right fun hfile => ?_
  rw [identifyFormat]
  dsimp only
  by_cases hvmdk :
      (formatBySignature (file.take 1024)).or (formatByExtension path) = some .vmdk
  · rw [hvmdk]
    dsimp only
    rw [Logged.mapError_bind, bind_assoc]
    refine Iff.trans (Iff.of_eq (congrArg _ (congrArg _ (funext fun capacity => ?_))))
      ((careful_nativeVmdkCapacity_bind (y := openVmdkNative fs path) hfile).trans ?_)
    · cases capacity <;> rfl
    · rw [careful_openVmdkNative hfile id]
      refine ⟨fun h => ?_, fun h _ => h⟩
      by_cases hread : isSparseHeader file = true → ∃ cab, readSparseHeader file = .ok cab
      · exact h hread
      · rw [Classical.not_imp, not_exists] at hread
        refine parentsHandled_of_unreadable hfile hread.2 ?_ _
        rw [Bool.eq_false_iff]
        exact fun htext => absurd (not_isSparseHeader htext) (by rw [hread.1]; decide)
  · -- Another format: no geometry is computed, and the header is not that of a VMDK.
    have hsignature : formatBySignature (file.take 1024) ≠ some .vmdk :=
      fun h => hvmdk (by rw [h]; rfl)
    refine iff_of_true ?_ (parentsHandled_of_unreadable hfile (fun cab hcab => ?_) ?_ _)
    · split
      · rename_i hformat
        exact absurd hformat hvmdk
      · exact careful_openNative_of_ne (by simp)
      · exact careful_openNative_of_ne (by simp)
      · exact careful_openNative_of_ne (by simp)
      · rename_i format hne _ _ _ _
        exact careful_openNative_of_ne hne
      · exact careful_openNative_of_ne (by simp)
    · obtain ⟨hsparse, hlen⟩ := of_readSparseHeader hcab
      exact hsignature (formatBySignature_vmdk (by omega) (Or.inl hsparse))
    · rw [Bool.eq_false_iff]
      exact fun htext =>
        hsignature (formatBySignature_vmdk (length_of_isTextDescriptor htext) (Or.inr htext))

/-! ## A grain size that wraps -/

/-- A header with grains of `2^55` sectors, which is a power of two, and tables of 512 entries. -/
def wrappingHeader : List UInt8 :=
  magicKdmv ++ toLe 4 1 ++ toLe 4 3 ++ toLe 8 1 ++ toLe 8 (2^55) ++ toLe 8 0 ++ toLe 8 0 ++
    toLe 4 512 ++ toLe 8 0 ++ toLe 8 1 ++ List.replicate 16 0

/-- A file system with that header as its only file. -/
def wrappingFs : FileSystem where
  metadata _ := .ok 80
  openRead _ := .ok wrappingHeader
  canonicalize := some
  size_lt := by
    rintro path bytes ⟨⟩
    have hlen : wrappingHeader.length < 2^63 := by decide +kernel
    exact hlen

/-- The image is not refused although the size of its grains wraps to zero: the number of its tables
is a division by zero. -/
theorem not_geometryExact_wrapping :
    ¬ GeometryExact wrappingFs (Path.ofText "disk.vmdk".toList) := by
  have hresult : (identifyAndOpen Unit wrappingFs (Path.ofText "disk.vmdk".toList)).result =
      .error .panic := by rfl
  have hops : Op.mul (2^55) 512 ∈
      (identifyAndOpen Unit wrappingFs (Path.ofText "disk.vmdk".toList)).ops := by
    decide +kernel
  rintro (hrejected | hexact)
  · rw [hresult] at hrejected
    exact hrejected
  · exact absurd (hexact _ hops) (by decide)

end VmSpect
