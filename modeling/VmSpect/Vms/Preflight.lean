import VmSpect.Vms.Geometry
import VmSpect.Vms.OpeningErrors
import VmSpect.Vms.SparseNames

/-!
# The preflight of an image

`requires_nbd` of `src/vms/discovery.rs` says before an inspection whether an image has to be read
through `qemu-nbd`. It goes by the extension of the file, while `identify_image` goes by its first
bytes, and it looks at no more than 64 KiB of the descriptor inside of a sparse file, while
`open_native` reads all of it. `requiresNbd_kept_iff` says for which files the two agree.
-/

namespace VmSpect

open Bytes Words UnixPath Vmdk

variable {ν α β ε : Type}

/-! ## `requires_nbd` -/

/-- The extension in lower case, empty when there is none. -/
def lowerExtension (path : Path) : List Char := (path.extension.map Text.toAsciiLowercase).getD []

/-- A descriptor with a parent or with more than one extent. -/
def Vmdk.Descriptor.Split (d : Descriptor) : Prop := d.hasParent = true ∨ 1 < d.extents.length

instance decidableSplit (d : Descriptor) : Decidable d.Split := by
  unfold Vmdk.Descriptor.Split
  infer_instance

/-- The descriptor inside of a sparse file as the preflight reads it: at most its first 64 KiB, and
nothing when the file does not hold them. -/
def glimpsedDescriptor (file : List UInt8) (start size : ℕ) : Option Descriptor :=
  match seekFile start with
  | .error _ => none
  | .ok _ =>
    match readExact file start (min size (64 * 1024)) with
    | .error _ => none
    | .ok text => some (parseDescriptor (Text.fromUtf8Lossy text))

/-- `requires_nbd` of a sparse file. -/
def sparseRequiresNbd (file header : List UInt8) : Logged (Stop VmSpectError) Bool :=
  match readSparseHeader header with
  | .error _ => pure true
  | .ok cab =>
    if cab.unsupportedReason.isSome then pure true
    else if cab.descriptorOffset ≠ 0 ∧ cab.descriptorSectors ≠ 0 then do
      let ⟨bytesDesc, _⟩ ← Logged.mul cab.descriptorSectors sector
      let ⟨start, _⟩ ← Logged.mul cab.descriptorOffset sector
      -- A seek or a read that fails is passed over.
      pure ((glimpsedDescriptor file start bytesDesc).any fun d => d.Split)
    else pure false

/-- The kind of descriptor that spreads a disk over files of two gigabytes. -/
def Vmdk.Descriptor.TwoGb (d : Descriptor) : Prop :=
  "twogbmaxextent".toList <:+: Text.toAsciiLowercase d.createType

instance decidableTwoGb (d : Descriptor) : Decidable d.TwoGb := by
  unfold Vmdk.Descriptor.TwoGb
  infer_instance

/-- `requires_nbd` of a text descriptor. -/
def textRequiresNbd (d : Descriptor) : Bool :=
  if d.hasParent ∨ d.extents = [] then true
  else if 1 < d.extents.length ∨ d.TwoGb then true
  else
    match d.extents with
    | [e] =>
      let kind := Text.toAsciiUppercase e.kind
      if kind = "FLAT".toList ∨ kind = "ZERO".toList then false else true
    | _ => true

/-- `requires_nbd`. -/
def requiresNbd (fs : FileSystem) (path : Path) : Logged (Stop VmSpectError) Bool :=
  match fs.metadata path with
  | .error _ => throw (.error (.imageNotFound s!"Image not found: {path.display}"))
  | .ok _ =>
    let ext := lowerExtension path
    if ext ∈ ["raw".toList, "img".toList] then pure false
    else if ext ∈ ["qcow2".toList, "vdi".toList, "vhd".toList, "vhdx".toList] then pure true
    else if ext = "vmdk".toList then do
      let file ← Logged.ofExcept ((fs.openRead path).mapError fun e => .error (.io e))
      let header := file.take 512
      if isSparseHeader header then sparseRequiresNbd file header
      else if isTextDescriptor header then do
        let text ← Logged.ofExcept ((fs.readToString path).mapError fun e => .error (.io e))
        pure (textRequiresNbd (parseDescriptor text))
      else pure true
    else pure true

/-- An image is identified and opened for a standard inspection. -/
def openStandard (ν : Type) (fs : FileSystem) (path : Path) :
    Logged (Stop VmSpectError) (DiskReader ν) := do
  let info ← (identifyImage fs path).mapError (.map fun e =>
    if e.kind = .notFound then .imageNotFound path.display else .io e)
  DiskReader.openDirect fs info

/-- When the preflight says that an image can be read directly, opening it does not ask for the
external backend, and a standard inspection does not report its format as unsupported. -/
def PromiseKept (ν : Type) (fs : FileSystem) (path : Path) : Prop :=
  (requiresNbd fs path).result = .ok false →
    (∀ reason, (identifyAndOpen ν fs path).result ≠ .ok (.needsNbd reason)) ∧
      ∀ message, (openStandard ν fs path).result ≠ .error (.error (.unsupportedFormat message))

/-! ## The images that are left to the external backend -/

/-- The components of an image and of its parents pass the validation: no file comes twice, each is
legible, and all that its descriptor names is there. -/
def ChainPasses (fs : FileSystem) : ℕ → Path → List Path → Prop
  | 0, _, _ => False
  | left + 1, path, visited =>
    let identity := (fs.canonicalize path).getD path
    identity ∉ visited ∧ ∃ file, fs.openRead path = .ok file ∧ Legible file ∧
      ∀ d, descriptorOf file = some d → d.Present fs path ∧ ∀ name, d.parentName = some name →
        ChainPasses fs left (resolveExtentPath path name) (identity :: visited)

/-- The directory of a sparse extent has more tables than are read. -/
def Vmdk.SparseHeader.TooManyTables (h : SparseHeader) : Prop :=
  h.tableBytes ≠ 0 ∧ 2^20 < h.directoryTables

/-- A header of a sparse extent that is not read directly. -/
def Vmdk.SparseHeader.Delegated (h : SparseHeader) : Prop :=
  h.unsupportedReason ≠ none ∨ h.TooManyTables

/-- A header of a sparse extent whose directory is read. -/
structure Vmdk.SparseHeader.Loads (h : SparseHeader) (file : List UInt8) : Prop where
  supported : h.unsupportedReason = none
  tables : h.tableBytes ≠ 0 ∧ h.directoryTables ≤ 2^20
  seek : mulw h.directoryOffset sector < 2^63
  read : h.directoryTables * 4 = 0 ∨
    mulw h.directoryOffset sector + h.directoryTables * 4 ≤ file.length

/-- The header of the file of a sparse extent. -/
def ExtentHeader (fs : FileSystem) (path : Path) (e : ExtentDescriptor)
    (P : List UInt8 → SparseHeader → Prop) : Prop :=
  ∃ file, extentFile fs path e = some file ∧ 512 ≤ file.length ∧
    ∃ cab, readSparseHeader file = .ok cab ∧ P file cab

/-- An extent of a text descriptor that is not read directly. -/
def ExtentDelegated (fs : FileSystem) (path : Path) (e : ExtentDescriptor) : Prop :=
  if e.kind = "ZERO".toList then False
  else if e.kind ∈ ["FLAT".toList, "VMFS".toList, "VMFSRAW".toList] then e.file = none
  else if e.kind ∈ ["SPARSE".toList, "VMFSSPARSE".toList] then
    e.file = none ∨ ExtentHeader fs path e fun _ cab => cab.Delegated
  else True

/-- An extent of a text descriptor that is opened. -/
def ExtentOpens (fs : FileSystem) (path : Path) (e : ExtentDescriptor) : Prop :=
  if e.kind = "ZERO".toList then True
  else if e.kind ∈ ["FLAT".toList, "VMFS".toList, "VMFSRAW".toList] then
    ∃ file, extentFile fs path e = some file
  else if e.kind ∈ ["SPARSE".toList, "VMFSSPARSE".toList] then
    ExtentHeader fs path e fun file cab => cab.Loads file
  else False

/-- One of the extents is not read directly, and those before it are opened. -/
def ExtentsDelegated (fs : FileSystem) (path : Path) : List ExtentDescriptor → Prop
  | [] => False
  | e :: rest => ExtentDelegated fs path e ∨
      (ExtentOpens fs path e ∧ ExtentsDelegated fs path rest)

/-- A VMDK whose components pass the validation and that is not read directly. -/
def VmdkDelegated (fs : FileSystem) (path : Path) (file : List UInt8) : Prop :=
  ChainPasses fs (maxVmdkParentDepth + 1) path [] ∧
    if isSparseHeader file then
      (∃ d, descriptorOf file = some d ∧ d.Split) ∨
        ∃ cab, readSparseHeader file = .ok cab ∧ cab.Delegated
    else if isTextDescriptor file then
      ∃ d, descriptorOf file = some d ∧
        (d.hasParent = true ∨ d.extents = [] ∨ ExtentsDelegated fs path d.extents)
    else True

/-- The descriptor that the preflight reads of a sparse file. -/
def glimpsed (file : List UInt8) (cab : SparseHeader) : Option Descriptor :=
  if cab.descriptorOffset ≠ 0 ∧ cab.descriptorSectors ≠ 0 then
    glimpsedDescriptor file (mulw cab.descriptorOffset sector) (mulw cab.descriptorSectors sector)
  else none

/-- The files for which the preflight agrees with the reader. -/
structure Foreseen (fs : FileSystem) (path : Path) (file : List UInt8) : Prop where
  /-- A file that is raw by its extension is not something else by its first bytes, except for a
  VMDK that is read directly. -/
  raw : lowerExtension path ∈ ["raw".toList, "img".toList] →
    ∀ format, formatBySignature (file.take 1024) = some format →
      format = .vmdk ∧ ¬VmdkDelegated fs path file
  /-- A sparse file does not have too many tables, and when its descriptor has a parent or several
  extents, that is to be seen in its first 64 KiB. -/
  sparse : lowerExtension path = "vmdk".toList → ∀ cab, readSparseHeader file = .ok cab →
    cab.unsupportedReason = none → ChainPasses fs (maxVmdkParentDepth + 1) path [] →
      (∀ d, glimpsed file cab = some d → ¬d.Split) →
        ¬cab.TooManyTables ∧ ∀ d, descriptorOf file = some d → ¬d.Split
  /-- The only extent of a text descriptor names its file when it is flat. -/
  text : lowerExtension path = "vmdk".toList → isTextDescriptor file = true →
    ∀ d, descriptorOf file = some d → d.hasParent = false → ¬d.TwoGb →
      ∀ e, d.extents = [e] → e.kind = "FLAT".toList → e.file ≠ none

/-! ## When the reader asks for the external backend -/

/-- Opening asks for the external backend. -/
def Delegates (x : Logged ε (OpenResult α)) : Prop := ∃ reason, x.result = .ok (.needsNbd reason)

/-- Opening succeeds. -/
def Opens (x : Logged ε (OpenResult α)) : Prop := ∃ a, x.result = .ok (.native a)

/-- A reason is given right away. -/
theorem delegates_pure_needsNbd (reason : String) :
    Delegates (pure (.needsNbd reason) : Logged ε (OpenResult α)) := ⟨reason, rfl⟩

/-- What is opened natively is not delegated. -/
theorem not_delegates_pure_native (a : α) :
    ¬Delegates (pure (.native a) : Logged ε (OpenResult α)) := by
  rintro ⟨reason, h⟩
  cases h

/-- A step that returns goes before. -/
theorem delegates_bind_iff {x : Logged ε β} {f : β → Logged ε (OpenResult α)} :
    Delegates (x >>= f) ↔ ∃ b, x.result = .ok b ∧ Delegates (f b) := by
  unfold Delegates
  simp only [Logged.bind_eq_ok]
  exact ⟨fun ⟨reason, b, hb, h⟩ => ⟨b, hb, reason, h⟩, fun ⟨b, hb, reason, h⟩ => ⟨reason, b, hb, h⟩⟩

/-- A step without arithmetic that returns goes before. -/
theorem delegates_ofExcept_bind_iff {γ : Type} {r : Except γ β} {g : γ → ε}
    {f : β → Logged ε (OpenResult α)} :
    Delegates (Logged.ofExcept (r.mapError g) >>= f) ↔ ∃ b, r = .ok b ∧ Delegates (f b) := by
  unfold Delegates
  simp only [Logged.ofExcept_bind_eq_ok]
  exact ⟨fun ⟨reason, b, hb, h⟩ => ⟨b, hb, reason, h⟩, fun ⟨b, hb, reason, h⟩ => ⟨reason, b, hb, h⟩⟩

/-- The validation passes exactly on the chains that pass it. -/
theorem validateInner_eq_ok {fs : FileSystem} {left : ℕ} {path : Path} {visited : List Path}
    {reference : Option (Path × List Char)} :
    (validateVmdkComponentsInner fs left path visited reference).result = .ok () ↔
      ChainPasses fs left path visited := by
  induction left generalizing path visited reference with
  | zero => exact iff_of_false (fun h => by cases h) id
  | succ left ih =>
    rw [validateVmdkComponentsInner_succ, ChainPasses]
    by_cases hmem : (fs.canonicalize path).getD path ∈ visited
    · rw [if_pos hmem]
      exact iff_of_false (fun h => by cases h) fun h => h.1 hmem
    rw [if_neg hmem, Logged.ofExcept_bind_eq_ok]
    -- How a file is referred to shows in the text of its error only.
    have hreferenced : ∀ file, openReferenced fs path reference = .ok file ↔
        fs.openRead path = .ok file := by
      intro file
      cases reference with
      | none =>
        rw [openReferenced]
        exact openMainImageFile_eq_ok
      | some reference =>
        rw [openReferenced, openComponentFile_sound]
        cases fs.openRead path <;> simp [Except.mapError]
    simp only [hreferenced, hmem, not_false_eq_true, true_and]
    refine exists_congr fun file => and_congr_right fun hopen => ?_
    rw [Logged.bind_eq_ok]
    simp only [componentDescriptor_eq_ok hopen]
    constructor
    · -- The descriptor that was read is the one of the file.
      rintro ⟨d, ⟨hlegible, hd⟩, h⟩
      refine ⟨hlegible, fun d' hd' => ?_⟩
      rw [hd] at hd'
      subst hd'
      obtain ⟨_, hpresent, h⟩ := Logged.ofExcept_bind_eq_ok.mp h
      refine ⟨validateDescriptorComponents_eq_ok.mp hpresent, fun name hname => ?_⟩
      rw [hname] at h
      exact ih.mp h
    · rintro ⟨hlegible, hdescriptor⟩
      refine ⟨descriptorOf file, ⟨hlegible, rfl⟩, ?_⟩
      cases hd : descriptorOf file with
      | none => rfl
      | some d =>
        obtain ⟨hpresent, hparent⟩ := hdescriptor d hd
        refine Logged.ofExcept_bind_eq_ok.mpr
          ⟨(), validateDescriptorComponents_eq_ok.mpr hpresent, ?_⟩
        cases hname : d.parentName with
        | none => rfl
        | some name => exact ih.mpr (hparent name hname)

/-- A sparse extent asks for the external backend by its header alone. -/
theorem fromHeader_delegates_iff {file : List UInt8} {cab : SparseHeader} :
    Delegates (SparseExtent.fromHeader file cab) ↔ cab.Delegated := by
  unfold Delegates SparseHeader.Delegated SparseHeader.TooManyTables
  rw [SparseExtent.fromHeader_result]
  cases hreason : cab.unsupportedReason with
  | some reason => simp
  | none =>
    dsimp only
    by_cases hzero : cab.tableBytes = 0
    · simp [hzero]
    rw [dif_neg hzero]
    by_cases hmany : 2^20 < cab.directoryTables
    · rw [if_pos hmany]
      exact iff_of_true ⟨_, rfl⟩ (Or.inr ⟨hzero, hmany⟩)
    · rw [if_neg hmany]
      refine iff_of_false ?_ (by tauto)
      rintro ⟨reason, h⟩
      split at h
      · cases h
      · split at h <;> cases h

/-- A sparse extent is opened when its directory lies in the file. -/
theorem fromHeader_opens_iff {file : List UInt8} {cab : SparseHeader} :
    Opens (SparseExtent.fromHeader file cab) ↔ cab.Loads file := by
  unfold Opens
  rw [SparseExtent.fromHeader_result]
  constructor
  · -- Every other branch of `from_header` ends with an error or with the external backend.
    rintro ⟨x, h⟩
    cases hreason : cab.unsupportedReason with
    | some reason =>
      rw [hreason] at h
      cases h
    | none =>
      rw [hreason] at h
      dsimp only at h
      split at h
      · cases h
      · rename_i hzero
        split at h
        · cases h
        · rename_i hmany
          split at h
          · cases h
          · rename_i hseek
            split at h
            · cases h
            · rename_i raw hread
              exact ⟨hreason, ⟨hzero, not_lt.mp hmany⟩, seekFile_eq_ok.mp hseek,
                (readExact_eq_ok.mp hread).1⟩
  · rintro ⟨hreason, ⟨hzero, hmany⟩, hseek, hread⟩
    rw [hreason]
    dsimp only
    rw [dif_neg hzero, if_neg (not_lt.mpr hmany), seekFile_eq_ok (a := ()) |>.mpr hseek,
      readExact_eq_ok.mpr ⟨hread, rfl⟩]
    exact ⟨_, rfl⟩

/-- The file of an extent is opened, or there is no name to open it by. -/
theorem sparseExtent_open_iff {fs : FileSystem} {path : Path} {e : ExtentDescriptor}
    {name : List Char} (hname : e.file = some name) {r : OpenResult SparseExtent} :
    (SparseExtent.open fs (resolveExtentPath path name) path name "VMDK extent").result = .ok r ↔
      ExtentHeader fs path e fun file cab => (SparseExtent.fromHeader file cab).result = .ok r := by
  unfold SparseExtent.open ExtentHeader
  dsimp only
  rw [Logged.ofExcept_bind_eq_ok]
  refine exists_congr fun file => ?_
  have hopen : openComponentFile fs (resolveExtentPath path name) path name "VMDK extent" = .ok file ↔
      extentFile fs path e = some file := by
    rw [extentFile_eq_some hname, openComponentFile_sound]
    cases fs.openRead (resolveExtentPath path name) <;> simp [Except.mapError]
  rw [hopen, Logged.ofExcept_bind_eq_ok]
  refine and_congr_right fun _ => ?_
  -- The first sector of the file is read before its header is looked at.
  have htake : slice file 0 512 = file.take 512 := by
    rw [slice, List.drop_zero]
  simp only [readExact_eq_ok, htake, Logged.ofExcept_bind_eq_ok]
  constructor
  · rintro ⟨buf, ⟨hlen, rfl⟩, cab, hcab, h⟩
    rw [readSparseHeader_take (by omega)] at hcab
    rw [Logged.result_mapError] at h
    refine ⟨by omega, cab, hcab, ?_⟩
    cases hresult : (SparseExtent.fromHeader file cab).result with
    | error stop =>
      rw [hresult] at h
      cases h
    | ok r' =>
      rw [hresult] at h
      exact congrArg Except.ok (Except.ok.inj h)
  · rintro ⟨hlen, cab, hcab, h⟩
    refine ⟨_, ⟨by omega, rfl⟩, cab, ?_, ?_⟩
    · rw [readSparseHeader_take (by omega)]
      exact hcab
    · rw [Logged.result_mapError, h]
      rfl

/-- Equivalent conditions on the header. -/
theorem extentHeader_congr {fs : FileSystem} {path : Path} {e : ExtentDescriptor}
    {P Q : List UInt8 → SparseHeader → Prop} (h : ∀ file cab, P file cab ↔ Q file cab) :
    ExtentHeader fs path e P ↔ ExtentHeader fs path e Q := by
  unfold ExtentHeader
  simp only [h]

/-- A header for which some value satisfies the condition. -/
theorem exists_extentHeader {fs : FileSystem} {path : Path} {e : ExtentDescriptor}
    {P : α → List UInt8 → SparseHeader → Prop} :
    (∃ a, ExtentHeader fs path e (P a)) ↔ ExtentHeader fs path e fun file cab => ∃ a, P a file cab := by
  constructor
  · rintro ⟨a, file, hfile, hlen, cab, hcab, h⟩
    exact ⟨file, hfile, hlen, cab, hcab, a, h⟩
  · rintro ⟨file, hfile, hlen, cab, hcab, a, h⟩
    exact ⟨a, file, hfile, hlen, cab, hcab, h⟩

/-- The outcome of a sparse extent, as the data of an extent. -/
def asExtentData : OpenResult SparseExtent → OpenResult ExtentData
  | .native extent => .native (.sparse extent)
  | .needsNbd reason => .needsNbd reason

/-- A sparse extent of a text descriptor goes by the header in its file. -/
theorem openSparseExtent_iff {fs : FileSystem} {path : Path} {e : ExtentDescriptor}
    {name : List Char} (hname : e.file = some name)
    {x : Logged (Stop VmSpectError) (OpenResult ExtentData)}
    (hx : x = (do
      let r ← SparseExtent.open fs (resolveExtentPath path name) path name "VMDK extent"
      pure (asExtentData r))) :
    (Delegates x ↔ ExtentHeader fs path e fun _ cab => cab.Delegated) ∧
      (Opens x ↔ ExtentHeader fs path e fun file cab => cab.Loads file) := by
  subst hx
  constructor
  · rw [← extentHeader_congr fun file cab =>
      (fromHeader_delegates_iff : Delegates (SparseExtent.fromHeader file cab) ↔ _)]
    unfold Delegates
    rw [← exists_extentHeader]
    simp only [Logged.bind_eq_ok, ← sparseExtent_open_iff hname]
    refine exists_congr fun reason => ⟨?_, fun h => ⟨_, h, rfl⟩⟩
    rintro ⟨r | r, h, hr⟩
    · cases hr
    · cases hr
      exact h
  · rw [← extentHeader_congr fun _ _ => fromHeader_opens_iff]
    unfold Opens
    rw [← exists_extentHeader]
    simp only [Logged.bind_eq_ok, ← sparseExtent_open_iff hname]
    constructor
    · rintro ⟨a, r | r, h, hr⟩
      · exact ⟨r, h⟩
      · cases hr
    · rintro ⟨extent, h⟩
      exact ⟨.sparse extent, .native extent, h, rfl⟩

/-- An extent of a text descriptor asks for the external backend, or is opened, as its kind, its
file and the header in it say. -/
theorem openExtentData_iff (fs : FileSystem) (path : Path) (e : ExtentDescriptor) :
    (Delegates (openExtentData fs path e) ↔ ExtentDelegated fs path e) ∧
      (Opens (openExtentData fs path e) ↔ ExtentOpens fs path e) := by
  unfold openExtentData ExtentDelegated ExtentOpens
  -- By the kind, in the order in which the source compares it.
  by_cases hzero : e.kind = "ZERO".toList
  · simp only [if_pos hzero]
    exact ⟨iff_of_false (not_delegates_pure_native _) id, iff_of_true ⟨_, rfl⟩ trivial⟩
  simp only [if_neg hzero]
  by_cases hflat : e.kind ∈ ["FLAT".toList, "VMFS".toList, "VMFSRAW".toList]
  · simp only [if_pos hflat]
    cases hname : e.file with
    | none =>
      refine ⟨iff_of_true (delegates_pure_needsNbd _) rfl, iff_of_false ?_ ?_⟩
      · rintro ⟨a, h⟩
        cases h
      · rintro ⟨file, h⟩
        rw [extentFile, hname] at h
        cases h
    | some name =>
      simp only [extentFile_eq_some hname]
      rw [openComponentFile_sound]
      cases hopen : fs.openRead (resolveExtentPath path name) with
      | error error =>
        refine ⟨iff_of_false ?_ (by simp), iff_of_false ?_ (by simp)⟩
        · rintro ⟨reason, h⟩
          cases h
        · rintro ⟨a, h⟩
          cases h
      | ok file =>
        refine ⟨iff_of_false ?_ (by simp), iff_of_true ⟨_, rfl⟩ ⟨file, rfl⟩⟩
        rintro ⟨reason, h⟩
        cases h
  simp only [if_neg hflat]
  by_cases hsparse : e.kind ∈ ["SPARSE".toList, "VMFSSPARSE".toList]
  · simp only [if_pos hsparse]
    cases hname : e.file with
    | none =>
      refine ⟨iff_of_true (delegates_pure_needsNbd _) (Or.inl rfl), iff_of_false ?_ ?_⟩
      · rintro ⟨a, h⟩
        cases h
      · rintro ⟨file, h, -⟩
        rw [extentFile, hname] at h
        cases h
    | some name =>
      simp only [reduceCtorEq, false_or]
      -- A sparse extent goes by the header in its file.
      refine openSparseExtent_iff hname (bind_congr fun r => ?_)
      cases r <;> rfl
  · simp only [if_neg hsparse]
    refine ⟨iff_of_true (delegates_pure_needsNbd _) trivial, iff_of_false ?_ id⟩
    rintro ⟨a, h⟩
    cases h

/-- A product decides nothing. -/
theorem delegates_mul_bind_iff {a b : ℕ} {f : { n // n = mulw a b } → Logged ε (OpenResult α)} :
    Delegates (Logged.mul a b >>= f) ↔ Delegates (f ⟨mulw a b, rfl⟩) :=
  Iff.rfl

/-- Nor does a sum. -/
theorem delegates_add_bind_iff {a b : ℕ} {f : { n // n = addw a b } → Logged ε (OpenResult α)} :
    Delegates (Logged.add a b >>= f) ↔ Delegates (f ⟨addw a b, rfl⟩) :=
  Iff.rfl

/-- The extents are opened one after another, up to the first that is not. -/
theorem openExtents_delegates_iff {fs : FileSystem} {path : Path} (extents : List ExtentDescriptor)
    (start : ℕ) (opened : List OpenExtent) :
    Delegates (openExtents fs path extents start opened) ↔ ExtentsDelegated fs path extents := by
  induction extents generalizing start opened with
  | nil => exact iff_of_false (not_delegates_pure_native _) id
  | cons e rest ih =>
    obtain ⟨hdelegates, hopens⟩ := openExtentData_iff fs path e
    rw [openExtents, delegates_mul_bind_iff, delegates_bind_iff, ExtentsDelegated, ← hdelegates,
      ← hopens]
    constructor
    · rintro ⟨data | reason, hdata, h⟩
      · rw [delegates_add_bind_iff] at h
        exact Or.inr ⟨⟨data, hdata⟩, (ih _ _).mp h⟩
      · exact Or.inl ⟨reason, hdata⟩
    · rintro (⟨reason, hdata⟩ | ⟨⟨data, hdata⟩, h⟩)
      · exact ⟨.needsNbd reason, hdata, delegates_pure_needsNbd reason⟩
      · refine ⟨.native data, hdata, ?_⟩
        rw [delegates_add_bind_iff]
        exact (ih _ _).mpr h

/-- The descriptor inside of a legible sparse file is found. -/
theorem embeddedDescriptor_of_legible {file : List UInt8} {cab : SparseHeader}
    (hcab : readSparseHeader file = .ok cab) (hlegible : Legible file) :
    (embeddedDescriptor file cab).result = .ok (descriptorOf file) := by
  have hsparse : isSparseHeader file = true := (of_readSparseHeader hcab).1
  refine embeddedDescriptor_eq_ok.mpr ⟨(hlegible.header hsparse).2 cab hcab, ?_⟩
  rw [descriptorOf, if_pos hsparse, hcab]

/-- A sparse file asks for the external backend by its descriptor or by its header. -/
theorem openMonolithicSparse_delegates_iff {file : List UInt8} (hlegible : Legible file) :
    Delegates (openMonolithicSparse file (file.take 512) :
        Logged (Stop VmSpectError) (OpenResult (Backend ν × String))) ↔
      ∃ cab, readSparseHeader file = .ok cab ∧
        ((∃ d, descriptorOf file = some d ∧ d.Split) ∨ cab.Delegated) := by
  rw [openMonolithicSparse, delegates_ofExcept_bind_iff, readSparseHeader_take (by omega)]
  refine exists_congr fun cab => and_congr_right fun hcab => ?_
  rw [delegates_bind_iff]
  simp only [embeddedDescriptor_of_legible hcab hlegible, Except.ok.injEq, exists_eq_left']
  -- When the descriptor does not decide, the header does.
  have hheader : Delegates (do
      match ← (SparseExtent.fromHeader file cab).mapError (.map .io) with
      | .native extent => pure (.native (.sparse extent, "vmdk monolithicSparse"))
      | .needsNbd reason => pure (.needsNbd reason) :
        Logged (Stop VmSpectError) (OpenResult (Backend ν × String))) ↔ cab.Delegated := by
    rw [delegates_bind_iff, ← fromHeader_delegates_iff, Logged.result_mapError]
    constructor
    · rintro ⟨extent | reason, hresult, h⟩
      · exact absurd h (not_delegates_pure_native _)
      · refine ⟨reason, ?_⟩
        cases hfrom : (SparseExtent.fromHeader file cab).result with
        | error stop =>
          rw [hfrom] at hresult
          cases hresult
        | ok r =>
          rw [hfrom] at hresult
          exact congrArg Except.ok (Except.ok.inj hresult)
    · rintro ⟨reason, hresult⟩
      rw [hresult]
      exact ⟨.needsNbd reason, rfl, delegates_pure_needsNbd reason⟩
  cases hd : descriptorOf file with
  | none =>
    simp only [Option.any_none, Bool.false_eq_true, if_false, reduceCtorEq, false_and, exists_false,
      false_or]
    exact hheader
  | some d =>
    simp only [Option.any_some, Option.some.injEq, exists_eq_left', Descriptor.Split]
    by_cases hparent : d.hasParent = true
    · rw [if_pos hparent]
      exact iff_of_true (delegates_pure_needsNbd _) (Or.inl (Or.inl hparent))
    · rw [if_neg hparent]
      by_cases hmany : 1 < d.extents.length
      · rw [if_pos (decide_eq_true hmany)]
        exact iff_of_true (delegates_pure_needsNbd _) (Or.inl (Or.inr hmany))
      · rw [if_neg (by simpa using hmany)]
        exact hheader.trans (or_iff_right (not_or.mpr ⟨hparent, hmany⟩)).symm

/-- A text descriptor asks for the external backend by a parent, or by its extents. -/
theorem openTextDescriptor_delegates_iff {fs : FileSystem} {path : Path} {file : List UInt8}
    (hopen : fs.openRead path = .ok file) (htext : isTextDescriptor file = true) :
    Delegates (openTextDescriptor fs path :
        Logged (Stop VmSpectError) (OpenResult (Backend ν × String))) ↔
      ∃ d, descriptorOf file = some d ∧
        (d.hasParent = true ∨ d.extents = [] ∨ ExtentsDelegated fs path d.extents) := by
  rw [openTextDescriptor, delegates_ofExcept_bind_iff, descriptorOf_text htext]
  simp only [readToString_eq_ok hopen, Option.map_eq_some_iff]
  constructor
  · rintro ⟨text, hutf8, h⟩
    refine ⟨_, ⟨text, hutf8, rfl⟩, ?_⟩
    by_cases hparent : (parseDescriptor text).hasParent = true
    · exact Or.inl hparent
    rw [if_neg hparent] at h
    -- A text without extents is left to the external backend too.
    by_cases hempty : (parseDescriptor text).extents = []
    · exact Or.inr (Or.inl hempty)
    rw [if_neg hempty, delegates_bind_iff] at h
    obtain ⟨extents | reason, hextents, h⟩ := h
    · exact absurd h (not_delegates_pure_native _)
    · exact Or.inr (Or.inr ((openExtents_delegates_iff _ _ _).mp ⟨reason, hextents⟩))
  · rintro ⟨-, ⟨text, hutf8, rfl⟩, h⟩
    refine ⟨text, hutf8, ?_⟩
    by_cases hparent : (parseDescriptor text).hasParent = true
    · rw [if_pos hparent]
      exact delegates_pure_needsNbd _
    by_cases hempty : (parseDescriptor text).extents = []
    · rw [if_neg hparent, if_pos hempty]
      exact delegates_pure_needsNbd _
    rw [if_neg hparent, if_neg hempty, delegates_bind_iff]
    obtain ⟨reason, hextents⟩ := (openExtents_delegates_iff _ 0 []).mpr
      ((h.resolve_left hparent).resolve_left hempty)
    exact ⟨.needsNbd reason, hextents, delegates_pure_needsNbd reason⟩

/-- `open_vmdk_native` asks for the external backend for the VMDKs that are left to it. -/
theorem openVmdkNative_delegates_iff {fs : FileSystem} {path : Path} {file : List UInt8}
    (hopen : fs.openRead path = .ok file) :
    Delegates (openVmdkNative fs path :
        Logged (Stop VmSpectError) (OpenResult (Backend ν × String))) ↔
      VmdkDelegated fs path file := by
  rw [openVmdkNative_front, delegates_bind_iff, VmdkDelegated]
  have hvalidate : ∀ u : Unit, (validateVmdkComponents fs path).result = .ok u ↔
      ChainPasses fs (maxVmdkParentDepth + 1) path [] := fun _ => validateInner_eq_ok
  simp only [hvalidate, exists_and_left, exists_const]
  refine and_congr_right fun hchain => ?_
  have hmain := openMainImageFile_eq_ok.mpr hopen
  have hlegible : Legible file := by
    obtain ⟨-, file', hfile', hlegible, -⟩ := hchain
    rw [hopen] at hfile'
    exact Except.ok.inj hfile' ▸ hlegible
  rw [delegates_ofExcept_bind_iff, hmain]
  simp only [Except.ok.injEq, exists_eq_left']
  rw [isSparseHeader_take (by omega), isTextDescriptor_take (by omega)]
  by_cases hsparse : isSparseHeader file = true
  · obtain ⟨cab, hcab⟩ := readSparseHeader_of_length hsparse (hlegible.header hsparse).1
    rw [if_pos hsparse, if_pos hsparse, openMonolithicSparse_delegates_iff hlegible, hcab]
    simp
  rw [if_neg hsparse, if_neg hsparse]
  by_cases htext : isTextDescriptor file = true
  · rw [if_pos htext, if_pos htext]
    exact openTextDescriptor_delegates_iff hopen htext
  · rw [if_neg htext, if_neg htext]
    exact iff_of_true (delegates_pure_needsNbd _) trivial

/-- The format that an image is identified as. -/
def identifiedFormat (path : Path) (file : List UInt8) : Format :=
  ((formatBySignature (file.take 1024)).or (formatByExtension path)).getD .raw

/-- An image is a VMDK only by its first bytes or by its extension, not for want of both. -/
theorem eq_some_vmdk_of_identifiedFormat {path : Path} {file : List UInt8}
    (h : identifiedFormat path file = .vmdk) :
    (formatBySignature (file.take 1024)).or (formatByExtension path) = some .vmdk := by
  unfold identifiedFormat at h
  cases hformat : (formatBySignature (file.take 1024)).or (formatByExtension path) with
  | none =>
    rw [hformat] at h
    cases h
  | some format =>
    rw [hformat] at h
    exact congrArg some h

/-- A file with the header of a sparse VMDK, or with the text of a descriptor, is a VMDK. -/
theorem identifiedFormat_vmdk {path : Path} {file : List UInt8} (hlen : 8 ≤ file.length)
    (h : isSparseHeader file = true ∨ isTextDescriptor file = true) :
    identifiedFormat path file = .vmdk := by
  rw [identifiedFormat, formatBySignature_vmdk hlen h]
  rfl

/-- An image that is not a VMDK is identified by its format alone. -/
theorem identifyImage_of_not_vmdk {fs : FileSystem} {path : Path} {file : List UInt8}
    (hopen : fs.openRead path = .ok file) (h : identifiedFormat path file ≠ .vmdk) :
    ∃ info, (identifyImage fs path).result = .ok info ∧ info.path = path ∧
      info.format = identifiedFormat path file := by
  rw [identifyImage_of_openRead hopen]
  unfold identifyFormat identifiedFormat at *
  cases hformat : (formatBySignature (file.take 1024)).or (formatByExtension path) with
  | none => exact ⟨_, rfl, rfl, rfl⟩
  | some format =>
    rw [hformat] at h
    cases format with
    | vmdk => exact absurd rfl h
    | _ => exact ⟨_, rfl, rfl, rfl⟩

/-- The identification of a file gives its path and its format, unless it is a VMDK, whose header
has to be read. -/
theorem identifyImage_result {fs : FileSystem} {path : Path} {file : List UInt8}
    (hopen : fs.openRead path = .ok file) {info : ImageInfo}
    (h : (identifyImage fs path).result = .ok info) :
    info.path = path ∧ info.format = identifiedFormat path file := by
  by_cases hvmdk : identifiedFormat path file = .vmdk
  · rw [identifyImage_of_openRead hopen, identifyFormat] at h
    dsimp only at h
    rw [eq_some_vmdk_of_identifiedFormat hvmdk] at h
    obtain ⟨capacity, -, h⟩ := Logged.bind_eq_ok.mp h
    rw [hvmdk]
    cases capacity <;> cases h <;> exact ⟨rfl, rfl⟩
  · obtain ⟨info', hinfo', hspec⟩ := identifyImage_of_not_vmdk hopen hvmdk
    rw [hinfo'] at h
    obtain rfl := Except.ok.inj h
    exact hspec

/-- The capacity of a legible VMDK is found. -/
theorem nativeVmdkCapacity_of_legible {fs : FileSystem} {path : Path} {file : List UInt8}
    (hlegible : Legible file) :
    ∃ capacity, (nativeVmdkCapacity fs path (file.take 1024)).result = .ok capacity := by
  unfold nativeVmdkCapacity
  rw [isSparseHeader_take (by omega), isTextDescriptor_take (by omega),
    readSparseHeader_take (by omega)]
  by_cases hsparse : isSparseHeader file = true
  · obtain ⟨cab, hcab⟩ := readSparseHeader_of_length hsparse (hlegible.header hsparse).1
    rw [if_pos hsparse, hcab]
    exact ⟨_, rfl⟩
  rw [if_neg hsparse]
  by_cases htext : isTextDescriptor file = true
  · rw [if_pos htext]
    dsimp only
    obtain ⟨total, htotal⟩ := Logged.exists_result_sum (ε := Stop IoError)
      ((parseDescriptor ((fs.readToString path).toOption.getD [])).extents.map (·.sectors)) 0
    rw [Logged.bind_of_ok htotal]
    dsimp only
    split
    · exact ⟨_, rfl⟩
    · exact ⟨_, rfl⟩
  · rw [if_neg htext]
    exact ⟨_, rfl⟩

/-- An image that is not a VMDK, or is a legible one, is identified. -/
theorem identifyImage_of_legible {fs : FileSystem} {path : Path} {file : List UInt8}
    (hopen : fs.openRead path = .ok file)
    (hlegible : identifiedFormat path file = .vmdk → Legible file) :
    ∃ info, (identifyImage fs path).result = .ok info := by
  by_cases hvmdk : identifiedFormat path file = .vmdk
  · obtain ⟨capacity, hcapacity⟩ := nativeVmdkCapacity_of_legible (hlegible hvmdk)
    rw [identifyImage_of_openRead hopen, identifyFormat]
    dsimp only
    rw [eq_some_vmdk_of_identifiedFormat hvmdk]
    dsimp only
    rw [Logged.bind_of_ok hcapacity]
    cases capacity <;> exact ⟨_, rfl⟩
  · obtain ⟨info, hinfo, -⟩ := identifyImage_of_not_vmdk hopen hvmdk
    exact ⟨info, hinfo⟩

/-- Only raw images and VMDKs are opened directly. -/
theorem openNative_other (fs : FileSystem) {info : ImageInfo} (hraw : info.format ≠ .raw)
    (hvmdk : info.format ≠ .vmdk) : ∃ reason,
      (openNative fs info : Logged (Stop VmSpectError) (OpenResult (Backend ν × String))) =
        pure (.needsNbd reason) := by
  unfold openNative
  cases hformat : info.format with
  | raw => exact absurd hformat hraw
  | vmdk => exact absurd hformat hvmdk
  | _ => exact ⟨_, rfl⟩

/-- Opening an identified image asks for the external backend for any format but a raw image, except
for a VMDK that is read directly. -/
theorem openNative_delegates_iff {fs : FileSystem} {info : ImageInfo} {file : List UInt8}
    (hopen : fs.openRead info.path = .ok file) :
    Delegates (openNative fs info : Logged (Stop VmSpectError) (OpenResult (Backend ν × String))) ↔
      info.format ≠ .raw ∧ (info.format = .vmdk → VmdkDelegated fs info.path file) := by
  by_cases hraw : info.format = .raw
  · refine iff_of_false ?_ fun h => h.1 hraw
    unfold openNative
    rw [hraw]
    dsimp only
    rw [delegates_ofExcept_bind_iff]
    rintro ⟨file', -, h⟩
    exact not_delegates_pure_native _ h
  by_cases hvmdk : info.format = .vmdk
  · unfold openNative
    rw [hvmdk]
    dsimp only
    rw [openVmdkNative_delegates_iff hopen]
    simp
  · obtain ⟨reason, hreason⟩ := openNative_other (ν := ν) fs hraw hvmdk
    rw [hreason]
    exact iff_of_true (delegates_pure_needsNbd _) ⟨hraw, fun h => absurd h hvmdk⟩

/-- A file that is identified and opened asks for the external backend by its format. -/
theorem identifyAndOpen_delegates_iff {fs : FileSystem} {path : Path} {file : List UInt8}
    (hopen : fs.openRead path = .ok file) :
    Delegates (identifyAndOpen ν fs path) ↔ identifiedFormat path file ≠ .raw ∧
      (identifiedFormat path file = .vmdk → VmdkDelegated fs path file) := by
  -- The translation of the errors changes no success.
  have hok : ∀ info, ((identifyImage fs path).mapError (Stop.map fun e =>
      if e.kind = .notFound then .imageNotFound path.display else VmSpectError.io e)).result =
        .ok info ↔ (identifyImage fs path).result = .ok info := by
    intro info
    rw [Logged.result_mapError]
    cases (identifyImage fs path).result <;> simp [Except.mapError]
  rw [identifyAndOpen, delegates_bind_iff]
  simp only [hok]
  constructor
  · rintro ⟨info, hinfo, h⟩
    obtain ⟨hpath, hformat⟩ := identifyImage_result hopen hinfo
    rw [← hpath] at hopen
    rw [openNative_delegates_iff hopen, hformat, hpath] at h
    exact h
  · rintro ⟨hraw, hvmdk⟩
    have hlegible : identifiedFormat path file = .vmdk → Legible file := by
      intro hformat
      obtain ⟨-, file', hfile', hlegible, -⟩ := (hvmdk hformat).1
      rw [hopen] at hfile'
      exact Except.ok.inj hfile' ▸ hlegible
    obtain ⟨info, hinfo⟩ := identifyImage_of_legible hopen hlegible
    obtain ⟨hpath, hformat⟩ := identifyImage_result hopen hinfo
    refine ⟨info, hinfo, (openNative_delegates_iff (by rw [hpath]; exact hopen)).mpr ?_⟩
    rw [hformat, hpath]
    exact ⟨hraw, hvmdk⟩

/-! ## The errors of the reader -/

/-- An error that is not about an unsupported format. -/
def NotUnsupported (stop : Stop VmSpectError) : Prop :=
  ∀ message, stop ≠ .error (.unsupportedFormat message)

/-- An error of the files of an image. -/
theorem NotUnsupported.of_ofFiles {stop : Stop VmSpectError} (h : stop.OfFiles) :
    NotUnsupported stop := by
  rintro message rfl
  exact h

/-- A standard inspection reports an unsupported format only where opening asks for the external
backend. -/
theorem delegates_of_openStandard {fs : FileSystem} {path : Path} {message : String}
    (h : (openStandard ν fs path).result = .error (.error (.unsupportedFormat message))) :
    Delegates (identifyAndOpen ν fs path) := by
  unfold openStandard at h
  rw [identifyAndOpen, delegates_bind_iff]
  cases hinfo : ((identifyImage fs path).mapError (Stop.map fun e =>
      if e.kind = .notFound then .imageNotFound path.display else VmSpectError.io e)).result with
  | error stop =>
    rw [Logged.bind_of_error hinfo] at h
    -- The identification fails with an I/O error only.
    have hstop : NotUnsupported stop := by
      refine Logged.stopsWith_mapError (fun stop message heq => ?_) stop hinfo
      cases stop with
      | panic => cases heq
      | error e =>
        have herror := Stop.error.inj heq
        dsimp only at herror
        split at herror <;> cases herror
    exact absurd (Except.error.inj h) (hstop message)
  | ok info =>
    rw [Logged.bind_of_ok hinfo] at h
    refine ⟨info, rfl, ?_⟩
    unfold DiskReader.openDirect at h
    cases hopen : (openNative fs info :
        Logged (Stop VmSpectError) (OpenResult (Backend ν × String))).result with
    | error stop =>
      rw [Logged.bind_of_error hopen] at h
      exact absurd (Except.error.inj h)
        (NotUnsupported.of_ofFiles (openNative_ofFiles fs info .sound stop hopen) message)
    | ok r =>
      rw [Logged.bind_of_ok hopen] at h
      cases r with
      | native backend => cases h
      | needsNbd reason => exact ⟨reason, hopen⟩

/-! ## When the preflight promises a direct read -/

/-- The extents of a parsed descriptor have kinds in upper case. -/
theorem parseDescriptor_kind {text : List Char} {e : ExtentDescriptor}
    (h : e ∈ (parseDescriptor text).extents) : Text.toAsciiUppercase e.kind = e.kind := by
  -- One line adds at most one extent, whose kind the parser puts in upper case.
  have hline : ∀ (d : Descriptor) (line : List Char),
      (∀ e ∈ d.extents, Text.toAsciiUppercase e.kind = e.kind) →
        ∀ e ∈ (parseLine d line).extents, Text.toAsciiUppercase e.kind = e.kind := by
    intro d line hd
    have hentry : ∀ line, (parseEntry d line).extents = d.extents := by
      intro line
      unfold parseEntry
      split
      · rfl
      · dsimp only
        split_ifs <;> rfl
    unfold parseLine
    dsimp only
    split_ifs
    · exact hd
    · exact hd
    · intro e he
      rcases List.mem_append.mp he with he | he
      · exact hd e he
      · obtain rfl := List.mem_singleton.mp he
        exact Text.toAsciiUppercase_idem _
    · rw [hentry]
      exact hd
  -- By induction over the lines.
  have hlines : ∀ (lines : List (List Char)) (d : Descriptor),
      (∀ e ∈ d.extents, Text.toAsciiUppercase e.kind = e.kind) →
        ∀ e ∈ (lines.foldl parseLine d).extents, Text.toAsciiUppercase e.kind = e.kind := by
    intro lines
    induction lines with
    | nil => exact fun d hd => hd
    | cons line lines ih => exact fun d hd => ih _ (hline d line hd)
  refine hlines (Text.lines text) {} ?_ e h
  intro e he
  cases he

/-- The preflight of a text descriptor promises a direct read of one extent, which is flat or
empty. -/
theorem textRequiresNbd_eq_false {d : Descriptor} : textRequiresNbd d = false ↔
    d.hasParent = false ∧ ¬d.TwoGb ∧ ∃ e, d.extents = [e] ∧
      (Text.toAsciiUppercase e.kind = "FLAT".toList ∨
        Text.toAsciiUppercase e.kind = "ZERO".toList) := by
  unfold textRequiresNbd
  cases hparent : d.hasParent with
  | true => simp
  | false =>
    rcases hextents : d.extents with _ | ⟨e, _ | ⟨e', rest⟩⟩
    · simp
    · by_cases htwo : d.TwoGb
      · simp [htwo]
      · simp only [htwo, List.length_singleton, lt_self_iff_false, or_self, if_false, reduceCtorEq,
          Bool.false_eq_true, not_false_eq_true, true_and, List.cons.injEq, and_true,
          exists_eq_left']
        split
        · rename_i hkind
          exact iff_of_true rfl hkind
        · rename_i hkind
          exact iff_of_false Bool.true_eq_false_eq_False hkind
    · simp

/-- The preflight of a sparse file promises a direct read when the header is supported and the part
of the descriptor that it reads shows neither a parent nor several extents. -/
theorem sparseRequiresNbd_eq_false {file : List UInt8} :
    (sparseRequiresNbd file (file.take 512)).result = .ok false ↔
      ∃ cab, readSparseHeader file = .ok cab ∧ cab.unsupportedReason = none ∧
        ∀ d, glimpsed file cab = some d → ¬d.Split := by
  unfold sparseRequiresNbd
  rw [readSparseHeader_take (by omega)]
  cases hcab : readSparseHeader file with
  | error e => simp
  | ok cab =>
    simp only [Except.ok.injEq, exists_eq_left']
    cases hreason : cab.unsupportedReason with
    | some reason => simp
    | none =>
      simp only [Option.isSome_none, Bool.false_eq_true, if_false, true_and]
      unfold glimpsed
      by_cases hplace : cab.descriptorOffset ≠ 0 ∧ cab.descriptorSectors ≠ 0
      · rw [if_pos hplace, if_pos hplace]
        simp only [Logged.result_mul_bind, Logged.result_pure, Except.ok.injEq]
        cases glimpsedDescriptor file (mulw cab.descriptorOffset sector)
          (mulw cab.descriptorSectors sector) <;> simp
      · rw [if_neg hplace, if_neg hplace]
        simp

section Promise

variable {fs : FileSystem} {path : Path} {size : ℕ} {file : List UInt8}

/-- A raw image is promised by its extension alone. -/
theorem requiresNbd_raw (hsize : fs.metadata path = .ok size)
    (hext : lowerExtension path ∈ ["raw".toList, "img".toList]) :
    (requiresNbd fs path).result = .ok false := by
  unfold requiresNbd
  rw [hsize]
  dsimp only
  rw [if_pos hext]
  rfl

/-- A VMDK is promised by its header or by its text. -/
theorem requiresNbd_vmdk_iff (hsize : fs.metadata path = .ok size)
    (hopen : fs.openRead path = .ok file) (hext : lowerExtension path = "vmdk".toList) :
    (requiresNbd fs path).result = .ok false ↔
      (∃ cab, readSparseHeader file = .ok cab ∧ cab.unsupportedReason = none ∧
        ∀ d, glimpsed file cab = some d → ¬d.Split) ∨
      (isTextDescriptor file = true ∧
        ∃ d, descriptorOf file = some d ∧ textRequiresNbd d = false) := by
  unfold requiresNbd
  rw [hsize]
  dsimp only
  have hsparse_of : (∃ cab, readSparseHeader file = .ok cab ∧ cab.unsupportedReason = none ∧
      ∀ d, glimpsed file cab = some d → ¬d.Split) → isSparseHeader file = true :=
    fun ⟨_, hcab, _⟩ => (of_readSparseHeader hcab).1
  rw [hext, if_neg (by decide), if_neg (by decide), if_pos rfl, Logged.ofExcept_bind_eq_ok, hopen]
  simp only [Except.ok.injEq, exists_eq_left']
  rw [isSparseHeader_take (by omega), isTextDescriptor_take (by omega)]
  -- The preflight looks at the first 512 bytes only, and sees there what the reader sees.
  by_cases htext : isTextDescriptor file = true
  · have hsparse := not_isSparseHeader htext
    rw [hsparse] at hsparse_of
    rw [hsparse, if_neg Bool.false_ne_true, if_pos htext, Logged.ofExcept_bind_eq_ok,
      or_iff_right fun h => Bool.false_ne_true (hsparse_of h), descriptorOf_text htext]
    simp only [readToString_eq_ok hopen, Logged.result_pure, Except.ok.injEq, htext, true_and,
      Option.map_eq_some_iff, exists_exists_and_eq_and]
  · rw [or_iff_left fun h => htext h.1]
    by_cases hsparse : isSparseHeader file = true
    · rw [if_pos hsparse]
      exact sparseRequiresNbd_eq_false
    · rw [if_neg hsparse, if_neg htext]
      exact iff_of_false (fun h => by cases h) fun h => hsparse (hsparse_of h)

/-- Only raw images and VMDKs are promised. -/
theorem requiresNbd_extension (hsize : fs.metadata path = .ok size)
    (h : (requiresNbd fs path).result = .ok false) :
    lowerExtension path ∈ ["raw".toList, "img".toList] ∨ lowerExtension path = "vmdk".toList := by
  unfold requiresNbd at h
  rw [hsize] at h
  dsimp only at h
  split at h
  · exact Or.inl ‹_›
  · split at h
    · cases h
    · split at h
      · exact Or.inr ‹_›
      · cases h

/-- The extension of a raw image. -/
theorem formatByExtension_raw (hext : lowerExtension path ∈ ["raw".toList, "img".toList]) :
    formatByExtension path = some .raw := by
  unfold lowerExtension at hext
  unfold formatByExtension
  cases hextension : path.extension with
  | none =>
    rw [hextension] at hext
    exact absurd hext (by decide)
  | some extension =>
    rw [hextension] at hext
    simp only [Option.map_some, Option.getD_some, List.mem_cons, List.not_mem_nil, or_false] at hext
    show (if Text.toAsciiLowercase extension = "vmdk".toList then some Format.vmdk else _) = _
    rcases hext with hext | hext <;> rw [hext] <;> decide

/-- No image is raw by its first bytes. -/
theorem formatBySignature_ne_raw (header : List UInt8) : formatBySignature header ≠ some .raw := by
  unfold formatBySignature
  split_ifs <;> intro h <;> cases h

/-- A descriptor without a parent and without files is complete. -/
theorem chainPasses_of_flat (hopen : fs.openRead path = .ok file)
    (htext : isTextDescriptor file = true) {d : Descriptor} (hd : descriptorOf file = some d)
    (hparent : d.hasParent = false) {e : ExtentDescriptor} (hextents : d.extents = [e])
    (hfile : e.file = none) (left : ℕ) : ChainPasses fs (left + 1) path [] := by
  have hsparse := not_isSparseHeader htext
  have hname : d.parentName = none := by
    unfold Descriptor.hasParent at hparent
    rw [Bool.or_eq_false_iff] at hparent
    exact Option.isNone_iff_eq_none.mp (by simpa using hparent.1)
  have hlegible : Legible file := by
    refine ⟨fun h => absurd h (by rw [hsparse]; exact Bool.false_ne_true), fun _ => ?_⟩
    rw [descriptorOf_text htext] at hd
    obtain ⟨text, hutf8, -⟩ := Option.map_eq_some_iff.mp hd
    rw [hutf8]
    rfl
  refine ⟨List.not_mem_nil, file, hopen, hlegible, fun d' hd' => ?_⟩
  rw [hd] at hd'
  obtain rfl := Option.some.inj hd'
  refine ⟨⟨fun name h => ?_, fun e' he' _ name h => ?_⟩, fun name h => ?_⟩
  · rw [hname] at h
    cases h
  · rw [hextents, List.mem_singleton] at he'
    rw [he', hfile] at h
    cases h
  · rw [hname] at h
    cases h

/-- A promise is kept when opening does not ask for the external backend. -/
theorem promiseKept_iff : PromiseKept ν fs path ↔
    ((requiresNbd fs path).result = .ok false → ¬Delegates (identifyAndOpen ν fs path)) := by
  refine imp_congr_right fun _ => ⟨fun h ⟨reason, hreason⟩ => h.1 reason hreason, fun h => ⟨?_, ?_⟩⟩
  · intro reason hreason
    exact h ⟨reason, hreason⟩
  · intro message hmessage
    exact h (delegates_of_openStandard hmessage)

/-- What a kept promise says about the file. -/
theorem foreseen_of_kept (hsize : fs.metadata path = .ok size) (hopen : fs.openRead path = .ok file)
    (h : (requiresNbd fs path).result = .ok false → ¬Delegates (identifyAndOpen ν fs path)) :
    Foreseen fs path file := by
  rw [identifyAndOpen_delegates_iff hopen] at h
  constructor
  · -- A raw extension is promised without a look at the content.
    intro hext format hformat
    have hne : format ≠ .raw := fun hraw => formatBySignature_ne_raw _ (hraw ▸ hformat)
    have hidentified : identifiedFormat path file = format := by
      rw [identifiedFormat, hformat]
      rfl
    have hnot := h (requiresNbd_raw hsize hext)
    rw [hidentified] at hnot
    by_cases hvmdk : format = .vmdk
    · exact ⟨hvmdk, fun hdelegated => hnot ⟨hne, fun _ => hdelegated⟩⟩
    · exact absurd ⟨hne, fun hvmdk' => absurd hvmdk' hvmdk⟩ hnot
  · -- A supported header is promised on the part of the descriptor that the preflight reads.
    intro hext cab hcab hreason hchain hglimpsed
    obtain ⟨hsparse, hlen⟩ := of_readSparseHeader hcab
    have hidentified : identifiedFormat path file = .vmdk :=
      identifiedFormat_vmdk (by omega) (Or.inl hsparse)
    have hnot := h ((requiresNbd_vmdk_iff hsize hopen hext).mpr
      (Or.inl ⟨cab, hcab, hreason, hglimpsed⟩))
    rw [hidentified, VmdkDelegated, if_pos hsparse] at hnot
    constructor
    · intro hmany
      exact hnot ⟨by decide, fun _ => ⟨hchain, Or.inr ⟨cab, hcab, Or.inr hmany⟩⟩⟩
    · intro d hd hsplit
      exact hnot ⟨by decide, fun _ => ⟨hchain, Or.inl ⟨d, hd, hsplit⟩⟩⟩
  · -- A flat extent is promised whether or not the line names a file.
    intro hext htext d hd hparent htwo e hextents hkind hfile
    have hsparse := not_isSparseHeader htext
    have hidentified : identifiedFormat path file = .vmdk :=
      identifiedFormat_vmdk (length_of_isTextDescriptor htext) (Or.inr htext)
    have hupper : Text.toAsciiUppercase e.kind = "FLAT".toList := by
      rw [hkind]
      decide
    have hpromised : textRequiresNbd d = false :=
      textRequiresNbd_eq_false.mpr ⟨hparent, htwo, e, hextents, Or.inl hupper⟩
    have hdelegated : ExtentDelegated fs path e := by
      rw [ExtentDelegated, hkind, if_neg (by decide), if_pos (by decide)]
      exact hfile
    refine h ((requiresNbd_vmdk_iff hsize hopen hext).mpr (Or.inr ⟨htext, d, hd, hpromised⟩)) ?_
    rw [hidentified, VmdkDelegated, hsparse, if_neg Bool.false_ne_true, if_pos htext]
    have hchain := chainPasses_of_flat hopen htext hd hparent hextents hfile maxVmdkParentDepth
    refine ⟨by decide, fun _ => ⟨hchain, d, hd, ?_⟩⟩
    rw [hextents]
    exact Or.inr (Or.inr (Or.inl hdelegated))

/-- The promise is kept for a file of the kind that the preflight foresees. -/
theorem kept_of_foreseen (hsize : fs.metadata path = .ok size) (hopen : fs.openRead path = .ok file)
    (hforeseen : Foreseen fs path file) (hpromise : (requiresNbd fs path).result = .ok false) :
    ¬Delegates (identifyAndOpen ν fs path) := by
  rw [identifyAndOpen_delegates_iff hopen]
  rintro ⟨hne, hdelegated⟩
  rcases requiresNbd_extension hsize hpromise with hext | hext
  · -- By its extension the image is raw, so its format comes from its first bytes.
    cases hformat : formatBySignature (file.take 1024) with
    | none =>
      refine hne ?_
      rw [identifiedFormat, hformat, formatByExtension_raw hext]
      rfl
    | some format =>
      obtain ⟨rfl, hnot⟩ := hforeseen.raw hext format hformat
      refine hnot (hdelegated ?_)
      rw [identifiedFormat, hformat]
      rfl
  rcases (requiresNbd_vmdk_iff hsize hopen hext).mp hpromise with
    ⟨cab, hcab, hreason, hglimpsed⟩ | ⟨htext, d, hd, hpromised⟩
  · -- A sparse VMDK: the reader leaves it to NBD for its descriptor, its header or its tables.
    obtain ⟨hsparse, hlen⟩ := of_readSparseHeader hcab
    have hidentified : identifiedFormat path file = .vmdk :=
      identifiedFormat_vmdk (by omega) (Or.inl hsparse)
    obtain ⟨hchain, hvmdk⟩ := hdelegated hidentified
    obtain ⟨htables, hwhole⟩ := hforeseen.sparse hext cab hcab hreason hchain hglimpsed
    rw [if_pos hsparse] at hvmdk
    rcases hvmdk with ⟨d, hd, hsplit⟩ | ⟨cab', hcab', hunsupported | hmany⟩
    · exact hwhole d hd hsplit
    · rw [hcab] at hcab'
      obtain rfl := Except.ok.inj hcab'
      exact hunsupported hreason
    · rw [hcab] at hcab'
      obtain rfl := Except.ok.inj hcab'
      exact htables hmany
  · have hsparse := not_isSparseHeader htext
    have hidentified : identifiedFormat path file = .vmdk :=
      identifiedFormat_vmdk (length_of_isTextDescriptor htext) (Or.inr htext)
    obtain ⟨-, hvmdk⟩ := hdelegated hidentified
    rw [hsparse, if_neg Bool.false_ne_true, if_pos htext] at hvmdk
    obtain ⟨d', hd', hvmdk⟩ := hvmdk
    rw [hd] at hd'
    obtain rfl := Option.some.inj hd'
    obtain ⟨hparent, htwo, e, hextents, hkind⟩ := textRequiresNbd_eq_false.mp hpromised
    -- The parser has put the kind in upper case, so the two readings of it agree.
    have hupper : Text.toAsciiUppercase e.kind = e.kind := by
      rw [descriptorOf_text htext] at hd
      obtain ⟨text, -, rfl⟩ := Option.map_eq_some_iff.mp hd
      exact parseDescriptor_kind (by rw [hextents]; exact List.mem_singleton_self e)
    rw [hupper] at hkind
    rw [hextents, hparent] at hvmdk
    rcases hvmdk with hvmdk | hvmdk | hvmdk | ⟨-, hvmdk⟩
    · cases hvmdk
    · cases hvmdk
    · rcases hkind with hkind | hkind
      · rw [ExtentDelegated, hkind, if_neg (by decide), if_pos (by decide)] at hvmdk
        exact hforeseen.text hext htext d hd hparent htwo e hextents hkind hvmdk
      · rw [ExtentDelegated, if_pos hkind] at hvmdk
        exact hvmdk
    · exact hvmdk

end Promise

/-- The preflight never promises a direct read that a standard inspection refuses, if and only if
the file is of a kind that it foresees. -/
theorem requiresNbd_kept_iff (ν : Type) (fs : FileSystem) (path : Path) :
    PromiseKept ν fs path ↔ ∀ size file, fs.metadata path = .ok size →
      fs.openRead path = .ok file → Foreseen fs path file := by
  rw [promiseKept_iff]
  constructor
  · intro h size file hsize hopen
    exact foreseen_of_kept hsize hopen h
  · intro h hpromise
    cases hsize : fs.metadata path with
    | error e =>
      unfold requiresNbd at hpromise
      rw [hsize] at hpromise
      cases hpromise
    | ok size =>
      cases hopen : fs.openRead path with
      | ok file => exact kept_of_foreseen hsize hopen (h size file hsize hopen) hpromise
      | error e =>
        -- A file that cannot be opened is not identified.
        rw [identifyAndOpen, delegates_bind_iff]
        rintro ⟨info, hinfo, -⟩
        rw [Logged.result_mapError] at hinfo
        have herror : (identifyImage fs path).result = .error (.error e) := by
          rw [identifyImage_sound, hopen]
          rfl
        rw [herror] at hinfo
        cases hinfo

/-- The first bytes of a QCOW2 image. -/
def qcow2File : List UInt8 := asciiBytes "QFI" ++ [0xFB, 0, 0, 0, 3]

/-- A QCOW2 image with the name of a raw one. -/
def qcow2Files : FileMap where
  identity p := if p = inRoot "disk.raw" then some p else none
  contents _ := qcow2File
  size_lt _ := by decide
  utf8 _ h := absurd h (by decide)

/-- The image exists and names no other file. The preflight promises a direct read of it by its
extension, and a standard inspection refuses it by its first bytes. -/
theorem requiresNbd_qcow2_refused :
    (∃ size, qcow2Files.fs.metadata (inRoot "disk.raw") = .ok size) ∧
      qcow2Files.fs.openRead (inRoot "disk.raw") = .ok qcow2File ∧
      descriptorOf qcow2File = none ∧ ¬PromiseKept Unit qcow2Files.fs (inRoot "disk.raw") := by
  have hfile : qcow2Files.file (inRoot "disk.raw") = some qcow2File := by decide
  have hsize := FileMap.metadata_of_file hfile
  have hopen := FileMap.openRead_of_file hfile
  refine ⟨⟨_, hsize⟩, hopen, by decide, fun hkept => ?_⟩
  have hforeseen := foreseen_of_kept hsize hopen (promiseKept_iff.mp hkept)
  have hvmdk := (hforeseen.raw (by decide) .qcow2 (by decide)).1
  cases hvmdk

end VmSpect
