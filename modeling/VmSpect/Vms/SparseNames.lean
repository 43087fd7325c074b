import VmSpect.Vms.DiskReader
import VmSpect.Vms.VmdkChain
import VmSpect.Vms.SparseReads

/-!
# The names around a sparse image

A monolithic sparse image is one file, and the extent that its embedded descriptor declares is the
file itself. Reading never uses the name that is written there, but the validation before it looks
for a file of that name. Here one image is opened in two places: under two names of its own, with
two names in its descriptor, and with any other files around it. The two readers are compared by a
simulation (`Twin`), which a read keeps, and the outcomes differ exactly when the declared file is
found in one place and not in the other.
-/

namespace VmSpect

open Bytes Words UnixPath Vmdk

/-! ## Two files that differ in one region -/

/-- A part of a file lies outside of the region from `lo` to `hi`. -/
def Avoids (lo hi pos len : ℕ) : Prop := len = 0 ∨ pos + len ≤ lo ∨ hi ≤ pos

/-- Two files of one length that agree outside of the region. -/
structure AgreeOutside (lo hi : ℕ) (x y : List UInt8) : Prop where
  length : x.length = y.length
  bytes : ∀ i, i < lo ∨ hi ≤ i → zeroExtended x i = zeroExtended y i

namespace AgreeOutside

variable {lo hi pos len : ℕ} {x y : List UInt8}

/-- `read_or_zeros` outside of the region reads the same. -/
theorem readOrZeros_eq (h : AgreeOutside lo hi x y) (ha : Avoids lo hi pos len) :
    readOrZeros x pos len = readOrZeros y pos len := by
  refine window_congr fun k hk => h.bytes _ ?_
  unfold Avoids at ha
  omega

/-- A slice is what `read_or_zeros` reads, cut off where the file ends. -/
theorem slice_eq_take (x : List UInt8) (pos len : ℕ) :
    slice x pos len = (readOrZeros x pos len).take (x.length - pos) := by
  refine List.ext_getElem (by simp [length_slice, readOrZeros, Nat.min_comm]) ?_
  intro k hk hk'
  rw [length_slice] at hk
  simp only [slice, readOrZeros, window, zeroExtended, List.getElem_take, List.getElem_drop,
    List.getElem_map, List.getElem_range]
  rw [List.getD_eq_getElem?_getD, List.getElem?_eq_getElem (by omega), Option.getD_some]

/-- A slice outside of the region is the same in both. -/
theorem slice_eq (h : AgreeOutside lo hi x y) (ha : Avoids lo hi pos len) :
    slice x pos len = slice y pos len := by
  rw [slice_eq_take, slice_eq_take, h.readOrZeros_eq ha, h.length]

/-- `read_exact` outside of the region does the same. -/
theorem readExact_eq (h : AgreeOutside lo hi x y) (ha : Avoids lo hi pos len) :
    readExact x pos len = readExact y pos len := by
  rw [readExact, readExact, h.length, h.slice_eq ha]

end AgreeOutside

/-! ## Reading the same guest from both -/

/-- The tables and the grains that an extent leads to lie outside of the region. -/
structure Vmdk.SparseExtent.Apart (lo hi : ℕ) (x : SparseExtent) : Prop where
  tables : ∀ i gde : ℕ, x.directory[i]? = some gde → 1 < gde →
    Avoids lo hi (mulw gde sector) (x.gtesPerGt * 4)
  grains : ∀ i gde j gte : ℕ, x.directory[i]? = some gde → 1 < gde →
    (wordsOf (slice x.file (mulw gde sector) (x.gtesPerGt * 4)))[j]? = some gte → 1 < gte →
      ∀ within n, within + n ≤ x.grainBytes → Avoids lo hi (addw (mulw gte sector) within) n

/-- Two extents that read the same guest: they differ only in a region of their files that the guest
has no part in. Tables that were loaded are those of the file. -/
structure Twin (lo hi : ℕ) (x y : SparseExtent) : Prop where
  shape : y = { x with file := y.file }
  files : AgreeOutside lo hi x.file y.file
  apart : x.Apart lo hi
  loaded : ∀ i table, x.tables i = some table → ∃ gde, x.directory[i]? = some gde ∧ 1 < gde ∧
    table = wordsOf (slice x.file (mulw gde sector) (x.gtesPerGt * 4))

namespace Twin

variable {lo hi : ℕ} {x y : SparseExtent}

/-- An extent with its file replaced by the other one. -/
theorem withFile (h : Twin lo hi x y) : Twin lo hi x { x with file := y.file } :=
  ⟨rfl, h.files, h.apart, h.loaded⟩

/-- A table that is found is one of the file, and both extents find it. -/
theorem table (h : Twin lo hi x y) (i : ℕ) :
    ∃ x' y' answer, x.table i = (x', answer) ∧ y.table i = (y', answer) ∧ Twin lo hi x' y' ∧
      x'.grainBytes = x.grainBytes ∧
      ∀ table, answer = .ok (some table) → ∃ gde, x'.directory[i]? = some gde ∧ 1 < gde ∧
        table = wordsOf (slice x'.file (mulw gde sector) (x'.gtesPerGt * 4)) := by
  unfold SparseExtent.table
  rw [h.shape]
  dsimp only
  cases hgde : x.directory[i]? with
  | none => exact ⟨x, { x with file := y.file }, _, rfl, rfl, h.withFile, rfl, nofun⟩
  | some gde =>
    dsimp only
    by_cases hle : gde ≤ 1
    · rw [if_pos hle, if_pos hle]
      exact ⟨x, { x with file := y.file }, _, rfl, rfl, h.withFile, rfl, nofun⟩
    · rw [if_neg hle, if_neg hle]
      cases htable : x.tables i with
      | some table =>
        refine ⟨x, { x with file := y.file }, _, rfl, rfl, h.withFile, rfl, ?_⟩
        rintro _ ⟨⟩
        exact h.loaded i table htable
      | none =>
        dsimp only
        have hread := h.files.readExact_eq (h.apart.tables i gde hgde (by omega))
        cases seekFile (mulw gde sector) with
        | error e => exact ⟨x, { x with file := y.file }, _, rfl, rfl, h.withFile, rfl, nofun⟩
        | ok _ =>
          dsimp only
          rw [← hread]
          cases hraw : readExact x.file (mulw gde sector) (x.gtesPerGt * 4) with
          | error e => exact ⟨x, { x with file := y.file }, _, rfl, rfl, h.withFile, rfl, nofun⟩
          | ok raw =>
            -- The table that is loaded now is the one of the file.
            have hslice : raw = slice x.file (mulw gde sector) (x.gtesPerGt * 4) := by
              unfold readExact at hraw
              split at hraw
              · exact (Except.ok.inj hraw).symm
              · cases hraw
            refine ⟨_, _, _, rfl, rfl, ⟨rfl, h.files, ⟨h.apart.tables, h.apart.grains⟩, ?_⟩, rfl, ?_⟩
            · intro j table hj
              by_cases hij : j = i
              · subst hij
                simp only [Function.update_self, Option.some.injEq] at hj
                exact ⟨gde, hgde, by omega, by rw [← hj, hslice]⟩
              · simp only [Function.update_of_ne hij] at hj
                exact h.loaded j table hj
            · rintro _ ⟨⟩
              exact ⟨gde, hgde, by omega, by rw [hslice]⟩

/-- A part of a grain of a table of the file. -/
theorem grainPart (h : Twin lo hi x y) {i j within n : ℕ} {table : Option (List ℕ)}
    (htable : ∀ t, table = some t → ∃ gde, x.directory[i]? = some gde ∧ 1 < gde ∧
      t = wordsOf (slice x.file (mulw gde sector) (x.gtesPerGt * 4)))
    (hn : within + n ≤ x.grainBytes) :
    x.grainPart (SparseExtent.grainSector table j) within n =
      y.grainPart (SparseExtent.grainSector table j) within n := by
  unfold SparseExtent.grainPart
  split
  · rename_i hlt
    have hread : readOrZeros x.file
          (addw (mulw (SparseExtent.grainSector table j) sector) within) n =
        readOrZeros y.file (addw (mulw (SparseExtent.grainSector table j) sector) within) n := by
      -- An allocated grain comes from an entry of the table.
      cases ht : table with
      | none =>
        rw [ht] at hlt
        simp [SparseExtent.grainSector] at hlt
      | some t =>
        obtain ⟨gde, hgde, hpos, heq⟩ := htable t ht
        rw [ht] at hlt
        cases hgte : t[j]? with
        | none => simp [SparseExtent.grainSector, hgte] at hlt
        | some gte =>
          have hsector : SparseExtent.grainSector (some t) j = gte := by
            simp [SparseExtent.grainSector, hgte]
          rw [hsector] at hlt ⊢
          rw [heq] at hgte
          exact h.files.readOrZeros_eq (h.apart.grains i gde j gte hgde hpos hgte hlt within n hn)
    rw [tryReadOrZeros_sound, tryReadOrZeros_sound, hread]
  · rfl

/-- The loop of a read. -/
theorem readGrains (h : Twin lo hi x y) (offset total done : ℕ) (buf : List UInt8) :
    ∃ x' y' answer, SparseExtent.readGrains offset total x done buf = (x', answer) ∧
      SparseExtent.readGrains offset total y done buf = (y', answer) ∧ Twin lo hi x' y' := by
  -- Both loops take the same branches: positions and tables are the same.
  induction hleft : total - done using Nat.strong_induction_on generalizing x y done buf with
  | _ left ih =>
    rw [SparseExtent.readGrains.eq_def offset total x, SparseExtent.readGrains.eq_def offset total y]
    by_cases hlt : done < total
    · rw [dif_pos hlt, dif_pos hlt]
      have hgrainBytes : y.grainBytes = x.grainBytes := by rw [h.shape]
      have hgtesPerGt : y.gtesPerGt = x.gtesPerGt := by rw [h.shape]
      dsimp only
      rw [hgrainBytes, hgtesPerGt]
      obtain ⟨x₁, y₁, answer, hx, hy, htwin, hgrain, htable⟩ :=
        h.table (addw offset done / x.grainBytes / x.gtesPerGt % 2^32)
      rw [hx, hy]
      cases answer with
      | error e => exact ⟨x₁, y₁, _, rfl, rfl, htwin⟩
      | ok table =>
        dsimp only
        have hwithin : addw offset done % x.grainBytes < x.grainBytes :=
          Nat.mod_lt _ x.grainBytes_pos
        -- The part of the grain lies outside of the region, where the files agree.
        rw [← htwin.grainPart (fun t ht => htable t (by rw [ht])) (by rw [hgrain]; omega)]
        cases x₁.grainPart _ _ _ with
        | error e => exact ⟨x₁, y₁, _, rfl, rfl, htwin⟩
        | ok part => exact ih _ (by omega) htwin _ _ rfl
    · rw [dif_neg hlt, dif_neg hlt]
      exact ⟨x, y, _, rfl, rfl, h⟩

/-- A read answers the same from both, and leaves them alike. -/
theorem readAt (h : Twin lo hi x y) (offset : ℕ) (buf : List UInt8) :
    ∃ x' y' answer, x.readAt offset buf = (x', answer) ∧ y.readAt offset buf = (y', answer) ∧
      Twin lo hi x' y' := by
  have hcapacity : y.capacityBytes = x.capacityBytes := by rw [h.shape]
  unfold SparseExtent.readAt
  rw [hcapacity]
  split
  · exact ⟨x, y, _, rfl, rfl, h⟩
  · exact h.readGrains _ _ _ _

end Twin

/-! ## What opening depends on -/

/-- The grain directory is one that is read, but it does not lie in a file of this length. -/
def DirectoryOutside (h : SparseHeader) (length : ℕ) : Prop :=
  h.unsupportedReason = none ∧ h.tableBytes ≠ 0 ∧ h.directoryTables ≤ 2^20 ∧
    ¬(mulw h.directoryOffset sector < 2^63 ∧
      (h.directoryTables * 4 = 0 ∨ mulw h.directoryOffset sector + h.directoryTables * 4 ≤ length))

/-- Two outcomes of opening the same sparse file, up to a region that is not part of it. -/
inductive SameExtent (lo hi : ℕ) :
    Except (Stop IoError) (OpenResult SparseExtent) →
      Except (Stop IoError) (OpenResult SparseExtent) → Prop where
  | needsNbd (reason : String) : SameExtent lo hi (.ok (.needsNbd reason)) (.ok (.needsNbd reason))
  | stop (s : Stop IoError) : SameExtent lo hi (.error s) (.error s)
  | native (x y : SparseExtent) (h : Twin lo hi x y) :
      SameExtent lo hi (.ok (.native x)) (.ok (.native y))

section FromHeader

variable {lo hi : ℕ} {f g : List UInt8} {cab : SparseHeader}

/-- Opening does not depend on what is in the region, when neither the directory nor what it leads
to lies there. -/
theorem fromHeader_same (hfiles : AgreeOutside lo hi f g)
    (hdirectory : Avoids lo hi (mulw cab.directoryOffset sector) (cab.directoryTables * 4))
    (hguest : ∀ x, (SparseExtent.fromHeader f cab).result = .ok (.native x) → x.Apart lo hi) :
    SameExtent lo hi (SparseExtent.fromHeader f cab).result
      (SparseExtent.fromHeader g cab).result := by
  rw [SparseExtent.fromHeader_result] at hguest ⊢
  rw [SparseExtent.fromHeader_result, ← hfiles.readExact_eq hdirectory]
  cases hreason : cab.unsupportedReason with
  | some reason => exact .needsNbd reason
  | none =>
    simp only [hreason] at hguest ⊢
    split
    · exact .stop _
    · split
      · exact .needsNbd _
      · cases hseek : seekFile (mulw cab.directoryOffset sector) with
        | error e => exact .stop _
        | ok _ =>
          cases hread : readExact f (mulw cab.directoryOffset sector) (cab.directoryTables * 4) with
          | error e => exact .stop _
          | ok raw =>
            -- The directory is the same, and no table is loaded yet.
            refine .native _ _ ⟨rfl, hfiles, hguest _ ?_, ?_⟩
            · simp_all
            · intro i table h
              cases h

/-- Opening fails with an error exactly when the directory lies outside of the file. -/
theorem fromHeader_error_iff :
    (∃ e, (SparseExtent.fromHeader f cab).result = .error (.error e)) ↔
      DirectoryOutside cab f.length := by
  rw [SparseExtent.fromHeader_result]
  unfold DirectoryOutside
  cases hreason : cab.unsupportedReason with
  | some reason => simp
  | none =>
    simp only [true_and]
    by_cases hzero : cab.tableBytes = 0
    · simp [hzero]
    · -- The errors come from the seek and from the read of the directory, in that order.
      by_cases hmany : 2^20 < cab.directoryTables
      · simp only [hzero, dite_false, if_pos hmany]
        constructor
        · rintro ⟨e, he⟩
          cases he
        · rintro ⟨-, hle, -⟩
          omega
      · simp only [hzero, dite_false, if_neg hmany, not_false_eq_true, not_lt.mp hmany, ne_eq,
          true_and]
        rw [seekFile_sound, readExact_sound]
        by_cases hseek : mulw cab.directoryOffset sector < 2^63
        · by_cases hread : cab.directoryTables * 4 = 0 ∨
              mulw cab.directoryOffset sector + cab.directoryTables * 4 ≤ f.length
          · simp only [if_pos hseek, if_pos hread, reduceCtorEq, exists_false, false_iff, not_not]
            exact ⟨hseek, hread⟩
          · simp only [if_pos hseek, if_neg hread]
            exact iff_of_true ⟨_, rfl⟩ fun h => hread h.2
        · simp only [if_neg hseek]
          exact iff_of_true ⟨_, rfl⟩ fun h => hseek h.1

end FromHeader

/-! ## One image in two places -/

/-- A self-contained sparse image in a place: the files around it, its path and its contents, with
an embedded descriptor that has no parent and declares one extent. -/
structure Placement where
  fs : FileSystem
  path : Path
  file : List UInt8
  cab : SparseHeader
  descriptor : Descriptor
  extent : ExtentDescriptor
  opened : fs.openRead path = .ok file
  header : readSparseHeader file = .ok cab
  embedded : (embeddedDescriptor file cab).result = .ok (some descriptor)
  noParent : descriptor.hasParent = false
  oneExtent : descriptor.extents = [extent]

namespace Placement

/-- Where the embedded descriptor starts and ends. -/
def lo (a : Placement) : ℕ := mulw a.cab.descriptorOffset sector

def hi (a : Placement) : ℕ := a.lo + mulw a.cab.descriptorSectors sector

/-- The file that the extent names is there. An extent of zeros or without a name asks for none. -/
def Found (a : Placement) : Prop :=
  a.extent.kind = "ZERO".toList ∨ ∀ name, a.extent.file = some name →
    ∃ size, a.fs.metadata (resolveExtentPath a.path name) = .ok size

/-- The same image in another place: its header is the same, its descriptor differs at most in the
file name of its extent, and the rest of the file, in which the guest lies, is the same. -/
structure Same (a b : Placement) : Prop where
  cab : b.cab = a.cab
  extent : b.extent = { a.extent with file := b.extent.file }
  files : AgreeOutside a.lo a.hi a.file b.file
  directory : Avoids a.lo a.hi (mulw a.cab.directoryOffset sector) (a.cab.directoryTables * 4)
  guest : ∀ x, (SparseExtent.fromHeader a.file a.cab).result = .ok (.native x) →
    x.Apart a.lo a.hi

end Placement

variable {ν : Type}

/-- The answers to a sequence of reads of a backend, each an offset and a length. -/
def Backend.readAll (nbd : NbdApi ν) (backend : Backend ν) :
    List (ℕ × ℕ) → List (Except IoError (List UInt8))
  | [] => []
  | (offset, len) :: rest =>
    let (backend', answer) := backend.readRange nbd offset len
    answer :: backend'.readAll nbd rest

/-- Two outcomes of opening an image are the same: two backends that answer all reads alike, two
refusals with one reason, two errors, or two panics. -/
def SameOutcome (nbd : NbdApi ν) :
    Except (Stop VmSpectError) (OpenResult (Backend ν × String)) →
      Except (Stop VmSpectError) (OpenResult (Backend ν × String)) → Prop
  | .ok (.native (x, mode)), .ok (.native (y, mode')) =>
    mode = mode' ∧ ∀ reads, x.readAll nbd reads = y.readAll nbd reads
  | .ok (.needsNbd reason), .ok (.needsNbd reason') => reason = reason'
  | .error (.error _), .error (.error _) => True
  | .error .panic, .error .panic => True
  | _, _ => False

/-- Readers of the same guest answer all reads alike. -/
theorem Twin.readAll {lo hi : ℕ} {x y : SparseExtent} (h : Twin lo hi x y) (nbd : NbdApi ν)
    (reads : List (ℕ × ℕ)) :
    (Backend.sparse x).readAll nbd reads = (Backend.sparse y).readAll nbd reads := by
  induction reads generalizing x y with
  | nil => rfl
  | cons read rest ih =>
    obtain ⟨offset, len⟩ := read
    obtain ⟨x', y', answer, hx, hy, htwin⟩ := h.readAt offset (List.replicate len 0)
    simp only [Backend.readAll, Backend.readRange, hx, hy]
    cases answer with
    | error e => exact congrArg _ (ih htwin)
    | ok done => exact congrArg _ (ih htwin)

/-- What opening makes of the outcome of `from_header`. -/
def asBackend : Except (Stop IoError) (OpenResult SparseExtent) →
    Except (Stop VmSpectError) (OpenResult (Backend ν × String))
  | .ok (.native x) => .ok (.native (.sparse x, "vmdk monolithicSparse"))
  | .ok (.needsNbd reason) => .ok (.needsNbd reason)
  | .error stop => .error (stop.map .io)

/-- The same extents give the same outcomes. -/
theorem SameExtent.asBackend {lo hi : ℕ} {r s : Except (Stop IoError) (OpenResult SparseExtent)}
    (h : SameExtent lo hi r s) (nbd : NbdApi ν) :
    SameOutcome nbd (VmSpect.asBackend r) (VmSpect.asBackend s) := by
  cases h with
  | needsNbd reason => rfl
  | stop stop => cases stop <;> trivial
  | native x y h => exact ⟨rfl, h.readAll nbd⟩

namespace Placement

variable (a : Placement)

/-- The file is a sparse one. -/
theorem sparse : isSparseHeader a.file = true := (of_readSparseHeader a.header).1

/-- A descriptor without a parent names none. -/
theorem parentName_none : a.descriptor.parentName = none := by
  have h := a.noParent
  rw [Descriptor.hasParent, Bool.or_eq_false_iff] at h
  exact Option.isSome_eq_false_iff.mp h.1 |> Option.isNone_iff_eq_none.mp

/-- The validation of the image looks for the file of its extent. -/
theorem validate_result :
    (validateVmdkComponents a.fs a.path).result =
      (validateExtentPaths a.fs a.path [a.extent]).mapError .error := by
  have hopen : openReferenced a.fs a.path none = .ok a.file := by
    rw [openReferenced]
    exact openMainImageFile_eq_ok.mpr a.opened
  have hfile : (Logged.ofExcept ((Except.ok a.file : Except VmSpectError _).mapError
      Stop.error)).result = .ok a.file := rfl
  have hdescriptor : (componentDescriptor a.fs a.path a.file).result = .ok (some a.descriptor) := by
    rw [componentDescriptor_sound]
    rw [isSparseHeader_take (by omega), a.sparse, if_pos rfl, readSparseHeader_take (by omega),
      a.header]
    exact a.embedded
  unfold validateVmdkComponents validateVmdkComponentsInner
  dsimp only
  rw [if_neg (List.not_mem_nil), hopen, Logged.bind_of_ok hfile, Logged.bind_of_ok hdescriptor]
  dsimp only
  rw [validateDescriptorComponents, validateParentReference, a.parentName_none, a.oneExtent]
  cases validateExtentPaths a.fs a.path [a.extent] <;> rfl

/-- The check of the extent passes when its file is there. -/
theorem validateExtent_found (h : a.Found) : validateExtentPaths a.fs a.path [a.extent] = .ok () := by
  unfold validateExtentPaths
  split
  · rfl
  · rename_i hkind
    rcases h with hzero | hfound
    · exact absurd hzero hkind
    · cases hname : a.extent.file with
      | none => rfl
      | some name =>
        obtain ⟨size, hsize⟩ := hfound name hname
        simp only [ensureComponentExists_sound, hsize]
        rfl

/-- It fails when the file is not there. -/
theorem validateExtent_missing (h : ¬a.Found) :
    ∃ e, validateExtentPaths a.fs a.path [a.extent] = .error e := by
  rw [Found, not_or] at h
  unfold validateExtentPaths
  rw [if_neg h.1]
  cases hname : a.extent.file with
  | none => exact absurd (by simp [hname]) h.2
  | some name =>
    cases hsize : a.fs.metadata (resolveExtentPath a.path name) with
    | ok size =>
      refine absurd ?_ h.2
      rintro name' hname'
      rw [hname] at hname'
      cases hname'
      exact ⟨size, hsize⟩
    | error e =>
      simp only [ensureComponentExists_sound, hsize]
      exact ⟨_, rfl⟩

/-- An image whose declared file is found is opened by its contents alone. -/
theorem open_found (h : a.Found) :
    (openVmdkNative a.fs a.path : Logged _ (OpenResult (Backend ν × String))).result =
      asBackend (SparseExtent.fromHeader a.file a.cab).result := by
  -- The validation finds the file, and from there on only the contents matter.
  have hvalid : (validateVmdkComponents a.fs a.path).result = .ok () := by
    rw [a.validate_result, a.validateExtent_found h]
    rfl
  have hmain := openMainImageFile_eq_ok.mpr a.opened
  have hfile : (Logged.ofExcept ((Except.ok a.file : Except VmSpectError _).mapError
      Stop.error)).result = .ok a.file := rfl
  have hcab : (Logged.ofExcept ((Except.ok a.cab : Except IoError SparseHeader).mapError
      fun e => Stop.error (VmSpectError.io e))).result = .ok a.cab := rfl
  rw [openVmdkNative_front]
  rw [Logged.bind_of_ok hvalid, hmain, Logged.bind_of_ok hfile]
  dsimp only
  rw [isSparseHeader_take (by omega), a.sparse, if_pos rfl, openMonolithicSparse,
    readSparseHeader_take (by omega), a.header, Logged.bind_of_ok hcab,
    Logged.bind_of_ok a.embedded]
  have hextents : (some a.descriptor).any (fun d => decide (1 < d.extents.length)) = false := by
    simp [a.oneExtent]
  have hparent : (some a.descriptor).any (·.hasParent) = false := by
    simp [a.noParent]
  dsimp only
  rw [hparent, hextents, if_neg Bool.false_ne_true, if_neg Bool.false_ne_true]
  cases hresult : (SparseExtent.fromHeader a.file a.cab).result with
  | error stop =>
    have hmap : ((SparseExtent.fromHeader a.file a.cab).mapError (Stop.map VmSpectError.io)).result =
        .error (stop.map .io) := by rw [Logged.result_mapError, hresult]; rfl
    rw [Logged.bind_of_error hmap]
    rfl
  | ok opened =>
    have hmap : ((SparseExtent.fromHeader a.file a.cab).mapError (Stop.map VmSpectError.io)).result =
        .ok opened := by rw [Logged.result_mapError, hresult]; rfl
    rw [Logged.bind_of_ok hmap]
    cases opened <;> rfl

/-- An image whose declared file is not found is not opened. -/
theorem open_missing (h : ¬a.Found) :
    ∃ e, (openVmdkNative a.fs a.path : Logged _ (OpenResult (Backend ν × String))).result =
      .error (.error e) := by
  obtain ⟨e, he⟩ := a.validateExtent_missing h
  have hvalid : (validateVmdkComponents a.fs a.path).result = .error (.error e) := by
    rw [a.validate_result, he]
    rfl
  rw [openVmdkNative_front]
  rw [Logged.bind_of_error hvalid]
  exact ⟨e, rfl⟩

variable {a} {b : Placement}

/-- In one place the declared file is found and in the other one it is not: the outcomes agree only
when the image cannot be opened anyway. -/
theorem sameOutcome_of_found_iff (nbd : NbdApi ν) (ha : a.Found)
    {r : Except (Stop VmSpectError) (OpenResult (Backend ν × String))}
    (hr : ∃ e, r = .error (.error e)) :
    (SameOutcome nbd (openVmdkNative a.fs a.path).result r ↔
        DirectoryOutside a.cab a.file.length) ∧
      (SameOutcome nbd r (openVmdkNative a.fs a.path).result ↔
        DirectoryOutside a.cab a.file.length) := by
  obtain ⟨e, rfl⟩ := hr
  rw [a.open_found ha, ← fromHeader_error_iff]
  rcases (SparseExtent.fromHeader a.file a.cab).result with (e | -) | x | reason
  · exact ⟨iff_of_true trivial ⟨e, rfl⟩, iff_of_true trivial ⟨e, rfl⟩⟩
  all_goals exact ⟨iff_of_false id nofun, iff_of_false id nofun⟩

/-- The same image in two places is opened with the same outcome, and then read alike, exactly when
the file that its extent names is found in both places or in neither, or its grain directory lies
outside of the file, so that it cannot be opened in any place. -/
theorem open_renamed_iff (nbd : NbdApi ν) (h : a.Same b) :
    SameOutcome nbd (openVmdkNative a.fs a.path).result (openVmdkNative b.fs b.path).result ↔
      (a.Found ↔ b.Found) ∨ DirectoryOutside a.cab a.file.length := by
  have hlength := h.files.length
  by_cases ha : a.Found <;> by_cases hb : b.Found
  · refine iff_of_true ?_ (Or.inl (iff_of_true ha hb))
    rw [a.open_found ha, b.open_found hb, h.cab]
    exact (fromHeader_same h.files h.directory h.guest).asBackend nbd
  · rw [(sameOutcome_of_found_iff nbd ha (b.open_missing hb)).1]
    simp [ha, hb]
  · rw [(sameOutcome_of_found_iff nbd hb (a.open_missing ha)).2, h.cab, hlength]
    simp [ha, hb]
  · refine iff_of_true ?_ (Or.inl (iff_of_false ha hb))
    obtain ⟨e, he⟩ := a.open_missing (ν := ν) ha
    obtain ⟨e', he'⟩ := b.open_missing (ν := ν) hb
    rw [he, he']
    trivial

end Placement

/-! ## A renamed image -/

/-- An image of one empty sector, with a descriptor that names it `a.vmdk`. -/
@[irreducible]
def sampleImage : List UInt8 :=
  magicKdmv ++ [1, 0, 0, 0] ++ [0, 0, 0, 0] ++ [1, 0, 0, 0, 0, 0, 0, 0] ++ [1, 0, 0, 0, 0, 0, 0, 0] ++
    [1, 0, 0, 0, 0, 0, 0, 0] ++ [1, 0, 0, 0, 0, 0, 0, 0] ++ [1, 0, 0, 0] ++ List.replicate 8 0 ++
    [2, 0, 0, 0, 0, 0, 0, 0] ++ List.replicate 448 0 ++
    (asciiBytes "RW 1 SPARSE \"a.vmdk\"" ++ List.replicate 492 0) ++ [0, 0, 0, 0]

/-- Its header: one sector, grains of one sector, the descriptor in sector 1 and the directory in
sector 2. -/
def sampleHeader : SparseHeader := ⟨1, 0, 1, 1, 1, 1, 1, 0, 2, 0⟩

/-- The extent that it declares. -/
def sampleExtent : ExtentDescriptor :=
  ⟨"RW".toList, 1, "SPARSE".toList, some "a.vmdk".toList, 0⟩

/-- The file `name` in the root directory. -/
def inRoot (name : String) : Path := ⟨[.rootDir, .normal name.toList]⟩

theorem sampleImage_length : sampleImage.length = 1028 := by decide +kernel

/-- Its header can be read. -/
theorem sampleImage_header : readSparseHeader sampleImage = .ok sampleHeader := by decide +kernel

/-- So can its descriptor. -/
theorem sampleImage_embedded :
    (embeddedDescriptor sampleImage sampleHeader).result =
      .ok (some { extents := [sampleExtent] }) := by
  have hslice : readOrZeros sampleImage 512 512 = slice sampleImage 512 512 := by
    rw [AgreeOutside.slice_eq_take, List.take_of_length_le]
    rw [readOrZeros, length_window, sampleImage_length]
    decide
  have hparse : parseDescriptor (Text.fromUtf8Lossy (slice sampleImage 512 512)) =
      { extents := [sampleExtent] } := by decide +kernel
  rw [((embeddedDescriptor_result sampleImage sampleHeader).2 (by decide) (by decide)).1
    ⟨by decide, by decide⟩, show mulw sampleHeader.descriptorOffset sector = 512 from rfl,
    show mulw sampleHeader.descriptorSectors sector = 512 from rfl, hslice, hparse]

/-- The image under each of some names. -/
def renamedFiles (names : List String) : FileMap where
  identity p := if p ∈ names.map inRoot then some p else none
  contents _ := sampleImage
  size_lt _ := by rw [sampleImage_length]; decide
  utf8 _ h := absurd (not_isSparseHeader h)
    (by rw [(of_readSparseHeader sampleImage_header).1]; exact Bool.true_eq_false_eq_False)

/-- The image under the first of some names, with the other ones beside it. -/
def sampleAt (name : String) (names : List String) : Placement where
  fs := (renamedFiles (name :: names)).fs
  path := inRoot name
  file := sampleImage
  cab := sampleHeader
  descriptor := { extents := [sampleExtent] }
  extent := sampleExtent
  opened := FileMap.openRead_of_file (by simp [FileMap.file, renamedFiles])
  header := sampleImage_header
  embedded := sampleImage_embedded
  noParent := rfl
  oneExtent := rfl

/-- The directory of an extent that was opened. -/
def openedDirectory : Except (Stop IoError) (OpenResult SparseExtent) → List ℕ
  | .ok (.native extent) => extent.directory
  | _ => []

/-- The directory of the image is empty. -/
theorem sampleImage_directory {x : SparseExtent}
    (hx : (SparseExtent.fromHeader sampleImage sampleHeader).result = .ok (.native x)) :
    x.directory = [0] := by
  have hempty : openedDirectory (SparseExtent.fromHeader sampleImage sampleHeader).result = [0] := by
    decide +kernel
  rw [hx] at hempty
  exact hempty

/-- No guest data lies in the descriptor of the image. -/
theorem sampleAt_same (name name' : String) (names names' : List String) :
    (sampleAt name names).Same (sampleAt name' names') := by
  have hcab : (sampleAt name names).cab = sampleHeader := rfl
  have hhi : (sampleAt name names).hi = 1024 := by
    rw [Placement.hi, Placement.lo, hcab]
    rfl
  refine ⟨rfl, rfl, ⟨rfl, fun _ _ => rfl⟩, ?_, ?_⟩
  · rw [hhi, hcab]
    exact Or.inr (Or.inr (by decide))
  · intro x hx
    have hentry : ∀ i gde : ℕ, x.directory[i]? = some gde → ¬1 < gde := by
      intro i gde hgde
      rw [sampleImage_directory hx] at hgde
      cases i with
      | zero =>
        obtain rfl := Option.some.inj hgde
        decide
      | succ i => cases hgde
    exact ⟨fun i gde h hlt => absurd hlt (hentry i gde h),
      fun i gde j gte h hlt => absurd hlt (hentry i gde h)⟩

/-- The name in the descriptor is looked up beside the image. -/
theorem sampleAt_found_iff (name : String) (names : List String) :
    (sampleAt name names).Found ↔ inRoot "a.vmdk" ∈ (name :: names).map inRoot := by
  have hresolve : resolveExtentPath (inRoot name) "a.vmdk".toList = inRoot "a.vmdk" := rfl
  have hfile : (renamedFiles (name :: names)).file (inRoot "a.vmdk") =
      (if inRoot "a.vmdk" ∈ (name :: names).map inRoot then some (inRoot "a.vmdk")
        else none).map fun _ => sampleImage := rfl
  have hkind : sampleExtent.kind ≠ "ZERO".toList := by decide
  -- Only the one declared name is looked for.
  have hfound : (sampleAt name names).Found ↔
      ∃ size, (sampleAt name names).fs.metadata (inRoot "a.vmdk") = .ok size := by
    have hextent : (sampleAt name names).extent = sampleExtent := rfl
    unfold Placement.Found
    rw [hextent, or_iff_right hkind]
    constructor
    · intro h
      exact h "a.vmdk".toList rfl
    · rintro h _ ⟨⟩
      exact h
  rw [hfound]
  by_cases hmem : inRoot "a.vmdk" ∈ (name :: names).map inRoot
  · rw [if_pos hmem] at hfile
    exact iff_of_true ⟨_, FileMap.metadata_of_file hfile⟩ hmem
  · rw [if_neg hmem] at hfile
    refine iff_of_false ?_ hmem
    rintro ⟨size, hsize⟩
    have hnone : (sampleAt name names).fs.metadata (inRoot "a.vmdk") = .error FileMap.notFound :=
      FileMap.metadata_of_none hfile
    rw [hnone] at hsize
    cases hsize

/-- A renamed copy is opened and read like the image when the image is still beside it. -/
theorem open_renamed_iff_copy :
    SameOutcome noSessions (openVmdkNative (sampleAt "a.vmdk" []).fs (inRoot "a.vmdk")).result
      (openVmdkNative (sampleAt "c.vmdk" ["a.vmdk"]).fs (inRoot "c.vmdk")).result := by
  have ha : (sampleAt "a.vmdk" []).Found := (sampleAt_found_iff _ _).mpr (by decide)
  have hc : (sampleAt "c.vmdk" ["a.vmdk"]).Found := (sampleAt_found_iff _ _).mpr (by decide)
  exact (Placement.open_renamed_iff noSessions (sampleAt_same _ _ _ _)).mpr
    (Or.inl (iff_of_true ha hc))

/-- An image that is renamed and nothing else is no longer opened as it was before. -/
theorem open_renamed_alone :
    (sampleAt "a.vmdk" []).Same (sampleAt "c.vmdk" []) ∧
      ¬SameOutcome noSessions
        (openVmdkNative (sampleAt "a.vmdk" []).fs (inRoot "a.vmdk")).result
        (openVmdkNative (sampleAt "c.vmdk" []).fs (inRoot "c.vmdk")).result := by
  refine ⟨sampleAt_same _ _ _ _, fun hsame => ?_⟩
  have ha : (sampleAt "a.vmdk" []).Found := (sampleAt_found_iff _ _).mpr (by decide)
  have hc : ¬(sampleAt "c.vmdk" []).Found := fun h =>
    absurd ((sampleAt_found_iff _ _).mp h) (by decide)
  have houtside := (Placement.sameOutcome_of_found_iff noSessions ha
    ((sampleAt "c.vmdk" []).open_missing hc)).1.mp hsame
  -- The directory of the image lies in the file.
  refine houtside.2.2.2 ⟨by decide, Or.inr ?_⟩
  show 1028 ≤ sampleImage.length
  rw [sampleImage_length]

end VmSpect
