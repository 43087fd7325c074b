import VmSpect.Lib.Chain
import VmSpect.Vms.Headers
import VmSpect.Vms.Stream

/-!
# The parents of a VMDK

`validate_vmdk_components` over a file system that is a map from paths to files. A descriptor may
name a parent, whose descriptor may name another one, so the files form a chain, or run into a
cycle. The validation is a walk along it in the sense of `Chain` (`validateVmdkComponents_eq_walk`).
-/

namespace VmSpect

open Bytes Words UnixPath Vmdk Chain

/-! ## File systems without failures -/

/-- A map from paths to files: `identity` is what `canonicalize` yields, one path for each file, and
every file can be read. Text descriptors are valid UTF-8. -/
structure FileMap where
  identity : Path → Option Path
  contents : Path → List UInt8
  size_lt : ∀ id, (contents id).length < 2^63
  utf8 : ∀ id, isTextDescriptor (contents id) = true → (Text.fromUtf8 (contents id)).isSome

namespace FileMap

/-- The file that a path leads to. -/
def file (F : FileMap) (p : Path) : Option (List UInt8) := (F.identity p).map F.contents

/-- The error of a path that leads to no file. -/
def notFound : IoError := ⟨.notFound, "No such file or directory (os error 2)"⟩

/-- What the file system answers. -/
def fs (F : FileMap) : FileSystem where
  metadata p :=
    match F.file p with
    | some bytes => .ok bytes.length
    | none => .error notFound
  openRead p :=
    match F.file p with
    | some bytes => .ok bytes
    | none => .error notFound
  canonicalize := F.identity
  size_lt p bytes h := by
    unfold file at h
    cases hp : F.identity p with
    | none => simp [hp] at h
    | some id =>
      simp only [hp, Option.map_some, Except.ok.injEq] at h
      rw [← h]
      exact F.size_lt id

/-- The identity of a path, which stands for itself when it leads to no file. -/
def identityOf (F : FileMap) (p : Path) : Path := (F.identity p).getD p

variable {F : FileMap} {p : Path} {bytes : List UInt8}

/-- A file can be opened. -/
theorem openRead_of_file (h : F.file p = some bytes) : F.fs.openRead p = .ok bytes := by
  show (match F.file p with
    | some bytes => .ok bytes
    | none => .error notFound : Except IoError (List UInt8)) = _
  rw [h]

/-- A file that is not there cannot. -/
theorem openRead_of_none (h : F.file p = none) : F.fs.openRead p = .error notFound := by
  show (match F.file p with
    | some bytes => .ok bytes
    | none => .error notFound : Except IoError (List UInt8)) = _
  rw [h]

/-- The metadata of a file has its size. -/
theorem metadata_of_file (h : F.file p = some bytes) : F.fs.metadata p = .ok bytes.length := by
  show (match F.file p with
    | some bytes => .ok bytes.length
    | none => .error notFound : Except IoError ℕ) = _
  rw [h]

/-- There is no metadata of a file that is not there. -/
theorem metadata_of_none (h : F.file p = none) : F.fs.metadata p = .error notFound := by
  show (match F.file p with
    | some bytes => .ok bytes.length
    | none => .error notFound : Except IoError ℕ) = _
  rw [h]

/-- A text descriptor is valid UTF-8. -/
theorem utf8_of_file (h : F.file p = some bytes) (htext : isTextDescriptor bytes = true) :
    (Text.fromUtf8 bytes).isSome := by
  unfold file at h
  obtain ⟨id, -, rfl⟩ := Option.map_eq_some_iff.mp h
  exact F.utf8 id htext

end FileMap

/-! ## The descriptor of a file -/

/-- The descriptor of a file: the one inside a sparse file, if it has one, or the file itself when
it is a text descriptor. -/
def descriptorOf (file : List UInt8) : Option Descriptor :=
  if isSparseHeader file then
    match readSparseHeader file with
    | .error _ => none
    | .ok cab =>
      if cab.descriptorOffset = 0 ∨ cab.descriptorSectors = 0 then none
      else some (parseDescriptor (Text.fromUtf8Lossy (readOrZeros file
        (mulw cab.descriptorOffset sector) (mulw cab.descriptorSectors sector))))
  else if isTextDescriptor file then (Text.fromUtf8 file).map parseDescriptor
  else none

/-- The descriptor of a text file is the text. -/
theorem descriptorOf_text {file : List UInt8} (htext : isTextDescriptor file = true) :
    descriptorOf file = (Text.fromUtf8 file).map parseDescriptor := by
  rw [descriptorOf, not_isSparseHeader htext, if_neg Bool.false_ne_true, if_pos htext]

/-- A sparse file has all of its header, and its descriptor is not larger than any buffer and not
further away than any position in a file. -/
def HeaderUsable (file : List UInt8) : Prop :=
  isSparseHeader file = true → 80 ≤ file.length ∧
    ∀ cab, readSparseHeader file = .ok cab → cab.descriptorOffset ≠ 0 → cab.descriptorSectors ≠ 0 →
      mulw cab.descriptorSectors sector ≤ maxVecLen ∧ mulw cab.descriptorOffset sector < 2^63

/-- A header is read exactly when there are 80 bytes of it. -/
theorem readSparseHeader_of_length {file : List UInt8} (hsparse : isSparseHeader file = true)
    (hlen : 80 ≤ file.length) : ∃ cab, readSparseHeader file = .ok cab := by
  unfold readSparseHeader
  dsimp only
  rw [if_neg (by rw [hsparse]; simp; omega)]
  exact ⟨_, rfl⟩

/-- The descriptor inside of a sparse file is found when it can be reached. -/
theorem embeddedDescriptor_result (file : List UInt8) (cab : SparseHeader) :
    (cab.descriptorOffset = 0 ∨ cab.descriptorSectors = 0 →
      (embeddedDescriptor file cab).result = .ok none) ∧
    (cab.descriptorOffset ≠ 0 → cab.descriptorSectors ≠ 0 →
      (mulw cab.descriptorSectors sector ≤ maxVecLen ∧ mulw cab.descriptorOffset sector < 2^63 →
        (embeddedDescriptor file cab).result = .ok (some (parseDescriptor (Text.fromUtf8Lossy
          (readOrZeros file (mulw cab.descriptorOffset sector)
            (mulw cab.descriptorSectors sector)))))) ∧
      (¬(mulw cab.descriptorSectors sector ≤ maxVecLen ∧ mulw cab.descriptorOffset sector < 2^63) →
        ∃ stop, (embeddedDescriptor file cab).result = .error stop)) := by
  rw [embeddedDescriptor_sound]
  constructor
  · intro h
    rw [if_pos h]
    rfl
  · intro hoffset hsectors
    rw [if_neg (by tauto), Logged.bind_of_ok (Logged.result_mul _ _)]
    dsimp only
    constructor
    · rintro ⟨hsize, hstart⟩
      rw [if_neg (by omega), Logged.bind_of_ok (Logged.result_mul _ _)]
      dsimp only
      rw [seekFile, if_pos hstart]
      rfl
    · intro hnot
      by_cases hsize : maxVecLen < mulw cab.descriptorSectors sector
      · rw [if_pos hsize]
        exact ⟨_, rfl⟩
      · rw [if_neg hsize, Logged.bind_of_ok (Logged.result_mul _ _)]
        dsimp only
        rw [seekFile, if_neg (by omega)]
        exact ⟨_, rfl⟩

/-- The descriptor inside of a sparse file, as the words of its header place it. -/
theorem embeddedDescriptor_eq_ok {file : List UInt8} {cab : SparseHeader} {d : Option Descriptor} :
    (embeddedDescriptor file cab).result = .ok d ↔
      (cab.descriptorOffset ≠ 0 → cab.descriptorSectors ≠ 0 →
        mulw cab.descriptorSectors sector ≤ maxVecLen ∧ mulw cab.descriptorOffset sector < 2^63) ∧
      (if cab.descriptorOffset = 0 ∨ cab.descriptorSectors = 0 then none
        else some (parseDescriptor (Text.fromUtf8Lossy (readOrZeros file
          (mulw cab.descriptorOffset sector) (mulw cab.descriptorSectors sector))))) = d := by
  obtain ⟨habsent, hpresent⟩ := embeddedDescriptor_result file cab
  by_cases hnone : cab.descriptorOffset = 0 ∨ cab.descriptorSectors = 0
  · rw [habsent hnone, if_pos hnone, Except.ok.injEq]
    exact ⟨fun h => ⟨fun hoffset hsectors => absurd hnone (by tauto), h⟩, fun h => h.2⟩
  · rw [if_neg hnone]
    rw [not_or] at hnone
    obtain ⟨hreach, hunreach⟩ := hpresent hnone.1 hnone.2
    by_cases hok : mulw cab.descriptorSectors sector ≤ maxVecLen ∧
        mulw cab.descriptorOffset sector < 2^63
    · rw [hreach hok, Except.ok.injEq]
      exact ⟨fun h => ⟨fun _ _ => hok, h⟩, fun h => h.2⟩
    · obtain ⟨stop, hstop⟩ := hunreach hok
      rw [hstop]
      exact iff_of_false (fun h => by cases h) fun h => hok (h.1 hnone.1 hnone.2)

/-- A file whose descriptor can be looked for: its header is usable, and a text is valid UTF-8. -/
structure Legible (file : List UInt8) : Prop where
  header : HeaderUsable file
  text : isTextDescriptor file = true → (Text.fromUtf8 file).isSome

/-- The validation finds the descriptor of a file that is legible, and stops at any other. -/
theorem componentDescriptor_eq_ok {fs : FileSystem} {p : Path} {file : List UInt8}
    (hopen : fs.openRead p = .ok file) {d : Option Descriptor} :
    (componentDescriptor fs p file).result = .ok d ↔ Legible file ∧ descriptorOf file = d := by
  rw [componentDescriptor_sound]
  rw [isSparseHeader_take (by omega), isTextDescriptor_take (by omega),
    readSparseHeader_take (by omega)]
  cases hsparse : isSparseHeader file with
  | false =>
    have hheader : HeaderUsable file := fun h => by rw [hsparse] at h; cases h
    rw [if_neg Bool.false_ne_true, descriptorOf, hsparse, if_neg Bool.false_ne_true]
    cases htext : isTextDescriptor file with
    | false =>
      have hlegible : Legible file := ⟨hheader, fun h => by rw [htext] at h; cases h⟩
      rw [if_neg Bool.false_ne_true, if_neg Bool.false_ne_true]
      exact ⟨fun h => ⟨hlegible, Except.ok.inj h⟩, fun h => congrArg Except.ok h.2⟩
    | true =>
      rw [if_pos rfl, if_pos rfl, Logged.ofExcept_bind_eq_ok, FileSystem.readToString_sound, hopen]
      cases hutf8 : Text.fromUtf8 file with
      | none =>
        refine iff_of_false (by simp [hutf8]) fun h => ?_
        have hsome := h.1.text htext
        rw [hutf8] at hsome
        cases hsome
      | some text =>
        have hlegible : Legible file := ⟨hheader, fun _ => by rw [hutf8]; rfl⟩
        simp [hutf8, hlegible]
  | true =>
    -- No file is both: a header starts with the magic and a text does not.
    have htext : isTextDescriptor file ≠ true := fun h => by
      rw [not_isSparseHeader h] at hsparse
      cases hsparse
    rw [if_pos rfl, Logged.ofExcept_bind_eq_ok, descriptorOf, hsparse, if_pos rfl]
    by_cases hlen : 80 ≤ file.length
    · obtain ⟨cab, hcab⟩ := readSparseHeader_of_length hsparse hlen
      -- The header that is read is the one that `Legible` speaks of.
      have husable : Legible file ↔ (cab.descriptorOffset ≠ 0 → cab.descriptorSectors ≠ 0 →
          mulw cab.descriptorSectors sector ≤ maxVecLen ∧
            mulw cab.descriptorOffset sector < 2^63) := by
        constructor
        · intro h
          exact (h.header hsparse).2 cab hcab
        · intro h
          refine ⟨fun _ => ⟨hlen, ?_⟩, fun h => absurd h htext⟩
          intro cab' hcab'
          rw [hcab] at hcab'
          obtain rfl := Except.ok.inj hcab'
          exact h
      rw [hcab, husable]
      simp only [Except.ok.injEq, exists_eq_left']
      exact embeddedDescriptor_eq_ok
    · -- A header that is cut short is an error.
      have herror : readSparseHeader file = .error ⟨.invalidData, "Invalid VMDK sparse header"⟩ := by
        unfold readSparseHeader
        dsimp only
        rw [if_pos (Or.inl (by omega))]
      rw [herror]
      refine iff_of_false (by simp) fun h => hlen (h.1.header hsparse).1

/-- Over a map of files, the validation stops exactly at a header that is not usable. -/
theorem componentDescriptor_result {F : FileMap} {p : Path} {file : List UInt8}
    (hfile : F.file p = some file) :
    (HeaderUsable file → (componentDescriptor F.fs p file).result = .ok (descriptorOf file)) ∧
      (¬HeaderUsable file → ∃ stop, (componentDescriptor F.fs p file).result = .error stop) := by
  have hopen := FileMap.openRead_of_file hfile
  constructor
  · intro hheader
    exact (componentDescriptor_eq_ok hopen).mpr ⟨⟨hheader, FileMap.utf8_of_file hfile⟩, rfl⟩
  · intro hheader
    cases hresult : (componentDescriptor F.fs p file).result with
    | error stop => exact ⟨stop, rfl⟩
    | ok d => exact absurd ((componentDescriptor_eq_ok hopen).mp hresult).1.header hheader

/-! ## The components that a descriptor declares -/

/-- The components that a descriptor declares, in the order in which they are looked for: the
parent, and the extents that are not `ZERO` and have a file name. -/
def declared (d : Descriptor) : List (List Char × String) :=
  (d.parentName.toList.map fun name => (name, "VMDK parent disk")) ++
    d.extents.filterMap fun e =>
      if e.kind = "ZERO".toList then none else e.file.map fun name => (name, "VMDK extent")

section Components

variable (F : FileMap) (p : Path)

/-- The error of a component that does not exist. -/
def missing (component : List Char × String) : VmSpectError :=
  .missingDiskComponent p.display (String.ofList component.1)
    (resolveExtentPath p component.1).display component.2 FileMap.notFound

/-- A component exists. -/
def Present (component : List Char × String) : Prop :=
  F.file (resolveExtentPath p component.1) ≠ none

/-- The components are looked for one after another. -/
def lookFor : List (List Char × String) → Except VmSpectError Unit
  | [] => .ok ()
  | component :: rest =>
    match F.file (resolveExtentPath p component.1) with
    | some _ => lookFor rest
    | none => .error (missing p component)

variable {F} {p}

/-- A component exists when the map has its file. -/
theorem ensureComponentExists_eq (name : List Char) (kind : String) :
    ensureComponentExists F.fs p name (resolveExtentPath p name) kind =
      match F.file (resolveExtentPath p name) with
      | some _ => .ok ()
      | none => .error (missing p (name, kind)) := by
  rw [ensureComponentExists_sound]
  have hmetadata : F.fs.metadata (resolveExtentPath p name) =
      match F.file (resolveExtentPath p name) with
      | some bytes => .ok bytes.length
      | none => .error FileMap.notFound := rfl
  rw [hmetadata]
  cases F.file (resolveExtentPath p name) <;> rfl

/-- The extents with a file are looked for in their order. -/
theorem validateExtentPaths_eq (extents : List ExtentDescriptor) :
    validateExtentPaths F.fs p extents =
      lookFor F p (extents.filterMap fun e =>
        if e.kind = "ZERO".toList then none else e.file.map fun name => (name, "VMDK extent")) := by
  induction extents with
  | nil => rfl
  | cons e rest ih =>
    unfold validateExtentPaths
    split
    · rename_i hzero
      rw [List.filterMap_cons, if_pos hzero]
      exact ih
    · rename_i hzero
      rw [List.filterMap_cons, if_neg hzero]
      cases hname : e.file with
      | none => exact ih
      | some name =>
        simp only [Option.map_some, lookFor, ensureComponentExists_eq]
        cases F.file (resolveExtentPath p name) with
        | none => rfl
        | some bytes => exact ih

/-- The validation looks for the declared components. -/
theorem validateDescriptorComponents_eq (d : Descriptor) :
    validateDescriptorComponents F.fs p d = lookFor F p (declared d) := by
  unfold validateDescriptorComponents validateParentReference declared
  rw [validateExtentPaths_eq]
  cases d.parentName with
  | none => rfl
  | some name =>
    simp only [ensureComponentExists_eq, Option.toList_some, List.map_cons, List.map_nil,
      List.singleton_append, lookFor]
    cases F.file (resolveExtentPath p name) <;> rfl

/-- They are all found exactly when they all exist. -/
theorem lookFor_ok_iff {components : List (List Char × String)} :
    lookFor F p components = .ok () ↔ ∀ c ∈ components, Present F p c := by
  induction components with
  | nil => simp [lookFor]
  | cons c rest ih =>
    rw [List.forall_mem_cons, ← ih]
    rw [lookFor]
    unfold Present
    cases F.file (resolveExtentPath p c.1) <;> simp

/-- The first that does not exist is reported. -/
theorem lookFor_missing {before after : List (List Char × String)} {c : List Char × String}
    (hbefore : ∀ b ∈ before, Present F p b) (hc : F.file (resolveExtentPath p c.1) = none) :
    lookFor F p (before ++ c :: after) = .error (missing p c) := by
  induction before with
  | nil =>
    rw [List.nil_append, lookFor, hc]
  | cons b rest ih =>
    obtain ⟨hb, hrest⟩ := List.forall_mem_cons.mp hbefore
    obtain ⟨bytes, hbytes⟩ := Option.ne_none_iff_exists'.mp hb
    rw [List.cons_append, lookFor, hbytes]
    exact ih hrest

end Components

/-! ## The walk along the parents -/

section Parents

variable (F : FileMap)

/-- The parent that the descriptor at a path names. -/
def parentOf (p : Path) : Option Path :=
  ((F.file p).bind descriptorOf).bind fun d => d.parentName.map (resolveExtentPath p)

/-- What the validation checks of one file. -/
def checkFile (p : Path) : Except (Stop VmSpectError) Unit :=
  match F.file p with
  | none => .error (.error (.imageNotFound p.display))
  | some file =>
    match (componentDescriptor F.fs p file).result with
    | .error stop => .error stop
    | .ok none => .ok ()
    | .ok (some d) => (lookFor F p (declared d)).mapError .error

/-- The error of a chain that is too long. -/
def tooLong (p : Path) : Stop VmSpectError := .error (.parse
  (s!"VMDK parent chain exceeds the maximum depth of {maxVmdkParentDepth} at " ++ s!"'{p.display}'"))

/-- The error of a chain that comes back to a file. -/
def cyclic (p : Path) : Stop VmSpectError :=
  .error (.parse s!"VMDK parent chain contains a cycle at '{p.display}'")

variable {F}

/-- A file that exists is opened, however it is reached. -/
theorem openReferenced_of_file {p : Path} {file : List UInt8} (h : F.file p = some file)
    (reference : Option (Path × List Char)) : openReferenced F.fs p reference = .ok file := by
  cases reference with
  | none => rw [openReferenced, openMainImageFile_sound, FileMap.openRead_of_file h]; rfl
  | some reference =>
    rw [openReferenced, openComponentFile_sound, FileMap.openRead_of_file h]
    rfl

/-- A descriptor that the validation finds is the one of the file. -/
theorem eq_descriptorOf {p : Path} {file : List UInt8} (hfile : F.file p = some file)
    {d : Option Descriptor} (h : (componentDescriptor F.fs p file).result = .ok d) :
    d = descriptorOf file := by
  obtain ⟨husable, hunusable⟩ := componentDescriptor_result hfile
  by_cases hheader : HeaderUsable file
  · rw [husable hheader] at h
    exact (Except.ok.inj h).symm
  · obtain ⟨stop, hstop⟩ := hunusable hheader
    rw [hstop] at h
    cases h

/-- From an existing file on, the validation is a walk along the parents. -/
theorem validateInner_eq_walk (left : ℕ) {p : Path} {file : List UInt8} (hfile : F.file p = some file)
    (visited : List Path) (reference : Option (Path × List Char)) :
    (validateVmdkComponentsInner F.fs left p visited reference).result =
      walk (parentOf F) F.identityOf (checkFile F) tooLong cyclic left p visited := by
  induction left generalizing p file visited reference with
  | zero => rfl
  | succ left ih =>
    rw [validateVmdkComponentsInner_succ, walk]
    have hidentity : (F.fs.canonicalize p).getD p = F.identityOf p := rfl
    rw [hidentity]
    by_cases hmem : F.identityOf p ∈ visited
    · rw [if_pos hmem, if_pos hmem]
      rfl
    · rw [if_neg hmem, if_neg hmem, openReferenced_of_file hfile]
      have hopen : (Logged.ofExcept ((Except.ok file : Except VmSpectError _).mapError
          Stop.error)).result = .ok file := rfl
      rw [Logged.bind_of_ok hopen]
      dsimp only
      unfold checkFile
      simp only [hfile]
      cases hdescriptor : (componentDescriptor F.fs p file).result with
      | error stop => rw [Logged.bind_of_error hdescriptor]
      | ok found =>
        have hof := eq_descriptorOf hfile hdescriptor
        have hparent : parentOf F p = found.bind fun d => d.parentName.map (resolveExtentPath p) := by
          rw [parentOf, hfile, hof]
          rfl
        rw [Logged.bind_of_ok hdescriptor]
        cases found with
        | none => rw [hparent]; rfl
        | some d =>
          dsimp only
          rw [validateDescriptorComponents_eq]
          cases hlook : lookFor F p (declared d) with
          | error e => rfl
          | ok u =>
            rw [hparent, Logged.bind_of_ok (a := ()) rfl, Option.bind_some]
            cases hname : d.parentName with
            | none => rfl
            | some name =>
              -- The parent was found, so the walk goes on from an existing file.
              have hexists : Present F p (name, "VMDK parent disk") :=
                lookFor_ok_iff.mp hlook _ (by simp [declared, hname])
              obtain ⟨bytes, hbytes⟩ := Option.ne_none_iff_exists'.mp hexists
              exact ih hbytes _ _

/-- The validation of an image is a walk along its parents. -/
theorem validateVmdkComponents_eq_walk (p : Path) :
    (validateVmdkComponents F.fs p).result =
      walk (parentOf F) F.identityOf (checkFile F) tooLong cyclic (maxVmdkParentDepth + 1) p [] := by
  cases hfile : F.file p with
  | some file => exact validateInner_eq_walk _ hfile [] none
  | none =>
    rw [validateVmdkComponents, validateVmdkComponentsInner_succ, walk]
    simp only [List.not_mem_nil, if_false, openReferenced, openMainImageFile_sound,
      FileMap.openRead_of_none hfile, checkFile, hfile]
    rfl

end Parents

/-! ## Exactness -/

section Exactness

variable (F : FileMap)

/-- A file of the chain without a problem: its header is usable, and all components that its
descriptor declares exist. -/
def Sound (p : Path) : Prop :=
  ∃ file, F.file p = some file ∧ HeaderUsable file ∧
    ∀ d, descriptorOf file = some d → ∀ c ∈ declared d, Present F p c

/-- The chain of an image has at most 33 files, no file occurs twice in it, and everything that its
descriptors declare exists. -/
structure ValidChain (image : Path) : Prop where
  image_exists : F.file image ≠ none
  short : nth (parentOf F) image (maxVmdkParentDepth + 1) = none
  distinct : ∀ n, ¬Repeats (parentOf F) F.identityOf image n
  complete : ∀ n p file d, nth (parentOf F) image n = some p → F.file p = some file →
    descriptorOf file = some d → ∀ c ∈ declared d, Present F p c

/-- The validation gets to place `n` of the chain, where `p` is: no file before it is a problem. -/
structure Reached (image : Path) (n : ℕ) (p : Path) : Prop where
  place : nth (parentOf F) image n = some p
  distinct : ∀ m < n, ¬Repeats (parentOf F) F.identityOf image m
  sound : ∀ m < n, ∀ q, nth (parentOf F) image m = some q → Sound F q

variable {F} {image p : Path} {n : ℕ}

/-- A file passes its check exactly when it is sound. -/
theorem checkFile_ok_iff : checkFile F p = .ok () ↔ Sound F p := by
  unfold checkFile Sound
  cases hfile : F.file p with
  | none => simp
  | some file =>
    obtain ⟨husable, hunusable⟩ := componentDescriptor_result hfile
    simp only [Option.some.injEq, exists_eq_left']
    by_cases hheader : HeaderUsable file
    · simp only [husable hheader, hheader, true_and]
      cases descriptorOf file with
      | none => simp
      | some d =>
        simp only [Option.some.injEq, forall_eq', ← lookFor_ok_iff]
        cases lookFor F p (declared d) <;> simp [Except.mapError]
    · obtain ⟨stop, hstop⟩ := hunusable hheader
      simp [hstop, hheader]

/-- A file at which a component is missing fails its check with the first one. -/
theorem checkFile_missing {file : List UInt8} {d : Descriptor}
    {before after : List (List Char × String)} {c : List Char × String}
    (hfile : F.file p = some file) (hheader : HeaderUsable file) (hd : descriptorOf file = some d)
    (hdeclared : declared d = before ++ c :: after) (hbefore : ∀ b ∈ before, Present F p b)
    (hc : ¬Present F p c) : checkFile F p = .error (.error (missing p c)) := by
  unfold checkFile
  simp only [hfile, (componentDescriptor_result hfile).1 hheader, hd]
  rw [hdeclared, lookFor_missing hbefore (not_not.mp hc)]
  rfl

/-- What was reached has nothing before it that ends the walk. -/
theorem Reached.cleanBefore (h : Reached F image n p) :
    CleanBefore (parentOf F) F.identityOf (checkFile F) image n :=
  fun m hm => ⟨h.distinct m hm, fun q hq => checkFile_ok_iff.mpr (h.sound m hm q hq)⟩

/-- A parent that a file of the chain names is one of its components. -/
theorem present_of_parent {file : List UInt8} {d : Descriptor} {q : Path}
    (hfile : F.file p = some file) (hd : descriptorOf file = some d)
    (hcomplete : ∀ c ∈ declared d, Present F p c) (hq : parentOf F p = some q) : F.file q ≠ none := by
  rw [parentOf, hfile, Option.bind_some, hd, Option.bind_some] at hq
  obtain ⟨name, hname, rfl⟩ := Option.map_eq_some_iff.mp hq
  exact hcomplete (name, "VMDK parent disk") (by simp [declared, hname])

/-- All files of a valid chain exist. -/
theorem ValidChain.file_exists (h : ValidChain F image) (hp : nth (parentOf F) image n = some p) :
    F.file p ≠ none := by
  cases n with
  | zero =>
    obtain rfl : image = p := Option.some.inj hp
    exact h.image_exists
  | succ n =>
    rw [nth, Option.bind_eq_some_iff] at hp
    obtain ⟨q, hq, hparent⟩ := hp
    -- The file before it names it as its parent.
    obtain ⟨d, hd, -⟩ := Option.bind_eq_some_iff.mp hparent
    obtain ⟨file, hfile, hd⟩ := Option.bind_eq_some_iff.mp hd
    exact present_of_parent hfile hd (h.complete n q file d hq hfile hd) hparent

/-- The validation succeeds exactly when the chain of the image is valid and every sparse file in it
has a usable header. When the first problem that it meets is a component that does not exist, the
error names it, and when it is a cycle or a chain that is too long, it is a parse error. -/
theorem validateVmdkComponents_exact (F : FileMap) (image : Path) :
    ((validateVmdkComponents F.fs image).result = .ok () ↔
      ValidChain F image ∧ ∀ n p file, nth (parentOf F) image n = some p → F.file p = some file →
        HeaderUsable file) ∧
    (∀ n p file d before c after, Reached F image n p → n ≤ maxVmdkParentDepth →
      ¬Repeats (parentOf F) F.identityOf image n → F.file p = some file → HeaderUsable file →
      descriptorOf file = some d → declared d = before ++ c :: after →
      (∀ b ∈ before, Present F p b) → ¬Present F p c →
        (validateVmdkComponents F.fs image).result =
          .error (.error (.missingDiskComponent p.display (String.ofList c.1)
            (resolveExtentPath p c.1).display c.2 FileMap.notFound))) ∧
    ∀ n p, Reached F image n p →
      (n = maxVmdkParentDepth + 1 ∨
        n ≤ maxVmdkParentDepth ∧ Repeats (parentOf F) F.identityOf image n) →
      ∃ message, (validateVmdkComponents F.fs image).result = .error (.error (.parse message)) := by
  rw [validateVmdkComponents_eq_walk]
  refine ⟨?_, ?_, ?_⟩
  · -- The walk succeeds on the chains that are short, do not repeat and pass the checks.
    rw [walk_ok_iff]
    simp only [checkFile_ok_iff]
    constructor
    · rintro ⟨hshort, hdistinct, hsound⟩
      refine ⟨⟨?_, hshort, hdistinct, ?_⟩, ?_⟩
      · obtain ⟨file, hfile, -⟩ := hsound 0 image rfl
        simp [hfile]
      · intro n p file d hp hfile hd
        obtain ⟨file', hfile', -, hcomplete⟩ := hsound n p hp
        obtain rfl : file' = file := Option.some.inj (hfile'.symm.trans hfile)
        exact hcomplete d hd
      · intro n p file hp hfile
        obtain ⟨file', hfile', hheader, -⟩ := hsound n p hp
        obtain rfl : file' = file := Option.some.inj (hfile'.symm.trans hfile)
        exact hheader
    · rintro ⟨hvalid, hheaders⟩
      refine ⟨hvalid.short, hvalid.distinct, fun n p hp => ?_⟩
      obtain ⟨file, hfile⟩ := Option.ne_none_iff_exists'.mp (hvalid.file_exists hp)
      exact ⟨file, hfile, hheaders n p file hp hfile,
        fun d hd => hvalid.complete n p file d hp hfile hd⟩
  · intro n p file d before c after hreached hn hfresh hfile hheader hd hdeclared hbefore hc
    exact (walk_at hreached.place hreached.cleanBefore (by omega) hfresh).1 _
      (checkFile_missing hfile hheader hd hdeclared hbefore hc)
  · -- The chain is too long, or comes back to a file.
    rintro n p hreached (rfl | ⟨hn, hrepeats⟩)
    · exact ⟨_, walk_tooLong hreached.place hreached.cleanBefore⟩
    · exact ⟨_, walk_cycle hreached.place hreached.cleanBefore (by omega) hrepeats⟩

/-- One file, which consists of the magic of a sparse file and nothing else. -/
def truncatedImage : FileMap where
  identity p := if p = ⟨[.rootDir, .normal ['a']]⟩ then some p else none
  contents _ := magicKdmv
  size_lt _ := by decide
  utf8 _ _ := rfl

/-- Its chain is valid, since it declares nothing, but the validation refuses its header. -/
theorem truncatedImage_refused :
    ValidChain truncatedImage ⟨[.rootDir, .normal ['a']]⟩ ∧
      (validateVmdkComponents truncatedImage.fs ⟨[.rootDir, .normal ['a']]⟩).result =
        .error (.error (.io ⟨.invalidData, "Invalid VMDK sparse header"⟩)) := by
  have hfile : truncatedImage.file ⟨[.rootDir, .normal ['a']]⟩ = some magicKdmv := rfl
  have hnone : descriptorOf magicKdmv = none := rfl
  have hparent : parentOf truncatedImage ⟨[.rootDir, .normal ['a']]⟩ = none := rfl
  -- The chain has one node.
  have hend : ∀ n p, nth (parentOf truncatedImage) ⟨[.rootDir, .normal ['a']]⟩ n = some p → n = 0 := by
    intro n p hp
    by_contra hn
    have hone : nth (parentOf truncatedImage) ⟨[.rootDir, .normal ['a']]⟩ 1 = none := hparent
    rw [nth_none_of_le hone (by omega)] at hp
    cases hp
  refine ⟨⟨?_, ?_, ?_, ?_⟩, rfl⟩
  · rw [hfile]
    exact Option.some_ne_none _
  · have hone : nth (parentOf truncatedImage) ⟨[.rootDir, .normal ['a']]⟩ 1 = none := hparent
    exact nth_none_of_le hone (by decide)
  · rintro n ⟨b, c, hb, m, hm, -⟩
    have := hend n b hb
    omega
  · intro n p file d hp hfile' hd
    obtain rfl := hend n p hp
    obtain rfl := Option.some.inj hp
    rw [hfile] at hfile'
    obtain rfl := Option.some.inj hfile'
    rw [hnone] at hd
    cases hd

end Exactness

end VmSpect
