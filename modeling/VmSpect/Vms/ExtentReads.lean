import VmSpect.Vms.GrainWalk
import VmSpect.Vms.Headers
import VmSpect.Vms.DiskReader

/-!
# Reads from a list of extents

The extents of a disk stand one after the other. `read_from_extents` looks for the extent that
covers a position, copies the part that lies in it and goes on behind it. What one extent reads is
left open (`ReadsAs`); if each extent reads its part of a content, the list reads the content
(`readFromExtents_spec`), and zeros past its end.

An extent of an image as `open_vmdk_native` opens it reads its own bytes, cut or continued by zeros
to the declared length. There is one exception: the position in a flat file is the sum of its base
and the position in the extent, and this sum wraps. So the list reads the concatenation of its
extents if no wrapped position leads to a byte that is not zero (`readsConcatenation_iff`).
-/

namespace VmSpect

open Bytes Words Vmdk UnixPath

/-! ## Lists of extents -/

/-- A condition on an extent, the content that it stands for, and its length. -/
abbrev ExtentSpec := ExtentData → (ℕ → UInt8) → ℕ → Prop

/-- An extent reads the content that it stands for, and goes on standing for it; or it fails, where
this is allowed. -/
def ReadsAs (P : ExtentSpec) (mayFail : Prop) : Prop :=
  ∀ data f length within n, P data f length → 0 < n → within + n ≤ length →
    ∃ data', P data' f length ∧ (data.readAt within n = (data', .ok (window f within n)) ∨
      mayFail ∧ ∃ e, data.readAt within n = (data', .error e))

/-- Extents that stand one after the other from `start` on, each for its part of the content
`f`. -/
def ExtentsPlaced (P : ExtentSpec) (f : ℕ → UInt8) : ℕ → List OpenExtent → Prop
  | _, [] => True
  | start, e :: rest => e.start = start ∧ P e.data (fun p => f (start + p)) e.length ∧
      ExtentsPlaced P f (start + e.length) rest

/-- The length of a list of extents. -/
def totalLength (extents : List OpenExtent) : ℕ := (extents.map (·.length)).sum

@[simp] theorem totalLength_nil : totalLength [] = 0 := rfl

@[simp] theorem totalLength_cons (e : OpenExtent) (rest : List OpenExtent) :
    totalLength (e :: rest) = e.length + totalLength rest := by
  rw [totalLength, List.map_cons, List.sum_cons, totalLength]

variable {P : ExtentSpec} {mayFail : Prop} {f : ℕ → UInt8} {start : ℕ} {extents : List OpenExtent}

/-- Whether an extent covers a position, when its end fits 64 bits. -/
theorem OpenExtent.covers_iff {e : OpenExtent} (h : e.start + e.length < 2^64) (pos : ℕ) :
    e.covers pos = true ↔ e.start ≤ pos ∧ pos < e.start + e.length := by
  rw [covers, addw_of_lt h, Bool.and_eq_true, decide_eq_true_eq, decide_eq_true_eq]

/-- A position of the disk is covered by an extent that stands for its part, and that may be
replaced by one that does the same. -/
theorem findExtent_spec (pos : ℕ) (h : ExtentsPlaced P f start extents)
    (hend : start + totalLength extents < 2^64) (hfrom : start ≤ pos)
    (hto : pos < start + totalLength extents) :
    ∃ before hit after, findExtent pos extents = some (before, hit, after) ∧
      hit.1.start ≤ pos ∧ pos < hit.1.start + hit.1.length ∧
      P hit.1.data (fun p => f (hit.1.start + p)) hit.1.length ∧
      ∀ data, P data (fun p => f (hit.1.start + p)) hit.1.length →
        ExtentsPlaced P f start (before ++ { hit.1 with data } :: after) ∧
        totalLength (before ++ { hit.1 with data } :: after) = totalLength extents := by
  induction extents generalizing start with
  | nil =>
    rw [totalLength_nil] at hto
    omega
  | cons e rest ih =>
    obtain ⟨rfl, hserves, hrest⟩ := h
    rw [totalLength_cons] at hend hto
    have hiff := e.covers_iff (by omega) pos
    by_cases hcovers : e.covers pos = true
    · -- This extent covers the position.
      refine ⟨[], ⟨e, hcovers⟩, rest, by rw [findExtent, dif_pos hcovers], hfrom,
        (hiff.mp hcovers).2, hserves, fun data hdata => ⟨⟨rfl, hdata, hrest⟩, ?_⟩⟩
      rw [List.nil_append, totalLength_cons, totalLength_cons]
    · -- The position lies after this extent.
      have hafter : e.start + e.length ≤ pos := by
        by_contra hlt
        exact hcovers (hiff.mpr ⟨hfrom, by omega⟩)
      obtain ⟨before, hit, after, hfind, hle, hlt, hhit, hreplace⟩ :=
        ih hrest (by omega) hafter (by omega)
      refine ⟨e :: before, hit, after, by rw [findExtent, dif_neg hcovers, hfind]; rfl, hle, hlt,
        hhit, fun data hdata => ?_⟩
      obtain ⟨hplaced, htotal⟩ := hreplace data hdata
      refine ⟨⟨rfl, hserves, hplaced⟩, ?_⟩
      rw [List.cons_append, totalLength_cons, htotal, totalLength_cons]

/-- A position past the last extent is not covered. -/
theorem findExtent_eq_none (pos : ℕ) (h : ExtentsPlaced P f start extents)
    (hend : start + totalLength extents < 2^64) (hpos : start + totalLength extents ≤ pos) :
    findExtent pos extents = none := by
  induction extents generalizing start with
  | nil => rfl
  | cons e rest ih =>
    obtain ⟨rfl, -, hrest⟩ := h
    rw [totalLength_cons] at hend hpos
    have hcovers : ¬e.covers pos = true := by
      rw [e.covers_iff (by omega)]
      omega
    rw [findExtent, dif_neg hcovers, ih hrest (by omega) (by omega)]
    rfl

/-- The loop over the extents, once `done` bytes are in the buffer. -/
theorem readFromExtentsLoop_spec (hP : ReadsAs P mayFail) (h : ExtentsPlaced P f 0 extents)
    (hend : totalLength extents < 2^64) (hzero : ∀ p, totalLength extents ≤ p → f p = 0)
    (offset len done : ℕ) (hlen : offset + len ≤ 2^64) (hle : done ≤ len) :
    ∃ extents', ExtentsPlaced P f 0 extents' ∧ totalLength extents' = totalLength extents ∧
      (readFromExtentsLoop offset len extents done
          (window f offset done ++ List.replicate (len - done) 0) =
        (extents', .ok (window f offset len)) ∨
      mayFail ∧ ∃ e, readFromExtentsLoop offset len extents done
          (window f offset done ++ List.replicate (len - done) 0) = (extents', .error e)) := by
  induction hleft : len - done using Nat.strong_induction_on generalizing extents done with
  | _ left ih =>
    subst hleft
    rw [readFromExtentsLoop]
    split
    · rename_i hlt
      have hpos : addw offset done = offset + done := addw_of_lt (by omega)
      rcases lt_or_ge (offset + done) (totalLength extents) with hin | hout
      · obtain ⟨before, ⟨ext, hcovers⟩, after, hfind, hfrom, hto, hhit, hreplace⟩ :=
          findExtent_spec (addw offset done) h (by omega) (Nat.zero_le _) (by omega)
        rw [hfind]
        dsimp only at hfrom hto hhit hreplace ⊢
        simp only [hpos] at hfrom hto ⊢
        generalize hn : min (ext.length - (offset + done - ext.start)) (len - done) = n
        obtain ⟨data, hdata, hread⟩ := hP ext.data _ ext.length (offset + done - ext.start) n hhit
          (by omega) (by omega)
        obtain ⟨hplaced, htotal⟩ := hreplace data hdata
        rcases hread with hread | ⟨hmay, e, hread⟩
        · -- The part of the extent is the part of the disk at the position.
          have hpart : window (fun p => f (ext.start + p)) (offset + done - ext.start) n =
              window f (offset + done) n := by
            refine window_congr fun k _ => ?_
            congr 1
            omega
          have hwrite := writeAt_append (window f offset done) (List.replicate (len - done) 0)
            (window f (offset + done) n)
          rw [length_window, length_window, ← window_add, List.drop_replicate, Nat.sub_sub]
            at hwrite
          obtain ⟨extents', hplaced', htotal', hloop⟩ := ih (len - (done + n)) (by omega) hplaced
            (by rw [htotal]; exact hend) (by rw [htotal]; exact hzero) (done + n) (by omega) rfl
          rw [hread]
          dsimp only
          rw [hpart, hwrite]
          exact ⟨extents', hplaced', htotal'.trans htotal, hloop⟩
        · rw [hread]
          exact ⟨_, hplaced, htotal, Or.inr ⟨hmay, e, rfl⟩⟩
      · -- What follows is not covered, and zero.
        have hrest : window f offset done ++ List.replicate (len - done) 0 =
            window f offset len := by
          have hsplit : len = done + (len - done) := by omega
          conv_rhs => rw [hsplit, window_add]
          congr 1
          exact (window_eq_replicate fun k _ => hzero (offset + done + k) (by omega)).symm
        rw [findExtent_eq_none (addw offset done) h (by omega) (by omega)]
        exact ⟨extents, h, rfl, Or.inl (by rw [hrest])⟩
    · obtain rfl : done = len := by omega
      refine ⟨extents, h, rfl, Or.inl ?_⟩
      rw [Nat.sub_self, List.replicate_zero, List.append_nil]

/-- A read of a range: the bytes of the content. -/
theorem readFromExtents_spec (hP : ReadsAs P mayFail) (h : ExtentsPlaced P f 0 extents)
    (hend : totalLength extents < 2^64) (hzero : ∀ p, totalLength extents ≤ p → f p = 0)
    {offset len : ℕ} (hlen : offset + len ≤ 2^64) :
    ∃ extents', ExtentsPlaced P f 0 extents' ∧ totalLength extents' = totalLength extents ∧
      (readFromExtents extents offset len = (extents', .ok (window f offset len)) ∨
        mayFail ∧ ∃ e, readFromExtents extents offset len = (extents', .error e)) := by
  have hloop := readFromExtentsLoop_spec hP h hend hzero offset len 0 hlen (Nat.zero_le _)
  rwa [window_zero, List.nil_append, Nat.sub_zero] at hloop

/-! ## What the extents of an image hold -/

/-- The byte `p` of an extent, whatever its declared length is: a flat file is shifted by its base
and continued by zeros, and so is a sparse extent past its capacity. -/
def ExtentData.byteAt : ExtentData → ℕ → UInt8
  | .zero, _ => 0
  | .flat file base, p => zeroExtended file (base + p)
  | .sparse ext, p => if p < ext.capacityBytes then ext.walk p else 0

/-- The contents of the extents, each cut to its declared length, one after the other; then
zeros. -/
def concatenation : List OpenExtent → ℕ → UInt8
  | [], _ => 0
  | e :: rest, p => if p < e.length then e.data.byteAt p else concatenation rest (p - e.length)

/-- Wrapped positions in a flat file lead to zeros only: the first bytes of the file, as many as its
base and the length of the extent exceed `2^64` by, are zero. -/
def ExtentData.WrapsToZeros (data : ExtentData) (length : ℕ) : Prop :=
  ∀ file base, data = .flat file base → ∀ i, i + 2^64 < base + length → zeroExtended file i = 0

/-- What opening an image guarantees about an extent. -/
def ExtentData.Sound : ExtentData → Prop
  | .zero => True
  | .flat file base => file.length < 2^63 ∧ base < 2^64
  | .sparse ext => ext.Cached .sound ∧ ext.capacityBytes < 2^64 ∧ ext.IndexFits

/-- An extent stands for its own bytes. -/
structure ExtentData.Own (data : ExtentData) (f : ℕ → UInt8) (length : ℕ) : Prop where
  sound : data.Sound
  length_lt : length < 2^64
  wraps : data.WrapsToZeros length
  bytes : ∀ p < length, f p = data.byteAt p

/-- Extents one after the other, as opening an image leaves them. -/
def ExtentsSound (start : ℕ) (extents : List OpenExtent) : Prop :=
  ExtentsPlaced (fun data _ _ => data.Sound) (fun _ => 0) start extents

/-- Only the content from the start on matters. -/
theorem ExtentsPlaced.congr {g : ℕ → UInt8} (h : ExtentsPlaced P f start extents)
    (heq : ∀ p, start ≤ p → f p = g p) : ExtentsPlaced P g start extents := by
  induction extents generalizing start with
  | nil => trivial
  | cons e rest ih =>
    obtain ⟨hstart, hdata, hrest⟩ := h
    have hsame : (fun p => f (start + p)) = fun p => g (start + p) :=
      funext fun p => heq (start + p) (by omega)
    rw [hsame] at hdata
    exact ⟨hstart, hdata, ih hrest fun p hp => heq p (by omega)⟩

/-- Each extent stands for its part of the concatenation. -/
theorem ExtentsSound.own (h : ExtentsSound start extents)
    (hwraps : ∀ e ∈ extents, e.data.WrapsToZeros e.length)
    (hend : start + totalLength extents < 2^64) :
    ExtentsPlaced ExtentData.Own (fun p => concatenation extents (p - start)) start extents := by
  induction extents generalizing start with
  | nil => trivial
  | cons e rest ih =>
    obtain ⟨hstart, hsound, hrest⟩ := h
    rw [totalLength_cons] at hend
    refine ⟨hstart, ⟨hsound, by omega, hwraps e List.mem_cons_self, fun p hp => ?_⟩, ?_⟩
    · dsimp only
      rw [Nat.add_sub_cancel_left, concatenation, if_pos hp]
    · have hown := ih hrest (fun x hx => hwraps x (List.mem_cons_of_mem e hx)) (by omega)
      refine hown.congr fun p hp => ?_
      rw [concatenation, if_neg (by omega), Nat.sub_sub]

/-- An extent of the list lies between its ends, and stands for its part. -/
theorem ExtentsPlaced.of_mem {e : OpenExtent} (h : ExtentsPlaced P f start extents)
    (he : e ∈ extents) :
    start ≤ e.start ∧ e.start + e.length ≤ start + totalLength extents ∧
      P e.data (fun p => f (e.start + p)) e.length := by
  induction extents generalizing start with
  | nil => cases he
  | cons x rest ih =>
    obtain ⟨rfl, hdata, hrest⟩ := h
    rw [totalLength_cons]
    rcases List.mem_cons.mp he with rfl | he
    · exact ⟨le_rfl, by omega, hdata⟩
    · obtain ⟨hle, hin, hdata'⟩ := ih hrest he
      exact ⟨by omega, by omega, hdata'⟩

variable {fs : FileSystem} {path : Path}

/-- The translation of the errors of `from_header` changes no extent. -/
theorem SparseExtent.fromHeader_eq_ok {file : List UInt8} {cab : SparseHeader} {ε : Type}
    {f : Stop IoError → ε} {r : OpenResult SparseExtent}
    (h : ((SparseExtent.fromHeader file cab).mapError f).result = .ok r) :
    (SparseExtent.fromHeader file cab).result = .ok r := by
  rw [Logged.result_mapError] at h
  cases hresult : (SparseExtent.fromHeader file cab).result with
  | error e =>
    rw [hresult] at h
    cases h
  | ok r' =>
    rw [hresult] at h
    exact congrArg Except.ok (Except.ok.inj h)

/-- What `SparseExtent::open` returns was opened from a header. -/
theorem SparseExtent.open_opened {sparsePath descriptorPath : Path} {name : List Char}
    {componentType : String} {ext : SparseExtent}
    (h : (SparseExtent.open fs sparsePath descriptorPath name componentType).result =
      .ok (.native ext)) :
    ∃ file cab, SparseExtent.Opened file cab ext := by
  unfold SparseExtent.open at h
  obtain ⟨file, -, h⟩ := Logged.ofExcept_bind_eq_ok.mp h
  obtain ⟨buf, -, h⟩ := Logged.ofExcept_bind_eq_ok.mp h
  obtain ⟨cab, -, h⟩ := Logged.ofExcept_bind_eq_ok.mp h
  exact ⟨file, cab, SparseExtent.opened (SparseExtent.fromHeader_eq_ok h)⟩

/-- The data of an extent that was opened. -/
theorem openExtentData_sound {e : ExtentDescriptor} {data : ExtentData}
    (h : (openExtentData fs path e).result = .ok (.native data)) : data.Sound := by
  unfold openExtentData at h
  split_ifs at h with hzero hflat hsparse
  · cases h
    trivial
  · cases hname : e.file with
    | none =>
      rw [hname] at h
      cases h
    | some name =>
      rw [hname] at h
      obtain ⟨file, hopen, h⟩ := Logged.ofExcept_bind_eq_ok.mp h
      rw [Logged.result_mul_bind] at h
      cases h
      refine ⟨?_, Nat.mod_lt _ (by norm_num)⟩
      rw [openComponentFile_sound] at hopen
      cases hread : fs.openRead (resolveExtentPath path name) with
      | error err =>
        rw [hread] at hopen
        cases hopen
      | ok bytes =>
        rw [hread] at hopen
        cases hopen
        exact fs.size_lt _ _ hread
  · cases hname : e.file with
    | none =>
      rw [hname] at h
      cases h
    | some name =>
      rw [hname] at h
      obtain ⟨r, hopen, h⟩ := Logged.bind_eq_ok.mp h
      cases r with
      | needsNbd reason => cases h
      | native ext =>
        cases h
        obtain ⟨file, cab, hopened⟩ := SparseExtent.open_opened hopen
        exact ⟨hopened.cached .sound, hopened.capacity_lt, hopened.indexFits⟩
  · cases h

/-- Opening several extents opens the first, and then the others behind it. -/
theorem openExtents_cons_native {e : ExtentDescriptor} {rest : List ExtentDescriptor}
    {opened result : List OpenExtent}
    (h : (openExtents fs path (e :: rest) start opened).result = .ok (.native result)) :
    ∃ data, (openExtentData fs path e).result = .ok (.native data) ∧
      (openExtents fs path rest (addw start (mulw e.sectors sector))
        (opened ++ [⟨start, mulw e.sectors sector, data⟩])).result = .ok (.native result) := by
  rw [openExtents, Logged.result_mul_bind] at h
  obtain ⟨r, hdata, h⟩ := Logged.bind_eq_ok.mp h
  cases r with
  | needsNbd reason => cases h
  | native data =>
    dsimp only at h
    rw [Logged.result_add_bind] at h
    exact ⟨data, hdata, h⟩

/-- The loop over the extents of a descriptor gives each its length in bytes, and places one behind
the other. -/
theorem openExtents_sound {descriptors : List ExtentDescriptor} {opened result : List OpenExtent}
    (h : (openExtents fs path descriptors start opened).result = .ok (.native result)) :
    ∃ new, result = opened ++ new ∧
      new.map (·.length) = descriptors.map (fun e => mulw e.sectors sector) ∧
      (start + totalLength new < 2^64 → ExtentsSound start new) := by
  induction descriptors generalizing start opened with
  | nil =>
    have hresult : opened = result := OpenResult.native.inj (Except.ok.inj h)
    exact ⟨[], by rw [hresult, List.append_nil], rfl, fun _ => trivial⟩
  | cons e rest ih =>
    obtain ⟨data, hdata, h⟩ := openExtents_cons_native h
    obtain ⟨new, rfl, hlengths, hsound⟩ := ih h
    refine ⟨⟨start, mulw e.sectors sector, data⟩ :: new, ?_, ?_, fun hend => ?_⟩
    · rw [List.append_assoc]
      rfl
    · rw [List.map_cons, List.map_cons, hlengths]
    · rw [totalLength_cons] at hend
      dsimp only at hend hsound
      rw [addw_of_lt (by omega)] at hsound
      exact ⟨rfl, openExtentData_sound hdata, hsound (by omega)⟩

/-- A VMDK that is read directly is a sparse file whose header was opened, or a descriptor whose
extents were. -/
theorem openVmdkNative_native {ν : Type} {backend : Backend ν} {mode : String}
    (h : (openVmdkNative fs path).result = .ok (.native (backend, mode))) :
    ∃ file, fs.openRead path = .ok file ∧
      ((∃ cab extent, isSparseHeader file = true ∧ readSparseHeader file = .ok cab ∧
          (SparseExtent.fromHeader file cab).result = .ok (.native extent) ∧
          backend = .sparse extent) ∨
        ∃ text parts, isSparseHeader file = false ∧ isTextDescriptor file = true ∧
          fs.readToString path = .ok text ∧
          (openExtents fs path (parseDescriptor text).extents 0 []).result = .ok (.native parts) ∧
          backend = .extents parts) := by
  rw [openVmdkNative_front] at h
  obtain ⟨-, -, h⟩ := Logged.bind_eq_ok.mp h
  obtain ⟨file, hmain, h⟩ := Logged.ofExcept_bind_eq_ok.mp h
  refine ⟨file, openMainImageFile_eq_ok.mp hmain, ?_⟩
  rw [isSparseHeader_take (by norm_num), isTextDescriptor_take (by norm_num)] at h
  split_ifs at h with hsparse htext
  · unfold openMonolithicSparse at h
    obtain ⟨cab, hcab, h⟩ := Logged.ofExcept_bind_eq_ok.mp h
    rw [readSparseHeader_take (by norm_num)] at hcab
    obtain ⟨embedded, -, h⟩ := Logged.bind_eq_ok.mp h
    split_ifs at h with hparent hmany
    · cases h
    · cases h
    · obtain ⟨r, hheader, h⟩ := Logged.bind_eq_ok.mp h
      cases r with
      | needsNbd reason => cases h
      | native extent =>
        cases h
        have hextent := SparseExtent.fromHeader_eq_ok hheader
        exact Or.inl ⟨cab, extent, hsparse, hcab, hextent, rfl⟩
  · unfold openTextDescriptor at h
    obtain ⟨text, htextOf, h⟩ := Logged.ofExcept_bind_eq_ok.mp h
    dsimp only at h
    by_cases hparent : (parseDescriptor text).hasParent = true
    · rw [if_pos hparent] at h
      cases h
    by_cases hnone : (parseDescriptor text).extents = []
    · rw [if_neg hparent, if_pos hnone] at h
      cases h
    rw [if_neg hparent, if_neg hnone] at h
    obtain ⟨r, hparts, h⟩ := Logged.bind_eq_ok.mp h
    cases r with
    | needsNbd reason => cases h
    | native parts =>
      cases h
      exact Or.inr ⟨text, parts, Bool.eq_false_iff.mpr hsparse, htext, htextOf, hparts, rfl⟩
  · cases h

end VmSpect
