import VmSpect.Vms.SparseReads
import VmSpect.Vms.ExtentReads

/-!
# What a native backend reads

A backend that serves a disk `D` answers every read with the bytes of `D`, and still serves `D`
after it. For a list of extents this is the general fact about extents that stand one after the
other (`readFromExtents_spec`), at extents that never fail.
-/

namespace VmSpect

open Bytes Words Vmdk

/-- An extent whose first `length` bytes are those of the content `f`. -/
def ExtentData.Serves (data : ExtentData) (f : ℕ → UInt8) (length : ℕ) : Prop :=
  match data with
  | .zero => ∀ p < length, f p = 0
  | .flat file base => file.length < 2^63 ∧ base + length ≤ file.length ∧
      ∀ p < length, f p = zeroExtended file (base + p)
  | .sparse extent => ∃ D, extent.Holds D ∧ ∀ p < length, f p = zeroExtended D p

/-- A window that reaches past the end of the disk: its bytes, and zeros. -/
theorem window_zeroExtended (D : List UInt8) (offset n : ℕ) :
    window (zeroExtended D) offset n =
      window (zeroExtended D) offset (min n (D.length - offset)) ++
        List.replicate (n - min n (D.length - offset)) 0 := by
  have hsplit : n = min n (D.length - offset) + (n - min n (D.length - offset)) := by omega
  conv_lhs => rw [hsplit, window_add]
  congr 1
  exact window_eq_replicate fun k hk => zeroExtended_of_le (by omega)

/-- An extent reads its content, and keeps it. -/
theorem ExtentData.Serves.readAt {data : ExtentData} {f : ℕ → UInt8} {length : ℕ}
    (h : data.Serves f length) (within : ℕ) {n : ℕ} (hn : 0 < n) (hinside : within + n ≤ length) :
    ∃ data', data.readAt within n = (data', .ok (window f within n)) ∧ data'.Serves f length := by
  cases data with
  | zero =>
    refine ⟨.zero, ?_, h⟩
    rw [ExtentData.readAt, window_eq_replicate fun k hk => h (within + k) (by omega)]
  -- The sum of the two offsets does not wrap, since the extent fits the file.
  | flat file base =>
    obtain ⟨hfile, hfits, hbytes⟩ := h
    have haddr : addw base within = base + within := addw_of_lt (by omega)
    refine ⟨.flat file base, ?_, hfile, hfits, hbytes⟩
    rw [ExtentData.readAt, haddr, seekFile, if_pos (by omega)]
    refine congrArg (Prod.mk _) (congrArg Except.ok (window_congr fun k hk => ?_))
    rw [hbytes (within + k) (by omega), Nat.add_assoc]
  | sparse extent =>
    obtain ⟨D, hholds, hbytes⟩ := h
    obtain ⟨extent', hread, hholds'⟩ := hholds.readAt_spec within (List.replicate n 0)
    refine ⟨.sparse extent', ?_, D, hholds', hbytes⟩
    rw [List.length_replicate] at hread
    rw [ExtentData.readAt, hread]
    dsimp only
    rw [List.take_left' (length_window _ _ _), ← window_zeroExtended]
    refine congrArg (Prod.mk _) (congrArg Except.ok (window_congr fun k hk => ?_))
    exact (hbytes (within + k) (by omega)).symm

/-- Extents that stand one after the other from `start` on, each with its part of the content
`f`. -/
def ExtentsServe (f : ℕ → UInt8) : ℕ → List OpenExtent → Prop
  | _, [] => True
  | start, e :: rest => e.start = start ∧ e.data.Serves (fun p => f (start + p)) e.length ∧
      ExtentsServe f (start + e.length) rest

/-- The general notion at this kind of extents. -/
theorem extentsServe_iff {f : ℕ → UInt8} {start : ℕ} {extents : List OpenExtent} :
    ExtentsServe f start extents ↔ ExtentsPlaced ExtentData.Serves f start extents := by
  induction extents generalizing start with
  | nil => rfl
  | cons e rest ih => rw [ExtentsServe, ExtentsPlaced, ih]

/-- They read their content, and never fail. -/
theorem readsAs_serves : ReadsAs ExtentData.Serves False := by
  intro data f length within n h hn hinside
  obtain ⟨data', hread, hdata⟩ := h.readAt within hn hinside
  exact ⟨data', hdata, Or.inl hread⟩

/-! ## The backends -/

variable {ν : Type}

/-- A native backend that reads the disk `D`. -/
def Backend.Serves (backend : Backend ν) (D : List UInt8) : Prop :=
  match backend with
  | .raw file => file = D ∧ file.length < 2^63
  | .sparse extent => extent.Holds D
  | .extents parts => ExtentsServe (zeroExtended D) 0 parts ∧ totalLength parts = D.length ∧
      D.length < 2^64
  | .nbd _ => False

/-- A native backend reads the bytes of its disk, and keeps them. -/
theorem Backend.Serves.readRange {backend : Backend ν} {D : List UInt8} (h : backend.Serves D)
    (nbd : NbdApi ν) (offset len : ℕ) (hinside : offset + len ≤ D.length) :
    ∃ backend', backend.readRange nbd offset len =
        (backend', .ok (window (zeroExtended D) offset len)) ∧ backend'.Serves D := by
  cases backend with
  | raw file =>
    obtain ⟨rfl, hfile⟩ := h
    refine ⟨.raw file, ?_, rfl, hfile⟩
    rw [Backend.readRange, seekFile, if_pos (by omega)]
    rfl
  | sparse extent =>
    obtain ⟨extent', hread, hholds⟩ := SparseExtent.Holds.readAt_spec h offset (List.replicate len 0)
    refine ⟨.sparse extent', ?_, hholds⟩
    rw [List.length_replicate, Nat.min_eq_left (by omega)] at hread
    rw [Backend.readRange, hread]
    dsimp only
    rw [List.take_left' (length_window _ _ _)]
  | extents parts =>
    obtain ⟨hserve, htotal, hsize⟩ := h
    have hzero : ∀ p, totalLength parts ≤ p → zeroExtended D p = 0 := by
      rw [htotal]
      exact fun p hp => zeroExtended_of_le hp
    obtain ⟨parts', hserve', htotal', hread | ⟨hno, -⟩⟩ := readFromExtents_spec readsAs_serves
      (extentsServe_iff.mp hserve) (by rw [htotal]; exact hsize) hzero
      (show offset + len ≤ 2^64 by omega)
    · refine ⟨.extents parts', ?_, extentsServe_iff.mpr hserve', htotal'.trans htotal, hsize⟩
      rw [Backend.readRange, hread]
    · exact hno.elim
  | nbd reader => exact absurd h id

/-- A reader over a native backend of `D`. -/
structure DiskReader.Serves (reader : DiskReader ν) (D : List UInt8) : Prop where
  backend : reader.backend.Serves D
  virtualSize : reader.virtualSize = D.length

/-- A read returns the bytes of the disk that are inside of it. -/
theorem DiskReader.Serves.readRange {reader : DiskReader ν} {D : List UInt8} (h : reader.Serves D)
    (nbd : NbdApi ν) (offset len : ℕ) :
    ∃ reader', reader.readRange nbd false offset len =
        (reader', .ok (window (zeroExtended D) offset (min len (D.length - offset)))) ∧
      reader'.Serves D := by
  unfold DiskReader.readRange
  rw [if_neg (by decide), h.virtualSize]
  split
  · rename_i hnone
    have hzero : min len (D.length - offset) = 0 := by omega
    refine ⟨reader, ?_, h⟩
    rw [hzero, window_zero]
  · rename_i hsome
    obtain ⟨backend', hread, hserves⟩ := h.backend.readRange nbd offset
      (min len (D.length - offset)) (by omega)
    rw [hread]
    exact ⟨_, rfl, hserves, rfl⟩

/-- A buffer is filled with the bytes of the disk, and with zeros past its end. -/
theorem DiskReader.Serves.fillRange {reader : DiskReader ν} {D : List UInt8} (h : reader.Serves D)
    (nbd : NbdApi ν) (offset len : ℕ) :
    ∃ reader', reader.fillRange nbd false offset len =
        (reader', .ok (window (zeroExtended D) offset len)) ∧ reader'.Serves D := by
  obtain ⟨reader', hread, hserves⟩ := h.readRange nbd offset len
  refine ⟨reader', ?_, hserves⟩
  rw [DiskReader.fillRange, hread]
  dsimp only
  rw [length_window, ← window_zeroExtended]

/-- So is each buffer of a sequence of reads. -/
theorem DiskReader.Serves.fillAll {reader : DiskReader ν} {D : List UInt8} (h : reader.Serves D)
    (nbd : NbdApi ν) (reads : List (ℕ × ℕ)) :
    reader.fillAll nbd reads =
      reads.map fun (offset, len) => .ok (window (zeroExtended D) offset len) := by
  induction reads generalizing reader with
  | nil => rfl
  | cons read rest ih =>
    obtain ⟨offset, len⟩ := read
    obtain ⟨reader', hfill, hserves⟩ := h.fillRange nbd offset len
    rw [DiskReader.fillAll, hfill, List.map_cons, ← ih hserves]

end VmSpect
