import VmSpect.Lib.Bytes
import VmSpect.Lib.Text
import VmSpect.Lib.UnixPath
import VmSpect.Error

/-!
# The files that the readers see

What the file system answers while an image is identified and opened: sizes, contents and canonical
paths. Files do not change under the reader. Sizes and positions are signed 64-bit numbers to the
operating system, so a file is shorter than `2^63` bytes and a seek to `2^63` or beyond fails.

Any other call may fail as well. `Device` says which calls on a file fail while it is used once, and
how; on a sound device, the default, none does. A read that does not fail returns what is asked for
as far as the file goes.
-/

namespace VmSpect

open Bytes UnixPath

/-- The answers of the file system. -/
structure FileSystem where
  /-- `fs::metadata`, with the size. -/
  metadata : Path → Except IoError ℕ
  /-- `File::open` for reading, with the contents. -/
  openRead : Path → Except IoError (List UInt8)
  /-- `fs::canonicalize`. -/
  canonicalize : Path → Option Path
  size_lt : ∀ path bytes, openRead path = .ok bytes → bytes.length < 2^63

/-! ## Calls that fail -/

/-- The errors of the calls on a file while it is used once. -/
structure Device where
  /-- Of the call that opens it, or asks for its metadata. -/
  access : Option IoError
  /-- Of a seek to a position. -/
  seek : ℕ → Option IoError
  /-- Of the reads of so many bytes at a position. -/
  read : ℕ → ℕ → Option IoError

namespace Device

/-- No call fails. -/
def sound : Device := ⟨none, fun _ => none, fun _ _ => none⟩

/-- What a call returns unless it fails. -/
def orError {α : Type} (failure : Option IoError) (result : Except IoError α) : Except IoError α :=
  match failure with
  | some e => .error e
  | none => result

/-- The error that ends a loop of reads: an interrupted read is made again. -/
def lasting (device : Device) (pos len : ℕ) : Option IoError :=
  (device.read pos len).filter fun e => e.kind ≠ .interrupted

/-- The error that ends the filling of a buffer, for which no read is made when it is empty. -/
def filling (device : Device) (pos len : ℕ) : Option IoError :=
  (device.lasting pos len).filter fun _ => 0 < len

/-- A seek to the position, or a read of so many bytes there, fails. -/
def Refuses (device : Device) (pos len : ℕ) : Prop :=
  2^63 ≤ pos ∨ (device.seek pos).isSome ∨ (device.filling pos len).isSome

instance (device : Device) (pos len : ℕ) : Decidable (device.Refuses pos len) :=
  inferInstanceAs (Decidable (_ ∨ _ ∨ _))

/-- A sound device refuses only the positions that no file has. -/
theorem not_refuses_sound {pos len : ℕ} (h : pos < 2^63) : ¬sound.Refuses pos len := by
  rintro (hfar | hseek | hread)
  · omega
  · cases hseek
  · cases hread

/-- A call that does not fail returns its result. -/
@[simp] theorem orError_none {α : Type} (result : Except IoError α) : orError none result = result :=
  rfl

end Device

/-- `seek(SeekFrom::Start(pos))` on a file. -/
def seekFile (pos : ℕ) (device : Device := .sound) : Except IoError Unit :=
  if pos < 2^63 then Device.orError (device.seek pos) (.ok ())
  else .error ⟨.invalidInput, "Invalid argument (os error 22)"⟩

/-- On a sound device a seek fails by its position alone. -/
theorem seekFile_sound (pos : ℕ) : seekFile pos =
    if pos < 2^63 then .ok () else .error ⟨.invalidInput, "Invalid argument (os error 22)"⟩ :=
  rfl

/-- One `read` of `len` bytes at the front of a file. -/
def readFront (file : List UInt8) (len : ℕ) (device : Device := .sound) : Except IoError (List UInt8) :=
  Device.orError (device.read 0 len) (.ok (file.take len))

/-- `read_exact` of `len` bytes at the position of a file. -/
def readExact (file : List UInt8) (pos len : ℕ) (device : Device := .sound) :
    Except IoError (List UInt8) :=
  Device.orError (device.filling pos len)
    (if len = 0 ∨ pos + len ≤ file.length then .ok (slice file pos len)
      else .error ⟨.unexpectedEof, "failed to fill whole buffer"⟩)

/-- On a sound device `read_exact` fails only at the end of the file. -/
theorem readExact_sound (file : List UInt8) (pos len : ℕ) : readExact file pos len =
    if len = 0 ∨ pos + len ≤ file.length then .ok (slice file pos len)
    else .error ⟨.unexpectedEof, "failed to fill whole buffer"⟩ :=
  rfl

/-- On a sound device the front of the file is read. -/
@[simp] theorem readFront_sound (file : List UInt8) (len : ℕ) :
    readFront file len = .ok (file.take len) :=
  rfl

/-- A read of a full buffer returns the bytes of the file. -/
theorem eq_slice_of_readExact {file : List UInt8} {pos len : ℕ} {device : Device}
    {raw : List UInt8} (h : readExact file pos len device = .ok raw) :
    (len = 0 ∨ pos + len ≤ file.length) ∧ raw = slice file pos len := by
  unfold readExact at h
  cases hfill : device.filling pos len with
  | some e =>
    rw [hfill] at h
    cases h
  | none =>
    rw [hfill, Device.orError_none] at h
    split_ifs at h with hinside
    cases h
    exact ⟨hinside, rfl⟩

namespace FileSystem

/-- `open_read_file`. -/
def openReadFile (fs : FileSystem) (path : Path) (device : Device := .sound) :
    Except IoError (List UInt8) :=
  Device.orError device.access (fs.openRead path)

/-- On a sound device a file is opened when it can be. -/
@[simp] theorem openReadFile_sound (fs : FileSystem) (path : Path) :
    fs.openReadFile path = fs.openRead path :=
  rfl

/-- `fs::metadata`, or `metadata` of an open file. -/
def stat (fs : FileSystem) (path : Path) (device : Device := .sound) : Except IoError ℕ :=
  Device.orError device.access (fs.metadata path)

/-- On a sound device the metadata is that of the file system. -/
@[simp] theorem stat_sound (fs : FileSystem) (path : Path) : fs.stat path = fs.metadata path := rfl

/-- `fs::read_to_string`. -/
def readToString (fs : FileSystem) (path : Path) (device : Device := .sound) :
    Except IoError (List Char) :=
  match fs.openReadFile path device with
  | .error e => .error e
  | .ok bytes =>
    Device.orError (device.lasting 0 bytes.length) (match Text.fromUtf8 bytes with
      | some text => .ok text
      | none => .error ⟨.invalidData, "stream did not contain valid UTF-8"⟩)

/-- On a sound device a text is what the file holds, when it is valid. -/
theorem readToString_sound (fs : FileSystem) (path : Path) :
    fs.readToString path = match fs.openRead path with
      | .error e => .error e
      | .ok bytes =>
        match Text.fromUtf8 bytes with
        | some text => .ok text
        | none => .error ⟨.invalidData, "stream did not contain valid UTF-8"⟩ :=
  rfl

/-- The file system with one file, in which every path is canonical. -/
def single (file : Path) (bytes : List UInt8) (hbytes : bytes.length < 2^63) : FileSystem where
  metadata path := if path = file then .ok bytes.length
    else .error ⟨.notFound, "No such file or directory (os error 2)"⟩
  openRead path := if path = file then .ok bytes
    else .error ⟨.notFound, "No such file or directory (os error 2)"⟩
  canonicalize := some
  size_lt := by
    intro path found h
    split_ifs at h
    cases h
    exact hbytes

end FileSystem

/-- The contents of a file, continued by zeros. -/
def zeroExtended (file : List UInt8) (i : ℕ) : UInt8 := file.getD i 0

/-- A content is zero from its end on. -/
theorem zeroExtended_of_le {file : List UInt8} {p : ℕ} (h : file.length ≤ p) :
    zeroExtended file p = 0 := by
  rw [zeroExtended, List.getD_eq_getElem?_getD, List.getElem?_eq_none h, Option.getD_none]

/-- Inside of the file, a window is a slice of it. -/
theorem window_eq_slice {file : List UInt8} {offset n : ℕ} (h : offset + n ≤ file.length) :
    window (zeroExtended file) offset n = slice file offset n := by
  apply List.ext_getElem?
  intro k
  by_cases hk : k < n
  · have hlt : offset + k < file.length := by omega
    rw [getElem?_window _ hk, zeroExtended, List.getD_eq_getElem?_getD, slice,
      List.getElem?_take_of_lt hk, List.getElem?_drop, List.getElem?_eq_getElem hlt, Option.getD_some]
  · have hwindow : (window (zeroExtended file) offset n).length ≤ k := by
      rw [length_window]
      omega
    have hslice : (slice file offset n).length ≤ k := by
      rw [length_slice]
      omega
    rw [List.getElem?_eq_none hwindow, List.getElem?_eq_none hslice]

/-- The buffer that `read_or_zeros` of `len` bytes at the position of a file leaves. -/
def readOrZeros (file : List UInt8) (pos len : ℕ) : List UInt8 := window (zeroExtended file) pos len

/-- `read_or_zeros`, which fails when one of its reads does. -/
def tryReadOrZeros (file : List UInt8) (pos len : ℕ) (device : Device := .sound) :
    Except IoError (List UInt8) :=
  Device.orError (device.filling pos len) (.ok (readOrZeros file pos len))

/-- On a sound device `read_or_zeros` leaves its buffer. -/
@[simp] theorem tryReadOrZeros_sound (file : List UInt8) (pos len : ℕ) :
    tryReadOrZeros file pos len = .ok (readOrZeros file pos len) :=
  rfl

namespace Device

variable {device : Device} {pos len : ℕ}

/-- Where the device refuses, either the seek fails or what is read after it does. -/
theorem Refuses.fails (h : device.Refuses pos len) (file : List UInt8) :
    (∃ e, seekFile pos device = .error e) ∨ seekFile pos device = .ok () ∧
      (∃ e, readExact file pos len device = .error e) ∧
      ∃ e, tryReadOrZeros file pos len device = .error e := by
  unfold seekFile
  by_cases hfar : pos < 2^63
  · rw [if_pos hfar]
    cases hseek : device.seek pos with
    | some e => exact Or.inl ⟨e, rfl⟩
    | none =>
      have hread : (device.filling pos len).isSome := by
        rcases h with hge | hrefused | hread
        · omega
        · rw [hseek] at hrefused
          cases hrefused
        · exact hread
      obtain ⟨e, he⟩ := Option.isSome_iff_exists.mp hread
      unfold readExact tryReadOrZeros
      rw [he]
      exact Or.inr ⟨rfl, ⟨e, rfl⟩, ⟨e, rfl⟩⟩
  · rw [if_neg hfar]
    exact Or.inl ⟨_, rfl⟩

/-- Elsewhere it answers as a sound device does. -/
theorem answers_of_not_refuses (h : ¬device.Refuses pos len) (file : List UInt8) :
    seekFile pos device = .ok () ∧ readExact file pos len device = readExact file pos len ∧
      tryReadOrZeros file pos len device = .ok (readOrZeros file pos len) := by
  unfold Refuses at h
  rw [not_or, not_or, Option.not_isSome_iff_eq_none, Option.not_isSome_iff_eq_none, not_le] at h
  obtain ⟨hnear, hseek, hread⟩ := h
  refine ⟨?_, ?_, ?_⟩
  · rw [seekFile, if_pos hnear, hseek]
    rfl
  · rw [readExact, hread]
    rfl
  · rw [tryReadOrZeros, hread]
    rfl

end Device

end VmSpect
