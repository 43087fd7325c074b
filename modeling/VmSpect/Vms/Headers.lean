import VmSpect.Vms.Vmdk

/-!
# The first bytes of an image

What `is_sparse_header`, `is_text_descriptor` and `read_sparse_header` say depends on the first
bytes of a file only, so that the callers agree although they read different amounts of it. No file
is both a sparse file and a text descriptor.
-/

namespace VmSpect.Vmdk

open Bytes

/-- A text descriptor is recognised by its first 64 bytes. -/
theorem isTextDescriptor_take {file : List UInt8} {n : ℕ} (h : 64 ≤ n) :
    isTextDescriptor (file.take n) = isTextDescriptor file := by
  rw [isTextDescriptor, isTextDescriptor, List.take_take, Nat.min_eq_left h]

/-- A sparse file is recognised by its first four bytes. -/
theorem isSparseHeader_take {file : List UInt8} {n : ℕ} (h : 4 ≤ n) :
    isSparseHeader (file.take n) = isSparseHeader file := by
  rw [isSparseHeader, isSparseHeader, List.take_take, Nat.min_eq_left h, List.length_take]
  congr 1
  rw [decide_eq_decide]
  omega

/-- Bytes decode to at most as many characters. -/
theorem length_decodeParts_le (skip : ℕ) (bytes : List UInt8) :
    (Text.decodeParts skip bytes).length ≤ bytes.length := by
  induction bytes generalizing skip with
  | nil => simp [Text.decodeParts]
  | cons first rest ih =>
    cases skip with
    | zero =>
      have hrest := ih ((Text.decodeFirst first rest).2 - 1)
      simp only [Text.decodeParts, List.length_cons]
      omega
    | succ skip =>
      have hrest := ih skip
      simp only [Text.decodeParts, List.length_cons]
      omega

/-- A text descriptor has more than eight bytes. -/
theorem length_of_isTextDescriptor {file : List UInt8} (h : isTextDescriptor file = true) :
    8 ≤ file.length := by
  rw [isTextDescriptor, List.isPrefixOf_iff_prefix] at h
  have hlength := h.length_le
  have htrim := (List.dropWhile_suffix Text.isWhitespace
    (l := Text.fromUtf8Lossy (file.take 64))).length_le
  have hdecode := length_decodeParts_le 0 (file.take 64)
  have hmagic : "# Disk DescriptorFile".toList.length = 21 := by decide
  rw [Text.trimStart, Text.trimStartMatches] at hlength
  rw [Text.fromUtf8Lossy, List.length_map] at htrim
  rw [Text.fromUtf8Lossy] at hlength
  rw [List.length_take] at hdecode
  omega

/-- A text descriptor does not start like a sparse file. -/
theorem not_isSparseHeader {file : List UInt8} (h : isTextDescriptor file = true) :
    isSparseHeader file = false := by
  rw [Bool.eq_false_iff]
  intro hsparse
  rw [isSparseHeader, Bool.and_eq_true, decide_eq_true_eq, decide_eq_true_eq] at hsparse
  obtain ⟨-, hmagic⟩ := hsparse
  obtain ⟨rest, rfl⟩ : ∃ rest, file = 0x4B :: rest := by
    cases file with
    | nil => cases hmagic
    | cons first rest =>
      rw [List.take_succ_cons, magicKdmv, List.cons.injEq] at hmagic
      exact ⟨rest, by rw [hmagic.1]⟩
  -- The first character is a `K`, which is neither a blank nor the `#` of a descriptor.
  have hdecode : Text.decodeParts 0 ((0x4B :: rest).take 64) =
      some 'K' :: Text.decodeParts 0 (rest.take 63) := by
    rw [List.take_succ_cons, Text.decodeParts]
    rfl
  rw [isTextDescriptor, Text.fromUtf8Lossy, hdecode] at h
  revert h
  simp [Text.trimStart, Text.trimStartMatches, Text.isWhitespace]

/-- The fields of a sparse header lie in its first 80 bytes. -/
theorem readSparseHeader_take {file : List UInt8} {n : ℕ} (h : 80 ≤ n) :
    readSparseHeader (file.take n) = readSparseHeader file := by
  have hfield (o k : ℕ) (hk : o + k ≤ 80) : slice (file.take n) o k = slice file o k := by
    rw [show file.take n = slice file 0 n from rfl, slice_slice (by omega), Nat.zero_add]
  have hlen : (file.take n).length < 80 ↔ file.length < 80 := by
    rw [List.length_take]
    omega
  simp only [readSparseHeader, hlen, isSparseHeader_take (show 4 ≤ n by omega), hfield 4 4 (by omega),
    hfield 8 4 (by omega), hfield 12 8 (by omega), hfield 20 8 (by omega), hfield 28 8 (by omega),
    hfield 36 8 (by omega), hfield 44 4 (by omega), hfield 48 8 (by omega), hfield 56 8 (by omega),
    hfield 77 2 (by omega)]

/-- A header that is read has its magic and its fields. -/
theorem of_readSparseHeader {buf : List UInt8} {cab : SparseHeader}
    (h : readSparseHeader buf = .ok cab) : isSparseHeader buf = true ∧ 80 ≤ buf.length := by
  unfold readSparseHeader at h
  dsimp only at h
  split at h
  · cases h
  · rename_i hvalid
    rw [not_or, Bool.not_eq_false] at hvalid
    exact ⟨hvalid.2, not_lt.mp hvalid.1⟩

end VmSpect.Vmdk
