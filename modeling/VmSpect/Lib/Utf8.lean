import VmSpect.Lib.Text

/-!
# UTF-8 and its single bytes

A byte below `0x80` stands for a character of its own and is part of no other one. Valid bytes with
such a byte among them therefore decode to the text before it, its character, and the text after it
(`fromUtf8_split`), and the text has the character only where the bytes have the byte
(`mem_of_mem_fromUtf8`).
-/

namespace Text

/-! ## One character -/

/-- The code point of a character that is given by a valid code point. -/
theorem toNat_ofNat {n : ℕ} (h : n.isValidChar) : (Char.ofNat n).toNat = n := by
  unfold Char.ofNat
  rw [dif_pos h]
  rfl

/-- The first bytes of the characters of two bytes. -/
theorem bounds_of_charWidth_two {b : ℕ} (h : charWidth b = 2) : 0xC2 ≤ b ∧ b ≤ 0xDF := by
  unfold charWidth at h
  split_ifs at h <;> omega

/-- The first bytes of the characters of three bytes. -/
theorem bounds_of_charWidth_three {b : ℕ} (h : charWidth b = 3) : 0xE0 ≤ b ∧ b ≤ 0xEF := by
  unfold charWidth at h
  split_ifs at h <;> omega

/-- The first bytes of the characters of four bytes. -/
theorem bounds_of_charWidth_four {b : ℕ} (h : charWidth b = 4) : 0xF0 ≤ b ∧ b ≤ 0xF4 := by
  unfold charWidth at h
  split_ifs at h <;> omega

/-- A byte in a range, as inequalities. -/
theorem inRange_iff {lo hi : ℕ} {b : UInt8} :
    inRange lo hi b = true ↔ lo ≤ b.toNat ∧ b.toNat ≤ hi := by
  unfold inRange
  rw [Bool.and_eq_true, decide_eq_true_eq, decide_eq_true_eq]

/-- A second byte goes on with a character, and after the first bytes with a narrower range it keeps
the code point long enough and valid. -/
theorem secondRange_bounds {first : ℕ} {b : UInt8}
    (h : inRange (secondRange first).1 (secondRange first).2 b = true) :
    0x80 ≤ b.toNat ∧ b.toNat ≤ 0xBF ∧ (first = 0xE0 → 0xA0 ≤ b.toNat) ∧
      (first = 0xED → b.toNat ≤ 0x9F) ∧ (first = 0xF0 → 0x90 ≤ b.toNat) ∧
      (first = 0xF4 → b.toNat ≤ 0x8F) := by
  rw [inRange_iff] at h
  unfold secondRange at h
  split_ifs at h <;> dsimp only at h <;> omega

/-- What is known of a character that was read at the front: its other bytes are `0x80` or above,
what comes after it does not matter, and its code point is below `0x80` only for a single byte. -/
structure Reads (first : UInt8) (rest : List UInt8) (c : Char) (width : ℕ) : Prop where
  width_pos : 0 < width
  tail_le : width - 1 ≤ rest.length
  tail : ∀ b ∈ rest.take (width - 1), 0x80 ≤ b.toNat
  local_ : ∀ more, decodeFirst first (rest.take (width - 1) ++ more) = (some c, width)
  wide : 0x80 ≤ first.toNat → 0x80 ≤ c.toNat

section Widths

variable {first : UInt8} {rest : List UInt8} {c : Char} {width : ℕ}

/-- A character of two bytes. -/
theorem decodeFirst_two (hw : charWidth first.toNat = 2)
    (h : decodeFirst first rest = (some c, width)) : Reads first rest c width := by
  unfold decodeFirst at h
  simp only [hw] at h
  split at h
  · rename_i h1
    obtain ⟨hc, rfl⟩ := Prod.mk.inj h
    obtain _ | ⟨b1, rest⟩ := rest
    · exact absurd h1 (by simp)
    · simp only [List.getElem?_cons_zero, Option.any_some] at h1
      simp only [List.getD_cons_zero, Option.some.injEq] at hc
      have hfirst := bounds_of_charWidth_two hw
      have hsecond := secondRange_bounds h1
      refine ⟨by omega, by simp, ?_, fun more => ?_, fun _ => ?_⟩
      · simpa using hsecond.1
      · unfold decodeFirst
        simp [hw, hc, h1]
      · rw [← hc, toNat_ofNat (Or.inl (by omega))]
        omega
  · exact absurd h (by simp)

/-- A character of three bytes. -/
theorem decodeFirst_three (hw : charWidth first.toNat = 3)
    (h : decodeFirst first rest = (some c, width)) : Reads first rest c width := by
  unfold decodeFirst at h
  simp only [hw] at h
  split at h
  · exact absurd h (by simp)
  rename_i h1
  split at h
  · exact absurd h (by simp)
  rename_i h2
  rw [not_not] at h1 h2
  obtain ⟨hc, rfl⟩ := Prod.mk.inj h
  obtain _ | ⟨b1, _ | ⟨b2, rest⟩⟩ := rest
  · exact absurd h1 (by simp)
  · exact absurd h2 (by simp)
  · simp only [List.getElem?_cons_zero, List.getElem?_cons_succ, Option.any_some] at h1 h2
    simp only [List.getD_cons_zero, List.getD_cons_succ, Option.some.injEq] at hc
    have hfirst := bounds_of_charWidth_three hw
    have hsecond := secondRange_bounds h1
    have hthird := inRange_iff.mp h2
    have hvalid : Nat.isValidChar
        ((first.toNat % 16 * 64 + b1.toNat % 64) * 64 + b2.toNat % 64) := by
      unfold Nat.isValidChar
      omega
    refine ⟨by omega, by simp, ?_, fun more => ?_, fun _ => ?_⟩
    · simpa using ⟨hsecond.1, hthird.1⟩
    · unfold decodeFirst
      simp [hw, hc, h1, h2]
    · rw [← hc, toNat_ofNat hvalid]
      omega

/-- A character of four bytes. -/
theorem decodeFirst_four (hw : charWidth first.toNat = 4)
    (h : decodeFirst first rest = (some c, width)) : Reads first rest c width := by
  unfold decodeFirst at h
  simp only [hw] at h
  split at h
  · exact absurd h (by simp)
  rename_i h1
  split at h
  · exact absurd h (by simp)
  rename_i h2
  split at h
  · exact absurd h (by simp)
  rename_i h3
  rw [not_not] at h1 h2 h3
  obtain ⟨hc, rfl⟩ := Prod.mk.inj h
  obtain _ | ⟨b1, _ | ⟨b2, _ | ⟨b3, rest⟩⟩⟩ := rest
  · exact absurd h1 (by simp)
  · exact absurd h2 (by simp)
  · exact absurd h3 (by simp)
  · simp only [List.getElem?_cons_zero, List.getElem?_cons_succ, Option.any_some] at h1 h2 h3
    simp only [List.getD_cons_zero, List.getD_cons_succ, Option.some.injEq] at hc
    have hfirst := bounds_of_charWidth_four hw
    have hsecond := secondRange_bounds h1
    have hthird := inRange_iff.mp h2
    have hfourth := inRange_iff.mp h3
    have hvalid : Nat.isValidChar
        (((first.toNat % 8 * 64 + b1.toNat % 64) * 64 + b2.toNat % 64) * 64 +
          b3.toNat % 64) := by
      unfold Nat.isValidChar
      omega
    refine ⟨by omega, by simp, ?_, fun more => ?_, fun _ => ?_⟩
    · simpa using ⟨hsecond.1, hthird.1, hfourth.1⟩
    · unfold decodeFirst
      simp [hw, hc, h1, h2, h3]
    · rw [← hc, toNat_ofNat hvalid]
      omega

/-- Every character that is read at the front is read so. -/
theorem decodeFirst_reads (h : decodeFirst first rest = (some c, width)) :
    Reads first rest c width := by
  have hread := h
  unfold decodeFirst at hread
  dsimp only at hread
  split at hread
  · -- A single byte is its own code point.
    rename_i hw
    obtain ⟨hc, rfl⟩ := Prod.mk.inj hread
    have hlow : first.toNat < 0x80 := by
      unfold charWidth at hw
      split_ifs at hw <;> omega
    refine ⟨Nat.one_pos, Nat.zero_le _, fun b hb => absurd hb List.not_mem_nil, fun more => ?_,
      by omega⟩
    unfold decodeFirst
    simp only [hw, hc]
  · exact decodeFirst_two ‹_› h
  · exact decodeFirst_three ‹_› h
  · exact decodeFirst_four ‹_› h
  · exact absurd hread (by simp)

end Widths

/-- A byte below `0x80` is a character. -/
theorem decodeFirst_single {first : UInt8} (h : first.toNat < 0x80) (rest : List UInt8) :
    decodeFirst first rest = (some (Char.ofNat first.toNat), 1) := by
  have hwidth : charWidth first.toNat = 1 := if_pos h
  unfold decodeFirst
  simp only [hwidth]

/-! ## Texts -/

/-- The parts of bytes whose first one begins a part. -/
theorem decodeParts_cons (first : UInt8) (rest : List UInt8) :
    decodeParts 0 (first :: rest) =
      (decodeFirst first rest).1 :: decodeParts ((decodeFirst first rest).2 - 1) rest := rfl

/-- Valid bytes are those that decode to characters only. -/
theorem fromUtf8_eq_some_iff {bytes : List UInt8} {text : List Char} :
    fromUtf8 bytes = some text ↔ decodeParts 0 bytes = text.map some := by
  unfold fromUtf8
  induction decodeParts 0 bytes generalizing text with
  | nil =>
    rw [List.mapM_nil, Option.pure_def, Option.some.injEq, eq_comm, eq_comm (a := []),
      List.map_eq_nil_iff]
  | cons part rest ih =>
    rw [List.mapM_cons]
    rcases part with _ | c
    · rcases text with _ | ⟨d, text⟩ <;> simp
    · rcases text with _ | ⟨d, text⟩
      · rcases rest.mapM id with _ | tail <;> simp
      · rw [List.map_cons, List.cons.injEq, ← ih]
        rcases rest.mapM id with _ | tail <;> simp

/-- Only no bytes decode to no text. -/
theorem fromUtf8_eq_nil_iff {bytes : List UInt8} {text : List Char}
    (h : fromUtf8 bytes = some text) : text = [] ↔ bytes = [] := by
  rw [fromUtf8_eq_some_iff] at h
  rcases bytes with _ | ⟨first, rest⟩
  · rw [decodeParts, eq_comm, List.map_eq_nil_iff] at h
    simp [h]
  · rw [decodeParts_cons, eq_comm, List.map_eq_cons_iff] at h
    obtain ⟨c, tail, rfl, -⟩ := h
    simp

/-- The parts of bytes with a byte below `0x80` in them, when all of them are characters. The first
`skip` bytes belong to a character before. -/
theorem decodeParts_split {single : UInt8} (hsingle : single.toNat < 0x80) (after before : List UInt8)
    {skip : ℕ} (hskip : skip ≤ before.length)
    (hvalid : ∀ part ∈ decodeParts skip (before ++ single :: after), part ≠ none) :
    decodeParts skip (before ++ single :: after) =
      decodeParts skip before ++ some (Char.ofNat single.toNat) :: decodeParts 0 after := by
  induction before generalizing skip with
  | nil =>
    obtain rfl : skip = 0 := Nat.le_zero.mp hskip
    rw [List.nil_append, decodeParts_cons, decodeFirst_single hsingle]
    rfl
  | cons first rest ih =>
    rcases skip with _ | skip
    · rw [List.cons_append, decodeParts] at hvalid ⊢
      rcases hread : decodeFirst first (rest ++ single :: after) with ⟨_ | c, width⟩
      · rw [hread] at hvalid
        exact absurd rfl (hvalid none List.mem_cons_self)
      · have hreads := decodeFirst_reads hread
        rw [hread] at hvalid
        -- The single byte cannot be among the other bytes of the character.
        have hwidth : width - 1 ≤ rest.length := by
          by_contra hlong
          have hmem : single ∈ (rest ++ single :: after).take (width - 1) := by
            rw [List.take_append, List.mem_append]
            obtain ⟨k, hk⟩ : ∃ k, width - 1 - rest.length = k + 1 :=
              ⟨width - 1 - rest.length - 1, by omega⟩
            rw [hk, List.take_succ_cons]
            exact Or.inr List.mem_cons_self
          exact absurd (hreads.tail single hmem) (by omega)
        have hsame : decodeFirst first rest = (some c, width) := by
          have hlocal := hreads.local_ (rest.drop (width - 1))
          rw [List.take_append_of_le_length hwidth, List.take_append_drop] at hlocal
          exact hlocal
        rw [decodeParts, hsame]
        dsimp only
        rw [List.cons_append, ih hwidth fun part hpart => hvalid part (List.mem_cons_of_mem _ hpart)]
    · rw [List.cons_append, decodeParts] at hvalid ⊢
      rw [decodeParts]
      exact ih (Nat.le_of_succ_le_succ hskip) hvalid

/-- Valid bytes with a byte below `0x80` among them decode to the text before it, its character and
the text after it. -/
theorem fromUtf8_split {single : UInt8} (hsingle : single.toNat < 0x80) {before after : List UInt8}
    {text : List Char} (h : fromUtf8 (before ++ single :: after) = some text) :
    ∃ textBefore textAfter, fromUtf8 before = some textBefore ∧ fromUtf8 after = some textAfter ∧
      text = textBefore ++ Char.ofNat single.toNat :: textAfter := by
  rw [fromUtf8_eq_some_iff] at h
  have hvalid : ∀ part ∈ decodeParts 0 (before ++ single :: after), part ≠ none := by
    intro part hpart
    rw [h] at hpart
    obtain ⟨c, -, rfl⟩ := List.mem_map.mp hpart
    exact Option.some_ne_none c
  rw [decodeParts_split hsingle after before (Nat.zero_le _) hvalid] at h
  obtain ⟨textBefore, rest, htext, hbefore, hrest⟩ := List.append_eq_map_iff.mp h
  obtain ⟨c, textAfter, rfl, hc, hafter⟩ := List.map_eq_cons_iff.mp hrest
  refine ⟨textBefore, textAfter, fromUtf8_eq_some_iff.mpr hbefore.symm,
    fromUtf8_eq_some_iff.mpr hafter.symm, ?_⟩
  rw [htext, Option.some.inj hc]

/-- The character of a byte below `0x80` comes from that byte. -/
theorem mem_of_mem_decodeParts {single : UInt8} (hsingle : single.toNat < 0x80) {skip : ℕ}
    {bytes : List UInt8} (h : some (Char.ofNat single.toNat) ∈ decodeParts skip bytes) :
    single ∈ bytes := by
  have hpoint : (Char.ofNat single.toNat).toNat = single.toNat := toNat_ofNat (Or.inl (by omega))
  induction bytes generalizing skip with
  | nil => exact absurd h (by unfold decodeParts; exact List.not_mem_nil)
  | cons first rest ih =>
    rcases skip with _ | skip
    · rcases hread : decodeFirst first rest with ⟨part, width⟩
      rw [decodeParts, hread] at h
      rcases List.mem_cons.mp h with hc | hrest
      · subst hc
        have hreads := decodeFirst_reads hread
        have hlow : first.toNat < 0x80 := by
          by_contra hhigh
          have := hreads.wide (by omega)
          omega
        rw [decodeFirst_single hlow] at hread
        have heq := congrArg Char.toNat (Option.some.inj (Prod.mk.inj hread).1)
        rw [hpoint, toNat_ofNat (Or.inl (by omega))] at heq
        rw [UInt8.toNat_inj.mp heq]
        exact List.mem_cons_self
      · exact List.mem_cons_of_mem _ (ih hrest)
    · rw [decodeParts] at h
      exact List.mem_cons_of_mem _ (ih h)

/-- A text has the character of a byte below `0x80` only where the bytes have the byte. -/
theorem mem_of_mem_fromUtf8 {single : UInt8} (hsingle : single.toNat < 0x80) {bytes : List UInt8}
    {text : List Char} (h : fromUtf8 bytes = some text) (hmem : Char.ofNat single.toNat ∈ text) :
    single ∈ bytes := by
  rw [fromUtf8_eq_some_iff] at h
  refine mem_of_mem_decodeParts hsingle (h ▸ List.mem_map_of_mem hmem)

end Text
