import VmSpect.Vms.Vmdk

/-!
# The walk through the grain tables

A byte of a sparse extent lies in a grain; the directory gives the table of the grain and the table
gives its place in the file, and an entry of 0 or 1 in either stands for zeros (`walk`). `read_at`
returns the bytes of this walk whatever the tables hold and whatever was read before
(`Cached.readAt_spec`): the loaded tables are those of the file, so loading them on demand does not
show. It fails when a table that it needs does not lie in the file, or when the system refuses a
seek to the place of a table or a part of a grain that it needs, or a read there.
-/

namespace VmSpect.Vmdk

open Bytes Words

/-! ## Words of a file -/

/-- The entry `i` of a table of four-byte words that starts at `base`. -/
def entryAt (file : List UInt8) (base i : ℕ) : ℕ := ofLe (slice file (base + 4 * i) 4)

/-- An entry has 32 bits. -/
theorem entryAt_lt (file : List UInt8) (base i : ℕ) : entryAt file base i < 2^32 := by
  refine (ofLe_lt _).trans_le (Nat.pow_le_pow_right (by norm_num) ?_)
  rw [length_slice]
  omega

/-- The words of a buffer are those at its place in the file. -/
theorem wordsOf_slice_getElem? {file : List UInt8} {base n : ℕ} (h : base + 4 * n ≤ file.length)
    (i : ℕ) : (wordsOf (slice file base (4 * n)))[i]? =
      if i < n then some (entryAt file base i) else none := by
  have hlen : (slice file base (4 * n)).length = 4 * n := by
    rw [length_slice]
    omega
  rw [wordsOf, hlen, Nat.mul_div_cancel_left _ (by norm_num), List.getElem?_map]
  split
  · rename_i hi
    rw [List.getElem?_range hi, Option.map_some, slice_slice (by omega)]
    rfl
  · rename_i hi
    rw [List.getElem?_eq_none (by simpa using hi)]
    rfl

/-- The words of a buffer have 32 bits. -/
theorem lt_of_mem_wordsOf {raw : List UInt8} {w : ℕ} (h : w ∈ wordsOf raw) : w < 2^32 := by
  obtain ⟨i, -, rfl⟩ := List.mem_map.mp h
  exact entryAt_lt raw 0 i |>.trans_eq' (by rw [entryAt, Nat.zero_add])

/-! ## The walk -/

namespace SparseExtent

variable (ext : SparseExtent)

/-- The entry of the directory for the byte `p`. -/
def directoryEntry (p : ℕ) : ℕ := ext.directory.getD (p / ext.grainBytes / ext.gtesPerGt) 0

/-- The entry for the byte `p` of the table that the directory gives. -/
def tableEntry (p : ℕ) : ℕ :=
  entryAt ext.file (ext.directoryEntry p * sector) (p / ext.grainBytes % ext.gtesPerGt)

/-- The byte `p`, by the directory and the tables in the file. -/
def walk (p : ℕ) : UInt8 :=
  if ext.directoryEntry p ≤ 1 ∨ ext.tableEntry p ≤ 1 then 0
  else zeroExtended ext.file (ext.tableEntry p * sector + p % ext.grainBytes)

/-- The table for the byte `p` can be read in full, or is not needed. -/
def TableReadable (device : Device) (p : ℕ) : Prop :=
  ext.directoryEntry p ≤ 1 ∨
    ¬device.Refuses (ext.directoryEntry p * sector) (4 * ext.gtesPerGt) ∧
      ext.directoryEntry p * sector + 4 * ext.gtesPerGt ≤ ext.file.length

/-- The `n` bytes from `p` on lie in a grain, at a place that cannot be read. -/
def PartRefused (device : Device) (p n : ℕ) : Prop :=
  1 < ext.directoryEntry p ∧ 1 < ext.tableEntry p ∧
    device.Refuses (ext.tableEntry p * sector + p % ext.grainBytes) n

/-- The length of the part of a grain that is read from `offset + done` on. -/
def partLength (offset total done : ℕ) : ℕ :=
  min (ext.grainBytes - (offset + done) % ext.grainBytes) (total - done)

/-- The reasons for which a read of the bytes from `offset + done` up to `offset + total` fails. -/
def Fails (device : Device) (offset total done : ℕ) : Prop :=
  (∃ k, done ≤ k ∧ k < total ∧ ¬ext.TableReadable device (offset + k)) ∨
    ∃ k, done ≤ k ∧ k < total ∧ (k = done ∨ (offset + k) % ext.grainBytes = 0) ∧
      ext.PartRefused device (offset + k) (ext.partLength offset total k)

/-- The loaded tables are those of the file, and addresses do not wrap. -/
structure Cached (device : Device) : Prop where
  entry_lt : ∀ gde ∈ ext.directory, gde * sector < 2^63
  place_lt : ∀ p < ext.capacityBytes, 1 < ext.directoryEntry p → 1 < ext.tableEntry p →
    ext.tableEntry p * sector + p % ext.grainBytes < 2^64
  loaded : ∀ (i : ℕ) (table : List ℕ), ext.tables i = some table →
    ∃ gde : ℕ, ext.directory[i]? = some gde ∧
      (1 < gde → ¬device.Refuses (gde * sector) (4 * ext.gtesPerGt) ∧
        gde * sector + 4 * ext.gtesPerGt ≤ ext.file.length) ∧
      table = wordsOf (slice ext.file (gde * sector) (4 * ext.gtesPerGt))

variable {device : Device}

variable {ext}

/-- Positions of one grain. -/
theorem same_grain (pos : ℕ) {k : ℕ} (h : k < ext.grainBytes - pos % ext.grainBytes) :
    (pos + k) / ext.grainBytes = pos / ext.grainBytes ∧
      (pos + k) % ext.grainBytes = pos % ext.grainBytes + k := by
  have hdiv := Nat.div_add_mod pos ext.grainBytes
  have hsum : pos + k = ext.grainBytes * (pos / ext.grainBytes) + (pos % ext.grainBytes + k) := by
    omega
  have hsmall : pos % ext.grainBytes + k < ext.grainBytes := by omega
  constructor
  · calc (pos + k) / ext.grainBytes
        = (ext.grainBytes * (pos / ext.grainBytes) + (pos % ext.grainBytes + k)) /
          ext.grainBytes := by rw [← hsum]
      _ = pos / ext.grainBytes := by
          rw [Nat.mul_add_div ext.grainBytes_pos, Nat.div_eq_of_lt hsmall, Nat.add_zero]
  · calc (pos + k) % ext.grainBytes
        = (ext.grainBytes * (pos / ext.grainBytes) + (pos % ext.grainBytes + k)) %
          ext.grainBytes := by rw [← hsum]
      _ = pos % ext.grainBytes + k := by rw [Nat.mul_add_mod, Nat.mod_eq_of_lt hsmall]

/-- They have the same entries. -/
theorem same_entries (pos : ℕ) {k : ℕ} (h : k < ext.grainBytes - pos % ext.grainBytes) :
    ext.directoryEntry (pos + k) = ext.directoryEntry pos ∧
      ext.tableEntry (pos + k) = ext.tableEntry pos := by
  have hdir : ext.directoryEntry (pos + k) = ext.directoryEntry pos := by
    rw [directoryEntry, directoryEntry, (same_grain pos h).1]
  refine ⟨hdir, ?_⟩
  rw [tableEntry, tableEntry, hdir, (same_grain pos h).1]

/-! ## One table and one grain -/

/-- The table that the code takes for a byte. -/
def tableFor (ext : SparseExtent) (p : ℕ) : Option (List ℕ) :=
  if ext.directoryEntry p ≤ 1 then none
  else some (wordsOf (slice ext.file (ext.directoryEntry p * sector) (4 * ext.gtesPerGt)))

/-- With one more table loaded from the file, the loaded ones are still those of the file. -/
theorem Cached.load (h : ext.Cached device) {i gde : ℕ} (hentry : ext.directory[i]? = some gde)
    (hread : ¬device.Refuses (gde * sector) (4 * ext.gtesPerGt))
    (hinside : gde * sector + 4 * ext.gtesPerGt ≤ ext.file.length) :
    ({ ext with
        tables := Function.update ext.tables i
          (some (wordsOf (slice ext.file (gde * sector) (4 * ext.gtesPerGt)))) } :
      SparseExtent).Cached device := by
  refine ⟨h.entry_lt, h.place_lt, fun j table hj => ?_⟩
  by_cases hji : j = i
  · subst hji
    simp only [Function.update_self, Option.some.injEq] at hj
    exact ⟨gde, hentry, fun _ => ⟨hread, hinside⟩, hj.symm⟩
  · simp only [Function.update_of_ne hji] at hj
    exact h.loaded j table hj

/-- The table for a byte is loaded from the file, or was loaded from there before. -/
theorem Cached.table_spec (h : ext.Cached device) (p : ℕ) :
    ∃ tables, ({ ext with tables } : SparseExtent).Cached device ∧
      (ext.TableReadable device p → ext.table (p / ext.grainBytes / ext.gtesPerGt) device =
        ({ ext with tables }, .ok (ext.tableFor p))) ∧
      (¬ext.TableReadable device p → ∃ e,
        ext.table (p / ext.grainBytes / ext.gtesPerGt) device = ({ ext with tables }, .error e)) := by
  unfold table tableFor TableReadable directoryEntry
  rw [List.getD_eq_getElem?_getD]
  generalize p / ext.grainBytes / ext.gtesPerGt = i
  cases hentry : ext.directory[i]? with
  | none =>
    have hfree : (none : Option ℕ).getD 0 ≤ 1 := by decide
    refine ⟨ext.tables, h, fun _ => ?_, fun hno => absurd (Or.inl hfree) hno⟩
    rw [if_pos hfree]
  | some gde =>
    dsimp only [Option.getD_some]
    by_cases hgde : gde ≤ 1
    · rw [if_pos hgde, if_pos hgde]
      exact ⟨ext.tables, h, fun _ => rfl, fun hno => absurd (Or.inl hgde) hno⟩
    · rw [if_neg hgde, if_neg hgde, or_iff_right hgde]
      cases htable : ext.tables i with
      -- A table that was loaded before is the one in the file.
      | some loaded =>
        obtain ⟨gde', hentry', hinside, rfl⟩ := h.loaded i loaded htable
        obtain rfl : gde' = gde := Option.some.inj (hentry'.symm.trans hentry)
        exact ⟨ext.tables, h, fun _ => rfl, fun hno => absurd (hinside (by omega)) hno⟩
      | none =>
        have hlt := h.entry_lt gde (List.mem_of_getElem? hentry)
        have hmul : mulw gde sector = gde * sector := mulw_of_lt (by omega)
        have hpos := ext.gtesPerGt_pos
        dsimp only
        rw [hmul, Nat.mul_comm ext.gtesPerGt 4]
        by_cases hrefused : device.Refuses (gde * sector) (4 * ext.gtesPerGt)
        · refine ⟨ext.tables, h, fun hyes => absurd hrefused hyes.1, fun _ => ?_⟩
          rcases hrefused.fails ext.file with ⟨e, he⟩ | ⟨hseek, ⟨e, he⟩, -⟩
          · rw [he]
            exact ⟨e, rfl⟩
          · rw [hseek]
            dsimp only
            rw [he]
            exact ⟨e, rfl⟩
        · obtain ⟨hseek, hexact, -⟩ := Device.answers_of_not_refuses hrefused ext.file
          rw [hseek]
          dsimp only
          rw [hexact, readExact_sound]
          by_cases hinside : gde * sector + 4 * ext.gtesPerGt ≤ ext.file.length
          · rw [if_pos (Or.inr hinside)]
            exact ⟨_, h.load hentry hrefused hinside, fun _ => rfl,
              fun hno => absurd ⟨hrefused, hinside⟩ hno⟩
          · rw [if_neg (by omega)]
            exact ⟨ext.tables, h, fun hyes => absurd hyes.2 hinside, fun _ => ⟨_, rfl⟩⟩

/-- The entry that the code takes from the table of a byte. -/
theorem grainSector_eq {p : ℕ} (h : ext.TableReadable device p) :
    grainSector (ext.tableFor p) (p / ext.grainBytes % ext.gtesPerGt) =
      if ext.directoryEntry p ≤ 1 then 0 else ext.tableEntry p := by
  unfold tableFor
  by_cases hgde : ext.directoryEntry p ≤ 1
  · rw [if_pos hgde, if_pos hgde]
    rfl
  · have hentry := wordsOf_slice_getElem? (h.resolve_left hgde).2
      (p / ext.grainBytes % ext.gtesPerGt)
    rw [if_pos (Nat.mod_lt _ ext.gtesPerGt_pos)] at hentry
    rw [if_neg hgde, if_neg hgde, grainSector, Option.bind_some, hentry]
    rfl

/-- A part of one grain: its bytes by the walk, unless the system refuses to read them. -/
theorem Cached.grainPart_spec (h : ext.Cached device) (pos n : ℕ) (hpos : pos < ext.capacityBytes)
    (hn : n ≤ ext.grainBytes - pos % ext.grainBytes) :
    (ext.PartRefused device pos n → ∃ e, ext.grainPart
        (if ext.directoryEntry pos ≤ 1 then 0 else ext.tableEntry pos) (pos % ext.grainBytes) n
        device = .error e) ∧
    (¬ext.PartRefused device pos n → ext.grainPart
        (if ext.directoryEntry pos ≤ 1 then 0 else ext.tableEntry pos) (pos % ext.grainBytes) n
        device = .ok (window ext.walk pos n)) := by
  -- The walk takes the same way for all bytes of the part.
  have hwalk : ∀ k < n, ext.walk (pos + k) =
      if ext.directoryEntry pos ≤ 1 ∨ ext.tableEntry pos ≤ 1 then 0
      else zeroExtended ext.file (ext.tableEntry pos * sector + pos % ext.grainBytes + k) := by
    intro k hk
    have hk' : k < ext.grainBytes - pos % ext.grainBytes := by omega
    rw [walk, (same_entries pos hk').1, (same_entries pos hk').2, (same_grain pos hk').2, Nat.add_assoc]
  by_cases hfree : ext.directoryEntry pos ≤ 1 ∨ ext.tableEntry pos ≤ 1
  · have hsector : ¬1 < (if ext.directoryEntry pos ≤ 1 then 0 else ext.tableEntry pos) := by
      split <;> omega
    have hzeros : window ext.walk pos n = List.replicate n 0 :=
      window_eq_replicate fun k hk => by rw [hwalk k hk, if_pos hfree]
    rw [grainPart, if_neg hsector, hzeros]
    refine ⟨fun hrefused => ?_, fun _ => rfl⟩
    obtain ⟨hgde, hgte, -⟩ := hrefused
    omega
  · have hgde : ¬ext.directoryEntry pos ≤ 1 := fun hle => hfree (Or.inl hle)
    have hgte : 1 < ext.tableEntry pos := by omega
    have hplace := h.place_lt pos hpos (by omega) hgte
    have haddr : addw (mulw (ext.tableEntry pos) sector) (pos % ext.grainBytes) =
        ext.tableEntry pos * sector + pos % ext.grainBytes := by
      rw [mulw_of_lt (by omega), addw_of_lt hplace]
    rw [if_neg hgde, grainPart, if_pos hgte, haddr]
    constructor
    · rintro ⟨-, -, hrefused⟩
      rcases hrefused.fails ext.file with ⟨e, he⟩ | ⟨hseek, -, e, he⟩
      · rw [he]
        exact ⟨e, rfl⟩
      · rw [hseek, he]
        exact ⟨e, rfl⟩
    · intro hreadable
      obtain ⟨hseek, -, hread⟩ := Device.answers_of_not_refuses
        (fun hrefused => hreadable ⟨by omega, hgte, hrefused⟩) ext.file
      rw [hseek, hread]
      refine congrArg Except.ok (window_congr fun k hk => ?_)
      rw [hwalk k hk, if_neg hfree]

/-! ## The loop -/

/-- What fails after one part of a grain failed before it too; and if the part itself is read, the
rest decides. -/
theorem fails_iff {offset total done n : ℕ} (hlt : done < total)
    (hn : n = ext.partLength offset total done) :
    ext.Fails device offset total done ↔ ¬ext.TableReadable device (offset + done) ∨
      ext.PartRefused device (offset + done) n ∨ ext.Fails device offset total (done + n) := by
  have hwithin := Nat.mod_lt (offset + done) ext.grainBytes_pos
  have hmin : n = min (ext.grainBytes - (offset + done) % ext.grainBytes) (total - done) := hn
  -- The bytes of the part share their table.
  have hpart : ∀ k, done ≤ k → k < done + n →
      (ext.TableReadable device (offset + k) ↔ ext.TableReadable device (offset + done)) := by
    intro k hle hk
    have hin : k - done < ext.grainBytes - (offset + done) % ext.grainBytes := by omega
    have hsame := same_entries (offset + done) hin
    rw [show offset + done + (k - done) = offset + k by omega] at hsame
    rw [TableReadable, TableReadable, hsame.1]
  -- No other byte of the part starts a grain.
  have hinner : ∀ k, done < k → k < done + n → (offset + k) % ext.grainBytes ≠ 0 := by
    intro k hgt hk
    have hin : k - done < ext.grainBytes - (offset + done) % ext.grainBytes := by omega
    have hmod := (same_grain (offset + done) hin).2
    rw [show offset + done + (k - done) = offset + k by omega] at hmod
    omega
  -- What comes after the part, if anything does, starts at a grain.
  have hnext : done + n < total → (offset + (done + n)) % ext.grainBytes = 0 := by
    intro hrest
    have hfull : n = ext.grainBytes - (offset + done) % ext.grainBytes := by omega
    have hdiv := Nat.div_add_mod (offset + done) ext.grainBytes
    have hsum : offset + (done + n) =
        ext.grainBytes * ((offset + done) / ext.grainBytes) + ext.grainBytes := by omega
    rw [hsum, ← Nat.mul_succ, Nat.mul_mod_right]
  constructor
  · rintro (⟨k, hle, hk, hbad⟩ | ⟨k, hle, hk, hstart, hbad⟩)
    · rcases lt_or_ge k (done + n) with hin | hout
      · exact Or.inl ((hpart k hle hin).not.mp hbad)
      · exact Or.inr (Or.inr (Or.inl ⟨k, hout, hk, hbad⟩))
    · rcases hle.eq_or_lt with rfl | hgt
      · exact Or.inr (Or.inl (hn ▸ hbad))
      · have hgrain := hstart.resolve_left hgt.ne'
        have hout : done + n ≤ k := not_lt.mp fun hin => hinner k hgt hin hgrain
        exact Or.inr (Or.inr (Or.inr ⟨k, hout, hk, Or.inr hgrain, hbad⟩))
  · rintro (hbad | hrefused | ⟨k, hle, hk, hbad⟩ | ⟨k, hle, hk, hstart, hbad⟩)
    · exact Or.inl ⟨done, le_rfl, hlt, hbad⟩
    · exact Or.inr ⟨done, le_rfl, hlt, Or.inl rfl, hn ▸ hrefused⟩
    · exact Or.inl ⟨k, by omega, hk, hbad⟩
    · refine Or.inr ⟨k, by omega, hk, Or.inr ?_, hbad⟩
      rcases hstart with rfl | hgrain
      · exact hnext hk
      · exact hgrain

/-- Every byte below the capacity has an index that 32 bits hold. -/
def IndexFits (ext : SparseExtent) : Prop :=
  ∀ p < ext.capacityBytes, p / ext.grainBytes / ext.gtesPerGt < 2^32

/-- The loop of `read_at`, once `done` bytes are in the buffer. -/
theorem Cached.readGrains_spec (h : ext.Cached device) (hcap : ext.capacityBytes < 2^64)
    (hindex : ext.IndexFits) (offset total done : ℕ) (buf : List UInt8)
    (htotal : offset + total ≤ ext.capacityBytes) (hle : done ≤ total) :
    ∃ tables, ({ ext with tables } : SparseExtent).Cached device ∧
      (ext.Fails device offset total done → ∃ e, readGrains offset total ext done
          (window ext.walk offset done ++ buf.drop done) device = ({ ext with tables }, .error e)) ∧
      (¬ext.Fails device offset total done → readGrains offset total ext done
          (window ext.walk offset done ++ buf.drop done) device =
        ({ ext with tables }, .ok (total, window ext.walk offset total ++ buf.drop total))) := by
  induction hleft : total - done using Nat.strong_induction_on generalizing ext done with
  | _ left ih =>
    subst hleft
    rw [readGrains]
    split
    · rename_i hlt
      have hpos : addw offset done = offset + done := addw_of_lt (by omega)
      have hfits := hindex (offset + done) (by omega)
      have hwithin := Nat.mod_lt (offset + done) ext.grainBytes_pos
      dsimp only
      rw [hpos, Nat.mod_eq_of_lt hfits]
      generalize hn : min (ext.grainBytes - (offset + done) % ext.grainBytes) (total - done) = n
      have hlength : n = ext.partLength offset total done := hn.symm
      rw [fails_iff hlt hlength]
      obtain ⟨tables, hcached, hloads, hunreadable⟩ := h.table_spec (offset + done)
      by_cases hread : ext.TableReadable device (offset + done)
      · rw [hloads hread]
        dsimp only
        have hsame (s w m : ℕ) : ({ ext with tables } : SparseExtent).grainPart s w m device =
            ext.grainPart s w m device := rfl
        rw [grainSector_eq hread, hsame]
        have hpart := h.grainPart_spec (offset + done) n (by omega) (by omega)
        by_cases hrefused : ext.PartRefused device (offset + done) n
        · obtain ⟨e, he⟩ := hpart.1 hrefused
          rw [he]
          exact ⟨tables, hcached, fun _ => ⟨e, rfl⟩, fun hno => absurd (Or.inr (Or.inl hrefused)) hno⟩
        · -- One part of a grain is copied, and the rest of the loop follows.
          have hwrite := writeAt_append (window ext.walk offset done) (buf.drop done)
            (window ext.walk (offset + done) n)
          rw [length_window, length_window, ← window_add, List.drop_drop] at hwrite
          rw [hpart.2 hrefused]
          dsimp only
          rw [hwrite, or_iff_right (not_not.mpr hread), or_iff_right hrefused]
          exact ih (total - (done + n)) (by omega) hcached hcap hindex (done + n) htotal (by omega) rfl
      · obtain ⟨e, he⟩ := hunreadable hread
        rw [he]
        exact ⟨tables, hcached, fun _ => ⟨e, rfl⟩, fun hno => absurd (Or.inl hread) hno⟩
    · obtain rfl : done = total := by omega
      refine ⟨ext.tables, h, fun hfails => ?_, fun _ => rfl⟩
      rcases hfails with ⟨k, hle, hk, -⟩ | ⟨k, hle, hk, -⟩ <;> omega

/-! ## Reads -/

/-- `read_at`: the bytes of the walk, as far as the capacity goes. -/
theorem Cached.readAt_spec (h : ext.Cached device) (hcap : ext.capacityBytes < 2^64)
    (hindex : ext.IndexFits) (offset : ℕ) (buf : List UInt8) {n : ℕ}
    (hn : n = min buf.length (ext.capacityBytes - offset)) :
    ∃ tables, ({ ext with tables } : SparseExtent).Cached device ∧
      (ext.Fails device offset n 0 → ∃ e,
        ext.readAt offset buf device = ({ ext with tables }, .error e)) ∧
      (¬ext.Fails device offset n 0 → ext.readAt offset buf device =
        ({ ext with tables }, .ok (n, window ext.walk offset n ++ buf.drop n))) := by
  unfold readAt
  rw [← hn]
  split
  · rename_i hle
    obtain rfl : n = 0 := by omega
    refine ⟨ext.tables, h, fun hfails => ?_, fun _ => rfl⟩
    rcases hfails with ⟨k, -, hk, -⟩ | ⟨k, -, hk, -⟩ <;> omega
  · have hloop := h.readGrains_spec hcap hindex offset n 0 buf (by omega) (Nat.zero_le _)
    rwa [window_zero, List.nil_append, List.drop_zero] at hloop

/-- The extent after a sequence of reads, each an offset and a buffer. -/
def afterReads (ext : SparseExtent) (reads : List (ℕ × List UInt8)) (device : Device := .sound) :
    SparseExtent :=
  match reads with
  | [] => ext
  | (offset, buf) :: rest => (ext.readAt offset buf device).1.afterReads rest device

/-- Reads only load tables. -/
theorem Cached.afterReads (h : ext.Cached device) (hcap : ext.capacityBytes < 2^64)
    (hindex : ext.IndexFits) (reads : List (ℕ × List UInt8)) :
    ∃ tables, ext.afterReads reads device = { ext with tables } ∧
      ({ ext with tables } : SparseExtent).Cached device := by
  induction reads generalizing ext with
  | nil => exact ⟨ext.tables, rfl, h⟩
  | cons read rest ih =>
    obtain ⟨tables, hcached, hfail, hpass⟩ := h.readAt_spec hcap hindex read.1 read.2 rfl
    have hext : (ext.readAt read.1 read.2 device).1 = { ext with tables } := by
      by_cases hfails : ext.Fails device read.1 (min read.2.length (ext.capacityBytes - read.1)) 0
      · obtain ⟨e, he⟩ := hfail hfails
        rw [he]
      · rw [hpass hfails]
    obtain ⟨tables', hrest, hcached'⟩ := ih hcached hcap hindex
    exact ⟨tables', by rw [SparseExtent.afterReads, hext, hrest], hcached'⟩

end SparseExtent

/-! ## Opening -/

/-- The bytes of a grain. -/
def SparseHeader.grainBytes (h : SparseHeader) : ℕ := h.grainSectors * sector

/-- The number of grain tables that cover the capacity. -/
def SparseHeader.tableCount (h : SparseHeader) : ℕ :=
  (h.capacitySectors * sector + h.grainBytes * h.gtesPerGt - 1) / (h.grainBytes * h.gtesPerGt)

/-- What a supported header has. -/
theorem SparseHeader.pos_of_supported {h : SparseHeader} (hsup : h.unsupportedReason = none) :
    0 < h.grainSectors ∧ 0 < h.gtesPerGt ∧ 0 < h.capacitySectors := by
  unfold unsupportedReason at hsup
  split_ifs at hsup with hcompressed hdirectory hgrain hrest
  rw [not_or] at hgrain hrest
  omega

/-- The bytes that one grain table covers. -/
def SparseHeader.tableBytes (h : SparseHeader) : ℕ :=
  mulw (mulw h.grainSectors sector) h.gtesPerGt

/-- The number of tables in the directory. -/
def SparseHeader.directoryTables (h : SparseHeader) : ℕ :=
  (mulw h.capacitySectors sector + h.tableBytes - 1) / h.tableBytes

/-- `from_header`, step by step. -/
theorem SparseExtent.fromHeader_result (file : List UInt8) (cab : SparseHeader) (device : Device) :
    (SparseExtent.fromHeader file cab device).result =
      match cab.unsupportedReason with
      | some reason => .ok (.needsNbd reason)
      | none =>
        if h : cab.tableBytes = 0 then .error .panic
        else if 2^20 < cab.directoryTables then
          .ok (.needsNbd "VMDK with a disproportionate grain directory")
        else
          match seekFile (mulw cab.directoryOffset sector) device with
          | .error e => .error (.error e)
          | .ok () =>
            match readExact file (mulw cab.directoryOffset sector) (cab.directoryTables * 4)
              device with
            | .error e => .error (.error e)
            | .ok raw => .ok (.native {
                file
                grainBytes := mulw cab.grainSectors sector
                gtesPerGt := cab.gtesPerGt
                capacityBytes := mulw cab.capacitySectors sector
                directory := wordsOf raw
                tables := fun _ => none
                grainBytes_pos := (factors_pos rfl h).1
                gtesPerGt_pos := (factors_pos rfl h).2 }) := by
  unfold SparseExtent.fromHeader
  cases cab.unsupportedReason with
  | some reason => rfl
  | none =>
    dsimp only
    rw [Logged.bind_of_ok (Logged.result_mul _ _)]
    dsimp only
    rw [Logged.bind_of_ok (Logged.result_mul _ _)]
    dsimp only
    rw [Logged.bind_of_ok (Logged.result_mul _ _)]
    dsimp only
    -- The size of a table can wrap to zero, and the division then panics.
    by_cases hzero : cab.tableBytes = 0
    · rw [dif_pos hzero]
      have hdiv : mulw (mulw cab.grainSectors sector) cab.gtesPerGt = 0 := hzero
      have hstop : (Logged.divCeil (Stop.panic : Stop IoError) (mulw cab.capacitySectors sector)
          (mulw (mulw cab.grainSectors sector) cab.gtesPerGt)).result = .error .panic := by
        rw [Logged.divCeil, dif_pos hdiv]
      rw [Logged.bind_of_error hstop]
    · have hne : mulw (mulw cab.grainSectors sector) cab.gtesPerGt ≠ 0 := hzero
      rw [dif_neg hzero, Logged.bind_of_ok (Logged.result_divCeil _ _ hne)]
      dsimp only
      have htables : 2^20 < (mulw cab.capacitySectors sector +
          mulw (mulw cab.grainSectors sector) cab.gtesPerGt - 1) /
            mulw (mulw cab.grainSectors sector) cab.gtesPerGt ↔ 2^20 < cab.directoryTables := Iff.rfl
      by_cases hmany : 2^20 < cab.directoryTables
      · rw [if_pos hmany, if_pos (htables.mpr hmany)]
        rfl
      · rw [if_neg hmany, if_neg (htables.not.mpr hmany), Logged.bind_of_ok (Logged.result_mul _ _)]
        dsimp only
        cases seekFile (mulw cab.directoryOffset sector) device with
        | error e => rfl
        | ok _ =>
          rw [Logged.bind_of_ok (a := ()) rfl]
          show ((Logged.ofExcept ((readExact file (mulw cab.directoryOffset sector)
            (cab.directoryTables * 4) device).mapError Stop.error)) >>= _).result = _
          cases readExact file (mulw cab.directoryOffset sector) (cab.directoryTables * 4) device with
          | error e => rfl
          | ok raw => rfl

/-- `from_header` when the directory is not too long and lies in the file. -/
theorem SparseExtent.fromHeader_native {file : List UInt8} {cab : SparseHeader}
    (hsup : cab.unsupportedReason = none)
    {grainBytes bytesPerGt capacityBytes numGts start : ℕ}
    (hg : grainBytes = mulw cab.grainSectors sector)
    (hb : bytesPerGt = mulw grainBytes cab.gtesPerGt)
    (hc : capacityBytes = mulw cab.capacitySectors sector)
    (hs : start = mulw cab.directoryOffset sector) (hpos : bytesPerGt ≠ 0)
    (hn : numGts = (capacityBytes + bytesPerGt - 1) / bytesPerGt) (hle : numGts ≤ 2^20)
    (hseek : start < 2^63) (hread : numGts * 4 = 0 ∨ start + numGts * 4 ≤ file.length) :
    (SparseExtent.fromHeader file cab).result = .ok (.native {
        file, grainBytes, capacityBytes
        gtesPerGt := cab.gtesPerGt
        directory := wordsOf (slice file start (numGts * 4))
        tables := fun _ => none
        grainBytes_pos := (factors_pos hb hpos).1
        gtesPerGt_pos := (factors_pos hb hpos).2 }) := by
  subst hg hb hc hs hn
  have hzero : cab.tableBytes ≠ 0 := hpos
  have hmany : ¬2^20 < cab.directoryTables := not_lt.mpr hle
  have hfound : seekFile (mulw cab.directoryOffset sector) = .ok () := if_pos hseek
  have hraw : readExact file (mulw cab.directoryOffset sector) (cab.directoryTables * 4) =
      .ok (slice file (mulw cab.directoryOffset sector) (cab.directoryTables * 4)) := if_pos hread
  rw [fromHeader_result, hsup]
  dsimp only
  rw [dif_neg hzero, if_neg hmany, hfound]
  dsimp only
  rw [hraw]
  rfl

/-- `from_header` does not depend on the device when the directory is not refused. -/
theorem SparseExtent.fromHeader_of_not_refuses {file : List UInt8} {cab : SparseHeader}
    (device : Device) (h : ¬device.Refuses (mulw cab.directoryOffset sector)
      (cab.directoryTables * 4)) :
    (SparseExtent.fromHeader file cab device).result = (SparseExtent.fromHeader file cab).result := by
  have hnear : mulw cab.directoryOffset sector < 2^63 := not_le.mp fun hfar => h (Or.inl hfar)
  obtain ⟨hseek, hexact, -⟩ := Device.answers_of_not_refuses h file
  have hsound : seekFile (mulw cab.directoryOffset sector) = .ok () := if_pos hnear
  rw [fromHeader_result, fromHeader_result, hseek, hexact, hsound]

/-- What is known about an extent that was opened. -/
structure SparseExtent.Opened (file : List UInt8) (cab : SparseHeader) (ext : SparseExtent) :
    Prop where
  supported : cab.unsupportedReason = none
  file_eq : ext.file = file
  grainBytes_eq : ext.grainBytes = mulw cab.grainSectors sector
  gtesPerGt_eq : ext.gtesPerGt = cab.gtesPerGt
  capacity_eq : ext.capacityBytes = mulw cab.capacitySectors sector
  tables_le : cab.directoryTables ≤ 2^20
  inside : cab.directoryTables * 4 = 0 ∨
    mulw cab.directoryOffset sector + cab.directoryTables * 4 ≤ file.length
  directory_eq : ext.directory =
    wordsOf (slice file (mulw cab.directoryOffset sector) (cab.directoryTables * 4))
  tables_eq : ext.tables = fun _ => none

/-- Every extent comes from `from_header` this way. -/
theorem SparseExtent.opened {file : List UInt8} {cab : SparseHeader} {ext : SparseExtent}
    {device : Device} (h : (SparseExtent.fromHeader file cab device).result = .ok (.native ext)) :
    SparseExtent.Opened file cab ext := by
  rw [fromHeader_result] at h
  cases hsup : cab.unsupportedReason with
  | some reason =>
    rw [hsup] at h
    cases h
  | none =>
    rw [hsup] at h
    dsimp only at h
    split_ifs at h with hzero hmany
    · cases h
    cases hseek : seekFile (mulw cab.directoryOffset sector) device with
    | error e =>
      rw [hseek] at h
      cases h
    | ok _ =>
      rw [hseek] at h
      dsimp only at h
      cases hread : readExact file (mulw cab.directoryOffset sector) (cab.directoryTables * 4)
        device with
      | error e =>
        rw [hread] at h
        cases h
      | ok raw =>
        rw [hread] at h
        cases h
        obtain ⟨hinside, rfl⟩ := eq_slice_of_readExact hread
        exact ⟨hsup, rfl, rfl, rfl, rfl, not_lt.mp hmany, hinside, rfl, rfl⟩

/-! ## The walk of a header -/

namespace SparseHeader

variable (h : SparseHeader) (file : List UInt8) (dir : ℕ)

/-- The entry for the byte `p` in the directory at the sector `dir` of the file. -/
def directoryEntryAt (p : ℕ) : ℕ :=
  entryAt file (mulw dir sector) (p / h.grainBytes / h.gtesPerGt)

/-- The entry for the byte `p` in the table that this directory gives. -/
def tableEntryAt (p : ℕ) : ℕ :=
  entryAt file (h.directoryEntryAt file dir p * sector) (p / h.grainBytes % h.gtesPerGt)

/-- The byte `p` of the disk, by this directory and its tables. -/
def walkFrom (p : ℕ) : UInt8 :=
  if h.directoryEntryAt file dir p ≤ 1 ∨ h.tableEntryAt file dir p ≤ 1 then 0
  else zeroExtended file (h.tableEntryAt file dir p * sector + p % h.grainBytes)

/-- The table for the byte `p` is needed and cannot be read in full: it does not lie in the file, or
the system refuses to read it. -/
def TableMissing (device : Device) (p : ℕ) : Prop :=
  1 < h.directoryEntryAt file dir p ∧
    (file.length < h.directoryEntryAt file dir p * sector + 4 * h.gtesPerGt ∨
      device.Refuses (h.directoryEntryAt file dir p * sector) (4 * h.gtesPerGt))

/-- The `n` bytes from `p` on lie in a grain, and the system refuses to read them at their place. -/
def PartRefused (device : Device) (p n : ℕ) : Prop :=
  1 < h.directoryEntryAt file dir p ∧ 1 < h.tableEntryAt file dir p ∧
    device.Refuses (h.tableEntryAt file dir p * sector + p % h.grainBytes) n

/-- The sizes that the header gives fit 64 bits. -/
structure SizesFit : Prop where
  table_lt : h.grainSectors * sector * h.gtesPerGt < 2^64
  capacity_lt : h.capacitySectors * sector < 2^64

variable {h}

/-- The size of a grain is a power of two. -/
theorem grainSectors_eq_pow (hsup : h.unsupportedReason = none) : ∃ k, h.grainSectors = 2^k := by
  have htwo : isPowerOfTwo h.grainSectors = true := by
    unfold unsupportedReason at hsup
    split_ifs at hsup with hcompressed hdirectory hsize hrest
    rw [not_or] at hsize
    exact Bool.not_eq_false _ ▸ hsize.2
  simp only [isPowerOfTwo, Bool.and_eq_true, decide_eq_true_eq] at htwo
  exact (Nat.and_sub_one_eq_zero_iff_isPowerOfTwo htwo.1).mp htwo.2

/-- A product with the size of a sector that does not wrap to zero does not wrap at all. -/
theorem grainBytes_spec (hsup : h.unsupportedReason = none)
    (hpos : 0 < mulw h.grainSectors sector) :
    mulw h.grainSectors sector = h.grainBytes ∧ h.grainBytes ≤ 2^63 := by
  obtain ⟨k, hk⟩ := grainSectors_eq_pow hsup
  have hbytes : h.grainBytes = 2^(k + 9) := by
    rw [grainBytes, hk, pow_add]
    rfl
  have hmulw : mulw h.grainSectors sector = h.grainBytes % 2^64 := rfl
  have hexp : k + 9 < 64 := by
    by_contra hge
    obtain ⟨j, hj⟩ := Nat.exists_eq_add_of_le (not_lt.mp hge)
    rw [hmulw, hbytes, hj, pow_add, Nat.mul_mod_right] at hpos
    exact absurd hpos (lt_irrefl 0)
  have hle : h.grainBytes ≤ 2^63 := by
    rw [hbytes]
    exact Nat.pow_le_pow_right (by norm_num) (by omega)
  exact ⟨by rw [hmulw, Nat.mod_eq_of_lt (by omega)], hle⟩

/-- The number of tables covers the capacity. -/
theorem index_lt (hsup : h.unsupportedReason = none) (hfit : h.SizesFit) {p : ℕ}
    (hp : p < h.capacitySectors * sector) :
    p / h.grainBytes / h.gtesPerGt < h.directoryTables := by
  obtain ⟨hgrain, hgtes, -⟩ := pos_of_supported hsup
  have htable := hfit.table_lt
  have hlt : h.grainSectors * sector < 2^64 := (Nat.le_mul_of_pos_right _ hgtes).trans_lt htable
  have hbytes : h.tableBytes = h.grainBytes * h.gtesPerGt := by
    rw [tableBytes, mulw_of_lt hlt, mulw_of_lt htable, grainBytes]
  have hpos : 0 < h.grainBytes * h.gtesPerGt :=
    Nat.mul_pos (Nat.mul_pos hgrain (by norm_num [sector])) hgtes
  rw [directoryTables, mulw_of_lt hfit.capacity_lt, hbytes, Nat.div_div_eq_div_mul,
    Nat.div_lt_iff_lt_mul hpos]
  have hceil := Nat.lt_div_mul_add hpos (a := h.capacitySectors * sector +
    h.grainBytes * h.gtesPerGt - 1)
  omega

end SparseHeader

namespace SparseExtent

variable {file : List UInt8} {cab : SparseHeader} {ext : SparseExtent}

/-- The grain size of an opened extent is that of the header, and at most half of what 64 bits
address. -/
theorem Opened.grainBytes_spec (h : Opened file cab ext) :
    ext.grainBytes = cab.grainBytes ∧ ext.grainBytes ≤ 2^63 := by
  have hpos := ext.grainBytes_pos
  rw [h.grainBytes_eq] at hpos ⊢
  obtain ⟨heq, hle⟩ := SparseHeader.grainBytes_spec h.supported hpos
  rw [heq]
  exact ⟨rfl, hle⟩

/-- So is its capacity, when it fits 64 bits. -/
theorem Opened.sizes (h : Opened file cab ext) (hfit : cab.SizesFit) :
    ext.grainBytes = cab.grainBytes ∧ ext.capacityBytes = cab.capacitySectors * sector :=
  ⟨h.grainBytes_spec.1, by rw [h.capacity_eq, mulw_of_lt hfit.capacity_lt]⟩

/-- The capacity has 64 bits. -/
theorem Opened.capacity_lt (h : Opened file cab ext) : ext.capacityBytes < 2^64 := by
  rw [h.capacity_eq]
  exact Nat.mod_lt _ (by norm_num)

/-- Every byte below the capacity has an entry in the directory, which is that of the file. -/
theorem Opened.directory_spec (h : Opened file cab ext) (hfit : cab.SizesFit) {p : ℕ}
    (hp : p < cab.capacitySectors * sector) :
    p / cab.grainBytes / cab.gtesPerGt < ext.directory.length ∧
      ext.directoryEntry p = cab.directoryEntryAt file cab.directoryOffset p := by
  have hindex := SparseHeader.index_lt h.supported hfit hp
  have hinside : mulw cab.directoryOffset sector + 4 * cab.directoryTables ≤ file.length := by
    have hpos : 0 < cab.directoryTables := (Nat.zero_le _).trans_lt hindex
    have hread := h.inside
    omega
  have hdir := h.directory_eq
  rw [Nat.mul_comm cab.directoryTables 4] at hdir
  have hentry := wordsOf_slice_getElem? hinside (p / cab.grainBytes / cab.gtesPerGt)
  rw [if_pos hindex, ← hdir] at hentry
  refine ⟨(List.getElem?_eq_some_iff.mp hentry).1, ?_⟩
  rw [directoryEntry, (h.sizes hfit).1, h.gtesPerGt_eq, List.getD_eq_getElem?_getD, hentry]
  rfl

/-- So its table entry and its byte are those of the walk in the file. -/
theorem Opened.walk_spec (h : Opened file cab ext) (hfit : cab.SizesFit) {p : ℕ}
    (hp : p < cab.capacitySectors * sector) :
    ext.tableEntry p = cab.tableEntryAt file cab.directoryOffset p ∧
      ext.walk p = cab.walkFrom file cab.directoryOffset p := by
  have hgde := (h.directory_spec hfit hp).2
  have hgte : ext.tableEntry p = cab.tableEntryAt file cab.directoryOffset p := by
    rw [tableEntry, hgde, h.file_eq, (h.sizes hfit).1, h.gtesPerGt_eq]
    rfl
  refine ⟨hgte, ?_⟩
  rw [walk, hgde, hgte, h.file_eq, (h.sizes hfit).1]
  rfl

/-- An extent that was just opened has no tables loaded, and its addresses do not wrap. -/
theorem Opened.cached (h : Opened file cab ext) (device : Device) : ext.Cached device := by
  refine ⟨fun gde hmem => ?_, fun p _ _ _ => ?_, fun i table htable => ?_⟩
  · rw [h.directory_eq] at hmem
    have hlt := lt_of_mem_wordsOf hmem
    unfold sector
    omega
  · have hgte : ext.tableEntry p < 2^32 := entryAt_lt _ _ _
    have hgrain := h.grainBytes_spec.2
    have hwithin := Nat.mod_lt p ext.grainBytes_pos
    unfold sector
    omega
  · rw [h.tables_eq] at htable
    cases htable

/-- The index of a table fits the 32 bits that it is cut to. When the bytes of a table do not fit 64
bits, all positions belong to the first one. -/
theorem Opened.indexFits (h : Opened file cab ext) : ext.IndexFits := by
  intro p hp
  have hcap := h.capacity_lt
  have hgrain := h.grainBytes_spec.1
  have hpos : 0 < cab.grainBytes * cab.gtesPerGt := by
    rw [← hgrain, ← h.gtesPerGt_eq]
    exact Nat.mul_pos ext.grainBytes_pos ext.gtesPerGt_pos
  rw [hgrain, h.gtesPerGt_eq, Nat.div_div_eq_div_mul]
  rcases lt_or_ge (cab.grainBytes * cab.gtesPerGt) (2^64) with hlt | hge
  · have hbytes : cab.tableBytes = cab.grainBytes * cab.gtesPerGt := by
      rw [SparseHeader.tableBytes, ← h.grainBytes_eq, hgrain, mulw_of_lt hlt]
    have htables := h.tables_le
    have hceil := Nat.lt_div_mul_add hpos (a := ext.capacityBytes +
      cab.grainBytes * cab.gtesPerGt - 1)
    have hcount : cab.directoryTables = (ext.capacityBytes + cab.grainBytes * cab.gtesPerGt - 1) /
        (cab.grainBytes * cab.gtesPerGt) := by
      rw [SparseHeader.directoryTables, hbytes, ← h.capacity_eq]
    have hindex : p / (cab.grainBytes * cab.gtesPerGt) < cab.directoryTables := by
      rw [hcount, Nat.div_lt_iff_lt_mul hpos]
      omega
    omega
  · rw [Nat.div_eq_of_lt (by omega)]
    norm_num

/-- The reasons to fail, in terms of the file. -/
theorem Opened.fails_iff (h : Opened file cab ext) (hfit : cab.SizesFit) (device : Device)
    (offset n : ℕ) (hn : offset + n ≤ cab.capacitySectors * sector ∨ n = 0) :
    ext.Fails device offset n 0 ↔
      (∃ k < n, cab.TableMissing file cab.directoryOffset device (offset + k)) ∨
      ∃ k < n, (k = 0 ∨ (offset + k) % cab.grainBytes = 0) ∧
        cab.PartRefused file cab.directoryOffset device (offset + k)
          (min (cab.grainBytes - (offset + k) % cab.grainBytes) (n - k)) := by
  have hmissing : ∀ k < n, ¬ext.TableReadable device (offset + k) ↔
      cab.TableMissing file cab.directoryOffset device (offset + k) := by
    intro k hk
    rw [TableReadable, SparseHeader.TableMissing, (h.directory_spec hfit (by omega)).2,
      h.file_eq, h.gtesPerGt_eq, not_or, not_and_or, not_not, not_le, not_le]
    exact and_congr_right fun _ => or_comm
  have hrefused : ∀ k < n, ext.PartRefused device (offset + k) (ext.partLength offset n k) ↔
      cab.PartRefused file cab.directoryOffset device (offset + k)
        (min (cab.grainBytes - (offset + k) % cab.grainBytes) (n - k)) := by
    intro k hk
    rw [PartRefused, SparseHeader.PartRefused, partLength, (h.directory_spec hfit (by omega)).2,
      (h.walk_spec hfit (by omega)).1, (h.sizes hfit).1]
  have hgrain := (h.sizes hfit).1
  constructor
  · rintro (⟨k, -, hk, hbad⟩ | ⟨k, -, hk, hstart, hbad⟩)
    · exact Or.inl ⟨k, hk, (hmissing k hk).mp hbad⟩
    · exact Or.inr ⟨k, hk, hgrain ▸ hstart, (hrefused k hk).mp hbad⟩
  · rintro (⟨k, hk, hbad⟩ | ⟨k, hk, hstart, hbad⟩)
    · exact Or.inl ⟨k, Nat.zero_le k, hk, (hmissing k hk).mpr hbad⟩
    · exact Or.inr ⟨k, Nat.zero_le k, hk, hgrain.symm ▸ hstart, (hrefused k hk).mpr hbad⟩

/-- `read_at` on an extent that `from_header` opened, after any reads, is the walk through the
tables in the file, as far as the system lets them be read. -/
theorem readAt_eq_walk (hfit : cab.SizesFit) (device : Device)
    (hopen : (SparseExtent.fromHeader file cab device).result = .ok (.native ext))
    (earlier : List (ℕ × List UInt8)) (offset : ℕ) (buf : List UInt8) :
    let capacity := cab.capacitySectors * sector
    let dir := cab.directoryOffset
    let n := min buf.length (capacity - offset)
    let answer := ((ext.afterReads earlier device).readAt offset buf device).2
    (∀ p < capacity, p / cab.grainBytes / cab.gtesPerGt < ext.directory.length ∧
      p / cab.grainBytes / cab.gtesPerGt < 2^32) ∧
    ((∃ e, answer = .error e) ↔
      (∃ k < n, cab.TableMissing file dir device (offset + k)) ∨
      ∃ k < n, (k = 0 ∨ (offset + k) % cab.grainBytes = 0) ∧
        cab.PartRefused file dir device (offset + k)
          (min (cab.grainBytes - (offset + k) % cab.grainBytes) (n - k))) ∧
    ((∃ e, answer = .error e) ∨
      answer = .ok (n, window (cab.walkFrom file dir) offset n ++ buf.drop n)) := by
  intro capacity dir n answer
  have hopened := SparseExtent.opened hopen
  have hcap := hopened.capacity_lt
  obtain ⟨tables, hafter, hcached⟩ := (hopened.cached device).afterReads hcap hopened.indexFits earlier
  obtain ⟨tables', -, hfail, hpass⟩ := hcached.readAt_spec hcap hopened.indexFits offset buf
    (n := n) (by rw [(hopened.sizes hfit).2])
  have hfails := hopened.fails_iff hfit device offset n (by omega)
  have hanswer : answer = (({ ext with tables } : SparseExtent).readAt offset buf device).2 := by
    rw [← hafter]
  have hwindow : window ext.walk offset n = window (cab.walkFrom file dir) offset n :=
    window_congr fun k hk => (hopened.walk_spec hfit (by omega)).2
  refine ⟨fun p hp => ⟨(hopened.directory_spec hfit hp).1, ?_⟩, ?_⟩
  · have hindex := SparseHeader.index_lt hopened.supported hfit hp
    have hle := hopened.tables_le
    omega
  · by_cases h : ext.Fails device offset n 0
    · obtain ⟨e, he⟩ := hfail h
      have herror : answer = .error e := by rw [hanswer, he]
      exact ⟨iff_of_true ⟨e, herror⟩ (hfails.mp h), Or.inl ⟨e, herror⟩⟩
    · have hok : answer = .ok (n, window (cab.walkFrom file dir) offset n ++ buf.drop n) := by
        rw [hanswer, hpass h, ← hwindow]
        rfl
      refine ⟨iff_of_false (fun ⟨e, he⟩ => ?_) (hfails.not.mp h), Or.inr hok⟩
      rw [hok] at he
      cases he

/-! ## A grain that no file holds -/

/-- A header with one grain of `2^63` bytes. -/
def farHeader : SparseHeader where
  version := 1
  flags := 0
  capacitySectors := 2^54
  grainSectors := 2^54
  descriptorOffset := 0
  descriptorSectors := 0
  gtesPerGt := 1
  rgdOffset := 0
  gdOffset := 1
  compression := 0

/-- A file whose directory gives the table at sector 2, which gives the grain at sector 2. -/
def farImage : List UInt8 :=
  List.replicate 512 0 ++ ([2, 0, 0, 0] ++ (List.replicate 508 0 ++ [2, 0, 0, 0]))

/-- Its table ends with the file. -/
theorem farImage_length : farImage.length = 1028 := by
  simp only [farImage, List.length_append, List.length_replicate, List.length_cons,
    List.length_nil]

/-- The sizes of the header do not wrap. -/
theorem farHeader_sizesFit : farHeader.SizesFit := ⟨by decide, by decide⟩

/-- The extent can be opened. -/
theorem farImage_opens :
    ∃ ext, (SparseExtent.fromHeader farImage farHeader).result = .ok (.native ext) := by
  have hgrain : 2^63 = mulw farHeader.grainSectors sector := by decide
  have htable : 2^63 = mulw (2^63) farHeader.gtesPerGt := by decide
  have hcap : 2^63 = mulw farHeader.capacitySectors sector := by decide
  have hstart : 512 = mulw farHeader.directoryOffset sector := by decide
  have hcount : 1 = (2^63 + 2^63 - 1) / 2^63 := by decide
  refine ⟨_, fromHeader_native (by decide) hgrain htable hcap hstart (by decide) hcount (by decide)
    (by decide) (Or.inr ?_)⟩
  rw [farImage_length]
  decide

/-- The entries for every byte of the disk are those of the first table and the first grain. -/
theorem farImage_entries {p : ℕ} (hp : p < 2^63) :
    farHeader.directoryEntryAt farImage farHeader.directoryOffset p = 2 ∧
      farHeader.tableEntryAt farImage farHeader.directoryOffset p = 2 := by
  have hgrain : p / farHeader.grainBytes = 0 := Nat.div_eq_of_lt hp
  have hgde : farHeader.directoryEntryAt farImage farHeader.directoryOffset p = 2 := by
    rw [SparseHeader.directoryEntryAt, hgrain]
    decide +kernel
  refine ⟨hgde, ?_⟩
  rw [SparseHeader.tableEntryAt, hgde, hgrain]
  decide +kernel

/-- One byte of the disk lies in the grain, at a place that the device may refuse. -/
theorem farImage_partRefused {p : ℕ} (hp : p < 2^63) (device : Device) :
    farHeader.PartRefused farImage farHeader.directoryOffset device p
        (min (farHeader.grainBytes - p % farHeader.grainBytes) 1) ↔ device.Refuses (1024 + p) 1 := by
  have hgrain : farHeader.grainBytes = 2^63 := by decide
  have hone : min (2^63 - p) 1 = 1 := by omega
  rw [SparseHeader.PartRefused, (farImage_entries hp).1, (farImage_entries hp).2, hgrain,
    Nat.mod_eq_of_lt hp, hone]
  exact ⟨fun h => h.2.2, fun h => ⟨by decide, by decide, h⟩⟩

/-- The table lies in the file. -/
theorem farImage_tableMissing {p : ℕ} (hp : p < 2^63) (device : Device) :
    farHeader.TableMissing farImage farHeader.directoryOffset device p ↔ device.Refuses 1024 4 := by
  rw [SparseHeader.TableMissing, (farImage_entries hp).1, farImage_length]
  exact ⟨fun h => h.2.resolve_left (by decide), fun h => ⟨by decide, Or.inr h⟩⟩

/-- A read of one byte stays within the capacity. -/
theorem farHeader_readLength {p : ℕ} (hp : p < 2^63) (b : UInt8) :
    min [b].length (farHeader.capacitySectors * sector - p) = 1 := by
  have hcap : farHeader.capacitySectors * sector = 2^63 := by decide
  rw [hcap, List.length_singleton]
  omega

/-- A device that refuses the positions from 16 TiB on, as a file system does that has no longer
files. -/
def shortDevice : Device where
  access := none
  seek pos := if 2^44 ≤ pos then some ⟨.invalidInput, "Invalid argument (os error 22)"⟩ else none
  read _ _ := none

/-- On this device, a byte of the sample image is read as the walk has it, and one whose place is not
below 16 TiB is not read. -/
theorem readAt_eq_walk_far : ∃ ext, (SparseExtent.fromHeader farImage farHeader shortDevice).result =
      .ok (.native ext) ∧
    ((ext.afterReads [(0, [1, 2])] shortDevice).readAt 5 [3] shortDevice).2 =
      .ok (1, window (farHeader.walkFrom farImage farHeader.directoryOffset) 5 1 ++ [3].drop 1) ∧
    ∃ e, ((ext.afterReads [(0, [1, 2])] shortDevice).readAt (2^50) [3] shortDevice).2 = .error e := by
  obtain ⟨ext, hopen⟩ := farImage_opens
  rw [← fromHeader_of_not_refuses shortDevice (by decide)] at hopen
  refine ⟨ext, hopen, ?_, ?_⟩
  · have hwalk := readAt_eq_walk farHeader_sizesFit shortDevice hopen [(0, [1, 2])] 5 [3]
    dsimp only at hwalk
    rw [farHeader_readLength (by decide)] at hwalk
    refine hwalk.2.2.resolve_left fun herror => ?_
    rcases hwalk.2.1.mp herror with ⟨k, hk, hbad⟩ | ⟨k, hk, -, hbad⟩
    · exact absurd ((farImage_tableMissing (by omega) _).mp hbad) (by decide)
    · obtain rfl : k = 0 := by omega
      exact absurd ((farImage_partRefused (by decide) _).mp hbad) (by decide)
  · have hwalk := readAt_eq_walk farHeader_sizesFit shortDevice hopen [(0, [1, 2])] (2^50) [3]
    dsimp only at hwalk
    rw [farHeader_readLength (by decide)] at hwalk
    exact hwalk.2.1.mpr
      (Or.inr ⟨0, one_pos, Or.inl rfl, (farImage_partRefused (by decide) _).mpr (by decide)⟩)

/-- The last bytes of the grain lie at `2^63` and beyond: reading them fails although every table
can be read. -/
theorem farImage_fails : ∃ ext, (SparseExtent.fromHeader farImage farHeader).result =
      .ok (.native ext) ∧ farHeader.SizesFit ∧
    (∀ k < 1, ¬farHeader.TableMissing farImage farHeader.directoryOffset .sound (2^63 - 512 + k)) ∧
    ∃ e, (ext.readAt (2^63 - 512) [0]).2 = .error e := by
  obtain ⟨ext, hopen⟩ := farImage_opens
  have hopened := SparseExtent.opened hopen
  refine ⟨ext, hopen, farHeader_sizesFit, fun k hk hbad => ?_, ?_⟩
  · exact absurd ((farImage_tableMissing (by omega) _).mp hbad) (by decide)
  · have hsizes := (hopened.sizes farHeader_sizesFit).2
    obtain ⟨tables, -, hfail, -⟩ := (hopened.cached .sound).readAt_spec hopened.capacity_lt
      hopened.indexFits (2^63 - 512) [0] (n := 1)
      (by rw [hsizes, farHeader_readLength (by decide)])
    have hfails := hopened.fails_iff farHeader_sizesFit .sound (2^63 - 512) 1 (Or.inl (by decide))
    obtain ⟨e, he⟩ := hfail (hfails.mpr
      (Or.inr ⟨0, one_pos, Or.inl rfl, (farImage_partRefused (by decide) _).mpr (by decide)⟩))
    exact ⟨e, by rw [he]⟩

end SparseExtent

end VmSpect.Vmdk
