import VmSpect.Vms.MbrLayout

/-!
# EBR chains that come back

The links of EBRs are guest data, and a chain may lead back to a sector that it visited, or to one
of another chain. `follow` is the EBR that a number of links leads to. The walk of `read_mbr` ends
after 64 EBRs at the latest but does not remember them: `readMbr_once_iff` says that each EBR adds
at most one partition exactly when no EBR that holds one is visited again (`NoRevisit`).
-/

namespace VmSpect.Detector

open Bytes Words Polling

/-- The EBR that a number of links leads to from a sector. -/
def follow (D : List UInt8) (lbaExtended : ℕ) : ℕ → ℕ → Option ℕ
  | 0, lba => if BootSigned (sectorAt D lba) then some lba else none
  | k + 1, lba =>
    if BootSigned (sectorAt D lba) then
      (nextEbr D lbaExtended lba).bind (follow D lbaExtended k)
    else none

/-- The first sector of the extended partition in a slot, if there is one. -/
def extendedStart (mbr : List UInt8) (i : ℕ) : Option ℕ :=
  let (kind, lbaStart, sectors) := mbrEntry mbr (446 + i * 16)
  if kind ∈ [0x05, 0x0F, 0x85] ∧ sectors ≠ 0 then some lbaStart else none

/-- The EBR at a sector holds a partition. -/
def HoldsPartition (D : List UInt8) (lba : ℕ) : Prop := (logicalAt D lba).isSome

/-- No EBR that holds a partition is visited again. Within one walk it is on no cycle that the 64
steps close, and the walks of two slots do not meet at it. -/
structure NoRevisit (D mbr : List UInt8) : Prop where
  noCycle : ∀ i < 4, ∀ start ∈ extendedStart mbr i, ∀ k d lba, 0 < d → k + d < 64 →
    follow D start k start = some lba → HoldsPartition D lba → follow D start d lba ≠ some lba
  noMeeting : ∀ j < 4, ∀ i < j, ∀ s ∈ extendedStart mbr i, ∀ t ∈ extendedStart mbr j,
    ∀ k < 64, ∀ l < 64, ∀ lba, follow D s k s = some lba → follow D t l t = some lba →
      ¬ HoldsPartition D lba

/-! ## Walks -/

variable {D mbr : List UInt8} {lbaExtended : ℕ}

/-- Links are followed one after the other. -/
theorem follow_add (i d lba : ℕ) :
    follow D lbaExtended (i + d) lba =
      (follow D lbaExtended i lba).bind (follow D lbaExtended d) := by
  induction i generalizing lba with
  | zero =>
    rw [Nat.zero_add]
    by_cases hsigned : BootSigned (sectorAt D lba)
    · rw [follow, if_pos hsigned, Option.bind_some]
    · rw [show follow D lbaExtended 0 lba = none from if_neg hsigned, Option.bind_none]
      cases d with
      | zero => exact if_neg hsigned
      | succ d => exact if_neg hsigned
  | succ i ih =>
    rw [Nat.succ_add, follow, follow]
    split
    · rw [Option.bind_assoc]
      exact congrArg _ (funext ih)
    · rfl

/-- The EBRs that a walk visits are those that its links lead to. -/
theorem getElem?_ebrChain (left k lba : ℕ) :
    (ebrChain D lbaExtended left lba)[k]? =
      if k < left then follow D lbaExtended k lba else none := by
  induction left generalizing k lba with
  | zero => rw [if_neg (Nat.not_lt_zero k)]; rfl
  | succ left ih =>
    rw [ebrChain]
    split
    · rename_i hsigned
      cases k with
      | zero =>
        rw [if_pos (Nat.succ_pos left), follow, if_pos hsigned]
        rfl
      | succ k =>
        rw [List.getElem?_cons_succ, follow, if_pos hsigned]
        rcases nextEbr D lbaExtended lba with _ | next
        · rw [Option.elim_none, List.getElem?_nil, Option.bind_none, ite_self]
        · rw [Option.elim_some, Option.bind_some, ih]
          simp only [Nat.succ_lt_succ_iff]
    · rename_i hunsigned
      have hnone : follow D lbaExtended k lba = none := by
        cases k with
        | zero => exact if_neg hunsigned
        | succ k => exact if_neg hunsigned
      rw [hnone, ite_self, List.getElem?_nil]

/-- The EBRs of the walk from a slot. -/
theorem mem_ebrChain {start left lba : ℕ} :
    lba ∈ ebrChain D start left start ↔ ∃ k < left, follow D start k start = some lba := by
  simp only [List.mem_iff_getElem?, getElem?_ebrChain, Option.ite_none_right_eq_some]

/-! ## What the EBRs add -/

/-- A logical partition is known by its EBR. -/
theorem logicalAt_ebr {lba : ℕ} {f : Found} (h : logicalAt D lba = some f) : f.ebr = some lba := by
  rcases hentry : mbrEntry (sectorAt D lba) 446 with ⟨kind, relStart, sectors⟩
  rw [logicalAt_of_entry hentry] at h
  split at h
  · obtain rfl := Option.some.inj h
    rfl
  · cases h

/-- The EBRs of a slot that add a partition, one for each that they add. -/
def ebrSources (D mbr : List UInt8) (i : ℕ) : List ℕ := (slotFound D mbr i).filterMap (·.ebr)

/-- They are those of the walk that hold one. -/
theorem ebrSources_eq (i : ℕ) :
    ebrSources D mbr i = (extendedStart mbr i).elim [] fun start =>
      (ebrChain D start 64 start).filter fun lba => (logicalAt D lba).isSome := by
  have hebr : ∀ lba, (logicalAt D lba).bind (·.ebr) =
      Option.guard (fun lba => (logicalAt D lba).isSome) lba := by
    intro lba
    rcases hlogical : logicalAt D lba with _ | f
    · simp [Option.guard, hlogical]
    · simp [Option.guard, hlogical, logicalAt_ebr hlogical]
  rcases hentry : mbrEntry mbr (446 + i * 16) with ⟨kind, start, sectors⟩
  rw [ebrSources, slotFound_of_entry hentry]
  simp only [extendedStart, hentry]
  by_cases hextended : kind ∈ [0x05, 0x0F, 0x85]
  · have hkind : kind ≠ 0 := by
      rintro rfl
      exact absurd hextended (by decide)
    by_cases hsectors : sectors = 0
    · rw [if_pos (Or.inr hsectors), if_neg fun hused => hused.2 hsectors]
      rfl
    · rw [if_neg (not_or_intro hkind hsectors), if_pos hextended, if_pos ⟨hextended, hsectors⟩,
        Option.elim_some, List.filterMap_filterMap, funext hebr, List.filterMap_eq_filter]
  · rw [if_neg hextended]
    have hnone : ¬ (kind ∈ [0x05, 0x0F, 0x85] ∧ sectors ≠ 0) := fun hused => hextended hused.1
    rw [if_neg hnone]
    split <;> rfl

/-- A list visits no value with a property twice. -/
theorem nodup_filter_iff {α : Type} {p : α → Bool} {l : List α} :
    (l.filter p).Nodup ↔
      ∀ (i j : ℕ) (a : α), i < j → l[i]? = some a → l[j]? = some a → ¬ p a := by
  rw [List.Nodup, List.pairwise_filter, List.pairwise_iff_getElem]
  constructor
  · intro h i j a hij hi hj hp
    obtain ⟨hilt, rfl⟩ := List.getElem?_eq_some_iff.mp hi
    obtain ⟨hjlt, heq⟩ := List.getElem?_eq_some_iff.mp hj
    exact h i j hilt hjlt hij hp (by rw [heq]; exact hp) heq.symm
  · intro h i j hi hj hij hp _ heq
    exact h i j l[i] hij (List.getElem?_eq_getElem hi) (by rw [heq]; exact List.getElem?_eq_getElem hj)
      hp

/-- One walk adds no partition twice when no EBR that holds one is on a cycle that the walk
closes. -/
theorem nodup_walk_iff {start : ℕ} :
    ((ebrChain D start 64 start).filter fun lba => (logicalAt D lba).isSome).Nodup ↔
      ∀ k d lba, 0 < d → k + d < 64 → follow D start k start = some lba → HoldsPartition D lba →
        follow D start d lba ≠ some lba := by
  rw [nodup_filter_iff]
  simp only [getElem?_ebrChain, Option.ite_none_right_eq_some]
  constructor
  · intro h k d lba hd hkd hk hholds hback
    refine h k (k + d) lba (by omega) ⟨by omega, hk⟩ ⟨hkd, ?_⟩ hholds
    rw [follow_add, hk, Option.bind_some, hback]
  · rintro h k l lba hkl ⟨-, hk⟩ ⟨hl, hback⟩ hholds
    obtain ⟨d, rfl⟩ : ∃ d, l = k + d := ⟨l - k, by omega⟩
    rw [follow_add, hk, Option.bind_some] at hback
    exact h k d lba (by omega) hl hk hholds hback

/-- The sources of a slot, by its extended partition. -/
theorem mem_ebrSources {i lba : ℕ} :
    lba ∈ ebrSources D mbr i ↔ ∃ start ∈ extendedStart mbr i,
      ∃ k < 64, follow D start k start = some lba ∧ HoldsPartition D lba := by
  rw [ebrSources_eq]
  rcases extendedStart mbr i with _ | start
  · simp
  · simp only [Option.elim_some, List.mem_filter, mem_ebrChain, HoldsPartition, Option.mem_some_iff,
      exists_eq_left']
    constructor
    · rintro ⟨⟨k, hk, hreach⟩, hholds⟩
      exact ⟨k, hk, hreach, hholds⟩
    · rintro ⟨k, hk, hreach, hholds⟩
      exact ⟨⟨k, hk, hreach⟩, hholds⟩

/-- Each EBR adds at most one partition exactly when none that holds one is visited again. -/
theorem nodup_sources_iff :
    ((mbrFound D mbr).filterMap (·.ebr)).Nodup ↔ NoRevisit D mbr := by
  have hsources : (mbrFound D mbr).filterMap (·.ebr) = (List.range 4).flatMap (ebrSources D mbr) := by
    unfold mbrFound
    rw [List.filterMap_flatMap]
    rfl
  rw [hsources, List.nodup_flatMap, List.pairwise_iff_getElem]
  constructor
  · rintro ⟨hwalks, hdisjoint⟩
    constructor
    · intro i hi start hstart
      have hnodup := hwalks i (List.mem_range.mpr hi)
      rw [ebrSources_eq, Option.mem_def.mp hstart, Option.elim_some] at hnodup
      exact nodup_walk_iff.mp hnodup
    · intro j hj i hij s hs t ht k hk l hl lba hkreach hlreach hholds
      have hapart := hdisjoint i j (by rw [List.length_range]; omega)
        (by rw [List.length_range]; exact hj) hij
      rw [List.getElem_range, List.getElem_range] at hapart
      exact hapart (mem_ebrSources.mpr ⟨s, hs, k, hk, hkreach, hholds⟩)
        (mem_ebrSources.mpr ⟨t, ht, l, hl, hlreach, hholds⟩)
  · intro h
    constructor
    · intro i hi
      rw [ebrSources_eq]
      rcases hstart : extendedStart mbr i with _ | start
      · exact List.nodup_nil
      · rw [Option.elim_some]
        exact nodup_walk_iff.mpr (h.noCycle i (List.mem_range.mp hi) start hstart)
    · intro i j hi hj hij
      rw [List.getElem_range, List.getElem_range]
      rw [List.length_range] at hj
      intro lba hlba hlba'
      obtain ⟨s, hs, k, hk, hkreach, hholds⟩ := mem_ebrSources.mp hlba
      obtain ⟨t, ht, l, hl, hlreach, -⟩ := mem_ebrSources.mp hlba'
      exact h.noMeeting j hj i hij s hs t ht k hk l hl lba hkreach hlreach hholds

section Calls

variable {m : Type → Type} [Monad m] {R : Returning m} {driver : VmDriver m}

/-- `read_mbr` returns, whatever the links are. Each EBR adds at most one partition exactly when no
EBR that holds one is visited again. -/
theorem readMbr_once_iff (h : Serves R driver D) (mbr : List UInt8) :
    R.outcome (readMbr driver mbr) (.ok (numbered (mbrFound D mbr))) ∧
      (((mbrFound D mbr).filterMap (·.ebr)).Nodup ↔ NoRevisit D mbr) :=
  ⟨h.readMbr mbr, nodup_sources_iff⟩

end Calls

/-- A well-formed chain visits no EBR again. -/
theorem sampleDisk_once : NoRevisit sampleDisk (sectorAt sampleDisk 0) := by
  refine (readMbr_once_iff (rawRuns_serves sampleDisk_length) _).2.mp ?_
  rw [sampleDisk_onDisk.mbrFound]
  decide +kernel

/-- An EBR that links to itself is visited until the walk ends. -/
theorem ebrChain_self_link {lba : ℕ} (hsigned : BootSigned (sectorAt D lba))
    (hnext : nextEbr D lbaExtended lba = some lba) (left : ℕ) :
    ebrChain D lbaExtended left lba = List.replicate left lba := by
  induction left with
  | zero => rfl
  | succ left ih => rw [ebrChain, if_pos hsigned, hnext, Option.elim_some, ih, List.replicate_succ]

/-- A disk whose second EBR links to itself. -/
def loopDisk : List UInt8 :=
  writeSectors (List.replicate 1536 0) [
    (0, recordBytes [(0x05, 1, 2), (0, 0, 0), (0, 0, 0), (0, 0, 0)]),
    (1, recordBytes [(0, 0, 0), (0x05, 1, 1), (0, 0, 0), (0, 0, 0)]),
    (2, recordBytes [(0x83, 1, 1), (0x05, 1, 1), (0, 0, 0), (0, 0, 0)])]

theorem loopDisk_length : loopDisk.length < 2^63 := by decide +kernel

/-- The partition of the EBR that links to itself is found 63 times. -/
theorem loopDisk_found : mbrFound loopDisk (sectorAt loopDisk 0) =
    List.replicate 63 ⟨some 2, 3, 1, 0x83⟩ := by
  have hsigned : BootSigned (sectorAt loopDisk 2) := by decide +kernel
  have hnext : nextEbr loopDisk 1 2 = some 2 := by decide +kernel
  have hlogical : logicalAt loopDisk 2 = some ⟨some 2, 3, 1, 0x83⟩ := by decide +kernel
  have hfirst : ebrChain loopDisk 1 64 1 = 1 :: ebrChain loopDisk 1 63 2 := by
    have hsigned : BootSigned (sectorAt loopDisk 1) := by decide +kernel
    have hnext : nextEbr loopDisk 1 1 = some 2 := by decide +kernel
    rw [ebrChain, if_pos hsigned, hnext, Option.elim_some]
  have hempty : logicalAt loopDisk 1 = none := by decide +kernel
  have hslot : mbrEntry (sectorAt loopDisk 0) (446 + 0 * 16) = (0x05, 1, 2) := by decide +kernel
  have hunused : [1, 2, 3].flatMap (slotFound loopDisk (sectorAt loopDisk 0)) = [] := by
    decide +kernel
  rw [mbrFound, List.flatMap_cons, hunused, List.append_nil, slotFound_of_entry hslot,
    if_neg (by decide), if_pos (by decide), hfirst, ebrChain_self_link hsigned hnext,
    List.filterMap_cons_none hempty, List.filterMap_replicate_of_some hlogical]

/-- The EBR is listed 63 times. -/
theorem loopDisk_repeats :
    (rawRuns loopDisk loopDisk_length).outcome
      (readMbr (diskDriver noNbd loopDisk.length) (sectorAt loopDisk 0))
      (.ok (numbered (List.replicate 63 ⟨some 2, 3, 1, 0x83⟩))) ∧
    ¬ ((mbrFound loopDisk (sectorAt loopDisk 0)).filterMap (·.ebr)).Nodup := by
  have hreads := (rawRuns_serves loopDisk_length).readMbr (sectorAt loopDisk 0)
  rw [loopDisk_found] at hreads ⊢
  exact ⟨hreads, by decide⟩

end VmSpect.Detector
