import Mathlib.Data.List.Nodup
import Mathlib.Data.List.Sort
import Mathlib.Data.Fintype.Card
import Mathlib.Algebra.BigOperators.Group.Finset.Basic
import Mathlib.Logic.Function.Basic
import Mathlib.Tactic

/-!
# Accounting for a shared queue of jobs

Workers take jobs from the front of one queue, hold one job each, and put a finished job with its
result into a shared list. `Accounted` says where every job of the original list is: still queued,
held by exactly one worker, or finished exactly once. A worker that stops with a job in its hands
keeps it, so a job that is neither queued nor finished is never lost sight of.

The rules are one per way that a job moves (`init`, `take`, `finish`), and `reheld` for a step that
moves none. `taken_stuck_lt_card` counts the jobs that never finish against the workers, and
`insertionSort_finished` turns the order in which the jobs finished into the order of the list.
-/

namespace WorkQueue

variable {W J R : Type*}

/-- Where the jobs of `jobs` are: the front part `taken` has left the queue, and every job of it is
held by one worker or finished, never both and never twice. -/
structure Accounted (jobs : List J) (taken queue : List J) (held : W → Option J)
    (finished : List (J × R)) : Prop where
  /-- The queue is what is left of the list once its front part is taken. -/
  split : jobs = taken ++ queue
  /-- A held job was taken. -/
  held_taken : ∀ w j, held w = some j → j ∈ taken
  /-- No two workers hold the same job. -/
  held_inj : ∀ v w j, held v = some j → held w = some j → v = w
  /-- A held job is not finished. -/
  held_not_finished : ∀ w j, held w = some j → j ∉ finished.map Prod.fst
  /-- A job finishes at most once. -/
  finished_nodup : (finished.map Prod.fst).Nodup
  /-- A finished job was taken. -/
  finished_taken : ∀ j ∈ finished.map Prod.fst, j ∈ taken
  /-- A taken job is held or finished. -/
  taken_placed : ∀ j ∈ taken, (∃ w, held w = some j) ∨ j ∈ finished.map Prod.fst

namespace Accounted

variable {jobs taken queue : List J} {held held' : W → Option J} {finished : List (J × R)}

/-- A job that was taken is one of the list. -/
theorem mem_of_taken (h : Accounted jobs taken queue held finished) {j : J} (hj : j ∈ taken) :
    j ∈ jobs := by
  rw [h.split]
  exact List.mem_append_left _ hj

/-- Only jobs of the list finish. -/
theorem mem_of_finished (h : Accounted jobs taken queue held finished) {j : J}
    (hj : j ∈ finished.map Prod.fst) : j ∈ jobs :=
  h.mem_of_taken (h.finished_taken j hj)

/-- At the start every job is queued. -/
theorem init (jobs : List J) : Accounted jobs [] jobs (fun _ : W => none) ([] : List (J × R)) where
  split := rfl
  held_taken := by simp
  held_inj := by simp
  held_not_finished := by simp
  finished_nodup := by simp
  finished_taken := by simp
  taken_placed := by simp

/-- A step that changes what no worker holds keeps the accounts. -/
theorem reheld (h : Accounted jobs taken queue held finished) (heq : ∀ w, held' w = held w) :
    Accounted jobs taken queue held' finished := by
  obtain rfl : held' = held := funext heq
  exact h

/-- The accounts of some of the workers, when the others hold nothing. -/
theorem restrict {V : Type*} (h : Accounted jobs taken queue held finished) {g : V → W}
    (hg : Function.Injective g) (hout : ∀ w, w ∉ Set.range g → held w = none) :
    Accounted jobs taken queue (fun v => held (g v)) finished where
  split := h.split
  held_taken v j := h.held_taken (g v) j
  held_inj v w j hv hw := hg (h.held_inj (g v) (g w) j hv hw)
  held_not_finished v j := h.held_not_finished (g v) j
  finished_nodup := h.finished_nodup
  finished_taken := h.finished_taken
  taken_placed j hj := by
    rcases h.taken_placed j hj with ⟨w, hw⟩ | hfin
    · have hrange : w ∈ Set.range g := by
        by_contra hnot
        rw [hout w hnot] at hw
        cases hw
      obtain ⟨v, rfl⟩ := hrange
      exact Or.inl ⟨v, hw⟩
    · exact Or.inr hfin

/-- A worker with empty hands takes the job at the front of the queue. -/
theorem take [DecidableEq W] (hnd : jobs.Nodup) {j : J}
    (h : Accounted jobs taken (j :: queue) held finished) {w : W} (hw : held w = none)
    (hw' : held' w = some j) (hother : ∀ v, v ≠ w → held' v = held v) :
    Accounted jobs (taken ++ [j]) queue held' finished := by
  -- The job comes from the queue, so nobody has taken it yet.
  have hnew : j ∉ taken := by
    intro hj
    rw [h.split] at hnd
    exact (List.nodup_append.mp hnd).2.2 j hj j (by simp) rfl
  have hnone : ∀ v, held v ≠ some j := fun v hv => hnew (h.held_taken v j hv)
  refine ⟨by simp [h.split], ?_, ?_, ?_, h.finished_nodup, ?_, ?_⟩
  · intro v i hv
    by_cases hvw : v = w
    · subst hvw
      rw [hw'] at hv
      simp [Option.some.inj hv]
    · rw [hother v hvw] at hv
      simp [h.held_taken v i hv]
  · intro u v i hu hv
    -- Only the worker that takes the job can hold it.
    by_cases huw : u = w <;> by_cases hvw : v = w
    · rw [huw, hvw]
    · rw [huw, hw'] at hu
      rw [hother v hvw, ← Option.some.inj hu] at hv
      exact absurd hv (hnone v)
    · rw [hvw, hw'] at hv
      rw [hother u huw, ← Option.some.inj hv] at hu
      exact absurd hu (hnone u)
    · rw [hother u huw] at hu
      rw [hother v hvw] at hv
      exact h.held_inj u v i hu hv
  · intro v i hv hfin
    by_cases hvw : v = w
    · subst hvw
      rw [hw'] at hv
      exact hnew (Option.some.inj hv ▸ h.finished_taken i hfin)
    · rw [hother v hvw] at hv
      exact h.held_not_finished v i hv hfin
  · intro i hi
    simp [h.finished_taken i hi]
  · intro i hi
    rcases List.mem_append.mp hi with hi | hi
    · rcases h.taken_placed i hi with ⟨v, hv⟩ | hfin
      · have hvw : v ≠ w := by
          rintro rfl
          rw [hw] at hv
          cases hv
        exact Or.inl ⟨v, by rw [hother v hvw, hv]⟩
      · exact Or.inr hfin
    · rw [List.mem_singleton] at hi
      exact Or.inl ⟨w, by rw [hw', hi]⟩

/-- A worker finishes the job that it holds. -/
theorem finish [DecidableEq W] (h : Accounted jobs taken queue held finished) {w : W} {j : J}
    (hw : held w = some j) (hw' : held' w = none) (hother : ∀ v, v ≠ w → held' v = held v)
    (r : R) : Accounted jobs taken queue held' (finished ++ [(j, r)]) := by
  -- The other workers hold what they held.
  have hkeep : ∀ v i, held' v = some i → v ≠ w ∧ held v = some i := by
    intro v i hv
    have hvw : v ≠ w := by
      rintro rfl
      rw [hw'] at hv
      cases hv
    exact ⟨hvw, by rw [← hother v hvw, hv]⟩
  refine ⟨h.split, ?_, ?_, ?_, ?_, ?_, ?_⟩
  · intro v i hv
    exact h.held_taken v i (hkeep v i hv).2
  · intro u v i hu hv
    exact h.held_inj u v i (hkeep u i hu).2 (hkeep v i hv).2
  · intro v i hv hfin
    obtain ⟨hvw, hv⟩ := hkeep v i hv
    rw [List.map_append, List.mem_append] at hfin
    rcases hfin with hfin | hfin
    · exact h.held_not_finished v i hv hfin
    · have hij : i = j := by simpa using hfin
      exact hvw (h.held_inj v w j (hij ▸ hv) hw)
  · rw [List.map_append, List.nodup_append]
    refine ⟨h.finished_nodup, by simp, ?_⟩
    intro i hi k hk hik
    have hkj : k = j := by simpa using hk
    exact h.held_not_finished w j hw (hkj ▸ hik ▸ hi)
  · intro i hi
    rw [List.map_append, List.mem_append] at hi
    rcases hi with hi | hi
    · exact h.finished_taken i hi
    · have hij : i = j := by simpa using hi
      exact hij ▸ h.held_taken w j hw
  · intro i hi
    by_cases hij : i = j
    · right
      simp [hij]
    · rcases h.taken_placed i hi with ⟨v, hv⟩ | hfin
      · have hvw : v ≠ w := by
          rintro rfl
          rw [hw] at hv
          exact hij (Option.some.inj hv).symm
        exact Or.inl ⟨v, by rw [hother v hvw, hv]⟩
      · right
        simp [hfin]

/-- Jobs that never finish stay in some worker's hands, so while one worker has empty hands fewer of
them were taken than there are workers. -/
theorem taken_stuck_lt_card [Fintype W] [DecidableEq W] [DecidableEq J] (hnd : jobs.Nodup)
    (h : Accounted jobs taken queue held finished) (stuck : J → Bool)
    (hstuck : ∀ j ∈ finished.map Prod.fst, stuck j = false) {v : W} (hv : held v = none) :
    taken.countP stuck < Fintype.card W := by
  -- Each stuck job is in the hands of a worker other than the one with empty hands.
  have hsub : (taken.filter stuck).toFinset.image some ⊆ (Finset.univ.erase v).image held := by
    intro o ho
    obtain ⟨j, hj, rfl⟩ := Finset.mem_image.mp ho
    obtain ⟨hjt, hjs⟩ := List.mem_filter.mp (List.mem_toFinset.mp hj)
    rcases h.taken_placed j hjt with ⟨w, hw⟩ | hfin
    · have hwv : w ≠ v := by
        rintro rfl
        rw [hv] at hw
        cases hw
      exact Finset.mem_image.mpr ⟨w, by simp [hwv], hw⟩
    · rw [hstuck j hfin] at hjs
      cases hjs
  have htaken : taken.Nodup := by
    rw [h.split] at hnd
    exact (List.nodup_append.mp hnd).1
  calc taken.countP stuck = (taken.filter stuck).toFinset.card := by
        rw [List.toFinset_card_of_nodup (htaken.filter _), List.countP_eq_length_filter]
    _ = ((taken.filter stuck).toFinset.image some).card :=
        (Finset.card_image_of_injective _ (Option.some_injective J)).symm
    _ ≤ ((Finset.univ.erase v).image held).card := Finset.card_le_card hsub
    _ ≤ (Finset.univ.erase v).card := Finset.card_image_le
    _ < Fintype.card W := Finset.card_erase_lt_of_mem (Finset.mem_univ v)

/-- When every worker holds a job that never finishes, at least as many of them were taken as there
are workers. -/
theorem card_le_taken_stuck [Fintype W] [DecidableEq J]
    (h : Accounted jobs taken queue held finished) (stuck : J → Bool)
    (hheld : ∀ w, ∃ j, held w = some j ∧ stuck j = true) :
    Fintype.card W ≤ taken.countP stuck := by
  choose f hf hstuck using hheld
  have hinj : Function.Injective f := fun v w heq => h.held_inj v w (f v) (hf v) (heq ▸ hf w)
  have hsub : Finset.univ.image f ⊆ (taken.filter stuck).toFinset := by
    intro j hj
    obtain ⟨w, -, rfl⟩ := Finset.mem_image.mp hj
    simp [h.held_taken w (f w) (hf w), hstuck w]
  calc Fintype.card W = (Finset.univ.image f).card := by
        rw [Finset.card_image_of_injective _ hinj, Finset.card_univ]
    _ ≤ (taken.filter stuck).toFinset.card := Finset.card_le_card hsub
    _ ≤ (taken.filter stuck).length := List.toFinset_card_le _
    _ = taken.countP stuck := (List.countP_eq_length_filter).symm

end Accounted

/-- A sum over the workers, when one of them changes: the old term goes and the new one comes. -/
theorem sum_update_add [Fintype W] [DecidableEq W] {V : Type*} (g : V → ℕ) (f : W → V) (w : W)
    (v : V) : ∑ x, g (Function.update f w v x) + g (f w) = ∑ x, g (f x) + g v := by
  have hrest : ∑ x ∈ Finset.univ.erase w, g (Function.update f w v x) =
      ∑ x ∈ Finset.univ.erase w, g (f x) := by
    refine Finset.sum_congr rfl fun x hx => ?_
    rw [Function.update_of_ne (Finset.ne_of_mem_erase hx)]
  rw [← Finset.add_sum_erase _ _ (Finset.mem_univ w),
    ← Finset.add_sum_erase Finset.univ (fun x => g (f x)) (Finset.mem_univ w), hrest,
    Function.update_self]
  ring

/-- The comparison that the finished jobs are sorted by: the key of the job. -/
abbrev KeyLe (key : J → ℕ) (a b : J × R) : Prop := key a.1 ≤ key b.1

/-- The jobs of the list that finished, in the order of the list, each with its result. -/
def inOrder [DecidableEq J] (jobs : List J) (res : J → Option R) (finished : List (J × R)) :
    List (J × R) :=
  (jobs.filter (· ∈ finished.map Prod.fst)).filterMap (fun j => (res j).map (fun r => (j, r)))

/-- Sorting the finished jobs by a key that increases along the list gives them in the order of the
list, each with its result. -/
theorem insertionSort_finished [DecidableEq J] {key : J → ℕ} {jobs : List J}
    (hkey : jobs.Pairwise (fun a b => key a < key b)) {finished : List (J × R)}
    (res : J → Option R) (hmem : ∀ j ∈ finished.map Prod.fst, j ∈ jobs)
    (hnd : (finished.map Prod.fst).Nodup) (hres : ∀ p ∈ finished, res p.1 = some p.2) :
    finished.insertionSort (KeyLe key) = inOrder jobs res finished := by
  -- The right side increases strictly in the key, so it has no repetitions.
  have hstrict : (inOrder jobs res finished).Pairwise (fun a b => key a.1 < key b.1) := by
    refine List.Pairwise.filterMap _ ?_ (hkey.filter _)
    intro a b hab x hx y hy
    obtain ⟨r, -, rfl⟩ := Option.map_eq_some_iff.mp hx
    obtain ⟨q, -, rfl⟩ := Option.map_eq_some_iff.mp hy
    exact hab
  have hnodup : (inOrder jobs res finished).Nodup :=
    hstrict.imp fun {a b} h heq => by simp [heq] at h
  -- Both sides hold the same pairs.
  have hperm : (finished.insertionSort (KeyLe key)).Perm (inOrder jobs res finished) := by
    refine (List.perm_insertionSort _ _).trans ?_
    refine (List.perm_ext_iff_of_nodup (List.Nodup.of_map _ hnd) hnodup).mpr ?_
    rintro ⟨j, r⟩
    constructor
    · intro hp
      have hj : j ∈ finished.map Prod.fst := List.mem_map.mpr ⟨(j, r), hp, rfl⟩
      have hr : res j = some r := hres (j, r) hp
      exact List.mem_filterMap.mpr ⟨j, by simp [hmem j hj, hj], by simp [hr]⟩
    · intro hp
      obtain ⟨i, hi, heq⟩ := List.mem_filterMap.mp hp
      obtain ⟨⟨i', r'⟩, hp', hi'⟩ := List.mem_map.mp (of_decide_eq_true (List.mem_filter.mp hi).2)
      obtain ⟨q, hq, hpair⟩ := Option.map_eq_some_iff.mp heq
      obtain ⟨rfl, rfl⟩ := Prod.mk.inj hpair
      obtain rfl : i' = i := hi'
      have hqr : q = r' := Option.some.inj (hq.symm.trans (hres _ hp'))
      rw [hqr]
      exact hp'
  have hsorted : (finished.insertionSort (KeyLe key)).Pairwise (KeyLe key) :=
    List.pairwise_insertionSort _ _
  refine hperm.eq_of_pairwise ?_ hsorted (hstrict.imp le_of_lt)
  intro a b ha hb hab hba
  have ha' := hperm.mem_iff.mp ha
  by_contra hne
  rcases List.Pairwise.forall_of_forall_of_flip (R := fun a b => a = b ∨ key a.1 ≠ key b.1)
    (fun x _ => Or.inl rfl) (hstrict.imp fun h => Or.inr (ne_of_lt h))
    (hstrict.imp fun h => Or.inr (ne_of_gt h)) ha' hb with h | h
  · exact hne h
  · exact h (le_antisymm hab hba)

/-- When the finished jobs are all that have a result, nothing is filtered out. -/
theorem inOrder_of_complete [DecidableEq J] {jobs : List J} {res : J → Option R}
    {finished : List (J × R)}
    (hall : ∀ j ∈ jobs, j ∈ finished.map Prod.fst ∨ res j = none) :
    inOrder jobs res finished = jobs.filterMap (fun j => (res j).map (fun r => (j, r))) := by
  unfold inOrder
  rw [List.filterMap_filter]
  refine List.filterMap_congr fun j hj => ?_
  rcases hall j hj with h | h
  · simp [h]
  · simp [h]

end WorkQueue
