import Mathlib.Data.List.Destutter
import Mathlib.Tactic

/-!
# Sorting and removing neighbours

A list is made free of duplicates by sorting it and dropping every value whose key is that of the
last one kept. Mathlib calls the second step `List.destutter`. It leaves each key once when the
values of one key stand together (`nodup_destutter_iff`). A stable sort by a coarser key brings the
values of one sort key together and keeps their order, so what stands together after it can be read
off the unsorted list (`together_sortBy_iff`).
-/

namespace Grouping

variable {α β γ : Type*}

/-- Between two values of one key there is none of another. -/
def Together (key : α → β) (xs : List α) : Prop :=
  ∀ a b c, [a, b, c].Sublist xs → key a = key c → key b = key a

variable (key : α → β)

/-- A value may be dropped after one of its key. -/
theorem together_cons_cons_of_eq {a b : α} {xs : List α} (h : key a = key b) :
    Together key (a :: b :: xs) ↔ Together key (a :: xs) := by
  constructor
  · intro htogether x y z hsub
    exact htogether x y z (hsub.trans ((List.sublist_cons_self b xs).cons_cons a))
  · intro htogether x y z hsub hxz
    -- By whether the three start with the first or the second of the two.
    rcases List.cons_sublist_cons'.mp hsub with hafter | ⟨rfl, htail⟩
    · rcases List.cons_sublist_cons'.mp hafter with hrest | ⟨rfl, htail⟩
      · exact htogether x y z (hrest.trans (List.sublist_cons_self a xs)) hxz
      · rw [← h]
        exact htogether a y z (htail.cons_cons a) (h.trans hxz)
    · rcases List.cons_sublist_cons'.mp htail with hrest | ⟨rfl, -⟩
      · exact htogether x y z (hrest.cons_cons x) hxz
      · exact h.symm

/-- A value that is followed by one of another key must have its key for itself. -/
theorem together_cons_cons_of_ne {a b : α} {xs : List α} (h : key a ≠ key b) :
    Together key (a :: b :: xs) ↔ key a ∉ (b :: xs).map key ∧ Together key (b :: xs) := by
  constructor
  · intro htogether
    refine ⟨fun hmem => ?_, fun x y z hsub => htogether x y z (hsub.cons a)⟩
    obtain ⟨c, hc, hkey⟩ := List.mem_map.mp hmem
    rcases List.mem_cons.mp hc with rfl | hc
    · exact h hkey.symm
    · have hsub : [a, b, c].Sublist (a :: b :: xs) :=
        ((List.singleton_sublist.mpr hc).cons_cons b).cons_cons a
      exact h (htogether a b c hsub hkey.symm).symm
  · rintro ⟨hfresh, htogether⟩ x y z hsub hxz
    rcases List.cons_sublist_cons'.mp hsub with hafter | ⟨rfl, htail⟩
    · exact htogether x y z hafter hxz
    · have hz : z ∈ b :: xs := htail.subset (by simp)
      exact absurd (List.mem_map.mpr ⟨z, hz, hxz.symm⟩) hfresh

/-! ## Removing neighbours -/

section Destutter

variable [DecidableEq β]

/-- Whether a value has another key than the last one kept. -/
abbrev Differs (a b : α) : Prop := key a ≠ key b

/-- The loop that keeps a value unless the last one kept has its key. -/
theorem foldl_eq_destutter' (kept : List α) (last : α) (xs : List α) :
    xs.foldl (fun kept x => match kept with
      | last :: _ => if key x = key last then kept else x :: kept
      | [] => [x]) (last :: kept) =
      (kept.reverse ++ xs.destutter' (Differs key) last).reverse := by
  induction xs generalizing kept last with
  | nil => simp
  | cons x rest ih =>
    rw [List.foldl_cons]
    dsimp only
    by_cases h : key x = key last
    · rw [if_pos h, ih, List.destutter'_cons_neg _ (not_not.mpr h.symm)]
    · have hdiffers : Differs key last x := Ne.symm h
      rw [if_neg h, ih, List.destutter'_cons_pos _ hdiffers]
      simp

/-- No key is lost. -/
theorem mem_map_destutter' (k : β) (a : α) (xs : List α) :
    k ∈ (xs.destutter' (Differs key) a).map key ↔ k ∈ (a :: xs).map key := by
  induction xs generalizing a with
  | nil => rfl
  | cons b rest ih =>
    by_cases h : key a = key b
    · rw [List.destutter'_cons_neg _ (not_not.mpr h), ih]
      simp only [List.map_cons, List.mem_cons, ← h]
      tauto
    · rw [List.destutter'_cons_pos _ h, List.map_cons, List.mem_cons, ih]
      simp only [List.map_cons, List.mem_cons]

/-- Removing neighbours leaves each key once, if the keys stand together. -/
theorem nodup_destutter'_iff (a : α) (xs : List α) :
    ((xs.destutter' (Differs key) a).map key).Nodup ↔ Together key (a :: xs) := by
  induction xs generalizing a with
  | nil =>
    refine iff_of_true (by simp) fun x y z hsub => ?_
    have hlen := hsub.length_le
    simp at hlen
  | cons b rest ih =>
    by_cases h : key a = key b
    · rw [List.destutter'_cons_neg _ (not_not.mpr h), ih, together_cons_cons_of_eq key h]
    · rw [List.destutter'_cons_pos _ h, List.map_cons, List.nodup_cons, ih, mem_map_destutter',
        together_cons_cons_of_ne key h]

/-- Removing neighbours leaves each key once, if the keys stand together. -/
theorem nodup_destutter_iff (xs : List α) :
    ((xs.destutter (Differs key)).map key).Nodup ↔ Together key xs := by
  cases xs with
  | nil => exact iff_of_true (by simp) fun x y z hsub => by simp at hsub
  | cons a rest => exact nodup_destutter'_iff key a rest

/-- No key is lost. -/
theorem mem_map_destutter (k : β) (xs : List α) :
    k ∈ (xs.destutter (Differs key)).map key ↔ k ∈ xs.map key := by
  cases xs with
  | nil => rfl
  | cons a rest => exact mem_map_destutter' key k a rest

/-- The loop that keeps a value unless the last one kept has its key. -/
theorem foldl_eq_destutter (xs : List α) :
    (xs.foldl (fun kept x => match kept with
      | last :: _ => if key x = key last then kept else x :: kept
      | [] => [x]) []).reverse = xs.destutter (Differs key) := by
  cases xs with
  | nil => rfl
  | cons a rest =>
    rw [List.foldl_cons]
    dsimp only
    rw [foldl_eq_destutter', List.reverse_reverse]
    rfl

end Destutter

/-! ## Stable sorting -/

section Sorting

variable [LinearOrder γ] (order : α → γ)

/-- The sort by a key. -/
abbrev sortBy (xs : List α) : List α := xs.mergeSort fun a b => decide (order a ≤ order b)

/-- A sorted list is in order. -/
theorem pairwise_sortBy (xs : List α) :
    (sortBy order xs).Pairwise fun a b => order a ≤ order b := by
  have h : (sortBy order xs).Pairwise fun a b => decide (order a ≤ order b) :=
    List.pairwise_mergeSort
      (fun a b c hab hbc => by simp only [decide_eq_true_eq] at *; exact hab.trans hbc)
      (fun a b => by simpa using le_total (order a) (order b)) xs
  exact h.imp fun hab => by simpa using hab

/-- The values of one sort key keep their order. -/
theorem filter_sortBy (k : γ) (xs : List α) :
    (sortBy order xs).filter (fun a => order a = k) = xs.filter fun a => order a = k := by
  -- They are a sorted part of the list, and so a part of the sorted list; and they are as many.
  have hsorted : (xs.filter fun a => order a = k).Pairwise
      fun a b => decide (order a ≤ order b) := by
    refine List.pairwise_of_forall_mem_list fun a ha b hb => ?_
    have hka : order a = k := by simpa using (List.mem_filter.mp ha).2
    have hkb : order b = k := by simpa using (List.mem_filter.mp hb).2
    rw [hka, hkb]
    simp
  have hsub : (xs.filter fun a => order a = k).Sublist (sortBy order xs) :=
    List.sublist_mergeSort
      (fun a b c hab hbc => by simp only [decide_eq_true_eq] at *; exact hab.trans hbc)
      (fun a b => by simpa using le_total (order a) (order b)) hsorted List.filter_sublist
  have hfilter := hsub.filter fun a => order a = k
  rw [List.filter_filter] at hfilter
  simp only [Bool.and_self] at hfilter
  have hlen : (xs.filter fun a => order a = k).length =
      ((sortBy order xs).filter fun a => order a = k).length :=
    ((List.mergeSort_perm xs _).filter _).length_eq.symm
  exact (hfilter.eq_of_length hlen).symm

/-- So values of one sort key stand in the same order before and after. -/
theorem sublist_sortBy_iff {k : γ} {ys : List α} (h : ∀ a ∈ ys, order a = k) (xs : List α) :
    ys.Sublist (sortBy order xs) ↔ ys.Sublist xs := by
  have hall : ys.filter (fun a => order a = k) = ys :=
    List.filter_eq_self.mpr fun a ha => by simpa using h a ha
  constructor
  · intro hsub
    have hfilter := hsub.filter fun a => order a = k
    rw [hall, filter_sortBy] at hfilter
    exact hfilter.trans List.filter_sublist
  · intro hsub
    have hfilter := hsub.filter fun a => order a = k
    rw [hall, ← filter_sortBy] at hfilter
    exact hfilter.trans List.filter_sublist

/-- What stands together in the sorted list: the keys that do so among the values of one sort
key. -/
theorem together_sortBy_iff (hkey : ∀ a b, key a = key b → order a = order b) (xs : List α) :
    Together key (sortBy order xs) ↔ ∀ a b c, [a, b, c].Sublist xs → order a = order b →
      order b = order c → key a = key c → key b = key a := by
  constructor
  · intro htogether a b c hsub hab hbc hac
    have hsame : ∀ x ∈ [a, b, c], order x = order a := by
      simp [← hab, ← hab.trans hbc]
    exact htogether a b c ((sublist_sortBy_iff order hsame xs).mpr hsub) hac
  · intro h a b c hsub hac
    -- The value in the middle has the same sort key as the two at the ends.
    have hpair := (pairwise_sortBy order xs).sublist hsub
    simp only [List.pairwise_cons, List.mem_cons, List.not_mem_nil, or_false, forall_eq_or_imp,
      forall_eq] at hpair
    obtain ⟨⟨hab, -⟩, hbc, -⟩ := hpair
    have hends := hkey a c hac
    have hmiddle : order b = order a := le_antisymm (hends ▸ hbc) hab
    have hsame : ∀ x ∈ [a, b, c], order x = order a := by
      simp [hmiddle, ← hends]
    exact h a b c ((sublist_sortBy_iff order hsame xs).mp hsub) hmiddle.symm
      (hmiddle.trans hends) hac

end Sorting

end Grouping
