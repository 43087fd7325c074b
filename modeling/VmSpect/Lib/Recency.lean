import Mathlib.Data.List.Dedup
import Mathlib.Data.List.TakeDrop
import Mathlib.Tactic

/-!
# The order of the most recent uses

A history lists uses of keys, the oldest first. `mostRecent n` are the last `n` different keys in
it, and `touch n` is what a list of at most `n` keys becomes by one more use: the key moves to the
front, and when it is new and there is no room, the last key goes. `touch_mostRecent` is why such a
list, which forgets most of the history, always holds the most recent keys of all of it.
-/

namespace Recency

variable {α : Type} [DecidableEq α]

/-- The last `n` different keys of a history, the most recent first. -/
def mostRecent (n : ℕ) (history : List α) : List α := history.dedup.reverse.take n

/-- One more use of a key, in a list with room for `n` keys. -/
def touch (n : ℕ) (keys : List α) (k : α) : List α :=
  if k ∈ keys then k :: keys.erase k
  else k :: (if n ≤ keys.length then keys.dropLast else keys)

/-- No key is listed twice. -/
theorem nodup_mostRecent (n : ℕ) (history : List α) : (mostRecent n history).Nodup :=
  (List.nodup_reverse.mpr history.nodup_dedup).sublist (List.take_sublist n _)

/-- There is room for `n` keys. -/
theorem length_mostRecent_le (n : ℕ) (history : List α) : (mostRecent n history).length ≤ n :=
  List.length_take_le n _

/-- One more use puts its key last among the different keys. -/
theorem dedup_concat (history : List α) (k : α) :
    (history ++ [k]).dedup = history.dedup.erase k ++ [k] := by
  induction history with
  | nil => rfl
  | cons a rest ih =>
    rw [List.cons_append, List.dedup_cons, List.dedup_cons, ih]
    by_cases hrest : a ∈ rest
    · rw [if_pos (List.mem_append_left _ hrest), if_pos hrest]
    · rw [if_neg hrest]
      by_cases hk : a = k
      · subst hk
        have hfresh : a ∉ rest.dedup := fun h => hrest (List.mem_dedup.mp h)
        rw [if_pos List.mem_concat_self, List.erase_cons_head, List.erase_of_not_mem hfresh]
      · have hout : a ∉ rest ++ [k] := by
          simp only [List.mem_append, List.mem_singleton]
          exact not_or.mpr ⟨hrest, hk⟩
        rw [if_neg hout, List.erase_cons_tail (by simpa using hk), List.cons_append]

/-- Seen from the most recent key, it moves to the front. -/
theorem reverse_dedup_concat (history : List α) (k : α) :
    (history ++ [k]).dedup.reverse = k :: history.dedup.reverse.erase k := by
  have herase : (history.dedup.erase k).reverse = history.dedup.reverse.erase k := by
    rw [history.nodup_dedup.erase_eq_filter,
      (List.nodup_reverse.mpr history.nodup_dedup).erase_eq_filter, List.filter_reverse]
  rw [dedup_concat, List.reverse_append, List.reverse_singleton, List.singleton_append, herase]

/-- Without a key that is among the first `n + 1`, the first `n` are those without it. -/
theorem take_erase_of_mem {n : ℕ} {keys : List α} {k : α} (h : k ∈ keys.take (n + 1)) :
    (keys.erase k).take n = (keys.take (n + 1)).erase k := by
  have hlength : ((keys.take (n + 1)).erase k).length = min (n + 1) keys.length - 1 := by
    rw [List.length_erase_of_mem h, List.length_take]
  conv_lhs => rw [← List.take_append_drop (n + 1) keys, List.erase_append_left _ h]
  rcases Nat.lt_or_ge n keys.length with hlong | hshort
  · exact List.take_left' (by omega)
  · have hnil : keys.drop (n + 1) = [] := List.drop_of_length_le (by omega)
    rw [hnil, List.append_nil, List.take_of_length_le (by omega)]

/-- Without a key that is not among the first `n + 1`, the first `n` are as they were. -/
theorem take_erase_of_notMem {n : ℕ} {keys : List α} {k : α} (h : k ∉ keys.take (n + 1)) :
    (keys.erase k).take n = keys.take n := by
  conv_lhs => rw [← List.take_append_drop (n + 1) keys, List.erase_append_right _ h]
  rcases Nat.lt_or_ge n keys.length with hlong | hshort
  · have hlength : (keys.take (n + 1)).length = n + 1 := by
      rw [List.length_take]
      omega
    rw [List.take_append_of_le_length (by omega), List.take_take, Nat.min_eq_left (Nat.le_succ n)]
  · have hnil : keys.drop (n + 1) = [] := List.drop_of_length_le (by omega)
    rw [hnil, List.erase_nil, List.append_nil, List.take_take, Nat.min_eq_left (Nat.le_succ n)]

/-- One more use turns the most recent keys of a history into those of the longer one. -/
theorem touch_mostRecent {n : ℕ} (hn : 0 < n) (history : List α) (k : α) :
    touch n (mostRecent n history) k = mostRecent n (history ++ [k]) := by
  obtain ⟨m, rfl⟩ : ∃ m, n = m + 1 := ⟨n - 1, by omega⟩
  unfold touch mostRecent
  rw [reverse_dedup_concat, List.take_succ_cons]
  generalize history.dedup.reverse = keys
  split
  · rename_i hmem
    rw [take_erase_of_mem hmem]
  · rename_i hnew
    rw [take_erase_of_notMem hnew]
    congr 1
    split
    · -- No room: the last of the keys goes.
      rename_i hfull
      rw [List.length_take] at hfull
      rw [List.dropLast_eq_take, List.length_take, List.take_take]
      congr 1
      omega
    · rename_i hroom
      rw [List.length_take] at hroom
      rw [List.take_of_length_le (by omega), List.take_of_length_le (by omega)]

/-- The third use brings its key back to the front of three, and out of two the other one goes. -/
example : mostRecent 3 [7, 8, 9, 7] = [7, 9, 8] ∧ touch 2 (mostRecent 2 [7, 8, 9]) 7 = [7, 9] := by
  decide

end Recency
