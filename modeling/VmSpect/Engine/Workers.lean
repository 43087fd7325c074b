import Mathlib.Data.List.Nodup
import Mathlib.Data.List.Range
import Mathlib.Tactic

/-!
# The work that the pools of workers share

`process_in_parallel` and `inspect_batch` of `src/engine/mod.rs` both put their input into a queue
of items tagged with their positions and start the same number of workers.
-/

namespace VmSpect

variable {T : Type}

/-- An entry of the queue: the position of an item in the input, and the item. -/
abbrev Job (T : Type) := ℕ × T

/-- `items.into_iter().enumerate()`. -/
def enumerate (items : List T) : List (Job T) := items.zipIdx.map Prod.swap

/-- The number of workers: `max_workers.max(1).min(total).min(32)`. -/
def workerCount (maxWorkers total : ℕ) : ℕ := min (min (max maxWorkers 1) total) 32

/-- There is a worker whenever there is work. -/
theorem workerCount_pos (maxWorkers : ℕ) {total : ℕ} (h : 0 < total) :
    0 < workerCount maxWorkers total := by
  unfold workerCount
  omega

@[simp]
theorem enumerate_length (items : List T) : (enumerate items).length = items.length := by
  simp [enumerate]

/-- The positions increase along the queue. -/
theorem enumerate_pairwise (items : List T) :
    (enumerate items).Pairwise (fun a b => a.1 < b.1) := by
  have h : ((enumerate items).map Prod.fst) = List.range' 0 items.length := by
    simp [enumerate, Function.comp_def]
  have hr : (List.range' 0 items.length).Pairwise (· < ·) := List.pairwise_lt_range'
  rw [← h] at hr
  exact List.pairwise_map.mp hr

/-- No entry of the queue occurs twice. -/
theorem enumerate_nodup (items : List T) : (enumerate items).Nodup :=
  (enumerate_pairwise items).imp fun {a b} h heq => by simp [heq] at h

end VmSpect
