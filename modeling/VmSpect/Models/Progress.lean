import Mathlib.Data.Nat.Basic
import Mathlib.Tactic

/-!
# Inspection progress

The counters of `InspectionProgress` in `src/models/options.rs`. Every field is an atomic of its
own, so the operations are given as the single loads and stores that they perform; the concurrent
models take one of them at a step.
-/

namespace VmSpect

/-- `InspectionProgress`, without the link to the external token, which belongs to the engine. -/
structure InspectionProgress where
  totalTasks : ℕ
  completedTasks : ℕ
  bytesProcessed : ℕ
  totalBytes : ℕ
  percentage : ℕ
  stageId : ℕ
  cancelled : Bool
  deriving DecidableEq, Repr

namespace InspectionProgress

/-- `InspectionProgress::new`: all counters zero. -/
def new : InspectionProgress := ⟨0, 0, 0, 0, 0, 0, false⟩

/-- `with_cancellation_token`: the flag starts with the value of the token. -/
def withCancellationToken (token : Bool) : InspectionProgress := { new with cancelled := token }

/-- `task_completion_percentage`. -/
def taskCompletionPercentage (completed total : ℕ) : ℕ :=
  if total = 0 then 0 else min completed total * 100 / total

/-- `set_percentage`. -/
def setPercentage (p : InspectionProgress) (pct : ℕ) : InspectionProgress :=
  { p with percentage := min pct 100 }

/-- `set_stage_id`. -/
def setStageId (p : InspectionProgress) (stage : ℕ) : InspectionProgress :=
  { p with stageId := stage }

/-- `set_total_bytes`. -/
def setTotalBytes (p : InspectionProgress) (total : ℕ) : InspectionProgress :=
  { p with totalBytes := total }

/-- `set_total_tasks`. -/
def setTotalTasks (p : InspectionProgress) (total : ℕ) : InspectionProgress :=
  { p with totalTasks := total }

/-- `reset_for_batch`. -/
def resetForBatch (_p : InspectionProgress) (total : ℕ) : InspectionProgress :=
  ⟨total, 0, 0, 0, 0, 0, false⟩

/-- The stores of `reset_for_batch`, in their order. One after another they make `resetForBatch`. -/
def resetStores (total : ℕ) : List (InspectionProgress → InspectionProgress) :=
  [fun p => { p with completedTasks := 0 },
    fun p => { p with bytesProcessed := 0 },
    fun p => { p with totalBytes := 0 },
    fun p => { p with percentage := 0 },
    fun p => { p with stageId := 0 },
    fun p => { p with cancelled := false },
    fun p => { p with totalTasks := total }]

/-- The `fetch_add` of `increment_completed_tasks`. -/
def fetchAddCompleted (p : InspectionProgress) : InspectionProgress :=
  { p with completedTasks := p.completedTasks + 1 }

/-- The store of `increment_completed_tasks`, of the percentage that it computed. -/
def storePercentage (p : InspectionProgress) (pct : ℕ) : InspectionProgress :=
  { p with percentage := pct }

/-- The percentage of a snapshot: with a plan of tasks the one that the counters give, and otherwise
the stored one. -/
def snapshotPercentage (total completed stored : ℕ) : ℕ :=
  if total > 0 then taskCompletionPercentage completed total else stored

/-- `increment_completed_tasks`, when no other thread moves between its loads and stores. -/
def incrementCompletedTasks (p : InspectionProgress) : InspectionProgress :=
  let completed := p.completedTasks + 1
  let p := p.fetchAddCompleted
  if p.totalTasks > 0 then p.storePercentage (taskCompletionPercentage completed p.totalTasks)
  else p

/-- Progress that never passes its plan: the completed tasks of a plan are at most all of them. -/
def WithinPlan (p : InspectionProgress) : Prop := p.totalTasks > 0 → p.completedTasks ≤ p.totalTasks

end InspectionProgress

/-- `ProgressSnapshot`. -/
structure ProgressSnapshot where
  percentage : ℕ
  stageId : ℕ
  completedTasks : ℕ
  totalTasks : ℕ
  bytesProcessed : ℕ
  totalBytes : ℕ
  cancelled : Bool
  deriving DecidableEq, Repr

/-- `snapshot`, when no other thread moves between its loads; `token` is the linked token. -/
def InspectionProgress.snapshot (p : InspectionProgress) (token : Bool) : ProgressSnapshot where
  percentage := snapshotPercentage p.totalTasks p.completedTasks p.percentage
  stageId := p.stageId
  completedTasks := p.completedTasks
  totalTasks := p.totalTasks
  bytesProcessed := p.bytesProcessed
  totalBytes := p.totalBytes
  cancelled := p.cancelled || token

/-- The percentage of a part of the tasks. -/
theorem InspectionProgress.taskCompletionPercentage_of_le {completed total : ℕ}
    (hle : completed ≤ total) : taskCompletionPercentage completed total = 100 * completed / total := by
  unfold taskCompletionPercentage
  split
  · rename_i hzero
    rw [hzero, Nat.div_zero]
  · rw [min_eq_left hle, Nat.mul_comm]

end VmSpect
