import VmSpect.Engine.Batch

/-!
# The invariant of `inspect_batch`

`Inv` holds in every state that a run of the workers reaches (`run_inv`), whatever the inspections
do and whenever the token is set. It is proved once per step of `Step`: most of them move no path,
one takes a path from the queue and one delivers an outcome.
-/

namespace VmSpect.Batch

open Interleaving WorkQueue

variable {P ρ ε : Type}

/-! ## Moving one worker -/

section Goto

variable {n : ℕ} (s : State P ρ ε n) (id : Fin n) (w : Worker P ρ ε)

@[simp] theorem goto_queue : (s.goto id w).queue = s.queue := rfl
@[simp] theorem goto_outcomes : (s.goto id w).outcomes = s.outcomes := rfl
@[simp] theorem goto_progress : (s.goto id w).progress = s.progress := rfl
@[simp] theorem goto_cancel : (s.goto id w).cancel = s.cancel := rfl
@[simp] theorem goto_workers_self : (s.goto id w).workers id = w := by simp [State.goto]

theorem goto_workers_ne {v : Fin n} (hv : v ≠ id) : (s.goto id w).workers v = s.workers v := by
  simp [State.goto, hv]

/-- A worker of the new state is the one that moved, or it is where it was. -/
theorem goto_workers_cases (v : Fin n) :
    (v = id ∧ (s.goto id w).workers v = w) ∨ (v ≠ id ∧ (s.goto id w).workers v = s.workers v) := by
  by_cases hv : v = id
  · exact Or.inl ⟨hv, by rw [hv, goto_workers_self]⟩
  · exact Or.inr ⟨hv, goto_workers_ne s id w hv⟩

end Goto

/-! ## The invariant -/

/-- One for a worker that has pushed an outcome and not yet incremented `completed_tasks`. -/
def Worker.owes : Worker P ρ ε → ℕ
  | fetchAdd => 1
  | _ => 0

/-- What holds in every reachable state of the batch over `paths`; `taken` is the part of the input
that has left the queue. -/
structure Inv (inspection : Job P → Inspection ρ ε) (paths : List P) {n : ℕ} (taken : List (Job P))
    (s : State P ρ ε n) : Prop where
  /-- Every path is queued, in one worker's hands, or delivered once. -/
  accounted : Accounted (enumerate paths) taken s.queue (fun id => (s.workers id).held) s.outcomes
  /-- A delivered outcome is what the inspection of that path returned. -/
  outcome_returned : ∀ p ∈ s.outcomes, inspection p.1 = .returns p.2
  /-- So is an outcome about to be delivered. -/
  push_returned : ∀ id job result, s.workers id = .pushOutcome job result →
    inspection job = .returns result
  /-- A worker is unwound only by a panic. -/
  unwound_panics : ∀ id job, s.workers id = .unwound job → inspection job = .panics
  /-- `completed_tasks` counts the delivered outcomes that were also incremented. -/
  completed : s.progress.completedTasks + ∑ id, (s.workers id).owes = s.outcomes.length

section Preserved

variable {inspection : Job P → Inspection ρ ε} {paths : List P} {n : ℕ} {taken : List (Job P)}
  {s : State P ρ ε n}

/-- Worker `id` moves to `w` and the shared memory changes to that of `t`: the invariant is kept
when the accounts are, every outcome delivered or about to be is a returned one, and
`completed_tasks` moves with what the worker owes. -/
theorem Inv.move (h : Inv inspection paths taken s) {id : Fin n} {w : Worker P ρ ε}
    {t : State P ρ ε n} {taken' : List (Job P)} (ht : t.workers = (s.goto id w).workers)
    (hacc : Accounted (enumerate paths) taken' t.queue (fun v => (t.workers v).held) t.outcomes)
    (hout : ∀ p ∈ t.outcomes, inspection p.1 = .returns p.2)
    (hpush : ∀ job result, w = .pushOutcome job result → inspection job = .returns result)
    (hunw : ∀ job, w = .unwound job → inspection job = .panics)
    (hcount : t.progress.completedTasks + w.owes + s.outcomes.length =
      s.progress.completedTasks + (s.workers id).owes + t.outcomes.length) :
    Inv inspection paths taken' t := by
  refine ⟨hacc, hout, ?_, ?_, ?_⟩
  · intro v job result hv
    rw [ht] at hv
    rcases goto_workers_cases s id w v with ⟨-, hv'⟩ | ⟨-, hv'⟩
    · exact hpush job result (hv' ▸ hv)
    · exact h.push_returned v job result (hv' ▸ hv)
  · intro v job hv
    rw [ht] at hv
    rcases goto_workers_cases s id w v with ⟨-, hv'⟩ | ⟨-, hv'⟩
    · exact hunw job (hv' ▸ hv)
    · exact h.unwound_panics v job (hv' ▸ hv)
  · -- Only the moved worker's debt changes in the sum.
    have hsum := sum_update_add Worker.owes s.workers id w
    have hcomp := h.completed
    rw [ht]
    simp only [State.goto]
    omega

/-- A worker that moves without touching what it holds or owes keeps the invariant, when the shared
memory changes at most in the percentage. -/
theorem Inv.quiet (h : Inv inspection paths taken s) {id : Fin n} {w : Worker P ρ ε}
    {t : State P ρ ε n} (ht : t.workers = (s.goto id w).workers) (hq : t.queue = s.queue)
    (ho : t.outcomes = s.outcomes)
    (hc : t.progress.completedTasks = s.progress.completedTasks)
    (hheld : w.held = (s.workers id).held) (howes : w.owes = (s.workers id).owes)
    (hpush : ∀ job result, w = .pushOutcome job result → inspection job = .returns result)
    (hunw : ∀ job, w = .unwound job → inspection job = .panics) :
    Inv inspection paths taken t := by
  refine h.move ht ?_ (by rw [ho]; exact h.outcome_returned) hpush hunw (by rw [ho, hc, howes])
  rw [hq, ho]
  refine h.accounted.reheld fun v => ?_
  simp only [ht]
  rcases goto_workers_cases s id w v with ⟨rfl, hv⟩ | ⟨-, hv⟩
  · rw [hv, hheld]
  · rw [hv]

/-- Every step keeps the invariant; only `popped` moves a path out of the queue. -/
theorem Inv.step (h : Inv inspection paths taken s) {e : Event n} {t : State P ρ ε n}
    (hstep : Step inspection s e t) : ∃ taken', Inv inspection paths taken' t := by
  cases hstep with
  | stopped id hw hc =>
    exact ⟨taken, h.quiet rfl rfl rfl rfl (by rw [hw]; rfl) (by rw [hw]; rfl) (by simp) (by simp)⟩
  | proceed id hw hc =>
    exact ⟨taken, h.quiet rfl rfl rfl rfl (by rw [hw]; rfl) (by rw [hw]; rfl) (by simp) (by simp)⟩
  | drained id hw hq =>
    exact ⟨taken, h.quiet rfl rfl rfl rfl (by rw [hw]; rfl) (by rw [hw]; rfl) (by simp) (by simp)⟩
  -- The path moves from the queue to the hands of the worker.
  | popped id job rest hw hq =>
    have hacc := h.accounted
    rw [hq] at hacc
    refine ⟨taken ++ [job], h.move rfl ?_ h.outcome_returned (by simp) (by simp) ?_⟩
    · refine hacc.take (enumerate_nodup paths) (w := id) (by simp [hw, Worker.held])
        (by simp [Worker.held]) ?_
      intro v hv
      rw [goto_workers_ne _ _ _ hv]
    · rw [hw]
      rfl
  | dropped id job hw hc =>
    exact ⟨taken, h.quiet rfl rfl rfl rfl (by rw [hw]; rfl) (by rw [hw]; rfl) (by simp) (by simp)⟩
  | started id job hw hc =>
    exact ⟨taken, h.quiet rfl rfl rfl rfl (by rw [hw]; rfl) (by rw [hw]; rfl) (by simp) (by simp)⟩
  | returned id job result hw hi =>
    refine ⟨taken, h.quiet rfl rfl rfl rfl (by rw [hw]; rfl) (by rw [hw]; rfl) ?_ (by simp)⟩
    intro job' result' heq
    obtain ⟨rfl, rfl⟩ := Worker.pushOutcome.inj heq
    exact hi
  | unwound id job hw hi =>
    refine ⟨taken, h.quiet rfl rfl rfl rfl (by rw [hw]; rfl) (by rw [hw]; rfl) (by simp) ?_⟩
    intro job' heq
    obtain rfl := Worker.unwound.inj heq
    exact hi
  -- The path moves from the hands of the worker to the outcomes, and an increment is owed.
  | pushed id job result hw =>
    refine ⟨taken, h.move rfl ?_ ?_ (by simp) (by simp) ?_⟩
    · refine h.accounted.finish (w := id) (by simp [hw, Worker.held]) (by simp [Worker.held]) ?_
        result
      intro v hv
      rw [goto_workers_ne _ _ _ hv]
    · intro p hp
      rcases List.mem_append.mp hp with hp | hp
      · exact h.outcome_returned p hp
      · rw [List.mem_singleton.mp hp]
        exact h.push_returned id job result hw
    · rw [hw]
      simp only [Worker.owes, goto_outcomes, goto_progress, List.length_append,
        List.length_singleton]
      omega
  -- The increment that the worker owed is made.
  | added id hw =>
    refine ⟨taken, h.move rfl ?_ h.outcome_returned (by simp) (by simp) ?_⟩
    · refine h.accounted.reheld fun v => ?_
      by_cases hv : v = id
      · rw [hv, goto_workers_self, hw]
        rfl
      · rw [goto_workers_ne _ _ _ hv]
    · rw [hw]
      simp only [Worker.owes, goto_outcomes, goto_progress, InspectionProgress.fetchAddCompleted]
  | loaded id completed w hw hnext =>
    refine ⟨taken, h.quiet rfl rfl rfl rfl ?_ ?_ ?_ ?_⟩
    all_goals
      rcases hnext with rfl | ⟨pct, rfl⟩ <;> simp [hw, Worker.held, Worker.owes]
  | stored id pct hw =>
    exact ⟨taken, h.quiet rfl rfl rfl rfl (by rw [hw]; rfl) (by rw [hw]; rfl) (by simp) (by simp)⟩
  | cancelled hc => exact ⟨taken, ⟨h.1, h.2, h.3, h.4, h.5⟩⟩

end Preserved

/-- The invariant holds once the workers are spawned. -/
theorem inv_start (inspection : Job P → Inspection ρ ε) (progress : InspectionProgress)
    (cancel : Bool) (paths : List P) (maxWorkers : ℕ) :
    Inv inspection paths [] (start progress cancel paths maxWorkers) where
  accounted := Accounted.init (enumerate paths)
  outcome_returned := by simp [start]
  push_returned := by simp [start]
  unwound_panics := by simp [start]
  completed := by simp [start, Worker.owes, InspectionProgress.resetForBatch]

/-- The invariant holds in every state that a run reaches. -/
theorem run_inv {inspection : Job P → Inspection ρ ε} {progress : InspectionProgress}
    {cancel : Bool} {paths : List P} {maxWorkers : ℕ}
    {es : List (Event (workerCount maxWorkers paths.length))}
    {s : State P ρ ε (workerCount maxWorkers paths.length)}
    (h : run (step inspection) es (start progress cancel paths maxWorkers) = some s) :
    ∃ taken, Inv inspection paths taken s := by
  refine run_invariant (fun s => ∃ taken, Inv inspection paths taken s)
    ⟨[], inv_start inspection progress cancel paths maxWorkers⟩ ?_ h
  rintro e s t ⟨taken, hs⟩ ht
  exact hs.step (Step.of_step ht)

end VmSpect.Batch
