import VmSpect.Lib.Interleaving
import VmSpect.Lib.WorkQueue
import VmSpect.Models.Progress
import VmSpect.Engine.Workers

/-!
# `inspect_batch`

`InspectionEngine::inspect_batch` of `src/engine/mod.rs`: up to 32 worker threads take paths from
one queue, inspect them, and push the outcomes to a shared list. The steps are the accesses to
shared memory: the two loads of the cancellation token, the `pop_front`, the push, and the three
accesses of `increment_completed_tasks`. The inspection of an image is a parameter: it returns a
report or an error, or it unwinds the worker's thread.

`Step` lists what one step can do, and `Inv` is the invariant of every reachable state: the accounts
of `WorkQueue.Accounted`, that outcomes are what the inspections returned, and that
`completed_tasks` lags behind the outcomes by the workers that have pushed and not yet incremented.
-/

namespace VmSpect.Batch

open Interleaving WorkQueue

variable {P ρ ε : Type}

/-- What the inspection of one image does in its worker. -/
inductive Inspection (ρ ε : Type) where
  | returns (result : Except ε ρ)
  | panics

/-- Where a worker thread is in its loop. -/
inductive Worker (P ρ ε : Type) where
  /-- About to load the token before it takes a path. -/
  | checkToken
  /-- About to pop the front of the queue. -/
  | popFront
  /-- About to load the token again, with a path in its hands. -/
  | recheckToken (job : Job P)
  /-- Inspecting. -/
  | inspect (job : Job P)
  /-- About to push the outcome of its inspection. -/
  | pushOutcome (job : Job P) (result : Except ε ρ)
  /-- About to add one to `completed_tasks`. -/
  | fetchAdd
  /-- About to load `total_tasks`. -/
  | loadTotal (completed : ℕ)
  /-- About to store the percentage. -/
  | storePercentage (pct : ℕ)
  /-- Out of its loop; `dropped` is a path that it popped and did not start. -/
  | exited (dropped : Option (Job P))
  /-- Unwound by a panic of the inspection of `job`. -/
  | unwound (job : Job P)

/-- The path that a worker has taken from the queue and not delivered. -/
def Worker.held : Worker P ρ ε → Option (Job P)
  | recheckToken job => some job
  | inspect job => some job
  | pushOutcome job _ => some job
  | exited dropped => dropped
  | unwound job => some job
  | _ => none

/-- Whether the thread has ended, so that `join` returns. -/
def Worker.done : Worker P ρ ε → Bool
  | exited _ => true
  | unwound _ => true
  | _ => false

/-- The memory that the workers share, and where each of them is. -/
structure State (P ρ ε : Type) (n : ℕ) where
  queue : List (Job P)
  outcomes : List (Job P × Except ε ρ)
  progress : InspectionProgress
  cancel : Bool
  workers : Fin n → Worker P ρ ε

/-- A step of one worker, or the token being set from outside. -/
inductive Event (n : ℕ) where
  | worker (id : Fin n)
  | cancel
  deriving DecidableEq

/-- Worker `id` moves on to `w`. -/
def State.goto {n : ℕ} (s : State P ρ ε n) (id : Fin n) (w : Worker P ρ ε) : State P ρ ε n :=
  { s with workers := Function.update s.workers id w }

/-- The state in which `inspect_batch` has spawned its workers. -/
def start (progress : InspectionProgress) (cancel : Bool) (paths : List P) (maxWorkers : ℕ) :
    State P ρ ε (workerCount maxWorkers paths.length) where
  queue := enumerate paths
  outcomes := []
  progress := progress.resetForBatch paths.length
  cancel := cancel
  workers := fun _ => .checkToken

/-- The next access to shared memory of worker `id`; `none` once its thread has ended. -/
def workerStep (inspection : Job P → Inspection ρ ε) {n : ℕ} (s : State P ρ ε n) (id : Fin n) :
    Option (State P ρ ε n) :=
  match s.workers id with
  | .checkToken => some (s.goto id (if s.cancel then .exited none else .popFront))
  | .popFront =>
    match s.queue with
    | [] => some (s.goto id (.exited none))
    | job :: rest => some ({ s with queue := rest }.goto id (.recheckToken job))
  | .recheckToken job => some (s.goto id (if s.cancel then .exited (some job) else .inspect job))
  | .inspect job =>
    match inspection job with
    | .returns result => some (s.goto id (.pushOutcome job result))
    | .panics => some (s.goto id (.unwound job))
  | .pushOutcome job result =>
    some ({ s with outcomes := s.outcomes ++ [(job, result)] }.goto id .fetchAdd)
  | .fetchAdd =>
    some ({ s with progress := s.progress.fetchAddCompleted }.goto id
      (.loadTotal (s.progress.completedTasks + 1)))
  | .loadTotal completed =>
    some (s.goto id
      (if s.progress.totalTasks > 0 then
        .storePercentage
          (InspectionProgress.taskCompletionPercentage completed s.progress.totalTasks)
      else .checkToken))
  | .storePercentage pct =>
    some ({ s with progress := s.progress.storePercentage pct }.goto id .checkToken)
  | .exited _ => none
  | .unwound _ => none

/-- One event. The token is set at most once and never cleared. -/
def step (inspection : Job P → Inspection ρ ε) {n : ℕ} (e : Event n) (s : State P ρ ε n) :
    Option (State P ρ ε n) :=
  match e with
  | .worker id => workerStep inspection s id
  | .cancel => if s.cancel then none else some { s with cancel := true }

/-- Every thread has ended, so that the joins of `inspect_batch` return. -/
def State.Finished {n : ℕ} (s : State P ρ ε n) : Prop := ∀ id, (s.workers id).done = true

instance {n : ℕ} (s : State P ρ ε n) : Decidable s.Finished :=
  inferInstanceAs (Decidable (∀ id, (s.workers id).done = true))

/-- `ImageInspectionError`. -/
structure ImageInspectionError (P ε : Type) where
  path : P
  error : ε
  deriving DecidableEq

/-- `BatchResult`. -/
structure BatchResult (P ρ ε : Type) where
  reports : List ρ
  errors : List (ImageInspectionError P ε)
  deriving DecidableEq

/-- The body of the loop that splits the outcomes: a report or an error is pushed. -/
def BatchResult.push (acc : BatchResult P ρ ε) (outcome : Job P × Except ε ρ) :
    BatchResult P ρ ε :=
  match outcome.2 with
  | .ok report => { acc with reports := acc.reports ++ [report] }
  | .error error => { acc with errors := acc.errors ++ [⟨outcome.1.2, error⟩] }

/-- The loop that splits the sorted outcomes into reports and errors. -/
def collect (outcomes : List (Job P × Except ε ρ)) : BatchResult P ρ ε :=
  outcomes.foldl BatchResult.push ⟨[], []⟩

/-- What `inspect_batch` returns once every thread has ended: the outcomes sorted by their index and
split. An empty list of paths has no workers and no outcomes, as in the early return. -/
def State.batchResult {n : ℕ} (s : State P ρ ε n) : BatchResult P ρ ε :=
  collect (s.outcomes.insertionSort (KeyLe Prod.fst))

/-- The inspection of `job` was started in the run: some worker passed its second check of the token
with that path in its hands. -/
def Started (inspection : Job P → Inspection ρ ε) {n : ℕ} (s₀ : State P ρ ε n)
    (es : List (Event n)) (job : Job P) : Prop :=
  ∃ s, Passes (step inspection) s₀ es s ∧ ∃ id, s.workers id = .inspect job

/-! ## What a step can do -/

/-- The steps, one by one, with the conditions under which they are taken. -/
inductive Step (inspection : Job P → Inspection ρ ε) {n : ℕ} (s : State P ρ ε n) :
    Event n → State P ρ ε n → Prop where
  | stopped (id) (hw : s.workers id = .checkToken) (hc : s.cancel = true) :
      Step inspection s (.worker id) (s.goto id (.exited none))
  | proceed (id) (hw : s.workers id = .checkToken) (hc : s.cancel = false) :
      Step inspection s (.worker id) (s.goto id .popFront)
  | drained (id) (hw : s.workers id = .popFront) (hq : s.queue = []) :
      Step inspection s (.worker id) (s.goto id (.exited none))
  | popped (id job rest) (hw : s.workers id = .popFront) (hq : s.queue = job :: rest) :
      Step inspection s (.worker id) ({ s with queue := rest }.goto id (.recheckToken job))
  | dropped (id job) (hw : s.workers id = .recheckToken job) (hc : s.cancel = true) :
      Step inspection s (.worker id) (s.goto id (.exited (some job)))
  | started (id job) (hw : s.workers id = .recheckToken job) (hc : s.cancel = false) :
      Step inspection s (.worker id) (s.goto id (.inspect job))
  | returned (id job result) (hw : s.workers id = .inspect job)
      (hi : inspection job = .returns result) :
      Step inspection s (.worker id) (s.goto id (.pushOutcome job result))
  | unwound (id job) (hw : s.workers id = .inspect job) (hi : inspection job = .panics) :
      Step inspection s (.worker id) (s.goto id (.unwound job))
  | pushed (id job result) (hw : s.workers id = .pushOutcome job result) :
      Step inspection s (.worker id)
        ({ s with outcomes := s.outcomes ++ [(job, result)] }.goto id .fetchAdd)
  | added (id) (hw : s.workers id = .fetchAdd) :
      Step inspection s (.worker id)
        ({ s with progress := s.progress.fetchAddCompleted }.goto id
          (.loadTotal (s.progress.completedTasks + 1)))
  | loaded (id completed) (w : Worker P ρ ε) (hw : s.workers id = .loadTotal completed)
      (hnext : w = .checkToken ∨ ∃ pct, w = .storePercentage pct) :
      Step inspection s (.worker id) (s.goto id w)
  | stored (id pct) (hw : s.workers id = .storePercentage pct) :
      Step inspection s (.worker id)
        ({ s with progress := s.progress.storePercentage pct }.goto id .checkToken)
  | cancelled (hc : s.cancel = false) : Step inspection s .cancel { s with cancel := true }

/-- Every step of the model is one of them. -/
theorem Step.of_step {inspection : Job P → Inspection ρ ε} {n : ℕ} {e : Event n}
    {s t : State P ρ ε n} (h : step inspection e s = some t) : Step inspection s e t := by
  cases e with
  | cancel =>
    cases hc : s.cancel <;> simp only [step, hc] at h
    · obtain rfl := Option.some.inj h
      exact .cancelled hc
    · cases h
  | worker id =>
    simp only [step, workerStep] at h
    cases hw : s.workers id with
    | checkToken =>
      rw [hw] at h
      obtain rfl := Option.some.inj h
      cases hc : s.cancel
      · exact .proceed id hw hc
      · exact .stopped id hw hc
    | popFront =>
      rw [hw] at h
      cases hq : s.queue with
      | nil =>
        rw [hq] at h
        obtain rfl := Option.some.inj h
        exact .drained id hw hq
      | cons job rest =>
        rw [hq] at h
        obtain rfl := Option.some.inj h
        exact .popped id job rest hw hq
    | recheckToken job =>
      rw [hw] at h
      obtain rfl := Option.some.inj h
      cases hc : s.cancel
      · exact .started id job hw hc
      · exact .dropped id job hw hc
    | inspect job =>
      rw [hw] at h
      cases hi : inspection job with
      | returns result =>
        simp only [hi] at h
        obtain rfl := Option.some.inj h
        exact .returned id job result hw hi
      | panics =>
        simp only [hi] at h
        obtain rfl := Option.some.inj h
        exact .unwound id job hw hi
    | pushOutcome job result =>
      rw [hw] at h
      obtain rfl := Option.some.inj h
      exact .pushed id job result hw
    | fetchAdd =>
      rw [hw] at h
      obtain rfl := Option.some.inj h
      exact .added id hw
    -- A total of zero leaves the percentage alone, and the worker goes back to its loop.
    | loadTotal completed =>
      rw [hw] at h
      obtain rfl := Option.some.inj h
      refine .loaded id completed _ hw ?_
      split_ifs
      · exact Or.inr ⟨_, rfl⟩
      · exact Or.inl rfl
    | storePercentage pct =>
      rw [hw] at h
      obtain rfl := Option.some.inj h
      exact .stored id pct hw
    -- A thread that has ended takes no step.
    | exited dropped => simp only [hw] at h; cases h
    | unwound job => simp only [hw] at h; cases h

end VmSpect.Batch
