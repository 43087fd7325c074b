import VmSpect.Lib.Interleaving
import VmSpect.Lib.WorkQueue
import VmSpect.Error
import VmSpect.Models.Progress
import VmSpect.Engine.Workers

/-!
# `process_in_parallel`

`ConcurrentProcessor::process_in_parallel` of `src/engine/mod.rs`: workers take items from one queue
and apply a closure. A value is pushed to the shared results. An error ends the worker that met it,
and is stored when it is the first one and is not `Cancelled`. Once all threads have ended, the
token is loaded again to decide between the stored error and the results.

The closure is given by its answers, one for each entry of the queue, so that a closure with a state
of its own is covered. It answers: what a panic does to a worker is modelled for `inspect_batch`, in
`Batch`.
-/

namespace VmSpect.Parallel

open Interleaving WorkQueue

variable {T R : Type}

/-- Why a worker left its loop. -/
inductive Exit (T : Type) where
  /-- The token was set before a pop, or the queue was empty. -/
  | idle
  /-- The token was set after the pop of this entry. -/
  | dropped (job : Job T)
  /-- The closure answered this entry with an error. -/
  | failed (job : Job T) (error : VmSpectError)
  deriving DecidableEq

/-- Where a worker thread is in its loop. -/
inductive Worker (T R : Type) where
  | checkToken
  | popFront
  | recheckToken (job : Job T)
  /-- Running the closure. -/
  | apply (job : Job T)
  | pushResult (job : Job T) (value : R)
  | storeError (job : Job T) (error : VmSpectError)
  | exited (why : Exit T)

/-- The entry that a worker has taken from the queue and not delivered. -/
def Worker.held : Worker T R → Option (Job T)
  | recheckToken job => some job
  | apply job => some job
  | pushResult job _ => some job
  | storeError job _ => some job
  | exited (.dropped job) => some job
  | exited (.failed job _) => some job
  | _ => none

/-- Whether the thread has ended. -/
def Worker.done : Worker T R → Bool
  | exited _ => true
  | _ => false

/-- The memory that the workers share, and where each of them is. There may be no token and no
progress. -/
structure State (T R : Type) (n : ℕ) where
  queue : List (Job T)
  results : List (Job T × R)
  storedError : Option VmSpectError
  cancelToken : Option Bool
  progress : Option InspectionProgress
  workers : Fin n → Worker T R

/-- A step of one worker, or the token being set from outside. -/
inductive Event (n : ℕ) where
  | worker (id : Fin n)
  | cancel

/-- A load of the token: without one, nothing is cancelled. -/
def State.cancelled {n : ℕ} (s : State T R n) : Bool := s.cancelToken.getD false

/-- Worker `id` moves on to `w`. -/
def State.goto {n : ℕ} (s : State T R n) (id : Fin n) (w : Worker T R) : State T R n :=
  { s with workers := Function.update s.workers id w }

/-- The state in which the workers are spawned. -/
def start (token : Option Bool) (progress : Option InspectionProgress) (items : List T)
    (maxWorkers : ℕ) : State T R (workerCount maxWorkers items.length) where
  queue := enumerate items
  results := []
  storedError := none
  cancelToken := token
  progress := progress.map (fun p => p.setTotalTasks items.length)
  workers := fun _ => .checkToken

/-- The next step of worker `id`; `none` once its thread has ended. The push and the increment of
the progress are one step: the lock on the results is held over both. -/
def workerStep (f : Job T → Except VmSpectError R) {n : ℕ} (s : State T R n) (id : Fin n) :
    Option (State T R n) :=
  match s.workers id with
  | .checkToken => some (s.goto id (if s.cancelled then .exited .idle else .popFront))
  | .popFront =>
    match s.queue with
    | [] => some (s.goto id (.exited .idle))
    | job :: rest => some ({ s with queue := rest }.goto id (.recheckToken job))
  | .recheckToken job =>
    some (s.goto id (if s.cancelled then .exited (.dropped job) else .apply job))
  | .apply job =>
    match f job with
    | .ok value => some (s.goto id (.pushResult job value))
    | .error error =>
      some (s.goto id
        (if error = .cancelled then .exited (.failed job error) else .storeError job error))
  | .pushResult job value =>
    some ({ s with
      results := s.results ++ [(job, value)]
      progress := s.progress.map InspectionProgress.incrementCompletedTasks }.goto id .checkToken)
  | .storeError job error =>
    some ({ s with storedError := s.storedError.or (some error) }.goto id
      (.exited (.failed job error)))
  | .exited _ => none

/-- One event. The token, if there is one, is set at most once and never cleared. -/
def step (f : Job T → Except VmSpectError R) {n : ℕ} (e : Event n) (s : State T R n) :
    Option (State T R n) :=
  match e with
  | .worker id => workerStep f s id
  | .cancel =>
    if s.cancelToken = some false then some { s with cancelToken := some true } else none

/-- Every thread has ended, so that the joins return. -/
def State.Finished {n : ℕ} (s : State T R n) : Prop := ∀ id, (s.workers id).done = true

instance {n : ℕ} (s : State T R n) : Decidable s.Finished :=
  inferInstanceAs (Decidable (∀ id, (s.workers id).done = true))

/-- What is returned after the joins: the stored error unless the token is set, else the values
sorted by the position of their item. -/
def State.returned {n : ℕ} (s : State T R n) : Except VmSpectError (List R) :=
  match s.cancelled, s.storedError with
  | false, some error => .error error
  | _, _ => .ok ((s.results.insertionSort (KeyLe Prod.fst)).map Prod.snd)

/-- A call of `process_in_parallel` and what it returns: at once for an empty input and for a token
that is already set, and otherwise after a run of the workers to their end. -/
inductive Call (f : Job T → Except VmSpectError R) (token : Option Bool)
    (progress : Option InspectionProgress) (items : List T) (maxWorkers : ℕ) :
    List (Event (workerCount maxWorkers items.length)) → Except VmSpectError (List R) → Prop where
  | empty (h : items = []) : Call f token progress items maxWorkers [] (.ok [])
  | alreadyCancelled (h : token = some true) : Call f token progress items maxWorkers [] (.ok [])
  | joined (es) (s : State T R (workerCount maxWorkers items.length)) (hne : items ≠ [])
      (ht : token ≠ some true)
      (hrun : run (step f) es (start token progress items maxWorkers) = some s)
      (hdone : s.Finished) : Call f token progress items maxWorkers es s.returned

/-- The closure was called on `job` in the run. -/
def Started (f : Job T → Except VmSpectError R) {n : ℕ} (s₀ : State T R n) (es : List (Event n))
    (job : Job T) : Prop :=
  ∃ s, Passes (step f) s₀ es s ∧ ∃ id, s.workers id = .apply job

/-! ## What a step can do -/

/-- The steps, one by one, with the conditions under which they are taken. -/
inductive Step (f : Job T → Except VmSpectError R) {n : ℕ} (s : State T R n) :
    Event n → State T R n → Prop where
  | stopped (id) (hw : s.workers id = .checkToken) (hc : s.cancelled = true) :
      Step f s (.worker id) (s.goto id (.exited .idle))
  | proceed (id) (hw : s.workers id = .checkToken) (hc : s.cancelled = false) :
      Step f s (.worker id) (s.goto id .popFront)
  | drained (id) (hw : s.workers id = .popFront) (hq : s.queue = []) :
      Step f s (.worker id) (s.goto id (.exited .idle))
  | popped (id job rest) (hw : s.workers id = .popFront) (hq : s.queue = job :: rest) :
      Step f s (.worker id) ({ s with queue := rest }.goto id (.recheckToken job))
  | dropped (id job) (hw : s.workers id = .recheckToken job) (hc : s.cancelled = true) :
      Step f s (.worker id) (s.goto id (.exited (.dropped job)))
  | started (id job) (hw : s.workers id = .recheckToken job) (hc : s.cancelled = false) :
      Step f s (.worker id) (s.goto id (.apply job))
  | succeeded (id job value) (hw : s.workers id = .apply job) (hf : f job = .ok value) :
      Step f s (.worker id) (s.goto id (.pushResult job value))
  | gaveUp (id job) (hw : s.workers id = .apply job) (hf : f job = .error .cancelled) :
      Step f s (.worker id) (s.goto id (.exited (.failed job .cancelled)))
  | failed (id job error) (hw : s.workers id = .apply job) (hf : f job = .error error)
      (hne : error ≠ .cancelled) : Step f s (.worker id) (s.goto id (.storeError job error))
  | pushed (id job value) (hw : s.workers id = .pushResult job value) :
      Step f s (.worker id) ({ s with
        results := s.results ++ [(job, value)]
        progress := s.progress.map InspectionProgress.incrementCompletedTasks }.goto id .checkToken)
  | stored (id job error) (hw : s.workers id = .storeError job error) :
      Step f s (.worker id) ({ s with storedError := s.storedError.or (some error) }.goto id
        (.exited (.failed job error)))
  | cancelled (hc : s.cancelToken = some false) :
      Step f s .cancel { s with cancelToken := some true }

/-- Every step of the model is one of them. -/
theorem Step.of_step {f : Job T → Except VmSpectError R} {n : ℕ} {e : Event n} {s t : State T R n}
    (h : step f e s = some t) : Step f s e t := by
  cases e with
  | cancel =>
    simp only [step] at h
    split at h
    · obtain rfl := Option.some.inj h
      exact .cancelled ‹_›
    · cases h
  | worker id =>
    simp only [step, workerStep] at h
    cases hw : s.workers id with
    | checkToken =>
      rw [hw] at h
      obtain rfl := Option.some.inj h
      cases hc : s.cancelled
      · exact .proceed id hw hc
      · exact .stopped id hw hc
    | popFront =>
      rw [hw] at h
      cases hq : s.queue with
      | nil =>
        rw [hq] at h
        obtain rfl := Option.some.inj h
        exact .drained id hw hq
      | cons job rest =>
        rw [hq] at h
        obtain rfl := Option.some.inj h
        exact .popped id job rest hw hq
    | recheckToken job =>
      rw [hw] at h
      obtain rfl := Option.some.inj h
      cases hc : s.cancelled
      · exact .started id job hw hc
      · exact .dropped id job hw hc
    | apply job =>
      rw [hw] at h
      cases hf : f job with
      | ok value =>
        simp only [hf] at h
        obtain rfl := Option.some.inj h
        exact .succeeded id job value hw hf
      | error error =>
        simp only [hf] at h
        obtain rfl := Option.some.inj h
        -- An answer of `Cancelled` ends the worker without an error.
        by_cases hne : error = .cancelled
        · subst hne
          exact .gaveUp id job hw hf
        · rw [if_neg hne]
          exact .failed id job error hw hf hne
    | pushResult job value =>
      rw [hw] at h
      obtain rfl := Option.some.inj h
      exact .pushed id job value hw
    | storeError job error =>
      rw [hw] at h
      obtain rfl := Option.some.inj h
      exact .stored id job error hw
    | exited why => simp only [hw] at h; cases h

end VmSpect.Parallel
