import VmSpect.Lib.Shutdown
import VmSpect.Engine.BatchOutcomes
import VmSpect.Engine.ParallelOutcomes

/-!
# Graceful shutdown

What `process_in_parallel` and `inspect_batch` still start once the token is set. A task starts when
the worker calls the closure or the inspection, which is after its second look at the token: the
token can be set in between. So both are pools of workers in the sense of `Shutdown.Pool`, whose
workers are ready between their second look and the call.

A closure of `process_in_parallel` that panics ends its worker and leaves nothing behind, exactly as
one that answers with `Cancelled`, since the result of the join is ignored.
-/

namespace VmSpect

open Interleaving Shutdown WorkQueue

/-! ## `inspect_batch` -/

namespace Batch

variable {P ρ ε : Type}

/-- The inspection that the next step of a worker starts. -/
def begins {n : ℕ} (e : Event n) (s : State P ρ ε n) : Option (Fin n × Job P) :=
  match e with
  | .cancel => none
  | .worker id =>
    match s.workers id with
    | .inspect job => some (id, job)
    | _ => none

/-- A worker that has passed its second look and not started. -/
def Worker.ready : Worker P ρ ε → Bool
  | inspect _ => true
  | _ => false

/-- A worker at its call is ready. -/
theorem ready_of_begins {n : ℕ} {e : Event n} {s : State P ρ ε n} {id : Fin n} {job : Job P}
    (h : begins e s = some (id, job)) : e = .worker id ∧ s.workers id = .inspect job := by
  cases e with
  | cancel => cases h
  | worker v =>
    simp only [begins] at h
    split at h
    · rename_i j hw
      obtain ⟨rfl, rfl⟩ := Prod.mk.inj (Option.some.inj h)
      exact ⟨rfl, hw⟩
    · cases h

/-- The workers of a batch stop when the token is set. -/
theorem batch_pool (inspection : Job P → Inspection ρ ε) (n : ℕ) :
    Pool (step inspection) (State.cancel : State P ρ ε n → Bool) begins
      (fun s id => (s.workers id).ready) where
  stays e s t hstep hs := by
    cases Step.of_step hstep with
    | cancelled hc => rfl
    | _ => exact hs
  no_new e s t hstep hs id hready := by
    -- A worker that moves becomes ready only by a look that finds the token clear.
    have hmoved : ∀ {v : Fin n} {w : Worker P ρ ε}, t.workers = (s.goto v w).workers →
        w.ready = false → (s.workers id).ready = true := by
      intro v w ht hw
      rw [ht] at hready
      rcases goto_workers_cases s v w id with ⟨-, hid⟩ | ⟨-, hid⟩
      · rw [hid, hw] at hready
        cases hready
      · rwa [hid] at hready
    cases Step.of_step hstep with
    | proceed v hw hc => rw [hs] at hc; cases hc
    | started v job hw hc => rw [hs] at hc; cases hc
    | loaded v completed w hw hnext =>
      refine hmoved rfl ?_
      rcases hnext with rfl | ⟨pct, rfl⟩ <;> rfl
    | cancelled hc => exact hready
    | _ => exact hmoved rfl rfl
  ready_of_begins e s id job h := by
    rw [(Batch.ready_of_begins h).2]
    rfl
  used e s t id job hstep h := by
    obtain ⟨rfl, hw⟩ := Batch.ready_of_begins h
    cases Step.of_step hstep with
    | returned v j result hv hi =>
      rw [goto_workers_self]
      rfl
    | unwound v j hv hi =>
      rw [goto_workers_self]
      rfl
    | _ => simp_all

/-- The places of a worker that has started the inspection of `job`. -/
def Worker.busyWith (job : Job P) (w : Worker P ρ ε) : Prop :=
  w = .inspect job ∨ (∃ result, w = .pushOutcome job result) ∨ w = .unwound job

/-- The inspection of `job` was started: it is running, it has ended, or it was delivered. -/
def Begun {n : ℕ} (job : Job P) (s : State P ρ ε n) : Prop :=
  job ∈ s.outcomes.map Prod.fst ∨ ∃ id, (s.workers id).busyWith job

/-- It stays started when the one worker that moves still has it, or had not. -/
theorem Begun.move {n : ℕ} {job : Job P} {s t : State P ρ ε n} {id : Fin n} {w : Worker P ρ ε}
    (h : Begun job s) (ht : t.workers = (s.goto id w).workers)
    (hout : ∀ j ∈ s.outcomes.map Prod.fst, j ∈ t.outcomes.map Prod.fst)
    (hbusy : (s.workers id).busyWith job → w.busyWith job ∨ job ∈ t.outcomes.map Prod.fst) :
    Begun job t := by
  rcases h with h | ⟨v, hv⟩
  · exact Or.inl (hout job h)
  · by_cases hvid : v = id
    · subst hvid
      rcases hbusy hv with hw | hw
      · exact Or.inr ⟨v, by rw [ht, goto_workers_self]; exact hw⟩
      · exact Or.inl hw
    · exact Or.inr ⟨v, by rw [ht, goto_workers_ne _ _ _ hvid]; exact hv⟩

/-- Once an inspection is started, it stays so. -/
theorem Begun.step {inspection : Job P → Inspection ρ ε} {n : ℕ} {job : Job P}
    {s t : State P ρ ε n} {e : Event n} (hstep : Step inspection s e t) (h : Begun job s) :
    Begun job t := by
  cases hstep with
  | returned id j result hw hi =>
    exact h.move rfl (by simp) fun hb => Or.inl (by simpa [hw, Worker.busyWith] using hb)
  | unwound id j hw hi =>
    exact h.move rfl (by simp) fun hb => Or.inl (by simpa [hw, Worker.busyWith] using hb)
  -- The inspection leaves the hands of its worker for the outcomes.
  | pushed id j result hw =>
    refine h.move (w := .fetchAdd) rfl ?_ ?_
    · intro i hi
      simp only [goto_outcomes, List.map_append, List.mem_append]
      exact Or.inl hi
    · intro hb
      have hj : j = job := by simpa [hw, Worker.busyWith] using hb
      right
      simp [hj]
  | cancelled hc => exact h
  | stopped id hw hc => exact h.move rfl (by simp) (by simp [hw, Worker.busyWith])
  | proceed id hw hc => exact h.move rfl (by simp) (by simp [hw, Worker.busyWith])
  | drained id hw hq => exact h.move rfl (by simp) (by simp [hw, Worker.busyWith])
  | popped id j rest hw hq => exact h.move rfl (by simp) (by simp [hw, Worker.busyWith])
  | dropped id j hw hc => exact h.move rfl (by simp) (by simp [hw, Worker.busyWith])
  | started id j hw hc => exact h.move rfl (by simp) (by simp [hw, Worker.busyWith])
  | added id hw => exact h.move rfl (by simp) (by simp [hw, Worker.busyWith])
  | loaded id completed w hw hnext => exact h.move rfl (by simp) (by simp [hw, Worker.busyWith])
  | stored id pct hw => exact h.move rfl (by simp) (by simp [hw, Worker.busyWith])

/-- A path that was popped and dropped is not inspected by anyone and has no outcome. -/
theorem not_started_of_dropped {inspection : Job P → Inspection ρ ε} {paths : List P} {n : ℕ}
    {s₀ s : State P ρ ε n} {taken : List (Job P)} (hinv : Inv inspection paths taken s)
    {es : List (Event n)} (h : run (step inspection) es s₀ = some s) {id : Fin n} {job : Job P}
    (hdropped : s.workers id = .exited (some job)) :
    ¬ Started inspection s₀ es job ∧ job ∉ s.outcomes.map Prod.fst := by
  have hheld : (s.workers id).held = some job := by rw [hdropped]; rfl
  have hout := hinv.accounted.held_not_finished id job hheld
  refine ⟨?_, hout⟩
  rintro ⟨u, hu, v, hv⟩
  have hbegun : Begun job s := hu.forward h (fun e s t hs ht => hs.step (Step.of_step ht))
    (Or.inr ⟨v, Or.inl hv⟩)
  rcases hbegun with hmem | ⟨w, hw⟩
  · exact hout hmem
  · -- The worker that started it would hold the same path.
    have hheldw : (s.workers w).held = some job := by
      rcases hw with hw | ⟨result, hw⟩ | hw <;> rw [hw] <;> rfl
    obtain rfl := hinv.accounted.held_inj id w job hheld hheldw
    rw [hdropped] at hw
    rcases hw with hw | ⟨result, hw⟩ | hw <;> cases hw

end Batch

/-! ## `process_in_parallel` -/

namespace Parallel

variable {T R : Type}

/-- The item on which the next step of a worker calls the closure. -/
def begins {n : ℕ} (e : Event n) (s : State T R n) : Option (Fin n × Job T) :=
  match e with
  | .cancel => none
  | .worker id =>
    match s.workers id with
    | .apply job => some (id, job)
    | _ => none

/-- A worker that has passed its second look and not called the closure. -/
def Worker.ready : Worker T R → Bool
  | apply _ => true
  | _ => false

/-- A worker at its call is ready. -/
theorem ready_of_begins {n : ℕ} {e : Event n} {s : State T R n} {id : Fin n} {job : Job T}
    (h : begins e s = some (id, job)) : e = .worker id ∧ s.workers id = .apply job := by
  cases e with
  | cancel => cases h
  | worker v =>
    simp only [begins] at h
    split at h
    · rename_i j hw
      obtain ⟨rfl, rfl⟩ := Prod.mk.inj (Option.some.inj h)
      exact ⟨rfl, hw⟩
    · cases h

/-- The workers of a processor stop when the token is set. -/
theorem parallel_pool (f : Job T → Except VmSpectError R) (n : ℕ) :
    Pool (step f) (State.cancelled : State T R n → Bool) begins
      (fun s id => (s.workers id).ready) where
  stays e s t hstep hs := by
    cases Step.of_step hstep with
    | cancelled hc => rfl
    | _ => exact hs
  -- A worker gets ready only by a look that finds the token clear.
  no_new e s t hstep hs id hready := by
    have hmoved : ∀ {v : Fin n} {w : Worker T R}, t.workers = (s.goto v w).workers →
        w.ready = false → (s.workers id).ready = true := by
      intro v w ht hw
      rw [ht] at hready
      by_cases hv : id = v
      · rw [hv, goto_workers_self, hw] at hready
        cases hready
      · rwa [goto_workers_ne _ _ _ hv] at hready
    cases Step.of_step hstep with
    | proceed v hw hc => rw [hs] at hc; cases hc
    | started v job hw hc => rw [hs] at hc; cases hc
    | cancelled hc => exact hready
    | _ => exact hmoved rfl rfl
  ready_of_begins e s id job h := by
    rw [(Parallel.ready_of_begins h).2]
    rfl
  -- The call of the closure takes the worker out of its ready place.
  used e s t id job hstep h := by
    obtain ⟨rfl, hw⟩ := Parallel.ready_of_begins h
    cases Step.of_step hstep with
    | succeeded v j value hv hf =>
      rw [goto_workers_self]
      rfl
    | gaveUp v j hv hf =>
      rw [goto_workers_self]
      rfl
    | failed v j error hv hf hne =>
      rw [goto_workers_self]
      rfl
    | _ => simp_all

/-- An item that was popped and dropped is not processed by anyone and has no result. -/
theorem not_called_of_dropped {f : Job T → Except VmSpectError R} {items : List T} {n : ℕ}
    {s : State T R n} {taken : List (Job T)} (hinv : Inv f items taken s) {id : Fin n} {job : Job T}
    (hdropped : s.workers id = .exited (.dropped job)) : ¬ Called job s := by
  have hheld : (s.workers id).held = some job := by rw [hdropped]; rfl
  rintro (hmem | ⟨w, hw⟩)
  · exact hinv.accounted.held_not_finished id job hheld hmem
  · have hheldw : (s.workers w).held = some job := by
      rcases hw with hw | ⟨value, hw⟩ | ⟨error, hw⟩ | ⟨error, hw⟩ <;> rw [hw] <;> rfl
    obtain rfl := hinv.accounted.held_inj id w job hheld hheldw
    rw [hdropped] at hw
    rcases hw with hw | ⟨value, hw⟩ | ⟨error, hw⟩ | ⟨error, hw⟩ <;> cases hw

end Parallel

/-! ## The bound -/

/-- After the token is set, in every run of `inspect_batch` and of `process_in_parallel`: each
worker starts at most one task, so there are no more of them than workers; an item that a worker
popped and dropped is not run by anyone and has no result, and neither has any item that was not
started. -/
theorem graceful_shutdown {P ρ ε T R : Type} :
    (∀ (inspection : Job P → Batch.Inspection ρ ε) (progress : InspectionProgress) (cancel : Bool)
      (paths : List P) (maxWorkers : ℕ)
      (es : List (Batch.Event (workerCount maxWorkers paths.length)))
      (s : Batch.State P ρ ε (workerCount maxWorkers paths.length)),
      run (Batch.step inspection) es (Batch.start progress cancel paths maxWorkers) = some s →
      ((begunAfter (Batch.step inspection) Batch.State.cancel Batch.begins es
        (Batch.start progress cancel paths maxWorkers)).map Prod.fst).Nodup ∧
      (begunAfter (Batch.step inspection) Batch.State.cancel Batch.begins es
        (Batch.start progress cancel paths maxWorkers)).length ≤
          min (min (max maxWorkers 1) paths.length) 32 ∧
      (∀ id job, s.workers id = .exited (some job) →
        ¬ Batch.Started inspection (Batch.start progress cancel paths maxWorkers) es job ∧
          job ∉ s.outcomes.map Prod.fst) ∧
      ∀ job, ¬ Batch.Started inspection (Batch.start progress cancel paths maxWorkers) es job →
        job ∉ s.outcomes.map Prod.fst) ∧
    ∀ (f : Job T → Except VmSpectError R) (token : Option Bool)
      (progress : Option InspectionProgress) (items : List T) (maxWorkers : ℕ)
      (es : List (Parallel.Event (workerCount maxWorkers items.length)))
      (s : Parallel.State T R (workerCount maxWorkers items.length)),
      run (Parallel.step f) es (Parallel.start token progress items maxWorkers) = some s →
      ((begunAfter (Parallel.step f) Parallel.State.cancelled Parallel.begins es
        (Parallel.start token progress items maxWorkers)).map Prod.fst).Nodup ∧
      (begunAfter (Parallel.step f) Parallel.State.cancelled Parallel.begins es
        (Parallel.start token progress items maxWorkers)).length ≤
          min (min (max maxWorkers 1) items.length) 32 ∧
      (∀ id job, s.workers id = .exited (.dropped job) →
        ¬ Parallel.Started f (Parallel.start token progress items maxWorkers) es job ∧
          job ∉ s.results.map Prod.fst) ∧
      ∀ job, ¬ Parallel.Started f (Parallel.start token progress items maxWorkers) es job →
        job ∉ s.results.map Prod.fst := by
  constructor
  · intro inspection progress cancel paths maxWorkers es s h
    obtain ⟨taken, hinv⟩ := Batch.run_inv h
    have hpool := Batch.batch_pool (P := P) (ρ := ρ) (ε := ε) inspection
      (workerCount maxWorkers paths.length)
    -- The bound is the number of workers, by the rule for pools.
    have hlength := hpool.begunAfter_length_le es (Batch.start progress cancel paths maxWorkers)
    rw [Fintype.card_fin] at hlength
    refine ⟨hpool.begunAfter_nodup es _, hlength, ?_, ?_⟩
    · intro id job hdropped
      exact Batch.not_started_of_dropped hinv h hdropped
    · intro job hnot hmem
      exact hnot (Batch.run_started (Batch.not_inFlight_start progress cancel paths maxWorkers) h job
        (Or.inl hmem))
  · intro f token progress items maxWorkers es s h
    obtain ⟨taken, hinv⟩ := Parallel.run_inv h
    have hpool := Parallel.parallel_pool (T := T) (R := R) f (workerCount maxWorkers items.length)
    have hlength := hpool.begunAfter_length_le es (Parallel.start token progress items maxWorkers)
    rw [Fintype.card_fin] at hlength
    have hstarted := Parallel.started_iff_called
      (Parallel.not_called_start token progress items maxWorkers) h
    refine ⟨hpool.begunAfter_nodup es _, hlength, ?_, ?_⟩
    · intro id job hdropped
      have hnot := Parallel.not_called_of_dropped hinv hdropped
      exact ⟨fun hjob => hnot ((hstarted job).mp hjob), fun hmem => hnot (Or.inl hmem)⟩
    · intro job hnot hmem
      exact hnot ((hstarted job).mpr (Or.inl hmem))

/-- Two workers over two images: the first one has passed its second look when the token is set, and
the second one has only popped its image. -/
def shutdownSchedule : List (Batch.Event (workerCount 2 [4, 5].length)) :=
  List.replicate 3 (.worker ⟨0, by decide⟩) ++ List.replicate 2 (.worker ⟨1, by decide⟩) ++
    [.cancel, .worker ⟨0, by decide⟩, .worker ⟨1, by decide⟩]

/-- The first worker starts its image after the token is set, and the second one drops its own. -/
theorem graceful_shutdown_two :
    ∃ s, run (Batch.step (fun job => .returns (Batch.sampleResult job))) shutdownSchedule
        (Batch.start .new false [4, 5] 2) = some s ∧
      (begunAfter (Batch.step (fun job => .returns (Batch.sampleResult job))) Batch.State.cancel
        Batch.begins shutdownSchedule (Batch.start .new false [4, 5] 2)).map Prod.snd = [(0, 4)] ∧
      s.workers ⟨1, by decide⟩ = .exited (some (1, 5)) ∧
      ¬ Batch.Started (fun job => .returns (Batch.sampleResult job))
        (Batch.start .new false [4, 5] 2) shutdownSchedule (1, 5) := by
  refine ⟨_, rfl, by decide, rfl, ?_⟩
  have hbound := (graceful_shutdown (T := ℕ) (R := ℕ)).1
    (fun job => .returns (Batch.sampleResult job)) .new false [4, 5] 2 shutdownSchedule _ rfl
  exact (hbound.2.2.1 ⟨1, by decide⟩ (1, 5) rfl).1

end VmSpect
