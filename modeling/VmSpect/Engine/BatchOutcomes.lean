import VmSpect.Engine.BatchInvariant

/-!
# `inspect_batch` loses and duplicates nothing

At the end of every run, whatever the schedule and whenever the token was set, the reports and
errors are those of exactly the paths whose inspection was started, in the order of the input
(`inspect_batch_outcomes`). A started path stays in flight until it is delivered (`InFlight.step`),
and what is delivered was in flight before (`run_started`).
-/

namespace VmSpect.Batch

open Interleaving WorkQueue

variable {P ρ ε : Type}

/-! ## Splitting the outcomes -/

/-- The error entry of an outcome, if it is one. -/
def errorEntry (job : Job P) : Except ε ρ → Option (ImageInspectionError P ε)
  | .ok _ => none
  | .error error => some ⟨job.2, error⟩

/-- The splitting loop from any point: it appends the remaining reports and errors. -/
theorem collect_foldl (outcomes : List (Job P × Except ε ρ)) (acc : BatchResult P ρ ε) :
    outcomes.foldl BatchResult.push acc =
      ⟨acc.reports ++ outcomes.filterMap (fun o => o.2.toOption),
        acc.errors ++ outcomes.filterMap (fun o => errorEntry o.1 o.2)⟩ := by
  induction outcomes generalizing acc with
  | nil => simp
  | cons outcome rest ih =>
    obtain ⟨job, result⟩ := outcome
    cases result with
    | ok report => simp [ih, BatchResult.push, errorEntry, Except.toOption]
    | error error => simp [ih, BatchResult.push, errorEntry, Except.toOption]

/-- The reports and the errors, each in the order of the outcomes. -/
theorem collect_eq (outcomes : List (Job P × Except ε ρ)) :
    collect outcomes = ⟨outcomes.filterMap (fun o => o.2.toOption),
      outcomes.filterMap (fun o => errorEntry o.1 o.2)⟩ := by
  unfold collect
  rw [collect_foldl]
  simp

/-- Every outcome is a report or an error. -/
theorem collect_length (outcomes : List (Job P × Except ε ρ)) :
    (collect outcomes).reports.length + (collect outcomes).errors.length = outcomes.length := by
  rw [collect_eq]
  induction outcomes with
  | nil => rfl
  | cons outcome rest ih =>
    obtain ⟨job, result⟩ := outcome
    cases result with
    | ok report =>
      simp only [List.filterMap_cons, Except.toOption, errorEntry, List.length_cons] at ih ⊢
      omega
    | error error =>
      simp only [List.filterMap_cons, Except.toOption, errorEntry, List.length_cons] at ih ⊢
      omega

/-- A batch has as many reports and errors as delivered outcomes. -/
theorem batchResult_length {n : ℕ} (s : State P ρ ε n) :
    s.batchResult.reports.length + s.batchResult.errors.length = s.outcomes.length := by
  rw [State.batchResult, collect_length, List.length_insertionSort]

/-! ## From the start of an inspection to its delivery -/

/-- The inspection of `job` is running, returned, or delivered. -/
def InFlight {n : ℕ} (job : Job P) (s : State P ρ ε n) : Prop :=
  job ∈ s.outcomes.map Prod.fst ∨ (∃ id, s.workers id = .inspect job) ∨
    ∃ id result, s.workers id = .pushOutcome job result

/-- A worker in flight other than the one that moves stays where it is. -/
theorem InFlight.of_other {n : ℕ} {job : Job P} {s t : State P ρ ε n} {id : Fin n}
    {w : Worker P ρ ε} (h : InFlight job s) (ht : t.workers = (s.goto id w).workers)
    (ho : ∀ j ∈ s.outcomes.map Prod.fst, j ∈ t.outcomes.map Prod.fst)
    (hid : (s.workers id).held ≠ some job) : InFlight job t := by
  rcases h with h | ⟨v, hv⟩ | ⟨v, result, hv⟩
  · exact Or.inl (ho job h)
  · have hne : v ≠ id := by
      rintro rfl
      exact hid (by rw [hv]; rfl)
    exact Or.inr (Or.inl ⟨v, by rw [ht, goto_workers_ne _ _ _ hne, hv]⟩)
  · have hne : v ≠ id := by
      rintro rfl
      exact hid (by rw [hv]; rfl)
    exact Or.inr (Or.inr ⟨v, result, by rw [ht, goto_workers_ne _ _ _ hne, hv]⟩)

/-- A started inspection that does not panic stays in flight until it is delivered. -/
theorem InFlight.step {inspection : Job P → Inspection ρ ε} {n : ℕ} {job : Job P}
    {s t : State P ρ ε n} {e : Event n} (hjob : inspection job ≠ .panics)
    (hstep : Step inspection s e t) (h : InFlight job s) : InFlight job t := by
  -- A worker that looks at the token again has not started its path, so it moves no path in flight.
  have hrecheck : ∀ {id : Fin n} {j : Job P} {w : Worker P ρ ε},
      s.workers id = .recheckToken j → InFlight job (s.goto id w) := by
    intro id j w hw
    rcases h with h | ⟨v, hv⟩ | ⟨v, result, hv⟩
    · exact Or.inl h
    · refine Or.inr (Or.inl ⟨v, ?_⟩)
      rw [goto_workers_ne _ _ _ (by rintro rfl; rw [hw] at hv; cases hv), hv]
    · refine Or.inr (Or.inr ⟨v, result, ?_⟩)
      rw [goto_workers_ne _ _ _ (by rintro rfl; rw [hw] at hv; cases hv), hv]
  cases hstep with
  | stopped id hw hc => exact h.of_other rfl (by simp) (by simp [hw, Worker.held])
  | proceed id hw hc => exact h.of_other rfl (by simp) (by simp [hw, Worker.held])
  | drained id hw hq => exact h.of_other rfl (by simp) (by simp [hw, Worker.held])
  | popped id j rest hw hq => exact h.of_other rfl (by simp) (by simp [hw, Worker.held])
  | dropped id j hw hc => exact hrecheck hw
  | started id j hw hc => exact hrecheck hw
  | returned id j result hw hi =>
    by_cases hj : j = job
    · exact Or.inr (Or.inr ⟨id, result, by rw [goto_workers_self, hj]⟩)
    · exact h.of_other rfl (by simp) (by simp [hw, Worker.held, hj])
  | unwound id j hw hi =>
    refine h.of_other rfl (by simp) ?_
    rw [hw]
    rintro heq
    exact hjob (Option.some.inj heq ▸ hi)
  | pushed id j result hw =>
    by_cases hj : j = job
    · left
      simp [hj]
    · refine h.of_other rfl ?_ (by simp [hw, Worker.held, hj])
      intro i hi
      simp only [goto_outcomes, List.map_append, List.mem_append]
      exact Or.inl hi
  | added id hw => exact h.of_other rfl (by simp) (by simp [hw, Worker.held])
  | loaded id completed w hw hnext => exact h.of_other rfl (by simp) (by simp [hw, Worker.held])
  | stored id pct hw => exact h.of_other rfl (by simp) (by simp [hw, Worker.held])
  | cancelled hc => exact h

/-- What becomes in flight by a step was in flight, or its inspection starts there. -/
theorem InFlight.before {inspection : Job P → Inspection ρ ε} {n : ℕ} {job : Job P}
    {s t : State P ρ ε n} {e : Event n} (hstep : Step inspection s e t) (h : InFlight job t) :
    InFlight job s ∨ ∃ id, t.workers id = .inspect job := by
  -- Only a return and a delivery put a path further, and both had it in flight before.
  have hback : ∀ {id : Fin n} {w : Worker P ρ ε}, t.workers = (s.goto id w).workers →
      t.outcomes = s.outcomes → (∀ result, w ≠ .pushOutcome job result) →
      InFlight job s ∨ ∃ id, t.workers id = .inspect job := by
    intro id w ht ho hw
    rcases h with h | h | ⟨v, result, hv⟩
    · exact Or.inl (Or.inl (ho ▸ h))
    · exact Or.inr h
    · left
      rw [ht] at hv
      rcases goto_workers_cases s id w v with ⟨-, hv'⟩ | ⟨-, hv'⟩
      · exact absurd (hv' ▸ hv) (hw result)
      · exact Or.inr (Or.inr ⟨v, result, hv' ▸ hv⟩)
  cases hstep with
  | stopped id hw hc => exact hback rfl rfl (by simp)
  | proceed id hw hc => exact hback rfl rfl (by simp)
  | drained id hw hq => exact hback rfl rfl (by simp)
  | popped id j rest hw hq => exact hback rfl rfl (by simp)
  | dropped id j hw hc => exact hback rfl rfl (by simp)
  | started id j hw hc => exact hback rfl rfl (by simp)
  | returned id j result hw hi =>
    by_cases hj : j = job
    · exact Or.inl (Or.inr (Or.inl ⟨id, hj ▸ hw⟩))
    · exact hback rfl rfl (by simp [hj])
  | unwound id j hw hi => exact hback rfl rfl (by simp)
  | pushed id j result hw =>
    by_cases hj : j = job
    · exact Or.inl (Or.inr (Or.inr ⟨id, result, hj ▸ hw⟩))
    · rcases h with h | h | ⟨v, result', hv⟩
      · simp only [goto_outcomes, List.map_append, List.map_cons, List.map_nil, List.mem_append,
          List.mem_singleton] at h
        rcases h with h | h
        · exact Or.inl (Or.inl h)
        · exact absurd h.symm hj
      · exact Or.inr h
      · left
        rcases goto_workers_cases { s with outcomes := s.outcomes ++ [(j, result)] } id .fetchAdd v
          with ⟨-, hv'⟩ | ⟨-, hv'⟩
        · rw [hv'] at hv
          cases hv
        · exact Or.inr (Or.inr ⟨v, result', hv' ▸ hv⟩)
  | added id hw => exact hback rfl rfl (by simp)
  | loaded id completed w hw hnext =>
    refine hback rfl rfl ?_
    rcases hnext with rfl | ⟨pct, rfl⟩ <;> simp
  | stored id pct hw => exact hback rfl rfl (by simp)
  | cancelled hc => exact Or.inl h

/-- What is in flight at the end of a run was started in it. -/
theorem run_started {inspection : Job P → Inspection ρ ε} {n : ℕ} {s₀ : State P ρ ε n}
    (h0 : ∀ job, ¬ InFlight job s₀) {es : List (Event n)} {s : State P ρ ε n}
    (h : run (step inspection) es s₀ = some s) (job : Job P) (hjob : InFlight job s) :
    Started inspection s₀ es job := by
  refine run_induction (P := fun es s => InFlight job s → Started inspection s₀ es job)
    (fun hf => absurd hf (h0 job)) ?_ h hjob
  intro es e s t hrun ih hstep hf
  have hrun' : run (step inspection) (es ++ [e]) s₀ = some t :=
    (run_snoc_iff es e s₀ t).mpr ⟨s, hrun, hstep⟩
  rcases InFlight.before (Step.of_step hstep) hf with hf | ⟨id, hid⟩
  · obtain ⟨u, hu, hid⟩ := ih hf
    exact ⟨u, hu.snoc e, hid⟩
  · exact ⟨t, Passes.last hrun', id, hid⟩

/-- Once every thread has ended, what is in flight is delivered. -/
theorem InFlight.delivered {n : ℕ} {job : Job P} {s : State P ρ ε n} (hdone : s.Finished)
    (h : InFlight job s) : job ∈ s.outcomes.map Prod.fst := by
  rcases h with h | ⟨id, hid⟩ | ⟨id, result, hid⟩
  · exact h
  · have := hdone id
    rw [hid] at this
    cases this
  · have := hdone id
    rw [hid] at this
    cases this

/-- The paths whose inspection was started are those delivered, when no inspection panics. -/
theorem started_iff_delivered {inspection : Job P → Inspection ρ ε}
    (hpanic : ∀ job, inspection job ≠ .panics) {n : ℕ} {s₀ : State P ρ ε n}
    (h0 : ∀ job, ¬ InFlight job s₀) {es : List (Event n)} {s : State P ρ ε n}
    (h : run (step inspection) es s₀ = some s) (hdone : s.Finished) (job : Job P) :
    Started inspection s₀ es job ↔ job ∈ s.outcomes.map Prod.fst := by
  constructor
  · rintro ⟨u, hu, id, hid⟩
    refine InFlight.delivered hdone (hu.forward h ?_ (Or.inr (Or.inl ⟨id, hid⟩)))
    intro e s t hs ht
    exact hs.step (hpanic job) (Step.of_step ht)
  · intro hjob
    exact run_started h0 h job (Or.inl hjob)

/-! ## Without cancellation -/

/-- While the token is not set, a worker leaves its loop only when the queue is empty, and with
empty hands. -/
theorem uncancelled_exit {inspection : Job P → Inspection ρ ε} {n : ℕ} {s₀ : State P ρ ε n}
    (hc : s₀.cancel = false) (h0 : ∀ id dropped, s₀.workers id ≠ .exited dropped)
    {es : List (Event n)} (hes : Event.cancel ∉ es) {s : State P ρ ε n}
    (h : run (step inspection) es s₀ = some s) :
    s.cancel = false ∧ ∀ id dropped, s.workers id = .exited dropped → dropped = none ∧ s.queue = [] := by
  refine run_induction (P := fun es s => Event.cancel ∉ es → s.cancel = false ∧
    ∀ id dropped, s.workers id = .exited dropped → dropped = none ∧ s.queue = []) ?_ ?_ h hes
  · exact fun _ => ⟨hc, fun id dropped hid => absurd hid (h0 id dropped)⟩
  · intro es e s t _ ih hstep hes
    obtain ⟨hcs, hex⟩ := ih (fun hmem => hes (by simp [hmem]))
    -- A worker that does not exit in this step had exited before it, on an empty queue.
    have hkeep : ∀ {id : Fin n} {w : Worker P ρ ε}, t.workers = (s.goto id w).workers →
        t.cancel = s.cancel → (s.queue = [] → t.queue = []) → (∀ dropped, w ≠ .exited dropped) →
        t.cancel = false ∧ ∀ id dropped, t.workers id = .exited dropped →
          dropped = none ∧ t.queue = [] := by
      intro id w ht hcancel hqueue hw
      refine ⟨by rw [hcancel, hcs], fun v dropped hv => ?_⟩
      rw [ht] at hv
      rcases goto_workers_cases s id w v with ⟨-, hv'⟩ | ⟨-, hv'⟩
      · exact absurd (hv' ▸ hv) (hw dropped)
      · obtain ⟨hd, hq⟩ := hex v dropped (hv' ▸ hv)
        exact ⟨hd, hqueue hq⟩
    cases Step.of_step hstep with
    | stopped id hw hc => rw [hcs] at hc; cases hc
    | proceed id hw hc => exact hkeep rfl rfl (fun h => h) (by simp)
    | drained id hw hq =>
      refine ⟨hcs, fun v dropped hv => ?_⟩
      rcases goto_workers_cases s id (.exited none) v with ⟨-, hv'⟩ | ⟨-, hv'⟩
      · rw [hv'] at hv
        exact ⟨(Worker.exited.inj hv).symm, hq⟩
      · exact hex v dropped (hv' ▸ hv)
    | popped id j rest hw hq => exact hkeep rfl rfl (by simp [hq]) (by simp)
    | dropped id j hw hc => rw [hcs] at hc; cases hc
    | started id j hw hc => exact hkeep rfl rfl (fun h => h) (by simp)
    | returned id j result hw hi => exact hkeep rfl rfl (fun h => h) (by simp)
    | unwound id j hw hi => exact hkeep rfl rfl (fun h => h) (by simp)
    | pushed id j result hw => exact hkeep rfl rfl (fun h => h) (by simp)
    | added id hw => exact hkeep rfl rfl (fun h => h) (by simp)
    | loaded id completed w hw hnext =>
      refine hkeep rfl rfl (fun h => h) ?_
      rcases hnext with rfl | ⟨pct, rfl⟩ <;> simp
    | stored id pct hw => exact hkeep rfl rfl (fun h => h) (by simp)
    | cancelled hc => exact absurd (by simp) hes

/-- Once every thread has ended and dropped nothing, every path that was taken is delivered, unless
it is in the hands of a worker that was unwound. -/
theorem taken_delivered {inspection : Job P → Inspection ρ ε} {paths : List P} {n : ℕ}
    {taken : List (Job P)} {s : State P ρ ε n} (hinv : Inv inspection paths taken s)
    (hdone : s.Finished) (hex : ∀ id dropped, s.workers id = .exited dropped → dropped = none)
    {job : Job P} (htaken : job ∈ taken) :
    job ∈ s.outcomes.map Prod.fst ∨ inspection job = .panics := by
  rcases hinv.accounted.taken_placed job htaken with ⟨id, hid⟩ | hfin
  · have hd := hdone id
    cases hw : s.workers id with
    | exited dropped =>
      simp only [hw, Worker.held, hex id dropped hw] at hid
      cases hid
    | unwound j =>
      simp only [hw, Worker.held] at hid
      exact Or.inr (Option.some.inj hid ▸ hinv.unwound_panics id j hw)
    | _ => rw [hw] at hd; cases hd
  · exact Or.inl hfin

/-- On an empty queue, that is every path. -/
theorem uncancelled_delivered {inspection : Job P → Inspection ρ ε} {paths : List P} {n : ℕ}
    {taken : List (Job P)} {s : State P ρ ε n} (hinv : Inv inspection paths taken s)
    (hdone : s.Finished) (hq : s.queue = [])
    (hex : ∀ id dropped, s.workers id = .exited dropped → dropped = none) {job : Job P}
    (hjob : job ∈ enumerate paths) :
    job ∈ s.outcomes.map Prod.fst ∨ inspection job = .panics := by
  have hsplit := hinv.accounted.split
  rw [hq, List.append_nil] at hsplit
  exact taken_delivered hinv hdone hex (hsplit ▸ hjob)

/-- At the end no worker owes an increment, so the counter is the number of outcomes. -/
theorem completed_of_finished {inspection : Job P → Inspection ρ ε} {paths : List P} {n : ℕ}
    {taken : List (Job P)} {s : State P ρ ε n} (hinv : Inv inspection paths taken s)
    (hdone : s.Finished) : s.progress.completedTasks = s.outcomes.length := by
  have howes : ∑ id, (s.workers id).owes = 0 := by
    refine Finset.sum_eq_zero fun id _ => ?_
    have := hdone id
    cases hw : s.workers id <;> simp_all [Worker.owes, Worker.done]
  have hcomp := hinv.completed
  omega

/-- Without cancellation and panics, every path is delivered: a worker has left because the queue
was empty. -/
theorem uncancelled_all {result : Job P → Except ε ρ} {paths : List P} {n : ℕ}
    {taken : List (Job P)} {s : State P ρ ε n}
    (hinv : Inv (fun job => .returns (result job)) paths taken s) (hdone : s.Finished) (hn : 0 < n)
    (hex : ∀ id dropped, s.workers id = .exited dropped → dropped = none ∧ s.queue = [])
    {job : Job P} (hjob : job ∈ enumerate paths) : job ∈ s.outcomes.map Prod.fst := by
  have hq : s.queue = [] := by
    cases hw : s.workers ⟨0, hn⟩ with
    | exited dropped => exact (hex _ dropped hw).2
    | unwound j =>
      have := hinv.unwound_panics _ j hw
      cases this
    | _ =>
      have := hdone ⟨0, hn⟩
      rw [hw] at this
      cases this
  rcases uncancelled_delivered hinv hdone hq (fun id d hd => (hex id d hd).1) hjob with h | h
  · exact h
  · cases h

/-! ## The result of a batch -/

/-- What the inspection of a path returns, if it does. -/
def Inspection.result? : Inspection ρ ε → Option (Except ε ρ)
  | returns result => some result
  | panics => none

/-- The result of a batch: the delivered paths in the order of the input, each with what its
inspection returned. -/
theorem batchResult_eq {inspection : Job P → Inspection ρ ε} {paths : List P} {n : ℕ}
    {taken : List (Job P)} {s : State P ρ ε n} (hinv : Inv inspection paths taken s)
    [DecidableEq (Job P)] :
    s.batchResult =
      collect (inOrder (enumerate paths) (fun job => (inspection job).result?) s.outcomes) := by
  rw [State.batchResult, insertionSort_finished (enumerate_pairwise paths)
    (fun job => (inspection job).result?) ?_ hinv.accounted.finished_nodup ?_]
  · exact fun _ => hinv.accounted.mem_of_finished
  · intro p hp
    simp only [hinv.outcome_returned p hp, Inspection.result?]

/-- Nothing is in flight when the workers are spawned. -/
theorem not_inFlight_start (progress : InspectionProgress) (cancel : Bool) (paths : List P)
    (maxWorkers : ℕ) (job : Job P) :
    ¬ InFlight job (start (ρ := ρ) (ε := ε) progress cancel paths maxWorkers) := by
  simp [InFlight, start]

/-- `inspect_batch` on `paths`, at the end of any run: the paths whose inspection was started are a
part of the input in its order, each of them is exactly once in the reports or, with its own path,
in the errors, `completed_tasks` is their number, and without cancellation that is all of the
input. -/
theorem inspect_batch_outcomes (progress : InspectionProgress) (cancel : Bool) (paths : List P)
    (maxWorkers : ℕ) (result : Job P → Except ε ρ)
    (es : List (Event (workerCount maxWorkers paths.length)))
    (s : State P ρ ε (workerCount maxWorkers paths.length))
    (hrun : run (step (fun job => .returns (result job))) es
      (start progress cancel paths maxWorkers) = some s)
    (hdone : s.Finished) :
    ∃ started : List (Job P), started.Sublist (enumerate paths) ∧
      (∀ job, job ∈ started ↔ Started (fun job => .returns (result job))
        (start progress cancel paths maxWorkers) es job) ∧
      s.batchResult.reports = started.filterMap (fun job => (result job).toOption) ∧
      s.batchResult.errors = started.filterMap (fun job => errorEntry job (result job)) ∧
      s.progress.completedTasks = s.batchResult.reports.length + s.batchResult.errors.length ∧
      (cancel = false → Event.cancel ∉ es →
        s.batchResult.reports.length + s.batchResult.errors.length = paths.length) := by
  have : DecidableEq (Job P) := Classical.decEq _
  obtain ⟨taken, hinv⟩ := run_inv hrun
  -- What was started is what was delivered, since no inspection panics.
  have hstarted := started_iff_delivered (by simp)
    (not_inFlight_start progress cancel paths maxWorkers) hrun hdone
  have heq := batchResult_eq hinv
  simp only [inOrder, Inspection.result?, Option.map_some] at heq
  -- Every outcome is that of a path of the input.
  have hin : ∀ job ∈ s.outcomes.map Prod.fst, job ∈ enumerate paths := fun _ =>
    hinv.accounted.mem_of_finished
  refine ⟨(enumerate paths).filter (· ∈ s.outcomes.map Prod.fst), List.filter_sublist, ?_, ?_, ?_,
    ?_, ?_⟩
  · intro job
    rw [hstarted job, List.mem_filter, decide_eq_true_eq]
    exact ⟨And.right, fun h => ⟨hin job h, h⟩⟩
  · simp only [heq, collect_eq, List.filterMap_filterMap, Option.bind_some]
  · simp only [heq, collect_eq, List.filterMap_filterMap, Option.bind_some]
  · rw [batchResult_length, completed_of_finished hinv hdone]
  · intro hcancel hes
    obtain ⟨-, hex⟩ := uncancelled_exit (by exact hcancel) (by simp [start]) hes hrun
    have hall : ∀ job ∈ enumerate paths, job ∈ s.outcomes.map Prod.fst := by
      intro job hjob
      have hlen := List.length_pos_of_mem hjob
      rw [enumerate_length] at hlen
      exact uncancelled_all hinv hdone (workerCount_pos maxWorkers hlen) hex hjob
    rw [batchResult_length, ← List.length_map (f := Prod.fst)]
    have hperm : (s.outcomes.map Prod.fst).Perm (enumerate paths) :=
      (List.perm_ext_iff_of_nodup hinv.accounted.finished_nodup (enumerate_nodup paths)).mpr
        fun job => ⟨hin job, hall job⟩
    rw [hperm.length_eq, enumerate_length]

/-- An inspection of numbered images that fails on odd numbers. -/
def sampleResult (job : Job ℕ) : Except String ℕ :=
  if job.2 % 2 = 0 then .ok (job.2 * 10) else .error "odd"

/-- One worker, run to its end over two images, delivers both. -/
theorem inspect_batch_outcomes_two :
    ∃ s, run (step (fun job => .returns (sampleResult job)))
        (List.replicate 18 (.worker ⟨0, by decide⟩)) (start .new false [4, 5] 1) = some s ∧
      s.Finished ∧ s.batchResult = ⟨[40], [⟨5, "odd"⟩]⟩ ∧
      s.batchResult.reports.length + s.batchResult.errors.length = 2 := by
  have h : (run (step (fun job => .returns (sampleResult job)))
      (List.replicate 18 (.worker ⟨0, by decide⟩)) (start .new false [4, 5] 1)).map
        (fun s => (decide s.Finished, s.batchResult)) =
      some (true, ⟨[40], [⟨5, "odd"⟩]⟩) := by decide
  obtain ⟨s, hs, hf⟩ := Option.map_eq_some_iff.mp h
  obtain ⟨hdone, hres⟩ := Prod.mk.inj hf
  obtain ⟨started, -, -, -, -, -, hsum⟩ := inspect_batch_outcomes .new false [4, 5] 1 sampleResult _ s
    hs (of_decide_eq_true hdone)
  exact ⟨s, hs, of_decide_eq_true hdone, hres, hsum rfl (by simp)⟩

end VmSpect.Batch
