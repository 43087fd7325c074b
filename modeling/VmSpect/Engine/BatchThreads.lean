import VmSpect.Lib.ForkJoin
import VmSpect.Engine.BatchPanic

/-!
# The threads of `inspect_batch`

The thread that calls `inspect_batch` of `src/engine/mod.rs` spawns the workers one after another,
while the first of them are already at work. When a thread cannot be spawned, it joins the ones it
has and returns the error of the spawn. This is `ForkJoin` over the pool of `Batch`, with the policy
to give up.

Every run of the call is bounded, none of its states is a deadlock, and it leaves no thread behind
(`inspect_batch_returns`). The workers that were spawned empty the queue all the same when a later
spawn fails, so that the call returns an error after all images were inspected
(`inspect_batch_spawn`).
-/

namespace VmSpect.Batch

open Interleaving WorkQueue

variable {P ρ ε : Type}

/-! ## The pool -/

/-- A step moves the worker that takes it. -/
theorem Step.workers_eq {inspection : Job P → Inspection ρ ε} {n : ℕ} {s t : State P ρ ε n}
    {e : Event n} (h : Step inspection s e t) {v : Fin n} (hv : e ≠ .worker v) :
    t.workers v = s.workers v := by
  have hgoto : ∀ {id : Fin n} (w : Worker P ρ ε), Event.worker id ≠ .worker v →
      (s.goto id w).workers v = s.workers v := by
    intro id w hne
    exact goto_workers_ne s id w fun heq => hne (congrArg _ heq.symm)
  cases h with
  | cancelled hc => rfl
  | _ => exact hgoto _ hv

/-- A worker can move exactly until its thread has ended. -/
theorem done_iff (inspection : Job P → Inspection ρ ε) {n : ℕ} (s : State P ρ ε n) (id : Fin n) :
    (s.workers id).done = true ↔ workerStep inspection s id = none := by
  refine ⟨fun hd => ?_, workerStep_none⟩
  unfold workerStep
  cases hw : s.workers id with
  | exited dropped => rfl
  | unwound job => rfl
  | _ => rw [hw] at hd; cases hd

/-- The pool of the workers. -/
def pool (inspection : Job P → Inspection ρ ε) (n : ℕ) :
    ForkJoin.Pool (State P ρ ε n) (Event n) (Worker P ρ ε) n where
  step := step inspection
  event := .worker
  actor
    | .worker id => some id
    | .cancel => none
  worker s := s.workers
  done := Worker.done
  actor_iff e id := by cases e <;> simp
  frame e s t id h hactor :=
    (Step.of_step h).workers_eq fun heq => hactor (by rw [heq])
  done_iff := done_iff inspection

/-- What the call returns past its joins: the error of the spawn that failed, or else the outcomes
sorted and split. -/
def returned {δ : Type} (spawnError : δ) {n : ℕ} (s : ForkJoin.State (State P ρ ε n) n) :
    Except δ (BatchResult P ρ ε) :=
  if s.failed then .error spawnError else .ok s.pool.batchResult

/-! ## The workers that were spawned -/

/-- The state with the workers `g` only. -/
def State.restrict {n k : ℕ} (s : State P ρ ε n) (g : Fin k → Fin n) : State P ρ ε k :=
  ⟨s.queue, s.outcomes, s.progress, s.cancel, s.workers ∘ g⟩

/-- The invariant does not mind workers that were not spawned. -/
theorem Inv.restrict {inspection : Job P → Inspection ρ ε} {paths : List P} {n k : ℕ}
    {taken : List (Job P)} {s : State P ρ ε n} (h : Inv inspection paths taken s)
    {g : Fin k → Fin n} (hg : Function.Injective g)
    (hout : ∀ id, id ∉ Set.range g → s.workers id = .checkToken) :
    Inv inspection paths taken (s.restrict g) where
  accounted := h.accounted.restrict hg fun id hid => by rw [hout id hid]; rfl
  outcome_returned := h.outcome_returned
  push_returned v := h.push_returned (g v)
  unwound_panics v := h.unwound_panics (g v)
  completed := by
    have hsum : ∑ v, ((s.restrict g).workers v).owes = ∑ id, (s.workers id).owes :=
      Fintype.sum_of_injective g hg _ _ (fun id hid => by rw [hout id hid]; rfl) (fun v => rfl)
    rw [hsum]
    exact h.completed

variable {inspection : Job P → Inspection ρ ε} {progress : InspectionProgress} {cancel : Bool}
  {paths : List P} {maxWorkers : ℕ}
  {es : List (ForkJoin.Event (Event (workerCount maxWorkers paths.length)))}
  {s : ForkJoin.State (State P ρ ε (workerCount maxWorkers paths.length))
    (workerCount maxWorkers paths.length)}

/-- A worker that was not spawned has never looked at the token. -/
theorem unspawned (h : run (ForkJoin.step (pool inspection _) .giveUp) es
      (ForkJoin.start (start progress cancel paths maxWorkers)) = some s) {id}
    (hid : id ∉ s.handles) : s.pool.workers id = .checkToken :=
  ForkJoin.run_unstarted h hid

/-- Past the joins, the workers that were spawned have all ended, and their accounts hold. -/
theorem spawned_inv (h : run (ForkJoin.step (pool inspection _) .giveUp) es
      (ForkJoin.start (start progress cancel paths maxWorkers)) = some s) (hr : s.Returned) :
    (∃ taken, Inv inspection paths taken (s.pool.restrict s.handles.get)) ∧
      (s.pool.restrict s.handles.get).Finished := by
  have hinv := ForkJoin.run_inv h
  obtain ⟨taken, hpool⟩ := run_inv (ForkJoin.run_pool h)
  refine ⟨⟨taken, hpool.restrict (List.nodup_iff_injective_get.mp hinv.nodup) ?_⟩, ?_⟩
  · intro id hid
    refine unspawned h fun hmem => hid ?_
    obtain ⟨v, hv⟩ := List.get_of_mem hmem
    exact ⟨v, hv⟩
  · exact fun v => hinv.ended hr _ (List.get_mem s.handles v)

/-! ## The end of the call -/

/-- The measure of a state with the token counted in. -/
def State.measureWithToken {n : ℕ} (s : State P ρ ε n) : ℕ :=
  s.measure + if s.cancel then 0 else 1

/-- Every step decreases it. -/
theorem measureWithToken_lt {n : ℕ} {e : Event n} {s t : State P ρ ε n}
    (h : step inspection e s = some t) : t.measureWithToken < s.measureWithToken := by
  have hstep := Step.of_step h
  cases e with
  | worker id =>
    have hlt := hstep.measure_lt
    have hcancel : t.cancel = s.cancel := by cases hstep <;> rfl
    unfold State.measureWithToken
    rw [hcancel]
    omega
  | cancel =>
    cases hstep with
    | cancelled hc =>
      have hmeasure : ({ s with cancel := true } : State P ρ ε n).measure = s.measure := rfl
      unfold State.measureWithToken
      rw [hmeasure, hc]
      simp

/-- Every run of a call of `inspect_batch` is bounded: ten steps for each path, four for each
worker, and two more. In each of its states the calling thread or a worker that it has spawned can
take a step, unless it has returned. When it has returned, every thread that it has spawned has
ended, and `completed_tasks` is the number of outcomes. -/
theorem inspect_batch_returns (h : run (ForkJoin.step (pool inspection _) .giveUp) es
      (ForkJoin.start (start progress cancel paths maxWorkers)) = some s) :
    es.length ≤ 10 * paths.length + 4 * workerCount maxWorkers paths.length + 2 ∧
      (¬ s.Returned → ∃ e, e ≠ .pool .cancel ∧
        ∃ t, ForkJoin.step (pool inspection _) .giveUp e s = some t) ∧
      (s.Returned → (∀ id ∈ s.handles, (s.pool.workers id).done = true) ∧
        (∀ id, id ∉ s.handles → s.pool.workers id = .checkToken) ∧
        s.pool.progress.completedTasks = s.pool.outcomes.length) := by
  have hinv := ForkJoin.run_inv h
  refine ⟨?_, fun hr => ?_, fun hr => ⟨hinv.ended hr, fun id hid => unspawned h hid, ?_⟩⟩
  · have hlen := ForkJoin.run_length_le State.measureWithToken
      (fun _ _ _ hstep => measureWithToken_lt hstep) h
    have hstart : (start (ρ := ρ) (ε := ε) progress cancel paths maxWorkers).measureWithToken ≤
        10 * paths.length + 2 * workerCount maxWorkers paths.length + 1 := by
      have hsum : ∑ id, ((start (ρ := ρ) (ε := ε) progress cancel paths maxWorkers).workers
          id).rank = 2 * workerCount maxWorkers paths.length := by
        simp [start, Worker.rank, mul_comm]
      have htoken : (if (start (ρ := ρ) (ε := ε) progress cancel paths maxWorkers).cancel
          then 0 else 1) ≤ 1 := by split <;> omega
      have hqueue : (start (ρ := ρ) (ε := ε) progress cancel paths maxWorkers).queue.length =
          paths.length := enumerate_length paths
      unfold State.measureWithToken State.measure
      omega
    omega
  · rcases hinv.progress hr with ⟨t, ht⟩ | ⟨t, ht⟩ | ⟨id, -, t, ht⟩
    · exact ⟨.spawn true, by simp, t, ht⟩
    · exact ⟨.join, by simp, t, ht⟩
    · exact ⟨.pool (.worker id), by simp, t, ht⟩
  · obtain ⟨⟨taken, hacc⟩, hdone⟩ := spawned_inv h hr
    have hcompleted := completed_of_finished hacc hdone
    exact hcompleted

/-- A call can be brought to its end with every thread spawned and without the token being set. -/
theorem exists_returned (inspection : Job P → Inspection ρ ε) (progress : InspectionProgress)
    (cancel : Bool) (paths : List P) (maxWorkers : ℕ) :
    ∃ es s, run (ForkJoin.step (pool inspection _) .giveUp) es
        (ForkJoin.start (start progress cancel paths maxWorkers)) = some s ∧
      s.Returned ∧ .spawn false ∉ es ∧ .pool .cancel ∉ es := by
  have hdecr : ∀ (id : Fin (workerCount maxWorkers paths.length)) (s t : State P ρ ε _),
      step inspection (.worker id) s = some t → t.measure < s.measure :=
    fun id s t hstep => (Step.of_step hstep).measure_lt
  obtain ⟨es, s, hrun, hr, hspawn, hworker⟩ := ForkJoin.exists_returned (pool inspection _) .giveUp
    State.measure hdecr (start progress cancel paths maxWorkers)
  refine ⟨es, s, hrun, hr, hspawn, fun hmem => ?_⟩
  obtain ⟨id, hid⟩ := hworker _ hmem
  cases hid

/-- Two images and two workers: the second thread cannot be spawned, and the first one inspects
both images. -/
def spawnSchedule : List (ForkJoin.Event (Event (workerCount 2 [6, 7].length))) :=
  [.spawn true, .spawn false] ++ List.replicate 18 (.pool (.worker ⟨0, by decide⟩)) ++ [.join]

/-- Where this schedule leads. -/
theorem spawnSchedule_run :
    ∃ s, run (ForkJoin.step (pool (fun job => .returns (sampleResult job)) _) .giveUp)
        spawnSchedule (ForkJoin.start (start .new false [6, 7] 2)) = some s ∧
      s.Returned ∧ s.failed = true ∧ s.handles ≠ [] := by
  have h : (run (ForkJoin.step (pool (fun job => .returns (sampleResult job)) _) .giveUp)
      spawnSchedule (ForkJoin.start (start .new false [6, 7] 2))).map
        (fun s => (decide s.Returned, s.failed, s.handles.length)) = some (true, true, 1) := by
    decide
  obtain ⟨s, hs, hf⟩ := Option.map_eq_some_iff.mp h
  obtain ⟨hr, hrest⟩ := Prod.mk.inj hf
  obtain ⟨hfailed, hlen⟩ := Prod.mk.inj hrest
  refine ⟨s, hs, of_decide_eq_true hr, hfailed, fun hnone => ?_⟩
  rw [hnone] at hlen
  cases hlen

/-- The schedule is within the bound, and the call has returned. -/
theorem inspect_batch_returns_two :
    ∃ s, run (ForkJoin.step (pool (fun job => .returns (sampleResult job)) _) .giveUp)
        spawnSchedule (ForkJoin.start (start .new false [6, 7] 2)) = some s ∧
      spawnSchedule.length ≤ 30 ∧ s.pool.progress.completedTasks = s.pool.outcomes.length := by
  obtain ⟨s, hs, hr, -⟩ := spawnSchedule_run
  obtain ⟨hlen, -, hreturned⟩ := inspect_batch_returns hs
  exact ⟨s, hs, hlen, (hreturned hr).2.2⟩

/-! ## A thread that cannot be spawned -/

/-- When no thread was spawned, nothing has happened. -/
theorem pool_eq_start (h : run (ForkJoin.step (pool inspection _) .giveUp) es
      (ForkJoin.start (start progress cancel paths maxWorkers)) = some s)
    (hes : .pool .cancel ∉ es) (hnone : s.handles = []) :
    s.pool = start progress cancel paths maxWorkers := by
  refine ForkJoin.run_idle h hnone fun e he => ?_
  cases e with
  | cancel => exact absurd he hes
  | worker id => exact ⟨id, rfl⟩

section Spawn

variable {result : Job P → Except ε ρ}

/-- Without cancellation, a single worker that was spawned is enough for every path to be
inspected. -/
theorem spawned_delivered (h : run (ForkJoin.step (pool (fun job => .returns (result job)) _)
      .giveUp) es (ForkJoin.start (start progress false paths maxWorkers)) = some s)
    (hr : s.Returned) (hes : .pool .cancel ∉ es) (hne : s.handles ≠ []) {job : Job P}
    (hjob : job ∈ enumerate paths) : job ∈ s.pool.outcomes.map Prod.fst := by
  obtain ⟨⟨taken, hacc⟩, hdone⟩ := spawned_inv h hr
  obtain ⟨-, hex⟩ := uncancelled_exit rfl (by simp [start]) (fun he => hes (ForkJoin.mem_pool?.mp he))
    (ForkJoin.run_pool h)
  have hall := uncancelled_all hacc hdone (List.length_pos_iff.mpr hne)
    (fun v dropped hv => hex (s.handles.get v) dropped hv) hjob
  exact hall

/-- What such a call returns. -/
theorem returned_eq {δ : Type} (spawnError : δ)
    (h : run (ForkJoin.step (pool (fun job => .returns (result job)) _) .giveUp) es
      (ForkJoin.start (start progress false paths maxWorkers)) = some s)
    (hr : s.Returned) (hes : .pool .cancel ∉ es) :
    returned spawnError s = if s.failed then .error spawnError
      else .ok (collect ((enumerate paths).map fun job => (job, result job))) := by
  have : DecidableEq (Job P) := Classical.decEq _
  obtain ⟨⟨taken, hacc⟩, -⟩ := spawned_inv h hr
  unfold returned
  split
  · rfl
  · -- Every worker was spawned, and there is one when there is a path.
    have hall : ∀ job ∈ enumerate paths, job ∈ s.pool.outcomes.map Prod.fst := by
      intro job hjob
      have hlen := List.length_pos_of_mem hjob
      rw [enumerate_length] at hlen
      have hfirst := (ForkJoin.run_inv h).all_started hr (Bool.not_eq_true _ ▸ ‹_›)
        ⟨0, workerCount_pos maxWorkers hlen⟩
      exact spawned_delivered h hr hes (List.ne_nil_of_mem hfirst) hjob
    have hresult : s.pool.batchResult = collect (inOrder (enumerate paths)
        (fun job => some (result job)) s.pool.outcomes) := batchResult_eq hacc
    rw [hresult, inOrder_of_complete fun job hjob => Or.inl (hall job hjob)]
    simp only [Option.map_some, List.filterMap_eq_map']

/-- A call that is not cancelled, when the spawn of any thread may fail. As soon as one worker was
spawned, every path is inspected exactly once. The results of these inspections are returned in the
order of the input if no spawn failed, and otherwise none of them is: the call returns the error of
the spawn. -/
theorem inspect_batch_spawn {δ : Type} (spawnError : δ)
    (h : run (ForkJoin.step (pool (fun job => .returns (result job)) _) .giveUp) es
      (ForkJoin.start (start progress false paths maxWorkers)) = some s)
    (hr : s.Returned) (hes : .pool .cancel ∉ es) :
    (s.pool.outcomes.map Prod.fst).Perm (if s.handles = [] then [] else enumerate paths) ∧
      returned spawnError s = if s.failed then .error spawnError
        else .ok (collect ((enumerate paths).map fun job => (job, result job))) := by
  refine ⟨?_, returned_eq spawnError h hr hes⟩
  obtain ⟨⟨taken, hacc⟩, -⟩ := spawned_inv h hr
  have hin : ∀ job ∈ s.pool.outcomes.map Prod.fst, job ∈ enumerate paths := fun _ =>
    hacc.accounted.mem_of_finished
  have hnodup : (s.pool.outcomes.map Prod.fst).Nodup := hacc.accounted.finished_nodup
  split
  · rw [pool_eq_start h hes ‹_›]
    exact List.Perm.nil
  · exact (List.perm_ext_iff_of_nodup hnodup (enumerate_nodup paths)).mpr fun job =>
      ⟨hin job, spawned_delivered h hr hes ‹_›⟩

end Spawn

/-- In the schedule with a failed spawn, both images are inspected, and the call returns an error. -/
theorem inspect_batch_spawn_two :
    ∃ s, run (ForkJoin.step (pool (fun job => .returns (sampleResult job)) _) .giveUp)
        spawnSchedule (ForkJoin.start (start .new false [6, 7] 2)) = some s ∧
      (s.pool.outcomes.map Prod.fst).Perm [(0, 6), (1, 7)] ∧
      returned "no more threads" s = .error "no more threads" := by
  obtain ⟨s, hs, hr, hfailed, hne⟩ := spawnSchedule_run
  have hes : .pool .cancel ∉ spawnSchedule := by simp [spawnSchedule]
  obtain ⟨hperm, hreturned⟩ := inspect_batch_spawn "no more threads" hs hr hes
  rw [if_neg hne] at hperm
  rw [if_pos hfailed] at hreturned
  exact ⟨s, hs, hperm, hreturned⟩

end VmSpect.Batch
