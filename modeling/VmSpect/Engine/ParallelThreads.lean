import VmSpect.Lib.ForkJoin
import VmSpect.Engine.ParallelOutcomes

/-!
# The threads of `process_in_parallel`

The thread that calls `process_in_parallel` of `src/engine/mod.rs` spawns the workers one after
another, and does without those that cannot be spawned: only the handles of the others are joined.
This is `ForkJoin` over the pool of `Parallel`, with the policy to skip.

Every run of the call is bounded and leaves no thread behind (`process_in_parallel_returns`). One
worker that was spawned is as good as all of them. When none was, the call returns an empty list as
if there had been no items, whatever the closure answers (`process_in_parallel_spawn`).
-/

namespace VmSpect.Parallel

open Interleaving WorkQueue

variable {T R : Type}

/-! ## The pool -/

/-- A step moves the worker that takes it. -/
theorem Step.workers_eq {f : Job T → Except VmSpectError R} {n : ℕ} {s t : State T R n}
    {e : Event n} (h : Step f s e t) {v : Fin n} (hv : e ≠ .worker v) :
    t.workers v = s.workers v := by
  have hgoto : ∀ {id : Fin n} (w : Worker T R), Event.worker id ≠ .worker v →
      (s.goto id w).workers v = s.workers v := by
    intro id w hne
    exact goto_workers_ne s id w fun heq => hne (congrArg _ heq.symm)
  cases h with
  | cancelled hc => rfl
  | _ => exact hgoto _ hv

/-- A worker can move exactly until its thread has ended. -/
theorem done_iff (f : Job T → Except VmSpectError R) {n : ℕ} (s : State T R n) (id : Fin n) :
    (s.workers id).done = true ↔ workerStep f s id = none := by
  unfold workerStep
  cases hw : s.workers id with
  | popFront => cases s.queue <;> simp [Worker.done]
  | apply job => cases hf : f job <;> simp [Worker.done, hf]
  | _ => simp [Worker.done]

/-- The pool of the workers. -/
def pool (f : Job T → Except VmSpectError R) (n : ℕ) :
    ForkJoin.Pool (State T R n) (Event n) (Worker T R) n where
  step := step f
  event := .worker
  actor
    | .worker id => some id
    | .cancel => none
  worker s := s.workers
  done := Worker.done
  actor_iff e id := by cases e <;> simp
  frame e s t id h hactor :=
    (Step.of_step h).workers_eq fun heq => hactor (by rw [heq])
  done_iff := done_iff f

/-! ## Every run comes to an end -/

/-- How many steps a worker has before its next look at the queue. -/
def Worker.rank : Worker T R → ℕ
  | recheckToken _ => 5
  | apply _ => 4
  | pushResult _ _ => 3
  | checkToken => 2
  | popFront => 1
  | storeError _ _ => 1
  | exited _ => 0

/-- The measure of a state: a queued item is worth a turn of the loop, and the token can be set
once. -/
def State.measure {n : ℕ} (s : State T R n) : ℕ :=
  5 * s.queue.length + ∑ id, (s.workers id).rank + if s.cancelToken = some false then 1 else 0

/-- Every step decreases the measure. -/
theorem Step.measure_lt {f : Job T → Except VmSpectError R} {n : ℕ} {s t : State T R n}
    {e : Event n} (h : Step f s e t) : t.measure < s.measure := by
  -- Only the rank of the moved worker changes, so it is enough to compare that and the queue.
  have hrank : ∀ {id : Fin n} {w : Worker T R}, t.workers = (s.goto id w).workers →
      t.cancelToken = s.cancelToken →
      5 * t.queue.length + w.rank < 5 * s.queue.length + (s.workers id).rank →
      t.measure < s.measure := by
    intro id w ht htoken hlt
    have hsum := sum_update_add Worker.rank s.workers id w
    simp only [State.measure, ht, State.goto, htoken]
    omega
  cases h with
  | stopped id hw hc => exact hrank rfl rfl (by simp [hw, Worker.rank])
  | proceed id hw hc => exact hrank rfl rfl (by simp [hw, Worker.rank])
  | drained id hw hq => exact hrank rfl rfl (by simp [hw, Worker.rank])
  -- A turn of the loop climbs up by less than the popped item was worth.
  | popped id job rest hw hq =>
    have hlt : 5 * rest.length + (Worker.recheckToken job : Worker T R).rank <
        5 * s.queue.length + (s.workers id).rank := by
      simp only [hw, hq, List.length_cons, Worker.rank]
      omega
    exact hrank rfl rfl hlt
  | dropped id job hw hc => exact hrank rfl rfl (by simp [hw, Worker.rank])
  | started id job hw hc => exact hrank rfl rfl (by simp [hw, Worker.rank])
  | succeeded id job value hw hf => exact hrank rfl rfl (by simp [hw, Worker.rank])
  | gaveUp id job hw hf => exact hrank rfl rfl (by simp [hw, Worker.rank])
  | failed id job error hw hf hne => exact hrank rfl rfl (by simp [hw, Worker.rank])
  | pushed id job value hw => exact hrank rfl rfl (by simp [hw, Worker.rank])
  | stored id job error hw => exact hrank rfl rfl (by simp [hw, Worker.rank])
  | cancelled hc => simp [State.measure, hc]

/-- The state with the workers `g` only. -/
def State.restrict {n k : ℕ} (s : State T R n) (g : Fin k → Fin n) : State T R k :=
  ⟨s.queue, s.results, s.storedError, s.cancelToken, s.progress, s.workers ∘ g⟩

/-- The invariant does not mind workers that were not spawned. -/
theorem Inv.restrict {f : Job T → Except VmSpectError R} {items : List T} {n k : ℕ}
    {taken : List (Job T)} {s : State T R n} (h : Inv f items taken s) {g : Fin k → Fin n}
    (hg : Function.Injective g) (hout : ∀ id, id ∉ Set.range g → s.workers id = .checkToken) :
    Inv f items taken (s.restrict g) where
  accounted := h.accounted.restrict hg fun id hid => by rw [hout id hid]; rfl
  result_ok := h.result_ok
  good v := h.good (g v)
  stored_failed error he := by
    obtain ⟨hne, id, job, hid⟩ := h.stored_failed error he
    have hrange : id ∈ Set.range g := by
      by_contra hnot
      rw [hout id hnot] at hid
      cases hid
    obtain ⟨v, rfl⟩ := hrange
    exact ⟨hne, v, job, hid⟩

section Threads

variable {f : Job T → Except VmSpectError R} {token : Option Bool}
  {progress : Option InspectionProgress} {items : List T} {maxWorkers : ℕ}
  {es : List (ForkJoin.Event (Event (workerCount maxWorkers items.length)))}
  {s : ForkJoin.State (State T R (workerCount maxWorkers items.length))
    (workerCount maxWorkers items.length)}

/-- Past the joins, the workers that were spawned have all ended, and their accounts hold. -/
theorem spawned_inv (h : run (ForkJoin.step (pool f _) .skip) es
      (ForkJoin.start (start token progress items maxWorkers)) = some s) (hr : s.Returned) :
    (∃ taken, Inv f items taken (s.pool.restrict s.handles.get)) ∧
      (s.pool.restrict s.handles.get).Finished := by
  have hinv := ForkJoin.run_inv h
  obtain ⟨taken, hpool⟩ := run_inv (ForkJoin.run_pool h)
  refine ⟨⟨taken, hpool.restrict (List.nodup_iff_injective_get.mp hinv.nodup) ?_⟩, ?_⟩
  · intro id hid
    have hnot : id ∉ s.handles := by
      intro hmem
      obtain ⟨v, hv⟩ := List.get_of_mem hmem
      exact hid ⟨v, hv⟩
    exact ForkJoin.run_unstarted h hnot
  · exact fun v => hinv.ended hr _ (List.get_mem s.handles v)

/-- A call on record is one of a worker that was spawned. -/
theorem Called.restrict {n : ℕ} {t : State T R n} {handles : List (Fin n)}
    (hout : ∀ id, id ∉ handles → t.workers id = .checkToken) {job : Job T} (h : Called job t) :
    Called job (t.restrict handles.get) := by
  rcases h with h | ⟨id, hid⟩
  · exact Or.inl h
  · have hmem : id ∈ handles := by
      by_contra hnot
      rw [hout id hnot] at hid
      simp at hid
    obtain ⟨v, rfl⟩ := List.get_of_mem hmem
    exact Or.inr ⟨v, hid⟩

/-- When no thread was spawned, nothing has happened. -/
theorem pool_eq_start (h : run (ForkJoin.step (pool f _) .skip) es
      (ForkJoin.start (start token progress items maxWorkers)) = some s)
    (hes : .pool .cancel ∉ es) (hnone : s.handles = []) :
    s.pool = start token progress items maxWorkers := by
  refine ForkJoin.run_idle h hnone fun e he => ?_
  cases e with
  | cancel => exact absurd he hes
  | worker id => exact ⟨id, rfl⟩

/-- A call that is not cancelled, when any of its threads may not be spawned, and the closure never
answers `Cancelled`. With at least one worker, the call returns the answers for all items in the
order of the input, or an error that one of them was answered with. Without a worker, it returns an
empty list and the closure was not called at all. -/
theorem process_in_parallel_spawn (ht : token ≠ some true)
    (h : run (ForkJoin.step (pool f _) .skip) es
      (ForkJoin.start (start token progress items maxWorkers)) = some s)
    (hr : s.Returned) (hes : .pool .cancel ∉ es) (hf : ∀ job, f job ≠ .error .cancelled) :
    if s.handles = [] then
      s.pool.returned = .ok [] ∧ s.pool = start token progress items maxWorkers
    else
      (∃ values, s.pool.returned = .ok values ∧ (enumerate items).map f = values.map Except.ok) ∨
        ∃ error, s.pool.returned = .error error ∧ ∃ job ∈ enumerate items, f job = .error error := by
  split
  · rename_i hnone
    have hstart := pool_eq_start h hes hnone
    refine ⟨?_, hstart⟩
    rw [hstart]
    have hreturned : (start (R := R) token progress items maxWorkers).returned = .ok [] := by
      unfold State.returned
      cases (start (R := R) token progress items maxWorkers).cancelled <;> rfl
    exact hreturned
  · rename_i hsome
    obtain ⟨⟨taken, hacc⟩, hdone⟩ := spawned_inv h hr
    have hc0 : (start (R := R) token progress items maxWorkers).cancelled = false := by
      rcases token with _ | _ | _
      · rfl
      · rfl
      · exact absurd rfl ht
    have hpool : s.pool.cancelled = false :=
      run_uncancelled hc0 (fun he => hes (ForkJoin.mem_pool?.mp he)) (ForkJoin.run_pool h)
    have hc : (s.pool.restrict s.handles.get).cancelled = false := hpool
    have hsame : s.pool.returned = (s.pool.restrict s.handles.get).returned := rfl
    rw [hsame]
    cases hreturned : (s.pool.restrict s.handles.get).returned with
    | ok values =>
      exact Or.inl ⟨values, rfl, hacc.returned_all hdone (List.length_pos_iff.mpr hsome) hc
        (fun job _ => hf job) hreturned⟩
    | error error =>
      obtain ⟨job, hcalled, hjob⟩ := hacc.returned_error hreturned
      exact Or.inr ⟨error, rfl, job, hacc.called_mem hdone hcalled, hjob⟩

end Threads

/-- Two items, and no thread for them: the call returns an empty list. -/
theorem process_in_parallel_spawn_none :
    ∃ s, run (ForkJoin.step (pool sampleAnswer _) .skip) [.spawn false, .spawn false, .join]
        (ForkJoin.start (start none none [4, 6] 2)) = some s ∧ s.pool.returned = .ok [] := by
  have h : ((run (ForkJoin.step (pool sampleAnswer _) .skip) [.spawn false, .spawn false, .join]
      (ForkJoin.start (start none none [4, 6] 2))).map
      (fun s => (decide s.Returned, s.handles))) = some (true, []) := by decide
  obtain ⟨s, hs, hf⟩ := Option.map_eq_some_iff.mp h
  obtain ⟨hr, hnone⟩ := Prod.mk.inj hf
  have hnever : ∀ job, sampleAnswer job ≠ .error .cancelled := by
    intro job
    unfold sampleAnswer
    split <;> simp
  have hspawn := process_in_parallel_spawn (by simp) hs (of_decide_eq_true hr) (by simp) hnever
  rw [if_pos hnone] at hspawn
  exact ⟨s, hs, hspawn.1⟩

end VmSpect.Parallel
