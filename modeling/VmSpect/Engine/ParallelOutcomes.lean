import VmSpect.Engine.Parallel

/-!
# What `process_in_parallel` returns

`call_outcomes` describes a call in every interleaving. A returned list is always the list of the
values that the closure produced, in the order of the input. Without cancellation an error other
than `Cancelled` is never swallowed, and when no call answers `Cancelled` a returned list is
complete.

A closure that answers `Cancelled` ends its worker without leaving an error behind, also when the
token is not set, and the call can then return a list that is not complete
(`not_complete_cancelled`).
-/

namespace VmSpect.Parallel

open Interleaving WorkQueue

variable {T R : Type}

/-! ## Moving one worker -/

section Goto

variable {n : ℕ} (s : State T R n) (id : Fin n) (w : Worker T R)

@[simp] theorem goto_queue : (s.goto id w).queue = s.queue := rfl
@[simp] theorem goto_results : (s.goto id w).results = s.results := rfl
@[simp] theorem goto_storedError : (s.goto id w).storedError = s.storedError := rfl
@[simp] theorem goto_cancelled : (s.goto id w).cancelled = s.cancelled := rfl
@[simp] theorem goto_workers_self : (s.goto id w).workers id = w := by simp [State.goto]

theorem goto_workers_ne {v : Fin n} (hv : v ≠ id) : (s.goto id w).workers v = s.workers v := by
  simp [State.goto, hv]

end Goto

/-! ## The invariant -/

/-- What the position of a worker says about the closure's answers and the shared memory. -/
def Worker.Good (f : Job T → Except VmSpectError R) {n : ℕ} (s : State T R n) : Worker T R → Prop
  | pushResult job value => f job = .ok value
  | storeError job error => f job = .error error ∧ error ≠ .cancelled
  | exited (.failed job error) =>
    f job = .error error ∧ (error ≠ .cancelled → s.storedError ≠ none)
  | exited (.dropped _) => s.cancelled = true
  | exited .idle => s.cancelled = true ∨ s.queue = []
  | _ => True

/-- What the shared memory never takes back: the token once it is set, the end of the queue, and the
stored error. -/
structure Later {n : ℕ} (s t : State T R n) : Prop where
  cancelled : s.cancelled = true → t.cancelled = true
  queue : s.queue = [] → t.queue = []
  storedError : ∀ error, s.storedError = some error → t.storedError = some error

/-- A worker that does not move stays good. -/
theorem Worker.Good.later {f : Job T → Except VmSpectError R} {n : ℕ} {s t : State T R n}
    (h : Later s t) {w : Worker T R} (hw : w.Good f s) : w.Good f t := by
  match w, hw with
  | .pushResult job value, hw => exact hw
  | .storeError job error, hw => exact hw
  | .exited (.failed job error), hw =>
    refine ⟨hw.1, fun hne => ?_⟩
    obtain ⟨e, he⟩ := Option.ne_none_iff_exists'.mp (hw.2 hne)
    simp [h.storedError e he]
  | .exited (.dropped job), hw => exact h.cancelled hw
  | .exited .idle, hw => exact hw.imp h.cancelled h.queue
  | .checkToken, _ => trivial
  | .popFront, _ => trivial
  | .recheckToken job, _ => trivial
  | .apply job, _ => trivial

/-- What holds in every reachable state of a call over `items`; `taken` is the part of the input
that has left the queue. -/
structure Inv (f : Job T → Except VmSpectError R) (items : List T) {n : ℕ} (taken : List (Job T))
    (s : State T R n) : Prop where
  /-- Every item is queued, in one worker's hands, or delivered once. -/
  accounted : Accounted (enumerate items) taken s.queue (fun id => (s.workers id).held) s.results
  /-- A delivered value is the closure's answer. -/
  result_ok : ∀ p ∈ s.results, f p.1 = .ok p.2
  /-- Every worker is where the answers put it. -/
  good : ∀ id, (s.workers id).Good f s
  /-- The stored error is the answer that ended some worker. -/
  stored_failed : ∀ error, s.storedError = some error →
    error ≠ .cancelled ∧ ∃ id job, s.workers id = .exited (.failed job error)

section Preserved

variable {f : Job T → Except VmSpectError R} {items : List T} {n : ℕ} {taken : List (Job T)}
  {s : State T R n}

/-- Worker `id` moves to `w`, and the shared memory to that of `t`: the invariant is kept when the
accounts, the delivered values and the stored error are, and the new place is a good one. -/
theorem Inv.move (h : Inv f items taken s) {id : Fin n} {w : Worker T R} {t : State T R n}
    {taken' : List (Job T)} (ht : t.workers = (s.goto id w).workers) (hlater : Later s t)
    (hnot : (s.workers id).done = false)
    (hacc : Accounted (enumerate items) taken' t.queue (fun v => (t.workers v).held) t.results)
    (hres : ∀ p ∈ t.results, f p.1 = .ok p.2) (hgood : w.Good f t)
    (hstored : ∀ error, t.storedError = some error → s.storedError = some error ∨
      (error ≠ .cancelled ∧ ∃ job, w = .exited (.failed job error))) :
    Inv f items taken' t := by
  refine ⟨hacc, hres, fun v => ?_, fun error he => ?_⟩
  · rw [ht]
    by_cases hv : v = id
    · rw [hv, goto_workers_self]
      exact hgood
    · rw [goto_workers_ne _ _ _ hv]
      exact (h.good v).later hlater
  · rcases hstored error he with hs | ⟨hne, job, hw⟩
    · obtain ⟨hne, v, job, hv⟩ := h.stored_failed error hs
      have hvid : v ≠ id := by
        rintro rfl
        rw [hv] at hnot
        cases hnot
      exact ⟨hne, v, job, by rw [ht, goto_workers_ne _ _ _ hvid, hv]⟩
    · exact ⟨hne, id, job, by rw [ht, goto_workers_self, hw]⟩

/-- A worker that moves and keeps what it holds, over an unchanged shared memory. -/
theorem Inv.quiet (h : Inv f items taken s) {id : Fin n} {w : Worker T R}
    (hnot : (s.workers id).done = false) (hheld : w.held = (s.workers id).held)
    (hgood : w.Good f (s.goto id w)) : Inv f items taken (s.goto id w) := by
  refine h.move rfl ⟨fun h => h, fun h => h, fun _ h => h⟩ hnot ?_ h.result_ok hgood
    (fun _ h => Or.inl h)
  refine h.accounted.reheld fun v => ?_
  by_cases hv : v = id
  · rw [hv, goto_workers_self, hheld]
  · rw [goto_workers_ne _ _ _ hv]

/-- Every step keeps the invariant. -/
theorem Inv.step (h : Inv f items taken s) {e : Event n} {t : State T R n} (hstep : Step f s e t) :
    ∃ taken', Inv f items taken' t := by
  cases hstep with
  | stopped id hw hc =>
    exact ⟨taken, h.quiet (by rw [hw]; rfl) (by rw [hw]; rfl) (Or.inl hc)⟩
  | proceed id hw hc => exact ⟨taken, h.quiet (by rw [hw]; rfl) (by rw [hw]; rfl) trivial⟩
  | drained id hw hq =>
    exact ⟨taken, h.quiet (by rw [hw]; rfl) (by rw [hw]; rfl) (Or.inr hq)⟩
  -- The item moves from the queue to the hands of the worker.
  | popped id job rest hw hq =>
    have hacc := h.accounted
    rw [hq] at hacc
    refine ⟨taken ++ [job], h.move (w := .recheckToken job) rfl ?_ (by rw [hw]; rfl) ?_ h.result_ok
      trivial (fun _ h => Or.inl h)⟩
    · exact ⟨fun h => h, (fun h => by rw [hq] at h; cases h), fun _ h => h⟩
    · refine hacc.take (enumerate_nodup items) (w := id) (by simp [hw, Worker.held])
        (by simp [Worker.held]) ?_
      intro v hv
      rw [goto_workers_ne _ _ _ hv]
  | dropped id job hw hc => exact ⟨taken, h.quiet (by rw [hw]; rfl) (by rw [hw]; rfl) hc⟩
  | started id job hw hc => exact ⟨taken, h.quiet (by rw [hw]; rfl) (by rw [hw]; rfl) trivial⟩
  | succeeded id job value hw hf => exact ⟨taken, h.quiet (by rw [hw]; rfl) (by rw [hw]; rfl) hf⟩
  | gaveUp id job hw hf =>
    exact ⟨taken, h.quiet (by rw [hw]; rfl) (by rw [hw]; rfl) ⟨hf, fun hne => absurd rfl hne⟩⟩
  | failed id job error hw hf hne =>
    exact ⟨taken, h.quiet (by rw [hw]; rfl) (by rw [hw]; rfl) ⟨hf, hne⟩⟩
  -- The item moves from the hands of the worker to the results.
  | pushed id job value hw =>
    have hgood := h.good id
    rw [hw] at hgood
    refine ⟨taken, h.move (w := .checkToken) rfl ⟨fun h => h, fun h => h, fun _ h => h⟩
      (by rw [hw]; rfl) ?_ ?_ trivial (fun _ h => Or.inl h)⟩
    · refine h.accounted.finish (w := id) (by simp [hw, Worker.held]) (by simp [Worker.held]) ?_
        value
      intro v hv
      rw [goto_workers_ne _ _ _ hv]
    · intro p hp
      rcases List.mem_append.mp hp with hp | hp
      · exact h.result_ok p hp
      · rw [List.mem_singleton.mp hp]
        exact hgood
  | stored id job error hw =>
    have hgood := h.good id
    rw [hw] at hgood
    refine ⟨taken, h.move (w := .exited (.failed job error)) rfl ⟨fun h => h, fun h => h, ?_⟩
      (by rw [hw]; rfl) ?_ h.result_ok ⟨hgood.1, by simp⟩ ?_⟩
    · intro e he
      simp [he]
    · refine h.accounted.reheld fun v => ?_
      by_cases hv : v = id
      · rw [hv, goto_workers_self, hw]
        rfl
      · rw [goto_workers_ne _ _ _ hv]
    · -- The stored error is the old one, or this one when there was none.
      intro e he
      cases hs : s.storedError with
      | none =>
        simp only [goto_storedError, hs, Option.none_or, Option.some.injEq] at he
        exact Or.inr ⟨he ▸ hgood.2, job, by rw [he]⟩
      | some e' =>
        simp only [goto_storedError, hs, Option.some_or, Option.some.injEq] at he
        exact Or.inl (by rw [he])
  | cancelled hc =>
    have hlater : Later s { s with cancelToken := some true } :=
      ⟨fun _ => rfl, fun h => h, fun _ h => h⟩
    exact ⟨taken, h.accounted, h.result_ok, fun v => (h.good v).later hlater, h.stored_failed⟩

end Preserved

/-- The invariant holds in every state that a run reaches. -/
theorem run_inv {f : Job T → Except VmSpectError R} {token : Option Bool}
    {progress : Option InspectionProgress} {items : List T} {maxWorkers : ℕ}
    {es : List (Event (workerCount maxWorkers items.length))}
    {s : State T R (workerCount maxWorkers items.length)}
    (h : run (step f) es (start token progress items maxWorkers) = some s) :
    ∃ taken, Inv f items taken s := by
  refine run_invariant (fun s => ∃ taken, Inv f items taken s) ⟨[], ?_⟩ ?_ h
  · refine ⟨Accounted.init (enumerate items), ?_, fun _ => trivial, ?_⟩ <;> simp [start]
  · rintro e s t ⟨taken, hs⟩ ht
    exact hs.step (Step.of_step ht)

/-! ## From the call of the closure to the end of the run -/

/-- The closure is running on `job`, or it has answered. -/
def Called {n : ℕ} (job : Job T) (s : State T R n) : Prop :=
  job ∈ s.results.map Prod.fst ∨ ∃ id, s.workers id = .apply job ∨
    (∃ value, s.workers id = .pushResult job value) ∨
    (∃ error, s.workers id = .storeError job error) ∨
    ∃ error, s.workers id = .exited (.failed job error)

/-- The places of a worker that has called the closure on `job`. -/
def Worker.busyWith (job : Job T) (w : Worker T R) : Prop :=
  w = .apply job ∨ (∃ value, w = .pushResult job value) ∨ (∃ error, w = .storeError job error) ∨
    ∃ error, w = .exited (.failed job error)

/-- A call stays on record when the one worker that moves still has it, or had not. -/
theorem Called.move {n : ℕ} {job : Job T} {s t : State T R n} {id : Fin n} {w : Worker T R}
    (h : Called job s) (ht : t.workers = (s.goto id w).workers)
    (hres : ∀ j ∈ s.results.map Prod.fst, j ∈ t.results.map Prod.fst)
    (hbusy : (s.workers id).busyWith job → w.busyWith job ∨ job ∈ t.results.map Prod.fst) :
    Called job t := by
  rcases h with h | ⟨v, hv⟩
  · exact Or.inl (hres job h)
  · by_cases hvid : v = id
    · subst hvid
      rcases hbusy hv with hw | hw
      · exact Or.inr ⟨v, by rw [ht, goto_workers_self]; exact hw⟩
      · exact Or.inl hw
    · exact Or.inr ⟨v, by rw [ht, goto_workers_ne _ _ _ hvid]; exact hv⟩

/-- Once the closure is called on an item, that stays on record. -/
theorem Called.step {f : Job T → Except VmSpectError R} {n : ℕ} {job : Job T} {s t : State T R n}
    {e : Event n} (hstep : Step f s e t) (h : Called job s) : Called job t := by
  cases hstep with
  | stopped id hw hc => exact h.move rfl (by simp) (by simp [hw, Worker.busyWith])
  | proceed id hw hc => exact h.move rfl (by simp) (by simp [hw, Worker.busyWith])
  | drained id hw hq => exact h.move rfl (by simp) (by simp [hw, Worker.busyWith])
  | popped id j rest hw hq => exact h.move rfl (by simp) (by simp [hw, Worker.busyWith])
  | dropped id j hw hc => exact h.move rfl (by simp) (by simp [hw, Worker.busyWith])
  | started id j hw hc => exact h.move rfl (by simp) (by simp [hw, Worker.busyWith])
  | succeeded id j value hw hf =>
    exact h.move rfl (by simp) fun hb => Or.inl (by simpa [hw, Worker.busyWith] using hb)
  | gaveUp id j hw hf =>
    exact h.move rfl (by simp) fun hb => Or.inl (by simpa [hw, Worker.busyWith] using hb)
  | failed id j error hw hf hne =>
    exact h.move rfl (by simp) fun hb => Or.inl (by simpa [hw, Worker.busyWith] using hb)
  | pushed id j value hw =>
    refine h.move (w := .checkToken) rfl ?_ ?_
    · intro i hi
      simp only [goto_results, List.map_append, List.mem_append]
      exact Or.inl hi
    · intro hbusy
      right
      simp only [hw, Worker.busyWith, reduceCtorEq, Worker.pushResult.injEq, exists_and_left,
        exists_eq', and_true, exists_false, or_false, false_or] at hbusy
      simp [hbusy]
  | stored id j error hw =>
    exact h.move rfl (by simp) fun hb => Or.inl (by simpa [hw, Worker.busyWith] using hb)
  | cancelled hc => exact h

/-- What is on record after a step was before it, or the call starts there. -/
theorem Called.before {f : Job T → Except VmSpectError R} {n : ℕ} {job : Job T} {s t : State T R n}
    {e : Event n} (hstep : Step f s e t) (h : Called job t) :
    Called job s ∨ ∃ id, t.workers id = .apply job := by
  -- Only the moved worker can have got a record, and only by starting the call.
  have hback : ∀ {id : Fin n} {w : Worker T R}, t.workers = (s.goto id w).workers →
      (job ∈ t.results.map Prod.fst → Called job s) →
      (w.busyWith job → Called job s ∨ w = .apply job) →
      Called job s ∨ ∃ id, t.workers id = .apply job := by
    intro id w ht hres hbusy
    rcases h with h | ⟨v, hv⟩
    · exact Or.inl (hres h)
    · by_cases hvid : v = id
      · subst hvid
        rw [ht, goto_workers_self] at hv
        rcases hbusy hv with h | hw
        · exact Or.inl h
        · exact Or.inr ⟨v, by rw [ht, goto_workers_self, hw]⟩
      · rw [ht, goto_workers_ne _ _ _ hvid] at hv
        exact Or.inl (Or.inr ⟨v, hv⟩)
  cases hstep with
  | stopped id hw hc => exact hback rfl (fun h => Or.inl h) (by simp [Worker.busyWith])
  | proceed id hw hc => exact hback rfl (fun h => Or.inl h) (by simp [Worker.busyWith])
  | drained id hw hq => exact hback rfl (fun h => Or.inl h) (by simp [Worker.busyWith])
  | popped id j rest hw hq => exact hback rfl (fun h => Or.inl h) (by simp [Worker.busyWith])
  | dropped id j hw hc => exact hback rfl (fun h => Or.inl h) (by simp [Worker.busyWith])
  | started id j hw hc =>
    exact hback rfl (fun h => Or.inl h) fun hb => Or.inr (by simpa [Worker.busyWith] using hb)
  | succeeded id j value hw hf =>
    refine hback rfl (fun h => Or.inl h) fun hb => Or.inl (Or.inr ⟨id, Or.inl ?_⟩)
    simp only [Worker.busyWith, reduceCtorEq, Worker.pushResult.injEq, exists_and_left, exists_eq',
      and_true, exists_false, or_false, false_or] at hb
    rw [hw, hb]
  | gaveUp id j hw hf =>
    refine hback rfl (fun h => Or.inl h) fun hb => Or.inl (Or.inr ⟨id, Or.inl ?_⟩)
    simp only [Worker.busyWith, reduceCtorEq, Worker.exited.injEq, Exit.failed.injEq,
      exists_and_left, exists_eq', and_true, exists_false, false_or] at hb
    rw [hw, hb]
  | failed id j error hw hf hne =>
    refine hback rfl (fun h => Or.inl h) fun hb => Or.inl (Or.inr ⟨id, Or.inl ?_⟩)
    simp only [Worker.busyWith, reduceCtorEq, Worker.storeError.injEq, exists_and_left, exists_eq',
      and_true, exists_false, or_false, false_or] at hb
    rw [hw, hb]
  | pushed id j value hw =>
    refine hback (w := .checkToken) rfl ?_ (by simp [Worker.busyWith])
    intro hmem
    simp only [goto_results, List.map_append, List.map_cons, List.map_nil, List.mem_append,
      List.mem_singleton] at hmem
    rcases hmem with hmem | rfl
    · exact Or.inl hmem
    · exact Or.inr ⟨id, Or.inr (Or.inl ⟨value, hw⟩)⟩
  | stored id j error hw =>
    refine hback (w := .exited (.failed j error)) rfl (fun h => Or.inl h)
      fun hb => Or.inl (Or.inr ⟨id, Or.inr (Or.inr (Or.inl ⟨error, ?_⟩))⟩)
    simp only [Worker.busyWith, reduceCtorEq, Worker.exited.injEq, Exit.failed.injEq,
      exists_and_left, exists_eq', and_true, exists_false, false_or] at hb
    rw [hw, hb]
  | cancelled hc => exact Or.inl h

/-- A run from the start has called the closure exactly on what is on record at its end. -/
theorem started_iff_called {f : Job T → Except VmSpectError R} {n : ℕ} {s₀ : State T R n}
    (h0 : ∀ job, ¬ Called job s₀) {es : List (Event n)} {s : State T R n}
    (h : run (step f) es s₀ = some s) (job : Job T) : Started f s₀ es job ↔ Called job s := by
  constructor
  · rintro ⟨u, hu, id, hid⟩
    refine hu.forward h ?_ (Or.inr ⟨id, Or.inl hid⟩)
    intro e s t hs ht
    exact hs.step (Step.of_step ht)
  · refine run_induction (P := fun es s => Called job s → Started f s₀ es job)
      (fun hc => absurd hc (h0 job)) ?_ h
    intro es e s t hrun ih hstep hc
    have hrun' : run (step f) (es ++ [e]) s₀ = some t :=
      (run_snoc_iff es e s₀ t).mpr ⟨s, hrun, hstep⟩
    rcases Called.before (Step.of_step hstep) hc with hc | ⟨id, hid⟩
    · obtain ⟨u, hu, hid⟩ := ih hc
      exact ⟨u, hu.snoc e, hid⟩
    · exact ⟨t, Passes.last hrun', id, hid⟩

/-- The token stays unset in a run in which it is not set. -/
theorem run_uncancelled {f : Job T → Except VmSpectError R} {n : ℕ} {s₀ s : State T R n}
    (h0 : s₀.cancelled = false) {es : List (Event n)} (hes : Event.cancel ∉ es)
    (h : run (step f) es s₀ = some s) : s.cancelled = false := by
  refine run_induction (P := fun es s => Event.cancel ∉ es → s.cancelled = false) (fun _ => h0)
    ?_ h hes
  intro es e s t _ ih hstep hes
  have hs := ih (fun hmem => hes (by simp [hmem]))
  cases Step.of_step hstep with
  | cancelled hc => exact absurd (by simp) hes
  | _ => exact hs

/-! ## The end of a run -/

section AtEnd

variable {f : Job T → Except VmSpectError R} {items : List T} {n : ℕ} {taken : List (Job T)}
  {s : State T R n}

/-- At the end a call was delivered, or it ended its worker. -/
theorem Called.finished {job : Job T} (hdone : s.Finished) (h : Called job s) :
    job ∈ s.results.map Prod.fst ∨ ∃ id error, s.workers id = .exited (.failed job error) := by
  rcases h with h | ⟨id, hw | ⟨value, hw⟩ | ⟨error, hw⟩ | ⟨error, hw⟩⟩
  · exact Or.inl h
  · exact absurd (hdone id) (by simp [hw, Worker.done])
  · exact absurd (hdone id) (by simp [hw, Worker.done])
  · exact absurd (hdone id) (by simp [hw, Worker.done])
  · exact Or.inr ⟨id, error, hw⟩

/-- The answer that ended a worker. -/
theorem Inv.failed_answer (h : Inv f items taken s) {id : Fin n} {job : Job T}
    {error : VmSpectError} (hw : s.workers id = .exited (.failed job error)) :
    f job = .error error ∧ (error ≠ .cancelled → s.storedError ≠ none) := by
  have hgood := h.good id
  rw [hw] at hgood
  exact hgood

/-- The sorted values are those of the calls, in the order of the input. -/
theorem Inv.sorted_values (h : Inv f items taken s) (hdone : s.Finished)
    [DecidablePred fun job => Called job s] :
    (s.results.insertionSort (KeyLe Prod.fst)).map Prod.snd =
      ((enumerate items).filter (fun job => Called job s)).filterMap
        (fun job => (f job).toOption) := by
  have hdec : DecidableEq (Job T) := Classical.decEq _
  have hin : ∀ job ∈ s.results.map Prod.fst, job ∈ enumerate items := fun _ =>
    h.accounted.mem_of_finished
  have hres : ∀ p ∈ s.results, (f p.1).toOption = some p.2 := by
    intro p hp
    rw [h.result_ok p hp]
    rfl
  rw [insertionSort_finished (enumerate_pairwise items) (fun job => (f job).toOption) hin
    h.accounted.finished_nodup hres, inOrder, List.filterMap_filter, List.map_filterMap,
    List.filterMap_filter]
  refine List.filterMap_congr fun job _ => ?_
  by_cases hmem : job ∈ s.results.map Prod.fst
  · have hcalled : Called job s := Or.inl hmem
    simp only [hmem, hcalled, decide_true, if_true, Option.map_map]
    exact Option.map_id'
  · -- A call that was not delivered answered with an error, so it has no value to leave out.
    by_cases hcalled : Called job s
    · obtain hfin | ⟨id, error, hw⟩ := hcalled.finished hdone
      · exact absurd hfin hmem
      · simp [hmem, (h.failed_answer hw).1, Except.toOption]
    · simp [hmem, hcalled]

/-- Without cancellation and errors, every item was delivered. -/
theorem Inv.all_delivered (h : Inv f items taken s) (hdone : s.Finished) (hn : 0 < n)
    (hc : s.cancelled = false)
    (hfailed : ∀ id job error, s.workers id ≠ .exited (.failed job error)) :
    ∀ job ∈ enumerate items, job ∈ s.results.map Prod.fst := by
  -- Every worker has left its loop because the queue was empty.
  have hidle : ∀ id, s.workers id = .exited .idle := by
    intro id
    have hgood := h.good id
    have hd := hdone id
    match hw : s.workers id with
    | .exited .idle => rfl
    | .exited (.dropped job) =>
      rw [hw] at hgood
      exact absurd (hc.symm.trans hgood) (by decide)
    | .exited (.failed job error) => exact absurd hw (hfailed id job error)
    | .checkToken => simp [hw, Worker.done] at hd
    | .popFront => simp [hw, Worker.done] at hd
    | .recheckToken job => simp [hw, Worker.done] at hd
    | .apply job => simp [hw, Worker.done] at hd
    | .pushResult job value => simp [hw, Worker.done] at hd
    | .storeError job error => simp [hw, Worker.done] at hd
  have hqueue : s.queue = [] := by
    have hgood := h.good ⟨0, hn⟩
    rw [hidle] at hgood
    rcases hgood with hgood | hgood
    · exact absurd (hc.symm.trans hgood) (by decide)
    · exact hgood
  intro job hjob
  -- Nothing is queued and nothing is held, so every item is in the results.
  rw [h.accounted.split, hqueue, List.append_nil] at hjob
  rcases h.accounted.taken_placed job hjob with ⟨id, hid⟩ | hfin
  · simp [hidle id, Worker.held] at hid
  · exact hfin

end AtEnd

/-- When every answer is a value, the values are all the answers. -/
theorem map_eq_map_ok {f : Job T → Except VmSpectError R} {jobs : List (Job T)}
    (h : ∀ job ∈ jobs, ∃ value, f job = .ok value) :
    jobs.map f = (jobs.filterMap fun job => (f job).toOption).map Except.ok := by
  induction jobs with
  | nil => rfl
  | cons job rest ih =>
    obtain ⟨value, hvalue⟩ := h job (by simp)
    rw [List.filterMap_cons_some (by rw [hvalue]; rfl), List.map_cons, List.map_cons, hvalue,
      ih fun j hj => h j (by simp [hj])]

/-! ## What a finished run returns -/

section Returned

variable {f : Job T → Except VmSpectError R} {items : List T} {n : ℕ} {taken : List (Job T)}
  {s : State T R n}

/-- The answer that ended a worker is the answer of a call on record. -/
theorem Called.of_failed {id : Fin n} {job : Job T} {error : VmSpectError}
    (hw : s.workers id = .exited (.failed job error)) : Called job s :=
  Or.inr ⟨id, Or.inr (Or.inr (Or.inr ⟨error, hw⟩))⟩

/-- At the end, a call is on record only for an item of the input. -/
theorem Inv.called_mem (h : Inv f items taken s) (hdone : s.Finished) {job : Job T}
    (hjob : Called job s) : job ∈ enumerate items := by
  rcases hjob.finished hdone with hfin | ⟨id, error, hw⟩
  · exact h.accounted.mem_of_finished hfin
  · exact h.accounted.mem_of_taken (h.accounted.held_taken id job (by simp [hw, Worker.held]))

/-- A returned list holds the values of the calls, in the order of the input. -/
theorem Inv.returned_ok (h : Inv f items taken s) (hdone : s.Finished)
    [DecidablePred fun job => Called job s] {values : List R} (hr : s.returned = .ok values) :
    values = ((enumerate items).filter (fun job => Called job s)).filterMap
      (fun job => (f job).toOption) := by
  rw [← h.sorted_values hdone]
  unfold State.returned at hr
  split at hr
  · cases hr
  · exact (Except.ok.inj hr).symm

/-- A returned error is the answer of a call. -/
theorem Inv.returned_error (h : Inv f items taken s) {error : VmSpectError}
    (hr : s.returned = .error error) : ∃ job, Called job s ∧ f job = .error error := by
  unfold State.returned at hr
  split at hr
  · obtain rfl := Except.error.inj hr
    obtain ⟨-, id, job, hw⟩ := h.stored_failed _ ‹_›
    exact ⟨job, Called.of_failed hw, (h.failed_answer hw).1⟩
  · cases hr

/-- Without cancellation, an answer with an error was stored, or another one before it. -/
theorem Inv.error_returned (h : Inv f items taken s) (hdone : s.Finished) (hc : s.cancelled = false)
    {job : Job T} (hjob : Called job s) {error : VmSpectError} (hf : f job = .error error)
    (hnc : error ≠ .cancelled) : ∃ error', s.returned = .error error' := by
  rcases hjob.finished hdone with hfin | ⟨id, e, hw⟩
  · obtain ⟨p, hp, rfl⟩ := List.mem_map.mp hfin
    rw [h.result_ok p hp] at hf
    cases hf
  · obtain ⟨hanswer, hstored⟩ := h.failed_answer hw
    obtain rfl : e = error := Except.error.inj (hanswer.symm.trans hf)
    obtain ⟨e', he'⟩ := Option.ne_none_iff_exists'.mp (hstored hnc)
    exact ⟨e', by simp [State.returned, hc, he']⟩

/-- Without cancellation and without an answer `Cancelled`, a returned list holds the answers for
all items. -/
theorem Inv.returned_all (h : Inv f items taken s) (hdone : s.Finished) (hn : 0 < n)
    (hc : s.cancelled = false) (hnocancel : ∀ job, Called job s → f job ≠ .error .cancelled)
    {values : List R} (hr : s.returned = .ok values) :
    (enumerate items).map f = values.map Except.ok := by
  have hdec : DecidablePred fun job => Called job s := Classical.decPred _
  -- A list is returned, so no error was stored, and no worker has failed.
  have hnostored : s.storedError = none := by
    cases hs : s.storedError with
    | none => rfl
    | some e => simp [State.returned, hc, hs] at hr
  have hfailed : ∀ id job error, s.workers id ≠ .exited (.failed job error) := by
    intro id job error hw
    obtain ⟨hanswer, hstored⟩ := h.failed_answer hw
    by_cases hnc : error = .cancelled
    · exact hnocancel job (Called.of_failed hw) (hnc ▸ hanswer)
    · exact hstored hnc hnostored
  have hall := h.all_delivered hdone hn hc hfailed
  have hstarted : (enumerate items).filter (fun job => Called job s) = enumerate items :=
    List.filter_eq_self.mpr fun job hjob => decide_eq_true (Or.inl (hall job hjob))
  rw [h.returned_ok hdone hr, hstarted]
  refine map_eq_map_ok fun job hjob => ?_
  obtain ⟨p, hp, rfl⟩ := List.mem_map.mp (hall job hjob)
  exact ⟨p.2, h.result_ok p hp⟩

end Returned

/-- No call is on record when the workers are spawned. -/
theorem not_called_start (token : Option Bool) (progress : Option InspectionProgress)
    (items : List T) (maxWorkers : ℕ) (job : Job T) :
    ¬ Called job (start (R := R) token progress items maxWorkers) := by
  simp [Called, start]

/-- Every call of `process_in_parallel`, in every interleaving. The returned list is the list of the
values that the calls of the closure gave, in the order of the input, and a returned error is the
answer of a call. When the token is never set, an error other than `Cancelled` makes the call fail,
and as long as no answer is `Cancelled` a returned list holds the answers for all items. -/
theorem call_outcomes (f : Job T → Except VmSpectError R) (token : Option Bool)
    (progress : Option InspectionProgress) (items : List T) (maxWorkers : ℕ)
    (es : List (Event (workerCount maxWorkers items.length))) (r : Except VmSpectError (List R))
    (h : Call f token progress items maxWorkers es r) :
    ∃ started : List (Job T), started.Sublist (enumerate items) ∧
      (∀ job, job ∈ started ↔ Started f (start token progress items maxWorkers) es job) ∧
      (∀ values, r = .ok values → values = started.filterMap (fun job => (f job).toOption)) ∧
      (∀ error, r = .error error → ∃ job ∈ started, f job = .error error) ∧
      (token ≠ some true → Event.cancel ∉ es →
        (∀ job ∈ started, ∀ error, f job = .error error → error ≠ .cancelled →
          ∃ error', r = .error error') ∧
        ((∀ job ∈ started, f job ≠ .error .cancelled) → ∀ values, r = .ok values →
          (enumerate items).map f = values.map Except.ok)) := by
  have hnone : ∀ job, ¬ Started f (start token progress items maxWorkers) [] job := fun job hs =>
    not_called_start token progress items maxWorkers job ((started_iff_called
      (not_called_start token progress items maxWorkers) rfl job).mp hs)
  cases h with
  | empty hitems =>
    subst hitems
    exact ⟨[], by simp, by simpa using hnone, by simp, by simp, by simp [enumerate]⟩
  | alreadyCancelled ht =>
    exact ⟨[], by simp, by simpa using hnone, by simp, by simp, fun h => absurd ht h⟩
  | joined _ s hne ht hrun hdone =>
    obtain ⟨taken, hinv⟩ := run_inv hrun
    have hdec : DecidablePred fun job => Called job s := Classical.decPred _
    have hcalled := started_iff_called (not_called_start token progress items maxWorkers) hrun
    have hmem : ∀ job, job ∈ (enumerate items).filter (fun job => Called job s) ↔
        Called job s := by
      intro job
      rw [List.mem_filter, decide_eq_true_iff, and_iff_right_iff_imp]
      exact hinv.called_mem hdone
    refine ⟨(enumerate items).filter (fun job => Called job s), List.filter_sublist, ?_, ?_, ?_, ?_⟩
    · intro job
      rw [hmem, hcalled]
    · intro values hr
      exact hinv.returned_ok hdone hr
    · intro error hr
      obtain ⟨job, hjob, hf⟩ := hinv.returned_error hr
      exact ⟨job, (hmem job).mpr hjob, hf⟩
    · intro htoken hes
      have hc0 : (start (R := R) token progress items maxWorkers).cancelled = false := by
        cases token with
        | none => rfl
        | some b =>
          cases b with
          | false => rfl
          | true => exact absurd rfl htoken
      have hc : s.cancelled = false := run_uncancelled hc0 hes hrun
      constructor
      · intro job hjob error hf hnc
        exact hinv.error_returned hdone hc ((hmem job).mp hjob) hf hnc
      · intro hnocancel values hr
        exact hinv.returned_all hdone (workerCount_pos maxWorkers (List.length_pos_iff.mpr hne)) hc
          (fun job hjob => hnocancel job ((hmem job).mpr hjob)) hr

/-- A result with a value is that value. -/
theorem eq_ok_of_toOption {r : Except VmSpectError (List R)} {values : List R}
    (h : r.toOption = some values) : r = .ok values := by
  cases r with
  | ok v => exact congrArg _ (Option.some.inj h)
  | error e => cases h

/-- A closure that doubles even numbers and fails on odd ones. -/
def sampleAnswer (job : Job ℕ) : Except VmSpectError ℕ :=
  if job.2 % 2 = 0 then .ok (job.2 * 2) else .error (.unsupportedFormat "odd")

/-- Two workers over two items: the second takes the first item, the first handles the other one to
its end, and then the second goes on. -/
def sampleSchedule : List (Event (workerCount 2 [4, 6].length)) :=
  List.replicate 2 (.worker ⟨1, by decide⟩) ++ List.replicate 7 (.worker ⟨0, by decide⟩) ++
    List.replicate 5 (.worker ⟨1, by decide⟩)

/-- A call whose second value is pushed first returns both values in the order of the input. -/
theorem call_outcomes_two : ∃ s, run (step sampleAnswer) sampleSchedule (start none none [4, 6] 2) =
      some s ∧ s.Finished ∧ s.returned = .ok [8, 12] ∧
    (enumerate [4, 6]).map sampleAnswer = [8, 12].map Except.ok := by
  have hrun : (run (step sampleAnswer) sampleSchedule (start none none [4, 6] 2)).map
      (fun s => (decide s.Finished, s.returned.toOption)) = some (true, some [8, 12]) := by decide
  obtain ⟨s, hs, hf⟩ := Option.map_eq_some_iff.mp hrun
  obtain ⟨hdone, hres⟩ := Prod.mk.inj hf
  have hret := eq_ok_of_toOption hres
  obtain ⟨started, -, -, -, -, hnever⟩ := call_outcomes sampleAnswer none none [4, 6] 2
    sampleSchedule s.returned
    (Call.joined _ s (by simp) (by simp) hs (of_decide_eq_true hdone))
  refine ⟨s, hs, of_decide_eq_true hdone, hret, (hnever (by simp) ?_).2 ?_ _ hret⟩
  · simp [sampleSchedule]
  · intro job _
    unfold sampleAnswer
    split <;> simp

/-- A call that is never cancelled is complete: a returned list holds the answers for all items, and
an error of any kind makes the call fail. -/
def Complete (f : Job T → Except VmSpectError R) (items : List T) (maxWorkers : ℕ) : Prop :=
  ∀ token progress es r, token ≠ some true → Event.cancel ∉ es →
    Call f token progress items maxWorkers es r →
    (∀ values, r = .ok values → (enumerate items).map f = values.map Except.ok) ∧
    ((∃ job error, Started f (start token progress items maxWorkers) es job ∧
      f job = .error error) → ∃ error', r = .error error')

/-- One item on which the closure answers `Cancelled` without any token: the worker leaves without
an error, and the call returns an empty list. -/
theorem not_complete_cancelled :
    ¬ Complete (fun _ : Job ℕ => (.error .cancelled : Except VmSpectError ℕ)) [5] 1 := by
  intro h
  have hrun : (run (step fun _ : Job ℕ => (.error .cancelled : Except VmSpectError ℕ))
      (List.replicate 4 (.worker ⟨0, by decide⟩)) (start none none [5] 1)).map
      (fun s => (decide s.Finished, s.returned.toOption)) = some (true, some []) := by decide
  obtain ⟨s, hs, hf⟩ := Option.map_eq_some_iff.mp hrun
  obtain ⟨hdone, hres⟩ := Prod.mk.inj hf
  have hret := eq_ok_of_toOption hres
  have hall := (h none none _ _ (by simp) (by simp)
    (Call.joined _ s (by simp) (by simp) hs (of_decide_eq_true hdone))).1 [] hret
  simp [enumerate] at hall

end VmSpect.Parallel
