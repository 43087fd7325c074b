import VmSpect.Engine.BatchOutcomes

/-!
# An image whose inspection panics

A panic unwinds the worker that runs the inspection, and that worker takes no more paths from the
queue. `inspect_batch` ignores the result of the join, so it still returns, and the question is
whether the other images are all there (`Tolerant`).

They are, in every interleaving, exactly when fewer panicking images than workers come before each
image that does not panic (`tolerant_iff`). Each panicking image that was taken stays in the hands
of one worker, so an image that is popped by a free worker has fewer of them before it
(`popped_behind`), and once every worker is unwound the rest of the queue is never popped. That some
run comes to its end follows from a measure that every step decreases (`Step.measure_lt`).
-/

namespace VmSpect.Batch

open Interleaving WorkQueue

variable {P ρ ε : Type}

/-- Whether the inspection panics. -/
def Inspection.panicking : Inspection ρ ε → Bool
  | returns _ => false
  | panics => true

/-- What a batch owes its caller: every image that does not panic, in the order of the input, with
what its inspection returns. -/
def expected (inspection : Job P → Inspection ρ ε) (paths : List P) :
    List (Job P × Except ε ρ) :=
  (enumerate paths).filterMap
    (fun job => ((inspection job).result?).map (fun result => (job, result)))

/-- The expected images are those that do not panic. -/
theorem expected_keys (inspection : Job P → Inspection ρ ε) (paths : List P) :
    (expected inspection paths).map Prod.fst =
      (enumerate paths).filter (fun job => !(inspection job).panicking) := by
  unfold expected
  induction enumerate paths with
  | nil => rfl
  | cons job rest ih =>
    rw [List.filterMap_cons, List.filter_cons]
    cases hj : inspection job with
    | returns result => simpa [Inspection.result?, Inspection.panicking] using ih
    | panics => simpa [Inspection.result?, Inspection.panicking] using ih

/-- In every interleaving without cancellation, the batch ends with a report or an error for each
image that does not panic, as if the panicking ones were not there. -/
def Tolerant (inspection : Job P → Inspection ρ ε) (paths : List P) (maxWorkers : ℕ) : Prop :=
  ∀ (progress : InspectionProgress) (es : List (Event (workerCount maxWorkers paths.length)))
    (s : State P ρ ε (workerCount maxWorkers paths.length)), Event.cancel ∉ es →
    run (step inspection) es (start progress false paths maxWorkers) = some s → s.Finished →
    s.batchResult = collect (expected inspection paths)

/-! ## Every run comes to an end -/

/-- How many steps a worker has before its next look at the queue. -/
def Worker.rank : Worker P ρ ε → ℕ
  | recheckToken _ => 8
  | inspect _ => 7
  | pushOutcome _ _ => 6
  | fetchAdd => 5
  | loadTotal _ => 4
  | storePercentage _ => 3
  | checkToken => 2
  | popFront => 1
  | exited _ => 0
  | unwound _ => 0

/-- The measure of a state: each queued path is worth more than one turn of the loop. -/
def State.measure {n : ℕ} (s : State P ρ ε n) : ℕ :=
  10 * s.queue.length + ∑ id, (s.workers id).rank

/-- A step of a worker decreases the measure. -/
theorem Step.measure_lt {inspection : Job P → Inspection ρ ε} {n : ℕ} {s t : State P ρ ε n}
    {id : Fin n} (h : Step inspection s (.worker id) t) : t.measure < s.measure := by
  -- Only the rank of the moved worker changes, so it is enough to compare that and the queue.
  have hrank : ∀ {w : Worker P ρ ε}, t.workers = (s.goto id w).workers →
      10 * t.queue.length + w.rank < 10 * s.queue.length + (s.workers id).rank →
      t.measure < s.measure := by
    intro w ht hlt
    have hsum := sum_update_add Worker.rank s.workers id w
    simp only [State.measure, ht, State.goto]
    omega
  cases h with
  | stopped _ hw hc => exact hrank rfl (by simp [hw, Worker.rank])
  | proceed _ hw hc => exact hrank rfl (by simp [hw, Worker.rank])
  | drained _ hw hq => exact hrank rfl (by simp [hw, Worker.rank])
  -- A turn of the loop climbs up by less than the popped path was worth.
  | popped _ job rest hw hq =>
    refine hrank rfl ?_
    simp only [hw, hq, goto_queue, List.length_cons, Worker.rank]
    omega
  | dropped _ job hw hc => exact hrank rfl (by simp [hw, Worker.rank])
  | started _ job hw hc => exact hrank rfl (by simp [hw, Worker.rank])
  | returned _ job result hw hi => exact hrank rfl (by simp [hw, Worker.rank])
  | unwound _ job hw hi => exact hrank rfl (by simp [hw, Worker.rank])
  | pushed _ job result hw => exact hrank rfl (by simp [hw, Worker.rank])
  | added _ hw => exact hrank rfl (by simp [hw, Worker.rank])
  | loaded _ completed w hw hnext =>
    refine hrank rfl ?_
    rcases hnext with rfl | ⟨pct, rfl⟩ <;> simp [hw, Worker.rank]
  | stored _ pct hw => exact hrank rfl (by simp [hw, Worker.rank])

/-- A worker that cannot move has ended. -/
theorem workerStep_none {inspection : Job P → Inspection ρ ε} {n : ℕ} {s : State P ρ ε n}
    {id : Fin n} (h : workerStep inspection s id = none) : (s.workers id).done = true := by
  unfold workerStep at h
  cases hw : s.workers id with
  | popFront => cases hq : s.queue <;> simp [hw, hq] at h
  | inspect job => cases hi : inspection job <;> simp [hw, hi] at h
  | exited dropped => rfl
  | unwound job => rfl
  | _ => simp [hw] at h

/-- From every state the workers alone can be run to their end. -/
theorem exists_finished_run (inspection : Job P → Inspection ρ ε) {n : ℕ} (s : State P ρ ε n) :
    ∃ es t, Event.cancel ∉ es ∧ run (step inspection) es s = some t ∧ t.Finished := by
  have hdecr : ∀ (e : Event n) (s t : State P ρ ε n), e ≠ .cancel → step inspection e s = some t →
      t.measure < s.measure := by
    intro e s t he ht
    cases e with
    | worker id => exact (Step.of_step ht).measure_lt
    | cancel => exact absurd rfl he
  obtain ⟨es, t, hall, hrun, hmax⟩ := exists_maximal_run State.measure hdecr s
  refine ⟨es, t, fun hmem => hall _ hmem rfl, hrun, fun id => ?_⟩
  exact workerStep_none (hmax (.worker id) (by simp))

/-! ## Which images are reached -/

/-- The queue changes only by a worker with empty hands that pops its front. -/
theorem Step.queue_cases {inspection : Job P → Inspection ρ ε} {n : ℕ} {s t : State P ρ ε n}
    {e : Event n} (h : Step inspection s e t) :
    t.queue = s.queue ∨ ∃ id job, s.workers id = .popFront ∧ s.queue = job :: t.queue := by
  cases h with
  | popped id job rest hw hq => exact Or.inr ⟨id, job, hw, hq⟩
  | _ => exact Or.inl rfl

/-- Every image taken from the queue that does not panic has fewer panicking images before it than
there are workers. -/
def Behind (inspection : Job P → Inspection ρ ε) (n : ℕ) (taken : List (Job P)) : Prop :=
  ∀ pre job post, taken = pre ++ job :: post → inspection job ≠ .panics →
    pre.countP (fun j => (inspection j).panicking) < n

/-- A delivered image did not panic. -/
theorem Inv.delivered_not_panicking {inspection : Job P → Inspection ρ ε} {paths : List P} {n : ℕ}
    {taken : List (Job P)} {s : State P ρ ε n} (h : Inv inspection paths taken s) (job : Job P)
    (hjob : job ∈ s.outcomes.map Prod.fst) : (inspection job).panicking = false := by
  obtain ⟨p, hp, rfl⟩ := List.mem_map.mp hjob
  rw [h.outcome_returned p hp]
  rfl

/-- When a free worker pops an image, fewer panicking images than workers came before it. -/
theorem popped_behind {inspection : Job P → Inspection ρ ε} {paths : List P} {n : ℕ}
    {taken : List (Job P)} {s : State P ρ ε n} (h : Inv inspection paths taken s) {id : Fin n}
    (hid : s.workers id = .popFront) :
    taken.countP (fun j => (inspection j).panicking) < n := by
  have : DecidableEq (Job P) := Classical.decEq _
  have hlt := h.accounted.taken_stuck_lt_card (enumerate_nodup paths)
    (fun j => (inspection j).panicking) h.delivered_not_panicking (v := id) (by simp [hid, Worker.held])
  rwa [Fintype.card_fin] at hlt

/-- The images reached by a run, one step further. -/
theorem Behind.step {inspection : Job P → Inspection ρ ε} {paths : List P} {n : ℕ}
    {taken : List (Job P)} {s t : State P ρ ε n} {e : Event n} (h : Inv inspection paths taken s)
    (hb : Behind inspection n taken) (hstep : Step inspection s e t) :
    ∃ taken', Inv inspection paths taken' t ∧ Behind inspection n taken' := by
  obtain ⟨taken', h'⟩ := h.step hstep
  refine ⟨taken', h', ?_⟩
  have hsplit : taken ++ s.queue = taken' ++ t.queue :=
    h.accounted.split.symm.trans h'.accounted.split
  rcases hstep.queue_cases with hq | ⟨id, job, hid, hq⟩
  · rw [hq] at hsplit
    rwa [← List.append_cancel_right hsplit]
  · have htaken : taken' = taken ++ [job] := by
      rw [hq, ← List.singleton_append, ← List.append_assoc] at hsplit
      exact (List.append_cancel_right hsplit).symm
    intro pre j post heq hj
    rw [htaken] at heq
    rcases List.eq_nil_or_concat post with rfl | ⟨post, last, rfl⟩
    · -- The image is the one popped in this step.
      have hpre : pre = taken := (List.append_inj' heq rfl).1.symm
      rw [hpre]
      exact popped_behind h hid
    · have hold : taken ++ [job] = (pre ++ j :: post) ++ [last] := by simpa using heq
      exact hb pre j post (List.append_inj' hold rfl).1 hj

/-- The images reached by a run from the start. -/
theorem run_behind {inspection : Job P → Inspection ρ ε} {progress : InspectionProgress}
    {cancel : Bool} {paths : List P} {maxWorkers : ℕ}
    {es : List (Event (workerCount maxWorkers paths.length))}
    {s : State P ρ ε (workerCount maxWorkers paths.length)}
    (h : run (step inspection) es (start progress cancel paths maxWorkers) = some s) :
    ∃ taken, Inv inspection paths taken s ∧
      Behind inspection (workerCount maxWorkers paths.length) taken := by
  refine run_invariant (fun s => ∃ taken, Inv inspection paths taken s ∧
    Behind inspection (workerCount maxWorkers paths.length) taken)
    ⟨[], inv_start inspection progress cancel paths maxWorkers, ?_⟩ ?_ h
  · intro pre job post heq
    simp at heq
  · rintro e s t ⟨taken, hs, hb⟩ ht
    exact hb.step hs (Step.of_step ht)

/-! ## The condition -/

/-- Fewer panicking images than workers come before each image that does not panic. -/
def FewPanics (inspection : Job P → Inspection ρ ε) (paths : List P) (maxWorkers : ℕ) : Prop :=
  ∀ pre job post, enumerate paths = pre ++ job :: post → inspection job ≠ .panics →
    pre.countP (fun j => (inspection j).panicking) < workerCount maxWorkers paths.length

/-- Under the condition, every image that does not panic is taken from the queue by the end of a run
without cancellation. -/
theorem taken_of_fewPanics {inspection : Job P → Inspection ρ ε} {paths : List P} {maxWorkers : ℕ}
    {taken : List (Job P)} {s : State P ρ ε (workerCount maxWorkers paths.length)}
    (hfew : FewPanics inspection paths maxWorkers) (h : Inv inspection paths taken s)
    (hdone : s.Finished)
    (hex : ∀ id dropped, s.workers id = .exited dropped → dropped = none ∧ s.queue = [])
    {job : Job P} (hjob : job ∈ enumerate paths) (hpanic : inspection job ≠ .panics) :
    job ∈ taken := by
  have : DecidableEq (Job P) := Classical.decEq _
  rw [h.accounted.split] at hjob
  rcases List.mem_append.mp hjob with hjob | hjob
  · exact hjob
  -- The image is still queued, so no worker left its loop normally: each holds a panicking image.
  exfalso
  have hheld : ∀ id, ∃ j, (s.workers id).held = some j ∧ (inspection j).panicking = true := by
    intro id
    have hd := hdone id
    cases hw : s.workers id with
    | exited dropped => rw [(hex id dropped hw).2] at hjob; cases hjob
    | unwound j => exact ⟨j, rfl, by rw [h.unwound_panics id j hw]; rfl⟩
    | _ => rw [hw] at hd; cases hd
  have hcard := h.accounted.card_le_taken_stuck (fun j => (inspection j).panicking) hheld
  rw [Fintype.card_fin] at hcard
  obtain ⟨q₁, q₂, hq⟩ := List.append_of_mem hjob
  have hlt := hfew (taken ++ q₁) job q₂ (by rw [h.accounted.split, hq, List.append_assoc]) hpanic
  rw [List.countP_append] at hlt
  omega

/-- `inspect_batch` keeps the outcomes of the other images, whatever the interleaving, exactly when
fewer panicking images than workers come before each image that does not panic. -/
theorem tolerant_iff (inspection : Job P → Inspection ρ ε) (paths : List P) (maxWorkers : ℕ) :
    Tolerant inspection paths maxWorkers ↔ FewPanics inspection paths maxWorkers := by
  have : DecidableEq (Job P) := Classical.decEq _
  have hres : ∀ job, (inspection job).result? = none ↔ inspection job = .panics := by
    intro job
    cases inspection job <;> simp [Inspection.result?]
  constructor
  · intro htol pre job post hsplit hpanic
    obtain ⟨es, s, hes, hrun, hdone⟩ := exists_finished_run inspection
      (start .new false paths maxWorkers)
    obtain ⟨taken, hinv, hbehind⟩ := run_behind hrun
    -- As many outcomes as expected means that every expected image was delivered.
    have hlen : s.outcomes.length = (expected inspection paths).length := by
      rw [← batchResult_length s, htol .new es s hes hrun hdone, collect_length]
    have hsub : s.outcomes.map Prod.fst ⊆
        (enumerate paths).filter (fun j => !(inspection j).panicking) := by
      intro j hj
      exact List.mem_filter.mpr ⟨hinv.accounted.mem_of_finished hj,
        by simp [hinv.delivered_not_panicking j hj]⟩
    have hperm := (List.subperm_of_subset hinv.accounted.finished_nodup hsub).perm_of_length_le
      (by rw [← expected_keys, List.length_map, List.length_map, hlen])
    have hjob : job ∈ s.outcomes.map Prod.fst := by
      refine hperm.mem_iff.mpr (List.mem_filter.mpr ⟨by simp [hsplit], ?_⟩)
      cases hj : inspection job with
      | returns result => simp [Inspection.panicking]
      | panics => exact absurd hj hpanic
    -- So the image was taken, and the panicking images before it are few.
    obtain ⟨t₁, t₂, ht⟩ := List.append_of_mem (hinv.accounted.finished_taken job hjob)
    have hsplit' : enumerate paths = t₁ ++ job :: (t₂ ++ s.queue) := by
      rw [hinv.accounted.split, ht]
      simp
    have hpre : pre = t₁ := by
      have hnd : (pre ++ job :: post).Nodup := hsplit ▸ enumerate_nodup paths
      obtain ⟨-, hpost, hdisj⟩ := List.nodup_append.mp hnd
      have h₁ : job ∉ pre := fun h => hdisj job h job (by simp) rfl
      have h₂ : job ∉ post := (List.nodup_cons.mp hpost).1
      exact ((List.append_cons_inj_of_notMem h₁ h₂).mp (hsplit.symm.trans hsplit')).1
    rw [hpre]
    exact hbehind t₁ job t₂ ht hpanic
  · intro hfew progress es s hes hrun hdone
    obtain ⟨taken, hinv, -⟩ := run_behind hrun
    obtain ⟨-, hex⟩ := uncancelled_exit rfl (by simp [start]) hes hrun
    rw [batchResult_eq hinv, inOrder_of_complete, expected]
    intro job hjob
    rw [hres]
    by_cases hpanic : inspection job = .panics
    · exact Or.inr hpanic
    · exact taken_delivered hinv hdone (fun id dropped hw => (hex id dropped hw).1)
        (taken_of_fewPanics hfew hinv hdone hex hjob hpanic)

/-- An inspection that panics on the first image and reports the others. -/
def firstPanics (job : Job ℕ) : Inspection ℕ String :=
  if job.1 = 0 then .panics else .returns (.ok job.2)

/-- One worker and two images, the first of which panics: the worker is unwound, the second image
stays in the queue, and the batch returns without it. -/
theorem not_tolerant_firstPanics : ¬ Tolerant firstPanics [7, 8] 1 := by
  intro h
  have hrun : (run (step firstPanics) (List.replicate 4 (.worker ⟨0, by decide⟩))
      (start .new false [7, 8] 1)).map (fun s => (decide s.Finished, s.batchResult)) =
      some (true, ⟨[], []⟩) := by decide
  obtain ⟨s, hs, hf⟩ := Option.map_eq_some_iff.mp hrun
  obtain ⟨hdone, hres⟩ := Prod.mk.inj hf
  have heq := h .new _ s (by simp) hs (of_decide_eq_true hdone)
  rw [hres] at heq
  exact absurd heq (by decide)

end VmSpect.Batch
