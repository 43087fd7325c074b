import VmSpect.Engine.BatchOutcomes

/-!
# Polling the progress of a batch

While `inspect_batch` runs, other threads call `snapshot` on the progress of its engine. Each call
loads one field after another, and the workers move between the loads. `Poller` is where a call is,
and the log keeps the snapshots in the order in which the calls returned. Of two calls, one comes
after the other when it begins after the other has returned; for this the log keeps with every
snapshot how many had been returned when its call began.

The counters only grow during a batch, and a snapshot computes its percentage from the counters that
it loaded. So the order in which the workers store the percentage field plays no part.
-/

namespace VmSpect.Polled

open Interleaving Batch

variable {P ρ ε : Type}

/-- Where a call of `snapshot` is, with what it has loaded. -/
inductive Poller where
  /-- About to load `total_tasks`. -/
  | loadTotal
  /-- About to load `completed_tasks`. -/
  | loadCompleted (total : ℕ)
  /-- About to load the percentage, which it does when there is no plan of tasks. -/
  | loadPercentage (loaded : ProgressSnapshot)
  /-- About to load the stage, the byte counters, the flag and the linked token. -/
  | loadStage (loaded : ProgressSnapshot)
  | loadBytes (loaded : ProgressSnapshot)
  | loadTotalBytes (loaded : ProgressSnapshot)
  | loadCancelled (loaded : ProgressSnapshot)
  | loadToken (loaded : ProgressSnapshot)
  deriving DecidableEq

/-- A call of `snapshot` that has not returned, and the number of calls that had returned when it
began. -/
structure Call where
  began : ℕ
  poller : Poller

/-- A snapshot that was returned, with the number of calls that had returned when its call began. -/
structure Returned where
  began : ℕ
  snapshot : ProgressSnapshot
  deriving DecidableEq

/-- A batch with the threads that poll it, any number of them. -/
structure State (P ρ ε : Type) (n : ℕ) where
  batch : Batch.State P ρ ε n
  calls : ℕ → Option Call
  log : List Returned

/-- A step of the batch, the start of a call by a thread, or the next load of its call. -/
inductive Event (n : ℕ) where
  | batch (e : Batch.Event n)
  | begin (thread : ℕ)
  | load (thread : ℕ)

/-- The state in which the workers are spawned and no call is made. -/
def start (progress : InspectionProgress) (cancel : Bool) (paths : List P) (maxWorkers : ℕ) :
    State P ρ ε (workerCount maxWorkers paths.length) where
  batch := Batch.start progress cancel paths maxWorkers
  calls := fun _ => none
  log := []

/-- The call of a thread goes on to another load. -/
def State.goto {n : ℕ} (s : State P ρ ε n) (thread began : ℕ) (poller : Poller) : State P ρ ε n :=
  { s with calls := Function.update s.calls thread (some ⟨began, poller⟩) }

/-- The call of a thread returns. -/
def State.finish {n : ℕ} (s : State P ρ ε n) (thread began : ℕ) (snapshot : ProgressSnapshot) :
    State P ρ ε n :=
  { s with
    calls := Function.update s.calls thread none
    log := s.log ++ [⟨began, snapshot⟩] }

/-- The next load of a call. -/
def loadStep {n : ℕ} (s : State P ρ ε n) (thread began : ℕ) : Poller → State P ρ ε n
  | .loadTotal => s.goto thread began (.loadCompleted s.batch.progress.totalTasks)
  | .loadCompleted total =>
    let completed := s.batch.progress.completedTasks
    let loaded : ProgressSnapshot :=
      ⟨InspectionProgress.snapshotPercentage total completed 0, 0, completed, total, 0, 0, false⟩
    s.goto thread began (if total > 0 then .loadStage loaded else .loadPercentage loaded)
  | .loadPercentage loaded =>
    s.goto thread began (.loadStage { loaded with percentage := s.batch.progress.percentage })
  | .loadStage loaded =>
    s.goto thread began (.loadBytes { loaded with stageId := s.batch.progress.stageId })
  | .loadBytes loaded =>
    s.goto thread began
      (.loadTotalBytes { loaded with bytesProcessed := s.batch.progress.bytesProcessed })
  | .loadTotalBytes loaded =>
    s.goto thread began (.loadCancelled { loaded with totalBytes := s.batch.progress.totalBytes })
  | .loadCancelled loaded =>
    if s.batch.progress.cancelled then s.finish thread began { loaded with cancelled := true }
    else s.goto thread began (.loadToken loaded)
  | .loadToken loaded => s.finish thread began { loaded with cancelled := s.batch.cancel }

/-- One event. -/
def step (inspection : Job P → Inspection ρ ε) {n : ℕ} (e : Event n) (s : State P ρ ε n) :
    Option (State P ρ ε n) :=
  match e with
  | .batch e => (Batch.step inspection e s.batch).map fun batch => { s with batch }
  | .begin thread =>
    match s.calls thread with
    | some _ => none
    | none => some (s.goto thread s.log.length .loadTotal)
  | .load thread =>
    match s.calls thread with
    | some call => some (loadStep s thread call.began call.poller)
    | none => none

/-! ## The counters of a batch -/

/-- A step of the batch keeps the plan and takes no completed task back. -/
theorem counters_of_step {inspection : Job P → Inspection ρ ε} {n : ℕ} {s t : Batch.State P ρ ε n}
    {e : Batch.Event n} (h : Batch.Step inspection s e t) :
    t.progress.totalTasks = s.progress.totalTasks ∧
      s.progress.completedTasks ≤ t.progress.completedTasks := by
  cases h with
  | added id hw => exact ⟨rfl, Nat.le_succ _⟩
  | _ => exact ⟨rfl, le_rfl⟩

/-- No more outcomes are delivered than there are paths. -/
theorem outcomes_length_le {inspection : Job P → Inspection ρ ε} {paths : List P} {n : ℕ}
    {taken : List (Job P)} {s : Batch.State P ρ ε n} (h : Batch.Inv inspection paths taken s) :
    s.outcomes.length ≤ paths.length := by
  have hsub : s.outcomes.map Prod.fst ⊆ enumerate paths := fun _ => h.accounted.mem_of_finished
  have hlen := (h.accounted.finished_nodup.subperm hsub).length_le
  rwa [List.length_map, enumerate_length] at hlen

/-! ## The invariant -/

/-- What a snapshot of a batch over `n` paths says, when `now` tasks are completed. -/
structure Sound (n now : ℕ) (snapshot : ProgressSnapshot) : Prop where
  total : snapshot.totalTasks = n
  percentage : snapshot.percentage = 100 * snapshot.completedTasks / n
  completed : snapshot.completedTasks ≤ now

/-- What a call has loaded is sound, and not behind the calls that had returned when it began. -/
def Poller.Good (n now : ℕ) (before : List Returned) : Poller → Prop
  | loadTotal => True
  | loadCompleted total => total = n
  | loadPercentage _ => False
  | loadStage loaded | loadBytes loaded | loadTotalBytes loaded | loadCancelled loaded
  | loadToken loaded =>
    Sound n now loaded ∧ ∀ r ∈ before, r.snapshot.completedTasks ≤ loaded.completedTasks

/-- What holds in every reachable state of a polled batch. -/
structure Inv (inspection : Job P → Inspection ρ ε) (paths : List P) {n : ℕ} (s : State P ρ ε n) :
    Prop where
  batch : ∃ taken, Batch.Inv inspection paths taken s.batch
  total : s.batch.progress.totalTasks = paths.length
  /-- Every returned snapshot is sound and not behind the ones before it. -/
  returned : ∀ t ∈ s.log, t.began ≤ s.log.length ∧
    Sound paths.length s.batch.progress.completedTasks t.snapshot ∧
    ∀ r ∈ s.log.take t.began, r.snapshot.completedTasks ≤ t.snapshot.completedTasks
  calling : ∀ thread call, s.calls thread = some call → call.began ≤ s.log.length ∧
    call.poller.Good paths.length s.batch.progress.completedTasks (s.log.take call.began)

section Preserved

variable {inspection : Job P → Inspection ρ ε} {paths : List P} {n : ℕ} {s : State P ρ ε n}

/-- A sound snapshot stays sound while the batch goes on. -/
theorem Sound.later {now now' m : ℕ} {snapshot : ProgressSnapshot} (h : Sound m now snapshot)
    (hle : now ≤ now') : Sound m now' snapshot :=
  ⟨h.total, h.percentage, h.completed.trans hle⟩

/-- So does one that is being taken. -/
theorem Poller.Good.later {now now' m : ℕ} {before : List Returned} {poller : Poller}
    (h : poller.Good m now before) (hle : now ≤ now') : poller.Good m now' before := by
  cases poller with
  | loadTotal => trivial
  | loadCompleted total => exact h
  | loadPercentage loaded => exact h
  | _ => exact ⟨h.1.later hle, h.2⟩

/-- The counters of the batch: no more tasks are completed than outcomes are delivered, and no more
of these than there are paths. -/
theorem Inv.counters (h : Inv inspection paths s) :
    s.batch.progress.completedTasks ≤ s.batch.outcomes.length ∧
      s.batch.outcomes.length ≤ paths.length := by
  obtain ⟨taken, hbatch⟩ := h.batch
  have hcompleted := hbatch.completed
  exact ⟨by omega, outcomes_length_le hbatch⟩

/-- A step of the batch. -/
theorem Inv.batchStep (h : Inv inspection paths s) {e : Batch.Event n} {t : Batch.State P ρ ε n}
    (hstep : Batch.Step inspection s.batch e t) : Inv inspection paths { s with batch := t } := by
  obtain ⟨taken, hbatch⟩ := h.batch
  obtain ⟨htotal, hcompleted⟩ := counters_of_step hstep
  refine ⟨hbatch.step hstep, htotal.trans h.total, ?_, ?_⟩
  · intro r hr
    obtain ⟨hbegan, hsound, hafter⟩ := h.returned r hr
    exact ⟨hbegan, hsound.later hcompleted, hafter⟩
  · intro thread call hcall
    obtain ⟨hbegan, hgood⟩ := h.calling thread call hcall
    exact ⟨hbegan, hgood.later hcompleted⟩

/-- A call goes on to a load that is in order. -/
theorem Inv.goto (h : Inv inspection paths s) {thread began : ℕ} {poller : Poller}
    (hbegan : began ≤ s.log.length)
    (hgood : poller.Good paths.length s.batch.progress.completedTasks (s.log.take began)) :
    Inv inspection paths (s.goto thread began poller) := by
  refine ⟨h.batch, h.total, h.returned, ?_⟩
  intro other call hcall
  change Function.update s.calls thread (some ⟨began, poller⟩) other = some call at hcall
  by_cases hother : other = thread
  · rw [hother, Function.update_self] at hcall
    cases hcall
    exact ⟨hbegan, hgood⟩
  · rw [Function.update_of_ne hother] at hcall
    exact h.calling other call hcall

/-- A call returns a snapshot that is in order. -/
theorem Inv.finish (h : Inv inspection paths s) {thread began : ℕ} {snapshot : ProgressSnapshot}
    (hbegan : began ≤ s.log.length)
    (hsound : Sound paths.length s.batch.progress.completedTasks snapshot)
    (hafter : ∀ r ∈ s.log.take began, r.snapshot.completedTasks ≤ snapshot.completedTasks) :
    Inv inspection paths (s.finish thread began snapshot) := by
  -- The part of the log that a call looks back at stays the same.
  have htake : ∀ {k : ℕ}, k ≤ s.log.length →
      (s.log ++ [(⟨began, snapshot⟩ : Returned)]).take k = s.log.take k := fun hk =>
    List.take_append_of_le_length hk
  refine ⟨h.batch, h.total, ?_, ?_⟩
  · intro r hr
    rw [State.finish] at hr ⊢
    dsimp only at hr ⊢
    rw [List.length_append, List.length_singleton]
    rcases List.mem_append.mp hr with hr | hr
    · obtain ⟨hbegan', hsound', hafter'⟩ := h.returned r hr
      exact ⟨by omega, hsound', by rwa [htake hbegan']⟩
    · obtain rfl := List.mem_singleton.mp hr
      exact ⟨by dsimp only; omega, hsound, by rwa [htake hbegan]⟩
  · intro other call hcall
    rw [State.finish] at hcall ⊢
    dsimp only at hcall ⊢
    by_cases hother : other = thread
    · subst hother
      rw [Function.update_self] at hcall
      cases hcall
    · rw [Function.update_of_ne hother] at hcall
      obtain ⟨hbegan', hgood⟩ := h.calling other call hcall
      rw [List.length_append, htake hbegan']
      exact ⟨by omega, hgood⟩

/-- The load of `completed_tasks`, of a batch with work. -/
theorem Inv.sound_of_load (h : Inv inspection paths s) :
    Sound paths.length s.batch.progress.completedTasks
      ⟨InspectionProgress.snapshotPercentage paths.length s.batch.progress.completedTasks 0, 0,
        s.batch.progress.completedTasks, paths.length, 0, 0, false⟩ := by
  obtain ⟨hcompleted, houtcomes⟩ := h.counters
  refine ⟨rfl, ?_, le_rfl⟩
  show InspectionProgress.snapshotPercentage _ _ _ = _
  unfold InspectionProgress.snapshotPercentage
  split
  · exact InspectionProgress.taskCompletionPercentage_of_le (by omega)
  · have hzero : paths.length = 0 := by omega
    rw [hzero, Nat.div_zero]

/-- The next load of a call. -/
theorem Inv.loadStep (h : Inv inspection paths s) (hpos : 0 < paths.length) {thread : ℕ} {call : Call}
    (hcall : s.calls thread = some call) :
    Inv inspection paths (loadStep s thread call.began call.poller) := by
  obtain ⟨hbegan, hgood⟩ := h.calling thread call hcall
  obtain ⟨began, poller⟩ := call
  cases poller with
  | loadTotal => exact h.goto hbegan h.total
  -- The counter is loaded here, and the percentage of the snapshot is computed from it.
  | loadCompleted total =>
    obtain rfl : total = paths.length := hgood
    rw [Polled.loadStep]
    dsimp only
    rw [if_pos hpos]
    refine h.goto hbegan ⟨h.sound_of_load, fun r hr => ?_⟩
    exact (h.returned r (List.mem_of_mem_take hr)).2.1.completed
  -- With a plan the stored percentage is not loaded.
  | loadPercentage loaded => exact hgood.elim
  | loadStage loaded =>
    exact h.goto hbegan ⟨⟨hgood.1.total, hgood.1.percentage, hgood.1.completed⟩, hgood.2⟩
  | loadBytes loaded =>
    exact h.goto hbegan ⟨⟨hgood.1.total, hgood.1.percentage, hgood.1.completed⟩, hgood.2⟩
  | loadTotalBytes loaded =>
    exact h.goto hbegan ⟨⟨hgood.1.total, hgood.1.percentage, hgood.1.completed⟩, hgood.2⟩
  | loadCancelled loaded =>
    rw [Polled.loadStep]
    split
    · exact h.finish hbegan ⟨hgood.1.total, hgood.1.percentage, hgood.1.completed⟩ hgood.2
    · exact h.goto hbegan hgood
  | loadToken loaded =>
    exact h.finish hbegan ⟨hgood.1.total, hgood.1.percentage, hgood.1.completed⟩ hgood.2

/-- Every step keeps the invariant. -/
theorem Inv.step (h : Inv inspection paths s) (hpos : 0 < paths.length) {e : Event n}
    {t : State P ρ ε n} (hstep : Polled.step inspection e s = some t) : Inv inspection paths t := by
  cases e with
  | batch e =>
    obtain ⟨batch, hbatch, rfl⟩ := Option.map_eq_some_iff.mp hstep
    exact h.batchStep (Batch.Step.of_step hbatch)
  | begin thread =>
    simp only [Polled.step] at hstep
    split at hstep
    · cases hstep
    · obtain rfl := Option.some.inj hstep
      exact h.goto le_rfl trivial
  | load thread =>
    simp only [Polled.step] at hstep
    split at hstep
    · rename_i call hcall
      obtain rfl := Option.some.inj hstep
      exact h.loadStep hpos hcall
    · cases hstep

end Preserved

/-- The invariant holds in every state that a run reaches. -/
theorem run_polled_inv {inspection : Job P → Inspection ρ ε} {progress : InspectionProgress}
    {cancel : Bool} {paths : List P} {maxWorkers : ℕ} (hpos : 0 < paths.length)
    {es : List (Event (workerCount maxWorkers paths.length))}
    {s : State P ρ ε (workerCount maxWorkers paths.length)}
    (h : run (step inspection) es (start progress cancel paths maxWorkers) = some s) :
    Inv inspection paths s := by
  refine run_invariant (Inv inspection paths) ?_ (fun e s t hs ht => hs.step hpos ht) h
  refine ⟨⟨[], inv_start inspection progress cancel paths maxWorkers⟩, rfl, ?_, ?_⟩
  · intro r hr
    cases hr
  · intro thread call hcall
    cases hcall

/-- The snapshots of a batch over `n` paths, in every run: they show the plan of `n` tasks, the
percentage that their completed tasks are of it, no more completed tasks than there are outcomes,
and 100 percent only when all outcomes are there. Of two calls one after the other, the later one
shows no smaller counter and no smaller percentage. -/
theorem snapshots_sound (inspection : Job P → Inspection ρ ε) (progress : InspectionProgress)
    (cancel : Bool) (paths : List P) (maxWorkers : ℕ) (hpos : 0 < paths.length)
    {es : List (Event (workerCount maxWorkers paths.length))}
    {s : State P ρ ε (workerCount maxWorkers paths.length)}
    (h : run (step inspection) es (start progress cancel paths maxWorkers) = some s) :
    (∀ r ∈ s.log, r.snapshot.totalTasks = paths.length ∧
      r.snapshot.percentage = 100 * r.snapshot.completedTasks / paths.length ∧
      r.snapshot.percentage ≤ 100 ∧
      r.snapshot.completedTasks ≤ s.batch.outcomes.length ∧
      (r.snapshot.percentage = 100 → s.batch.outcomes.length = paths.length)) ∧
    ∀ (i j : ℕ) (r t : Returned), s.log[i]? = some r → s.log[j]? = some t → i < t.began →
      r.snapshot.completedTasks ≤ t.snapshot.completedTasks ∧
        r.snapshot.percentage ≤ t.snapshot.percentage := by
  have hinv := run_polled_inv hpos h
  obtain ⟨hcompleted, houtcomes⟩ := hinv.counters
  constructor
  · intro r hr
    obtain ⟨-, hsound, -⟩ := hinv.returned r hr
    have hnow := hsound.completed
    have hle : r.snapshot.completedTasks ≤ paths.length := by omega
    refine ⟨hsound.total, hsound.percentage, ?_, by omega, fun hfull => ?_⟩
    · rw [hsound.percentage]
      exact Nat.div_le_of_le_mul (by nlinarith)
    · -- A percentage of 100 leaves no task, since the division rounds down.
      rw [hsound.percentage, Nat.div_eq_iff hpos] at hfull
      have hall : paths.length ≤ r.snapshot.completedTasks := by omega
      omega
  · intro i j r t hr ht hbefore
    obtain ⟨hbegan, htsound, hafter⟩ := hinv.returned t (List.mem_of_getElem? ht)
    obtain ⟨-, hrsound, -⟩ := hinv.returned r (List.mem_of_getElem? hr)
    -- The earlier snapshot was in the log when the later call began.
    have hmem : r ∈ s.log.take t.began := by
      refine List.mem_of_getElem? (i := i) ?_
      rw [List.getElem?_take_of_lt hbefore, hr]
    have hle := hafter r hmem
    refine ⟨hle, ?_⟩
    rw [hrsound.percentage, htsound.percentage]
    exact Nat.div_le_div_right (by omega)

/-- One worker over two images and two calls: the first one loads its counter after the first image,
and the second one begins when the first one has returned. -/
def sampleSchedule : List (Event (workerCount 1 2)) :=
  [.begin 0, .load 0] ++ List.replicate 8 (.batch (.worker ⟨0, by decide⟩)) ++
    List.replicate 6 (.load 0) ++ [.begin 1] ++
    List.replicate 8 (.batch (.worker ⟨0, by decide⟩)) ++ List.replicate 7 (.load 1)

/-- The two snapshots of the schedule show the half and the whole of the batch. -/
theorem snapshots_sound_two :
    0 < [4, 5].length ∧
    ∃ s, run (step (fun job => .returns (sampleResult job))) sampleSchedule
        (start .new false [4, 5] 1) = some s ∧
      s.log = [⟨0, ⟨50, 0, 1, 2, 0, 0, false⟩⟩, ⟨1, ⟨100, 0, 2, 2, 0, 0, false⟩⟩] ∧
      ∀ r ∈ s.log, r.snapshot.percentage = 100 * r.snapshot.completedTasks / 2 := by
  have hpos : 0 < [4, 5].length := by decide
  have h : (run (step (fun job => .returns (sampleResult job))) sampleSchedule
      (start .new false [4, 5] 1)).map State.log =
      some [⟨0, ⟨50, 0, 1, 2, 0, 0, false⟩⟩, ⟨1, ⟨100, 0, 2, 2, 0, 0, false⟩⟩] := by decide
  obtain ⟨s, hs, hlog⟩ := Option.map_eq_some_iff.mp h
  obtain ⟨hsound, -⟩ := snapshots_sound _ .new false [4, 5] 1 hpos hs
  exact ⟨hpos, s, hs, hlog, fun r hr => (hsound r hr).2.1⟩

end VmSpect.Polled
