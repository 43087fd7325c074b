import VmSpect.Engine.ActiveOperation
import VmSpect.Engine.BatchProgress

/-!
# Progress of an engine that is used again

One engine is asked for inspections and batches, one after another. A batch resets the progress of
the engine before it starts. An inspection does not: it sets its stages and percentages, and the
detector counts its partitions, on top of what the last call has left behind. With a plan of tasks
left by a batch, a snapshot ignores the percentages of the inspection, and the partitions count as
tasks of the batch. `Fresh` is what has to hold before an update of an inspection for this not to
happen.
-/

namespace VmSpect.Reuse

open ActiveOperation Interleaving

/-- One access of an inspection to the progress of its engine. -/
inductive Update where
  | setStageId (stage : ℕ)
  | setPercentage (pct : ℕ)
  | setTotalBytes (total : ℕ)
  /-- The two halves of `increment_completed_tasks`. -/
  | fetchAddCompleted
  | storeCompletion
  deriving DecidableEq, Repr

/-- What the access does. -/
def Update.apply : Update → InspectionProgress → InspectionProgress
  | setStageId stage, p => p.setStageId stage
  | setPercentage pct, p => p.setPercentage pct
  | setTotalBytes total, p => p.setTotalBytes total
  | fetchAddCompleted, p => p.fetchAddCompleted
  | storeCompletion, p =>
    if p.totalTasks > 0 then
      p.storePercentage (InspectionProgress.taskCompletionPercentage p.completedTasks p.totalTasks)
    else p

/-- `increment_completed_tasks` for each partition. -/
def partitionUpdates (partitions : ℕ) : List Update :=
  (List.replicate partitions [Update.fetchAddCompleted, .storeCompletion]).flatten

/-- The accesses of `run_inspection`, for an image of a size and with a number of partitions. An
inspection that returns early makes only the first of them. -/
def inspectionUpdates (totalBytes partitions : ℕ) : List Update :=
  [.setStageId 1, .setPercentage 5, .setTotalBytes totalBytes, .setPercentage 15,
    .setStageId 2, .setPercentage 25] ++ partitionUpdates partitions ++
  [.setPercentage 45, .setStageId 3, .setPercentage 55, .setStageId 4, .setPercentage 90,
    .setPercentage 100]

variable {P ρ : Type}

/-- An engine with its process, and the updates that its inspection still has to make while there is
one. -/
structure Session (P ρ : Type) where
  process : System Unit Unit P ρ
  inspection : Option (List Update)

/-- The progress of the engine. -/
def Session.progress (s : Session P ρ) : InspectionProgress := s.process.progress ()

/-- The engine as it is created, with the value of its token. -/
def Session.start (token : Bool) : Session P ρ :=
  ⟨System.start (fun _ => .withCancellationToken token) fun _ => token, none⟩

/-- What can happen next. -/
inductive Event (P : Type) where
  /-- A batch, or a step of one. -/
  | operation (e : ActiveOperation.Event Unit Unit P)
  /-- `inspect` is called. -/
  | inspect (totalBytes partitions : ℕ)
  /-- The inspection updates the progress. -/
  | update
  /-- The inspection returns, after all of its updates or before. -/
  | finish

/-- One event. The calls are made one after another. -/
def step (inspectImage : Job P → Batch.Inspection ρ VmSpectError) (e : Event P)
    (s : Session P ρ) : Option (Session P ρ) :=
  match e with
  | .operation e =>
    if s.inspection = none ∨ e.thread = none then
      (ActiveOperation.step (fun _ => inspectImage) e s.process).map fun process =>
        { s with process }
    else none
  | .inspect totalBytes partitions =>
    match s.inspection, s.process.threads () with
    | none, .idle _ => some { s with inspection := some (inspectionUpdates totalBytes partitions) }
    | _, _ => none
  | .update =>
    match s.inspection with
    | some (update :: rest) =>
      some ⟨s.process.setProgress () (update.apply s.progress), some rest⟩
    | _ => none
  | .finish =>
    match s.inspection with
    | some _ => some { s with inspection := none }
    | none => none

/-- An inspection updates the progress only while there is no plan of a batch. -/
def Fresh (e : Event P) (s : Session P ρ) : Prop := e = .update → s.progress.totalTasks = 0

/-- Every step of a run is fresh. -/
def AllFresh (inspectImage : Job P → Batch.Inspection ρ VmSpectError) :
    List (Event P) → Session P ρ → Prop
  | [], _ => True
  | e :: es, s => Fresh e s ∧ ∀ t, step inspectImage e s = some t → AllFresh inspectImage es t

/-- The last step of a run was `set_percentage(pct)`. -/
def JustSet (inspectImage : Job P → Batch.Inspection ρ VmSpectError) (es : List (Event P))
    (s₀ : Session P ρ) (pct : ℕ) : Prop :=
  ∃ pre s rest, es = pre ++ [.update] ∧ run (step inspectImage) pre s₀ = some s ∧
    s.inspection = some (.setPercentage pct :: rest)

/-! ## The progress during a batch -/

section Batch

variable (inspectImage : Job P → Batch.Inspection ρ VmSpectError)

/-- What holds of the progress of the engine, by where its batch is. -/
def PlaceInv (progress : InspectionProgress) (cancel : Bool) : Place Unit P ρ → Prop
  | .resetting _ paths _ stores =>
    ∃ k before, stores = (InspectionProgress.resetStores paths.length).drop k ∧
      progress = ((InspectionProgress.resetStores paths.length).take k).foldl
        (fun p store => store p) before ∧ before.WithinPlan
  | .running _ batch _ _ =>
    ∃ paths taken, Batch.Inv inspectImage paths taken { batch with progress, cancel } ∧
      progress.totalTasks = paths.length
  | _ => progress.WithinPlan

/-- The stores of the reset never let the progress pass its plan, since the first of them clears the
completed tasks. -/
theorem withinPlan_of_reset {before : InspectionProgress} (h : before.WithinPlan) (total k : ℕ) :
    (((InspectionProgress.resetStores total).take k).foldl (fun p store => store p)
      before).WithinPlan := by
  cases k with
  | zero => exact h
  | succ k =>
    -- The stores after the first one do not touch the completed tasks.
    have hkeep : ∀ (stores : List (InspectionProgress → InspectionProgress)),
        (∀ store : InspectionProgress → InspectionProgress, store ∈ stores →
          ∀ p, (store p).completedTasks = p.completedTasks) →
        ∀ p : InspectionProgress,
          (stores.foldl (fun p store => store p) p).completedTasks = p.completedTasks := by
      intro stores
      induction stores with
      | nil => exact fun _ p => rfl
      | cons store rest ih =>
        intro hstores p
        rw [List.foldl_cons, ih (fun s hs => hstores s (List.mem_cons_of_mem _ hs)),
          hstores store List.mem_cons_self]
    intro _
    rw [InspectionProgress.resetStores, List.take_succ_cons, List.foldl_cons, hkeep]
    · exact Nat.zero_le _
    · intro store hstore p
      have hmem := List.mem_of_mem_take hstore
      simp only [List.mem_cons, List.not_mem_nil, or_false] at hmem
      rcases hmem with rfl | rfl | rfl | rfl | rfl | rfl <;> rfl

variable {inspectImage} {progress : InspectionProgress} {cancel : Bool} {place : Place Unit P ρ}

/-- Wherever the batch is, the progress has not passed its plan. -/
theorem PlaceInv.withinPlan (h : PlaceInv inspectImage progress cancel place) :
    progress.WithinPlan := by
  cases place with
  | resetting engine paths maxWorkers stores =>
    obtain ⟨k, before, -, rfl, hbefore⟩ := h
    exact withinPlan_of_reset hbefore paths.length k
  | running engine batch spawned failure =>
    obtain ⟨paths, taken, hbatch, htotal⟩ := h
    intro _
    have hcompleted := hbatch.completed
    have houtcomes := Polled.outcomes_length_le hbatch
    simp only at hcompleted houtcomes
    omega
  | _ => exact h

/-- The reset is complete when no store is left. -/
theorem PlaceInv.reset {paths : List P} {maxWorkers : ℕ}
    (h : PlaceInv inspectImage progress cancel (.resetting () paths maxWorkers [])) :
    progress = progress.resetForBatch paths.length := by
  obtain ⟨k, before, hstores, rfl, -⟩ := h
  have hk : (InspectionProgress.resetStores paths.length).length ≤ k :=
    List.drop_eq_nil_iff.mp hstores.symm
  rw [List.take_of_length_le hk]
  rfl

/-- A worker of the batch takes a step. -/
theorem PlaceInv.worker {n spawned : ℕ} {batch batch' : Batch.State P ρ VmSpectError n}
    {failure : Option IoError} {id : Fin n}
    (h : PlaceInv inspectImage progress cancel (.running () batch spawned failure))
    (hstep : Batch.workerStep inspectImage { batch with progress, cancel } id = some batch') :
    PlaceInv inspectImage batch'.progress cancel (.running () batch' spawned failure) := by
  obtain ⟨paths, taken, hbatch, htotal⟩ := h
  have hworker : Batch.step inspectImage (.worker id) { batch with progress, cancel } = some batch' :=
    hstep
  have hkind := Batch.Step.of_step hworker
  obtain ⟨taken', hinv⟩ := hbatch.step hkind
  obtain ⟨hplan, -⟩ := Polled.counters_of_step hkind
  -- The invariant does not speak of the token.
  exact ⟨paths, taken', ⟨hinv.1, hinv.2, hinv.3, hinv.4, hinv.5⟩, hplan.trans htotal⟩

/-- A step of the calling thread keeps the invariant. -/
theorem placeInv_advance {s s' : System Unit Unit P ρ} (h : advance s () = some s')
    (hs : PlaceInv inspectImage (s.progress ()) (s.cancel ()) (s.threads ())) :
    PlaceInv inspectImage (s'.progress ()) (s'.cancel ()) (s'.threads ()) := by
  have hplan := hs.withinPlan
  unfold advance at h
  cases hplace : s.threads () with
  | idle last => simp only [hplace] at h; cases h
  | getOrInit call =>
    simp only [hplace] at h
    obtain rfl := Option.some.inj h
    simpa [System.goto, PlaceInv] using hplan
  | compareExchange call =>
    simp only [hplace] at h
    split at h
    · obtain rfl := Option.some.inj h
      simpa [System.goto, PlaceInv] using hplan
    · obtain rfl := Option.some.inj h
      cases call <;> simpa [System.goto, Call.guarded, PlaceInv] using hplan
  | searching outcome =>
    simp only [hplace] at h
    obtain rfl := Option.some.inj h
    simpa [System.goto, PlaceInv] using hplan
  -- No store of the reset is made yet.
  | collecting engine paths maxWorkers =>
    simp only [hplace] at h
    obtain rfl := Option.some.inj h
    simp only [System.goto, Function.update_self]
    exact ⟨0, s.progress (), rfl, rfl, hplan⟩
  | resetting engine paths maxWorkers stores =>
    rw [hplace] at hs
    cases stores with
    | nil =>
      simp only [hplace] at h
      split at h
      · obtain rfl := Option.some.inj h
        simpa [System.goto, PlaceInv] using hplan
      · -- The workers start with the progress that the stores have left.
        obtain rfl := Option.some.inj h
        have hreset : s.progress () = (s.progress ()).resetForBatch paths.length := hs.reset
        simp only [System.goto, Function.update_self]
        have hstart := Batch.inv_start inspectImage (s.progress ()) (s.cancel ()) paths maxWorkers
        refine ⟨paths, [], ⟨hstart.1, hstart.2, hstart.3, hstart.4, ?_⟩, ?_⟩
        · have hcompleted := hstart.completed
          simp only [Batch.start] at hcompleted
          rw [hreset]
          exact hcompleted
        · rw [hreset]
          rfl
    -- One more store is made, on top of those before it.
    | cons store stores =>
      simp only [hplace] at h
      obtain rfl := Option.some.inj h
      obtain ⟨k, before, hstores, hprogress, hbefore⟩ := hs
      simp only [System.goto, System.setProgress, Function.update_self]
      have hk : k < (InspectionProgress.resetStores paths.length).length := by
        by_contra hle
        rw [List.drop_of_length_le (by omega)] at hstores
        cases hstores
      rw [List.drop_eq_getElem_cons hk] at hstores
      obtain ⟨hstore, hrest⟩ := List.cons.inj hstores
      refine ⟨k + 1, before, hrest, ?_, hbefore⟩
      rw [List.take_succ_eq_append_getElem hk, List.foldl_append, ← hprogress, hstore]
      rfl
  | running engine batch spawned failure =>
    simp only [hplace] at h
    split at h
    · obtain rfl := Option.some.inj h
      simpa [System.goto, PlaceInv] using hplan
    · cases h
  | returning outcome =>
    simp only [hplace] at h
    obtain rfl := Option.some.inj h
    simpa [System.goto, PlaceInv] using hplan

/-- Every step of the process keeps the invariant. -/
theorem placeInv_step {s s' : System Unit Unit P ρ} {e : ActiveOperation.Event Unit Unit P}
    (h : ActiveOperation.step (fun _ => inspectImage) e s = some s')
    (hs : PlaceInv inspectImage (s.progress ()) (s.cancel ()) (s.threads ())) :
    PlaceInv inspectImage (s'.progress ()) (s'.cancel ()) (s'.threads ()) := by
  have hplan := hs.withinPlan
  cases e with
  | call t call =>
    simp only [ActiveOperation.step] at h
    split at h
    · obtain rfl := Option.some.inj h
      simpa [System.goto, PlaceInv] using hplan
    · cases h
  | advance t => exact placeInv_advance h hs
  | unwind t =>
    simp only [ActiveOperation.step] at h
    split at h
    · obtain rfl := Option.some.inj h
      simpa [System.goto, PlaceInv] using hplan
    · obtain rfl := Option.some.inj h
      simpa [System.goto, PlaceInv] using hplan
    · cases h
  | spawn t =>
    simp only [ActiveOperation.step] at h
    split at h
    · rename_i engine n batch spawned hplace
      split at h
      · obtain rfl := Option.some.inj h
        rw [hplace] at hs
        simpa [System.goto, PlaceInv] using hs
      · cases h
    · cases h
  | spawnFails t error =>
    simp only [ActiveOperation.step] at h
    split at h
    · rename_i engine n batch spawned hplace
      split at h
      · obtain rfl := Option.some.inj h
        rw [hplace] at hs
        simpa [System.goto, PlaceInv] using hs
      · cases h
    · cases h
  | worker t id =>
    simp only [ActiveOperation.step] at h
    split at h
    · rename_i engine n batch spawned failure hplace
      split at h
      · obtain ⟨batch', hbatch, rfl⟩ := Option.map_eq_some_iff.mp h
        rw [hplace] at hs
        simpa [System.goto, System.setProgress] using hs.worker hbatch
      · cases h
    · cases h
  | cancel engine =>
    obtain rfl := Option.some.inj h
    -- Only the batch invariant mentions the token, and it does not depend on it.
    cases hplace : s.threads () with
    | running engine batch spawned failure =>
      rw [hplace] at hs
      obtain ⟨paths, taken, hbatch, htotal⟩ := hs
      exact ⟨paths, taken, ⟨hbatch.1, hbatch.2, hbatch.3, hbatch.4, hbatch.5⟩, htotal⟩
    | resetting engine paths maxWorkers stores =>
      rw [hplace] at hs
      exact hs
    | _ => exact hplan

end Batch

/-! ## Whole sessions -/

section Sessions

variable (inspectImage : Job P → Batch.Inspection ρ VmSpectError)

/-- What holds in every state of a session whose steps are fresh. -/
structure Inv (s : Session P ρ) : Prop where
  place : PlaceInv inspectImage s.progress (s.process.cancel ()) (s.process.threads ())
  /-- There is no batch during an inspection. -/
  idle : ∀ updates, s.inspection = some updates → ∃ last, s.process.threads () = .idle last
  percentages : ∀ updates, s.inspection = some updates →
    ∀ pct, Update.setPercentage pct ∈ updates → pct ≤ 100

/-- An inspection stores percentages. -/
theorem percentages_le {totalBytes partitions pct : ℕ}
    (h : Update.setPercentage pct ∈ inspectionUpdates totalBytes partitions) : pct ≤ 100 := by
  simp only [inspectionUpdates, partitionUpdates, List.mem_append, List.mem_cons,
    Update.setPercentage.injEq, reduceCtorEq, List.not_mem_nil, List.mem_flatten,
    List.mem_replicate, false_or, or_false] at h
  rcases h with (h | ⟨updates, ⟨-, rfl⟩, h⟩) | h
  · omega
  · simp at h
  · omega

/-- No update changes the plan. -/
theorem Update.apply_totalTasks (update : Update) (p : InspectionProgress) :
    (update.apply p).totalTasks = p.totalTasks := by
  cases update with
  | storeCompletion =>
    simp only [Update.apply]
    split <;> rfl
  | _ => rfl

/-- The invariant holds before the first call. -/
theorem inv_start (token : Bool) : Inv inspectImage (Session.start token : Session P ρ) where
  place := fun h => absurd h (Nat.lt_irrefl 0)
  idle _ h := by cases h
  percentages _ h := by cases h

variable {inspectImage} {s t : Session P ρ} {e : Event P}

/-- A fresh step keeps the invariant. -/
theorem Inv.step (hs : Inv inspectImage s) (hfresh : Fresh e s)
    (h : Reuse.step inspectImage e s = some t) : Inv inspectImage t := by
  cases e with
  -- A step of a batch, or the token being set.
  | operation e =>
    simp only [Reuse.step] at h
    split at h
    · rename_i hfree
      obtain ⟨process, hprocess, rfl⟩ := Option.map_eq_some_iff.mp h
      refine ⟨placeInv_step hprocess hs.place, ?_, hs.percentages⟩
      intro updates hupdates
      rcases hfree with hnone | hthread
      · rw [hnone] at hupdates
        cases hupdates
      · -- Setting the token moves no thread.
        cases e with
        | cancel engine =>
          obtain rfl := Option.some.inj hprocess
          exact hs.idle updates hupdates
        | _ => cases hthread
    · cases h
  | inspect totalBytes partitions =>
    simp only [Reuse.step] at h
    split at h
    · rename_i last hnone hplace
      obtain rfl := Option.some.inj h
      refine ⟨hs.place, fun _ _ => ⟨last, hplace⟩, ?_⟩
      intro updates hupdates pct hpct
      obtain rfl := Option.some.inj hupdates
      exact percentages_le hpct
    · cases h
  | update =>
    simp only [Reuse.step] at h
    split at h
    · rename_i update rest hupdates
      obtain rfl := Option.some.inj h
      obtain ⟨last, hidle⟩ := hs.idle _ hupdates
      refine ⟨?_, fun _ _ => ⟨last, hidle⟩, ?_⟩
      · -- There is no plan, so nothing can pass it.
        have hzero : (s.process.progress ()).totalTasks = 0 := hfresh rfl
        simp only [Session.progress, System.setProgress, Function.update_self, hidle]
        intro hpos
        rw [Update.apply_totalTasks, hzero] at hpos
        exact absurd hpos (Nat.lt_irrefl 0)
      · intro updates hrest pct hpct
        obtain rfl := Option.some.inj hrest
        exact hs.percentages _ hupdates pct (List.mem_cons_of_mem _ hpct)
    · cases h
  | finish =>
    simp only [Reuse.step] at h
    split at h
    · obtain rfl := Option.some.inj h
      exact ⟨hs.place, nofun, nofun⟩
    · cases h

/-- After a fresh `set_percentage(pct)`, a snapshot shows it. -/
theorem Inv.snapshot_of_setPercentage (hs : Inv inspectImage s) (hfresh : Fresh .update s)
    {pct : ℕ} {rest : List Update} (hnext : s.inspection = some (.setPercentage pct :: rest))
    (h : Reuse.step inspectImage .update s = some t) (token : Bool) :
    (t.progress.snapshot token).percentage = pct := by
  have hzero : (s.process.progress ()).totalTasks = 0 := hfresh rfl
  have hle := hs.percentages _ hnext pct List.mem_cons_self
  simp only [Reuse.step, hnext] at h
  obtain rfl := Option.some.inj h
  simp only [Session.progress, System.setProgress, Function.update_self]
  unfold InspectionProgress.snapshot InspectionProgress.snapshotPercentage
  rw [Update.apply_totalTasks, hzero, if_neg (Nat.lt_irrefl 0)]
  exact min_eq_left hle

/-- A run of fresh steps keeps the invariant, and the next step of it is fresh too. -/
theorem Inv.run (hs : Inv inspectImage s) {es fs : List (Event P)}
    (hfresh : AllFresh inspectImage (es ++ fs) s)
    (h : Interleaving.run (Reuse.step inspectImage) es s = some t) :
    Inv inspectImage t ∧ AllFresh inspectImage fs t := by
  induction es generalizing s with
  | nil =>
    obtain rfl := Option.some.inj h
    exact ⟨hs, hfresh⟩
  | cons e es ih =>
    rw [run_cons] at h
    obtain ⟨u, hu, hrun⟩ := Option.bind_eq_some_iff.mp h
    exact ih (hs.step hfresh.1 hu) (hfresh.2 u hu) hrun

/-- In every session in which inspections update the progress only while there is no plan of a
batch, the completed tasks of a plan never pass it, and right after an inspection sets a percentage
a snapshot shows it. -/
theorem reuse_progress (inspectImage : Job P → Batch.Inspection ρ VmSpectError) (token : Bool)
    {es : List (Event P)} {s : Session P ρ}
    (h : Interleaving.run (Reuse.step inspectImage) es (Session.start token) = some s)
    (hfresh : AllFresh inspectImage es (Session.start token)) :
    s.progress.WithinPlan ∧
      ∀ pct, JustSet inspectImage es (Session.start token) pct →
        (s.progress.snapshot (s.process.cancel ())).percentage = pct := by
  have hstart := inv_start inspectImage token
  constructor
  · have hall : AllFresh inspectImage (es ++ []) (Session.start token) := by
      rwa [List.append_nil]
    obtain ⟨hs, -⟩ := hstart.run hall h
    exact hs.place.withinPlan
  · rintro pct ⟨pre, u, rest, rfl, hpre, hnext⟩
    obtain ⟨u', hu', hstep⟩ := (run_snoc_iff pre .update _ s).mp h
    obtain rfl := Option.some.inj (hpre.symm.trans hu')
    obtain ⟨hu, hlast⟩ := hstart.run hfresh hpre
    exact hu.snapshot_of_setPercentage hlast.1 hnext hstep _

end Sessions

/-- A batch of one image. -/
def oneImage : List (Event Unit) :=
  [.operation (.call () (.inspectBatch () [()] 1))] ++
    List.replicate 11 (.operation (.advance ())) ++ [.operation (.spawn ())] ++
    List.replicate 10 (.operation (.worker () 0)) ++ List.replicate 2 (.operation (.advance ()))

/-- The first percentage of the first inspection of an engine. -/
theorem reuse_progress_inspections :
    ∃ s : Session Unit Unit,
      Interleaving.run (Reuse.step fun _ => .returns (.ok ())) [.inspect 512 1, .update, .update]
        (Session.start false) = some s ∧ s.progress.WithinPlan ∧
        (s.progress.snapshot (s.process.cancel ())).percentage = 5 := by
  have hfresh : AllFresh (fun _ => .returns (.ok ())) [.inspect 512 1, .update, .update]
      (Session.start false : Session Unit Unit) := by
    refine ⟨nofun, fun t ht => ⟨fun _ => ?_, fun u hu => ⟨fun _ => ?_, fun _ _ => trivial⟩⟩⟩
    · cases ht
      rfl
    · cases ht
      cases hu
      rfl
  obtain ⟨s, hs, hset⟩ : ∃ s : Session Unit Unit,
      Interleaving.run (Reuse.step fun _ => .returns (.ok ())) [.inspect 512 1, .update, .update]
        (Session.start false) = some s ∧
      JustSet (fun _ => .returns (.ok ())) [.inspect 512 1, .update, .update]
        (Session.start false : Session Unit Unit) 5 :=
    ⟨_, rfl, [.inspect 512 1, .update], _, _, rfl, rfl, rfl⟩
  obtain ⟨hplan, hsnapshot⟩ := reuse_progress _ false hs hfresh
  exact ⟨s, hs, hplan, hsnapshot 5 hset⟩

/-- After a batch of one image, an inspection sets the percentage 5 and a snapshot shows 100, and
the first partition is counted as a second task of the batch. -/
theorem reuse_progress_after_batch :
    (∃ s : Session Unit Unit,
      Interleaving.run (Reuse.step fun _ => .returns (.ok ()))
        (oneImage ++ [.inspect 512 1, .update, .update]) (Session.start false) = some s ∧
      JustSet (fun _ => .returns (.ok ())) (oneImage ++ [.inspect 512 1, .update, .update])
        (Session.start false : Session Unit Unit) 5 ∧
      (s.progress.snapshot (s.process.cancel ())).percentage = 100) ∧
    ∃ s : Session Unit Unit,
      Interleaving.run (Reuse.step fun _ => .returns (.ok ()))
        (oneImage ++ [.inspect 512 1] ++ List.replicate 7 .update) (Session.start false) = some s ∧
      s.progress.totalTasks = 1 ∧ s.progress.completedTasks = 2 ∧ ¬s.progress.WithinPlan := by
  refine ⟨⟨_, rfl, ⟨oneImage ++ [.inspect 512 1, .update], _, _, rfl, rfl, rfl⟩, rfl⟩,
    ⟨_, rfl, rfl, rfl, fun h => ?_⟩⟩
  exact absurd (h (by decide)) (by decide)

end VmSpect.Reuse
