import VmSpect.Lib.Exclusion
import VmSpect.Engine.Batch
import VmSpect.Vms.Discovery

/-!
# One discovery or batch at a time

`src/operation.rs`: `list_vms_with_options` and `inspect_batch` first acquire the process-wide slot,
and the guard gives it back when it is dropped, which is the last thing that these functions do,
whichever way they end. `list_vms`, `count_vms` and `has_vms` call the first of them.

The threads of the process make such calls in any order. The steps are the accesses to the slot and
to the progress of an engine: `get_or_init`, `compare_exchange`, the stores of `reset_for_batch`,
those of the workers of a batch (`Batch.workerStep`) and the store of the guard. A discovery between
its acquire and its return touches nothing that is shared.
-/

namespace VmSpect.ActiveOperation

open Discovery Interleaving Exclusion

/-- The calls that need the slot. `G` are the engines of the process, `P` the paths of a batch. -/
inductive Call (G P : Type) where
  | listVmsWithOptions (root : Root) (options : DiscoveryOptions)
  | listVms (root : Root) (recursive : Bool)
  | countVms (root : Root) (recursive : Bool)
  | hasVms (root : Root) (recursive : Bool)
  | inspectBatch (engine : G) (paths : List P) (maxWorkers : ℕ)

/-- How a call ends. -/
inductive Outcome (P ρ : Type) where
  | report (result : Except VmSpectError DiscoveryReport)
  | images (result : Except VmSpectError (List OsPath.Path))
  | count (result : Except VmSpectError ℕ)
  | found (result : Except VmSpectError Bool)
  | batch (result : Except VmSpectError (Batch.BatchResult P ρ VmSpectError))
  | unwound

variable {T G P ρ : Type}

/-- A call that returns an error. -/
def Call.fails (error : VmSpectError) : Call G P → Outcome P ρ
  | listVmsWithOptions _ _ => .report (.error error)
  | listVms _ _ => .images (.error error)
  | countVms _ _ => .count (.error error)
  | hasVms _ _ => .found (.error error)
  | inspectBatch _ _ _ => .batch (.error error)

/-- The error of `acquire_active_operation` when the slot is taken. -/
def alreadyRunning : VmSpectError :=
  .other "another VM discovery or inspection batch is already running"

/-- Where a thread is. From `searching` on it has the guard. -/
inductive Place (G P ρ : Type) where
  /-- Outside of a call, with the way its last one ended. -/
  | idle (last : Option (Outcome P ρ))
  /-- About to get the slot, or to create it. -/
  | getOrInit (call : Call G P)
  /-- About to take the slot if it is free. -/
  | compareExchange (call : Call G P)
  /-- In a discovery, which ends with `outcome` if it does not panic. -/
  | searching (outcome : Outcome P ρ)
  /-- In a batch, collecting its paths. -/
  | collecting (engine : G) (paths : List P) (maxWorkers : ℕ)
  /-- In a batch, with the stores of `reset_for_batch` that are still to come. -/
  | resetting (engine : G) (paths : List P) (maxWorkers : ℕ)
      (stores : List (InspectionProgress → InspectionProgress))
  /-- In a batch, with its workers, the number of them that are spawned, and the error of a
  spawn. -/
  | running (engine : G) {n : ℕ} (batch : Batch.State P ρ VmSpectError n) (spawned : ℕ)
      (failure : Option IoError)
  /-- About to drop the guard. -/
  | returning (outcome : Outcome P ρ)

/-- The thread is between a successful acquire and its return. -/
def Place.guarded : Place G P ρ → Bool
  | idle _ => false
  | getOrInit _ => false
  | compareExchange _ => false
  | _ => true

/-- What a call goes on with, once it has the guard. -/
def Call.guarded : Call G P → Place G P ρ
  | listVmsWithOptions root options => .searching (.report (Discovery.listVmsWithOptions root options))
  | listVms root recursive => .searching (.images (Discovery.listVms root recursive))
  | countVms root recursive => .searching (.count (Discovery.countVms root recursive))
  | hasVms root recursive => .searching (.found (Discovery.hasVms root recursive))
  | inspectBatch engine paths maxWorkers => .collecting engine paths maxWorkers

/-- The process: the slot, which is created by its first use, the progress and the token of each
engine, and where the threads are. -/
structure System (T G P ρ : Type) where
  slot : Option Bool
  progress : G → InspectionProgress
  cancel : G → Bool
  threads : T → Place G P ρ

/-- The value of the slot; before its first use it counts as free. -/
def System.flag (s : System T G P ρ) : Bool := s.slot.getD false

/-- The thread is between a successful acquire and its return. -/
def System.Holds (s : System T G P ρ) (t : T) : Prop := (s.threads t).guarded = true

/-- A process in which no call was made yet. -/
def System.start (progress : G → InspectionProgress) (cancel : G → Bool) : System T G P ρ :=
  ⟨none, progress, cancel, fun _ => .idle none⟩

/-- What can happen next. -/
inductive Event (T G P : Type) where
  /-- A thread makes a call. -/
  | call (t : T) (call : Call G P)
  /-- The next step of a call. -/
  | advance (t : T)
  /-- A panic in a discovery, or in the conversion of the paths of a batch. -/
  | unwind (t : T)
  /-- A worker of a batch is spawned. -/
  | spawn (t : T)
  /-- The next worker of a batch cannot be spawned. -/
  | spawnFails (t : T) (error : IoError)
  /-- A worker of the batch of a thread takes a step. -/
  | worker (t : T) (id : ℕ)
  /-- The token of an engine is set. -/
  | cancel (engine : G)

/-- The call, by its thread, that an event belongs to. -/
def Event.thread : Event T G P → Option T
  | call t _ => some t
  | advance t => some t
  | unwind t => some t
  | spawn t => some t
  | spawnFails t _ => some t
  | worker t _ => some t
  | cancel _ => none

section Step

variable [DecidableEq T] [DecidableEq G]

/-- Thread `t` moves on to `place`. -/
def System.goto (s : System T G P ρ) (t : T) (place : Place G P ρ) : System T G P ρ :=
  { s with threads := Function.update s.threads t place }

/-- The progress of an engine is set. -/
def System.setProgress (s : System T G P ρ) (engine : G) (p : InspectionProgress) :
    System T G P ρ :=
  { s with progress := Function.update s.progress engine p }

/-- The result of a batch whose spawned workers have ended. -/
def batchOutcome {n : ℕ} (batch : Batch.State P ρ VmSpectError n) : Option IoError → Outcome P ρ
  | none => .batch (.ok batch.batchResult)
  | some error => .batch (.error (.io error))

/-- The next step of a call. -/
def advance (s : System T G P ρ) (t : T) : Option (System T G P ρ) :=
  match s.threads t with
  | .idle _ => none
  | .getOrInit call => some ({ s with slot := some s.flag }.goto t (.compareExchange call))
  | .compareExchange call =>
    if s.flag then some (s.goto t (.idle (some (call.fails alreadyRunning))))
    else some ({ s with slot := some true }.goto t call.guarded)
  | .searching outcome => some (s.goto t (.returning outcome))
  | .collecting engine paths maxWorkers =>
    some (s.goto t (.resetting engine paths maxWorkers (InspectionProgress.resetStores paths.length)))
  | .resetting engine paths maxWorkers (store :: stores) =>
    some ((s.setProgress engine (store (s.progress engine))).goto t
      (.resetting engine paths maxWorkers stores))
  | .resetting engine paths maxWorkers [] =>
    if paths.length = 0 then some (s.goto t (.returning (.batch (.ok ⟨[], []⟩))))
    else some (s.goto t (.running engine
      (Batch.start (s.progress engine) (s.cancel engine) paths maxWorkers) 0 none))
  | .running _ (n := n) batch spawned failure =>
    -- The joins of the spawned workers have returned, and no more are to be spawned.
    if (∀ id : Fin n, id.val < spawned → (batch.workers id).done = true) ∧
        (spawned = n ∨ failure.isSome) then
      some (s.goto t (.returning (batchOutcome batch failure)))
    else none
  | .returning outcome => some ({ s with slot := some false }.goto t (.idle (some outcome)))

/-- One event. -/
def step (inspection : G → Job P → Batch.Inspection ρ VmSpectError) (e : Event T G P)
    (s : System T G P ρ) : Option (System T G P ρ) :=
  match e with
  | .call t call =>
    match s.threads t with
    | .idle _ => some (s.goto t (.getOrInit call))
    | _ => none
  | .advance t => advance s t
  | .unwind t =>
    match s.threads t with
    | .searching _ => some (s.goto t (.returning .unwound))
    | .collecting _ _ _ => some (s.goto t (.returning .unwound))
    | _ => none
  | .spawn t =>
    match s.threads t with
    | .running engine (n := n) batch spawned none =>
      if spawned < n then some (s.goto t (.running engine batch (spawned + 1) none)) else none
    | _ => none
  | .spawnFails t error =>
    match s.threads t with
    | .running engine (n := n) batch spawned none =>
      if spawned < n then some (s.goto t (.running engine batch spawned (some error))) else none
    | _ => none
  | .worker t id =>
    match s.threads t with
    | .running engine (n := n) batch spawned failure =>
      if h : id < n ∧ id < spawned then
        -- The progress and the token are those of the engine.
        (Batch.workerStep (inspection engine)
          { batch with progress := s.progress engine, cancel := s.cancel engine } ⟨id, h.1⟩).map
            fun batch' => (s.setProgress engine batch'.progress).goto t
              (.running engine batch' spawned failure)
      else none
    | _ => none
  | .cancel engine => some { s with cancel := Function.update s.cancel engine true }

end Step

/-! ## What a step does to the slot -/

/-- A call goes on with the guard that it has acquired. -/
theorem Call.guarded_guarded (call : Call G P) : (call.guarded : Place G P ρ).guarded = true := by
  cases call <;> rfl

/-- At the start the slot is free and nobody has it. -/
theorem exclusive_start (progress : G → InspectionProgress) (cancel : G → Bool) :
    Exclusive System.flag System.Holds (System.start progress cancel : System T G P ρ) where
  unique t u ht _ := by cases ht
  flag_iff := iff_of_false Bool.false_ne_true fun ⟨t, ht⟩ => by cases ht

section Effects

variable [DecidableEq T]

/-- Who has the guard after one thread has moved. -/
theorem holds_goto_iff {s r : System T G P ρ} (hr : r.threads = s.threads) (t u : T)
    (place : Place G P ρ) :
    (r.goto t place).Holds u ↔ if u = t then place.guarded = true else s.Holds u := by
  unfold System.Holds System.goto
  by_cases hut : u = t
  · subst hut
    simp
  · simp [hut, hr]

/-- The steps, by what they do to the slot and to the progress of the engines. -/
inductive Effect (s : System T G P ρ) (e : Event T G P) (s' : System T G P ρ) : Prop where
  /-- A call without the guard moves on without it. At most the slot is created. -/
  | outside (t : T) (slot : Option Bool) (place : Place G P ρ) (he : e.thread = some t)
      (hbefore : (s.threads t).guarded = false) (hafter : place.guarded = false)
      (hslot : slot.getD false = s.flag) (hs' : s' = { s with slot := slot }.goto t place)
  /-- A call finds the slot free and takes it. -/
  | acquired (t : T) (call : Call G P) (he : e.thread = some t)
      (hplace : s.threads t = .compareExchange call) (hflag : s.flag = false)
      (hs' : s' = { s with slot := some true }.goto t call.guarded)
  /-- A call with the guard moves on with it. -/
  | inside (t : T) (progress : G → InspectionProgress) (place : Place G P ρ)
      (he : e.thread = some t) (hbefore : (s.threads t).guarded = true)
      (hafter : place.guarded = true) (hs' : s' = { s with progress := progress }.goto t place)
  /-- A call drops the guard. -/
  | released (t : T) (outcome : Outcome P ρ) (he : e.thread = some t)
      (hplace : s.threads t = .returning outcome)
      (hs' : s' = { s with slot := some false }.goto t (.idle (some outcome)))
  /-- A token is set. -/
  | token (cancel : G → Bool) (he : e.thread = none) (hs' : s' = { s with cancel := cancel })

/-- Every step uses the slot properly. -/
theorem Effect.use {s s' : System T G P ρ} {e : Event T G P} (h : Effect s e s') :
    Use System.flag System.Holds s s' := by
  cases h with
  -- Neither the slot nor who holds it changes: the thread has no guard before and after.
  | outside t slot place he hbefore hafter hslot hs' =>
    subst hs'
    refine .neutral hslot fun u => ?_
    rw [holds_goto_iff rfl]
    split
    · rename_i hut
      subst hut
      rw [hafter]
      exact iff_of_false Bool.false_ne_true (by rw [System.Holds, hbefore]; exact Bool.false_ne_true)
    · exact Iff.rfl
  -- The slot was free and is taken, and exactly one thread more holds it.
  | acquired t call he hplace hflag hs' =>
    subst hs'
    refine .acquire t hflag rfl fun u => ?_
    rw [holds_goto_iff rfl]
    split
    · rename_i hut
      exact iff_of_true call.guarded_guarded (Or.inr hut)
    · rename_i hut
      exact (or_iff_left hut).symm
  | inside t progress place he hbefore hafter hs' =>
    subst hs'
    refine .neutral rfl fun u => ?_
    rw [holds_goto_iff rfl]
    split
    · rename_i hut
      subst hut
      exact iff_of_true hafter hbefore
    · exact Iff.rfl
  -- The guard is dropped: the slot is free again, and its only holder is gone.
  | released t outcome he hplace hs' =>
    subst hs'
    refine .release t (by rw [System.Holds, hplace]; rfl) rfl fun u => ?_
    rw [holds_goto_iff rfl]
    split
    · rename_i hut
      exact iff_of_false Bool.false_ne_true fun h => h.2 hut
    · rename_i hut
      exact (and_iff_left hut).symm
  | token cancel he hs' =>
    subst hs'
    exact .neutral rfl fun u => Iff.rfl

/-- A step of a call that has no guard before it and none after it changes neither the slot's value
nor any progress. -/
theorem Effect.rejected {s s' : System T G P ρ} {e : Event T G P} (h : Effect s e s') {t : T}
    (ht : e.thread = some t) (hbefore : ¬s.Holds t) (hafter : ¬s'.Holds t) :
    s'.flag = s.flag ∧ s'.progress = s.progress := by
  cases h with
  | outside u slot place he hu hplace hslot hs' =>
    subst hs'
    exact ⟨hslot, rfl⟩
  | acquired u call he hplace hflag hs' =>
    obtain rfl : u = t := Option.some.inj (he.symm.trans ht)
    subst hs'
    refine absurd ?_ hafter
    rw [holds_goto_iff rfl, if_pos rfl]
    exact call.guarded_guarded
  | inside u progress place he hu hplace hs' =>
    obtain rfl : u = t := Option.some.inj (he.symm.trans ht)
    exact absurd hu hbefore
  | released u outcome he hplace hs' =>
    obtain rfl : u = t := Option.some.inj (he.symm.trans ht)
    exact absurd (by rw [System.Holds, hplace]; rfl) hbefore
  | token cancel he hs' =>
    rw [he] at ht
    cases ht

variable [DecidableEq G]

/-- The steps of a call. -/
theorem effect_of_advance {s s' : System T G P ρ} {t : T} (h : advance s t = some s') :
    Effect s (.advance t) s' := by
  unfold advance at h
  cases hplace : s.threads t with
  | idle last => simp only [hplace] at h; cases h
  | getOrInit call =>
    simp only [hplace] at h
    exact .outside t (some s.flag) _ rfl (by rw [hplace]; rfl) rfl rfl (Option.some.inj h).symm
  | compareExchange call =>
    simp only [hplace] at h
    -- The compare-and-exchange: the only access that depends on the value of the slot.
    cases hflag : s.flag with
    | true =>
      rw [hflag, if_pos rfl] at h
      exact .outside t s.slot _ rfl (by rw [hplace]; rfl) rfl rfl (Option.some.inj h).symm
    | false =>
      rw [hflag, if_neg Bool.false_ne_true] at h
      exact .acquired t call rfl hplace hflag (Option.some.inj h).symm
  | searching outcome =>
    simp only [hplace] at h
    exact .inside t s.progress _ rfl (by rw [hplace]; rfl) rfl (Option.some.inj h).symm
  | collecting engine paths maxWorkers =>
    simp only [hplace] at h
    exact .inside t s.progress _ rfl (by rw [hplace]; rfl) rfl (Option.some.inj h).symm
  -- The stores of `reset_for_batch`, one step each, are made with the guard.
  | resetting engine paths maxWorkers stores =>
    cases stores with
    | nil =>
      simp only [hplace] at h
      split at h
      all_goals exact .inside t s.progress _ rfl (by rw [hplace]; rfl) rfl (Option.some.inj h).symm
    | cons store stores =>
      simp only [hplace] at h
      exact .inside t _ _ rfl (by rw [hplace]; rfl) rfl (Option.some.inj h).symm
  | running engine batch spawned failure =>
    simp only [hplace] at h
    split at h
    · exact .inside t s.progress _ rfl (by rw [hplace]; rfl) rfl (Option.some.inj h).symm
    · cases h
  | returning outcome =>
    simp only [hplace] at h
    exact .released t outcome rfl hplace (Option.some.inj h).symm

/-- Every step is one of these. -/
theorem effect_of_step {inspection : G → Job P → Batch.Inspection ρ VmSpectError}
    {e : Event T G P} {s s' : System T G P ρ} (h : step inspection e s = some s') :
    Effect s e s' := by
  cases e with
  | call t call =>
    simp only [step] at h
    split at h
    · rename_i last hplace
      exact .outside t s.slot _ rfl (by rw [hplace]; rfl) rfl rfl (Option.some.inj h).symm
    · cases h
  | advance t => exact effect_of_advance h
  -- A panic between the acquire and the return unwinds through the guard.
  | unwind t =>
    simp only [step] at h
    split at h
    · rename_i outcome hplace
      exact .inside t s.progress _ rfl (by rw [hplace]; rfl) rfl (Option.some.inj h).symm
    · rename_i engine paths maxWorkers hplace
      exact .inside t s.progress _ rfl (by rw [hplace]; rfl) rfl (Option.some.inj h).symm
    · cases h
  | spawn t =>
    simp only [step] at h
    split at h
    · rename_i engine n batch spawned hplace
      split at h
      · exact .inside t s.progress _ rfl (by rw [hplace]; rfl) rfl (Option.some.inj h).symm
      · cases h
    · cases h
  | spawnFails t error =>
    simp only [step] at h
    split at h
    · rename_i engine n batch spawned hplace
      split at h
      · exact .inside t s.progress _ rfl (by rw [hplace]; rfl) rfl (Option.some.inj h).symm
      · cases h
    · cases h
  -- A worker thread of the batch that `t` is in: `t` itself waits for its threads.
  | worker t id =>
    simp only [step] at h
    split at h
    · rename_i engine n batch spawned failure hplace
      split at h
      · obtain ⟨batch', -, hs'⟩ := Option.map_eq_some_iff.mp h
        exact .inside t _ _ rfl (by rw [hplace]; rfl) rfl hs'.symm
      · cases h
    · cases h
  | cancel engine => exact .token _ rfl (Option.some.inj h).symm

/-- A call that finds the slot taken returns the error, without the guard. -/
theorem advance_of_flag {s : System T G P ρ} {t : T} {call : Call G P}
    (hplace : s.threads t = .compareExchange call) (hflag : s.flag = true) :
    advance s t = some (s.goto t (.idle (some (call.fails alreadyRunning)))) := by
  unfold advance
  simp only [hplace]
  rw [if_pos hflag]

/-- In every state that any calls of any threads lead to, at most one call is between a successful
acquire and its return, and the slot is taken exactly when there is exactly one. A call that finds
the slot taken returns the error, and no step of a call that has not acquired the slot changes its
value or the progress of an engine. -/
theorem active_operation_exclusive (inspection : G → Job P → Batch.Inspection ρ VmSpectError)
    (progress : G → InspectionProgress) (cancel : G → Bool) {es : List (Event T G P)}
    {s : System T G P ρ} (h : run (step inspection) es (System.start progress cancel) = some s) :
    (∀ t u, s.Holds t → s.Holds u → t = u) ∧
      (s.flag = true ↔ ∃! t, s.Holds t) ∧
      (∀ t call, s.threads t = .compareExchange call → s.flag = true →
        step inspection (.advance t) s =
          some (s.goto t (.idle (some (call.fails alreadyRunning))))) ∧
      ∀ e t s', step inspection e s = some s' → e.thread = some t → ¬s.Holds t → ¬s'.Holds t →
        s'.flag = s.flag ∧ s'.progress = s.progress := by
  -- Mutual exclusion follows from how each step uses the slot, by the rule for exclusive flags.
  have hexclusive : Exclusive System.flag System.Holds s :=
    exclusive_of_run (fun e s s' hstep => (effect_of_step hstep).use)
      (exclusive_start progress cancel) h
  refine ⟨hexclusive.unique, hexclusive.flag_iff_existsUnique, ?_, ?_⟩
  · intro t call hplace hflag
    exact advance_of_flag hplace hflag
  · intro e t s' hstep ht hbefore hafter
    exact (effect_of_step hstep).rejected ht hbefore hafter

/-- A thread has started a batch, and the discovery of another one is rejected. -/
theorem active_operation_exclusive_two :
    ∃ s : System Bool Unit Unit Unit,
      run (step fun _ _ => .returns (.ok ()))
        [.call false (.inspectBatch () [()] 1), .advance false, .advance false, .advance false,
          .call true (.hasVms ⟨⟨[.rootDir]⟩, .ok true, .ok []⟩ true), .advance true, .advance true]
        (System.start (fun _ => .new) fun _ => false) = some s ∧
      s.threads true = .idle (some (.found (.error alreadyRunning))) ∧
      (s.flag = true ↔ ∃! t, s.Holds t) ∧ s.Holds false := by
  obtain ⟨s, hs, hrejected, hholds⟩ : ∃ s : System Bool Unit Unit Unit,
      run (step fun _ _ => .returns (.ok ()))
        [.call false (.inspectBatch () [()] 1), .advance false, .advance false, .advance false,
          .call true (.hasVms ⟨⟨[.rootDir]⟩, .ok true, .ok []⟩ true), .advance true, .advance true]
        (System.start (fun _ => .new) fun _ => false) = some s ∧
      s.threads true = .idle (some (.found (.error alreadyRunning))) ∧ s.Holds false :=
    ⟨_, rfl, rfl, rfl⟩
  exact ⟨s, hs, hrejected, (active_operation_exclusive _ _ _ hs).2.1, hholds⟩

end Effects

end VmSpect.ActiveOperation
