import VmSpect.Lib.Interleaving

/-!
# A pool of workers under the thread that starts and joins them

A main thread starts the workers of a pool one after another, joins those that it has started, and
then goes on. Starting a thread can fail. `Policy` says what the main thread does then: it gives up,
joins what it has started and reports a failure, or it does without that worker. Workers run as soon
as they are started, so their steps interleave with those of the main thread.

A run of the main thread and the workers is a run of the pool in which only started workers move
(`run_pool`, `run_unstarted`). When the main thread has left its joins, every started worker has
ended (`Inv.ended`). Its own steps are bounded (`run_length_le`), and until it has left its joins, it
can move or a worker that it waits for can (`Inv.progress`).
-/

namespace ForkJoin

open Interleaving

variable {S E L : Type*} {n : ℕ}

/-- A system with `n` workers: an event is a step of one worker or of nobody in the pool, and a
worker moves only in its own steps, until it has ended. -/
structure Pool (S E L : Type*) (n : ℕ) where
  step : E → S → Option S
  /-- The step of a worker. -/
  event : Fin n → E
  /-- Whose step an event is. -/
  actor : E → Option (Fin n)
  /-- Where a worker is. -/
  worker : S → Fin n → L
  /-- Whether a worker that is there has ended. -/
  done : L → Bool
  actor_iff : ∀ e id, actor e = some id ↔ e = event id
  frame : ∀ e s t id, step e s = some t → actor e ≠ some id → worker t id = worker s id
  done_iff : ∀ s id, done (worker s id) = true ↔ step (event id) s = none

/-- What the main thread does when it cannot start a thread. -/
inductive Policy where
  /-- It joins the threads that it has started, and reports the failure. -/
  | giveUp
  /-- It goes on to the next one. -/
  | skip
  deriving DecidableEq

/-- Where the main thread is. -/
inductive Main (n : ℕ) where
  /-- About to start worker `next`. -/
  | starting (next : ℕ)
  /-- About to join the first of `rest`; past its joins when there is none. -/
  | joining (rest : List (Fin n))
  deriving DecidableEq

/-- The pool, the handles of the threads that were started, and the main thread. -/
structure State (S : Type*) (n : ℕ) where
  pool : S
  handles : List (Fin n)
  /-- The main thread has given up. -/
  failed : Bool
  main : Main n

/-- The main thread tries to start a thread, with or without success, or goes on with its joins, or
the pool takes a step. -/
inductive Event (E : Type*) where
  | spawn (ok : Bool)
  | join
  | pool (e : E)
  deriving DecidableEq

/-- The step of the pool in an event. -/
def Event.pool? : Event E → Option E
  | pool e => some e
  | _ => none

/-- The steps of the pool in a schedule. -/
theorem mem_pool? {es : List (Event E)} {e : E} : e ∈ es.filterMap Event.pool? ↔ .pool e ∈ es := by
  constructor
  · intro hmem
    obtain ⟨e', he', heq⟩ := List.mem_filterMap.mp hmem
    cases e' with
    | pool e' => exact Option.some.inj heq ▸ he'
    | _ => cases heq
  · exact fun hmem => List.mem_filterMap.mpr ⟨_, hmem, rfl⟩

/-- The main thread is past its joins. -/
def State.Returned (s : State S n) : Prop := s.main = .joining []

instance (s : State S n) : Decidable s.Returned := inferInstanceAs (Decidable (s.main = .joining []))

/-- Before the first thread is started. -/
def start (s : S) : State S n := ⟨s, [], false, .starting 0⟩

/-- The next attempt to start a thread. -/
def spawnStep (policy : Policy) (ok : Bool) (s : State S n) : Option (State S n) :=
  match s.main with
  | .starting next =>
    if h : next < n then
      match ok, policy with
      | true, _ => some { s with handles := s.handles ++ [⟨next, h⟩], main := .starting (next + 1) }
      | false, .giveUp => some { s with failed := true, main := .joining s.handles }
      | false, .skip => some { s with main := .starting (next + 1) }
    else none
  | .joining _ => none

/-- The joins start when all workers were tried, and each one waits for its thread. -/
def joinStep (p : Pool S E L n) (s : State S n) : Option (State S n) :=
  match s.main with
  | .starting next => if next < n then none else some { s with main := .joining s.handles }
  | .joining [] => none
  | .joining (id :: rest) =>
    if p.done (p.worker s.pool id) then some { s with main := .joining rest } else none

/-- A step of the pool: a worker moves only once it was started. -/
def poolStep (p : Pool S E L n) (e : E) (s : State S n) : Option (State S n) :=
  if ∀ id, p.actor e = some id → id ∈ s.handles then
    (p.step e s.pool).map (fun t => { s with pool := t })
  else none

/-- One event. -/
def step (p : Pool S E L n) (policy : Policy) : Event E → State S n → Option (State S n)
  | .spawn ok => spawnStep policy ok
  | .join => joinStep p
  | .pool e => poolStep p e

/-! ## What a step can do -/

/-- The steps, one by one, with the conditions under which they are taken. -/
inductive Step (p : Pool S E L n) (policy : Policy) (s : State S n) :
    Event E → State S n → Prop where
  | started (next : ℕ) (h : next < n) (hm : s.main = .starting next) :
      Step p policy s (.spawn true)
        { s with handles := s.handles ++ [⟨next, h⟩], main := .starting (next + 1) }
  | gaveUp (next : ℕ) (h : next < n) (hm : s.main = .starting next) (hp : policy = .giveUp) :
      Step p policy s (.spawn false) { s with failed := true, main := .joining s.handles }
  | skipped (next : ℕ) (h : next < n) (hm : s.main = .starting next) (hp : policy = .skip) :
      Step p policy s (.spawn false) { s with main := .starting (next + 1) }
  | waited (next : ℕ) (h : n ≤ next) (hm : s.main = .starting next) :
      Step p policy s .join { s with main := .joining s.handles }
  | joined (id : Fin n) (rest : List (Fin n)) (hm : s.main = .joining (id :: rest))
      (hd : p.done (p.worker s.pool id) = true) :
      Step p policy s .join { s with main := .joining rest }
  | moved (e : E) (t : S) (hh : ∀ id, p.actor e = some id → id ∈ s.handles)
      (ht : p.step e s.pool = some t) : Step p policy s (.pool e) { s with pool := t }

/-- Every step is one of them. -/
theorem Step.of_step {p : Pool S E L n} {policy : Policy} {e : Event E} {s t : State S n}
    (h : step p policy e s = some t) : Step p policy s e t := by
  cases e with
  | spawn ok =>
    simp only [step, spawnStep] at h
    cases hm : s.main with
    | joining rest => rw [hm] at h; cases h
    | starting next =>
      simp only [hm] at h
      split at h
      · rename_i hnext
        cases ok with
        | true =>
          obtain rfl := Option.some.inj h
          exact .started next hnext hm
        | false =>
          cases policy with
          | giveUp =>
            obtain rfl := Option.some.inj h
            exact .gaveUp next hnext hm rfl
          | skip =>
            obtain rfl := Option.some.inj h
            exact .skipped next hnext hm rfl
      · cases h
  | join =>
    simp only [step, joinStep] at h
    match hm : s.main with
    | .starting next =>
      simp only [hm] at h
      split at h
      · cases h
      · obtain rfl := Option.some.inj h
        exact .waited next (by omega) hm
    | .joining [] => rw [hm] at h; cases h
    | .joining (id :: rest) =>
      simp only [hm] at h
      split at h
      · obtain rfl := Option.some.inj h
        exact .joined id rest hm ‹_›
      · cases h
  | pool e =>
    simp only [step, poolStep] at h
    split at h
    · obtain ⟨t', ht', rfl⟩ := Option.map_eq_some_iff.mp h
      exact .moved e t' ‹_› ht'
    · cases h

/-! ## Runs of the pool -/

section Runs

variable {p : Pool S E L n} {policy : Policy} {s₀ : S} {es : List (Event E)} {s : State S n}

/-- The steps of the pool in a run are a run of the pool. -/
theorem run_pool (h : run (step p policy) es (start s₀) = some s) :
    run p.step (es.filterMap Event.pool?) s₀ = some s.pool := by
  refine run_induction (P := fun es s => run p.step (es.filterMap Event.pool?) s₀ = some s.pool)
    rfl ?_ h
  intro es e s t _ ih hstep
  rw [List.filterMap_append]
  have hown : ∀ pool', pool' = s.pool →
      run p.step (es.filterMap Event.pool? ++ []) s₀ = some pool' := by
    rintro _ rfl
    rwa [List.append_nil]
  cases Step.of_step hstep with
  | moved e t' hh ht => exact (run_snoc_iff _ _ _ _).mpr ⟨s.pool, ih, ht⟩
  | _ => exact hown _ rfl

/-- A worker that was not started is where it was. -/
theorem run_unstarted (h : run (step p policy) es (start s₀) = some s) {id : Fin n}
    (hid : id ∉ s.handles) : p.worker s.pool id = p.worker s₀ id := by
  refine run_invariant (fun s => id ∉ s.handles → p.worker s.pool id = p.worker s₀ id)
    (fun _ => rfl) ?_ h hid
  intro e s t ih hstep hid
  cases Step.of_step hstep with
  | started next hnext hm => exact ih fun hmem => hid (List.mem_append_left _ hmem)
  | moved e t' hh ht =>
    rw [p.frame e s.pool t' id ht fun hactor => hid (hh id hactor)]
    exact ih hid
  | _ => exact ih hid

/-- A main thread that gives up has done so exactly if a thread could not be started. -/
theorem run_failed_iff (h : run (step p .giveUp) es (start s₀) = some s) :
    s.failed = true ↔ .spawn false ∈ es := by
  refine run_induction (P := fun es s => s.failed = true ↔ .spawn false ∈ es) (by simp [start]) ?_ h
  intro es e s t _ ih hstep
  rw [List.mem_append, List.mem_singleton]
  cases Step.of_step hstep with
  | gaveUp next hnext hm hp => exact iff_of_true rfl (Or.inr rfl)
  | skipped next hnext hm hp => cases hp
  | _ => exact ih.trans (or_iff_left (by simp)).symm

/-- Only workers that were started take steps. -/
theorem run_actor (h : run (step p policy) es (start s₀) = some s) {e : E}
    (he : e ∈ es.filterMap Event.pool?) {id : Fin n} (hid : p.actor e = some id) :
    id ∈ s.handles := by
  refine run_induction
    (P := fun es s => ∀ e ∈ es.filterMap Event.pool?, ∀ id, p.actor e = some id → id ∈ s.handles)
    (by simp) ?_ h e he id hid
  intro es e s t _ ih hstep e' he' id hid
  rw [List.filterMap_append, List.mem_append] at he'
  cases Step.of_step hstep with
  | started next hnext hm =>
    rcases he' with he' | he'
    · exact List.mem_append_left _ (ih e' he' id hid)
    · simp [Event.pool?] at he'
  | moved e'' t' hh ht =>
    rcases he' with he' | he'
    · exact ih e' he' id hid
    · obtain rfl : e' = e'' := by simpa [Event.pool?] using he'
      exact hh id hid
  | _ =>
    rcases he' with he' | he'
    · exact ih e' he' id hid
    · simp [Event.pool?] at he'

/-- When no thread was started, and the steps of the pool are steps of workers, it has not moved. -/
theorem run_idle (h : run (step p policy) es (start s₀) = some s) (hnone : s.handles = [])
    (hworker : ∀ e, .pool e ∈ es → ∃ id, p.actor e = some id) : s.pool = s₀ := by
  have hnil : es.filterMap Event.pool? = [] := by
    refine List.eq_nil_iff_forall_not_mem.mpr fun e he => ?_
    obtain ⟨id, hid⟩ := hworker e (mem_pool?.mp he)
    have hmem := run_actor h he hid
    rw [hnone] at hmem
    cases hmem
  have hrun := run_pool h
  rw [hnil, run_nil] at hrun
  exact (Option.some.inj hrun).symm

end Runs

/-! ## The invariant -/

/-- What the main thread has done when it is there. -/
def Main.Good (p : Pool S E L n) (policy : Policy) (s : State S n) : Main n → Prop
  | starting next => next ≤ n ∧ s.failed = false ∧ (∀ id ∈ s.handles, id.val < next) ∧
      (policy = .giveUp → ∀ id : Fin n, id.val < next → id ∈ s.handles)
  | joining rest => rest ⊆ s.handles ∧
      (∀ id ∈ s.handles, id ∉ rest → p.done (p.worker s.pool id) = true) ∧
      (policy = .giveUp → s.failed = false → ∀ id, id ∈ s.handles) ∧
      (s.failed = true → policy = .giveUp ∧ ∃ id, id ∉ s.handles)

/-- What holds in every state that a run reaches. -/
structure Inv (p : Pool S E L n) (policy : Policy) (s : State S n) : Prop where
  /-- No thread is started twice. -/
  nodup : s.handles.Nodup
  good : s.main.Good p policy s

/-- A worker that has ended stays where it is. -/
theorem Pool.done_step (p : Pool S E L n) {e : E} {s t : S} {id : Fin n}
    (hd : p.done (p.worker s id) = true) (h : p.step e s = some t) :
    p.done (p.worker t id) = true := by
  have hactor : p.actor e ≠ some id := by
    intro hactor
    obtain rfl := (p.actor_iff e id).mp hactor
    rw [(p.done_iff s id).mp hd] at h
    cases h
  rwa [p.frame e s t id h hactor]

section Reached

variable {p : Pool S E L n} {policy : Policy} {s : State S n}

/-- Every step keeps the invariant. -/
theorem Inv.step (h : Inv p policy s) {e : Event E} {t : State S n} (hstep : Step p policy s e t) :
    Inv p policy t := by
  have hgood := h.good
  cases hstep with
  | started next hnext hm =>
    rw [hm] at hgood
    obtain ⟨-, hfailed, hlt, hall⟩ := hgood
    have hnew : (⟨next, hnext⟩ : Fin n) ∉ s.handles := fun hmem => (hlt _ hmem).false
    refine ⟨List.nodup_append.mpr ⟨h.nodup, by simp, ?_⟩, hnext, hfailed, ?_, ?_⟩
    · intro id hid id' hid' heq
      rw [List.mem_singleton.mp hid'] at heq
      exact hnew (heq ▸ hid)
    · intro id hid
      rcases List.mem_append.mp hid with hid | hid
      · exact Nat.lt_succ_of_lt (hlt id hid)
      · rw [List.mem_singleton.mp hid]
        exact Nat.lt_succ_self next
    · intro hp id hid
      rcases Nat.lt_succ_iff_lt_or_eq.mp hid with hid | hid
      · exact List.mem_append_left _ (hall hp id hid)
      · exact List.mem_append_right _ (List.mem_singleton.mpr (Fin.ext hid))
  | gaveUp next hnext hm hp =>
    rw [hm] at hgood
    have hnew : (⟨next, hnext⟩ : Fin n) ∉ s.handles := fun hmem => (hgood.2.2.1 _ hmem).false
    refine ⟨h.nodup, fun _ hid => hid, fun id hid hnot => absurd hid hnot, ?_,
      fun _ => ⟨hp, _, hnew⟩⟩
    intro _ hfailed
    cases hfailed
  | skipped next hnext hm hp =>
    rw [hm] at hgood
    obtain ⟨-, hfailed, hlt, -⟩ := hgood
    exact ⟨h.nodup, hnext, hfailed, fun id hid => Nat.lt_succ_of_lt (hlt id hid),
      fun hgive => by rw [hp] at hgive; cases hgive⟩
  | waited next hnext hm =>
    rw [hm] at hgood
    obtain ⟨-, hfailed, -, hall⟩ := hgood
    exact ⟨h.nodup, fun _ hid => hid, fun id hid hnot => absurd hid hnot,
      fun hp _ id => hall hp id (id.isLt.trans_le hnext),
      fun h => by rw [hfailed] at h; cases h⟩
  | joined id rest hm hd =>
    rw [hm] at hgood
    obtain ⟨hsub, hended, hall, hfailed⟩ := hgood
    refine ⟨h.nodup, fun v hv => hsub (List.mem_cons_of_mem _ hv), ?_, hall, hfailed⟩
    intro v hv hnot
    by_cases heq : v = id
    · rwa [heq]
    · exact hended v hv fun hmem => (List.mem_cons.mp hmem).elim heq hnot
  | moved e t' hh ht =>
    refine ⟨h.nodup, ?_⟩
    cases hm : s.main with
    | starting next => rwa [hm] at hgood
    | joining rest =>
      rw [hm] at hgood
      obtain ⟨hsub, hended, hall, hfailed⟩ := hgood
      exact ⟨hsub, fun v hv hnot => p.done_step (hended v hv hnot) ht, hall, hfailed⟩

/-- The invariant holds in every state that a run reaches. -/
theorem run_inv {s₀ : S} {es : List (Event E)}
    (h : run (ForkJoin.step p policy) es (start s₀) = some s) : Inv p policy s := by
  refine run_invariant (Inv p policy) ⟨by simp [start], by simp [start, Main.Good]⟩ ?_ h
  intro e s t hs hstep
  exact hs.step (Step.of_step hstep)

/-- Past its joins, the main thread has no started worker behind it that has not ended. -/
theorem Inv.ended (h : Inv p policy s) (hr : s.Returned) :
    ∀ id ∈ s.handles, p.done (p.worker s.pool id) = true := by
  have hgood := h.good
  rw [hr] at hgood
  exact fun id hid => hgood.2.1 id hid (by simp)

/-- A main thread that gives up on a failure, and did not, has started all workers. -/
theorem Inv.all_started (h : Inv p .giveUp s) (hr : s.Returned) (hfailed : s.failed = false)
    (id : Fin n) : id ∈ s.handles := by
  have hgood := h.good
  rw [hr] at hgood
  exact hgood.2.2.1 rfl hfailed id

/-- Until the main thread is past its joins, it can move, or a worker that was started can. -/
theorem Inv.progress (h : Inv p policy s) (hr : ¬ s.Returned) :
    (∃ t, ForkJoin.step p policy (.spawn true) s = some t) ∨
      (∃ t, ForkJoin.step p policy .join s = some t) ∨
      ∃ id ∈ s.handles, ∃ t, ForkJoin.step p policy (.pool (p.event id)) s = some t := by
  have hgood := h.good
  match hm : s.main with
  | .starting next =>
    by_cases hnext : next < n
    · exact Or.inl ⟨_, by simp [ForkJoin.step, spawnStep, hm, hnext]; rfl⟩
    · exact Or.inr (Or.inl ⟨_, by simp [ForkJoin.step, joinStep, hm, hnext]; rfl⟩)
  | .joining [] => exact absurd hm hr
  | .joining (id :: rest) =>
    rw [hm] at hgood
    cases hd : p.done (p.worker s.pool id) with
    | true => exact Or.inr (Or.inl ⟨_, by simp [ForkJoin.step, joinStep, hm, hd]; rfl⟩)
    | false =>
      -- The thread that the main thread waits for has not ended, so it can move.
      have hid : id ∈ s.handles := hgood.1 (by simp)
      have hsome : p.step (p.event id) s.pool ≠ none := by
        intro hnone
        rw [(p.done_iff s.pool id).mpr hnone] at hd
        cases hd
      obtain ⟨t, ht⟩ := Option.ne_none_iff_exists'.mp hsome
      have hactor : ∀ v, p.actor (p.event id) = some v → v ∈ s.handles := by
        intro v hv
        rw [(p.actor_iff _ id).mpr rfl] at hv
        exact Option.some.inj hv ▸ hid
      refine Or.inr (Or.inr ⟨id, hid, { s with pool := t }, ?_⟩)
      simp only [ForkJoin.step, poolStep]
      rw [if_pos hactor, ht]
      rfl

end Reached

/-! ## The length of a run -/

/-- How many steps the main thread has before it. -/
def State.rank (s : State S n) : ℕ :=
  match s.main with
  | .starting next => 2 * (n - next) + s.handles.length + 1
  | .joining rest => rest.length

/-- A step decreases the rank together with a measure of the pool that its own step decreases. -/
theorem Step.measure_lt {p : Pool S E L n} {policy : Policy} {μ : S → ℕ} {e : Event E}
    {s t : State S n} (h : Step p policy s e t)
    (hμ : ∀ e', e = .pool e' → ∀ s t, p.step e' s = some t → μ t < μ s) :
    μ t.pool + t.rank < μ s.pool + s.rank := by
  cases h with
  | started next hnext hm =>
    simp only [State.rank, hm, List.length_append, List.length_singleton]
    omega
  | gaveUp next hnext hm hp =>
    simp only [State.rank, hm]
    omega
  | skipped next hnext hm hp =>
    simp only [State.rank, hm]
    omega
  | waited next hnext hm =>
    simp only [State.rank, hm]
    omega
  | joined id rest hm hd =>
    simp only [State.rank, hm, List.length_cons]
    omega
  | moved e t' hh ht =>
    have hlt := hμ e rfl s.pool t' ht
    have hrank : ({ s with pool := t' } : State S n).rank = s.rank := rfl
    rw [hrank]
    exact Nat.add_lt_add_right hlt _

/-- When the steps of the pool decrease a measure, the length of a run is bounded by the measure at
its start, an attempt to start each worker and a join of it. -/
theorem run_length_le {p : Pool S E L n} {policy : Policy} (μ : S → ℕ)
    (hμ : ∀ e s t, p.step e s = some t → μ t < μ s) {s₀ : S} {es : List (Event E)} {s : State S n}
    (h : run (step p policy) es (start s₀) = some s) : es.length ≤ μ s₀ + (2 * n + 1) := by
  have hstep : ∀ e s t, True → step p policy e s = some t →
      True ∧ μ t.pool + t.rank < μ s.pool + s.rank := by
    rintro e s t - he
    exact ⟨trivial, (Step.of_step he).measure_lt fun e' _ => hμ e'⟩
  have hbound := (run_bounded (fun _ => True) (fun s : State S n => μ s.pool + s.rank) trivial
    hstep h).2
  have hstart : (start s₀ : State S n).rank = 2 * n + 1 := by simp [start, State.rank]
  have hpool : (start s₀ : State S n).pool = s₀ := rfl
  simp only [hstart, hpool] at hbound
  omega

/-- When the steps of the workers decrease a measure, the main thread can be brought past its joins
with every thread started, by steps of its own and of the workers. -/
theorem exists_returned (p : Pool S E L n) (policy : Policy) (μ : S → ℕ)
    (hμ : ∀ id s t, p.step (p.event id) s = some t → μ t < μ s) (s₀ : S) :
    ∃ es s, run (step p policy) es (start s₀) = some s ∧ s.Returned ∧ .spawn false ∉ es ∧
      ∀ e, .pool e ∈ es → ∃ id, e = p.event id := by
  let Allowed (e : Event E) : Prop := e ≠ .spawn false ∧ ∀ e', e = .pool e' → ∃ id, e' = p.event id
  have hdecr : ∀ e (s t : State S n), Allowed e → step p policy e s = some t →
      μ t.pool + t.rank < μ s.pool + s.rank := by
    rintro e s t ⟨-, hworker⟩ he
    refine (Step.of_step he).measure_lt fun e' heq => ?_
    obtain ⟨id, rfl⟩ := hworker e' heq
    exact hμ id
  obtain ⟨es, s, hall, hrun, hmax⟩ :=
    exists_maximal_run (fun s : State S n => μ s.pool + s.rank) hdecr (start s₀)
  refine ⟨es, s, hrun, ?_, fun hmem => (hall _ hmem).1 rfl, fun e he => (hall _ he).2 e rfl⟩
  by_contra hr
  rcases (run_inv hrun).progress hr with ⟨t, ht⟩ | ⟨t, ht⟩ | ⟨id, -, t, ht⟩
  · exact absurd ht (by rw [hmax (.spawn true) ⟨by simp, by simp⟩]; simp)
  · exact absurd ht (by rw [hmax .join ⟨by simp, by simp⟩]; simp)
  · exact absurd ht (by rw [hmax (.pool (p.event id)) ⟨by simp, by simp⟩]; simp)

end ForkJoin
