import Mathlib.Data.List.Basic
import Mathlib.Data.Option.Basic
import Mathlib.Tactic

/-!
# Runs of a system whose next step is chosen by a scheduler

A system is a partial step function: an event either is enabled in a state, and then gives the next
state, or is not. An event names who moves (a thread, the environment), so a list of events is a
schedule and `run` is the state that it leads to. Every statement about all interleavings is a
statement about all schedules.

The rules are the ones that the safety proofs use: `run_induction` carries a property that may
mention the schedule along a run, `run_invariant` is its special case for a property of the state
alone, `run_bounded` adds a measure that decreases, and `exists_maximal_run` gives a run that cannot
be continued when a measure decreases.
-/

namespace Interleaving

variable {S E : Type*} {step : E → S → Option S}

/-- The state after the events of a schedule, when each of them is enabled in its turn. -/
def run (step : E → S → Option S) (es : List E) (s : S) : Option S :=
  es.foldlM (fun s e => step e s) s

@[simp]
theorem run_nil (s : S) : run step [] s = some s := rfl

@[simp]
theorem run_cons (e : E) (es : List E) (s : S) :
    run step (e :: es) s = (step e s).bind (run step es) := rfl

/-- A run over a concatenation is a run over its parts. -/
theorem run_append (es fs : List E) (s : S) :
    run step (es ++ fs) s = (run step es s).bind (run step fs) := by
  unfold run
  rw [List.foldlM_append]
  rfl

/-- A run with a last event is a run up to it, and then that event's step. -/
theorem run_snoc_iff (es : List E) (e : E) (s t : S) :
    run step (es ++ [e]) s = some t ↔ ∃ u, run step es s = some u ∧ step e u = some t := by
  rw [run_append, Option.bind_eq_some_iff]
  have hone : ∀ u, run step [e] u = step e u := by
    intro u
    rw [run_cons]
    cases step e u <;> rfl
  simp only [hone]

/-- Induction along a run, for a property of the schedule so far and the state it has led to. -/
theorem run_induction {P : List E → S → Prop} {s₀ : S} (h0 : P [] s₀)
    (hstep : ∀ es e s t, run step es s₀ = some s → P es s → step e s = some t → P (es ++ [e]) t)
    {es : List E} {s : S} (h : run step es s₀ = some s) : P es s := by
  induction es using List.reverseRecOn generalizing s with
  | nil =>
    obtain rfl : s₀ = s := by simpa using h
    exact h0
  | append_singleton es e ih =>
    obtain ⟨u, hu, he⟩ := (run_snoc_iff es e s₀ s).mp h
    exact hstep es e u s hu (ih hu) he

/-- A property that the initial state has and every step preserves holds after every run. -/
theorem run_invariant (Inv : S → Prop) {s₀ : S} (h0 : Inv s₀)
    (hstep : ∀ e s t, Inv s → step e s = some t → Inv t)
    {es : List E} {s : S} (h : run step es s₀ = some s) : Inv s :=
  run_induction (P := fun _ s => Inv s) h0 (fun _ e s t _ hs he => hstep e s t hs he) h

/-- When every step from a state with the invariant keeps it and decreases a measure, a run is no
longer than the measure at its start. -/
theorem run_bounded (Inv : S → Prop) (μ : S → ℕ) {s₀ : S} (h0 : Inv s₀)
    (hstep : ∀ e s t, Inv s → step e s = some t → Inv t ∧ μ t < μ s)
    {es : List E} {s : S} (h : run step es s₀ = some s) : Inv s ∧ es.length + μ s ≤ μ s₀ := by
  refine run_induction (P := fun es s => Inv s ∧ es.length + μ s ≤ μ s₀) ⟨h0, ?_⟩ ?_ h
  · rw [List.length_nil, Nat.zero_add]
  · rintro es e s t - ⟨hs, hle⟩ he
    obtain ⟨ht, hlt⟩ := hstep e s t hs he
    rw [List.length_append, List.length_singleton]
    exact ⟨ht, by omega⟩

/-- The states that a run passes through: those that some initial part of its schedule leads to. -/
def Passes (step : E → S → Option S) (s₀ : S) (es : List E) (s : S) : Prop :=
  ∃ pre post, es = pre ++ post ∧ run step pre s₀ = some s

/-- The last state of a run is one that it passes through. -/
theorem Passes.last {s₀ s : S} {es : List E} (h : run step es s₀ = some s) :
    Passes step s₀ es s := ⟨es, [], by simp, h⟩

/-- A longer run passes through every state of a shorter one. -/
theorem Passes.snoc {s₀ s : S} {es : List E} (h : Passes step s₀ es s) (e : E) :
    Passes step s₀ (es ++ [e]) s := by
  obtain ⟨pre, post, rfl, hrun⟩ := h
  exact ⟨pre, post ++ [e], by simp, hrun⟩

/-- A property that every step preserves, once it holds at a state that a run passes through, holds
at the end of the run. -/
theorem Passes.forward {P : S → Prop} {s₀ s t : S} {es : List E} (hp : Passes step s₀ es s)
    (h : run step es s₀ = some t) (hstep : ∀ e s t, P s → step e s = some t → P t) (hs : P s) :
    P t := by
  obtain ⟨pre, post, rfl, hpre⟩ := hp
  rw [run_append, hpre] at h
  exact run_invariant P hs hstep h

/-- When every allowed step decreases a measure, some run of allowed events cannot be continued. -/
theorem exists_maximal_run {Allowed : E → Prop} (μ : S → ℕ)
    (hμ : ∀ e s t, Allowed e → step e s = some t → μ t < μ s) (s : S) :
    ∃ es t, (∀ e ∈ es, Allowed e) ∧ run step es s = some t ∧ ∀ e, Allowed e → step e t = none := by
  induction hn : μ s using Nat.strong_induction_on generalizing s with
  | _ n ih =>
    by_cases hstuck : ∀ e, Allowed e → step e s = none
    · exact ⟨[], s, by simp, rfl, hstuck⟩
    · push Not at hstuck
      obtain ⟨e, he, hne⟩ := hstuck
      obtain ⟨t, ht⟩ := Option.ne_none_iff_exists'.mp hne
      have hlt := hμ e s t he ht
      obtain ⟨es, u, hall, hrun, hmax⟩ := ih (μ t) (by omega) t rfl
      refine ⟨e :: es, u, ?_, by simp [ht, hrun], hmax⟩
      intro e' he'
      rcases List.mem_cons.mp he' with rfl | hmem
      · exact he
      · exact hall e' hmem

end Interleaving
