import VmSpect.Lib.Interleaving
import Mathlib.Data.Fintype.Card
import Mathlib.Data.List.Nodup

/-!
# Tasks that begin after a shutdown was asked for

Workers share a flag that asks them to stop. A worker that has seen the flag clear may still begin
one task, because the flag can be set between its look and the beginning of the task: it is `ready`.
Once the flag is set nobody becomes ready any more, and a worker that begins its task is not ready
until it looks again. `Pool` states these facts of a system, and `begunAfter_nodup` and
`begunAfter_length_le` draw the bound from them.
-/

namespace Shutdown

variable {S E W J : Type*}

/-- The tasks that a run begins while the flag is set, each with its worker. -/
def begunAfter (step : E → S → Option S) (stopping : S → Bool) (begins : E → S → Option (W × J)) :
    List E → S → List (W × J)
  | [], _ => []
  | e :: es, s =>
    (if stopping s then (begins e s).toList else []) ++
      ((step e s).map fun t => begunAfter step stopping begins es t).getD []

/-- A pool of workers that stop when they are asked to. -/
structure Pool (step : E → S → Option S) (stopping : S → Bool) (begins : E → S → Option (W × J))
    (ready : S → W → Bool) : Prop where
  /-- The flag stays set. -/
  stays : ∀ e s t, step e s = some t → stopping s = true → stopping t = true
  /-- Nobody becomes ready while the flag is set. -/
  no_new : ∀ e s t, step e s = some t → stopping s = true → ∀ w, ready t w = true → ready s w = true
  /-- Only a worker that is ready begins a task. -/
  ready_of_begins : ∀ e s w j, begins e s = some (w, j) → ready s w = true
  /-- A worker that has begun is not ready any more. -/
  used : ∀ e s t w j, step e s = some t → begins e s = some (w, j) → ready t w = false

namespace Pool

variable {step : E → S → Option S} {stopping : S → Bool} {begins : E → S → Option (W × J)}
  {ready : S → W → Bool}

/-- With the flag set, only workers that are ready now begin a task. -/
theorem ready_of_mem (h : Pool step stopping begins ready) {w : W} {j : J} {es : List E} {s : S}
    (hs : stopping s = true) (hmem : (w, j) ∈ begunAfter step stopping begins es s) :
    ready s w = true := by
  induction es generalizing s with
  | nil => cases hmem
  | cons e es ih =>
    rw [begunAfter, if_pos hs, List.mem_append] at hmem
    rcases hmem with hmem | hmem
    · rw [Option.mem_toList] at hmem
      exact h.ready_of_begins e s w j hmem
    · cases hstep : step e s with
      | none =>
        rw [hstep] at hmem
        cases hmem
      | some t =>
        rw [hstep] at hmem
        exact h.no_new e s t hstep hs w (ih (h.stays e s t hstep hs) hmem)

/-- Each worker begins at most one task after the flag was set. -/
theorem begunAfter_nodup (h : Pool step stopping begins ready) (es : List E) (s : S) :
    ((begunAfter step stopping begins es s).map Prod.fst).Nodup := by
  induction es generalizing s with
  | nil => exact List.nodup_nil
  | cons e es ih =>
    rw [begunAfter]
    cases hs : stopping s with
    | false =>
      -- Nothing counts before the flag is set.
      rw [if_neg Bool.false_ne_true, List.nil_append]
      cases step e s with
      | none => exact List.nodup_nil
      | some t => exact ih t
    | true =>
      rw [if_pos rfl]
      cases hstep : step e s with
      | none => cases begins e s <;> simp
      | some t =>
        cases hbegins : begins e s with
        | none => exact ih t
        | some begun =>
          -- The worker that begins here is not ready afterwards, so it does not begin again.
          obtain ⟨w, j⟩ := begun
          show (w :: (begunAfter step stopping begins es t).map Prod.fst).Nodup
          refine List.nodup_cons.mpr ⟨fun hmem => ?_, ih t⟩
          obtain ⟨⟨v, k⟩, hlater, rfl⟩ := List.mem_map.mp hmem
          have hready := h.ready_of_mem (h.stays e s t hstep hs) hlater
          rw [h.used e s t v j hstep hbegins] at hready
          cases hready

/-- No more tasks begin after the flag was set than there are workers. -/
theorem begunAfter_length_le [Fintype W] (h : Pool step stopping begins ready) (es : List E) (s : S) :
    (begunAfter step stopping begins es s).length ≤ Fintype.card W := by
  have hle := (h.begunAfter_nodup es s).length_le_card
  rwa [List.length_map] at hle

end Pool

end Shutdown
