import VmSpect.Lib.Polling

/-!
# Code that tells an observer what it does

An observer is told one event after another, and code never looks at what it has told. `Silences`
says what is left of the code without its observer, and `Traces` what the observer is told in any
run, when the code returns a value and when it fails. Both have one rule for code that tells an
event first (`notify_bind`) and one for code that tells nothing first (`quietly_bind`).
-/

namespace Polling

variable {ω ε σ ι α β : Type}

/-- Code with a state that may fail and that tells an observer what it does. -/
abbrev Notifying (ω ε σ ι : Type) := ExceptT ε (StateT (List ω) (StateT σ (Prog ι)))

/-- The observer is told an event. -/
def notify (event : ω) : Notifying ω ε σ ι Unit := ExceptT.lift (modify (· ++ [event]))

/-- Code that tells nothing. -/
def quietly (x : ExceptT ε (StateT σ (Prog ι)) α) : Notifying ω ε σ ι α :=
  ExceptT.mk (StateT.lift x.run)

/-! ## Without the observer -/

/-- Whatever the observer has been told, the one does the same as the other, and tells more. -/
def Silences (x : Notifying ω ε σ ι α) (y : ExceptT ε (StateT σ (Prog ι)) α) : Prop :=
  ∀ told, Prod.fst <$> x.run.run told = y.run

/-- What is returned tells nothing. -/
theorem Silences.pure (a : α) :
    Silences (Pure.pure a : Notifying ω ε σ ι α) (Pure.pure a) := by
  intro told
  show Prod.fst <$> (Pure.pure (Except.ok a, told) : StateT σ (Prog ι) (Except ε α × List ω)) = _
  rw [map_pure]
  rfl

/-- An event is told, and nothing else happens. -/
theorem Silences.notify_bind {event : ω} {f : Unit → Notifying ω ε σ ι α}
    {y : ExceptT ε (StateT σ (Prog ι)) α} (h : Silences (f ()) y) :
    Silences (notify event >>= f) y := fun told => h (told ++ [event])

/-- A sequence that starts with code that tells nothing. -/
theorem Silences.quietly_bind {x : ExceptT ε (StateT σ (Prog ι)) α}
    {f : α → Notifying ω ε σ ι β} {g : α → ExceptT ε (StateT σ (Prog ι)) β}
    (h : ∀ a, Silences (f a) (g a)) : Silences (quietly x >>= f) (x >>= g) := by
  intro told
  -- The observer is told nothing until `x` has returned, and nothing more if it fails.
  have hrun : (quietly x >>= f).run.run told =
      x.run >>= fun r => (ExceptT.bindCont f r).run told := by
    show (StateT.lift x.run >>= ExceptT.bindCont f).run told = _
    rw [StateT.run_bind]
    show (x.run >>= fun r => Pure.pure (r, told)) >>= _ = _
    rw [bind_assoc]
    simp only [pure_bind]
  rw [hrun, map_bind]
  show _ = x.run >>= ExceptT.bindCont g
  refine congrArg _ (funext fun r => ?_)
  cases r with
  | ok a => exact h a told
  | error e =>
    show Prod.fst <$> (Pure.pure (Except.error e, told) : StateT σ (Prog ι) _) = _
    rw [map_pure]
    rfl

/-- What the code does without its observer, it does with it. -/
theorem Silences.run {x : Notifying ω ε σ ι α} {y : ExceptT ε (StateT σ (Prog ι)) α}
    (h : Silences x y) (told : List ω) {s s' : σ} {left : ℕ} {r : Except ε α}
    (hrun : (Prog.runFrom y.run s left).1 = some (r, s')) :
    ∃ log, (Prog.runFrom (x.run.run told) s left).1 = some ((r, log), s') := by
  rw [← h told, map_eq_bind_pure_comp] at hrun
  obtain ⟨⟨r', log⟩, s₁, rest, hx, hpure⟩ := Prog.runFrom_bind_returns hrun
  obtain ⟨rfl, rfl⟩ := Prod.mk.inj (Option.some.inj hpure)
  exact ⟨log, congrArg Prod.fst hx⟩

/-! ## What the observer is told -/

/-- In every run that ends with a value the observer is told some events that `returned` allows, and
in every run that fails some events that `failed` allows. -/
def Traces (returned : α → List ω → Prop) (failed : List ω → Prop) (x : Notifying ω ε σ ι α) :
    Prop :=
  ∀ told s, ((x.run.run told).run s).Yields fun r => ∃ events, r.1.2 = told ++ events ∧
    match r.1.1 with
    | .ok a => returned a events
    | .error _ => failed events

variable {returned returned' : α → List ω → Prop} {failed failed' : List ω → Prop}

/-- Weaker conditions on the events. -/
theorem Traces.mono {x : Notifying ω ε σ ι α} (h : Traces returned failed x)
    (hreturned : ∀ a events, returned a events → returned' a events)
    (hfailed : ∀ events, failed events → failed' events) : Traces returned' failed' x := by
  intro told s
  refine (h told s).mono ?_
  rintro ⟨⟨r, log⟩, s'⟩ ⟨events, hlog, hr⟩
  refine ⟨events, hlog, ?_⟩
  cases r with
  | ok a => exact hreturned a events hr
  | error e => exact hfailed events hr

/-- What is returned tells no event. -/
theorem Traces.pure {a : α} (h : returned a []) :
    Traces returned failed (Pure.pure a : Notifying ω ε σ ι α) := by
  intro told s
  exact ⟨[], by rw [List.append_nil], h⟩

/-- An event comes before those of the rest. -/
theorem Traces.notify_bind {event : ω} {f : Unit → Notifying ω ε σ ι α}
    (h : Traces returned failed (f ())) :
    Traces (fun a events => ∃ rest, events = event :: rest ∧ returned a rest)
      (fun events => ∃ rest, events = event :: rest ∧ failed rest) (notify event >>= f) := by
  intro told s
  refine (h (told ++ [event]) s).mono ?_
  rintro ⟨⟨r, log⟩, s'⟩ ⟨events, hlog, hr⟩
  refine ⟨event :: events, by rw [hlog, List.append_assoc, List.singleton_append], ?_⟩
  cases r with
  | ok a => exact ⟨events, rfl, hr⟩
  | error e => exact ⟨events, rfl, hr⟩

/-- Code that tells nothing may fail before the rest begins. -/
theorem Traces.quietly_bind {x : ExceptT ε (StateT σ (Prog ι)) α}
    {f : α → Notifying ω ε σ ι β} {returned : β → List ω → Prop}
    (h : ∀ a, Traces returned failed (f a)) :
    Traces returned (fun events => events = [] ∨ failed events) (quietly x >>= f) := by
  intro told s
  have hrun : ((quietly x >>= f).run.run told).run s =
      (x.run.run s) >>= fun r => ((ExceptT.bindCont f r.1).run told).run r.2 := by
    show ((StateT.lift x.run >>= ExceptT.bindCont f).run told).run s = _
    rw [StateT.run_bind]
    show (((x.run >>= fun r => Pure.pure (r, told)) >>= _ : StateT σ (Prog ι) _)).run s = _
    rw [bind_assoc, StateT.run_bind]
    simp only [pure_bind]
  rw [hrun]
  refine (Prog.yields_true (x.run.run s)).bind ?_
  rintro ⟨r, s'⟩ -
  cases r with
  | ok a =>
    refine (h a told s').mono ?_
    rintro ⟨⟨r, log⟩, s''⟩ ⟨events, hlog, hr⟩
    refine ⟨events, hlog, ?_⟩
    cases r with
    | ok b => exact hr
    | error e => exact Or.inr hr
  | error e => exact ⟨[], by rw [List.append_nil], Or.inl rfl⟩

end Polling
