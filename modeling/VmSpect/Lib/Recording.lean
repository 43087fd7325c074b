import Mathlib.Tactic

/-!
# Recorded requests

Code that makes requests is run over a log. `Records x a requests` says that `x` returns `a` and
adds these requests to whatever the log holds, and it composes along `>>=`. Two logs of parts that
agree up to a first request in which they differ stay different whatever follows (`Diverges`), so
that logs of many parts can be compared part by part (`flatMap_eq_iff`).
-/

namespace Recording

variable {ρ α β ε : Type}

/-- From every log, `x` returns `a` and adds the requests. -/
def Records (x : StateM (List ρ) α) (a : α) (requests : List ρ) : Prop :=
  ∀ log, x.run log = (a, log ++ requests)

/-- The same for code that may fail. -/
def Outcome (x : ExceptT ε (StateM (List ρ)) α) (r : Except ε α) (requests : List ρ) : Prop :=
  Records x.run r requests

/-- Code that makes no request. -/
theorem Records.pure (a : α) : Records (Pure.pure a : StateM (List ρ) α) a [] := by
  intro log
  rw [List.append_nil]
  rfl

/-- One request. -/
theorem Records.request (r : ρ) : Records (modify (· ++ [r])) () [r] := fun _ => rfl

/-- A sequence makes the requests of its parts, one after the other. -/
theorem Records.bind {x : StateM (List ρ) α} {f : α → StateM (List ρ) β} {a : α} {b : β}
    {first second : List ρ} (hx : Records x a first) (hf : Records (f a) b second) :
    Records (x >>= f) b (first ++ second) := by
  intro log
  rw [StateT.run_bind, hx log, ← List.append_assoc]
  exact hf (log ++ first)

/-- Code that neither fails nor makes a request. -/
theorem Outcome.pure (a : α) :
    Outcome (Pure.pure a : ExceptT ε (StateM (List ρ)) α) (.ok a) [] := by
  unfold Outcome
  exact Records.pure (Except.ok a)

/-- A failure makes no request. -/
theorem Outcome.throw (e : ε) :
    Outcome (MonadExcept.throw e : ExceptT ε (StateM (List ρ)) α) (.error e) [] := by
  unfold Outcome
  exact Records.pure (Except.error e)

/-- A sequence whose first part succeeds. -/
theorem Outcome.bind {x : ExceptT ε (StateM (List ρ)) α}
    {f : α → ExceptT ε (StateM (List ρ)) β} {a : α} {r : Except ε β} {first second : List ρ}
    (hx : Outcome x (.ok a) first) (hf : Outcome (f a) r second) :
    Outcome (x >>= f) r (first ++ second) :=
  Records.bind (f := ExceptT.bindCont f) hx hf

/-- A part that fails ends the sequence. -/
theorem Outcome.bind_error {x : ExceptT ε (StateM (List ρ)) α}
    {f : α → ExceptT ε (StateM (List ρ)) β} {e : ε} {first : List ρ}
    (hx : Outcome x (.error e) first) : Outcome (x >>= f) (.error e) first := by
  have hrest : Records (Pure.pure (Except.error e) : StateM (List ρ) (Except ε β)) (.error e) [] :=
    Records.pure _
  have hboth := Records.bind (f := ExceptT.bindCont f) hx hrest
  rw [List.append_nil] at hboth
  exact hboth

/-! ## Logs that differ -/

/-- The logs agree up to a request in which they differ. -/
def Diverges (a b : List ρ) : Prop :=
  ∃ front x y s t, a = front ++ x :: s ∧ b = front ++ y :: t ∧ x ≠ y

/-- They stay different, whatever follows. -/
theorem Diverges.append_ne {a b : List ρ} (h : Diverges a b) (s t : List ρ) : a ++ s ≠ b ++ t := by
  obtain ⟨front, x, y, s', t', rfl, rfl, hne⟩ := h
  intro heq
  rw [List.append_assoc, List.append_assoc, List.append_cancel_left_eq, List.cons_append,
    List.cons_append, List.cons.injEq] at heq
  exact hne heq.1

/-- A common request before them. -/
theorem Diverges.cons {a b : List ρ} (r : ρ) (h : Diverges a b) : Diverges (r :: a) (r :: b) := by
  obtain ⟨front, x, y, s, t, rfl, rfl, hne⟩ := h
  exact ⟨r :: front, x, y, s, t, rfl, rfl, hne⟩

/-- Logs of many parts, each of which agrees or diverges, are equal when all parts agree. -/
theorem flatMap_eq_iff {f g : α → List ρ} {xs : List α}
    (h : ∀ x ∈ xs, f x = g x ∨ Diverges (f x) (g x)) :
    xs.flatMap f = xs.flatMap g ↔ ∀ x ∈ xs, f x = g x := by
  induction xs with
  | nil => simp
  | cons x rest ih =>
    have hrest := ih fun y hy => h y (List.mem_cons_of_mem x hy)
    rw [List.flatMap_cons, List.flatMap_cons, List.forall_mem_cons]
    rcases h x List.mem_cons_self with heq | hdiv
    · rw [heq, List.append_cancel_left_eq, hrest]
      exact ⟨fun hall => ⟨rfl, hall⟩, fun hall => hall.2⟩
    · refine iff_of_false (hdiv.append_ne _ _) ?_
      rintro ⟨heq, -⟩
      exact hdiv.append_ne [] [] (by rw [heq])

end Recording
