import VmSpect.Lib.Polling

/-!
# Values that effects do not change

Code over a component with effects of its own (a cache, counters, a flag that another thread may
set) often returns the same value whatever the state of the component is. A `Returning m` says when
a computation of the monad `m` counts as returning a value; it is closed under `pure` and `>>=`, and
no computation returns two values. Facts about code over an arbitrary `m` are then proved from what
its calls return, once for all interpretations. `Returning.calm` is the one for programs with a
state that poll a flag: the value is returned from every state with an invariant, which is kept, as
long as the flag is not set.
-/

namespace Polling

/-- When the computations of a monad return a value. -/
structure Returning (m : Type → Type) [Monad m] where
  returns : {α : Type} → m α → α → Prop
  returns_pure : ∀ {α : Type} (a : α), returns (pure a) a
  returns_bind : ∀ {α β : Type} {x : m α} {f : α → m β} {a : α} {b : β},
    returns x a → returns (f a) b → returns (x >>= f) b
  unique : ∀ {α : Type} {x : m α} {a b : α}, returns x a → returns x b → a = b

namespace Returning

variable {m : Type → Type} [Monad m] (R : Returning m) {ε α β : Type}

/-- Code that may fail returns a value or an error. -/
def outcome (x : ExceptT ε m α) (r : Except ε α) : Prop := R.returns x.run r

variable {R}

theorem outcome_pure (a : α) : R.outcome (pure a : ExceptT ε m α) (.ok a) := by
  unfold outcome
  exact R.returns_pure (Except.ok a)

/-- A sequence whose first part returns a value. -/
theorem outcome_bind {x : ExceptT ε m α} {f : α → ExceptT ε m β} {a : α} {r : Except ε β}
    (hx : R.outcome x (.ok a)) (hf : R.outcome (f a) r) : R.outcome (x >>= f) r :=
  R.returns_bind hx hf

/-- Code that cannot fail. -/
theorem outcome_lift [LawfulMonad m] {x : m α} {a : α} (h : R.returns x a) :
    R.outcome (ExceptT.lift x : ExceptT ε m α) (.ok a) := by
  have hrun : (ExceptT.lift x : ExceptT ε m α).run = x >>= fun b => pure (.ok b) :=
    map_eq_pure_bind Except.ok x
  rw [outcome, hrun]
  exact R.returns_bind h (R.returns_pure _)

/-- There is one outcome. -/
theorem outcome_iff {x : ExceptT ε m α} {r : Except ε α} (h : R.outcome x r) (r' : Except ε α) :
    R.outcome x r' ↔ r' = r := by
  constructor
  · intro h'
    exact R.unique h' h
  · rintro rfl
    exact h

end Returning

/-- Values of programs that are run from a state with an invariant while the flag is not set. -/
def Returning.calm {ι σ : Type} (I : σ → Prop) (hI : ∃ s, I s) :
    Returning (StateT σ (Prog ι)) where
  returns x a := ∀ s, I s → ∃ s', Prog.calmFrom x s = some (a, s') ∧ I s'
  returns_pure a s hs := ⟨s, rfl, hs⟩
  returns_bind {α β x f a b} hx hf s hs := by
    obtain ⟨s₁, hfirst, hs₁⟩ := hx s hs
    obtain ⟨s₂, hsecond, hs₂⟩ := hf s₁ hs₁
    refine ⟨s₂, ?_, hs₂⟩
    rw [Prog.calmFrom_bind, hfirst]
    exact hsecond
  unique {α x a b} ha hb := by
    obtain ⟨s, hs⟩ := hI
    obtain ⟨s₁, h₁, -⟩ := ha s hs
    obtain ⟨s₂, h₂, -⟩ := hb s hs
    have heq := h₁.symm.trans h₂
    rw [Option.some_inj, Prod.mk.injEq] at heq
    exact heq.1

/-- Values of code with a state of its own, from every state with an invariant, which is kept. -/
def Returning.stateT {m : Type → Type} [Monad m] (R : Returning m) {σ : Type} (I : σ → Prop)
    (hI : ∃ s, I s) : Returning (StateT σ m) where
  returns x a := ∀ s, I s → ∃ s', R.returns (x.run s) (a, s') ∧ I s'
  returns_pure a s hs := ⟨s, R.returns_pure (a, s), hs⟩
  returns_bind {α β x f a b} hx hf s hs := by
    obtain ⟨s₁, hfirst, hs₁⟩ := hx s hs
    obtain ⟨s₂, hsecond, hs₂⟩ := hf s₁ hs₁
    exact ⟨s₂, R.returns_bind hfirst hsecond, hs₂⟩
  unique {α x a b} ha hb := by
    obtain ⟨s, hs⟩ := hI
    obtain ⟨s₁, h₁, -⟩ := ha s hs
    obtain ⟨s₂, h₂, -⟩ := hb s hs
    exact congrArg Prod.fst (R.unique h₁ h₂)

end Polling
