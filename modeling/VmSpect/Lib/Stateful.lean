import Mathlib.Tactic

/-!
# Values of stateful computations

`Always c Q` says that `c` returns a value with `Q` from whatever state it is started in. It is what
a caller may rely on when it knows nothing about the state of the component that it calls, and it
composes along `>>=` (`Always.bind`).
-/

namespace Stateful

variable {σ α β : Type}

/-- From every state, the value that `c` returns satisfies `Q`. -/
def Always (c : StateM σ α) (Q : α → Prop) : Prop := ∀ st, Q (c.run st).1

/-- A value that satisfies the condition. -/
theorem Always.pure {a : α} {Q : α → Prop} (h : Q a) : Always (Pure.pure a : StateM σ α) Q :=
  fun _ => h

/-- A sequence, by what its first part returns. -/
theorem Always.bind {c : StateM σ α} {f : α → StateM σ β} {P : α → Prop} {Q : β → Prop}
    (hc : Always c P) (hf : ∀ a, P a → Always (f a) Q) : Always (c >>= f) Q :=
  fun st => hf _ (hc st) (c.run st).2

/-- What follows a computation starts in the state that it ends in. -/
theorem run_bind (c : StateM σ α) (f : α → StateM σ β) (st : σ) :
    (c >>= f).run st = (f (c.run st).1).run (c.run st).2 := rfl

/-- What follows a computation and leaves the state alone ends in the state of the computation. -/
theorem run_bind_snd {c : StateM σ α} {f : α → StateM σ β} (hf : ∀ a st, ((f a).run st).2 = st)
    (st : σ) : ((c >>= f).run st).2 = (c.run st).2 :=
  hf _ _

/-- A weaker condition. -/
theorem Always.mono {c : StateM σ α} {P Q : α → Prop} (hc : Always c P) (h : ∀ a, P a → Q a) :
    Always c Q :=
  fun st => h _ (hc st)

end Stateful
