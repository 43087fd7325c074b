import VmSpect.Lib.Polling

/-!
# Two runs of one program

Code that is written against an interface (a driver, a cache, a clock) is often run over two
implementations of it, and does the same over both when the calls of the interface do. A
`Relating m n` says when a computation of `m` and one of `n` count as doing the same, up to a
relation between the values that they return; it is closed under `pure` and `>>=`. Facts about two
runs of code over the interface are then proved call by call (`bind_eq`), once for all
implementations.

`Relating.stateT` and `Relating.exceptT` carry the notion over to code with a state of its own, the
two states of which are kept in a relation, and to code that may fail. `Relating.calm` is the one for
programs that poll a flag, run while it is not set: both return, or both panic.
-/

namespace Polling

/-- When a computation of one monad does the same as one of another. -/
structure Relating (m n : Type → Type) [Monad m] [Monad n] where
  relates : {α β : Type} → (α → β → Prop) → m α → n β → Prop
  relates_pure : ∀ {α β : Type} {P : α → β → Prop} {a : α} {b : β}, P a b →
    relates P (pure a) (pure b)
  relates_bind : ∀ {α β γ δ : Type} {P : α → β → Prop} {Q : γ → δ → Prop} {x : m α} {y : n β}
    {f : α → m γ} {g : β → n δ}, relates P x y → (∀ a b, P a b → relates Q (f a) (g b)) →
    relates Q (x >>= f) (y >>= g)
  relates_mono : ∀ {α β : Type} {P Q : α → β → Prop} {x : m α} {y : n β}, relates P x y →
    (∀ a b, P a b → Q a b) → relates Q x y

namespace Relating

variable {m n : Type → Type} [Monad m] [Monad n] (M : Relating m n) {α β γ δ ε : Type}

/-- Both return the same value. -/
def Same (x : m α) (y : n α) : Prop := M.relates Eq x y

variable {M}

theorem same_pure (a : α) : M.Same (pure a) (pure a) := M.relates_pure rfl

/-- A sequence whose first parts return the same. -/
theorem bind_eq {Q : γ → δ → Prop} {x : m α} {y : n α} {f : α → m γ} {g : α → n δ}
    (hxy : M.Same x y) (hfg : ∀ a, M.relates Q (f a) (g a)) : M.relates Q (x >>= f) (y >>= g) := by
  refine M.relates_bind hxy ?_
  rintro a _ rfl
  exact hfg a

/-- The same for sequences that end in equal values. -/
theorem same_bind {x : m α} {y : n α} {f : α → m γ} {g : α → n γ} (hxy : M.Same x y)
    (hfg : ∀ a, M.Same (f a) (g a)) : M.Same (x >>= f) (y >>= g) := bind_eq hxy hfg

/-- A function of the value. -/
theorem same_map [LawfulMonad m] [LawfulMonad n] {x : m α} {y : n α} (hxy : M.Same x y)
    (f : α → γ) : M.Same (f <$> x) (f <$> y) := by
  rw [map_eq_pure_bind, map_eq_pure_bind]
  exact same_bind hxy fun a => same_pure (f a)

/-- Code that is run only under a condition. -/
theorem same_ite {c : Prop} [Decidable c] {x x' : m α} {y y' : n α} (hthen : M.Same x y)
    (helse : M.Same x' y') : M.Same (if c then x else x') (if c then y else y') := by
  split
  · exact hthen
  · exact helse

/-- Code that goes on after something that is run only under a condition. -/
theorem same_ite_bind {c : Prop} [Decidable c] {x x' : m α} {y y' : n α} {f : α → m γ}
    {g : α → n γ} (hthen : M.Same x y) (helse : M.Same x' y') (hfg : ∀ a, M.Same (f a) (g a)) :
    M.Same (if c then x >>= f else x' >>= f) (if c then y >>= g else y' >>= g) :=
  same_ite (same_bind hthen hfg) (same_bind helse hfg)

/-! ## Code with a state -/

section State

variable {σ τ : Type} (M) (S : σ → τ → Prop)

/-- Code with states of its own, which stay in the relation `S`. -/
def stateT : Relating (StateT σ m) (StateT τ n) where
  relates {α β} P x y := ∀ s t, S s t →
    M.relates (fun (a : α × σ) (b : β × τ) => P a.1 b.1 ∧ S a.2 b.2) (x.run s) (y.run t)
  relates_pure h _ _ hst := M.relates_pure ⟨h, hst⟩
  relates_bind hxy hfg s t hst :=
    M.relates_bind (hxy s t hst) fun a b hab => hfg a.1 b.1 hab.1 a.2 b.2 hab.2
  relates_mono hxy himp s t hst :=
    M.relates_mono (hxy s t hst) fun a b hab => ⟨himp a.1 b.1 hab.1, hab.2⟩

variable {M S}

/-- Code that does not use the state. -/
theorem stateT_lift {P : α → β → Prop} {x : m α} {y : n β} (hxy : M.relates P x y) :
    (M.stateT S).relates P (StateT.lift x) (StateT.lift y) :=
  fun _ _ hst => M.relates_bind hxy fun _ _ hab => M.relates_pure ⟨hab, hst⟩

/-- A look at the state. -/
theorem stateT_get : (M.stateT S).relates S get get := fun _ _ hst => M.relates_pure ⟨hst, hst⟩

/-- A new state. -/
theorem stateT_set {s : σ} {t : τ} (hst : S s t) : (M.stateT S).Same (set s) (set t) :=
  fun _ _ _ => M.relates_pure ⟨rfl, hst⟩

/-- An update of the state. -/
theorem stateT_modify {f : σ → σ} {g : τ → τ} (hfg : ∀ s t, S s t → S (f s) (g t)) :
    (M.stateT S).Same (modify f) (modify g) :=
  fun s t hst => M.relates_pure ⟨rfl, hfg s t hst⟩

end State

/-! ## Code that may fail -/

section Except

/-- The same error, or values that are in the relation `P`. -/
inductive Outcomes (P : α → β → Prop) : Except ε α → Except ε β → Prop where
  | ok {a : α} {b : β} (h : P a b) : Outcomes P (.ok a) (.ok b)
  | error (e : ε) : Outcomes P (.error e) (.error e)

/-- Outcomes whose values are equal are equal. -/
theorem outcomes_eq_iff {r r' : Except ε α} : Outcomes Eq r r' ↔ r = r' := by
  constructor
  · rintro (rfl | e) <;> rfl
  · rintro rfl
    cases r with
    | ok a => exact .ok rfl
    | error e => exact .error e

variable (M ε)

/-- Code that may fail: both fail with the same error, or none does. -/
def exceptT : Relating (ExceptT ε m) (ExceptT ε n) where
  relates P x y := M.relates (Outcomes P) x.run y.run
  relates_pure h := M.relates_pure (.ok h)
  relates_bind hxy hfg := by
    refine M.relates_bind hxy fun r r' hr => ?_
    cases hr with
    | ok h => exact hfg _ _ h
    | error e => exact M.relates_pure (.error e)
  relates_mono hxy himp := by
    refine M.relates_mono hxy fun r r' hr => ?_
    cases hr with
    | ok h => exact .ok (himp _ _ h)
    | error e => exact .error e

variable {M ε}

/-- Code that returns the same value or error. -/
theorem exceptT_same_iff {x : ExceptT ε m α} {y : ExceptT ε n α} :
    (M.exceptT ε).Same x y ↔ M.Same x.run y.run := by
  constructor
  · exact fun h => M.relates_mono h fun r r' hr => outcomes_eq_iff.mp hr
  · exact fun h => M.relates_mono h fun r r' hr => outcomes_eq_iff.mpr hr

/-- Code that is given by its outcome. -/
theorem exceptT_mk {x : m (Except ε α)} {y : n (Except ε α)} (h : M.Same x y) :
    (M.exceptT ε).Same (ExceptT.mk x) (ExceptT.mk y) := exceptT_same_iff.mpr h

/-- An error. -/
theorem exceptT_throw (e : ε) :
    (M.exceptT ε).Same (throw e : ExceptT ε m α) (throw e : ExceptT ε n α) :=
  M.relates_pure (.error e)

/-- Code that cannot fail. -/
theorem exceptT_lift [LawfulMonad m] [LawfulMonad n] {P : α → β → Prop} {x : m α} {y : n β}
    (h : M.relates P x y) : (M.exceptT ε).relates P (ExceptT.lift x) (ExceptT.lift y) := by
  have hx : (ExceptT.lift x : ExceptT ε m α).run = x >>= fun a => pure (.ok a) :=
    map_eq_pure_bind Except.ok x
  have hy : (ExceptT.lift y : ExceptT ε n β).run = y >>= fun b => pure (.ok b) :=
    map_eq_pure_bind Except.ok y
  show M.relates _ _ _
  rw [hx, hy]
  exact M.relates_bind h fun a b hab => M.relates_pure (.ok hab)

end Except

/-! ## Calm runs -/

section Calm

variable (ι κ : Type)

/-- Programs that poll a flag, while it is not set: both return, or both panic. -/
def calm : Relating (Prog ι) (Prog κ) where
  relates P p q := Option.Rel P p.calm q.calm
  relates_pure h := .some h
  relates_bind {α β γ δ P Q p q f g} hpq hfg := by
    rw [Prog.calm_bind, Prog.calm_bind]
    generalize p.calm = r, q.calm = r' at hpq
    cases hpq with
    | some h => exact hfg _ _ h
    | none => exact .none
  relates_mono {α β P Q p q} hpq himp := by
    generalize p.calm = r, q.calm = r' at hpq ⊢
    cases hpq with
    | some h => exact .some (himp _ _ h)
    | none => exact .none

variable {ι κ}

/-- A load of the flag, at any sites. -/
theorem calm_poll (site : ι) (site' : κ) :
    (calm ι κ).Same (Prog.poll site) (Prog.poll site') := .some rfl

/-- A panic. -/
theorem calm_panic (P : α → β → Prop) :
    (calm ι κ).relates P (Prog.panic : Prog ι α) (Prog.panic : Prog κ β) := .none

/-- A program does the same as itself. -/
theorem calm_self (p : Prog ι α) : (calm ι ι).Same p p := by
  show Option.Rel Eq p.calm p.calm
  cases p.calm with
  | some a => exact .some rfl
  | none => exact .none

/-- Programs whose sites have other names. -/
theorem calm_mapSites {ι' κ' : Type} {P : α → β → Prop} {p : Prog ι α} {q : Prog κ β}
    (h : (calm ι κ).relates P p q) (f : ι → ι') (g : κ → κ') :
    (calm ι' κ').relates P (p.mapSites f) (q.mapSites g) := by
  show Option.Rel P _ _
  rw [Prog.calm_mapSites, Prog.calm_mapSites]
  exact h

/-- Programs whose panics are caught. -/
theorem calm_catch {P : α → β → Prop} {p : Prog ι α} {q : Prog κ β} (h : (calm ι κ).relates P p q) :
    (calm ι κ).relates (Option.Rel P) p.catchPanic q.catchPanic := by
  show Option.Rel _ _ _
  rw [Prog.calm_catchPanic, Prog.calm_catchPanic]
  exact .some h

end Calm

end Relating

end Polling
