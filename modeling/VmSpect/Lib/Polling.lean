import Mathlib.Tactic

/-!
# Programs that poll a flag

A program of type `Prog ι α` returns a value, panics, or loads a flag that another thread may set,
and goes on by what it saw. Each load names its site, so that the places where a program looks at
the flag can be told apart. Everything else that a program does is part of its tree.

The flag never goes back, so a run is given by the number of loads that still answer false (`run`);
`calm` is the run in which the flag is never set, and `sites` lists its loads; `Yields` is a
condition on what any run returns. A flag that is set after the last load is not seen
(`run_of_sites_le`). What becomes of the other runs is said by the first load that sees the flag:
`Settles` gives a condition on their results, and `Stops` and `StopsFrom` one on the errors of code
that may fail. Both are kept by sequences.
-/

namespace Polling

/-- A program that polls a flag. -/
inductive Prog (ι α : Type) where
  | done (a : α)
  | panic
  | load (site : ι) (next : Bool → Prog ι α)

namespace Prog

variable {ι α β : Type}

/-- One program after another; a panic ends both. -/
protected def bind : Prog ι α → (α → Prog ι β) → Prog ι β
  | done a, f => f a
  | panic, _ => panic
  | load site next, f => load site fun answer => (next answer).bind f

instance : Monad (Prog ι) where
  pure := done
  bind := Prog.bind

/-- A load of the flag. -/
def poll (site : ι) : Prog ι Bool := load site done

/-- A value, or a panic. -/
def ofOption : Option α → Prog ι α
  | some a => done a
  | none => panic

/-- `catch_unwind`. -/
def catchPanic : Prog ι α → Prog ι (Option α)
  | done a => done (some a)
  | panic => done none
  | load site next => load site fun answer => (next answer).catchPanic

/-- The program with other names for its sites. -/
def mapSites {κ : Type} (f : ι → κ) : Prog ι α → Prog κ α
  | done a => done a
  | panic => panic
  | load site next => load (f site) fun answer => (next answer).mapSites f

/-- The run in which `left` loads answer false and all others true: what it returns, if it does not
panic, and how many false answers are left over. -/
def run : Prog ι α → ℕ → Option α × ℕ
  | done a, left => (some a, left)
  | panic, left => (none, left)
  | load _ next, 0 => (next true).run 0
  | load _ next, left + 1 => (next false).run left

/-- The run in which the flag is never set. -/
def calm : Prog ι α → Option α
  | done a => some a
  | panic => none
  | load _ next => (next false).calm

/-- The loads of the calm run. -/
def sites : Prog ι α → List ι
  | done _ => []
  | panic => []
  | load site next => site :: (next false).sites

/-! ## Sequences -/

@[simp] theorem done_bind (a : α) (f : α → Prog ι β) : (done a : Prog ι α) >>= f = f a := rfl

@[simp] theorem load_bind (site : ι) (next : Bool → Prog ι α) (f : α → Prog ι β) :
    load site next >>= f = load site fun answer => next answer >>= f := rfl

@[simp] theorem panic_bind (f : α → Prog ι β) : (panic : Prog ι α) >>= f = panic := rfl

theorem bind_done (p : Prog ι α) : p.bind done = p := by
  induction p with
  | done a => rfl
  | panic => rfl
  | load site next ih =>
    rw [Prog.bind]
    exact congrArg _ (funext ih)

protected theorem bind_assoc {γ : Type} (p : Prog ι α) (f : α → Prog ι β) (g : β → Prog ι γ) :
    (p.bind f).bind g = p.bind fun a => (f a).bind g := by
  induction p with
  | done a => rfl
  | panic => rfl
  | load site next ih =>
    simp only [Prog.bind]
    exact congrArg _ (funext ih)

instance : LawfulMonad (Prog ι) :=
  LawfulMonad.mk' (Prog ι) bind_done (fun _ _ => rfl) Prog.bind_assoc

/-- The run of a sequence. -/
theorem run_bind (p : Prog ι α) (f : α → Prog ι β) (left : ℕ) :
    (p >>= f).run left =
      match p.run left with
      | (some a, rest) => (f a).run rest
      | (none, rest) => (none, rest) := by
  induction p generalizing left with
  | done a => rfl
  | panic => rfl
  | load site next ih =>
    rw [load_bind]
    cases left with
    | zero => exact ih true 0
    | succ left => exact ih false left

/-- The calm run of a sequence. -/
theorem calm_bind (p : Prog ι α) (f : α → Prog ι β) :
    (p >>= f).calm = p.calm.bind fun a => (f a).calm := by
  induction p with
  | done a => rfl
  | panic => rfl
  | load site next ih => exact ih false

/-- The loads of a sequence. -/
theorem sites_bind (p : Prog ι α) (f : α → Prog ι β) :
    (p >>= f).sites = p.sites ++ (p.calm.map fun a => (f a).sites).getD [] := by
  induction p with
  | done a => rfl
  | panic => rfl
  | load site next ih =>
    rw [load_bind, sites, ih false]
    rfl

/-- In the calm run of `catch_unwind` a panic is a value. -/
theorem calm_catchPanic (p : Prog ι α) : p.catchPanic.calm = some p.calm := by
  induction p with
  | done a => rfl
  | panic => rfl
  | load site next ih => exact ih false

/-- The calm run of code with a state. -/
def calmFrom {σ : Type} (x : StateT σ (Prog ι) α) (s : σ) : Option (α × σ) := (x.run s).calm

/-- The calm run of a sequence goes on from the state of its first part. -/
theorem calmFrom_bind {σ : Type} (x : StateT σ (Prog ι) α) (f : α → StateT σ (Prog ι) β) (s : σ) :
    calmFrom (x >>= f) s = (calmFrom x s).bind fun r => calmFrom (f r.1) r.2 := by
  unfold calmFrom
  rw [StateT.run_bind]
  exact calm_bind _ _

/-- The calm run of code that does not use the state. -/
theorem calmFrom_lift {σ : Type} (p : Prog ι α) (s : σ) :
    calmFrom (StateT.lift p) s = p.calm.map fun a => (a, s) := by
  unfold calmFrom
  rw [show (StateT.lift p : StateT σ (Prog ι) α).run s = p >>= fun a => pure (a, s) from rfl, calm_bind]
  cases p.calm <;> rfl

/-- The calm run of a sequence whose first part returns. -/
theorem calm_bind_of_ok {ε : Type} {x : ExceptT ε (Prog ι) α} (f : α → ExceptT ε (Prog ι) β) {a : α}
    (h : x.run.calm = some (.ok a)) : (x >>= f).run.calm = (f a).run.calm := by
  rw [show (x >>= f).run = x.run >>= ExceptT.bindCont f from rfl, calm_bind, h]
  rfl

/-! ## Calm runs that fail -/

/-- The calm run of a sequence fails in its first part, or after it. -/
theorem calm_bind_error {ε : Type} {x : ExceptT ε (Prog ι) α} {f : α → ExceptT ε (Prog ι) β}
    {e : ε} :
    (x >>= f).run.calm = some (.error e) ↔ x.run.calm = some (.error e) ∨
      ∃ a, x.run.calm = some (.ok a) ∧ (f a).run.calm = some (.error e) := by
  rw [show (x >>= f).run = x.run >>= ExceptT.bindCont f from rfl, calm_bind]
  match x.run.calm with
  | none => simp
  | some (.error e') => simp [ExceptT.bindCont, calm, pure]
  | some (.ok a) => simp [ExceptT.bindCont, ExceptT.run]

section CalmFrom

variable {σ ε : Type} {x : ExceptT ε (StateT σ (Prog ι)) α} {s t : σ}
  (f : α → ExceptT ε (StateT σ (Prog ι)) β)

/-- The calm run of a sequence whose first part returns. -/
theorem calmFrom_bind_of_ok {a : α} (h : calmFrom x.run s = some (.ok a, t)) :
    calmFrom (x >>= f).run s = calmFrom (f a).run t := by
  rw [show (x >>= f).run = x.run >>= ExceptT.bindCont f from rfl, calmFrom_bind, h]
  rfl

/-- The calm run of a sequence whose first part fails. -/
theorem calmFrom_bind_of_error {e : ε} (h : calmFrom x.run s = some (.error e, t)) :
    calmFrom (x >>= f).run s = some (.error e, t) := by
  rw [show (x >>= f).run = x.run >>= ExceptT.bindCont f from rfl, calmFrom_bind, h]
  rfl

/-- The calm run of a sequence whose first part panics. -/
theorem calmFrom_bind_of_panic (h : calmFrom x.run s = none) :
    calmFrom (x >>= f).run s = none := by
  rw [show (x >>= f).run = x.run >>= ExceptT.bindCont f from rfl, calmFrom_bind, h]
  rfl

variable {f}

/-- The calm run of a sequence fails in its first part, or after it. -/
theorem calmFrom_bind_error {after : σ} {e : ε} :
    calmFrom (x >>= f).run s = some (.error e, after) ↔
      calmFrom x.run s = some (.error e, after) ∨
      ∃ a mid, calmFrom x.run s = some (.ok a, mid) ∧
        calmFrom (f a).run mid = some (.error e, after) := by
  match hx : calmFrom x.run s with
  | none =>
    rw [calmFrom_bind_of_panic f hx]
    simp
  | some (.error e', mid) =>
    rw [calmFrom_bind_of_error f hx]
    simp
  | some (.ok a, mid) =>
    rw [calmFrom_bind_of_ok f hx]
    simp

/-- The calm run of a sequence returns after both of its parts did. -/
theorem calmFrom_bind_ok {after : σ} {b : β} (h : calmFrom (x >>= f).run s = some (.ok b, after)) :
    ∃ a mid, calmFrom x.run s = some (.ok a, mid) ∧
      calmFrom (f a).run mid = some (.ok b, after) := by
  match hx : calmFrom x.run s with
  | none =>
    rw [calmFrom_bind_of_panic f hx] at h
    cases h
  | some (.error e', mid) =>
    rw [calmFrom_bind_of_error f hx] at h
    cases h
  | some (.ok a, mid) =>
    rw [calmFrom_bind_of_ok f hx] at h
    exact ⟨a, mid, rfl, h⟩

end CalmFrom

/-! ## What any run returns -/

/-- Every value that the program can return satisfies the condition. -/
def Yields (Q : α → Prop) : Prog ι α → Prop
  | done a => Q a
  | panic => True
  | load _ next => ∀ answer, (next answer).Yields Q

/-- A program always returns some value, or panics. -/
theorem yields_true (p : Prog ι α) : p.Yields fun _ => True := by
  induction p with
  | done a => trivial
  | panic => trivial
  | load site next ih => exact ih

/-- A weaker condition. -/
theorem Yields.mono {P Q : α → Prop} {p : Prog ι α} (h : p.Yields P) (himp : ∀ a, P a → Q a) :
    p.Yields Q := by
  induction p with
  | done a => exact himp a h
  | panic => trivial
  | load site next ih => exact fun answer => ih answer (h answer)

/-- A sequence, by what its first part returns. -/
theorem Yields.bind {P : α → Prop} {Q : β → Prop} {p : Prog ι α} {f : α → Prog ι β}
    (hp : p.Yields P) (hf : ∀ a, P a → (f a).Yields Q) : (p >>= f).Yields Q := by
  induction p with
  | done a => exact hf a hp
  | panic => trivial
  | load site next ih => exact fun answer => ih answer (hp answer)

/-- What the calm run returns. -/
theorem Yields.of_calm {P : α → Prop} {p : Prog ι α} (hp : p.Yields P) {a : α}
    (h : p.calm = some a) : P a := by
  induction p with
  | done a' =>
    obtain rfl := Option.some.inj h
    exact hp
  | panic => cases h
  | load site next ih => exact ih false (hp false) h

/-- What any other run returns. -/
theorem Yields.of_run {P : α → Prop} {p : Prog ι α} (hp : p.Yields P) {left : ℕ} {a : α}
    (h : (p.run left).1 = some a) : P a := by
  induction p generalizing left with
  | done a' =>
    obtain rfl := Option.some.inj h
    exact hp
  | panic => cases h
  | load site next ih =>
    rcases left with _ | left
    · exact ih true (hp true) h
    · exact ih false (hp false) h

/-- `catch_unwind` returns what the program returns, or tells the panic. -/
theorem Yields.catchPanic {P : α → Prop} {p : Prog ι α} (hp : p.Yields P) :
    p.catchPanic.Yields fun r => ∀ a, r = some a → P a := by
  induction p with
  | done a =>
    intro a' h
    obtain rfl := Option.some.inj h
    exact hp
  | panic =>
    intro a h
    cases h
  | load site next ih => exact fun answer => ih answer (hp answer)

/-- Every value that code that may fail can return satisfies the condition. -/
def YieldsOk {ε : Type} (Q : α → Prop) (x : ExceptT ε (Prog ι) α) : Prop :=
  x.run.Yields fun r => ∀ a, r = .ok a → Q a

/-- A value that satisfies the condition. -/
theorem YieldsOk.pure {ε : Type} {Q : α → Prop} {a : α} (h : Q a) :
    YieldsOk Q (Pure.pure a : ExceptT ε (Prog ι) α) := by
  intro a' ha
  obtain rfl := Except.ok.inj ha
  exact h

/-- Code that cannot fail. -/
theorem YieldsOk.lift {ε : Type} {Q : α → Prop} {p : Prog ι α} (h : p.Yields Q) :
    YieldsOk Q (ExceptT.lift p : ExceptT ε (Prog ι) α) := by
  have hrun : (ExceptT.lift p : ExceptT ε (Prog ι) α).run = p >>= fun a => Pure.pure (.ok a) :=
    map_eq_pure_bind Except.ok p
  unfold YieldsOk
  rw [hrun]
  refine h.bind fun a ha => ?_
  exact YieldsOk.pure ha

/-- A sequence, by what its first part returns. -/
theorem YieldsOk.bind {ε : Type} {P : α → Prop} {Q : β → Prop} {x : ExceptT ε (Prog ι) α}
    {f : α → ExceptT ε (Prog ι) β} (hx : YieldsOk P x) (hf : ∀ a, P a → YieldsOk Q (f a)) :
    YieldsOk Q (x >>= f) := by
  refine Yields.bind (f := ExceptT.bindCont f) hx fun r hr => ?_
  rcases r with e | a
  · intro b hb
    cases hb
  · exact hf a (hr a rfl)

/-- A sequence, when only its last part matters. -/
theorem YieldsOk.of_bind {ε : Type} {Q : β → Prop} {x : ExceptT ε (Prog ι) α}
    {f : α → ExceptT ε (Prog ι) β} (hf : ∀ a, YieldsOk Q (f a)) : YieldsOk Q (x >>= f) := by
  have hx : YieldsOk (fun _ => True) x :=
    Yields.mono (yields_true x.run) fun _ _ _ _ => trivial
  exact hx.bind fun a _ => hf a

/-! ## Runs of code with a state -/

/-- The run of code with a state. -/
def runFrom {σ : Type} (x : StateT σ (Prog ι) α) (s : σ) (left : ℕ) : Option (α × σ) × ℕ :=
  (x.run s).run left

/-- The run of a sequence, by that of its first part. -/
theorem runFrom_bind {σ : Type} (x : StateT σ (Prog ι) α) (f : α → StateT σ (Prog ι) β) (s : σ)
    (left : ℕ) :
    runFrom (x >>= f) s left =
      match runFrom x s left with
      | (some (a, mid), rest) => runFrom (f a) mid rest
      | (none, rest) => (none, rest) := by
  unfold runFrom
  rw [StateT.run_bind, run_bind]
  rcases (x.run s).run left with ⟨_ | ⟨a, mid⟩, rest⟩ <;> rfl

/-- A sequence that returns: its first part returned, and then the rest of it did. -/
theorem runFrom_bind_returns {σ : Type} {x : StateT σ (Prog ι) α} {f : α → StateT σ (Prog ι) β}
    {s after : σ} {left : ℕ} {b : β} (h : (runFrom (x >>= f) s left).1 = some (b, after)) :
    ∃ a mid rest, runFrom x s left = (some (a, mid), rest) ∧
      (runFrom (f a) mid rest).1 = some (b, after) := by
  rw [runFrom_bind] at h
  match hx : runFrom x s left with
  | (none, rest) =>
    rw [hx] at h
    cases h
  | (some (a, mid), rest) =>
    rw [hx] at h
    exact ⟨a, mid, rest, rfl, h⟩

/-- The run of code that does not use the state. -/
theorem runFrom_lift {σ : Type} (p : Prog ι α) (s : σ) (left : ℕ) :
    runFrom (StateT.lift p) s left = ((p.run left).1.map fun a => (a, s), (p.run left).2) := by
  unfold runFrom
  rw [show (StateT.lift p : StateT σ (Prog ι) α).run s = p >>= fun a => pure (a, s) from rfl,
    run_bind]
  rcases p.run left with ⟨_ | a, rest⟩ <;> rfl

/-- In any run of `catch_unwind` a panic is a value. -/
theorem run_catchPanic (p : Prog ι α) (left : ℕ) :
    p.catchPanic.run left = (some (p.run left).1, (p.run left).2) := by
  induction p generalizing left with
  | done a => rfl
  | panic => rfl
  | load site next ih =>
    rcases left with _ | left
    · exact ih true 0
    · exact ih false left

/-! ## Runs and the calm run -/

/-- Once the flag is set, it stays set. -/
theorem run_zero_left (p : Prog ι α) : (p.run 0).2 = 0 := by
  induction p with
  | done a => rfl
  | panic => rfl
  | load site next ih => exact ih true

/-- A flag that is set after the last load is not seen. -/
theorem run_of_sites_le (p : Prog ι α) {left : ℕ} (h : p.sites.length ≤ left) :
    p.run left = (p.calm, left - p.sites.length) := by
  induction p generalizing left with
  | done a => rfl
  | panic => rfl
  | load site next ih =>
    rw [sites, List.length_cons] at h
    obtain ⟨left, rfl⟩ : ∃ k, left = k + 1 := ⟨left - 1, by omega⟩
    rw [run, ih false (by omega), sites, List.length_cons, calm]
    congr 1
    omega

/-- A flag that a load sees leaves no false answer over. -/
theorem run_left_of_lt (p : Prog ι α) {left : ℕ} (h : left < p.sites.length) :
    (p.run left).2 = 0 := by
  induction p generalizing left with
  | done a => exact absurd h (by simp [sites])
  | panic => exact absurd h (by simp [sites])
  | load site next ih =>
    cases left with
    | zero => exact run_zero_left (next true)
    | succ left =>
      rw [sites, List.length_cons] at h
      exact ih false (by omega)

/-! ## Other names for the sites -/

section MapSites

variable {κ : Type} (f : ι → κ) (p : Prog ι α)

/-- The names of the sites do not change a run. -/
@[simp] theorem run_mapSites (left : ℕ) : (p.mapSites f).run left = p.run left := by
  induction p generalizing left with
  | done a => rfl
  | panic => rfl
  | load site next ih =>
    cases left with
    | zero => exact ih true 0
    | succ left => exact ih false left

/-- The calm run has the same loads, under their new names. -/
@[simp] theorem sites_mapSites : (p.mapSites f).sites = p.sites.map f := by
  induction p with
  | done a => rfl
  | panic => rfl
  | load site next ih => rw [mapSites, sites, sites, ih false, List.map_cons]

/-- The calm run returns the same. -/
@[simp] theorem calm_mapSites : (p.mapSites f).calm = p.calm := by
  induction p with
  | done a => rfl
  | panic => rfl
  | load site next ih => exact ih false

end MapSites

/-! ## Runs that see the flag set -/

/-- Every run that sees the flag set has a result that fits the load that saw it first; `none`
stands for a panic. -/
def Settles (Q : ι → Option α → Prop) (p : Prog ι α) : Prop :=
  ∀ left site, p.sites[left]? = some site → Q site (p.run left).1

section Settles

variable {P : ι → Option α → Prop} {Q : ι → Option β → Prop}

/-- A program without loads. -/
theorem Settles.of_sites_nil {p : Prog ι α} (h : p.sites = []) : Settles P p := by
  intro left site hsite
  rw [h, List.getElem?_nil] at hsite
  cases hsite

/-- A load, by its two answers. -/
theorem Settles.load {site : ι} {next : Bool → Prog ι α} (htrue : P site ((next true).run 0).1)
    (hfalse : Settles P (next false)) : Settles P (Prog.load site next) := by
  intro left s hs
  rw [sites] at hs
  cases left with
  | zero =>
    rw [List.getElem?_cons_zero, Option.some_inj] at hs
    exact hs ▸ htrue
  | succ left =>
    rw [List.getElem?_cons_succ] at hs
    exact hfalse left s hs

/-- A weaker condition. -/
theorem Settles.mono {P' : ι → Option α → Prop} {p : Prog ι α} (h : Settles P p)
    (himp : ∀ site r, P site r → P' site r) : Settles P' p :=
  fun left site hsite => himp site _ (h left site hsite)

/-- Other names for the sites. -/
theorem Settles.mapSites {κ : Type} {f : ι → κ} {P : κ → Option α → Prop} {p : Prog ι α}
    (h : Settles (fun site => P (f site)) p) : Settles P (p.mapSites f) := by
  intro left site hsite
  rw [sites_mapSites, List.getElem?_map, Option.map_eq_some_iff] at hsite
  obtain ⟨s, hs, rfl⟩ := hsite
  rw [run_mapSites]
  exact h left s hs

/-- A sequence. What follows a part that saw the flag set runs with the flag set from the start. -/
theorem Settles.bind {p : Prog ι α} {f : α → Prog ι β} (hp : Settles P p)
    (hpanic : ∀ site, P site none → Q site none)
    (hafter : ∀ site a, P site (some a) → Q site ((f a).run 0).1)
    (hf : ∀ a, Settles Q (f a)) : Settles Q (p >>= f) := by
  intro left site hsite
  rw [sites_bind] at hsite
  rw [run_bind]
  by_cases hlt : left < p.sites.length
  · -- The first part sees the flag.
    rw [List.getElem?_append_left hlt] at hsite
    have hfit := hp left site hsite
    have hleft := p.run_left_of_lt hlt
    match hrun : p.run left with
    | (none, rest) =>
      rw [hrun] at hfit
      exact hpanic site hfit
    | (some a, rest) =>
      rw [hrun] at hfit hleft
      obtain rfl : rest = 0 := hleft
      exact hafter site a hfit
  · -- The first part is calm, and the rest of the loads are those of the second one.
    rw [List.getElem?_append_right (by omega)] at hsite
    rw [p.run_of_sites_le (by omega)]
    cases hcalm : p.calm with
    | none =>
      rw [hcalm] at hsite
      cases hsite
    | some a =>
      rw [hcalm] at hsite
      exact hf a _ site hsite

end Settles

/-! ## Code that may fail -/

section Stops

variable {σ ε : Type} {bad : ι → Option ε → Prop}

/-- A run ended with an error that fits a site, or with a panic that does. -/
def Fits (bad : ι → Option ε → Prop) (site : ι) : Option (Except ε α) → Prop
  | none => bad site none
  | some (.error e) => bad site (some e)
  | some (.ok _) => False

/-- Every run that sees the flag set fails, in a way that fits the load that saw it first. -/
def Stops (bad : ι → Option ε → Prop) (x : ExceptT ε (Prog ι) α) : Prop := Settles (Fits bad) x.run

/-- The same for code with a state. -/
def StopsFrom (bad : ι → Option ε → Prop) (x : ExceptT ε (StateT σ (Prog ι)) α) : Prop :=
  ∀ s, Settles (fun site r => Fits bad site (r.map Prod.fst)) (x.run.run s)

/-- A sequence. -/
theorem Stops.bind {x : ExceptT ε (Prog ι) α} {f : α → ExceptT ε (Prog ι) β} (hx : Stops bad x)
    (hf : ∀ a, Stops bad (f a)) : Stops bad (x >>= f) := by
  refine Settles.bind hx (fun site h => h) (fun site r h => ?_) (fun r => ?_)
  · cases r with
    | error e => exact h
    | ok a => exact h.elim
  · cases r with
    | error e => exact Settles.of_sites_nil rfl
    | ok a => exact hf a

/-- A sequence of code with a state. -/
theorem StopsFrom.bind {x : ExceptT ε (StateT σ (Prog ι)) α}
    {f : α → ExceptT ε (StateT σ (Prog ι)) β} (hx : StopsFrom bad x)
    (hf : ∀ a, StopsFrom bad (f a)) : StopsFrom bad (x >>= f) := by
  intro s
  refine Settles.bind (hx s) (fun site h => h) (fun site r h => ?_) (fun r => ?_)
  · obtain ⟨r, s'⟩ := r
    cases r with
    | error e => exact h
    | ok a => exact h.elim
  · obtain ⟨r, s'⟩ := r
    cases r with
    | error e => exact Settles.of_sites_nil rfl
    | ok a => exact hf a s'

/-- Code that cannot fail, before code that fails once the flag is set. -/
theorem StopsFrom.lift_bind {P : ι → Option (α × σ) → Prop} {x : StateT σ (Prog ι) α}
    {f : α → ExceptT ε (StateT σ (Prog ι)) β} (hx : ∀ s, Settles P (x.run s))
    (hpanic : ∀ site, P site none → bad site none)
    (hafter : ∀ site a s, P site (some (a, s)) →
      Fits bad site ((((f a).run.run s).run 0).1.map Prod.fst))
    (hf : ∀ a, StopsFrom bad (f a)) : StopsFrom bad (ExceptT.lift x >>= f) := by
  intro s
  rw [ExceptT.run_bind_lift, StateT.run_bind]
  exact (hx s).bind hpanic (fun site r h => hafter site r.1 r.2 h) fun r => hf r.1 r.2

end Stops

end Prog

end Polling
