import VmSpect.Lib.Words

/-!
# Computations that log their arithmetic

A computation of type `Logged ε α` returns a value or stops with an error, and carries a log of the
operations on 64-bit words that it has made. The operations wrap, and an entry of the log is `Exact`
when the operation gave the mathematical result. A value comes with the equation that defines it, so
that later steps can rely on it.
-/

namespace Words

/-- An operation on 64-bit words, with its operands. -/
inductive Op where
  | add (a b : ℕ)
  | mul (a b : ℕ)
  | divCeil (a b : ℕ)
  deriving DecidableEq, Repr

/-- The operation gives the mathematical result: it does not wrap, or does not divide by zero. -/
def Op.Exact : Op → Prop
  | add a b => a + b < 2^64
  | mul a b => a * b < 2^64
  | divCeil _ b => b ≠ 0

instance (op : Op) : Decidable op.Exact := by
  cases op <;> unfold Op.Exact <;> infer_instance

/-- A computation with the log of its arithmetic. -/
structure Logged (ε α : Type) where
  ops : List Op
  result : Except ε α

namespace Logged

variable {ε ε' α β : Type}

instance : Monad (Logged ε) where
  pure a := ⟨[], .ok a⟩
  bind x f :=
    match x.result with
    | .ok a => ⟨x.ops ++ (f a).ops, (f a).result⟩
    | .error e => ⟨x.ops, .error e⟩

instance : MonadExcept ε (Logged ε) where
  throw e := ⟨[], .error e⟩
  tryCatch x f :=
    match x.result with
    | .ok _ => x
    | .error e => ⟨x.ops ++ (f e).ops, (f e).result⟩

/-- A result without any arithmetic. -/
def ofExcept (r : Except ε α) : Logged ε α := ⟨[], r⟩

/-- `map_err`. -/
def mapError (f : ε → ε') (x : Logged ε α) : Logged ε' α := ⟨x.ops, x.result.mapError f⟩

/-- Wrapping addition. -/
def add (a b : ℕ) : Logged ε { n : ℕ // n = addw a b } := ⟨[.add a b], .ok ⟨addw a b, rfl⟩⟩

/-- Wrapping multiplication. -/
def mul (a b : ℕ) : Logged ε { n : ℕ // n = mulw a b } := ⟨[.mul a b], .ok ⟨mulw a b, rfl⟩⟩

/-- Division with rounding up, which stops at a divisor of zero. -/
def divCeil (zero : ε) (a b : ℕ) : Logged ε { n : ℕ // b ≠ 0 ∧ n = (a + b - 1) / b } :=
  if h : b = 0 then ⟨[.divCeil a b], .error zero⟩
  else ⟨[.divCeil a b], .ok ⟨(a + b - 1) / b, h, rfl⟩⟩

/-- The sum of a list, term by term. -/
def sum : List ℕ → ℕ → Logged ε ℕ
  | [], acc => pure acc
  | x :: xs, acc => do
    let ⟨next, _⟩ ← add acc x
    sum xs next

/-! ## How the results and logs compose -/

/-- A value is the result, and takes no operations. -/
@[simp] theorem result_pure (a : α) : (pure a : Logged ε α).result = .ok a := rfl

/-- A value takes no operations. -/
@[simp] theorem ops_pure (a : α) : (pure a : Logged ε α).ops = [] := rfl

/-- An error is the result. -/
@[simp] theorem result_throw (e : ε) : (throw e : Logged ε α).result = .error e := rfl

/-- An error takes no operations. -/
@[simp] theorem ops_throw (e : ε) : (throw e : Logged ε α).ops = [] := rfl

/-- A result that is given is the result. -/
@[simp] theorem result_ofExcept (r : Except ε α) : (ofExcept r).result = r := rfl

/-- A result that is given takes no operations. -/
@[simp] theorem ops_ofExcept (r : Except ε α) : (ofExcept r).ops = [] := rfl

/-- The result of a product wraps around. -/
@[simp] theorem result_mul (a b : ℕ) : (mul a b : Logged ε _).result = .ok ⟨mulw a b, rfl⟩ := rfl

/-- A product is one operation. -/
@[simp] theorem ops_mul (a b : ℕ) : (mul a b : Logged ε _).ops = [.mul a b] := rfl

/-- The result of a sum wraps around. -/
@[simp] theorem result_add (a b : ℕ) : (add a b : Logged ε _).result = .ok ⟨addw a b, rfl⟩ := rfl

/-- A sum is one operation. -/
@[simp] theorem ops_add (a b : ℕ) : (add a b : Logged ε _).ops = [.add a b] := rfl

/-- A rounded up quotient of anything but zero. -/
theorem result_divCeil {zero : ε} (a : ℕ) (b : ℕ) (h : b ≠ 0) :
    (divCeil zero a b).result = .ok ⟨(a + b - 1) / b, h, rfl⟩ := by
  rw [divCeil, dif_neg h]

/-- The result with its error mapped. -/
@[simp] theorem result_mapError (f : ε → ε') (x : Logged ε α) :
    (x.mapError f).result = x.result.mapError f := rfl

/-- An error that is mapped takes the same operations. -/
@[simp] theorem ops_mapError (f : ε → ε') (x : Logged ε α) : (x.mapError f).ops = x.ops := rfl

/-- Mapping an error twice is mapping it once. -/
theorem mapError_mapError {γ : Type} (r : Except γ α) (f : γ → ε) (g : ε → ε') :
    (r.mapError f).mapError g = r.mapError (g ∘ f) := by
  cases r <;> rfl

/-- There is no error to map in a value. -/
@[simp] theorem mapError_pure (f : ε → ε') (a : α) : (pure a : Logged ε α).mapError f = pure a := rfl

/-- There is no error to map in a product. -/
@[simp] theorem mapError_mul (f : ε → ε') (a b : ℕ) : (mul a b).mapError f = mul a b := rfl

/-- The error of a result that is given, mapped. -/
@[simp] theorem mapError_ofExcept {γ : Type} (f : ε → ε') (g : γ → ε) (r : Except γ α) :
    (ofExcept (r.mapError g)).mapError f = ofExcept (r.mapError (f ∘ g)) :=
  congrArg ofExcept (mapError_mapError r g f)

/-- The error of a division by zero, mapped. -/
@[simp] theorem mapError_divCeil (f : ε → ε') (zero : ε) (a b : ℕ) :
    (divCeil zero a b).mapError f = divCeil (f zero) a b := by
  unfold divCeil
  split <;> rfl

/-- `map_err` of a sequence. -/
@[simp] theorem mapError_bind (f : ε → ε') (x : Logged ε α) (g : α → Logged ε β) :
    (x >>= g).mapError f = x.mapError f >>= fun a => (g a).mapError f := by
  rcases x with ⟨ops, _ | a⟩ <;> rfl

/-- There is no error to map in a sum of many numbers. -/
@[simp] theorem mapError_sum (f : ε → ε') (xs : List ℕ) (acc : ℕ) :
    (sum xs acc).mapError f = sum xs acc := by
  induction xs generalizing acc with
  | nil => rfl
  | cons x xs ih =>
    rw [sum, mapError_bind, sum]
    exact congrArg _ (funext fun next => ih next.1)

/-- After a step that returned, the computation goes on with its value. -/
theorem bind_of_ok {x : Logged ε α} {f : α → Logged ε β} {a : α} (h : x.result = .ok a) :
    x >>= f = ⟨x.ops ++ (f a).ops, (f a).result⟩ := by
  show (match x.result with
    | .ok a => ⟨x.ops ++ (f a).ops, (f a).result⟩
    | .error e => ⟨x.ops, .error e⟩ : Logged ε β) = _
  rw [h]

/-- After a step that stopped, the computation has stopped. -/
theorem bind_of_error {x : Logged ε α} {f : α → Logged ε β} {e : ε} (h : x.result = .error e) :
    x >>= f = ⟨x.ops, .error e⟩ := by
  show (match x.result with
    | .ok a => ⟨x.ops ++ (f a).ops, (f a).result⟩
    | .error e => ⟨x.ops, .error e⟩ : Logged ε β) = _
  rw [h]

/-- A sequence returns a value exactly when its first step does and its second step returns it. -/
theorem bind_eq_ok {x : Logged ε α} {f : α → Logged ε β} {b : β} :
    (x >>= f).result = .ok b ↔ ∃ a, x.result = .ok a ∧ (f a).result = .ok b := by
  cases hx : x.result with
  | error e =>
    rw [bind_of_error hx]
    simp
  | ok a =>
    rw [bind_of_ok hx]
    simp

/-- What follows a product goes on with it, wrapped around. -/
@[simp] theorem result_mul_bind {a b : ℕ} {f : { n // n = mulw a b } → Logged ε β} :
    (mul a b >>= f).result = (f ⟨mulw a b, rfl⟩).result := rfl

/-- What follows a sum goes on with it, wrapped around. -/
@[simp] theorem result_add_bind {a b : ℕ} {f : { n // n = addw a b } → Logged ε β} :
    (add a b >>= f).result = (f ⟨addw a b, rfl⟩).result := rfl

/-- A step without arithmetic that returns goes on with what it returns. -/
theorem ofExcept_ok_bind {γ : Type} {a : α} {g : γ → ε} {f : α → Logged ε β} :
    ofExcept ((Except.ok a).mapError g) >>= f = f a :=
  rfl

/-- A step without arithmetic returned before the rest did. -/
theorem ofExcept_bind_eq_ok {γ : Type} {r : Except γ α} {g : γ → ε} {f : α → Logged ε β} {b : β} :
    (ofExcept (r.mapError g) >>= f).result = .ok b ↔ ∃ a, r = .ok a ∧ (f a).result = .ok b := by
  rw [bind_eq_ok]
  cases r <;> simp [Except.mapError]

/-- A sum always returns. -/
theorem exists_result_sum (xs : List ℕ) (acc : ℕ) :
    ∃ n, (sum xs acc : Logged ε ℕ).result = .ok n := by
  induction xs generalizing acc with
  | nil => exact ⟨acc, rfl⟩
  | cons x xs ih =>
    rw [sum, result_add_bind]
    exact ih (addw acc x)

/-! ## The errors of a computation -/

/-- Every error that the computation stops with is one of those that `P` accepts. -/
def StopsWith (P : ε → Prop) (x : Logged ε α) : Prop := ∀ e, x.result = .error e → P e

variable {P : ε → Prop}

/-- A value does not stop. -/
theorem stopsWith_pure (a : α) : StopsWith P (pure a : Logged ε α) := by
  intro e h
  cases h

/-- An error stops as it says. -/
theorem stopsWith_throw {e : ε} (h : P e) : StopsWith P (throw e : Logged ε α) := by
  intro e' he
  cases he
  exact h

/-- A product does not stop. -/
theorem stopsWith_mul (a b : ℕ) : StopsWith P (mul a b) := by
  intro e h
  cases h

/-- A sum does not stop. -/
theorem stopsWith_add (a b : ℕ) : StopsWith P (add a b) := by
  intro e h
  cases h

/-- A result that is given stops as its error says. -/
theorem stopsWith_ofExcept {γ : Type} {r : Except γ α} {g : γ → ε}
    (h : ∀ e, r = .error e → P (g e)) : StopsWith P (ofExcept (r.mapError g)) := by
  intro e he
  cases r with
  | error e' =>
    cases he
    exact h e' rfl
  | ok a => cases he

/-- The errors of a sequence are those of its steps. -/
theorem StopsWith.bind {x : Logged ε α} {f : α → Logged ε β} (hx : StopsWith P x)
    (hf : ∀ a, StopsWith P (f a)) : StopsWith P (x >>= f) := by
  intro e h
  cases hresult : x.result with
  | error e' =>
    rw [bind_of_error hresult] at h
    cases h
    exact hx e hresult
  | ok a =>
    rw [bind_of_ok hresult] at h
    exact hf a e h

/-- With a mapped error, code stops as the map says. -/
theorem stopsWith_mapError {P : ε' → Prop} {g : ε → ε'} {x : Logged ε α} (h : ∀ e, P (g e)) :
    StopsWith P (x.mapError g) := by
  intro e he
  rw [result_mapError] at he
  cases hresult : x.result with
  | error e' =>
    rw [hresult] at he
    cases he
    exact h e'
  | ok a =>
    rw [hresult] at he
    cases he

/-- A sum that does not wrap. -/
theorem result_sum (acc : ℕ) (xs : List ℕ) (h : acc + xs.sum < 2^64) :
    (sum xs acc : Logged ε ℕ).result = .ok (acc + xs.sum) := by
  induction xs generalizing acc with
  | nil => simp [sum]
  | cons x xs ih =>
    rw [List.sum_cons] at h
    have hadd : addw acc x = acc + x := addw_of_lt (by omega)
    rw [sum, bind_of_ok (result_add acc x)]
    dsimp only
    rw [hadd, ih _ (by omega), List.sum_cons, Nat.add_assoc]

/-! ## Exact unless refused -/

instance : LawfulMonad (Logged ε) := by
  refine LawfulMonad.mk' (Logged ε) (fun x => ?_) (fun _ _ => rfl) (fun x f g => ?_)
  · rcases x with ⟨ops, _ | a⟩
    · rfl
    · show (⟨ops ++ [], .ok a⟩ : Logged ε _) = _
      rw [List.append_nil]
  · rcases x with ⟨ops, _ | a⟩
    · rfl
    · rw [bind_of_ok (a := a) rfl, bind_of_ok (a := a) rfl]
      rcases hfa : (f a).result with e | b
      · rw [bind_of_error (x := f a) hfa, bind_of_error (e := e) rfl]
      · rw [bind_of_ok (x := f a) hfa, bind_of_ok (a := b) rfl]
        simp

/-- The result is one that `refused` accepts, or all operations are exact, those of the log and
those that `fits` says of earlier steps. -/
def Careful (refused : Except ε α → Prop) (fits : Prop) (x : Logged ε α) : Prop :=
  refused x.result ∨ (fits ∧ ∀ op ∈ x.ops, op.Exact)

variable {refused : Except ε β → Prop} {fits : Prop}

/-- A value is careful when it is refused or everything fits. -/
theorem careful_pure {b : β} : Careful refused fits (pure b) ↔ refused (.ok b) ∨ fits := by
  simp [Careful]

/-- An error is careful when it is refused or everything fits. -/
theorem careful_throw {e : ε} :
    Careful refused fits (throw e : Logged ε β) ↔ refused (.error e) ∨ fits := by
  simp [Careful]

/-- The operations of a step that returned are added to those of the earlier steps. -/
theorem careful_bind_of_ok {x : Logged ε α} {f : α → Logged ε β} {a : α} (h : x.result = .ok a) :
    Careful refused fits (x >>= f) ↔ Careful refused (fits ∧ ∀ op ∈ x.ops, op.Exact) (f a) := by
  simp only [Careful, bind_of_ok h, List.forall_mem_append, and_assoc]

/-- A product and what follows it: the product has to fit. -/
theorem careful_mul_bind {a b : ℕ} {f : { n // n = mulw a b } → Logged ε β} :
    Careful refused fits (mul a b >>= f) ↔
      Careful refused (fits ∧ a * b < 2^64) (f ⟨mulw a b, rfl⟩) := by
  rw [careful_bind_of_ok (result_mul a b)]
  simp [Op.Exact]

/-- A sum and what follows it: the sum has to fit. -/
theorem careful_add_bind {a b : ℕ} {f : { n // n = addw a b } → Logged ε β} :
    Careful refused fits (add a b >>= f) ↔
      Careful refused (fits ∧ a + b < 2^64) (f ⟨addw a b, rfl⟩) := by
  rw [careful_bind_of_ok (result_add a b)]
  simp [Op.Exact]

/-- A division by zero is not exact. -/
theorem careful_divCeil_bind {zero : ε} (hzero : ¬ refused (.error zero)) {a b : ℕ}
    {f : { n // b ≠ 0 ∧ n = (a + b - 1) / b } → Logged ε β} :
    Careful refused fits (divCeil zero a b >>= f) ↔
      ∃ h : b ≠ 0, Careful refused fits (f ⟨(a + b - 1) / b, h, rfl⟩) := by
  by_cases h : b = 0
  · subst h
    have hdiv : divCeil zero a 0 >>= f = ⟨[.divCeil a 0], .error zero⟩ := rfl
    simp [Careful, hdiv, hzero, Op.Exact]
  · rw [careful_bind_of_ok (result_divCeil a b h)]
    simp [divCeil, h, Op.Exact]

/-- A step without arithmetic whose errors are refused. -/
theorem careful_ofExcept_bind {γ : Type} {r : Except γ α} {g : γ → ε}
    (hrefused : ∀ e, refused (.error (g e))) {f : α → Logged ε β} :
    Careful refused fits (ofExcept (r.mapError g) >>= f) ↔
      ∀ a, r = .ok a → Careful refused fits (f a) := by
  cases r with
  | error e =>
    have hstop : ofExcept ((.error e : Except γ α).mapError g) >>= f = ⟨[], .error (g e)⟩ := rfl
    simp [Careful, hstop, hrefused]
  | ok a =>
    rw [careful_bind_of_ok (a := a) rfl]
    simp [ofExcept]

/-- What fits may be said in other words. -/
theorem careful_congr {fits' : Prop} (h : fits ↔ fits') {x : Logged ε β} :
    Careful refused fits x ↔ Careful refused fits' x := by
  rw [Careful, Careful, h]

/-- The terms of a sum are added exactly when its value fits. -/
theorem careful_sum_bind (xs : List ℕ) {acc : ℕ} (hacc : acc < 2^64) {f : ℕ → Logged ε β} :
    Careful refused fits (sum xs acc >>= f) ↔
      Careful refused (fits ∧ acc + xs.sum < 2^64) (f ((acc + xs.sum) % 2^64)) := by
  induction xs generalizing acc fits with
  | nil =>
    rw [sum, pure_bind, List.sum_nil, Nat.add_zero, Nat.mod_eq_of_lt hacc]
    exact careful_congr (iff_self_and.mpr fun _ => hacc)
  | cons x xs ih =>
    have hvalue : (addw acc x + xs.sum) % 2^64 = (acc + (x :: xs).sum) % 2^64 := by
      rw [addw, Nat.mod_add_mod, List.sum_cons, Nat.add_assoc]
    rw [sum, bind_assoc, careful_add_bind]
    dsimp only
    have hrest : addw acc x < 2^64 := Nat.mod_lt _ (by norm_num)
    rw [ih hrest, hvalue]
    refine careful_congr ?_
    rw [and_assoc, List.sum_cons]
    refine and_congr_right fun _ => ⟨fun ⟨hadd, hsum⟩ => ?_, fun hsum => ⟨by omega, ?_⟩⟩
    · rw [addw_of_lt hadd] at hsum
      omega
    · rw [addw_of_lt (by omega)]
      omega

end Logged

end Words
