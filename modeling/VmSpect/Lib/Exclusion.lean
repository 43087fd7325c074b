import VmSpect.Lib.Interleaving

/-!
# A slot that one holder at a time takes

A flag says whether the slot is taken. A system uses the slot properly when each of its steps leaves
the flag and the holders alone, or takes the slot while the flag is clear, or is a holder's release,
which clears the flag. Then there is never more than one holder, and the flag is set exactly while
there is one (`Exclusion.exclusive_of_run`).
-/

namespace Exclusion

open Interleaving

variable {S E T : Type*}

/-- What a step does to the slot. -/
inductive Use (flag : S → Bool) (holds : S → T → Prop) (s s' : S) : Prop where
  | neutral (hflag : flag s' = flag s) (hholds : ∀ t, holds s' t ↔ holds s t)
  | acquire (t : T) (hclear : flag s = false) (hset : flag s' = true)
      (hholds : ∀ u, holds s' u ↔ holds s u ∨ u = t)
  | release (t : T) (hheld : holds s t) (hclear : flag s' = false)
      (hholds : ∀ u, holds s' u ↔ holds s u ∧ u ≠ t)

/-- At most one holder, and the flag is set exactly while there is one. -/
structure Exclusive (flag : S → Bool) (holds : S → T → Prop) (s : S) : Prop where
  unique : ∀ t u, holds s t → holds s u → t = u
  flag_iff : flag s = true ↔ ∃ t, holds s t

variable {flag : S → Bool} {holds : S → T → Prop}

/-- A proper use of the slot keeps it exclusive. -/
theorem Use.exclusive {s s' : S} (h : Use flag holds s s') (hs : Exclusive flag holds s) :
    Exclusive flag holds s' := by
  cases h with
  | neutral hflag hholds =>
    refine ⟨fun t u ht hu => hs.unique t u ((hholds t).mp ht) ((hholds u).mp hu), ?_⟩
    rw [hflag, hs.flag_iff]
    exact exists_congr fun t => (hholds t).symm
  | acquire t hclear hset hholds =>
    -- The flag is clear, so nobody else holds the slot.
    have hnone : ∀ u, ¬holds s u := by
      intro u hu
      have htrue := hs.flag_iff.mpr ⟨u, hu⟩
      rw [hclear] at htrue
      cases htrue
    have honly : ∀ u, holds s' u ↔ u = t := by
      intro u
      rw [hholds u]
      exact or_iff_right (hnone u)
    refine ⟨fun u v hu hv => ?_, iff_of_true hset ⟨t, (honly t).mpr rfl⟩⟩
    rw [(honly u).mp hu, (honly v).mp hv]
  | release t hheld hclear hholds =>
    -- The only holder gives the slot up.
    have hnone : ∀ u, ¬holds s' u := by
      intro u hu
      obtain ⟨hu, hne⟩ := (hholds u).mp hu
      exact hne (hs.unique u t hu hheld)
    refine ⟨fun u v hu _ => absurd hu (hnone u), ?_⟩
    rw [hclear]
    exact iff_of_false Bool.false_ne_true fun ⟨u, hu⟩ => hnone u hu

/-- The flag is set exactly while there is exactly one holder. -/
theorem Exclusive.flag_iff_existsUnique {s : S} (h : Exclusive flag holds s) :
    flag s = true ↔ ∃! t, holds s t := by
  rw [h.flag_iff]
  constructor
  · rintro ⟨t, ht⟩
    exact ⟨t, ht, fun u hu => h.unique u t hu ht⟩
  · exact fun h => h.exists

/-- A system that starts with a free slot and uses it properly keeps it exclusive in every run. -/
theorem exclusive_of_run {step : E → S → Option S}
    (huse : ∀ e s s', step e s = some s' → Use flag holds s s') {s₀ : S}
    (h0 : Exclusive flag holds s₀) {es : List E} {s : S} (h : run step es s₀ = some s) :
    Exclusive flag holds s :=
  run_invariant (Exclusive flag holds) h0 (fun e s t hs ht => (huse e s t ht).exclusive hs) h

end Exclusion
