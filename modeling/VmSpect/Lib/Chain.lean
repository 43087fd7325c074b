import Mathlib.Data.List.Basic
import Mathlib.Tactic

/-!
# Following a chain of links

A node may have a link to a next one. A walk along the links checks each node, refuses to go further
than a limit, and refuses a node whose identity it has met before. So it ends on every graph, and it
succeeds exactly on the chains that are short enough, do not repeat and pass all checks
(`walk_ok_iff`). Otherwise it fails with the first problem that it meets.
-/

namespace Chain

variable {N I ε : Type*}

/-- The node after `n` links. -/
def nth (next : N → Option N) (a : N) : ℕ → Option N
  | 0 => some a
  | n + 1 => (nth next a n).bind next

/-- The walk from a node, with the number of nodes that it may still visit and the identities of
those that it has visited. -/
def walk [DecidableEq I] (next : N → Option N) (identity : N → I) (check : N → Except ε Unit)
    (tooLong cycle : N → ε) : ℕ → N → List I → Except ε Unit
  | 0, a, _ => .error (tooLong a)
  | left + 1, a, visited =>
    if identity a ∈ visited then .error (cycle a)
    else
      match check a with
      | .error e => .error e
      | .ok () =>
        match next a with
        | none => .ok ()
        | some b => walk next identity check tooLong cycle left b (identity a :: visited)

section Walk

variable (next : N → Option N) (identity : N → I) (check : N → Except ε Unit)

/-- The node at place `n` has an identity that an earlier one has. -/
def Repeats (a : N) (n : ℕ) : Prop :=
  ∃ b c, nth next a n = some b ∧ ∃ m < n, nth next a m = some c ∧ identity c = identity b

/-- The nodes before place `n` pass their checks and do not repeat. -/
def CleanBefore (a : N) (n : ℕ) : Prop :=
  ∀ m < n, ¬Repeats next identity a m ∧ ∀ b, nth next a m = some b → check b = .ok ()

variable {next} {identity} {check} [DecidableEq I] (tooLong cycle : N → ε) {a b : N} {n limit : ℕ}

/-- A walk gets to every node whose predecessors are clean, unless the limit is reached. -/
theorem walk_reaches (hb : nth next a n = some b) (hclean : CleanBefore next identity check a n)
    (hn : n ≤ limit) :
    ∃ visited, (∀ i, i ∈ visited ↔ ∃ m < n, ∃ c, nth next a m = some c ∧ identity c = i) ∧
      walk next identity check tooLong cycle limit a [] =
        walk next identity check tooLong cycle (limit - n) b visited := by
  -- By induction on the place, with the identities that were seen before it.
  induction n generalizing b with
  | zero =>
    obtain rfl : a = b := Option.some.inj hb
    exact ⟨[], by simp, rfl⟩
  | succ n ih =>
    rw [nth, Option.bind_eq_some_iff] at hb
    obtain ⟨c, hc, hnext⟩ := hb
    have hbefore : CleanBefore next identity check a n := fun m hm => hclean m (by omega)
    obtain ⟨visited, hvisited, hwalk⟩ := ih hc hbefore (by omega)
    obtain ⟨hfresh, hcheck⟩ := hclean n (by omega)
    -- The node is a new one, since no clean node repeats.
    have hnew : identity c ∉ visited := by
      intro hmem
      obtain ⟨m, hm, d, hd, hid⟩ := (hvisited _).mp hmem
      exact hfresh ⟨c, d, hc, m, hm, hd, hid⟩
    refine ⟨identity c :: visited, ?_, ?_⟩
    · intro i
      rw [List.mem_cons, hvisited]
      constructor
      · rintro (rfl | ⟨m, hm, d, hd, hid⟩)
        · exact ⟨n, by omega, c, hc, rfl⟩
        · exact ⟨m, by omega, d, hd, hid⟩
      · rintro ⟨m, hm, d, hd, rfl⟩
        rcases Nat.lt_succ_iff_lt_or_eq.mp hm with hm | rfl
        · exact Or.inr ⟨m, hm, d, hd, rfl⟩
        · rw [hc] at hd
          exact Or.inl (congrArg identity (Option.some.inj hd.symm))
    · rw [hwalk, show limit - n = (limit - (n + 1)) + 1 by omega, walk, if_neg hnew, hcheck c hc]
      dsimp only
      rw [hnext]

variable {tooLong} {cycle}

/-- A chain that is too long. -/
theorem walk_tooLong (hb : nth next a limit = some b)
    (hclean : CleanBefore next identity check a limit) :
    walk next identity check tooLong cycle limit a [] = .error (tooLong b) := by
  obtain ⟨visited, -, hwalk⟩ := walk_reaches tooLong cycle hb hclean le_rfl
  rw [hwalk, Nat.sub_self, walk]

/-- A chain that comes back to a node. -/
theorem walk_cycle (hb : nth next a n = some b) (hclean : CleanBefore next identity check a n)
    (hn : n < limit) (hrepeats : Repeats next identity a n) :
    walk next identity check tooLong cycle limit a [] = .error (cycle b) := by
  obtain ⟨visited, hvisited, hwalk⟩ := walk_reaches tooLong cycle hb hclean hn.le
  obtain ⟨b', c, hb', m, hm, hc, hid⟩ := hrepeats
  obtain rfl : b' = b := Option.some.inj (hb'.symm.trans hb)
  rw [hwalk, show limit - n = (limit - (n + 1)) + 1 by omega, walk,
    if_pos ((hvisited _).mpr ⟨m, hm, c, hc, hid⟩)]

/-- What a walk does at a node that it has not met before. -/
theorem walk_at (hb : nth next a n = some b) (hclean : CleanBefore next identity check a n)
    (hn : n < limit) (hfresh : ¬Repeats next identity a n) :
    (∀ e, check b = .error e → walk next identity check tooLong cycle limit a [] = .error e) ∧
      (check b = .ok () → next b = none →
        walk next identity check tooLong cycle limit a [] = .ok ()) := by
  obtain ⟨visited, hvisited, hwalk⟩ := walk_reaches tooLong cycle hb hclean hn.le
  have hnew : identity b ∉ visited := by
    intro hmem
    obtain ⟨m, hm, c, hc, hid⟩ := (hvisited _).mp hmem
    exact hfresh ⟨b, c, hb, m, hm, hc, hid⟩
  rw [hwalk, show limit - n = (limit - (n + 1)) + 1 by omega, walk, if_neg hnew]
  constructor
  · intro e hcheck
    rw [hcheck]
  · intro hcheck hnext
    rw [hcheck]
    dsimp only
    rw [hnext]

/-- Past its end a chain stays ended. -/
theorem nth_none_of_le {m : ℕ} (h : nth next a n = none) (hle : n ≤ m) : nth next a m = none := by
  induction m, hle using Nat.le_induction with
  | base => exact h
  | succ m _ ih => rw [nth, ih, Option.bind_none]

/-- A chain that ends before the limit and is clean up to it has a last node. -/
theorem exists_last (h : nth next a n = none) :
    ∃ m b, m < n ∧ nth next a m = some b ∧ next b = none := by
  induction n with
  | zero => cases h
  | succ n ih =>
    cases hn : nth next a n with
    | none =>
      obtain ⟨m, b, hm, hb, hlast⟩ := ih hn
      exact ⟨m, b, by omega, hb, hlast⟩
    | some b =>
      rw [nth, hn] at h
      exact ⟨n, b, by omega, hn, h⟩

/-- A walk succeeds exactly on a chain that ends within the limit, repeats no identity and passes
all checks. -/
theorem walk_ok_iff :
    walk next identity check tooLong cycle limit a [] = .ok () ↔
      nth next a limit = none ∧ (∀ n, ¬Repeats next identity a n) ∧
        ∀ n b, nth next a n = some b → check b = .ok () := by
  constructor
  · intro h
    -- By induction on the place, since the first problem would have been reported.
    have hclean : ∀ n ≤ limit, CleanBefore next identity check a n := by
      intro n
      induction n with
      | zero => exact fun _ m hm => absurd hm (Nat.not_lt_zero m)
      | succ n ih =>
        intro hn m hm
        have hbefore := ih (by omega)
        rcases Nat.lt_succ_iff_lt_or_eq.mp hm with hm | rfl
        · exact hbefore m hm
        · have hfresh : ¬Repeats next identity a m := by
            intro hrepeats
            obtain ⟨b, c, hb, -⟩ := id hrepeats
            rw [walk_cycle hb hbefore (by omega) hrepeats] at h
            cases h
          refine ⟨hfresh, fun b hb => ?_⟩
          cases hcheck : check b with
          | ok u => rfl
          | error e =>
            rw [(walk_at hb hbefore (by omega) hfresh).1 e hcheck] at h
            cases h
    have hend : nth next a limit = none := by
      cases hb : nth next a limit with
      | none => rfl
      | some b =>
        rw [walk_tooLong hb (hclean limit le_rfl)] at h
        cases h
    refine ⟨hend, fun n => ?_, fun n b hb => ?_⟩
    · by_cases hn : n < limit
      · exact (hclean limit le_rfl n hn).1
      · rintro ⟨b, c, hb, -⟩
        rw [nth_none_of_le hend (by omega)] at hb
        cases hb
    · by_cases hn : n < limit
      · exact (hclean limit le_rfl n hn).2 b hb
      · rw [nth_none_of_le hend (by omega)] at hb
        cases hb
  · rintro ⟨hend, hfresh, hcheck⟩
    obtain ⟨m, b, hm, hb, hlast⟩ := exists_last hend
    have hclean : CleanBefore next identity check a m := fun k _ => ⟨hfresh k, hcheck k⟩
    exact (walk_at hb hclean hm (hfresh m)).2 (hcheck m b hb) hlast

end Walk

end Chain
