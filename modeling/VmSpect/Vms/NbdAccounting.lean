import VmSpect.Lib.WorkQueue
import VmSpect.Vms.NbdSession

/-!
# The accounts of the `qemu-nbd` sessions

In every reachable state the counter is the number of permits that are alive, it stays below the
largest limit, and no child runs unattended without a permit (`session_accounting`). A session has a
permit exactly between its `acquire` and the point where the permit goes out of scope, and its child
is observed or killed before that (`Session.Consistent`).
-/

namespace VmSpect.NbdSession

open Interleaving WorkQueue

/-- What the place of a session says about its permit and its child. -/
def Session.Consistent (s : Session) : Prop :=
  match s.phase with
  | .fresh => s.permit = false ∧ s.child = .absent ∧ s.nbdMaxSessions = 0
  | .acquire => s.permit = false ∧ s.child = .absent
  | .bindPort => s.permit = true ∧ s.child = .absent
  | .spawn => s.permit = true ∧ s.child = .absent
  | .reap _ => s.permit = true ∧ s.child ≠ .running
  | .reapWait _ => s.permit = true ∧ s.child ≠ .running
  | .reapLast _ => s.permit = true ∧ s.child ≠ .running
  | .release _ => s.permit = true ∧ s.child ≠ .running
  | .done _ => s.permit = false ∧ s.child ≠ .running
  | _ => s.permit = true

/-- A session with a running child has a permit. -/
theorem Session.Consistent.permit_of_running {s : Session} (h : s.Consistent)
    (hchild : s.child = .running) : s.permit = true := by
  unfold Session.Consistent at h
  cases hphase : s.phase <;> simp_all

/-- A step of a session keeps it consistent, and keeps its permit and its limit. -/
theorem Session.Consistent.next {path : String} {s t : Session} {answer : Answer}
    (h : s.Consistent) (ht : s.next path answer = some t) :
    t.Consistent ∧ t.permit = s.permit ∧ t.nbdMaxSessions = s.nbdMaxSessions := by
  unfold Session.next at ht
  unfold Session.Consistent at h ⊢
  split at ht <;> simp only [Option.some.injEq, reduceCtorEq] at ht <;> subst ht <;>
    simp_all only [and_self, and_true, true_and, ne_eq, reduceCtorEq, not_false_eq_true]
  -- What is left are the steps whose next phase depends on the answer.
  all_goals split_ifs <;> trivial

/-- What a step does to the permits and the counter. -/
inductive Move {n : ℕ} (s : State n) : State n → Prop where
  /-- A wait for a permit goes on. -/
  | stay : Move s s
  /-- A session moves and keeps its permit, or goes on without one. -/
  | quiet (i : Fin n) (session : Session) (hsession : session.Consistent)
      (hpermit : session.permit = (s.sessions i).permit)
      (hlimit : (s.sessions i).nbdMaxSessions ≤ session.nbdMaxSessions) : Move s (s.put i session)
  /-- A session takes a permit while the counter is below its limit. -/
  | take (i : Fin n) (hi : (s.sessions i).phase = .acquire)
      (hcount : s.count < max (s.sessions i).nbdMaxSessions 1) :
      Move s ({ s with count := s.count + 1 }.put i
        { s.sessions i with phase := .bindPort, permit := true })
  /-- A session gives its permit back. -/
  | release (i : Fin n) (outcome : Outcome) (hi : (s.sessions i).phase = .release outcome) :
      Move s ({ s with count := s.count - 1 }.put i
        { s.sessions i with phase := .done outcome, permit := false })

/-- Every step is one of these moves. -/
theorem Move.of_step {path : String} {n : ℕ} {s t : State n} {e : Event n}
    (h : ∀ i, (s.sessions i).Consistent) (ht : step path e s = some t) : Move s t := by
  cases e with
  | start i limit cancelled =>
    simp only [step] at ht
    split at ht
    · rename_i hphase
      obtain rfl := Option.some.inj ht
      have hi := h i
      simp only [Session.Consistent, hphase] at hi
      refine .quiet i _ ?_ rfl (by simp [hi.2.2])
      cases cancelled <;> simp [Session.Consistent, hi.1, hi.2.1]
    · cases ht
  -- The limiter compares and increments under its lock, so this is one step.
  | acquire i waiting =>
    simp only [step] at ht
    split at ht
    · rename_i hphase
      have hi := h i
      simp only [Session.Consistent, hphase] at hi
      split at ht
      · cases waiting <;> obtain rfl := Option.some.inj ht
        · exact .quiet i _ (by simp [Session.Consistent, hi]) rfl le_rfl
        · exact .quiet i _ (by simp [Session.Consistent, hi]) rfl le_rfl
        · exact .stay
      · obtain rfl := Option.some.inj ht
        exact .take i hphase (by omega)
    · cases ht
  -- The steps between the acquire and the release keep the permit.
  | advance i answer =>
    obtain ⟨session, hnext, rfl⟩ := Option.map_eq_some_iff.mp ht
    obtain ⟨hsession, hpermit, hlimit⟩ := (h i).next hnext
    exact .quiet i session hsession hpermit hlimit.ge
  | drop i =>
    simp only [step] at ht
    split at ht
    · rename_i hphase
      obtain rfl := Option.some.inj ht
      have hi := h i
      simp only [Session.Consistent, hphase] at hi
      exact .quiet i _ hi rfl le_rfl
    · cases ht
  | release i =>
    simp only [step] at ht
    split at ht
    · rename_i outcome hphase
      obtain rfl := Option.some.inj ht
      exact .release i outcome hphase
    · cases ht

/-- The invariant: the counter counts the permits and is bounded by the largest limit. -/
structure Inv {n : ℕ} (s : State n) : Prop where
  consistent : ∀ i, (s.sessions i).Consistent
  count_eq : s.count = s.permits
  count_le : s.count ≤ max 1 s.largestLimit

section Preserved

variable {n : ℕ} {s : State n} {i : Fin n} {session : Session}

/-- The permits when one session changes. -/
theorem permits_put : (s.put i session).permits + (s.sessions i).permit.toNat =
    s.permits + session.permit.toNat :=
  sum_update_add (fun session => session.permit.toNat) s.sessions i session

/-- The largest limit does not fall when the limit of the session does not. -/
theorem largestLimit_put (h : (s.sessions i).nbdMaxSessions ≤ session.nbdMaxSessions) :
    s.largestLimit ≤ (s.put i session).largestLimit := by
  refine Finset.sup_le fun j _ => ?_
  refine le_trans ?_ (Finset.le_sup (f := fun j => ((s.put i session).sessions j).nbdMaxSessions)
    (Finset.mem_univ j))
  by_cases hj : j = i
  · subst hj
    simpa [State.put] using h
  · simp [State.put, hj]

/-- The limit of a session is at most the largest one. -/
theorem le_largestLimit (s : State n) (i : Fin n) : (s.sessions i).nbdMaxSessions ≤ s.largestLimit :=
  Finset.le_sup (f := fun j => (s.sessions j).nbdMaxSessions) (Finset.mem_univ i)

/-- A session that changes consistently stays so among the others. -/
theorem consistent_put (h : ∀ j, (s.sessions j).Consistent) (hsession : session.Consistent) (j : Fin n) :
    ((s.put i session).sessions j).Consistent := by
  by_cases hj : j = i
  · subst hj
    simpa [State.put] using hsession
  · simpa [State.put, hj] using h j

/-- A session changes, and the counter with its permit. -/
theorem Inv.put (h : Inv s) {count : ℕ} (hsession : session.Consistent)
    (hcount : count + (s.sessions i).permit.toNat = s.count + session.permit.toNat)
    (hle : count ≤ max 1 s.largestLimit)
    (hlimit : (s.sessions i).nbdMaxSessions ≤ session.nbdMaxSessions) :
    Inv ({ s with count }.put i session) := by
  have hpermits : (s.put i session).permits + (s.sessions i).permit.toNat =
      s.permits + session.permit.toNat := permits_put
  refine ⟨consistent_put h.consistent hsession, ?_, ?_⟩
  · have heq := h.count_eq
    show count = (s.put i session).permits
    omega
  · exact hle.trans (max_le_max le_rfl (largestLimit_put hlimit))

/-- A permit that is alive is counted. -/
theorem Inv.count_pos (h : Inv s) (hi : (s.sessions i).permit = true) : 0 < s.count := by
  rw [h.count_eq]
  refine Finset.sum_pos' (fun _ _ => Nat.zero_le _) ⟨i, Finset.mem_univ i, ?_⟩
  rw [hi]
  decide

/-- Every step keeps the invariant. -/
theorem Inv.move (h : Inv s) {t : State n} (ht : Move s t) : Inv t := by
  cases ht with
  | stay => exact h
  | quiet i session hsession hpermit hlimit =>
    have hcount : s.count + (s.sessions i).permit.toNat = s.count + session.permit.toNat := by
      rw [hpermit]
    exact h.put hsession hcount h.count_le hlimit
  | take i hi hcount =>
    have hcons := h.consistent i
    simp only [Session.Consistent, hi] at hcons
    have hlimit := le_largestLimit s i
    exact h.put ⟨rfl, hcons.2⟩ (by rw [hcons.1]; rfl) (by omega) le_rfl
  | release i outcome hi =>
    have hcons := h.consistent i
    simp only [Session.Consistent, hi] at hcons
    have hpos := h.count_pos hcons.1
    have hle := h.count_le
    refine h.put ⟨rfl, hcons.2⟩ ?_ (by omega) le_rfl
    rw [hcons.1]
    show s.count - 1 + 1 = s.count + 0
    omega

/-- A session after one of them was replaced. -/
theorem put_cases (s : State n) (i j : Fin n) (session : Session) :
    (j = i ∧ (s.put i session).sessions j = session) ∨
      (j ≠ i ∧ (s.put i session).sessions j = s.sessions j) := by
  by_cases hj : j = i
  · exact Or.inl ⟨hj, by simp [State.put, hj]⟩
  · exact Or.inr ⟨hj, by simp [State.put, hj]⟩

/-- A session that gets a permit leaves the counter within its own limit. -/
theorem Move.count_le {t : State n} (ht : Move s t) {j : Fin n}
    (hbefore : (s.sessions j).permit = false) (hafter : (t.sessions j).permit = true) :
    t.count ≤ max 1 (s.sessions j).nbdMaxSessions := by
  cases ht with
  | stay => rw [hbefore] at hafter; cases hafter
  | quiet i session hsession hpermit hlimit =>
    rcases put_cases s i j session with ⟨rfl, hj⟩ | ⟨-, hj⟩
    · rw [hj, hpermit, hbefore] at hafter
      cases hafter
    · rw [hj, hbefore] at hafter
      cases hafter
  -- The only move that gives a permit checks the limit of its own session.
  | take i hi hcount =>
    rcases put_cases { s with count := s.count + 1 } i j
      { s.sessions i with phase := .bindPort, permit := true } with ⟨rfl, -⟩ | ⟨-, hj⟩
    · show s.count + 1 ≤ _
      omega
    · rw [hj, hbefore] at hafter
      cases hafter
  | release i outcome hi =>
    rcases put_cases { s with count := s.count - 1 } i j
      { s.sessions i with phase := .done outcome, permit := false } with ⟨-, hj⟩ | ⟨-, hj⟩
    · rw [hj] at hafter
      cases hafter
    · rw [hj, hbefore] at hafter
      cases hafter

/-- A session that gives its permit back takes one off the counter, which was not zero. -/
theorem Move.count_succ (h : Inv s) {t : State n} (ht : Move s t) {j : Fin n}
    (hbefore : (s.sessions j).permit = true) (hafter : (t.sessions j).permit = false) :
    t.count + 1 = s.count := by
  have hpos := h.count_pos hbefore
  cases ht with
  | stay => rw [hbefore] at hafter; cases hafter
  | quiet i session hsession hpermit hlimit =>
    rcases put_cases s i j session with ⟨rfl, hj⟩ | ⟨-, hj⟩
    · rw [hj, hpermit, hbefore] at hafter
      cases hafter
    · rw [hj, hbefore] at hafter
      cases hafter
  | take i hi hcount =>
    rcases put_cases { s with count := s.count + 1 } i j
      { s.sessions i with phase := .bindPort, permit := true } with ⟨-, hj⟩ | ⟨-, hj⟩
    · rw [hj] at hafter
      cases hafter
    · rw [hj, hbefore] at hafter
      cases hafter
  | release i outcome hi =>
    show s.count - 1 + 1 = s.count
    omega

/-- Children run unattended only under a permit. -/
theorem Inv.unattended_le (h : Inv s) : s.unattended ≤ s.count := by
  rw [h.count_eq, State.unattended, Finset.card_filter]
  refine Finset.sum_le_sum fun i _ => ?_
  split
  · rename_i hrunning
    rw [(h.consistent i).permit_of_running hrunning]
    decide
  · exact Nat.zero_le _

end Preserved

/-- The invariant holds in every reachable state. -/
theorem run_inv {path : String} {n : ℕ} {es : List (Event n)} {s : State n}
    (h : run (step path) es (initial n) = some s) : Inv s := by
  refine run_invariant Inv ?_ (fun e s t hs ht => hs.move (.of_step hs.consistent ht)) h
  exact ⟨fun i => ⟨rfl, rfl, rfl⟩, by simp [initial, State.permits], by simp [initial]⟩

/-- In every state that any number of sessions can reach, the counter is the number of live permits
and at most the largest limit used so far, the children that run unattended are no more than that,
and a call that returned an error has no part in the counter. A step that takes a permit leaves the
counter within the limit of its call, and one that drops a permit takes exactly one off it. -/
theorem session_accounting (path : String) (n : ℕ) (es : List (Event n)) (s : State n)
    (h : run (step path) es (initial n) = some s) :
    s.count = s.permits ∧ s.count ≤ max 1 s.largestLimit ∧ s.unattended ≤ s.count ∧
    (∀ i error, (s.sessions i).phase = .done (.failed error) → (s.sessions i).permit = false ∧
      s.count = ∑ j ∈ Finset.univ.erase i, (s.sessions j).permit.toNat) ∧
    ∀ e t, step path e s = some t → ∀ i,
      ((s.sessions i).permit = false → (t.sessions i).permit = true →
        t.count ≤ max 1 (s.sessions i).nbdMaxSessions) ∧
      ((s.sessions i).permit = true → (t.sessions i).permit = false → t.count + 1 = s.count) := by
  have hinv := run_inv h
  refine ⟨hinv.count_eq, hinv.count_le, hinv.unattended_le, ?_, ?_⟩
  · intro i error hphase
    have hi := hinv.consistent i
    simp only [Session.Consistent, hphase] at hi
    refine ⟨hi.1, ?_⟩
    rw [hinv.count_eq, State.permits, ← Finset.add_sum_erase _ _ (Finset.mem_univ i), hi.1,
      Bool.toNat_false, Nat.zero_add]
  · intro e t ht i
    have hmove := Move.of_step hinv.consistent ht
    exact ⟨hmove.count_le, hmove.count_succ hinv⟩

/-- Two calls with a limit of one session: the first opens a reader, the second waits until its
deadline expires. -/
def sampleRun : List (Event 2) :=
  [.start 0 1 false, .acquire 0 .woken, .advance 0 (.io (.ok ())), .advance 0 (.io (.ok ())),
    .start 1 1 false, .acquire 1 .woken, .advance 0 (.clock false), .advance 0 (.load false),
    .advance 0 (.wait (.ok none) ""), .advance 0 (.io (.ok ())), .acquire 1 .expired]

/-- In the sample run one child is left running, under the one permit. -/
theorem session_accounting_sample : ∃ s, run (step "qemu-nbd") sampleRun (initial 2) = some s ∧
    s.count = 1 ∧ s.unattended = 1 ∧ s.count = s.permits ∧ s.count ≤ max 1 s.largestLimit := by
  have h : (run (step "qemu-nbd") sampleRun (initial 2)).map (fun s => (s.count, s.unattended)) =
      some (1, 1) := by decide
  obtain ⟨s, hs, hcount⟩ := Option.map_eq_some_iff.mp h
  obtain ⟨hc, hu⟩ := Prod.mk.inj hcount
  obtain ⟨hpermits, hlimit, -⟩ := session_accounting "qemu-nbd" 2 sampleRun s hs
  exact ⟨s, hs, hc, hu, hpermits, hlimit⟩

end VmSpect.NbdSession
