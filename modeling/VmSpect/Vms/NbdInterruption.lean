import VmSpect.Vms.NbdSocket
import VmSpect.Vms.OpeningErrors

/-!
# Interrupted sessions

`nbd_error_to_vm` takes every error of the kind `Interrupted` for a cancellation, and the system has
errors of this kind of its own, such as a read that a signal breaks off. While nobody cancels, the
opening of a reader fails with `Cancelled` exactly when the system interrupts it
(`openWithOptions_cancelled`).
-/

namespace VmSpect

open Polling Polling.Prog UnixPath Vmdk Nbd

variable {ν : Type}

/-! ## Opening a session -/

section OpenNbd

variable (session : ℕ → ν) (unixSocket : Bool)

/-- The round leaves the connection loop with an error of the kind `Interrupted`. -/
def Nbd.SocketAttempt.Interrupted (a : SocketAttempt) : Prop :=
  a.tryWait = .ok none ∧ FailsWith .interrupted (connect unixSocket a.connection)

/-- The connection loop goes on after the round. -/
def Nbd.SocketAttempt.Retried (a : SocketAttempt) : Prop :=
  a.tryWait = .ok none ∧ ∃ e, connect unixSocket a.connection = .error e ∧ retryable e.kind = true

/-- The connection loop gets to a round that is interrupted. -/
def ConnectInterrupted (attempts : List SocketAttempt) : Prop :=
  ∃ before a after, attempts = before ++ a :: after ∧ (∀ b ∈ before, b.Retried unixSocket) ∧
    a.Interrupted unixSocket

/-- No round, no interruption. -/
theorem not_connectInterrupted_nil : ¬ ConnectInterrupted unixSocket [] := by
  rintro ⟨before, a, after, h, -⟩
  exact List.append_ne_nil_of_right_ne_nil before (List.cons_ne_nil a after) h.symm

/-- The first round is interrupted, or the loop goes on. -/
theorem connectInterrupted_cons (a : SocketAttempt) (rest : List SocketAttempt) :
    ConnectInterrupted unixSocket (a :: rest) ↔
      a.Interrupted unixSocket ∨ (a.Retried unixSocket ∧ ConnectInterrupted unixSocket rest) := by
  constructor
  · rintro ⟨before, b, after, h, hbefore, hb⟩
    rcases before with _ | ⟨c, before⟩
    · obtain ⟨rfl, rfl⟩ := List.cons.inj h
      exact Or.inl hb
    · obtain ⟨rfl, rfl⟩ := List.cons.inj h
      have hrest := fun d hd => hbefore d (List.mem_cons_of_mem a hd)
      exact Or.inr ⟨hbefore a List.mem_cons_self, before, b, after, rfl, hrest, hb⟩
  · rintro (ha | ⟨ha, before, b, after, rfl, hbefore, hb⟩)
    · exact ⟨[], a, rest, rfl, List.forall_mem_nil _, ha⟩
    · exact ⟨a :: before, b, after, rfl, List.forall_mem_cons.mpr ⟨ha, hbefore⟩, hb⟩

/-- The calm run of a program returns an error of the kind `Interrupted`. -/
def CalmInterrupted {α : Type} (p : Prog Site (Except IoError α)) : Prop :=
  ∃ e, p.calm = some (.error e) ∧ e.kind = .interrupted

/-- A round whose child does not run any more ends the loop, with an error of another kind. -/
theorem connectLoop_stopped (path : Path) {attempt : NbdAttempt ν} (rest : List (NbdAttempt ν))
    (last : Option IoError) (h : attempt.tryWait ≠ .ok none) :
    ¬ CalmInterrupted (connectLoop path (attempt :: rest) last) := by
  obtain ⟨tryWait, answer⟩ := attempt
  rintro ⟨e, hcalm, hkind⟩
  rcases tryWait with ⟨source, stderr⟩ | _ | ⟨code, stderr⟩
  · cases hcalm
    cases hkind
  · exact h rfl
  · cases hcalm
    cases hkind

/-- A connection that succeeds ends the loop. -/
theorem connectLoop_connected (path : Path) {attempt : NbdAttempt ν} (rest : List (NbdAttempt ν))
    (last : Option IoError) {s : ν} (h : attempt.tryWait = .ok none)
    (hconnect : attempt.connect = .ok s) :
    (connectLoop path (attempt :: rest) last).calm = some (.ok (.ok s)) := by
  obtain ⟨tryWait, answer⟩ := attempt
  obtain rfl : tryWait = .ok none := h
  obtain rfl : answer = .ok s := hconnect
  rfl

/-- A connection that fails is tried again, or ends the loop with an error of its kind. -/
theorem connectLoop_failed (path : Path) {attempt : NbdAttempt ν} (rest : List (NbdAttempt ν))
    (last : Option IoError) {e : IoError} {stderr : String} (h : attempt.tryWait = .ok none)
    (hconnect : attempt.connect = .error (e, stderr)) :
    (connectLoop path (attempt :: rest) last).calm =
      if retryable e.kind then (connectLoop path rest (some e)).calm
      else some (.error (NbdError.handshake path.display e stderr)) := by
  obtain ⟨tryWait, answer⟩ := attempt
  obtain rfl : tryWait = .ok none := h
  obtain rfl : answer = .error (e, stderr) := hconnect
  show calm (if _ then _ else _) = _
  split <;> rfl

/-- A round that is connected is neither interrupted nor tried again. -/
theorem interrupted_retried_of_ok {a : SocketAttempt} {size : ℕ}
    (h : connect unixSocket a.connection = .ok size) :
    ¬ a.Interrupted unixSocket ∧ ¬ a.Retried unixSocket := by
  unfold SocketAttempt.Interrupted SocketAttempt.Retried FailsWith
  rw [h]
  refine ⟨?_, ?_⟩
  · rintro ⟨-, e, he, -⟩
    cases he
  · rintro ⟨-, e, he, -⟩
    cases he

/-- A round in which the connection fails is interrupted or tried again by the kind of the error. -/
theorem interrupted_retried_of_error {a : SocketAttempt} {e : IoError} (hrunning : a.tryWait = .ok none)
    (h : connect unixSocket a.connection = .error e) :
    (a.Interrupted unixSocket ↔ e.kind = .interrupted) ∧
      (a.Retried unixSocket ↔ retryable e.kind = true) := by
  unfold SocketAttempt.Interrupted SocketAttempt.Retried FailsWith
  rw [h]
  constructor
  · exact ⟨fun ⟨_, e', he', hkind⟩ => Except.error.inj he' ▸ hkind,
      fun hkind => ⟨hrunning, e, rfl, hkind⟩⟩
  · exact ⟨fun ⟨_, e', he', hkind⟩ => Except.error.inj he' ▸ hkind,
      fun hkind => ⟨hrunning, e, rfl, hkind⟩⟩

/-- `Interrupted` is not among the kinds that are tried again. -/
theorem kind_ne_of_retryable {kind : ErrorKind} (h : retryable kind = true) : kind ≠ .interrupted := by
  rintro rfl
  cases h

/-- The connection loop. -/
theorem connectLoop_interrupted (path : Path) (attempts : List SocketAttempt)
    (last : Option IoError) :
    CalmInterrupted (connectLoop path (attempts.map (·.toAttempt session unixSocket)) last) ↔
      ConnectInterrupted unixSocket attempts := by
  induction attempts generalizing last with
  | nil =>
    refine iff_of_false ?_ (not_connectInterrupted_nil unixSocket)
    rintro ⟨e, h, -⟩
    cases h
  | cons a rest ih =>
    rw [connectInterrupted_cons, List.map_cons]
    by_cases hrunning : a.tryWait = .ok none
    · cases hconnect : connect unixSocket a.connection with
      | ok size =>
        have hanswer : (a.toAttempt session unixSocket).connect = .ok (session size) := by
          unfold SocketAttempt.toAttempt
          rw [hconnect]
          rfl
        obtain ⟨hnot, hstays⟩ := interrupted_retried_of_ok unixSocket hconnect
        refine iff_of_false ?_ (not_or.mpr ⟨hnot, fun h => hstays h.1⟩)
        rintro ⟨e, he, -⟩
        rw [connectLoop_connected path _ last hrunning hanswer] at he
        cases he
      | error e =>
        have hanswer : (a.toAttempt session unixSocket).connect = .error (e, a.stderr) := by
          unfold SocketAttempt.toAttempt
          rw [hconnect]
          rfl
        obtain ⟨hinterrupted, hretried⟩ :=
          interrupted_retried_of_error unixSocket hrunning hconnect
        unfold CalmInterrupted
        rw [connectLoop_failed path (rest.map (·.toAttempt session unixSocket)) last hrunning hanswer,
          hinterrupted, hretried]
        by_cases hretry : retryable e.kind = true
        · have hkind := kind_ne_of_retryable hretry
          rw [if_pos hretry, or_iff_right hkind, and_iff_right hretry]
          exact ih (some e)
        · rw [if_neg hretry, or_iff_left fun h => hretry h.1]
          constructor
          · rintro ⟨e', he', hkind⟩
            cases he'
            exact hkind
          · exact fun hkind => ⟨_, rfl, hkind⟩
    · refine iff_of_false (connectLoop_stopped path _ last hrunning) ?_
      rintro (⟨h, -⟩ | ⟨⟨h, -⟩, -⟩)
      · exact hrunning h
      · exact hrunning h

/-- A sequence is interrupted in its first part, or after it. -/
theorem calmInterrupted_bind {α β : Type} (x : ExceptT IoError (Prog Site) α)
    (f : α → ExceptT IoError (Prog Site) β) :
    CalmInterrupted (x >>= f).run ↔
      CalmInterrupted x.run ∨ ∃ a, x.run.calm = some (.ok a) ∧ CalmInterrupted (f a).run := by
  unfold CalmInterrupted
  constructor
  · rintro ⟨e, h, hkind⟩
    rcases calm_bind_error.mp h with hfirst | ⟨a, hfirst, hsecond⟩
    · exact Or.inl ⟨e, hfirst, hkind⟩
    · exact Or.inr ⟨a, hfirst, e, hsecond, hkind⟩
  · rintro (⟨e, hfirst, hkind⟩ | ⟨a, hfirst, e, hsecond, hkind⟩)
    · exact ⟨e, calm_bind_error.mpr (Or.inl hfirst), hkind⟩
    · exact ⟨e, calm_bind_error.mpr (Or.inr ⟨a, hfirst, hsecond⟩), hkind⟩

/-- A call of the system, before the rest of the code. -/
theorem calmInterrupted_call_bind {α β : Type} (r : Except IoError α)
    (f : α → ExceptT IoError (Prog Site) β) :
    CalmInterrupted (ExceptT.mk (pure r) >>= f).run ↔
      FailsWith .interrupted r ∨ ∃ a, r = .ok a ∧ CalmInterrupted (f a).run := by
  rw [calmInterrupted_bind]
  have hcalm : (ExceptT.mk (pure r : Prog Site (Except IoError α))).run.calm = some r := rfl
  unfold CalmInterrupted FailsWith
  simp only [hcalm, Option.some_inj]

/-- The wait for a permit ends when the deadline passes, or with the permit. -/
theorem acquirePermit_calm (fullSlots : List Bool) :
    (acquirePermit fullSlots).calm = some (if true ∈ fullSlots then
      .error NbdError.noSlot else .ok ()) := by
  induction fullSlots with
  | nil => rfl
  | cons expired rest ih =>
    rcases expired with _ | _
    · have hmem : true ∈ false :: rest ↔ true ∈ rest := by simp
      rw [show (acquirePermit (false :: rest)).calm = (acquirePermit rest).calm from rfl, ih]
      simp only [hmem]
    · rw [if_pos List.mem_cons_self]
      rfl

/-- What follows the wait for a permit. -/
theorem acquirePermit_bind_interrupted {α : Type} (fullSlots : List Bool)
    (f : Unit → ExceptT IoError (Prog Site) α) :
    CalmInterrupted (ExceptT.mk (acquirePermit fullSlots) >>= f).run ↔
      true ∉ fullSlots ∧ CalmInterrupted (f ()).run := by
  have hcalm : (ExceptT.mk (acquirePermit fullSlots)).run.calm = _ := acquirePermit_calm fullSlots
  rw [calmInterrupted_bind]
  unfold CalmInterrupted
  rw [hcalm]
  by_cases hexpired : true ∈ fullSlots
  · rw [if_pos hexpired]
    refine iff_of_false ?_ fun h => h.1 hexpired
    rintro (⟨e, he, hkind⟩ | ⟨a, ha, -⟩)
    · cases he
      cases hkind
    · cases ha
  · rw [if_neg hexpired]
    refine ⟨?_, fun h => Or.inr ⟨(), rfl, h.2⟩⟩
    rintro (⟨e, he, -⟩ | ⟨a, -, h⟩)
    · cases he
    · exact ⟨hexpired, h⟩

/-- What follows the spawn, whose errors are turned into errors of the kind `Other`. -/
theorem spawn_bind_interrupted {α : Type} (r : Except IoError Unit) (path : String)
    (f : Unit → ExceptT IoError (Prog Site) α) :
    CalmInterrupted (ExceptT.mk (pure (r.mapError (NbdError.notStarted path))) >>= f).run ↔
      r = .ok () ∧ CalmInterrupted (f ()).run := by
  rw [calmInterrupted_call_bind]
  rcases r with e | _
  · refine iff_of_false ?_ (fun h => by cases h.1)
    rintro (⟨e', he', hkind⟩ | ⟨a, h, -⟩)
    · cases he'
      cases hkind
    · cases h
  · refine ⟨?_, fun h => Or.inr ⟨(), rfl, h.2⟩⟩
    rintro (⟨e', he', -⟩ | ⟨a, -, h⟩)
    · cases he'
    · exact ⟨rfl, h⟩

/-- The port that is bound for TCP. -/
def NbdEnvironment.bound (env : NbdEnvironment ν) (options : Options) : Except IoError Unit :=
  if options.unixSocket.isSome then .ok () else env.bindPort

/-- The environment whose rounds are those of the sockets. -/
def NbdEnvironment.overSockets (env : NbdEnvironment ν) (options : Options)
    (attempts : List SocketAttempt) : NbdEnvironment ν :=
  { env with attempts := attempts.map (·.toAttempt session options.unixSocket.isSome) }

/-- The system interrupts the opening of a session: it gets a permit, and then the bind is
interrupted, or the connection to the child is. -/
def NbdEnvironment.Interrupted (env : NbdEnvironment ν) (options : Options)
    (attempts : List SocketAttempt) : Prop :=
  true ∉ env.fullSlots ∧ (FailsWith .interrupted (env.bound options) ∨
    (env.bound options = .ok () ∧ env.spawn = .ok () ∧
      ConnectInterrupted options.unixSocket.isSome attempts))

/-- While nobody cancels, the opening of a session fails with the kind `Interrupted` exactly when
the system interrupts it. -/
theorem openNbd_interrupted (env : NbdEnvironment ν) (path : Path) (options : Options)
    (attempts : List SocketAttempt) :
    CalmInterrupted (openNbd (env.overSockets session options attempts) path options).run ↔
      env.Interrupted options attempts := by
  -- The load of the token finds it clear.
  have hpoll : ∀ (e : IoError) (x : ExceptT IoError (Prog Site) ν),
      CalmInterrupted (ExceptT.lift (Prog.poll .nbdOpen) >>= fun seen =>
        if seen = true then throw e else x).run ↔ CalmInterrupted x.run := fun e x => Iff.rfl
  have hloop := connectLoop_interrupted session options.unixSocket.isSome path attempts none
  unfold openNbd NbdEnvironment.Interrupted
  rw [hpoll, acquirePermit_bind_interrupted, calmInterrupted_call_bind]
  refine and_congr_right fun _ => or_congr Iff.rfl ?_
  have hunit : ∀ P : Unit → Prop, (∃ a, env.bound options = .ok a ∧ P a) ↔
      env.bound options = .ok () ∧ P () :=
    fun P => ⟨fun ⟨_, h, hP⟩ => ⟨h, hP⟩, fun ⟨h, hP⟩ => ⟨(), h, hP⟩⟩
  refine (hunit _).trans (and_congr_right fun _ => ?_)
  rw [spawn_bind_interrupted, calmInterrupted_bind]
  refine and_congr_right fun _ => (or_iff_left ?_).trans hloop
  -- What follows the loop has errors of other kinds.
  rintro ⟨r, -, e, he, hkind⟩
  rcases r with last | s
  · dsimp only at he
    split at he
    · cases he
      cases hkind
    · cases he
      cases hkind
  · cases he

end OpenNbd

/-! ## Opening a reader -/

/-- The calm run of a part that neither panics nor looks at the token. -/
theorem calm_ofStop {ι ε α : Type} (r : Except (Stop ε) α) :
    (ofStop r : ExceptT ε (Prog ι) α).run.calm =
      match r with
      | .ok a => some (.ok a)
      | .error (.error e) => some (.error e)
      | .error .panic => none := by
  rcases r with (e | _) | a <;> rfl

/-- The calm run of such a part fails with an error about the files. -/
theorem ofFiles_of_calm {ι α : Type} {x : Words.Logged (Stop VmSpectError) α}
    (h : Words.Logged.StopsWith Stop.OfFiles x) {e : VmSpectError}
    (he : (ofStop x.result : ExceptT VmSpectError (Prog ι) α).run.calm = some (.error e)) :
    e.OfFiles := by
  rw [calm_ofStop] at he
  split at he
  · cases he
  · rename_i e' hresult
    cases he
    exact h _ hresult
  · cases he

/-- An error of a session is reported as `Cancelled` by its kind. -/
theorem nbdErrorToVm_eq_cancelled (e : IoError) :
    nbdErrorToVm e = .cancelled ↔ e.kind = .interrupted := by
  unfold nbdErrorToVm
  split
  · rename_i hkind
    exact iff_of_true rfl hkind
  · rename_i hkind
    exact iff_of_false (fun h => by cases h) hkind

/-- An opened session is reported as `Cancelled` when its opening was interrupted. -/
theorem session_cancelled {α : Type} (p : Prog Site (Except IoError α)) :
    (ExceptT.mk ((·.mapError nbdErrorToVm) <$> p)).run.calm = some (.error .cancelled) ↔
      CalmInterrupted p := by
  have hcalm : (ExceptT.mk ((·.mapError nbdErrorToVm) <$> p)).run.calm =
      p.calm.map (·.mapError nbdErrorToVm) := by
    show (p >>= fun r => pure (r.mapError nbdErrorToVm)).calm = _
    rw [calm_bind]
    cases p.calm <;> rfl
  rw [hcalm, Option.map_eq_some_iff]
  constructor
  · rintro ⟨r, hr, h⟩
    rcases r with e | a
    · exact ⟨e, hr, (nbdErrorToVm_eq_cancelled e).mp (Except.error.inj h)⟩
    · cases h
  · rintro ⟨e, he, hkind⟩
    exact ⟨.error e, he, congrArg Except.error ((nbdErrorToVm_eq_cancelled e).mpr hkind)⟩

/-- The system interrupts the opening of a reader: the session of `qemu-nbd` that was asked for. -/
def OpeningInterrupted (fs : FileSystem) (env : NbdEnvironment ν) (info : ImageInfo)
    (options : Options) (attempts : List SocketAttempt) (devices : Devices := .sound) : Prop :=
  options.forceNbd = true ∧
    (info.format = .vmdk → (validateVmdkComponents fs info.path devices).result = .ok ()) ∧
    (∃ qemu, env.resolve options.qemuNbd = .ok qemu) ∧ env.Interrupted options attempts

/-- A direct reader is never refused with `Cancelled`. -/
theorem openDirect_not_cancelled (fs : FileSystem) (info : ImageInfo) (devices : Devices) :
    Words.Logged.StopsWith (· ≠ .error .cancelled)
      (DiskReader.openDirect fs info devices : Words.Logged (Stop VmSpectError) (DiskReader ν)) := by
  refine Words.Logged.StopsWith.bind (fun stop hstop heq => ?_) fun opened => ?_
  · have hfiles := openNative_ofFiles fs info devices stop hstop
    rw [heq] at hfiles
    exact hfiles
  · rcases opened with ⟨backend, mode⟩ | reason
    · exact Words.Logged.stopsWith_pure _
    · refine Words.Logged.stopsWith_throw fun h => ?_
      cases h

/-- The components of a VMDK are validated before `qemu-nbd` is looked for. -/
theorem componentsChecked_calm {ι : Type} (fs : FileSystem) (info : ImageInfo) (devices : Devices) :
    (ofStop (if info.format = .vmdk then (validateVmdkComponents fs info.path devices).result
        else .ok ()) : ExceptT VmSpectError (Prog ι) Unit).run.calm = some (.ok ()) ↔
      (info.format = .vmdk → (validateVmdkComponents fs info.path devices).result = .ok ()) := by
  rw [calm_ofStop]
  split_ifs with hformat
  · rcases (validateVmdkComponents fs info.path devices).result with (e | _) | _
    · simp [hformat]
    · simp [hformat]
    · simp
  · simp [hformat]

/-- The validation of the components is never refused with `Cancelled`. -/
theorem componentsChecked_not_cancelled {ι : Type} (fs : FileSystem) (info : ImageInfo)
    (devices : Devices) :
    (ofStop (if info.format = .vmdk then (validateVmdkComponents fs info.path devices).result
        else .ok ()) : ExceptT VmSpectError (Prog ι) Unit).run.calm ≠ some (.error .cancelled) := by
  split_ifs with hformat
  · exact fun h => ofFiles_of_calm (validateInner_ofFiles fs _ _ _ _ devices) h
  · intro h
    cases h

/-- While nobody cancels, a reader is not opened with `Cancelled` exactly when the system interrupts
its opening. -/
theorem openWithOptions_cancelled (fs : FileSystem) (env : NbdEnvironment ν) (nbd : NbdApi ν)
    (info : ImageInfo) (options : Options) (session : ℕ → ν) (attempts : List SocketAttempt)
    (devices : Devices) :
    (openWithOptionsDiagnostic fs (env.overSockets session options attempts) nbd info options
        devices).run.calm = some (.error .cancelled) ↔
      OpeningInterrupted fs env info options attempts devices := by
  unfold openWithOptionsDiagnostic OpeningInterrupted
  by_cases hforce : options.forceNbd = true
  · rw [if_pos hforce, calm_bind_error]
    have hsession (qemu : Path) := openNbd_interrupted session env qemu options attempts
    constructor
    · rintro (h | ⟨_, hcomponents, h⟩)
      · exact absurd h (componentsChecked_not_cancelled fs info devices)
      · refine ⟨hforce, (componentsChecked_calm fs info devices).mp hcomponents, ?_⟩
        rcases calm_bind_error.mp h with h | ⟨qemu, hqemu, h⟩
        · -- The failure to find `qemu-nbd` has a variant of its own.
          cases hresolve : (env.overSockets session options attempts).resolve options.qemuNbd with
          | ok qemu =>
            rw [hresolve] at h
            cases h
          | error e =>
            rw [hresolve] at h
            cases h
        · have hresolve : env.resolve options.qemuNbd = .ok qemu := by
            change some ((env.resolve options.qemuNbd).mapError _) = _ at hqemu
            cases hanswer : env.resolve options.qemuNbd with
            | ok path =>
              rw [hanswer] at hqemu
              cases hqemu
              rfl
            | error e =>
              rw [hanswer] at hqemu
              cases hqemu
          rcases calm_bind_error.mp h with h | ⟨s, -, h⟩
          · exact ⟨⟨qemu, hresolve⟩, (hsession qemu).mp ((session_cancelled _).mp h)⟩
          · cases h
    · rintro ⟨-, hcomponents, ⟨qemu, hqemu⟩, hinterrupted⟩
      refine Or.inr ⟨(), (componentsChecked_calm fs info devices).mpr hcomponents, ?_⟩
      refine calm_bind_error.mpr (Or.inr ⟨qemu, ?_, ?_⟩)
      · show some ((env.resolve options.qemuNbd).mapError _) = _
        rw [hqemu]
        rfl
      · refine calm_bind_error.mpr (Or.inl ((session_cancelled _).mpr ?_))
        exact (hsession qemu).mpr hinterrupted
  · rw [if_neg hforce]
    refine iff_of_false (fun h => ?_) fun h => hforce h.1
    rw [calm_ofStop] at h
    split at h
    · cases h
    · rename_i e hresult
      cases h
      exact openDirect_not_cancelled fs info devices _ hresult rfl
    · cases h

end VmSpect
