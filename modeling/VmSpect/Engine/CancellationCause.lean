import VmSpect.Engine.Cancellation
import VmSpect.Vms.NbdInterruption

/-!
# What an inspection is cancelled by

When an inspection may return `Cancelled`. Apart from the token and the flag of the progress there
is one cause, which is an error of the system during the opening of a session. The detection, which
meets the same errors, looks at the token before it says `Cancelled`.
-/

namespace VmSpect

open Polling Polling.Prog UnixPath Nbd

variable {ν α β : Type}

/-! ## The stages of the engine -/

/-- While nobody cancels, `is_cancelled` is the flag of the progress. -/
theorem isCancelled_calm (progress : InspectionProgress) :
    calmFrom isCancelled progress = some (progress.cancelled, progress) := by
  unfold calmFrom
  rw [isCancelled_run, calm, Bool.false_or]
  cases hflag : progress.cancelled <;> rfl

/-- Code of the engine that throws `Cancelled` in a calm run only when the flag is set. -/
def OnlyWhenSet (x : ExceptT VmSpectError EngineM α) : Prop :=
  ∀ progress after, calmFrom x.run progress = some (.error .cancelled, after) →
    after.cancelled = true

/-- A sequence. -/
theorem OnlyWhenSet.bind {x : ExceptT VmSpectError EngineM α}
    {f : α → ExceptT VmSpectError EngineM β} (hx : OnlyWhenSet x) (hf : ∀ a, OnlyWhenSet (f a)) :
    OnlyWhenSet (x >>= f) := by
  intro progress after h
  rcases calmFrom_bind_error.mp h with h | ⟨a, mid, -, h⟩
  · exact hx progress after h
  · exact hf a mid after h

/-- Code that cannot fail. -/
theorem onlyWhenSet_lift (x : EngineM α) : OnlyWhenSet (ExceptT.lift x) := by
  intro progress after h
  have hrun : calmFrom (ExceptT.lift x : ExceptT VmSpectError EngineM α).run progress =
      (calmFrom x progress).bind fun r => some (.ok r.1, r.2) := by
    rw [show (ExceptT.lift x : ExceptT VmSpectError EngineM α).run = x >>= fun a => pure (.ok a) from
      map_eq_pure_bind Except.ok x, calmFrom_bind]
    rfl
  rw [hrun, Option.bind_eq_some_iff] at h
  obtain ⟨r, -, h⟩ := h
  cases h

/-- Code that only returns a value. -/
theorem onlyWhenSet_pure (a : α) : OnlyWhenSet (pure a) := by
  intro progress after h
  cases h

/-- An update of the progress. -/
theorem onlyWhenSet_modify (f : InspectionProgress → InspectionProgress) :
    OnlyWhenSet (modify f) := by
  intro progress after h
  cases h

/-- What follows a look at the token. -/
theorem onlyWhenSet_isCancelled_bind {f : Bool → ExceptT VmSpectError EngineM α}
    (htrue : f true = throw .cancelled) (hfalse : OnlyWhenSet (f false)) :
    OnlyWhenSet (ExceptT.lift isCancelled >>= f) := by
  intro progress after h
  have hlook : calmFrom (ExceptT.lift isCancelled >>= f).run progress =
      calmFrom (f progress.cancelled).run progress := by
    rw [ExceptT.run_bind_lift, calmFrom_bind, isCancelled_calm]
    rfl
  rw [hlook] at h
  cases hflag : progress.cancelled with
  | false =>
    rw [hflag] at h
    exact hfalse progress after h
  | true =>
    rw [hflag, htrue] at h
    obtain ⟨-, rfl⟩ := Prod.mk.inj (Option.some.inj h)
    exact hflag

/-- A look throws `Cancelled` when it finds the flag. -/
theorem onlyWhenSet_ensureNotCancelled : OnlyWhenSet ensureNotCancelled :=
  onlyWhenSet_isCancelled_bind rfl (onlyWhenSet_pure ())

/-- The detection looks at the token before it says `Cancelled`. -/
theorem Inspection.detect_onlyWhenSet (i : Inspection ν) (reader : DiskReader ν) :
    OnlyWhenSet (i.detect reader) := by
  refine (onlyWhenSet_lift _).bind fun detected => ?_
  obtain ⟨detected, reader⟩ := detected
  have hthrow : ∀ e : IoError, OnlyWhenSet (throw (.io e) :
      ExceptT VmSpectError EngineM (Detector.DetectedDisk × DiskReader ν)) := by
    intro e progress after h
    cases h
  rcases detected with e | disk
  · dsimp only
    split
    · exact onlyWhenSet_isCancelled_bind rfl (hthrow e)
    · exact hthrow e
  · exact onlyWhenSet_pure _

/-- The stages that read the image. -/
theorem Inspection.readStages_onlyWhenSet (i : Inspection ν) (image : ImageInfo)
    (reader : DiskReader ν) : OnlyWhenSet (i.readStages image reader) := by
  refine (onlyWhenSet_modify _).bind fun _ => ?_
  refine (i.detect_onlyWhenSet reader).bind fun detected => ?_
  refine onlyWhenSet_ensureNotCancelled.bind fun _ => ?_
  refine (onlyWhenSet_modify _).bind fun _ => ?_
  refine (onlyWhenSet_lift _).bind fun analyzed => ?_
  refine onlyWhenSet_ensureNotCancelled.bind fun _ => ?_
  exact (onlyWhenSet_modify _).bind fun _ => onlyWhenSet_pure _

namespace Inspection

variable (i : Inspection ν) (session : ℕ → ν) (attempts : List SocketAttempt)

/-- The inspection whose sessions are opened over sockets. -/
def overSockets : Inspection ν := { i with env := i.env.overSockets session i.options attempts }

/-- The system interrupts the inspection: it gets as far as the session that it asks for, and the
opening of that session is interrupted. -/
def Interrupted (path : Path) : Prop :=
  (∃ size, i.fs.stat path (i.devices .image) = .ok size) ∧
    ∃ info, (identifyImage i.fs path i.devices).result = .ok info ∧
      OpeningInterrupted i.fs i.env info i.options attempts i.devices

/-- An inspection is only interrupted by a call of the system that fails with the kind
`Interrupted`: the bind of the port, or one of a connection. -/
theorem Interrupted.fails {path : Path} (h : i.Interrupted attempts path) :
    FailsWith .interrupted i.env.bindPort ∨ ∃ a ∈ attempts, a.connection.Fails .interrupted := by
  obtain ⟨-, info, -, -, -, -, -, hbind | ⟨-, -, before, a, after, rfl, -, -, hconnect⟩⟩ := h
  · left
    unfold NbdEnvironment.bound at hbind
    split at hbind
    · obtain ⟨e, he, -⟩ := hbind
      cases he
    · exact hbind
  · right
    refine ⟨a, List.mem_append_right before List.mem_cons_self, ?_⟩
    exact (connect_fails hconnect).resolve_left (by decide)

/-- An error of a path that cannot be looked at is not `Cancelled`. -/
theorem pathError_ne (path : Path) (e : IoError) : pathError path e ≠ .cancelled := by
  unfold pathError
  split
  · intro h
    cases h
  · intro h
    cases h

/-- The calm run of a look at the token, by the flag. -/
theorem ensureNotCancelled_calm (progress : InspectionProgress) :
    calmFrom ensureNotCancelled.run progress =
      some (if progress.cancelled then .error .cancelled else .ok (), progress) := by
  have hlook : calmFrom ensureNotCancelled.run progress =
      calmFrom (if progress.cancelled = true then throw .cancelled else pure () :
        ExceptT VmSpectError EngineM Unit).run progress := by
    unfold ensureNotCancelled
    rw [ExceptT.run_bind_lift, calmFrom_bind, isCancelled_calm]
    rfl
  rw [hlook]
  split <;> rfl

/-- A look while the flag is not set. -/
theorem ensureNotCancelled_clear {progress : InspectionProgress} (h : progress.cancelled = false) :
    calmFrom ensureNotCancelled.run progress = some (.ok (), progress) := by
  rw [ensureNotCancelled_calm, h]
  rfl

/-- A look while the flag is set. -/
theorem ensureNotCancelled_set {progress : InspectionProgress} (h : progress.cancelled = true) :
    calmFrom ensureNotCancelled.run progress = some (.error .cancelled, progress) := by
  rw [ensureNotCancelled_calm, h]
  rfl

/-- The calm run of code without a state, as a step of the engine. -/
theorem lift_calm (p : Prog Look (Except VmSpectError α)) (progress : InspectionProgress) :
    calmFrom (ExceptT.mk (StateT.lift p) : ExceptT VmSpectError EngineM α).run progress =
      p.calm.map fun r => (r, progress) :=
  calmFrom_lift p progress

/-- The identification, with its errors as those of an inspection. -/
theorem identify_calm (fs : FileSystem) (path : Path) (devices : Devices)
    (progress : InspectionProgress) :
    calmFrom (ExceptT.mk (StateT.lift ((·.mapError (pathError path)) <$>
        (ofStop (identifyImage fs path devices).result).run)) :
      ExceptT VmSpectError EngineM ImageInfo).run progress =
      match (identifyImage fs path devices).result with
      | .ok info => some (.ok info, progress)
      | .error (.error e) => some (.error (pathError path e), progress)
      | .error .panic => none := by
  rw [lift_calm]
  rcases (identifyImage fs path devices).result with (e | _) | info <;> rfl

/-- The opening of the reader, with the look after it, fails with `Cancelled` exactly when the
system interrupts it. -/
theorem openReader_cancelled {info : ImageInfo} {progress : InspectionProgress}
    (hclear : progress.cancelled = false) :
    (∃ after, calmFrom (do
        let reader ← ExceptT.mk (StateT.lift ((openWithOptionsDiagnostic i.fs
          (i.env.overSockets session i.options attempts) i.nbd info i.options i.devices).run.mapSites
            .opening))
        ensureNotCancelled
        pure (info, reader) : ExceptT VmSpectError EngineM (ImageInfo × DiskReader ν)).run progress =
        some (.error .cancelled, after) ∧ after.cancelled = false) ↔
      OpeningInterrupted i.fs i.env info i.options attempts i.devices := by
  rw [← openWithOptions_cancelled i.fs i.env i.nbd info i.options session attempts i.devices]
  constructor
  · rintro ⟨after, h, -⟩
    rcases calmFrom_bind_error.mp h with h | ⟨reader, mid, hreader, h⟩
    · rw [lift_calm, calm_mapSites, Option.map_eq_some_iff] at h
      obtain ⟨r, hr, h⟩ := h
      exact hr.trans (congrArg some (Prod.mk.inj h).1)
    · -- The look after it finds nothing.
      rw [lift_calm, Option.map_eq_some_iff] at hreader
      obtain ⟨r, -, hr⟩ := hreader
      obtain ⟨-, rfl⟩ := Prod.mk.inj hr
      rw [calmFrom_bind_of_ok _ (ensureNotCancelled_clear hclear)] at h
      cases h
  · intro h
    have hreader := lift_calm ((openWithOptionsDiagnostic i.fs
      (i.env.overSockets session i.options attempts) i.nbd info i.options i.devices).run.mapSites
        .opening) progress
    rw [calm_mapSites, h] at hreader
    exact ⟨_, calmFrom_bind_of_error _ hreader, hclear⟩

/-- While nobody cancels and the flag is not set, the stages up to the open reader fail with
`Cancelled` exactly when the system interrupts them. -/
theorem openStages_cancelled (path : Path) (progress : InspectionProgress) :
    (∃ after, calmFrom ((i.overSockets session attempts).openStages path).run progress =
        some (.error .cancelled, after) ∧ after.cancelled = false) ↔
      progress.cancelled = false ∧ i.Interrupted attempts path := by
  unfold openStages overSockets Interrupted
  dsimp only
  -- The metadata of the path.
  have hmetadata : calmFrom (ExceptT.mk (pure
        ((i.fs.stat path (i.devices .image)).mapError (pathError path))) :
      ExceptT VmSpectError EngineM ℕ).run progress =
        some ((i.fs.stat path (i.devices .image)).mapError (pathError path), progress) := rfl
  cases hsize : i.fs.stat path (i.devices .image) with
  | error e =>
    rw [hsize] at hmetadata
    rw [calmFrom_bind_of_error _ hmetadata]
    refine iff_of_false ?_ fun h => ?_
    · rintro ⟨after, h, -⟩
      exact pathError_ne path e (Except.error.inj (Prod.mk.inj (Option.some.inj h)).1)
    · obtain ⟨-, ⟨size, h⟩, -⟩ := h
      cases h
  | ok size =>
    rw [hsize] at hmetadata
    have hfound : ∃ found, (.ok size : Except IoError ℕ) = .ok found := ⟨size, rfl⟩
    rw [calmFrom_bind_of_ok _ hmetadata, and_iff_right hfound]
    by_cases hset : progress.cancelled = true
    · -- The first look finds the flag.
      rw [calmFrom_bind_of_error _ (ensureNotCancelled_set hset)]
      refine iff_of_false ?_ fun h => ?_
      · rintro ⟨after, h, hafter⟩
        obtain ⟨-, rfl⟩ := Prod.mk.inj (Option.some.inj h)
        rw [hset] at hafter
        cases hafter
      · rw [hset] at h
        cases h.1
    have hclear : progress.cancelled = false := Bool.eq_false_iff.mpr hset
    have hmodify : ∀ (f : InspectionProgress → InspectionProgress) (before : InspectionProgress),
        calmFrom (modify f : ExceptT VmSpectError EngineM Unit).run before =
          some (.ok (), f before) := fun f before => rfl
    rw [calmFrom_bind_of_ok _ (ensureNotCancelled_clear hclear), calmFrom_bind_of_ok _ (hmodify _ _),
      and_iff_right hclear]
    have hidentify := identify_calm i.fs path i.devices ((progress.setStageId 1).setPercentage 5)
    rcases hinfo : (identifyImage i.fs path i.devices).result with (e | _) | info
    · rw [hinfo] at hidentify
      rw [calmFrom_bind_of_error _ hidentify]
      refine iff_of_false ?_ fun h => ?_
      · rintro ⟨after, h, -⟩
        exact pathError_ne path e (Except.error.inj (Prod.mk.inj (Option.some.inj h)).1)
      · obtain ⟨info, h, -⟩ := h
        cases h
    · rw [hinfo] at hidentify
      rw [calmFrom_bind_of_panic _ hidentify]
      refine iff_of_false ?_ fun h => ?_
      · rintro ⟨after, h, -⟩
        cases h
      · obtain ⟨info, h, -⟩ := h
        cases h
    · rw [hinfo] at hidentify
      have hclear₁ : ((progress.setStageId 1).setPercentage 5).cancelled = false := hclear
      have hclear₂ : ((((progress.setStageId 1).setPercentage 5).setTotalBytes
          info.virtualSize).setPercentage 15).cancelled = false := hclear
      rw [calmFrom_bind_of_ok _ hidentify, calmFrom_bind_of_ok _ (ensureNotCancelled_clear hclear₁),
        calmFrom_bind_of_ok _ (hmodify _ _)]
      have hresult : (∃ info', (.ok info : Except (Stop IoError) ImageInfo) = .ok info' ∧
          OpeningInterrupted i.fs i.env info' i.options attempts i.devices) ↔
            OpeningInterrupted i.fs i.env info i.options attempts i.devices := by
        constructor
        · rintro ⟨info', h, hinterrupted⟩
          cases h
          exact hinterrupted
        · exact fun hinterrupted => ⟨info, rfl, hinterrupted⟩
      rw [hresult]
      exact i.openReader_cancelled session attempts hclear₂

/-! ## What an inspection is cancelled by -/

/-- `Cancelled` is only returned when a look has found the token set, or with the flag of the
progress set. -/
def CancelledOnlyWhenSet (path : Path) (progress : InspectionProgress) : Prop :=
  ∀ moment after, ((i.inspect path progress).run moment).1 = some (.error .cancelled, after) →
    moment < (i.inspect path progress).sites.length ∨ after.cancelled = true

/-- An inspection returns `Cancelled` only when it was cancelled, exactly unless the flag of the
progress is not set at its start and the system interrupts the opening of the session that it asks
for. -/
theorem cancelledOnlyWhenSet_iff (path : Path) (progress : InspectionProgress) :
    (i.overSockets session attempts).CancelledOnlyWhenSet path progress ↔
      ¬ (progress.cancelled = false ∧ i.Interrupted attempts path) := by
  have hstages := i.openStages_cancelled session attempts path progress
  constructor
  · -- An interruption ends the run in which nobody cancels.
    intro honly hinterrupted
    obtain ⟨after, hopen, hafter⟩ := hstages.mpr hinterrupted
    have hcalm : ((i.overSockets session attempts).inspect path progress).calm =
        some (.error .cancelled, after) := calmFrom_bind_of_error _ hopen
    have hrun := run_of_sites_le _
      (Nat.le_refl ((i.overSockets session attempts).inspect path progress).sites.length)
    rcases honly _ after (by rw [hrun, hcalm]) with h | h
    · exact absurd h (Nat.lt_irrefl _)
    · rw [hafter] at h
      cases h
  · intro hnot moment after hrun
    by_cases hlook : moment < ((i.overSockets session attempts).inspect path progress).sites.length
    · exact Or.inl hlook
    · -- No look finds the token set, so that the run is the calm one.
      rw [run_of_sites_le _ (by omega)] at hrun
      refine Or.inr ?_
      rcases calmFrom_bind_error.mp hrun with hopen | ⟨opened, mid, -, hread⟩
      · by_contra hafter
        exact hnot (hstages.mp ⟨after, hopen, Bool.eq_false_iff.mpr hafter⟩)
      · exact (i.overSockets session attempts).readStages_onlyWhenSet opened.1 opened.2 mid after
          hread

/-- A signal that breaks off the first seek in the image is an I/O error, and no cancellation. -/
example :
    (({ emptyInspection with
          reads := fun _ _ => { Device.sound with
            seek := fun _ => some ⟨.interrupted, "Interrupted system call (os error 4)"⟩ } } :
        Inspection Unit).inspect emptyPath .new).calm.map (·.1) =
      some (.error (.io ⟨.other, "I/O error: Interrupted system call (os error 4)"⟩)) := by
  decide +kernel

/-- A child that is running, and a socket whose first read is broken off by a signal. -/
def signalledAttempt : SocketAttempt where
  tryWait := .ok none
  connection := ⟨false, .ok (), .ok [(false, .ok ())], .ok (),
    [⟨.ok (), .error ⟨.interrupted, "Interrupted system call (os error 4)"⟩, .ok 0, .ok ()⟩],
    .ok (), .ok ()⟩
  stderr := ""

/-- The inspection of the empty image through `qemu-nbd`. -/
def forcedInspection : Inspection Unit where
  options := { emptyInspection.options with forceNbd := true }
  fs := emptyFs
  env := { emptyInspection.env with resolve := fun _ => .ok (Path.ofText "/usr/bin/qemu-nbd".toList) }
  nbd := emptyInspection.nbd
  crates := noCrates

/-- A signal that breaks off the first read of the handshake is reported as a cancellation, although
nobody cancels. -/
theorem not_cancelledOnlyWhenSet_signalled :
    ¬ (forcedInspection.overSockets (fun _ => ()) [signalledAttempt]).CancelledOnlyWhenSet
      emptyPath .new := by
  intro honly
  have hrun : (((forcedInspection.overSockets (fun _ => ()) [signalledAttempt]).inspect emptyPath
      .new).run 6).1 = some (.error .cancelled, ⟨0, 0, 0, 512, 15, 1, false⟩) := by decide +kernel
  rcases honly 6 _ hrun with h | h
  · exact absurd h (by decide +kernel)
  · cases h

end Inspection

end VmSpect
