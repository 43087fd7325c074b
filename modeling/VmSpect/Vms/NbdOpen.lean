import VmSpect.Parsers.Crates
import VmSpect.Models.Report
import VmSpect.Vms.NbdErrors

/-!
# Opening a reader for an inspection

`DiskReader::open_with_options_diagnostic`, with both of its ways: the direct one, and the one
through `qemu-nbd` that `force_nbd` asks for. `NbdReader::open_with_options` is given here as the
calling thread sees it; what the other sessions, the clock, the child process and the network answer
is part of the environment.
-/

namespace VmSpect

open Polling UnixPath

variable {ν : Type}

/-- What one round of the connection loop meets. -/
structure NbdAttempt (ν : Type) where
  /-- `try_wait`: the code of a child that has exited, or the error; each with its `stderr`. -/
  tryWait : Except (IoError × String) (Option (ExitCode × String))
  /-- `connect`: a session, or the error, with the `stderr` of the child that is then terminated. -/
  connect : Except (IoError × String) ν

/-- What the surroundings answer while a session is opened. -/
structure NbdEnvironment (ν : Type) where
  /-- `resolve_qemu_nbd`. -/
  resolve : Option Path → Except IoError Path
  /-- The looks at the slot counter that find it full, each with whether the deadline has passed. -/
  fullSlots : List Bool
  /-- The port and the child process. -/
  bindPort : Except IoError Unit
  spawn : Except IoError Unit
  /-- The rounds before the deadline. -/
  attempts : List (NbdAttempt ν)
  /-- The last look at the child after the deadline, and its `stderr`. -/
  exited : Option (ExitCode × String)
  stderr : String

/-- `NbdSessionPermit::acquire`. -/
def acquirePermit : List Bool → Prog Site (Except IoError Unit)
  | [] => pure (.ok ())
  | expired :: rest => do
    if ← Prog.poll .nbdSlot then pure (.error NbdError.cancelled)
    else if expired then pure (.error NbdError.noSlot)
    else acquirePermit rest

/-- The connection loop: a session, or the last error when the deadline passes. -/
def connectLoop (path : Path) :
    List (NbdAttempt ν) → Option IoError → Prog Site (Except IoError (Except (Option IoError) ν))
  | [], last => pure (.ok (.error last))
  | attempt :: rest, _ => do
    if ← Prog.poll .nbdOpen then pure (.error NbdError.cancelled)
    else
      match attempt.tryWait with
      | .error (e, stderr) => pure (.error (NbdError.noStatus path.display e stderr))
      | .ok (some (code, stderr)) => pure (.error (NbdError.exited path.display code stderr))
      | .ok none =>
        match attempt.connect with
        | .ok session => pure (.ok (.ok session))
        | .error (e, stderr) =>
          if retryable e.kind then connectLoop path rest (some e)
          else pure (.error (NbdError.handshake path.display e stderr))

/-- `NbdReader::open_with_options`. -/
def openNbd (env : NbdEnvironment ν) (path : Path) (options : Options) :
    ExceptT IoError (Prog Site) ν := do
  if ← ExceptT.lift (Prog.poll .nbdOpen) then throw NbdError.cancelledByUser
  else do
    ExceptT.mk (acquirePermit env.fullSlots)
    ExceptT.mk (pure (if options.unixSocket.isSome then .ok () else env.bindPort))
    ExceptT.mk (pure (env.spawn.mapError (NbdError.notStarted path.display)))
    match ← ExceptT.mk (connectLoop path env.attempts none) with
    | .ok session => pure session
    | .error last =>
      match env.exited with
      | some (code, stderr) => throw (NbdError.exited path.display code stderr)
      | none => throw (NbdError.timedOut path.display last env.stderr)

/-- `nbd_error_to_vm`. -/
def nbdErrorToVm (e : IoError) : VmSpectError :=
  if e.kind = .interrupted then .cancelled else .nbd e.message

/-- A result that may be a panic. -/
def ofStop {ι ε α : Type} (result : Except (Stop ε) α) : ExceptT ε (Prog ι) α :=
  match result with
  | .ok a => pure a
  | .error (.error e) => throw e
  | .error .panic => ExceptT.mk Prog.panic

/-- `open_with_options_diagnostic`. -/
def openWithOptionsDiagnostic (fs : FileSystem) (env : NbdEnvironment ν) (nbd : NbdApi ν)
    (info : ImageInfo) (options : Options) (devices : Devices := .sound) :
    ExceptT VmSpectError (Prog Site) (DiskReader ν) := do
  if options.forceNbd then do
    ofStop (if info.format = .vmdk then (validateVmdkComponents fs info.path devices).result
      else .ok ())
    let path ← ExceptT.mk (pure ((env.resolve options.qemuNbd).mapError fun e =>
      VmSpectError.qemuNotFound e.message))
    let session ← ExceptT.mk ((·.mapError nbdErrorToVm) <$> (openNbd env path options).run)
    let channel := if options.unixSocket.isSome then "unix" else "tcp"
    pure ⟨.nbd session, max (nbd.virtualSize session) info.virtualSize,
      .opened info.path s!"explicit qemu-nbd {channel}"⟩
  else ofStop (DiskReader.openDirect fs info devices).result

/-- `recommended_chunk_size`. -/
def DiskReader.recommendedChunkSize (reader : DiskReader ν) : ℕ :=
  match reader.backend with
  | .nbd _ => 512 * 1024
  | _ => 256 * 1024

end VmSpect
