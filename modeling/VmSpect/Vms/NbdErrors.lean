import VmSpect.Error

/-!
# The errors of opening a session

The errors that `NbdReader::open_with_options` of `src/vms/nbd.rs` makes itself, with their texts,
and the kinds after which it tries the connection again. `path` is that of `qemu-nbd` as it is
shown, and `stderr` what the child has written there, trimmed.
-/

namespace VmSpect

/-- The code of an exit status; there is none after a signal. -/
abbrev ExitCode := Option ℤ

/-- The errors after which the connection is tried again. -/
def retryable (kind : ErrorKind) : Bool :=
  kind ∈ [.connectionRefused, .connectionReset, .connectionAborted, .notFound, .timedOut, .wouldBlock,
    .addrNotAvailable]

/-- An exit code as `{:?}` prints it. -/
def exitCodeText : ExitCode → String
  | some code => s!"Some({code})"
  | none => "None"

/-- A message with the `stderr` of the child, when there is any. -/
def withStderr (message stderr : String) : String :=
  if stderr = "" then message else s!"{message}; stderr: {stderr}"

namespace NbdError

/-- The token was set when the call was made. -/
def cancelledByUser : IoError := ⟨.interrupted, "Inspection cancelled by the user"⟩

/-- The token was set while the call waited. -/
def cancelled : IoError := ⟨.interrupted, "Inspection cancelled"⟩

/-- There was no slot before the deadline. -/
def noSlot : IoError := ⟨.timedOut, "Timed out waiting for an NBD session slot"⟩

/-- The child could not be spawned. -/
def notStarted (path : String) (e : IoError) : IoError :=
  IoError.ofOther s!"Could not start qemu-nbd ({path}): {e.message}"

/-- The child has exited; the message is that of `nbd_exit_message`. -/
def exited (path : String) (code : ExitCode) (stderr : String) : IoError :=
  ⟨.connectionRefused,
    withStderr s!"qemu-nbd '{path}' exited with code {exitCodeText code}" stderr⟩

/-- `try_wait` has failed. -/
def noStatus (path : String) (e : IoError) (stderr : String) : IoError :=
  IoError.ofOther (withStderr s!"Could not query qemu-nbd '{path}' process status: {e.message}" stderr)

/-- The connection has failed with an error after which it is not tried again. -/
def handshake (path : String) (e : IoError) (stderr : String) : IoError :=
  ⟨e.kind, withStderr s!"qemu-nbd '{path}' NBD handshake failed: {e.message}" stderr⟩

/-- The deadline has passed without a connection; `last` is the last error of one. -/
def timedOut (path : String) (last : Option IoError) (stderr : String) : IoError :=
  let lastError := (last.map fun e => s!"; last connection error: {e.message}").getD ""
  ⟨.timedOut, withStderr s!"Timed out waiting for qemu-nbd '{path}' to accept connections" stderr ++
    lastError⟩

end NbdError

end VmSpect
