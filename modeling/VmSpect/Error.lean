import Mathlib.Tactic
import VmSpect.Lib.UnixPath

/-!
# Errors

`std::io::Error` with the kinds that the crate tells apart, and `VmSpectError` of `src/error.rs`
with the texts of its `Display` implementation. An I/O error is its kind and its message.
-/

namespace VmSpect

open UnixPath (Path)

/-- `std::io::ErrorKind`. -/
inductive ErrorKind where
  | notFound
  | permissionDenied
  | connectionRefused
  | connectionReset
  | connectionAborted
  | notConnected
  | addrInUse
  | addrNotAvailable
  | brokenPipe
  | alreadyExists
  | wouldBlock
  | invalidInput
  | invalidData
  | timedOut
  | writeZero
  | interrupted
  | unsupported
  | unexpectedEof
  | outOfMemory
  | other
  deriving DecidableEq, Repr

/-- `std::io::Error`. -/
structure IoError where
  kind : ErrorKind
  message : String
  deriving DecidableEq, Repr

/-- `io::Error::other`. -/
def IoError.ofOther (message : String) : IoError := ⟨.other, message⟩

/-- Why a call did not return a value: it returned an error, or it panicked. -/
inductive Stop (ε : Type) where
  | error (e : ε)
  | panic
  deriving DecidableEq, Repr

/-- `map_err`, which a panic passes by. -/
def Stop.map {ε ε' : Type} (f : ε → ε') : Stop ε → Stop ε'
  | error e => error (f e)
  | panic => panic

/-- The longest vector of bytes that can be asked for, `isize::MAX`. -/
def maxVecLen : ℕ := 2^63 - 1

/-- `VmSpectError`. -/
inductive VmSpectError where
  | io (source : IoError)
  | parse (message : String)
  | unsupportedOs (message : String)
  | unsupportedFormat (message : String)
  | imageNotFound (path : String)
  | cancelled
  | missingDiskComponent (descriptorPath declaredName resolvedPath componentType : String)
      (source : IoError)
  | qemuNotFound (message : String)
  | nbd (message : String)
  | fileSystem (message : String)
  | windowsRegistry (message : String)
  | config (message : String)
  | other (message : String)
  deriving DecidableEq, Repr

namespace VmSpectError

/-- The text of an error, as `#[error]` gives it. -/
def toText : VmSpectError → String
  | io source => s!"I/O error: {source.message}"
  | parse message => s!"Parse error: {message}"
  | unsupportedOs message => s!"Unsupported operating system: {message}"
  | unsupportedFormat message => s!"Unsupported image format: {message}"
  | imageNotFound path => s!"Disk image not found: {path}"
  | cancelled => "Inspection was cancelled by the user"
  | missingDiskComponent descriptorPath declaredName resolvedPath componentType source =>
    s!"Missing {componentType} '{declaredName}' referenced by '{descriptorPath}'. " ++
      s!"Resolved path: '{resolvedPath}'. OS error: {source.message}"
  | qemuNotFound message => s!"QEMU tool not available: {message}"
  | nbd message => s!"NBD protocol error: {message}"
  | fileSystem message => s!"File system error: {message}"
  | windowsRegistry message => s!"Windows Registry error: {message}"
  | config message => s!"Configuration error: {message}"
  | other message => s!"Inspection error: {message}"

/-- `from_disk_component_io`: a path that does not exist keeps the component's context in a variant
of its own, and any other failure is an I/O error of the same kind. -/
def fromDiskComponentIo (descriptorPath : Path) (declaredName : List Char) (resolvedPath : Path)
    (componentType operation : String) (source : IoError) : VmSpectError :=
  let declared := String.ofList declaredName
  if source.kind = .notFound then
    .missingDiskComponent descriptorPath.display declared resolvedPath.display componentType source
  else
    .io ⟨source.kind,
      s!"Could not {operation} {componentType} '{declared}' referenced by " ++
        s!"'{descriptorPath.display}'. Resolved path: '{resolvedPath.display}': {source.message}"⟩

end VmSpectError

end VmSpect
