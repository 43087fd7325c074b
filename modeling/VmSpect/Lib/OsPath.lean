import Mathlib.Data.List.Lex
import VmSpect.Lib.Text

/-!
# Paths with names that need not be texts

The names of a Unix file system are sequences of bytes. Here a path is the list of components that
the standard library's `Path::components` yields, with such names, and paths are ordered as the
standard library orders them: component by component, and names by their bytes.
-/

namespace OsPath

/-- `OsStr` on Unix. -/
abbrev OsString := List UInt8

/-- `OsStr::to_str`. -/
def toStr (name : OsString) : Option (List Char) := Text.fromUtf8 name

/-- One component of a path. -/
inductive Component where
  | rootDir
  | curDir
  | parentDir
  | normal (name : OsString)
  deriving DecidableEq, Repr

/-- A path, as its components. -/
structure Path where
  components : List Component
  deriving DecidableEq, Repr

namespace Path

/-- The path of an entry of a directory, `dir.join(name)`. -/
def push (dir : Path) (name : OsString) : Path := ⟨dir.components ++ [.normal name]⟩

/-- The last component, when it is a name. -/
def fileName (p : Path) : Option OsString :=
  match p.components.getLast? with
  | some (.normal name) => some name
  | _ => none

/-- The bytes of a component. -/
def componentBytes : Component → OsString
  | .rootDir => []
  | .curDir => [0x2E]
  | .parentDir => [0x2E, 0x2E]
  | .normal name => name

/-- The path as it is shown to a user. -/
def display (p : Path) : String :=
  match p.components with
  | [.rootDir] => "/"
  | cs => String.ofList (Text.fromUtf8Lossy ((cs.map componentBytes).intersperse [0x2F]).flatten)

/-- What a component is compared by: the kinds in their order, and names by their bytes. -/
def componentKey : Component → List ℕ
  | .rootDir => [0]
  | .curDir => [1]
  | .parentDir => [2]
  | .normal name => 3 :: name.map UInt8.toNat

/-- What a path is compared by. -/
def key (p : Path) : List (List ℕ) := p.components.map componentKey

end Path

/-! ## Names -/

/-- A name before and after its last dot, as `file_stem` and `extension` take it apart. A name
without a dot, or with its only dot in front, has no extension. -/
def splitAtDot (name : OsString) : OsString × Option OsString :=
  let after := (name.reverse.takeWhile (· ≠ 0x2E)).reverse
  let before := name.take (name.length - after.length - 1)
  if name = [0x2E, 0x2E] then (name, none)
  else if after.length = name.length then (name, none)
  else if before = [] then (name, none)
  else (before, some after)

/-- `file_stem`. -/
def Path.fileStem (p : Path) : Option OsString := p.fileName.map fun name => (splitAtDot name).1

/-- `extension`. -/
def Path.extension (p : Path) : Option OsString := p.fileName.bind fun name => (splitAtDot name).2

/-! ## The order of paths -/

/-- Components with the same key are the same. -/
theorem componentKey_injective : Function.Injective Path.componentKey := by
  intro a b h
  have hbytes : Function.Injective UInt8.toNat := fun x y hxy => UInt8.toNat_inj.mp hxy
  cases a <;> cases b <;> simp only [Path.componentKey, List.cons.injEq] at h
  all_goals first
    | rfl
    | (obtain ⟨h, -⟩ := h; omega)
    | exact congrArg _ (List.map_injective_iff.mpr hbytes h.2)

/-- Paths with the same key are the same. -/
theorem key_injective : Function.Injective Path.key := by
  rintro ⟨p⟩ ⟨q⟩ h
  exact congrArg _ (List.map_injective_iff.mpr componentKey_injective h)

/-- A path determines its directory and its last name. -/
@[simp] theorem push_inj {dir dir' : Path} {name name' : OsString} :
    dir.push name = dir'.push name' ↔ dir = dir' ∧ name = name' := by
  rcases dir with ⟨p⟩
  rcases dir' with ⟨q⟩
  simp only [Path.push, Path.mk.injEq]
  constructor
  · intro h
    obtain ⟨h₁, h₂⟩ := List.append_inj' h rfl
    simp only [List.cons.injEq, Component.normal.injEq, and_true] at h₂
    exact ⟨h₁, h₂⟩
  · rintro ⟨rfl, rfl⟩
    rfl

end OsPath
