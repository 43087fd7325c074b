import Mathlib.Data.List.Basic

/-!
# Paths of a Unix file system

A path is kept as the list of components that the standard library's `Path::components` yields: the
separators are normalised and a `.` stays only at the front. Two paths are equal exactly when these
lists are, which is also how the standard library compares paths.
-/

namespace UnixPath

/-- One component of a path. -/
inductive Component where
  | rootDir
  | curDir
  | parentDir
  | normal (name : List Char)
  deriving DecidableEq, Repr

/-- A path, as its components. -/
structure Path where
  components : List Component
  deriving DecidableEq, Repr

namespace Path

/-- The component that a piece between separators stands for. An empty piece is a repeated separator
and a `.` past the front is dropped. -/
def pieceComponent (first : Bool) (piece : List Char) : Option Component :=
  if piece = [] then none
  else if piece = ['.'] then (if first then some .curDir else none)
  else if piece = ['.', '.'] then some .parentDir
  else some (.normal piece)

/-- The path that a text spells (`Path::new`). -/
def ofText (text : List Char) : Path :=
  match text with
  | [] => ⟨[]⟩
  | '/' :: rest => ⟨.rootDir :: (rest.splitOn '/').filterMap (pieceComponent false)⟩
  | _ =>
    match text.splitOn '/' with
    | [] => ⟨[]⟩
    | first :: rest =>
      ⟨(pieceComponent true first).toList ++ rest.filterMap (pieceComponent false)⟩

/-- Whether the path starts at the root. -/
def isAbsolute (p : Path) : Bool := p.components.head? = some .rootDir

/-- The path without its last component; `none` for the root and for the empty path. -/
def parent (p : Path) : Option Path :=
  match p.components.getLast? with
  | none => none
  | some .rootDir => none
  | some _ => some ⟨p.components.dropLast⟩

/-- `base.join(p)`: an absolute `p` replaces `base`. -/
def join (base p : Path) : Path :=
  if p.isAbsolute then p
  else if base.components = [] then p
  else ⟨base.components ++ p.components.filter (· ≠ .curDir)⟩

/-- The last component, when it is a name. -/
def fileName (p : Path) : Option (List Char) :=
  match p.components.getLast? with
  | some (.normal name) => some name
  | _ => none

/-- What follows the last dot of the file name; a name that only starts with a dot has none. -/
def extension (p : Path) : Option (List Char) := do
  let name ← p.fileName
  let after := (name.reverse.takeWhile (· ≠ '.')).reverse
  let before := name.take (name.length - after.length - 1)
  if after.length = name.length then none
  else if before = [] then none
  else some after

/-- The text of a component. -/
def componentText : Component → List Char
  | .rootDir => []
  | .curDir => ['.']
  | .parentDir => ['.', '.']
  | .normal name => name

/-- The path as it is shown to a user. -/
def display (p : Path) : String :=
  match p.components with
  | [.rootDir] => "/"
  | cs => String.ofList ((cs.map componentText).intersperse ['/']).flatten

end Path

end UnixPath
