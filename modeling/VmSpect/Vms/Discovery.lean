import VmSpect.Error
import VmSpect.Lib.OsPath

/-!
# Discovery

`list_vms_with_options` of `src/vms/discovery.rs`, from the acquired slot on: the directories below
a root are visited breadth first and the images among their files are collected. A directory is
given by what reading it yields. Writing the warnings to standard error as well, which
`emit_warnings` asks for, is left out.
-/

namespace VmSpect.Discovery

open OsPath

/-- `DiscoveryOptions`. -/
structure DiscoveryOptions where
  recursive : Bool
  excludedDirectories : List Path
  maxDepth : Option ℕ

/-- `DiscoveryReport`. -/
structure DiscoveryReport where
  images : List Path
  warnings : List String
  inaccessibleDirectories : List Path
  deriving DecidableEq

/-- An item of an opened directory. -/
inductive Entry where
  /-- An item that could not be read. -/
  | unreadable (error : IoError)
  /-- An entry whose type could not be read. -/
  | untyped (name : OsString) (error : IoError)
  /-- A regular file, with its size if that can be read. -/
  | file (name : OsString) (metadata : Except IoError ℕ)
  /-- A directory that can be opened. -/
  | directory (name : OsString) (entries : List Entry)
  /-- A directory that cannot be opened. -/
  | closedDirectory (name : OsString) (error : IoError)
  /-- A symbolic link, a device, a socket or a pipe. -/
  | symlink (name : OsString)
  | other (name : OsString)

/-! ## Candidates -/

/-- `SUPPORTED_EXTENSIONS`. -/
def supportedExtensions : List (List Char) :=
  ["vmdk", "qcow2", "vdi", "vhd", "vhdx", "raw", "img"].map String.toList

/-- What follows the last occurrence of a separator. -/
def afterLast (sep : List Char) : List Char → Option (List Char)
  | [] => none
  | c :: rest =>
    match afterLast sep rest with
    | some suffix => some suffix
    | none =>
      if sep.isPrefixOf (c :: rest) then some ((c :: rest).drop sep.length) else none

/-- A text ends with one of several endings. -/
def endsWithAny (text : List Char) (endings : List String) : Bool :=
  endings.any fun ending => ending.toList.isSuffixOf text

/-- `is_secondary_extent`. -/
def isSecondaryExtent (path : Path) : Bool :=
  match (path.fileName.bind toStr).map Text.toAsciiLowercase with
  | none => false
  | some name =>
    match (path.fileStem.bind toStr).map Text.toAsciiLowercase with
    | none => false
    | some stem =>
      if endsWithAny name [".vmdk"] then
        endsWithAny stem ["-flat", "_flat", "-delta", "_delta", "-sesparse", "_sesparse"] ||
          ["-s", "_s"].any fun sep =>
            match afterLast sep.toList stem with
            | some suffix => 0 < (suffix.takeWhile Char.isDigit).length
            | none => false
      else if endsWithAny name [".vhd", ".vhdx"] then
        endsWithAny stem ["-sys", "_sys", "-delta", "_delta"]
      else false

/-- `is_vm_image_candidate`. -/
def isVmImageCandidate (path : Path) : Bool :=
  match (path.extension.bind toStr).map Text.toAsciiLowercase with
  | none => false
  | some ext => supportedExtensions.contains ext && !isSecondaryExtent path

/-! ## The traversal -/

/-- The exclusion test: an excluded path, or the name of one. -/
def DiscoveryOptions.excludes (options : DiscoveryOptions) (path : Path) : Bool :=
  options.excludedDirectories.any fun excluded =>
    excluded = path || excluded.fileName = path.fileName

/-- The depth of a directory that is not the last to be visited. -/
def DiscoveryOptions.belowLimit (options : DiscoveryOptions) (depth : ℕ) : Bool :=
  match options.maxDepth with
  | some limit => depth < limit
  | none => true

/-- A directory in the queue: its path, its depth and what reading it yields. -/
structure Pending where
  path : Path
  depth : ℕ
  contents : Except IoError (List Entry)

/-- A directory among the entries of another one. -/
def pushDirectory (options : DiscoveryOptions) (dir : Path) (depth : ℕ) (name : OsString)
    (contents : Except IoError (List Entry)) (queue : List Pending) : List Pending :=
  if options.recursive && !options.excludes (dir.push name) && options.belowLimit depth then
    queue ++ [⟨dir.push name, depth + 1, contents⟩]
  else queue

/-- The body of the loop over the entries of a directory. -/
def visitEntry (options : DiscoveryOptions) (dir : Path) (depth : ℕ)
    (acc : DiscoveryReport × List Pending) (entry : Entry) : DiscoveryReport × List Pending :=
  let (report, queue) := acc
  let warn (text : String) : DiscoveryReport := { report with warnings := report.warnings ++ [text] }
  match entry with
  | .unreadable error =>
    (warn (s!"skipping an unreadable entry in directory '{dir.display}' during VM discovery: " ++
      error.message), queue)
  | .untyped name error =>
    (warn s!"skipping entry '{(dir.push name).display}' during VM discovery: {error.message}", queue)
  | .directory name entries => (report, pushDirectory options dir depth name (.ok entries) queue)
  | .closedDirectory name error => (report, pushDirectory options dir depth name (.error error) queue)
  | .file name metadata =>
    if isVmImageCandidate (dir.push name) then
      match metadata with
      | .ok len =>
        if 0 < len then ({ report with images := report.images ++ [dir.push name] }, queue)
        else (report, queue)
      | .error error =>
        (warn s!"skipping entry '{(dir.push name).display}' during VM discovery: {error.message}",
          queue)
    else (report, queue)
  | .symlink _ => (report, queue)
  | .other _ => (report, queue)

/-- The loop over the entries of a directory. -/
def visitEntries (options : DiscoveryOptions) (dir : Path) (depth : ℕ) (entries : List Entry)
    (acc : DiscoveryReport × List Pending) : DiscoveryReport × List Pending :=
  entries.foldl (visitEntry options dir depth) acc

mutual

/-- The number of directories at and below an entry. -/
def Entry.directories : Entry → ℕ
  | .directory _ entries => 1 + directoriesIn entries
  | .closedDirectory _ _ => 1
  | _ => 0

/-- The number of directories at and below the entries of a directory. -/
def directoriesIn : List Entry → ℕ
  | [] => 0
  | entry :: rest => entry.directories + directoriesIn rest

end

/-- The number of directories at and below a directory of the queue. -/
def Pending.directories (p : Pending) : ℕ :=
  match p.contents with
  | .ok entries => 1 + directoriesIn entries
  | .error _ => 1

/-- The directories that are still to be visited. -/
def remaining (queue : List Pending) : ℕ := (queue.map Pending.directories).sum

/-- The entries of a directory add no more to the queue than what is below it. -/
theorem remaining_visit_le (options : DiscoveryOptions) (dir : Path) (depth : ℕ)
    (entries : List Entry) (acc : DiscoveryReport × List Pending) :
    remaining (visitEntries options dir depth entries acc).2 ≤
      remaining acc.2 + directoriesIn entries := by
  induction entries generalizing acc with
  | nil => exact Nat.le_add_right _ _
  | cons entry rest ih =>
    rw [visitEntries, List.foldl_cons, directoriesIn]
    refine (ih _).trans ?_
    -- A directory is pushed with its own part of the tree, or not at all.
    have hpush : ∀ (name : OsString) (contents : Except IoError (List Entry)),
        remaining (pushDirectory options dir depth name contents acc.2) ≤
          remaining acc.2 + Pending.directories ⟨dir.push name, depth + 1, contents⟩ := by
      intro name contents
      unfold pushDirectory remaining
      split <;> simp
    have hentry : remaining (visitEntry options dir depth acc entry).2 ≤
        remaining acc.2 + entry.directories := by
      cases entry with
      | directory name entries => exact hpush name (.ok entries)
      | closedDirectory name error => exact hpush name (.error error)
      | file name metadata =>
        simp only [visitEntry]
        split
        · split
          · split <;> exact Nat.le_add_right _ _
          · exact Nat.le_add_right _ _
        · exact Nat.le_add_right _ _
      | _ => exact Nat.le_add_right _ _
    omega

/-- The loop of `list_vms_with_options` over the queue. -/
def visitQueue (options : DiscoveryOptions) (directory : Path) (queue : List Pending)
    (report : DiscoveryReport) : Except VmSpectError DiscoveryReport :=
  match queue with
  | [] => .ok report
  | ⟨path, _, .error error⟩ :: rest =>
    if path = directory then .error (.io error)
    else visitQueue options directory rest { report with
      warnings := report.warnings ++
        [s!"skipping directory '{path.display}' during VM discovery: {error.message}"]
      inaccessibleDirectories := report.inaccessibleDirectories ++ [path] }
  | ⟨path, depth, .ok entries⟩ :: rest =>
    let visited := visitEntries options path depth entries (report, rest)
    visitQueue options directory visited.2 visited.1
  termination_by remaining queue
  decreasing_by
    · simp [remaining, Pending.directories]
    · have hle := remaining_visit_le options path depth entries (report, rest)
      simp only [remaining, Pending.directories, List.map_cons, List.sum_cons] at hle ⊢
      omega

/-- The directory that a discovery is asked for: what `fs::metadata` says about it (whether it is a
directory) and what reading it yields. -/
structure Root where
  path : Path
  metadata : Except IoError Bool
  contents : Except IoError (List Entry)

/-- `validate_discovery_root`. -/
def validateDiscoveryRoot (root : Root) : Except VmSpectError Unit :=
  match root.metadata with
  | .ok true => .ok ()
  | .ok false => .error (.other s!"The supplied path is not a directory: {root.path.display}")
  | .error error =>
    if error.kind = .notFound then .error (.imageNotFound s!"Directory not found: {root.path.display}")
    else .error (.io error)

/-- `sort` of a list of paths. -/
def sortPaths (paths : List Path) : List Path := paths.mergeSort fun p q => decide (p.key ≤ q.key)

/-- `list_vms_with_options`, once the slot is acquired. -/
def listVmsWithOptions (root : Root) (options : DiscoveryOptions) :
    Except VmSpectError DiscoveryReport := do
  validateDiscoveryRoot root
  let report ← visitQueue options root.path [⟨root.path, 0, root.contents⟩] ⟨[], [], []⟩
  pure { report with
    images := sortPaths report.images
    inaccessibleDirectories := sortPaths report.inaccessibleDirectories }

/-- `list_vms`, `count_vms` and `has_vms`. -/
def listVms (root : Root) (recursive : Bool) : Except VmSpectError (List Path) :=
  (listVmsWithOptions root ⟨recursive, [], none⟩).map DiscoveryReport.images

def countVms (root : Root) (recursive : Bool) : Except VmSpectError ℕ :=
  (listVms root recursive).map List.length

def hasVms (root : Root) (recursive : Bool) : Except VmSpectError Bool :=
  (listVms root recursive).map fun images => !images.isEmpty

end VmSpect.Discovery
