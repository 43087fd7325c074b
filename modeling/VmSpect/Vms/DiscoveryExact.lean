import VmSpect.Lib.Traversal
import VmSpect.Vms.Discovery

/-!
# Discovery returns exactly the eligible images

A directory tree is given by the entries of its root, and the names in a directory are distinct. The
traversal of `list_vms_with_options` is a walk in the sense of `Traversal`, once for the images and
once for the directories that cannot be opened (`visitQueue_walk`). What a walk emits is then
compared with what the options ask for: `Ancestors` goes down from the root through open directories
that are not excluded, and `Eligible` and `Inaccessible` say what is to be found there.
-/

namespace VmSpect.Discovery

open OsPath Traversal

/-! ## One directory -/

section Directory

variable (options : DiscoveryOptions)

/-- The image that an entry of a directory is. -/
def Entry.image (dir : Path) : Entry → Option Path
  | .file name (.ok len) =>
    if isVmImageCandidate (dir.push name) ∧ 0 < len then some (dir.push name) else none
  | _ => none

/-- The directory that an entry of a directory puts into the queue. -/
def Entry.child (dir : Path) (depth : ℕ) : Entry → Option Pending
  | .directory name entries => (pushDirectory options dir depth name (.ok entries) []).head?
  | .closedDirectory name error => (pushDirectory options dir depth name (.error error) []).head?
  | _ => none

/-- The directories that a directory of the queue puts into it. -/
def children (p : Pending) : List Pending :=
  match p.contents with
  | .ok entries => entries.filterMap (Entry.child options p.path p.depth)
  | .error _ => []

/-- The images in a directory of the queue. -/
def imagesOf (p : Pending) : List Path :=
  match p.contents with
  | .ok entries => entries.filterMap (Entry.image p.path)
  | .error _ => []

/-- The directory itself, when it cannot be opened. -/
def closedOf (p : Pending) : List Path :=
  match p.contents with
  | .ok _ => []
  | .error _ => [p.path]

/-- A directory is put at the end of the queue, or is not. -/
theorem pushDirectory_eq (dir : Path) (depth : ℕ) (name : OsString)
    (contents : Except IoError (List Entry)) (queue : List Pending) :
    pushDirectory options dir depth name contents queue =
      queue ++ (pushDirectory options dir depth name contents []).head?.toList := by
  unfold pushDirectory
  split <;> simp

/-- The loop over the entries appends the images to the report and the directories to the queue. -/
theorem visitEntries_spec (dir : Path) (depth : ℕ) (entries : List Entry) (report : DiscoveryReport)
    (queue : List Pending) :
    ∃ warnings, visitEntries options dir depth entries (report, queue) =
      (⟨report.images ++ entries.filterMap (Entry.image dir), warnings,
        report.inaccessibleDirectories⟩,
        queue ++ entries.filterMap (Entry.child options dir depth)) := by
  induction entries generalizing report queue with
  | nil => exact ⟨report.warnings, by simp [visitEntries]⟩
  | cons entry rest ih =>
    -- What one entry adds, kind by kind; an error adds a warning only.
    have hentry : ∃ warnings, visitEntry options dir depth (report, queue) entry =
        (⟨report.images ++ (entry.image dir).toList, warnings, report.inaccessibleDirectories⟩,
          queue ++ (entry.child options dir depth).toList) := by
      cases entry with
      | directory name entries =>
        refine ⟨report.warnings, ?_⟩
        rw [visitEntry, pushDirectory_eq]
        simp [Entry.image, Entry.child]
      | closedDirectory name error =>
        refine ⟨report.warnings, ?_⟩
        rw [visitEntry, pushDirectory_eq]
        simp [Entry.image, Entry.child]
      | file name metadata =>
        cases metadata with
        | ok len =>
          refine ⟨report.warnings, ?_⟩
          by_cases hcandidate : isVmImageCandidate (dir.push name) <;> by_cases hlen : 0 < len <;>
            simp [visitEntry, Entry.image, Entry.child, hcandidate, hlen]
        | error error =>
          by_cases hcandidate : isVmImageCandidate (dir.push name) <;>
            exact ⟨_, by simp [visitEntry, Entry.image, Entry.child, hcandidate]; rfl⟩
      | unreadable error => exact ⟨_, by simp [visitEntry, Entry.image, Entry.child]; rfl⟩
      | untyped name error => exact ⟨_, by simp [visitEntry, Entry.image, Entry.child]; rfl⟩
      | symlink name => exact ⟨report.warnings, by simp [visitEntry, Entry.image, Entry.child]⟩
      | other name => exact ⟨report.warnings, by simp [visitEntry, Entry.image, Entry.child]⟩
    obtain ⟨warnings, hentry⟩ := hentry
    -- The rest of the entries goes on from the report of the first one.
    obtain ⟨warnings', hrest⟩ := ih ⟨report.images ++ (entry.image dir).toList, warnings,
      report.inaccessibleDirectories⟩ (queue ++ (entry.child options dir depth).toList)
    refine ⟨warnings', ?_⟩
    rw [visitEntries, List.foldl_cons, hentry]
    rw [visitEntries] at hrest
    rw [hrest]
    cases himage : entry.image dir <;> cases hchild : entry.child options dir depth <;>
      simp [himage, hchild]

/-- What a directory puts into the queue: the directories among its entries that are not excluded,
when the traversal goes that deep. -/
theorem mem_children {p c : Pending} :
    c ∈ children options p ↔
      ∃ entries, p.contents = .ok entries ∧ options.recursive ∧ options.belowLimit p.depth ∧
        ∃ name, options.excludes (p.path.push name) = false ∧
          ((∃ sub, Entry.directory name sub ∈ entries ∧
              c = ⟨p.path.push name, p.depth + 1, .ok sub⟩) ∨
            ∃ error, Entry.closedDirectory name error ∈ entries ∧
              c = ⟨p.path.push name, p.depth + 1, .error error⟩) := by
  -- A directory is queued when the options allow one more level and do not exclude it.
  have hpush : ∀ (name : OsString) (contents : Except IoError (List Entry)),
      (pushDirectory options p.path p.depth name contents []).head? = some c ↔
        (options.recursive ∧ options.belowLimit p.depth) ∧
          options.excludes (p.path.push name) = false ∧
            c = ⟨p.path.push name, p.depth + 1, contents⟩ := by
    intro name contents
    unfold pushDirectory
    split <;> rename_i h <;> simp only [Bool.and_eq_true, Bool.not_eq_true'] at h
    · simp [h.1.1, h.1.2, h.2, eq_comm]
    · simp only [List.head?_nil, reduceCtorEq, false_iff]
      rintro ⟨⟨hrec, hlimit⟩, hexcl, -⟩
      exact h ⟨⟨hrec, hexcl⟩, hlimit⟩
  unfold children
  cases hcontents : p.contents with
  | error error => simp
  | ok entries =>
    simp only [List.mem_filterMap, Except.ok.injEq, exists_eq_left']
    constructor
    · rintro ⟨entry, hmem, hchild⟩
      cases entry with
      | directory name sub =>
        obtain ⟨⟨hrec, hlimit⟩, hexcl, rfl⟩ := (hpush name (.ok sub)).mp hchild
        exact ⟨hrec, hlimit, name, hexcl, Or.inl ⟨sub, hmem, rfl⟩⟩
      | closedDirectory name error =>
        obtain ⟨⟨hrec, hlimit⟩, hexcl, rfl⟩ := (hpush name (.error error)).mp hchild
        exact ⟨hrec, hlimit, name, hexcl, Or.inr ⟨error, hmem, rfl⟩⟩
      | _ => cases hchild
    · rintro ⟨hrec, hlimit, name, hexcl, ⟨sub, hmem, rfl⟩ | ⟨error, hmem, rfl⟩⟩
      · exact ⟨_, hmem, (hpush name (.ok sub)).mpr ⟨⟨hrec, hlimit⟩, hexcl, rfl⟩⟩
      · exact ⟨_, hmem, (hpush name (.error error)).mpr ⟨⟨hrec, hlimit⟩, hexcl, rfl⟩⟩

/-- A child of a directory lies one component below it. -/
theorem path_of_mem_children {p c : Pending} (h : c ∈ children options p) :
    ∃ name, c.path = p.path.push name := by
  obtain ⟨-, -, -, -, name, -, ⟨-, -, rfl⟩ | ⟨-, -, rfl⟩⟩ := (mem_children options).mp h
  all_goals exact ⟨name, rfl⟩

end Directory

/-! ## The whole queue -/

section Queue

variable (options : DiscoveryOptions) (directory : Path)

/-- A directory of the queue lies at or below the root, and the root can be opened. -/
structure Pending.UnderRoot (p : Pending) : Prop where
  length_le : directory.components.length ≤ p.path.components.length
  opened : p.path = directory → ∃ entries, p.contents = .ok entries

/-- The subdirectories of a directory lie below the root too. -/
theorem underRoot_of_mem_children {p c : Pending} (hp : p.UnderRoot directory)
    (hc : c ∈ children options p) : c.UnderRoot directory := by
  obtain ⟨name, hpath⟩ := path_of_mem_children options hc
  have hlength : c.path.components.length = p.path.components.length + 1 := by
    simp [hpath, Path.push]
  have hle := hp.length_le
  refine ⟨by omega, fun heq => ?_⟩
  rw [heq] at hlength
  omega

/-- The loop over the queue is a traversal. It appends the images and the directories that cannot be
opened to the report, and no error of one directory ends it. -/
theorem visitQueue_walk (queue : List Pending) (report : DiscoveryReport)
    (hqueue : ∀ p ∈ queue, p.UnderRoot directory) :
    ∃ images closed warnings,
      Walk (children options) imagesOf queue images ∧
        Walk (children options) closedOf queue closed ∧
          visitQueue options directory queue report =
            .ok ⟨report.images ++ images, warnings, report.inaccessibleDirectories ++ closed⟩ := by
  induction queue, report using visitQueue.induct options directory with
  | case1 report =>
    exact ⟨[], [], report.warnings, .nil, .nil, by simp [visitQueue]⟩
  | case2 report depth error rest =>
    obtain ⟨entries, hcontents⟩ := (hqueue _ List.mem_cons_self).opened rfl
    cases hcontents
  | case3 report path depth error rest hpath ih =>
    obtain ⟨images, closed, warnings, himages, hclosed, heq⟩ :=
      ih fun p hp => hqueue p (List.mem_cons_of_mem _ hp)
    -- A directory that cannot be opened has no children and no images.
    have hchildren : children options ⟨path, depth, .error error⟩ = [] := rfl
    rw [← List.append_nil rest, ← hchildren] at himages hclosed
    refine ⟨_, _, warnings, .cons himages, .cons hclosed, ?_⟩
    rw [visitQueue, if_neg hpath, heq]
    simp [imagesOf, closedOf]
  | case4 report path depth entries rest visited ih =>
    obtain ⟨visitWarnings, hvisited⟩ := visitEntries_spec options path depth entries report rest
    have hchildren : entries.filterMap (Entry.child options path depth) =
        children options ⟨path, depth, .ok entries⟩ := rfl
    have hroot := hqueue _ List.mem_cons_self
    obtain ⟨images, closed, warnings, himages, hclosed, heq⟩ := ih fun p hp => by
      rw [show visited = _ from hvisited, hchildren] at hp
      rcases List.mem_append.mp hp with hp | hp
      · exact hqueue p (List.mem_cons_of_mem _ hp)
      · exact underRoot_of_mem_children options directory hroot hp
    rw [show visited = _ from hvisited, hchildren] at himages hclosed heq
    refine ⟨_, _, warnings, .cons himages, .cons hclosed, ?_⟩
    rw [visitQueue, hvisited, hchildren, heq]
    simp [imagesOf, closedOf]

end Queue

/-! ## Directory trees -/

/-- The name of an entry, for what has one. -/
def Entry.name : Entry → Option OsString
  | .unreadable _ => none
  | .untyped name _ => some name
  | .file name _ => some name
  | .directory name _ => some name
  | .closedDirectory name _ => some name
  | .symlink name => some name
  | .other name => some name

/-- No directory has two entries of one name. -/
inductive DistinctNames : List Entry → Prop where
  | intro {entries : List Entry} (names : (entries.filterMap Entry.name).Nodup)
      (below : ∀ name sub, Entry.directory name sub ∈ entries → DistinctNames sub) :
      DistinctNames entries

/-- A finite directory tree with a root that can be read. -/
structure DirectoryTree where
  path : Path
  entries : List Entry
  distinct : DistinctNames entries

/-- The tree as the directory that a discovery is asked for. -/
def DirectoryTree.root (tree : DirectoryTree) : Root := ⟨tree.path, .ok true, .ok tree.entries⟩

section Eligibility

variable (options : DiscoveryOptions) (tree : DirectoryTree)

/-- A directory at some depth with its entries, such that it and all directories on the way from the
root, which has depth zero, are real directories that can be opened, and none but perhaps the root
is excluded. -/
inductive Ancestors : ℕ → Path → List Entry → Prop where
  | root : Ancestors 0 tree.path tree.entries
  | child {depth : ℕ} {dir : Path} {entries : List Entry} {name : OsString} {sub : List Entry}
      (h : Ancestors depth dir entries) (hmem : Entry.directory name sub ∈ entries)
      (hexcl : options.excludes (dir.push name) = false) : Ancestors (depth + 1) (dir.push name) sub

/-- The depths at which files are looked for. -/
def DiscoveryOptions.Allows (depth : ℕ) : Prop :=
  (options.recursive = false → depth ≤ 0) ∧ ∀ limit, options.maxDepth = some limit → depth ≤ limit

/-- The files that a discovery is to find: non-empty regular files with readable metadata that are
image candidates, in a directory that is looked into. -/
def Eligible (file : Path) : Prop :=
  ∃ depth dir entries name len, Ancestors options tree depth dir entries ∧ options.Allows depth ∧
    Entry.file name (.ok len) ∈ entries ∧ 0 < len ∧ isVmImageCandidate (dir.push name) ∧
      file = dir.push name

/-- The directories that a discovery reaches and cannot open. -/
def Inaccessible (directory : Path) : Prop :=
  ∃ depth dir entries name error, Ancestors options tree depth dir entries ∧
    options.Allows (depth + 1) ∧ Entry.closedDirectory name error ∈ entries ∧
      options.excludes (dir.push name) = false ∧ directory = dir.push name

variable {options} {tree}

/-- Going one level deeper is allowed exactly when the traversal is recursive and the limit is not
reached. -/
theorem allows_succ_iff {depth : ℕ} :
    options.Allows (depth + 1) ↔ options.recursive ∧ options.belowLimit depth := by
  unfold DiscoveryOptions.Allows DiscoveryOptions.belowLimit
  cases options.recursive <;> cases options.maxDepth <;> simp

/-- What is allowed at a depth is allowed above it. -/
theorem allows_of_succ {depth : ℕ} (h : options.Allows (depth + 1)) : options.Allows depth := by
  refine ⟨fun hrec => ?_, fun limit hlimit => ?_⟩
  · have := h.1 hrec
    omega
  · have := h.2 limit hlimit
    omega

/-- The root is always allowed. -/
theorem allows_zero : options.Allows 0 := ⟨fun _ => Nat.le_refl 0, fun _ _ => Nat.zero_le _⟩

/-- The open directories that are visited are those that the options ask for. -/
theorem below_open_iff {p : Pending} {entries : List Entry} (hp : p.contents = .ok entries) :
    Below (children options) ⟨tree.path, 0, .ok tree.entries⟩ p ↔
      Ancestors options tree p.depth p.path entries ∧ options.Allows p.depth := by
  constructor
  · intro h
    -- Along the path from the root to the directory, from its end.
    induction h generalizing entries with
    | refl =>
      cases hp
      exact ⟨.root, allows_zero⟩
    | @tail q c _ hc ih =>
      obtain ⟨qentries, hq, hrec, hlimit, name, hexcl, hkind⟩ := (mem_children options).mp hc
      obtain ⟨hanc, -⟩ := ih hq
      rcases hkind with ⟨sub, hmem, rfl⟩ | ⟨error, -, rfl⟩
      · cases hp
        exact ⟨.child hanc hmem hexcl, allows_succ_iff.mpr ⟨hrec, hlimit⟩⟩
      · cases hp
  · rintro ⟨hanc, hallows⟩
    obtain ⟨path, depth, contents⟩ := p
    subst hp
    simp only at hanc hallows
    -- And back, along its ancestors.
    induction hanc with
    | root => exact .refl
    | @child depth dir upper name sub _ hmem hexcl ih =>
      obtain ⟨hrec, hlimit⟩ := allows_succ_iff.mp hallows
      refine .tail (ih (allows_of_succ hallows)) ((mem_children options).mpr ?_)
      exact ⟨upper, rfl, hrec, hlimit, name, hexcl, Or.inl ⟨sub, hmem, rfl⟩⟩

/-- The images of the visited directories are the eligible files. -/
theorem eligible_iff {file : Path} :
    Eligible options tree file ↔
      ∃ p, Below (children options) ⟨tree.path, 0, .ok tree.entries⟩ p ∧ file ∈ imagesOf p := by
  constructor
  · rintro ⟨depth, dir, entries, name, len, hanc, hallows, hmem, hlen, hcandidate, rfl⟩
    refine ⟨⟨dir, depth, .ok entries⟩, (below_open_iff rfl).mpr ⟨hanc, hallows⟩, ?_⟩
    exact List.mem_filterMap.mpr ⟨_, hmem, by simp [Entry.image, hcandidate, hlen]⟩
  · rintro ⟨⟨dir, depth, contents⟩, hbelow, hfile⟩
    cases contents with
    | error error => cases hfile
    | ok entries =>
      obtain ⟨hanc, hallows⟩ := (below_open_iff rfl).mp hbelow
      obtain ⟨entry, hmem, himage⟩ := List.mem_filterMap.mp hfile
      unfold Entry.image at himage
      split at himage
      · rename_i name len
        split at himage
        · rename_i h
          cases himage
          exact ⟨depth, dir, entries, name, len, hanc, hallows, hmem, h.2, h.1, rfl⟩
        · cases himage
      · cases himage

/-- The visited directories that cannot be opened are those that the options lead to. -/
theorem inaccessible_iff {directory : Path} :
    Inaccessible options tree directory ↔
      ∃ p, Below (children options) ⟨tree.path, 0, .ok tree.entries⟩ p ∧
        directory ∈ closedOf p := by
  constructor
  · rintro ⟨depth, dir, entries, name, error, hanc, hallows, hmem, hexcl, rfl⟩
    obtain ⟨hrec, hlimit⟩ := allows_succ_iff.mp hallows
    have hdir : Below (children options) ⟨tree.path, 0, .ok tree.entries⟩
        ⟨dir, depth, .ok entries⟩ :=
      (below_open_iff rfl).mpr ⟨hanc, allows_of_succ hallows⟩
    refine ⟨⟨dir.push name, depth + 1, .error error⟩, ?_, List.mem_singleton_self _⟩
    refine hdir.tail ((mem_children options).mpr ?_)
    exact ⟨entries, rfl, hrec, hlimit, name, hexcl, Or.inr ⟨error, hmem, rfl⟩⟩
  · rintro ⟨⟨dir, depth, contents⟩, hbelow, hdirectory⟩
    cases contents with
    | ok entries => cases hdirectory
    | error error =>
      cases List.mem_singleton.mp hdirectory
      -- The root can be opened, so the directory is among the entries of a visited one.
      rcases Relation.ReflTransGen.cases_tail hbelow with heq | ⟨q, hq, hc⟩
      · cases heq
      · obtain ⟨entries, hcontents, hrec, hlimit, name, hexcl, hkind⟩ :=
          (mem_children options).mp hc
        obtain ⟨hanc, -⟩ := (below_open_iff hcontents).mp hq
        rcases hkind with ⟨sub, -, heq⟩ | ⟨error', hmem, heq⟩
        · cases heq
        · cases heq
          exact ⟨q.depth, q.path, entries, name, error, hanc,
            allows_succ_iff.mpr ⟨hrec, hlimit⟩, hmem, hexcl, rfl⟩

end Eligibility

/-! ## Nothing is found twice -/

section Separation

/-- What lies at or below a directory. -/
def region (p : Pending) : Set Path := {f | p.path.components <+: f.components}

/-- The names below a directory of the queue are distinct. -/
def Pending.Distinct (p : Pending) : Prop := ∀ entries, p.contents = .ok entries → DistinctNames entries

variable {options : DiscoveryOptions}

/-- Two directories with different names in one directory have nothing in common. -/
theorem push_prefix_eq {dir : Path} {name name' : OsString} {f : Path}
    (h : (dir.push name).components <+: f.components)
    (h' : (dir.push name').components <+: f.components) : name = name' := by
  have hlength : (dir.push name).components.length = (dir.push name').components.length := by
    simp [Path.push]
  have heq := (List.prefix_of_prefix_length_le h h' hlength.le).eq_of_length hlength
  have hpush : dir.push name = dir.push name' := congrArg (fun cs => (⟨cs⟩ : Path)) heq
  exact (push_inj.mp hpush).2

/-- The child that an entry is has the name of the entry. -/
theorem path_of_child {dir : Path} {depth : ℕ} {entry : Entry} {c : Pending}
    (h : entry.child options dir depth = some c) :
    ∃ name, entry.name = some name ∧ c.path = dir.push name := by
  have hpush : ∀ (name : OsString) (contents : Except IoError (List Entry)),
      (pushDirectory options dir depth name contents []).head? = some c → c.path = dir.push name := by
    intro name contents h
    unfold pushDirectory at h
    split at h
    · simp only [List.nil_append, List.head?_cons, Option.some.injEq] at h
      rw [← h]
    · cases h
  cases entry with
  | directory name sub => exact ⟨name, rfl, hpush name _ h⟩
  | closedDirectory name error => exact ⟨name, rfl, hpush name _ h⟩
  | _ => cases h

/-- The image that an entry is has the name of the entry. -/
theorem path_of_image {dir : Path} {entry : Entry} {f : Path} (h : entry.image dir = some f) :
    ∃ name metadata, entry = .file name metadata ∧ f = dir.push name := by
  unfold Entry.image at h
  split at h
  · rename_i name len
    split at h
    · cases h
      exact ⟨name, _, rfl, rfl⟩
    · cases h
  · cases h

/-- Distinct entries have distinct names. -/
theorem names_pairwise {entries : List Entry} (h : DistinctNames entries) :
    entries.Pairwise fun e e' => ∀ n, e.name = some n → ∀ n', e'.name = some n' → n ≠ n' := by
  obtain ⟨hnames, -⟩ := h
  exact List.pairwise_filterMap.mp hnames

/-- The names in a subdirectory are distinct. -/
theorem distinct_of_mem_children {p c : Pending} (hp : p.Distinct) (hc : c ∈ children options p) :
    c.Distinct := by
  obtain ⟨entries, hcontents, -, -, name, -, ⟨sub, hmem, rfl⟩ | ⟨error, -, rfl⟩⟩ :=
    (mem_children options).mp hc
  · rintro _ ⟨⟩
    obtain ⟨-, hbelow⟩ := hp entries hcontents
    exact hbelow name sub hmem
  · rintro _ ⟨⟩

/-- What lies below a subdirectory lies below the directory. -/
theorem region_child_subset {p c : Pending} (hc : c ∈ children options p) :
    region c ⊆ region p := by
  obtain ⟨name, hpath⟩ := path_of_mem_children options hc
  intro f hf
  have hpush : p.path.components <+: c.path.components := by
    rw [hpath]
    exact List.prefix_append _ _
  exact hpush.trans hf

/-- Different subdirectories have nothing in common. -/
theorem children_pairwise {p : Pending} (hp : p.Distinct) :
    (children options p).Pairwise fun c d => Disjoint (region c) (region d) := by
  unfold children
  cases hcontents : p.contents with
  | error error => exact List.Pairwise.nil
  | ok entries =>
    refine List.pairwise_filterMap.mpr ((names_pairwise (hp entries hcontents)).imp ?_)
    intro e e' hne c hc d hd
    obtain ⟨n, hn, hcpath⟩ := path_of_child hc
    obtain ⟨n', hn', hdpath⟩ := path_of_child hd
    refine Set.disjoint_left.mpr fun f hf hf' => hne n hn n' hn' ?_
    unfold region at hf hf'
    rw [hcpath] at hf
    rw [hdpath] at hf'
    exact push_prefix_eq hf hf'

/-- The images of a directory are different files, apart from what lies in the directories in it. -/
theorem imagesOf_separated :
    Separated (children options) imagesOf Pending.Distinct region where
  good_child p hp c hc := distinct_of_mem_children hp hc
  child_region p _ c hc := region_child_subset hc
  children_disjoint p hp := children_pairwise hp
  emit_nodup p hp := by
    unfold imagesOf
    cases hcontents : p.contents with
    | error error => exact List.nodup_nil
    | ok entries =>
      refine List.pairwise_filterMap.mpr ((names_pairwise (hp entries hcontents)).imp ?_)
      intro e e' hne f hf f' hf' heq
      obtain ⟨n, m, rfl, rfl⟩ := path_of_image hf
      obtain ⟨n', m', rfl, rfl⟩ := path_of_image hf'
      exact hne n rfl n' rfl (push_inj.mp heq).2
  emit_region p _ f hf := by
    unfold imagesOf at hf
    cases hcontents : p.contents with
    | error error => simp [hcontents] at hf
    | ok entries =>
      rw [hcontents] at hf
      obtain ⟨entry, -, himage⟩ := List.mem_filterMap.mp hf
      obtain ⟨n, m, -, rfl⟩ := path_of_image himage
      exact List.prefix_append _ _
  emit_disjoint p hp c hc f hf hregion := by
    obtain ⟨entries, hcontents, -, -, name, -, hkind⟩ := (mem_children options).mp hc
    unfold imagesOf at hf
    rw [hcontents] at hf
    obtain ⟨entry, hmem, himage⟩ := List.mem_filterMap.mp hf
    obtain ⟨n, m, rfl, rfl⟩ := path_of_image himage
    -- The directory is another entry, so it has another name.
    obtain ⟨other, hother, hname, hne, hpath⟩ : ∃ other ∈ entries, other.name = some name ∧
        Entry.file n m ≠ other ∧ c.path = p.path.push name := by
      rcases hkind with ⟨sub, hsub, rfl⟩ | ⟨error, herror, rfl⟩
      · exact ⟨_, hsub, rfl, nofun, rfl⟩
      · exact ⟨_, herror, rfl, nofun, rfl⟩
    unfold region at hregion
    rw [hpath] at hregion
    have hsame : name = n := push_prefix_eq hregion (List.prefix_refl _)
    have hsymm : Std.Symm fun e e' : Entry =>
        ∀ n, e.name = some n → ∀ n', e'.name = some n' → n ≠ n' :=
      ⟨fun e e' h n hn n' hn' heq => h n' hn' n hn heq.symm⟩
    exact (names_pairwise (hp entries hcontents)).forall hmem hother hne n rfl name hname hsame.symm

/-- The directories that cannot be opened are different ones. -/
theorem closedOf_separated :
    Separated (children options) closedOf Pending.Distinct region where
  good_child p hp c hc := distinct_of_mem_children hp hc
  child_region p _ c hc := region_child_subset hc
  children_disjoint p hp := children_pairwise hp
  emit_nodup p _ := by
    unfold closedOf
    split
    · exact List.nodup_nil
    · exact List.nodup_singleton _
  emit_region p _ f hf := by
    unfold closedOf at hf
    split at hf
    · cases hf
    · rw [List.mem_singleton.mp hf]
      exact List.prefix_refl _
  emit_disjoint p _ c hc f hf := by
    obtain ⟨entries, hcontents, -⟩ := (mem_children options).mp hc
    simp [closedOf, hcontents] at hf

end Separation

/-! ## The report -/

/-- Sorting a list of different paths yields a strictly increasing one. -/
theorem sortPaths_strict {paths : List Path} (h : paths.Nodup) :
    (sortPaths paths).Pairwise fun p q => p.key < q.key := by
  have hsorted : (sortPaths paths).Pairwise fun p q => decide (p.key ≤ q.key) := by
    refine List.pairwise_mergeSort ?_ ?_ paths
    · intro a b c hab hbc
      simp only [decide_eq_true_eq] at hab hbc ⊢
      exact hab.trans hbc
    · intro a b
      simpa using le_total a.key b.key
  have hnodup : (sortPaths paths).Nodup := (List.mergeSort_perm _ _).nodup_iff.mpr h
  refine (hsorted.and hnodup).imp ?_
  rintro p q ⟨hle, hne⟩
  exact lt_of_le_of_ne (of_decide_eq_true hle) fun heq => hne (key_injective heq)

/-- The sorted paths are the same paths. -/
theorem mem_sortPaths {paths : List Path} {p : Path} : p ∈ sortPaths paths ↔ p ∈ paths :=
  List.mem_mergeSort

section Report

variable (tree : DirectoryTree) (options : DiscoveryOptions)

/-- The report of a discovery: the traversal of the tree, sorted. -/
theorem listVmsWithOptions_report :
    ∃ report, listVmsWithOptions tree.root options = .ok report ∧
      (report.images.Pairwise fun p q => p.key < q.key) ∧
      (∀ file, file ∈ report.images ↔ Eligible options tree file) ∧
      (report.inaccessibleDirectories.Pairwise fun p q => p.key < q.key) ∧
      ∀ directory, directory ∈ report.inaccessibleDirectories ↔
        Inaccessible options tree directory := by
  have hroot : ∀ p ∈ [(⟨tree.path, 0, .ok tree.entries⟩ : Pending)], p.UnderRoot tree.path := by
    intro p hp
    cases List.mem_singleton.mp hp
    exact ⟨Nat.le_refl _, fun _ => ⟨tree.entries, rfl⟩⟩
  have hdistinct : ∀ p ∈ [(⟨tree.path, 0, .ok tree.entries⟩ : Pending)], p.Distinct := by
    intro p hp
    cases List.mem_singleton.mp hp
    rintro _ ⟨⟩
    exact tree.distinct
  -- The loop over the queue is one walk for the images and one for the closed directories.
  obtain ⟨images, closed, warnings, himages, hclosed, heq⟩ :=
    visitQueue_walk options tree.path _ ⟨[], [], []⟩ hroot
  refine ⟨⟨sortPaths images, warnings, sortPaths closed⟩, ?_, ?_, ?_, ?_, ?_⟩
  · unfold listVmsWithOptions validateDiscoveryRoot DirectoryTree.root
    simp only [heq]
    rfl
  · exact sortPaths_strict
      (himages.nodup imagesOf_separated hdistinct (List.pairwise_singleton _ _)).1
  · intro file
    rw [eligible_iff, mem_sortPaths, himages.mem_iff]
    simp
  · exact sortPaths_strict
      (hclosed.nodup closedOf_separated hdistinct (List.pairwise_singleton _ _)).1
  · intro directory
    rw [inaccessible_iff, mem_sortPaths, hclosed.mem_iff]
    simp

/-- What a directory contains is still there, but for what lies at or below a path where something
fails. -/
inductive KeptOutside (failing : Path) : Path → List Entry → List Entry → Prop where
  | intro {dir : Path} {entries entries' : List Entry}
      (kept : OsString → List Entry → List Entry)
      (files : ∀ name metadata, Entry.file name metadata ∈ entries →
        ¬failing.components <+: (dir.push name).components → Entry.file name metadata ∈ entries')
      (directories : ∀ name sub, Entry.directory name sub ∈ entries →
        ¬failing.components <+: (dir.push name).components →
          Entry.directory name (kept name sub) ∈ entries')
      (below : ∀ name sub, Entry.directory name sub ∈ entries →
        ¬failing.components <+: (dir.push name).components →
          KeptOutside failing (dir.push name) sub (kept name sub)) :
      KeptOutside failing dir entries entries'

variable {tree} {options} {tree' : DirectoryTree} {failing : Path}

/-- The directories that lead to a file outside of the failing path are still there. -/
theorem Ancestors.keptOutside (hpath : tree'.path = tree.path)
    (hkept : KeptOutside failing tree.path tree.entries tree'.entries) {depth : ℕ} {dir : Path}
    {entries : List Entry} (h : Ancestors options tree depth dir entries)
    (hout : ¬failing.components <+: dir.components) :
    ∃ entries', Ancestors options tree' depth dir entries' ∧
      KeptOutside failing dir entries entries' := by
  induction h with
  | root => exact ⟨tree'.entries, hpath ▸ .root, hkept⟩
  | @child depth dir entries name sub _ hmem hexcl ih =>
    have hout' : ¬failing.components <+: dir.components :=
      fun hprefixed => hout (hprefixed.trans (List.prefix_append _ _))
    obtain ⟨entries', hanc, kept, -, hdirectories, hbelow⟩ := ih hout'
    exact ⟨kept name sub, .child hanc (hdirectories name sub hmem hout) hexcl,
      hbelow name sub hmem hout⟩

/-- An image outside of what fails stays eligible. -/
theorem Eligible.keptOutside (hpath : tree'.path = tree.path)
    (hkept : KeptOutside failing tree.path tree.entries tree'.entries) {file : Path}
    (h : Eligible options tree file) (hout : ¬failing.components <+: file.components) :
    Eligible options tree' file := by
  obtain ⟨depth, dir, entries, name, len, hanc, hallows, hmem, hlen, hcandidate, rfl⟩ := h
  have hout' : ¬failing.components <+: dir.components :=
    fun hprefixed => hout (hprefixed.trans (List.prefix_append _ _))
  obtain ⟨entries', hanc', -, hfiles, -⟩ := hanc.keptOutside hpath hkept hout'
  exact ⟨depth, dir, entries', name, len, hanc', hallows, hfiles name _ hmem hout, hlen, hcandidate,
    rfl⟩

variable (tree) (options)

/-- For every finite directory tree and all options the discovery ends with a report. Its images are
in strictly increasing order and are exactly the eligible files, and its inaccessible directories
are in strictly increasing order and are exactly the reached directories that cannot be opened.
Whatever fails at or below some path, the images outside of that path are still found. -/
theorem listVmsWithOptions_exact :
    ∃ report, listVmsWithOptions tree.root options = .ok report ∧
      (report.images.Pairwise fun p q => p.key < q.key) ∧
      (∀ file, file ∈ report.images ↔ Eligible options tree file) ∧
      (report.inaccessibleDirectories.Pairwise fun p q => p.key < q.key) ∧
      (∀ directory, directory ∈ report.inaccessibleDirectories ↔
        Inaccessible options tree directory) ∧
      ∀ (tree' : DirectoryTree) (failing : Path), tree'.path = tree.path →
        KeptOutside failing tree.path tree.entries tree'.entries →
          ∃ report', listVmsWithOptions tree'.root options = .ok report' ∧
            ∀ file ∈ report.images, ¬failing.components <+: file.components →
              file ∈ report'.images := by
  obtain ⟨report, hreport, hsorted, himages, hsorted', hclosed⟩ :=
    listVmsWithOptions_report tree options
  refine ⟨report, hreport, hsorted, himages, hsorted', hclosed, ?_⟩
  intro tree' failing hpath hkept
  obtain ⟨report', hreport', -, himages', -⟩ := listVmsWithOptions_report tree' options
  refine ⟨report', hreport', fun file hfile hout => ?_⟩
  exact (himages' file).mpr (((himages file).mp hfile).keptOutside hpath hkept hout)

end Report

end VmSpect.Discovery
