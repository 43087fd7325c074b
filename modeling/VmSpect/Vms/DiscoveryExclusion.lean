import VmSpect.Vms.DiscoveryExact

/-!
# Excluded directories

`excluded_directories` holds "directory paths or directory names to skip". The test of
`list_vms_with_options` compares the last name of every entry, also of an entry that is a path of
several components, so an excluded path is skipped together with all directories of its name.
-/

namespace VmSpect.Discovery

open OsPath

/-! ## What the entries say -/

/-- The directories to skip: an entry that is a path stands for that path, and an entry that is one
name for every directory of that name. -/
def DiscoveryOptions.Names (options : DiscoveryOptions) (path : Path) : Prop :=
  path ∈ options.excludedDirectories ∨
    ∃ name, ⟨[.normal name]⟩ ∈ options.excludedDirectories ∧ path.fileName = some name

/-- The last name of an entry of a directory. -/
@[simp] theorem fileName_push (dir : Path) (name : OsString) :
    (dir.push name).fileName = some name := by
  unfold Path.fileName Path.push
  rw [List.getLast?_concat]

/-- The exclusion test, as a proposition. -/
theorem DiscoveryOptions.excludes_iff (options : DiscoveryOptions) (path : Path) :
    options.excludes path = true ↔
      ∃ excluded ∈ options.excludedDirectories,
        excluded = path ∨ excluded.fileName = path.fileName := by
  unfold DiscoveryOptions.excludes
  rw [List.any_eq_true]
  simp only [Bool.or_eq_true, decide_eq_true_eq]

/-- What the entries say is skipped. -/
theorem DiscoveryOptions.Names.excludes {options : DiscoveryOptions} {path : Path}
    (h : options.Names path) : options.excludes path = true := by
  rw [options.excludes_iff]
  rcases h with hmem | ⟨name, hmem, hname⟩
  · exact ⟨path, hmem, Or.inl rfl⟩
  · exact ⟨_, hmem, Or.inr hname.symm⟩

/-- A path of one component with a name is that name. -/
theorem eq_of_fileName {path : Path} {name : OsString} (hone : path.components.length = 1)
    (hname : path.fileName = some name) : path = ⟨[.normal name]⟩ := by
  obtain ⟨components⟩ := path
  obtain ⟨component, rfl⟩ := List.length_eq_one_iff.mp hone
  rcases component with _ | _ | _ | other
  · exact absurd hname (Option.some_ne_none _).symm
  · exact absurd hname (Option.some_ne_none _).symm
  · exact absurd hname (Option.some_ne_none _).symm
  · rw [Option.some.inj hname]

/-- The test skips an entry of a directory against what the excluded entries say exactly when it
takes the last name of a path of several components for a name. -/
theorem DiscoveryOptions.excludes_iff_names (options : DiscoveryOptions) (dir : Path)
    (name : OsString) :
    (options.excludes (dir.push name) = true ↔ options.Names (dir.push name)) ↔
      ∀ excluded ∈ options.excludedDirectories, excluded.components.length ≠ 1 →
        excluded.fileName = some name → options.Names (dir.push name) := by
  constructor
  · intro hiff excluded hmem _ hname
    refine hiff.mp ((options.excludes_iff _).mpr ⟨excluded, hmem, Or.inr ?_⟩)
    rw [hname, fileName_push]
  · intro hnames
    refine ⟨fun hexcl => ?_, DiscoveryOptions.Names.excludes⟩
    obtain ⟨excluded, hmem, rfl | hname⟩ := (options.excludes_iff _).mp hexcl
    · exact Or.inl hmem
    · rw [fileName_push] at hname
      by_cases hone : excluded.components.length = 1
      · rw [eq_of_fileName hone hname] at hmem
        exact Or.inr ⟨name, hmem, fileName_push dir name⟩
      · exact hnames excluded hmem hone hname

/-! ## Traversals -/

section Trees

variable (tree : DirectoryTree) (options : DiscoveryOptions)

/-- One of the entries is a directory of this name, which can be opened or not. -/
def HasDirectory (entries : List Entry) (name : OsString) : Prop :=
  (∃ sub, Entry.directory name sub ∈ entries) ∨ ∃ error, Entry.closedDirectory name error ∈ entries

/-- A directory that the traversal meets among the entries of a directory it visits, at a depth that
it goes to. -/
def Listed (dir : Path) (depth : ℕ) (entries : List Entry) (name : OsString) : Prop :=
  Ancestors options tree depth dir entries ∧ options.Allows (depth + 1) ∧ HasDirectory entries name

/-- A directory is skipped when the loop over the entries does not put it into the queue. -/
def Skipped (dir : Path) (depth : ℕ) (entries : List Entry) (name : OsString) : Prop :=
  ∀ pending ∈ (visitEntries options dir depth entries (⟨[], [], []⟩, [])).2,
    pending.path ≠ dir.push name

variable {tree options}

/-- A listed directory is skipped when the test says so. -/
theorem Listed.skipped_iff {dir : Path} {depth : ℕ} {entries : List Entry} {name : OsString}
    (h : Listed tree options dir depth entries name) :
    Skipped options dir depth entries name ↔ options.excludes (dir.push name) = true := by
  obtain ⟨-, hallows, hkind⟩ := h
  obtain ⟨hrec, hlimit⟩ := allows_succ_iff.mp hallows
  obtain ⟨warnings, hvisit⟩ := visitEntries_spec options dir depth entries ⟨[], [], []⟩ []
  unfold Skipped
  rw [hvisit]
  show (∀ pending ∈ children options ⟨dir, depth, .ok entries⟩, _) ↔ _
  constructor
  · intro hskipped
    by_contra hexcl
    rw [Bool.not_eq_true] at hexcl
    rcases hkind with ⟨sub, hmem⟩ | ⟨error, hmem⟩
    · refine hskipped ⟨dir.push name, depth + 1, .ok sub⟩ ((mem_children options).mpr ?_) rfl
      exact ⟨entries, rfl, hrec, hlimit, name, hexcl, Or.inl ⟨sub, hmem, rfl⟩⟩
    · refine hskipped ⟨dir.push name, depth + 1, .error error⟩ ((mem_children options).mpr ?_) rfl
      exact ⟨entries, rfl, hrec, hlimit, name, hexcl, Or.inr ⟨error, hmem, rfl⟩⟩
  · intro hexcl pending hpending hpath
    obtain ⟨_, -, -, -, other, hother, hqueued⟩ := (mem_children options).mp hpending
    have hother' : pending.path = dir.push other := by
      rcases hqueued with ⟨_, _, rfl⟩ | ⟨_, _, rfl⟩ <;> rfl
    rw [← hother', hpath, hexcl] at hother
    exact absurd hother (by decide)

variable (tree options)

/-- A directory at some depth with its entries, such that none on the way from the root to it, but
perhaps the root, is to be skipped. -/
inductive Unnamed : ℕ → Path → List Entry → Prop where
  | root : Unnamed 0 tree.path tree.entries
  | child {depth : ℕ} {dir : Path} {entries : List Entry} {name : OsString} {sub : List Entry}
      (h : Unnamed depth dir entries) (hmem : Entry.directory name sub ∈ entries)
      (hname : ¬ options.Names (dir.push name)) : Unnamed (depth + 1) (dir.push name) sub

/-- The images that are in no directory to be skipped: non-empty regular files with readable
metadata that are image candidates. -/
def Visible (file : Path) : Prop :=
  ∃ depth dir entries name len, Unnamed tree options depth dir entries ∧ options.Allows depth ∧
    Entry.file name (.ok len) ∈ entries ∧ 0 < len ∧ isVmImageCandidate (dir.push name) ∧
      file = dir.push name

/-- Discovery skips the listed directories that the excluded entries name and no others, and so
finds the images outside of them. -/
def SkipsTheNamed : Prop :=
  ∃ report, listVmsWithOptions tree.root options = .ok report ∧
    (∀ dir depth entries name, Listed tree options dir depth entries name →
      (Skipped options dir depth entries name ↔ options.Names (dir.push name))) ∧
    ∀ file, file ∈ report.images ↔ Visible tree options file

/-- Below no directory to be skipped, and at a depth that the traversal goes to, the last name of an
excluded path of several components is the name of a directory only when the excluded entries name
that directory. -/
def PathNamesKept : Prop :=
  ∀ dir depth entries name, Unnamed tree options depth dir entries → options.Allows (depth + 1) →
    HasDirectory entries name →
      ∀ excluded ∈ options.excludedDirectories, excluded.components.length ≠ 1 →
        excluded.fileName = some name → options.Names (dir.push name)

variable {tree options}

/-- A directory that is visited is not to be skipped. -/
theorem Ancestors.unnamed {depth : ℕ} {dir : Path} {entries : List Entry}
    (h : Ancestors options tree depth dir entries) : Unnamed tree options depth dir entries := by
  induction h with
  | root => exact .root
  | child _ hmem hexcl ih =>
    refine .child ih hmem fun hnames => ?_
    rw [hnames.excludes] at hexcl
    exact absurd hexcl (by decide)

/-- When the test skips the listed directories that the excluded entries name and no others, the
directories that are not to be skipped are visited. -/
theorem Unnamed.ancestors
    (hexact : ∀ dir depth entries name, Listed tree options dir depth entries name →
      (options.excludes (dir.push name) = true ↔ options.Names (dir.push name)))
    {depth : ℕ} {dir : Path} {entries : List Entry} (h : Unnamed tree options depth dir entries)
    (hallows : options.Allows depth) : Ancestors options tree depth dir entries := by
  induction h with
  | root => exact .root
  | @child depth dir entries name sub _ hmem hname ih =>
    have hanc := ih (allows_of_succ hallows)
    have hlisted : Listed tree options dir depth entries name :=
      ⟨hanc, hallows, Or.inl ⟨sub, hmem⟩⟩
    refine .child hanc hmem ?_
    rw [← Bool.not_eq_true, hexact dir depth entries name hlisted]
    exact hname

variable (tree options)

/-- Discovery skips exactly what the excluded entries name, when the last name of no excluded path
of several components is the name of another directory that is to be listed, and only then. -/
theorem skipsTheNamed_iff : SkipsTheNamed tree options ↔ PathNamesKept tree options := by
  constructor
  · rintro ⟨report, -, hskipped, -⟩ dir depth entries name hunnamed hallows hdirectory
    have hexact : ∀ dir depth entries name, Listed tree options dir depth entries name →
        (options.excludes (dir.push name) = true ↔ options.Names (dir.push name)) := by
      intro dir depth entries name hlisted
      rw [← hlisted.skipped_iff]
      exact hskipped dir depth entries name hlisted
    have hanc := hunnamed.ancestors hexact (allows_of_succ hallows)
    exact (options.excludes_iff_names dir name).mp
      (hexact dir depth entries name ⟨hanc, hallows, hdirectory⟩)
  · intro hkept
    have hexact : ∀ dir depth entries name, Listed tree options dir depth entries name →
        (options.excludes (dir.push name) = true ↔ options.Names (dir.push name)) := by
      rintro dir depth entries name ⟨hanc, hallows, hdirectory⟩
      exact (options.excludes_iff_names dir name).mpr
        (hkept dir depth entries name hanc.unnamed hallows hdirectory)
    obtain ⟨report, hreport, -, himages, -⟩ := listVmsWithOptions_report tree options
    refine ⟨report, hreport, ?_, fun file => (himages file).trans ?_⟩
    · intro dir depth entries name hlisted
      rw [hlisted.skipped_iff]
      exact hexact dir depth entries name hlisted
    · constructor
      · rintro ⟨depth, dir, entries, name, len, hanc, hrest⟩
        exact ⟨depth, dir, entries, name, len, hanc.unnamed, hrest⟩
      · rintro ⟨depth, dir, entries, name, len, hanc, hallows, hrest⟩
        exact ⟨depth, dir, entries, name, len, hanc.ancestors hexact hallows, hallows, hrest⟩

end Trees

/-! ## Two directories of one name -/

/-- A directory `vms` with directories `a` and `b`, each with a directory `x`, where `b/x` holds the
image `disk.raw`. -/
def homonymTree : DirectoryTree where
  path := ⟨[.normal [0x76, 0x6D, 0x73]]⟩
  entries := [.directory [0x61] [.directory [0x78] []],
    .directory [0x62] [.directory [0x78]
      [.file [0x64, 0x69, 0x73, 0x6B, 0x2E, 0x72, 0x61, 0x77] (.ok 1)]]]
  distinct := by
    refine .intro (by decide) fun name sub hmem => ?_
    simp only [List.mem_cons, Entry.directory.injEq, List.not_mem_nil, or_false] at hmem
    rcases hmem with ⟨-, rfl⟩ | ⟨-, rfl⟩
    all_goals
      refine .intro (by decide) fun name sub hmem => ?_
      simp only [List.mem_cons, Entry.directory.injEq, List.not_mem_nil, or_false] at hmem
      obtain ⟨-, rfl⟩ := hmem
      exact .intro (by decide) fun name sub hmem => by simp at hmem

/-- Options that exclude `vms/a/x`. -/
def homonymOptions : DiscoveryOptions where
  recursive := true
  excludedDirectories := [⟨[.normal [0x76, 0x6D, 0x73], .normal [0x61], .normal [0x78]]⟩]
  maxDepth := none

/-- The image of the sample, `vms/b/x/disk.raw`. -/
def homonymImage : Path :=
  ⟨[.normal [0x76, 0x6D, 0x73], .normal [0x62], .normal [0x78],
    .normal [0x64, 0x69, 0x73, 0x6B, 0x2E, 0x72, 0x61, 0x77]]⟩

/-- The directory that holds it. -/
def homonymDirectory : Path := ⟨[.normal [0x76, 0x6D, 0x73], .normal [0x62], .normal [0x78]]⟩

/-- No visited directory but perhaps the root is excluded. -/
theorem Ancestors.not_excluded {tree : DirectoryTree} {options : DiscoveryOptions} {depth : ℕ}
    {dir : Path} {entries : List Entry} (h : Ancestors options tree depth dir entries) :
    dir = tree.path ∨ options.excludes dir = false := by
  rcases h with _ | ⟨-, -, hexcl⟩
  · exact Or.inl rfl
  · exact Or.inr hexcl

/-- Excluding `vms/a/x` hides the image in `vms/b/x`. -/
theorem not_skipsTheNamed_homonym :
    (∃ report, listVmsWithOptions homonymTree.root homonymOptions = .ok report ∧
      homonymImage ∉ report.images) ∧
    Visible homonymTree homonymOptions homonymImage ∧ ¬ SkipsTheNamed homonymTree homonymOptions := by
  obtain ⟨report, hreport, -, himages, -⟩ := listVmsWithOptions_report homonymTree homonymOptions
  have hhidden : homonymImage ∉ report.images := by
    rw [himages]
    rintro ⟨depth, dir, entries, name, len, hanc, -, -, -, -, hfile⟩
    have hdir : dir = homonymDirectory := by
      have hinit := congrArg (fun p : Path => (⟨p.components.dropLast⟩ : Path)) hfile
      unfold Path.push at hinit
      rw [List.dropLast_concat] at hinit
      exact hinit.symm
    subst hdir
    rcases hanc.not_excluded with hroot | hexcl
    · exact absurd hroot (by decide)
    · exact absurd hexcl (by decide)
  have hnames (path : Path) (h : path ∉ homonymOptions.excludedDirectories) :
      ¬ homonymOptions.Names path := by
    rintro (hmem | ⟨name, hmem, -⟩)
    · exact h hmem
    · have hlength := congrArg (fun p : Path => p.components.length) (List.mem_singleton.mp hmem)
      exact absurd hlength (by simp)
  have hvisible : Visible homonymTree homonymOptions homonymImage := by
    refine ⟨2, homonymDirectory, _, [0x64, 0x69, 0x73, 0x6B, 0x2E, 0x72, 0x61, 0x77], 1,
      .child (.child .root (List.mem_cons_of_mem _ List.mem_cons_self) (hnames _ (by decide)))
        List.mem_cons_self (hnames _ (by decide)),
      ⟨fun hrec => absurd hrec (by decide), fun _ hlimit => absurd hlimit (by simp [homonymOptions])⟩,
      List.mem_cons_self, by decide, by decide, rfl⟩
  refine ⟨⟨report, hreport, hhidden⟩, hvisible, ?_⟩
  rintro ⟨report', hreport', -, himages'⟩
  obtain rfl := Except.ok.inj (hreport.symm.trans hreport')
  exact hhidden ((himages' homonymImage).mpr hvisible)

end VmSpect.Discovery
