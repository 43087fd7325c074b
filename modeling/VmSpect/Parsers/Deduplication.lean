import VmSpect.Lib.Grouping
import VmSpect.Parsers.Linux
import VmSpect.Parsers.Windows

/-!
# Lists of programs without duplicates

`search_programs_in_registry` and `analyze_file_system` sort the programs by their names and then
drop every program that agrees with the last one kept in name and version. Versions are not part of
the sort, so equal programs need not become neighbours: they do when the versions of each name stood
together in the list that was collected (`sortAndDedup_iff`).
-/

namespace VmSpect

open Polling Grouping

/-- What two programs are compared by. -/
def Program.key (p : Program) : List Char × Option (List Char) := (p.name, p.version)

/-- The list is sorted by name, has no two programs of equal name and version, and has every name
and version that occurs in the input. -/
structure Deduplicated (input output : List Program) : Prop where
  sorted : output.Pairwise fun a b => a.name ≤ b.name
  distinct : (output.map Program.key).Nodup
  complete : ∀ p ∈ input, ∃ q ∈ output, q.name = p.name ∧ q.version = p.version

/-- Between two programs of one name and version there is none of that name and another version. -/
def VersionsTogether (programs : List Program) : Prop :=
  ∀ a b c, [a, b, c].Sublist programs → a.name = b.name → b.name = c.name →
    a.version = c.version → b.version = a.version

/-! ## Sorting and removing neighbours -/

/-- The two steps of the source are a stable sort and `List.destutter`. -/
theorem sortAndDedup_eq (programs : List Program) :
    sortAndDedup programs = (sortBy Program.name programs).destutter (Differs Program.key) := by
  rw [← foldl_eq_destutter]
  refine congrArg List.reverse (congrArg (fun step => List.foldl step [] _) ?_)
  funext kept p
  cases kept with
  | nil => rfl
  | cons last rest =>
    exact if_congr (by rw [Program.key, Program.key, Prod.mk.injEq]) rfl rfl

/-- The versions stand together if the programs do after the sort. -/
theorem together_iff (programs : List Program) :
    Together Program.key (sortBy Program.name programs) ↔ VersionsTogether programs := by
  rw [together_sortBy_iff Program.key Program.name fun a b h => congrArg Prod.fst h]
  unfold VersionsTogether
  refine forall_congr' fun a => forall_congr' fun b => forall_congr' fun c => ?_
  refine imp_congr_right fun _ => imp_congr_right fun hab => imp_congr_right fun hbc => ?_
  simp only [Program.key, Prod.mk.injEq, hab.trans hbc, hbc, true_and]

/-- The list is sorted in any case. -/
theorem sorted_sortAndDedup (programs : List Program) :
    (sortAndDedup programs).Pairwise fun a b => a.name ≤ b.name := by
  rw [sortAndDedup_eq]
  exact (pairwise_sortBy Program.name programs).sublist (List.destutter_sublist _ _)

/-- And it is complete in any case. -/
theorem complete_sortAndDedup (programs : List Program) :
    ∀ p ∈ programs, ∃ q ∈ sortAndDedup programs, q.name = p.name ∧ q.version = p.version := by
  intro p hp
  have hkey : p.key ∈ (sortBy Program.name programs).map Program.key :=
    List.mem_map_of_mem (List.mem_mergeSort.mpr hp)
  rw [← mem_map_destutter, ← sortAndDedup_eq] at hkey
  obtain ⟨q, hq, hqp⟩ := List.mem_map.mp hkey
  exact ⟨q, hq, congrArg Prod.fst hqp, congrArg Prod.snd hqp⟩

/-- There are no duplicates if the versions stood together. -/
theorem sortAndDedup_iff (programs : List Program) :
    Deduplicated programs (sortAndDedup programs) ↔ VersionsTogether programs := by
  have hdistinct : ((sortAndDedup programs).map Program.key).Nodup ↔ VersionsTogether programs := by
    rw [sortAndDedup_eq, nodup_destutter_iff, together_iff]
  refine ⟨fun h => hdistinct.mp h.distinct, fun h => ?_⟩
  exact ⟨sorted_sortAndDedup programs, hdistinct.mpr h, complete_sortAndDedup programs⟩

/-! ## The two lists of programs -/

section Collected

variable {ν : Type} (hive : HiveCrate) (ext4 : Ext4Crate) (driver : VmDriver (Reading ν))
  (sb : ext4.SuperBlock) (options : Options)

/-- The registry's list is made of the programs that the loop over the uninstall keys collects. -/
theorem Windows.searchProgramsInRegistry_run {root : hive.KeyNode} {left rest : ℕ}
    {collected : List Program}
    (h : (Windows.searchPaths hive root Windows.uninstallPaths []).run left =
      (some collected, rest)) :
    (Windows.searchProgramsInRegistry hive root).run left =
      (some (sortAndDedup collected), rest) := by
  rw [Windows.searchProgramsInRegistry, map_eq_pure_bind, Prog.run_bind, h]
  rfl

/-- What `analyze_file_system` finds, with the programs as the stanzas of `dpkg` give them. -/
def Linux.collectFileSystem : Viewing ν AnalysisResult := do
  let info ← if options.shouldAnalyzeSystem then Linux.systemInfo ext4 driver sb else pure {}
  let (programs, info) ←
    match ← (Linux.readTextFile ext4 driver sb "/var/lib/dpkg/status").run with
    | .ok dpkgStatus => do
      let (pkgs, tools) ← StateT.lift (StateT.lift (Linux.parseDpkgStatus dpkgStatus options))
      let programs := if options.shouldAnalyzeApps then pkgs else []
      pure (programs, if options.shouldAnalyzeSystem && tools.isSome then
          { info with guestTools := tools }
        else info)
    | .error _ => pure ([], info)
  let info ← if options.shouldAnalyzeSystem && info.guestTools.isNone then do
      let tools ← Linux.detectGuestToolsLinuxFiles ext4 driver sb
      pure { info with guestTools := tools }
    else pure info
  pure { guestInfo := info, programs := programs }

/-- The list of a Linux guest is made of those programs. -/
theorem Linux.analyzeFileSystem_eq (happs : options.shouldAnalyzeApps = true) :
    Linux.analyzeFileSystem ext4 driver sb options =
      (fun found => { found with programs := sortAndDedup found.programs }) <$>
        Linux.collectFileSystem ext4 driver sb options := by
  rw [map_eq_pure_bind]
  unfold Linux.analyzeFileSystem Linux.collectFileSystem
  -- The two differ after the last step only, in each of the branches.
  cases hsystem : options.shouldAnalyzeSystem with
  | false =>
    simp only [happs, if_true, Bool.false_eq_true, if_false, Bool.false_and, pure_bind, bind_assoc]
    refine bind_congr fun read => ?_
    cases read with
    | ok dpkgStatus => simp only [pure_bind, bind_assoc]
    | error e => rfl
  | true =>
    simp only [happs, if_true, Bool.true_and, pure_bind, bind_assoc]
    refine bind_congr fun info => bind_congr fun read => ?_
    cases read with
    | ok dpkgStatus =>
      simp only [bind_assoc]
      refine bind_congr fun parsed => ?_
      generalize (if parsed.2.isSome = true then { info with guestTools := parsed.2 } else info) =
        withTools
      split
      · simp only [bind_assoc, pure_bind]
      · rfl
    | error e =>
      dsimp only
      split
      · simp only [bind_assoc, pure_bind]
      · rfl

/-- So a run that collects programs returns them sorted, and without those that agree with the one
kept before. -/
theorem Linux.analyzeFileSystem_run (happs : options.shouldAnalyzeApps = true)
    {disk disk' : VirtualDisk} {world world' : World ν} {left rest : ℕ} {found : AnalysisResult}
    (h : (((Linux.collectFileSystem ext4 driver sb options).run disk).run world).run left =
      (some ((found, disk'), world'), rest)) :
    (((Linux.analyzeFileSystem ext4 driver sb options).run disk).run world).run left =
      (some (({ found with programs := sortAndDedup found.programs }, disk'), world'), rest) := by
  rw [Linux.analyzeFileSystem_eq ext4 driver sb options happs, StateT.run_map, StateT.run_map,
    map_eq_pure_bind, Prog.run_bind, h]
  rfl

end Collected

/-- In every run, each of the two lists is free of duplicates, sorted and complete if and only if
the versions of each name stood together among the programs that were collected. -/
theorem programs_deduplicated_iff {ν : Type} (hive : HiveCrate) (root : hive.KeyNode)
    (ext4 : Ext4Crate) (driver : VmDriver (Reading ν)) (sb : ext4.SuperBlock) (options : Options)
    (left rest : ℕ) :
    (∀ collected,
      (Windows.searchPaths hive root Windows.uninstallPaths []).run left = (some collected, rest) →
      ∃ programs, (Windows.searchProgramsInRegistry hive root).run left = (some programs, rest) ∧
        (Deduplicated collected programs ↔ VersionsTogether collected)) ∧
    (options.shouldAnalyzeApps = true → ∀ disk disk' world world' found,
      (((Linux.collectFileSystem ext4 driver sb options).run disk).run world).run left =
        (some ((found, disk'), world'), rest) →
      ∃ result, (((Linux.analyzeFileSystem ext4 driver sb options).run disk).run world).run left =
          (some ((result, disk'), world'), rest) ∧
        (Deduplicated found.programs result.programs ↔ VersionsTogether found.programs)) := by
  constructor
  · intro collected h
    exact ⟨_, Windows.searchProgramsInRegistry_run hive h, sortAndDedup_iff collected⟩
  · intro happs disk disk' world world' found h
    exact ⟨_, Linux.analyzeFileSystem_run ext4 driver sb options happs h,
      sortAndDedup_iff found.programs⟩

/-! ## A program in both views of the registry -/

/-- A key of the sample registry: its name, its subkeys, and its values. -/
structure SampleKey where
  name : String
  subkeys : List ℕ := []
  values : List (String × String) := []

/-- A registry in which one program is installed in two versions, and the older one is also listed
in the 32-bit view. -/
def sampleKeys : List SampleKey :=
  [{ name := "ROOT", subkeys := [1, 7] },
    { name := "Microsoft", subkeys := [2] },
    { name := "Windows", subkeys := [3] },
    { name := "CurrentVersion", subkeys := [4] },
    { name := "Uninstall", subkeys := [5, 6] },
    { name := "old", values := [("DisplayName", "T"), ("DisplayVersion", "1")] },
    { name := "new", values := [("DisplayName", "T"), ("DisplayVersion", "2")] },
    { name := "WOW6432Node", subkeys := [8] },
    { name := "Microsoft", subkeys := [9] },
    { name := "Windows", subkeys := [10] },
    { name := "CurrentVersion", subkeys := [11] },
    { name := "Uninstall", subkeys := [12] },
    { name := "old", values := [("DisplayName", "T"), ("DisplayVersion", "1")] }]

/-- The registry with these keys. -/
def sampleRegistry : HiveCrate where
  Hive := Unit
  KeyNode := ℕ
  KeyValue := String × String
  new _ := some (.ok ())
  withoutValidation _ := some (.ok ())
  rootKeyNode _ := some (.ok 0)
  subkeys n := ((sampleKeys[n]?).map fun key => key.subkeys.map some).getD []
  values n := ((sampleKeys[n]?).map fun key => key.values.map some).getD []
  keyName n := some ((sampleKeys[n]?).map fun key => key.name.toList)
  valueName value := some (some value.1.toList)
  valueData value := some (some (value.2.toList.flatMap fun c => [UInt8.ofNat c.toNat, 0]))

/-- The programs of the sample registry, in the order of the keys. -/
def samplePrograms : List Program :=
  [⟨['T'], some ['1'], none, none⟩, ⟨['T'], some ['2'], none, none⟩, ⟨['T'], some ['1'], none, none⟩]

/-- They are collected. -/
theorem samplePrograms_collected :
    (Windows.searchPaths sampleRegistry (0 : ℕ) Windows.uninstallPaths []).run 9 =
      (some samplePrograms, 6) := by
  decide +kernel

/-- A guest whose only file is the list of packages. -/
def sampleDpkg : Ext4Crate where
  SuperBlock := Unit
  DirEntry := String
  Inode := String
  Reader := String
  new := .ret (.ok ())
  resolvePath _ path := .ret (.ok path)
  loadInode _ path := .ret (.ok path)
  openInode _ path := .ret (if path = "/var/lib/dpkg/status" then .ok path else .error "NotFound")
  readToEnd _ := .ret (.ok ("Package: t\nStatus: install ok installed\nVersion: 1\n\n".toList.map
    fun c => UInt8.ofNat c.toNat))

/-- Only the applications are asked for. -/
def appsOnly : Options := ⟨false, true, false, none, none, false, none⟩

/-- A view of nothing. -/
def idleView : VirtualDisk := ⟨0, 0, 0, 512, [], 4, by decide⟩

/-- The package that the list shows. -/
def samplePackage : Program := ⟨['t'], some ['1'], none, none⟩

/-- The package is collected. -/
theorem samplePackage_collected :
    (((Linux.collectFileSystem sampleDpkg idleDriver () appsOnly).run idleView).run idleWorld).run 9 =
      (some (({ programs := [samplePackage] }, idleView), idleWorld), 5) := by
  with_unfolding_all rfl

/-- The equivalence for the sample registry and the sample list of packages. -/
theorem programs_deduplicated_iff_sample :
    (∃ programs, (Windows.searchProgramsInRegistry sampleRegistry (0 : ℕ)).run 9 =
        (some programs, 6) ∧
      (Deduplicated samplePrograms programs ↔ VersionsTogether samplePrograms)) ∧
    (∃ result, (((Linux.analyzeFileSystem sampleDpkg idleDriver () appsOnly).run idleView).run
        idleWorld).run 9 = (some ((result, idleView), idleWorld), 5) ∧
      (Deduplicated [samplePackage] result.programs ↔ VersionsTogether [samplePackage])) := by
  have hregistry := (programs_deduplicated_iff sampleRegistry (0 : ℕ) sampleDpkg idleDriver ()
    appsOnly 9 6).1 samplePrograms samplePrograms_collected
  have hdpkg := (programs_deduplicated_iff sampleRegistry (0 : ℕ) sampleDpkg idleDriver ()
    appsOnly 9 5).2 rfl idleView idleView idleWorld idleWorld _ samplePackage_collected
  exact ⟨hregistry, hdpkg⟩

/-- The older version is listed twice, with the newer one between. -/
theorem sampleRegistry_duplicates :
    ∃ programs, (Windows.searchProgramsInRegistry sampleRegistry (0 : ℕ)).run 9 =
        (some programs, 6) ∧
      programs.map Program.key =
        [(['T'], some ['1']), (['T'], some ['2']), (['T'], some ['1'])] ∧
      ¬Deduplicated samplePrograms programs := by
  -- All three have one name, so the sort leaves them where they are.
  have hsorted : sortBy Program.name samplePrograms = samplePrograms :=
    List.mergeSort_of_pairwise (by decide)
  have hkeys : (sortAndDedup samplePrograms).map Program.key =
      [(['T'], some ['1']), (['T'], some ['2']), (['T'], some ['1'])] := by
    rw [sortAndDedup_eq, hsorted]
    decide
  refine ⟨sortAndDedup samplePrograms, ?_, hkeys, fun h => ?_⟩
  · exact Windows.searchProgramsInRegistry_run sampleRegistry samplePrograms_collected
  · have hdistinct := h.distinct
    rw [hkeys] at hdistinct
    exact absurd hdistinct (by decide)

end VmSpect
