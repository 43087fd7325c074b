import VmSpect.Lib.Returning
import VmSpect.Parsers.Deduplication
import VmSpect.Parsers.OsRelease

/-!
# What is reported of a Linux guest

From the files of a guest to the analysis: a `Guest` is what the files say (the release, the host
name, the packages, the paths that give guest tools away), and `GuestFiles` says that an open file
system has these files. `LinuxInspector::analyze` reports exactly that of the largest volume that
can be opened (`analyze_guest`). The crate is a parameter; its calls are only asked to return the
files, from whatever state reading leaves the view in.
-/

namespace VmSpect.Linux

open Polling
open Text (Trimmed isWhitespace trim)

/-! ## Tools among the packages -/

/-- The guest tools that a package stands for. -/
def toolsOf (program : Program) : Option GuestTools :=
  (toolsPackages.find? fun entry => entry.1.toList = program.name).map fun entry =>
    ⟨entry.2, program.version, true⟩

/-- The tools that are known are those of the first package that has some. -/
def DpkgState.Named (s : DpkgState) : Prop := s.guestTools = s.packages.findSome? toolsOf

/-- The end of a stanza keeps this. -/
theorem DpkgState.Named.processPackage {s : DpkgState} (h : s.Named) :
    (s.processPackage true).Named := by
  unfold Named at h ⊢
  unfold DpkgState.processPackage
  split
  · dsimp only
    rw [if_pos rfl, List.findSome?_append, h]
    congr 1
    rw [List.findSome?_cons]
    cases htools : toolsOf ⟨s.currentPkg, nonEmpty s.currentVer, nonEmpty s.currentSection, none⟩
      with
    | none => exact htools
    | some tools => exact htools
  · exact h

/-- So does every line. -/
theorem DpkgState.Named.line {s : DpkgState} (h : s.Named) (line : List Char) :
    (s.line true line).Named := by
  unfold DpkgState.line
  dsimp only
  split_ifs
  · exact h
  · exact h
  · exact h
  · exact h
  · exact h.processPackage
  · exact h

/-- So `parse_dpkg_status` names the tools of the first reported package that has some. -/
theorem parseDpkgStatus_tools {content : List Char} {options : Options}
    (happs : options.shouldAnalyzeApps = true) {programs : List Program}
    {tools : Option GuestTools}
    (h : (parseDpkgStatus content options).calm = some (programs, tools)) :
    tools = programs.findSome? toolsOf := by
  have hread : ∀ (lines : List (List Char)) (s : DpkgState), s.Named →
      (lines.foldl (DpkgState.line true) s).Named := by
    intro lines
    induction lines with
    | nil => exact fun s hs => hs
    | cons line rest ih => exact fun s hs => ih _ (hs.line line)
  rw [calm_parseDpkgStatus, happs, Option.some_inj] at h
  have hnamed := (hread (Text.lines content) {} rfl).processPackage
  obtain ⟨rfl, rfl⟩ := Prod.mk.inj h
  exact hnamed

/-! ## What a guest reports -/

/-- What the files of a guest say. -/
structure Guest where
  release : Release
  hostname : Option (List Char)
  stanzas : List Stanza
  /-- The paths that exist. -/
  present : String → Bool

namespace Guest

/-- The packages that `parse_dpkg_status` accepts. -/
def programs (guest : Guest) : List Program :=
  (guest.stanzas.filter (·.status.reported)).map Stanza.program

/-- The edition that the host name gives. -/
def edition (guest : Guest) : List Char :=
  match guest.hostname with
  | some text => if trim text = [] then [] else "Host: ".toList ++ trim text
  | none => []

/-- The tools of the first path that exists. -/
def pathTools (present : String → Bool) (entries : List (String × String)) : Option GuestTools :=
  (entries.find? fun entry => present entry.2).map fun entry => ⟨entry.1, none, true⟩

/-- What is reported: the tools are those of the packages or, when these name none, those that a
path gives away. -/
def reported (guest : Guest) : AnalysisResult where
  guestInfo := { guest.release.info with
    osEdition := guest.edition
    guestTools := (guest.programs.findSome? toolsOf).or
      (pathTools guest.present (toolsPaths.flatMap fun (kind, paths) => paths.map (kind, ·))) }
  programs := sortAndDedup guest.programs

end Guest

section Files

variable {ν : Type}

/-- An open file system is that of the guest, where `R` says what is read. -/
structure GuestFiles (R : Returning (Viewing ν)) (ext4 : Ext4Crate) (driver : VmDriver (Reading ν))
    (sb : ext4.SuperBlock) (guest : Guest) : Prop where
  release : ∃ text, guest.release.Written text ∧
    (R.outcome (readTextFile ext4 driver sb "/etc/os-release") (.ok text) ∨
      ∃ e, R.outcome (readTextFile ext4 driver sb "/etc/os-release") (.error e) ∧
        R.outcome (readTextFile ext4 driver sb "/usr/lib/os-release") (.ok text))
  hostname : match guest.hostname with
    | some text => R.outcome (readTextFile ext4 driver sb "/etc/hostname") (.ok text)
    | none => ∃ e, R.outcome (readTextFile ext4 driver sb "/etc/hostname") (.error e)
  packages : ∃ text, Database guest.stanzas text ∧
    R.outcome (readTextFile ext4 driver sb "/var/lib/dpkg/status") (.ok text)
  paths : ∀ path, if guest.present path
    then ∃ entry, R.returns ((ext4.resolvePath sb path).exec driver) (.ok entry)
    else ∃ e, R.returns ((ext4.resolvePath sb path).exec driver) (.error e)

/-- Code that only polls the token returns what it returns when the token is clear. -/
def Unpolled (R : Returning (Viewing ν)) : Prop :=
  ∀ {α : Type} {prog : Prog Site α} {a : α}, prog.calm = some a →
    R.returns (StateT.lift (StateT.lift prog)) a

variable {R : Returning (Viewing ν)} {ext4 : Ext4Crate} {driver : VmDriver (Reading ν)}
  {sb : ext4.SuperBlock} {guest : Guest}

namespace GuestFiles

/-- The release and the host name are what the files say. -/
theorem systemInfo_eq (h : GuestFiles R ext4 driver sb guest) :
    R.returns (systemInfo ext4 driver sb)
      { guest.release.info with osEdition := guest.edition } := by
  obtain ⟨text, hwritten, hread⟩ := h.release
  have hparse := guest.release.parse_eq hwritten
  have hrest {next : Except VmSpectError (List Char) → Viewing ν GuestInfo}
      (hok : ∀ hostname, next (.ok hostname) = pure (if trim hostname = [] then guest.release.info
        else { guest.release.info with osEdition := "Host: ".toList ++ trim hostname }))
      (herror : ∀ e, next (.error e) = pure guest.release.info) :
      R.returns ((readTextFile ext4 driver sb "/etc/hostname").run >>= next)
        { guest.release.info with osEdition := guest.edition } := by
    have hhost := h.hostname
    unfold Guest.edition
    cases hname : guest.hostname with
    | none =>
      rw [hname] at hhost
      obtain ⟨e, he⟩ := hhost
      refine R.returns_bind he ?_
      rw [herror]
      exact R.returns_pure _
    | some text =>
      rw [hname] at hhost
      refine R.returns_bind hhost ?_
      rw [hok]
      dsimp only
      split
      · exact R.returns_pure _
      · exact R.returns_pure _
  unfold systemInfo
  rcases hread with hread | ⟨e, hmissing, hread⟩
  · refine R.returns_bind hread (R.returns_bind (R.returns_pure _) ?_)
    dsimp only
    rw [hparse]
    exact hrest (fun _ => rfl) fun _ => rfl
  · refine R.returns_bind hmissing (R.returns_bind hread ?_)
    dsimp only
    rw [hparse]
    exact hrest (fun _ => rfl) fun _ => rfl

/-- The tools of the first path that exists are found. -/
theorem findTools_eq (h : GuestFiles R ext4 driver sb guest) (entries : List (String × String)) :
    R.returns (findTools ext4 driver sb entries) (Guest.pathTools guest.present entries) := by
  induction entries with
  | nil => exact R.returns_pure _
  | cons entry rest ih =>
    obtain ⟨kind, path⟩ := entry
    have hpath := h.paths path
    unfold findTools Guest.pathTools
    cases hpresent : guest.present path with
    | true =>
      rw [if_pos hpresent] at hpath
      obtain ⟨found, hfound⟩ := hpath
      have hfind : ((kind, path) :: rest).find? (fun entry => guest.present entry.2) =
          some (kind, path) := List.find?_cons_of_pos hpresent
      rw [hfind]
      exact R.returns_bind hfound (R.returns_pure _)
    | false =>
      have habsent : ¬ guest.present path = true := by
        rw [hpresent]
        exact Bool.false_ne_true
      rw [if_neg habsent] at hpath
      obtain ⟨e, he⟩ := hpath
      have hfind : ((kind, path) :: rest).find? (fun entry => guest.present entry.2) =
          rest.find? (fun entry => guest.present entry.2) := List.find?_cons_of_neg habsent
      rw [hfind]
      exact R.returns_bind he ih

/-- The analysis of the file system reports what the files say. -/
theorem analyzeFileSystem_eq (h : GuestFiles R ext4 driver sb guest) (hcalm : Unpolled R)
    {options : Options} (hsystem : options.shouldAnalyzeSystem = true)
    (happs : options.shouldAnalyzeApps = true) :
    R.returns (analyzeFileSystem ext4 driver sb options) guest.reported := by
  obtain ⟨text, hdatabase, hread⟩ := h.packages
  obtain ⟨named, hparse⟩ := hdatabase.calm_eq options happs
  have hnamed := parseDpkgStatus_tools happs hparse
  have htools := h.findTools_eq (toolsPaths.flatMap fun (kind, paths) => paths.map (kind, ·))
  unfold analyzeFileSystem Guest.reported Guest.programs
  rw [hsystem, happs, if_pos rfl, ← hnamed]
  refine R.returns_bind h.systemInfo_eq (R.returns_bind hread ?_)
  refine R.returns_bind (hcalm hparse) (R.returns_bind (R.returns_pure _) ?_)
  cases named with
  | none => exact R.returns_bind htools (R.returns_bind (R.returns_pure _) (R.returns_pure _))
  | some found => exact R.returns_bind (R.returns_pure _) (R.returns_pure _)

end GuestFiles

end Files

/-! ## Volumes -/

section Volumes

variable {ν : Type} {ext4 : Ext4Crate} {driver : VmDriver (Reading ν)} {sb : ext4.SuperBlock}

/-- The views of the volumes: the fresh ones, and those that reading leaves. -/
structure Views (chunkSize : ℕ) where
  of : Partition → VirtualDisk → Prop
  fresh : ∀ p : Partition, ∃ view, VirtualDisk.new p.start p.size chunkSize = some view ∧ of p view

variable {chunkSize : ℕ}

/-- What code on a view of the volume returns. -/
def Views.runs (views : Views chunkSize) (R : Returning (Reading ν)) (p : Partition) :
    Returning (Viewing ν) :=
  R.stateT (views.of p) ((views.fresh p).imp fun _ h => h.2)

variable {views : Views chunkSize} {R : Returning (Reading ν)}

/-- What a fresh view returns. -/
theorem Views.returns_withView {p : Partition} {body : Viewing ν α} {a : α}
    (h : (views.runs R p).returns body a) :
    R.returns (withView p.start p.size chunkSize body) a := by
  obtain ⟨view, hnew, hview⟩ := views.fresh p
  obtain ⟨after, hrun, -⟩ := h view hview
  unfold withView
  rw [hnew]
  exact R.returns_bind hrun (R.returns_pure _)

/-- The volumes that are tried, the largest first. -/
def candidates (partitions : List Partition) : List Partition :=
  (partitions.filter fun p => p.fileSystem ∈ [.ext4, .ext3, .ext2]).mergeSort
    fun a b => decide (b.size ≤ a.size)

/-- The first volume that can be opened is analysed. -/
theorem tryCandidates_eq {options : Options} {skipped : List Partition} {p : Partition}
    (rest : List Partition)
    (hskipped : ∀ q ∈ skipped, ∃ e, (views.runs R q).returns (ext4.new.exec driver) (.error e))
    (hopen : (views.runs R p).returns (ext4.new.exec driver) (.ok sb)) {result : AnalysisResult}
    (hresult : (views.runs R p).returns (analyzeFileSystem ext4 driver sb options) result) :
    R.returns (tryCandidates ext4 driver chunkSize options (skipped ++ p :: rest))
      (some result) := by
  induction skipped with
  | nil =>
    rw [List.nil_append]
    unfold tryCandidates
    refine R.returns_bind (a := some result)
      (Views.returns_withView (Returning.returns_bind _ hopen ?_)) (R.returns_pure _)
    dsimp only
    rw [map_eq_pure_bind]
    exact Returning.returns_bind _ hresult (Returning.returns_pure _ _)
  | cons q skipped ih =>
    obtain ⟨hq, hskipped⟩ := List.forall_mem_cons.mp hskipped
    obtain ⟨e, he⟩ := hq
    rw [List.cons_append]
    unfold tryCandidates
    exact R.returns_bind (a := none)
      (Views.returns_withView (Returning.returns_bind _ he (Returning.returns_pure _ _)))
      (ih hskipped)

/-- Undisturbed runs, in worlds of some kind. -/
def undisturbed (worlds : World ν → Prop) (h : ∃ world, worlds world) : Returning (Reading ν) :=
  Returning.calm worlds h

/-- On these views, code that only polls the token returns its calm value. -/
theorem Views.unpolled (views : Views chunkSize) {worlds : World ν → Prop}
    (h : ∃ world, worlds world) (p : Partition) :
    Unpolled (views.runs (undisturbed worlds h) p) := by
  intro α prog a hprog view hview
  refine ⟨view, fun world hworld => ⟨world, ?_, hworld⟩, hview⟩
  have hlift : Prog.calmFrom (StateT.lift prog : Reading ν α) world = some (a, world) := by
    rw [Prog.calmFrom_lift, hprog]
    rfl
  have hrun : ((StateT.lift (StateT.lift prog) : Viewing ν α).run view) =
      (StateT.lift prog : Reading ν α) >>= fun a => pure (a, view) := rfl
  rw [hrun, Prog.calmFrom_bind, hlift]
  rfl

/-- An undisturbed analysis of a Linux guest reports what the files of the guest say, where the
guest is the largest volume that can be opened: its name and its version as the release gives them,
in whatever order and with whatever quotes, the host name, the packages that `parse_dpkg_status`
accepts, and the guest tools. -/
theorem analyze_guest {worlds : World ν → Prop} (hworlds : ∃ world, worlds world)
    {options : Options} (hsystem : options.shouldAnalyzeSystem = true)
    (happs : options.shouldAnalyzeApps = true) {partitions skipped rest : List Partition}
    {p : Partition} (hcandidates : candidates partitions = skipped ++ p :: rest)
    (hskipped : ∀ q ∈ skipped, ∃ e,
      (views.runs (undisturbed worlds hworlds) q).returns (ext4.new.exec driver) (.error e))
    (hopen : (views.runs (undisturbed worlds hworlds) p).returns (ext4.new.exec driver) (.ok sb))
    {guest : Guest}
    (hfiles : GuestFiles (views.runs (undisturbed worlds hworlds) p) ext4 driver sb guest) :
    (undisturbed worlds hworlds).returns (analyze ext4 driver partitions chunkSize options)
      (.ok guest.reported) := by
  have hresult := hfiles.analyzeFileSystem_eq (views.unpolled hworlds p) hsystem happs
  have htried := tryCandidates_eq rest hskipped hopen hresult
  rw [← hcandidates] at htried
  unfold analyze
  rw [hsystem, happs]
  exact Returning.returns_bind _ htried (Returning.returns_pure _ _)

end Volumes

/-! ## A guest with a package -/

/-- An assignment of a word to a key, quoted in any way. -/
def releaseLine (key value : String) (quoting : Quoting)
    (hkey : key.toList.all (fun c => !isWhitespace c && c != '=' && c != '#') = true)
    (hvalue : value.toList.all (fun c => !isWhitespace c && c != '"' && c != '\'') = true) :
    ReleaseLine :=
  have hchars : ∀ c ∈ value.toList, isWhitespace c = false ∧ c ≠ '"' ∧ c ≠ '\'' := by
    intro c hc
    simpa [and_assoc] using List.all_eq_true.mp hvalue c hc
  .assign key.toList
    { text := value.toList
      quoting
      feed_not_mem := fun hmem => absurd (hchars _ hmem).1 (by decide)
      no_quotes := Trimmed.of_forall fun c hc => by simp [(hchars c hc).2.1, (hchars c hc).2.2]
      no_blanks := fun _ => Trimmed.of_forall fun c hc => (hchars c hc).1 }
    (fun c hc => by
      have h := List.all_eq_true.mp hkey c hc
      simp only [Bool.and_eq_true, bne_iff_ne, Bool.not_eq_true'] at h
      exact ⟨h.1.1, h.1.2⟩)
    (by
      intro hhead
      have h := List.all_eq_true.mp hkey '#' (List.mem_of_mem_head? hhead)
      simp at h)

/-- The release of the guest. -/
def boxRelease : Release where
  prettyName := some "Box-12".toList
  name := some "Box".toList
  versionId := some "12".toList
  lines := [releaseLine "NAME" "Box" .bare (by decide) (by decide),
    releaseLine "VERSION_ID" "12" .double (by decide) (by decide),
    releaseLine "PRETTY_NAME" "Box-12" .single (by decide) (by decide)]
  pretty_ne := by decide
  pretty_lines := by decide
  name_lines := by decide
  version_lines := by decide

/-- Its package. -/
def boxStanza : Stanza where
  name := Word.ofText "qemu-guest-agent" (by decide)
  status := ⟨.install, .ok, .installed⟩
  version := some (Word.ofText "7.2" (by decide))
  section_ := none
  lines := [.package (Word.ofText "qemu-guest-agent" (by decide)),
    .status ⟨.install, .ok, .installed⟩, .version (Word.ofText "7.2" (by decide))]
  package_lines := rfl
  status_lines := rfl
  version_lines := rfl
  section_lines := rfl

/-- Its files. -/
def boxFile (path : String) : Option (List Char) :=
  if path = "/etc/os-release" then
    some "NAME=Box\nVERSION_ID=\"12\"\nPRETTY_NAME='Box-12'\n".toList
  else if path = "/etc/hostname" then some "box\n".toList
  else if path = "/var/lib/dpkg/status" then
    some "Package: qemu-guest-agent\nStatus: install ok installed\nVersion: 7.2\n".toList
  else none

/-- The guest. -/
def box : Guest := ⟨boxRelease, some "box\n".toList, [boxStanza], fun path => (boxFile path).isSome⟩

/-- A file system with the files. -/
def boxExt4 : Ext4Crate where
  SuperBlock := Unit
  DirEntry := List Char
  Inode := List Char
  Reader := List Char
  new := .ret (.ok ())
  resolvePath _ path := .ret (match boxFile path with
    | some content => .ok content
    | none => .error "NotFound")
  loadInode _ content := .ret (.ok content)
  openInode _ content := .ret (.ok content)
  readToEnd content := .ret (.ok (content.map fun c => UInt8.ofNat c.toNat))

/-- A call of the crate whose error is named. -/
theorem outcome_mapError {ν : Type} {R : Returning (Viewing ν)} {α ε : Type}
    {x : Viewing ν (Except ε α)} {a : α} (h : R.returns x (.ok a)) (f : ε → VmSpectError) :
    R.outcome (ExceptT.mk ((·.mapError f) <$> x)) (.ok a) := by
  unfold Returning.outcome
  rw [ExceptT.run_mk, map_eq_pure_bind]
  exact R.returns_bind h (R.returns_pure _)

/-- A path of the guest. -/
theorem resolvePath_box {path : String} {found : Option (List Char)} (h : boxFile path = found) :
    boxExt4.resolvePath () path =
      .ret (found.elim (.error "NotFound") fun content => .ok content) := by
  show DiskProg.ret _ = _
  rw [h]
  cases found <;> rfl

/-- A file of the guest is read. -/
theorem readTextFile_box (R : Returning (Viewing Unit)) {path : String} {content : List Char}
    (hfile : boxFile path = some content)
    (htext : Text.fromUtf8Lossy (content.map fun c => UInt8.ofNat c.toNat) = content) :
    R.outcome (readTextFile boxExt4 idleDriver () path) (.ok content) := by
  have hret {α : Type} (a : α) : R.returns ((DiskProg.ret a).exec idleDriver) a := R.returns_pure a
  unfold readTextFile
  dsimp only
  rw [resolvePath_box hfile]
  refine Returning.outcome_bind (outcome_mapError (hret _) _) ?_
  refine Returning.outcome_bind (outcome_mapError (hret _) _) ?_
  refine Returning.outcome_bind (outcome_mapError (hret _) _) ?_
  refine Returning.outcome_bind (outcome_mapError (hret _) _) ?_
  rw [htext]
  exact Returning.outcome_pure content

/-- The files of the guest are read. -/
theorem box_files (R : Returning (Viewing Unit)) : GuestFiles R boxExt4 idleDriver () box where
  release := ⟨_, Or.inl rfl, Or.inl (readTextFile_box R (by decide +kernel) (by decide +kernel))⟩
  hostname := readTextFile_box R (by decide +kernel) (by decide +kernel)
  packages := ⟨_, ⟨_, .last boxStanza, Or.inl rfl⟩,
    readTextFile_box R (by decide +kernel) (by decide +kernel)⟩
  paths path := by
    have hpresent : box.present path = (boxFile path).isSome := rfl
    rcases hfile : boxFile path with _ | content
    · rw [if_neg (by rw [hpresent, hfile]; exact Bool.false_ne_true), resolvePath_box hfile]
      exact ⟨_, R.returns_pure _⟩
    · rw [if_pos (by rw [hpresent, hfile]; rfl), resolvePath_box hfile]
      exact ⟨_, R.returns_pure _⟩

/-- The views of the volume. -/
def boxViews : Views 512 where
  of _ _ := True
  fresh _ := ⟨_, rfl, trivial⟩

/-- The volume of the guest. -/
def boxVolume : Partition := ⟨0, 1024, 4096, "Linux (0x83)", .ext4, none⟩

/-- The report of the guest. -/
theorem analyze_guest_box :
    box.reported = {
      guestInfo := {
        osName := "Box-12".toList
        osEdition := "Host: box".toList
        osBuild := "12".toList
        guestTools := some ⟨"QEMU Guest Agent", some "7.2".toList, true⟩ }
      programs := [⟨"qemu-guest-agent".toList, some "7.2".toList, none, none⟩] } ∧
    (undisturbed (fun _ => True) ⟨idleWorld, trivial⟩).returns
      (analyze boxExt4 idleDriver [boxVolume] 512 appsOptions) (.ok box.reported) := by
  have hcandidates : candidates [boxVolume] = [] ++ boxVolume :: [] := by
    unfold candidates
    rw [show [boxVolume].filter (fun p => p.fileSystem ∈ [.ext4, .ext3, .ext2]) = [boxVolume] from
      rfl, List.mergeSort_singleton]
    rfl
  have hopen : (boxViews.runs (undisturbed (fun _ => True) ⟨idleWorld, trivial⟩) boxVolume).returns
      (boxExt4.new.exec idleDriver) (.ok ()) := Returning.returns_pure _ _
  exact ⟨by decide +kernel, analyze_guest _ rfl rfl hcandidates
    (fun _ hq => absurd hq List.not_mem_nil) hopen (box_files _)⟩

end VmSpect.Linux
