import VmSpect.Models.Report
import VmSpect.Parsers.Crates

/-!
# Linux guests

`src/parsers/linux.rs`: the release, the host name, the packages of `dpkg` and the guest tools, from
the first ext partition that can be read.
-/

namespace VmSpect.Linux

open Polling

variable {ν : Type}

/-! ## Texts -/

/-- `trim_start_matches` with a text: as often as it stands at the front. -/
def trimStartText (pattern text : List Char) : List Char :=
  match pattern with
  | [] => text
  | c :: cs =>
    match text with
    | [] => []
    | d :: ds =>
      if (c :: cs).isPrefixOf (d :: ds) then trimStartText (c :: cs) ((d :: ds).drop (c :: cs).length)
      else d :: ds
  termination_by text.length

/-- `contains` with a text. -/
def containsText (pattern text : List Char) : Bool := text.tails.any (pattern.isPrefixOf ·)

/-- `parse_os_release`, one line. -/
def osReleaseLine (info : GuestInfo) (line : List Char) : GuestInfo :=
  let line := Text.trim line
  if line.head? = some '#' then info
  else
    match Text.splitOnce '=' line with
    | none => info
    | some (key, value) =>
      let key := Text.trim key
      let value :=
        Text.trimMatches (· = '\'') (Text.trimMatches (· = '"') (Text.trim value))
      if key = "PRETTY_NAME".toList then { info with osName := value }
      else if key = "VERSION_ID".toList ∧ info.osBuild = [] then { info with osBuild := value }
      else if key = "NAME".toList ∧ info.osName = [] then { info with osName := value }
      else info

/-- `parse_os_release`. -/
def parseOsRelease (content : List Char) (info : GuestInfo) : GuestInfo :=
  (Text.lines content).foldl osReleaseLine info

/-! ## The packages -/

/-- The packages that name guest tools, with the kind of tools. -/
def toolsPackages : List (String × String) :=
  [("open-vm-tools", "VMware Tools"),
    ("open-vm-tools-desktop", "VMware Tools"),
    ("virtualbox-guest-utils", "VirtualBox Guest Additions"),
    ("virtualbox-guest-x11", "VirtualBox Guest Additions"),
    ("virtualbox-guest-dkms", "VirtualBox Guest Additions"),
    ("virtualbox-guest-additions-iso", "VirtualBox Guest Additions"),
    ("qemu-guest-agent", "QEMU Guest Agent"),
    ("hyperv-daemons", "Hyper-V Integration Services"),
    ("hv-kvp-daemon-init", "Hyper-V Integration Services"),
    ("linux-cloud-tools-virtual", "Hyper-V Integration Services")]

/-- A text that is left out when it is empty. -/
def nonEmpty (text : List Char) : Option (List Char) := if text = [] then none else some text

/-- The state of `parse_dpkg_status`: what was collected, and the stanza that is being read. -/
structure DpkgState where
  packages : List Program := []
  guestTools : Option GuestTools := none
  currentPkg : List Char := []
  currentVer : List Char := []
  currentSection : List Char := []
  installed : Bool := false
  deriving DecidableEq, Repr

/-- `process_package`. -/
def DpkgState.processPackage (shouldApps : Bool) (s : DpkgState) : DpkgState :=
  if s.installed ∧ s.currentPkg ≠ [] then
    let found := (toolsPackages.find? fun entry => entry.1.toList = s.currentPkg).map fun entry =>
      (⟨entry.2, nonEmpty s.currentVer, true⟩ : GuestTools)
    { s with
      guestTools := s.guestTools.or found
      packages := if shouldApps then
          s.packages ++ [⟨s.currentPkg, nonEmpty s.currentVer, nonEmpty s.currentSection, none⟩]
        else s.packages }
  else s

/-- One line of `parse_dpkg_status`. -/
def DpkgState.line (shouldApps : Bool) (s : DpkgState) (line : List Char) : DpkgState :=
  let field (name : String) : List Char := Text.trim (trimStartText name.toList line)
  if "Package: ".toList.isPrefixOf line then { s with currentPkg := field "Package: " }
  else if "Status: ".toList.isPrefixOf line then
    { s with installed := containsText "install ok installed".toList line }
  else if "Version: ".toList.isPrefixOf line then { s with currentVer := field "Version: " }
  else if "Section: ".toList.isPrefixOf line then { s with currentSection := field "Section: " }
  else if Text.trim line = [] then
    { s.processPackage shouldApps with
      currentPkg := [], currentVer := [], currentSection := [], installed := false }
  else s

/-- The loop of `parse_dpkg_status`, which ends early when the token is set. -/
def dpkgLines (shouldApps : Bool) : List (List Char) → DpkgState → Prog Site DpkgState
  | [], s => pure s
  | line :: rest, s => do
    if ← Prog.poll .dpkg then pure s else dpkgLines shouldApps rest (s.line shouldApps line)

/-- `parse_dpkg_status`. -/
def parseDpkgStatus (content : List Char) (options : Options) :
    Prog Site (List Program × Option GuestTools) := do
  let s ← dpkgLines options.shouldAnalyzeApps (Text.lines content) {}
  let s := s.processPackage options.shouldAnalyzeApps
  pure (s.packages, s.guestTools)

/-! ## The file system -/

section FileSystem

variable (ext4 : Ext4Crate) (driver : VmDriver (Reading ν)) (sb : ext4.SuperBlock)

/-- `read_text_file`. -/
def readTextFile (path : String) : ExceptT VmSpectError (Viewing ν) (List Char) := do
  let failed (e : String) : VmSpectError := .fileSystem e
  let entry ← ExceptT.mk ((·.mapError failed) <$> (ext4.resolvePath sb path).exec driver)
  let inode ← ExceptT.mk ((·.mapError failed) <$> (ext4.loadInode sb entry).exec driver)
  let reader ← ExceptT.mk ((·.mapError failed) <$> (ext4.openInode sb inode).exec driver)
  let buffer ← ExceptT.mk ((·.mapError VmSpectError.io) <$> (ext4.readToEnd reader).exec driver)
  pure (Text.fromUtf8Lossy buffer)

/-- The paths that give guest tools away, with the kind of tools. -/
def toolsPaths : List (String × List String) :=
  [("VMware Tools",
      ["/usr/bin/vmtoolsd", "/usr/sbin/vmtoolsd", "/bin/vmtoolsd", "/sbin/vmtoolsd",
        "/etc/vmware-tools", "/lib/systemd/system/open-vm-tools.service",
        "/etc/systemd/system/open-vm-tools.service"]),
    ("VirtualBox Guest Additions",
      ["/usr/sbin/VBoxService", "/usr/bin/VBoxService", "/usr/sbin/vboxservice",
        "/usr/bin/vboxservice", "/sbin/VBoxService", "/lib/systemd/system/vboxadd-service.service",
        "/etc/systemd/system/vboxadd-service.service", "/opt/VBoxGuestAdditions"]),
    ("QEMU Guest Agent",
      ["/usr/bin/qemu-ga", "/usr/sbin/qemu-ga", "/lib/systemd/system/qemu-guest-agent.service",
        "/etc/systemd/system/qemu-guest-agent.service"]),
    ("Hyper-V Integration Services",
      ["/usr/sbin/hv_kvp_daemon", "/usr/bin/hv_kvp_daemon", "/usr/sbin/hv_vss_daemon",
        "/usr/sbin/hv_fcopy_daemon", "/lib/systemd/system/hv-kvp-daemon.service",
        "/lib/systemd/system/hypervkvp.service"])]

/-- The first of the paths that exists. -/
def findTools : List (String × String) → Viewing ν (Option GuestTools)
  | [] => pure none
  | (kind, path) :: rest => do
    match ← (ext4.resolvePath sb path).exec driver with
    | .ok _ => pure (some ⟨kind, none, true⟩)
    | .error _ => findTools rest

/-- `detect_guest_tools_linux_files`. -/
def detectGuestToolsLinuxFiles : Viewing ν (Option GuestTools) :=
  findTools ext4 driver sb (toolsPaths.flatMap fun (kind, paths) => paths.map (kind, ·))

/-- The release and the host name. -/
def systemInfo : Viewing ν GuestInfo := do
  let release ← (readTextFile ext4 driver sb "/etc/os-release").run
  let release ← match release with
    | .ok content => pure (.ok content)
    | .error _ => (readTextFile ext4 driver sb "/usr/lib/os-release").run
  let info := match release with
    | .ok content => parseOsRelease content {}
    | .error _ => {}
  match ← (readTextFile ext4 driver sb "/etc/hostname").run with
  | .ok hostname =>
    let name := Text.trim hostname
    pure (if name = [] then info else { info with osEdition := "Host: ".toList ++ name })
  | .error _ => pure info

/-- `analyze_file_system`, which does not fail. -/
def analyzeFileSystem (options : Options) : Viewing ν AnalysisResult := do
  let info ← if options.shouldAnalyzeSystem then systemInfo ext4 driver sb else pure {}
  let (programs, info) ← match ← (readTextFile ext4 driver sb "/var/lib/dpkg/status").run with
    | .ok dpkgStatus => do
      let (pkgs, tools) ← StateT.lift (StateT.lift (parseDpkgStatus dpkgStatus options))
      let programs := if options.shouldAnalyzeApps then pkgs else []
      pure (programs, if options.shouldAnalyzeSystem && tools.isSome then
          { info with guestTools := tools }
        else info)
    | .error _ => pure ([], info)
  let info ← if options.shouldAnalyzeSystem && info.guestTools.isNone then do
      let tools ← detectGuestToolsLinuxFiles ext4 driver sb
      pure { info with guestTools := tools }
    else pure info
  let programs := if options.shouldAnalyzeApps then sortAndDedup programs else programs
  pure { guestInfo := info, programs := programs }

end FileSystem

/-- The loop over the candidates, from the largest on. -/
def tryCandidates (ext4 : Ext4Crate) (driver : VmDriver (Reading ν)) (chunkSize : ℕ)
    (options : Options) : List Partition → Reading ν (Option AnalysisResult)
  | [] => pure none
  | p :: rest => do
    let result ← withView p.start p.size chunkSize do
      match ← ext4.new.exec driver with
      | .ok sb => some <$> analyzeFileSystem ext4 driver sb options
      | .error _ => pure none
    match result with
    | some result => pure (some result)
    | none => tryCandidates ext4 driver chunkSize options rest

/-- `LinuxInspector::analyze`. -/
def analyze (ext4 : Ext4Crate) (driver : VmDriver (Reading ν)) (partitions : List Partition)
    (chunkSize : ℕ) (options : Options) : Reading ν (Except VmSpectError AnalysisResult) := do
  if !options.shouldAnalyzeSystem && !options.shouldAnalyzeApps then pure (.ok {})
  else do
    let candidates := partitions.filter fun p => p.fileSystem ∈ [.ext4, .ext3, .ext2]
    -- A stable sort, by decreasing size.
    let candidates := candidates.mergeSort fun a b => decide (b.size ≤ a.size)
    match ← tryCandidates ext4 driver chunkSize options candidates with
    | some result => pure (.ok result)
    | none => pure (.ok (if options.shouldAnalyzeSystem then
        { guestInfo := { osName := "Linux (rootfs could not be read)".toList } } else {}))

end VmSpect.Linux
