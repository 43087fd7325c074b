import VmSpect.Models.Report
import VmSpect.Parsers.Linux

/-!
# Windows guests

`src/parsers/windows.rs`: the hives `SOFTWARE` and `SYSTEM` are read from the NTFS partition and the
registry in them is searched. When it cannot be read, what the file system shows takes its place.
-/

namespace VmSpect.Windows

open Polling Bytes Words

variable {ν : Type}

/-- `FALLBACK_FS_ORIGIN`. -/
def fallbackFsOrigin : String := "FallbackFS"

/-- `PROGRAM_FILES_DIRS`. -/
def programFilesDirs : List String := ["Program Files", "Program Files (x86)"]

/-- `CONFIG_PATH`. -/
def configPath : List String := ["Windows", "System32", "config"]

/-- `Hives`. -/
structure Hives where
  software : List UInt8
  system : Option (List UInt8)
  softwareLogsPresent : Bool
  systemLogsPresent : Bool
  warnings : List String
  deriving DecidableEq, Repr

/-- The name of a system whose registry cannot be read. -/
def dirtyName : List Char := "Windows (dirty / inaccessible Registry)".toList

/-- `degraded_result`. -/
def degradedResult (warning : String) : AnalysisResult where
  guestInfo := { osName := dirtyName }
  warnings := [warning]

/-! ## Dates -/

/-- `civil_from_days`: year, month and day. Division rounds towards zero, as in the source. -/
def civilFromDays (daysSinceEpoch : ℤ) : ℤ × ℕ × ℕ :=
  let z := daysSinceEpoch + 719468
  let era := (if 0 ≤ z then z else z - 146096).tdiv 146097
  let doe := (z - era * 146097).toNat
  let yoe := (doe - doe / 1460 + doe / 36524 - doe / 146096) / 365
  let y : ℤ := yoe + era * 400
  let doy := doe - (365 * yoe + yoe / 4 - yoe / 100)
  let mp := (5 * doy + 2) / 153
  let d := doy - (153 * mp + 2) / 5 + 1
  let m := if mp < 10 then mp + 3 else mp - 9
  (if m ≤ 2 then y + 1 else y, m, d)

/-- A number with leading zeros up to a width. -/
def padded (width n : ℕ) : List Char :=
  let digits := (toString n).toList
  List.replicate (width - digits.length) '0' ++ digits

/-- `date_from_epoch`. The years are not negative. -/
def dateFromEpoch (epochSeconds : ℕ) : List Char :=
  let (year, month, day) := civilFromDays (epochSeconds / 86400)
  padded 4 year.toNat ++ ['-'] ++ padded 2 month ++ ['-'] ++ padded 2 day

/-- `extract_pe_timestamp`. -/
def extractPeTimestamp (bytes : List UInt8) : Option ℕ :=
  if bytes.length < 0x40 ∨ slice bytes 0 2 ≠ [0x4D, 0x5A] then none
  else
    let eLfanew := ofLe (slice bytes 0x3C 4)
    -- The signature, the machine and the number of sections come before the timestamp.
    if bytes.length < eLfanew + 12 ∨ slice bytes eLfanew 4 ≠ [0x50, 0x45, 0, 0] then none
    else some (ofLe (slice bytes (eLfanew + 8) 4))

/-! ## Files of the NTFS volume -/

section Ntfs

variable (ntfs : NtfsCrate) (driver : VmDriver (Reading ν))

/-- A call of the crate whose error is told by its text. -/
def orFileSystem {α : Type} (call : DiskProg (Except String α)) :
    ExceptT VmSpectError (Viewing ν) α :=
  ExceptT.mk ((·.mapError VmSpectError.fileSystem) <$> call.exec driver)

/-- A volume that is ready for lookups, with its root directory. -/
def mount : ExceptT String (Viewing ν) (ntfs.Volume × ntfs.File) := do
  let volume ← ExceptT.mk (ntfs.new.exec driver)
  let volume ← ExceptT.mk ((ntfs.readUpcaseTable volume).exec driver)
  let root ← ExceptT.mk ((ntfs.rootDirectory volume).exec driver)
  pure (volume, root)

/-- `navigate_directory`. -/
def navigateDirectory (volume : ntfs.Volume) :
    List String → ntfs.File → ExceptT String (Viewing ν) (Option ntfs.File)
  | [], current => pure (some current)
  | segment :: rest, current => do
    let index ← ExceptT.mk ((ntfs.directoryIndex current).exec driver)
    match ← ExceptT.lift ((ntfs.find volume index segment).exec driver) with
    | none => pure none
    | some entry => do
      let entry ← ExceptT.mk (pure entry)
      let next ← ExceptT.mk ((ntfs.toFile volume entry).exec driver)
      if ntfs.isDirectory next then navigateDirectory volume rest next else pure none

/-- The default data stream of a file in a directory; `none` when there is no such file. -/
def openStream (volume : ntfs.Volume) (directory : ntfs.File) (name : String) :
    ExceptT VmSpectError (Viewing ν) (Option ntfs.Value) := do
  let index ← orFileSystem driver (ntfs.directoryIndex directory)
  match ← ExceptT.lift ((ntfs.find volume index name).exec driver) with
  | none => pure none
  | some entry => do
    let entry ← ExceptT.mk (pure (entry.mapError VmSpectError.fileSystem))
    let file ← orFileSystem driver (ntfs.toFile volume entry)
    match ← ExceptT.lift ((ntfs.data file "").exec driver) with
    | none => throw (.fileSystem s!"The file {name} has no default data stream")
    | some item => do
      let item ← ExceptT.mk (pure (item.mapError VmSpectError.fileSystem))
      let attr ← ExceptT.mk (pure ((ntfs.toAttribute item).mapError VmSpectError.fileSystem))
      let value ← orFileSystem driver (ntfs.value attr)
      pure (some value)

/-- `read_file_bytes`. -/
def readFileBytes (volume : ntfs.Volume) (directory : ntfs.File) (name : String) :
    ExceptT VmSpectError (Viewing ν) (Option (List UInt8)) := do
  match ← openStream ntfs driver volume directory name with
  | none => pure none
  | some value => do
    let length := ntfs.valueLength value
    if 2 * 1024 * 1024 * 1024 < length then
      throw (.fileSystem s!"Hive {name} is suspiciously large ({length} bytes)")
    else do
      let data ← ExceptT.mk ((·.mapError VmSpectError.io) <$> (ntfs.readToEnd value).exec driver)
      pure (some data)

/-- `read_file_prefix`. -/
def readFilePrefix (volume : ntfs.Volume) (directory : ntfs.File) (name : String) (maxBytes : ℕ) :
    ExceptT VmSpectError (Viewing ν) (Option (List UInt8)) := do
  match ← openStream ntfs driver volume directory name with
  | none => pure none
  | some value => do
    let data ← ExceptT.mk
      ((·.mapError VmSpectError.io) <$> (ntfs.readPrefix value maxBytes).exec driver)
    pure (some data)

/-- `file_exists`. -/
def fileExists (volume : ntfs.Volume) (directory : ntfs.File) (name : String) : Viewing ν Bool := do
  match ← (ntfs.directoryIndex directory).exec driver with
  | .error _ => pure false
  | .ok index =>
    match ← (ntfs.find volume index name).exec driver with
    | some (.ok _) => pure true
    | _ => pure false

/-- `a || b` on two files. -/
def eitherExists (volume : ntfs.Volume) (directory : ntfs.File) (a b : String) : Viewing ν Bool := do
  if ← fileExists ntfs driver volume directory a then pure true
  else fileExists ntfs driver volume directory b

/-- `is_system_partition`. -/
def isSystemPartition : Viewing ν Bool := do
  match ← (mount ntfs driver).run with
  | .error _ => pure false
  | .ok (volume, root) =>
    match ← (navigateDirectory ntfs driver volume configPath root).run with
    | .ok (some _) => pure true
    | _ => pure false

/-- The first of the partitions that holds the registry. -/
def findSystemPartition (chunkSize : ℕ) : List Partition → Reading ν (Option Partition)
  | [] => pure none
  | p :: rest => do
    if ← withView p.start p.size chunkSize (isSystemPartition ntfs driver) then pure (some p)
    else findSystemPartition chunkSize rest

/-- The `SYSTEM` hive and its logs: a hive that cannot be read is a warning. -/
def extractSystem (volume : ntfs.Volume) (config : ntfs.File) :
    Viewing ν (Option (List UInt8) × Bool × List String) := do
  let logs ← eitherExists ntfs driver volume config "SYSTEM.LOG1" "SYSTEM.LOG2"
  match ← (readFileBytes ntfs driver volume config "SYSTEM").run with
  | .ok bytes => pure (bytes, logs, [])
  | .error e => pure (none, logs,
      ["Could not read the SYSTEM hive from disk (dirty / inaccessible Registry): " ++ e.toText])

/-- `extract_ntfs_hives`. -/
def extractNtfsHives (includeSystem : Bool) : ExceptT VmSpectError (Viewing ν) Hives := do
  let (volume, root) ← ExceptT.mk
    ((·.mapError VmSpectError.fileSystem) <$> (mount ntfs driver).run)
  let config ← ExceptT.mk ((·.mapError VmSpectError.fileSystem) <$>
    (navigateDirectory ntfs driver volume configPath root).run)
  match config with
  | none => throw (.windowsRegistry "Windows\\System32\\config does not exist on the NTFS partition")
  | some config => do
    match ← readFileBytes ntfs driver volume config "SOFTWARE" with
    | none => throw (.windowsRegistry "SOFTWARE hive not found")
    | some software => do
      let logs ← ExceptT.lift (eitherExists ntfs driver volume config "SOFTWARE.LOG1" "SOFTWARE.LOG2")
      let (system, systemLogs, warnings) ← ExceptT.lift (if includeSystem then
          extractSystem ntfs driver volume config
        else pure (none, false, []))
      pure ⟨software, system, logs, systemLogs, warnings⟩

end Ntfs

/-! ## The registry -/

section Registry

variable (hive : HiveCrate)

/-- `eq_ignore_ascii_case`. -/
def eqIgnoreAsciiCase (a b : List Char) : Bool :=
  Text.toAsciiLowercase a = Text.toAsciiLowercase b

/-- The first of the subkeys with a name. -/
def findSubkey (segment : List Char) :
    List (Option hive.KeyNode) → Prog Site (Option hive.KeyNode)
  | [] => pure none
  | none :: _ => Prog.panic
  | some sub :: rest => do
    match ← Prog.ofOption (hive.keyName sub) with
    | none => findSubkey segment rest
    | some name => if eqIgnoreAsciiCase name segment then pure (some sub) else findSubkey segment rest

/-- The loop of `find_key_by_path` over the segments. -/
def findKey : List (List Char) → hive.KeyNode → Prog Site (Option hive.KeyNode)
  | [], current => pure (some current)
  | segment :: rest, current => do
    match ← findSubkey hive segment (hive.subkeys current) with
    | some sub => findKey rest sub
    | none => pure none

/-- `find_key_by_path`, which does not fail. -/
def findKeyByPath (root : hive.KeyNode) (path : String) : Prog Site (Option hive.KeyNode) :=
  findKey hive (path.toList.splitOn '\\') root

/-- `convert_value_to_string`. -/
def convertValueToString (value : hive.KeyValue) : Prog Site (Option (List Char)) := do
  match ← Prog.ofOption (hive.valueData value) with
  | none => pure none
  | some bytes =>
    if bytes = [] then pure none
    else
      let units := (List.range (bytes.length / 2)).map fun i => ofLe (slice bytes (2 * i) 2)
      let text := Text.trim (Text.trimMatches (· = '\x00') (Text.fromUtf16Lossy units))
      pure (if text = [] then none else some text)

/-- The first of the values with a name, as a text. -/
def findValue (fieldName : List Char) :
    List (Option hive.KeyValue) → Prog Site (Option (List Char))
  | [] => pure none
  | none :: _ => Prog.panic
  | some value :: rest => do
    match ← Prog.ofOption (hive.valueName value) with
    | none => findValue fieldName rest
    | some name =>
      if eqIgnoreAsciiCase name fieldName then convertValueToString hive value
      else findValue fieldName rest

/-- `read_value_from_key`. -/
def readValueFromKey (key : hive.KeyNode) (fieldName : String) : Prog Site (Option (List Char)) :=
  findValue hive fieldName.toList (hive.values key)

/-- `read_value_from_key` with one name after the other, until one has a value. -/
def readFirstValue (key : hive.KeyNode) : List String → Prog Site (Option (List Char))
  | [] => pure none
  | fieldName :: rest => do
    match ← readValueFromKey hive key fieldName with
    | some value => pure (some value)
    | none => readFirstValue key rest

/-- The words in a display name that give guest tools away, with the kind of tools. -/
def toolsNames : List (String × String) :=
  [("vmware tools", "VMware Tools"),
    ("virtualbox guest additions", "VirtualBox Guest Additions"),
    ("oracle vm virtualbox guest additions", "VirtualBox Guest Additions"),
    ("qemu guest agent", "QEMU Guest Agent"),
    ("virtio", "QEMU Guest Agent"),
    ("red hat virtio", "QEMU Guest Agent"),
    ("hyper-v integration services", "Hyper-V Integration Services"),
    ("hyper-v guest components", "Hyper-V Integration Services")]

/-- `classify_guest_tools_key`. Only ASCII letters matter to the words, so that the lower case of
other letters is not needed. -/
def classifyGuestToolsKey (key : hive.KeyNode) : Prog Site (Option GuestTools) := do
  match ← readValueFromKey hive key "DisplayName" with
  | none => pure none
  | some name => do
    let lower := Text.toAsciiLowercase name
    let version ← readValueFromKey hive key "DisplayVersion"
    pure ((toolsNames.find? fun entry => Linux.containsText entry.1.toList lower).map fun entry =>
      ⟨entry.2, version, true⟩)

/-- The keys that give guest tools away, with the kind of tools and the values that hold a
version. -/
def toolsKeys : List (String × List String × List String) :=
  [("VMware Tools", ["InstallVersion", "Version"],
      ["VMware, Inc.\\VMware Tools", "WOW6432Node\\VMware, Inc.\\VMware Tools"]),
    ("VirtualBox Guest Additions", ["Version"],
      ["Oracle\\VirtualBox Guest Additions", "WOW6432Node\\Oracle\\VirtualBox Guest Additions"]),
    ("QEMU Guest Agent", ["Version", "DisplayVersion", "InstallVersion"],
      ["QEMU Guest Agent", "WOW6432Node\\QEMU Guest Agent", "Red Hat\\VirtIO",
        "WOW6432Node\\Red Hat\\VirtIO", "Red Hat\\Virtio", "WOW6432Node\\Red Hat\\Virtio"]),
    ("Hyper-V Integration Services", ["IntegrationServicesVersion", "Version"],
      ["Microsoft\\Virtual Machine\\Auto", "WOW6432Node\\Microsoft\\Virtual Machine\\Auto",
        "Microsoft\\Virtual Machine\\Guest\\Parameters"])]

/-- The first of the keys that exists. -/
def findToolsKey (root : hive.KeyNode) :
    List (String × List String × String) → Prog Site (Option GuestTools)
  | [] => pure none
  | (kind, versions, path) :: rest => do
    match ← findKeyByPath hive root path with
    | some node => do
      let version ← readFirstValue hive node versions
      pure (some ⟨kind, version, true⟩)
    | none => findToolsKey root rest

/-- The first of the products whose installer properties give guest tools away. -/
def findToolsProduct : List (Option hive.KeyNode) → Prog Site (Option GuestTools)
  | [] => pure none
  | none :: _ => Prog.panic
  | some subkey :: rest => do
    match ← findKeyByPath hive subkey "InstallProperties" with
    | none => findToolsProduct rest
    | some properties => do
      match ← classifyGuestToolsKey hive properties with
      | some tools => pure (some tools)
      | none => findToolsProduct rest

/-- The first of the uninstall keys that gives guest tools away. -/
def findToolsUninstall : List (Option hive.KeyNode) → Prog Site (Option GuestTools)
  | [] => pure none
  | none :: _ => Prog.panic
  | some subkey :: rest => do
    match ← classifyGuestToolsKey hive subkey with
    | some tools => pure (some tools)
    | none => findToolsUninstall rest

/-- The keys of installed programs. -/
def uninstallPaths : List String :=
  ["Microsoft\\Windows\\CurrentVersion\\Uninstall",
    "WOW6432Node\\Microsoft\\Windows\\CurrentVersion\\Uninstall"]

/-- The uninstall keys, one path after the other. -/
def findToolsUninstallPaths (root : hive.KeyNode) : List String → Prog Site (Option GuestTools)
  | [] => pure none
  | path :: rest => do
    match ← findKeyByPath hive root path with
    | none => findToolsUninstallPaths root rest
    | some node => do
      match ← findToolsUninstall hive (hive.subkeys node) with
      | some tools => pure (some tools)
      | none => findToolsUninstallPaths root rest

/-- `extract_guest_tools_software`. -/
def extractGuestToolsSoftware (root : hive.KeyNode) : Prog Site (Option GuestTools) := do
  let keys := toolsKeys.flatMap fun (kind, versions, paths) => paths.map (kind, versions, ·)
  match ← findToolsKey hive root keys with
  | some tools => pure (some tools)
  | none => do
    let products ← findKeyByPath hive root
      "Microsoft\\Windows\\CurrentVersion\\Installer\\UserData\\S-1-5-18\\Products"
    let found ← match products with
      | some node => findToolsProduct hive (hive.subkeys node)
      | none => pure none
    match found with
    | some tools => pure (some tools)
    | none => findToolsUninstallPaths hive root uninstallPaths

/-- A value of the key of the operating system, in `extract_guest_info`. -/
def guestInfoValue (info : GuestInfo) (name : List Char) (value : hive.KeyValue) :
    Prog Site GuestInfo := do
  let is (text : String) : Bool := eqIgnoreAsciiCase name text.toList
  if is "ProductName" then do
    let v ← convertValueToString hive value
    pure { info with osName := v.getD info.osName }
  else if (is "DisplayVersion" || is "ReleaseId") && info.osEdition.isEmpty then do
    let v ← convertValueToString hive value
    pure { info with osEdition := v.getD info.osEdition }
  else if is "CSDVersion" then do
    let v ← convertValueToString hive value
    pure { info with osServicePack := v.getD info.osServicePack }
  else if (is "CurrentBuild" || is "CurrentBuildNumber") && info.osBuild.isEmpty then do
    let v ← convertValueToString hive value
    pure { info with osBuild := v.getD info.osBuild }
  else pure info

/-- The values of the key of the operating system. -/
def guestInfoValues : List (Option hive.KeyValue) → GuestInfo → Prog Site GuestInfo
  | [], info => pure info
  | none :: _, _ => Prog.panic
  | some value :: rest, info => do
    match ← Prog.ofOption (hive.valueName value) with
    | none => guestInfoValues rest info
    | some name => do
      let info ← guestInfoValue hive info name value
      guestInfoValues rest info

/-- `extract_guest_info`. -/
def extractGuestInfo (root : hive.KeyNode) : Prog Site GuestInfo := do
  let info ← match ← findKeyByPath hive root "Microsoft\\Windows NT\\CurrentVersion" with
    | some node => guestInfoValues hive (hive.values node) {}
    | none => pure {}
  let info := if info.osName = [] then
      { info with osName := "Windows (Unknown edition)".toList }
    else info
  let tools ← extractGuestToolsSoftware hive root
  pure { info with guestTools := tools }

/-- The program of an uninstall key. -/
def programOf (subkey : hive.KeyNode) : Prog Site (Option Program) := do
  match ← readValueFromKey hive subkey "DisplayName" with
  | none => pure none
  | some name => do
    let publisher ← readValueFromKey hive subkey "Publisher"
    let version ← readValueFromKey hive subkey "DisplayVersion"
    pure (some ⟨name, version, publisher.bind Linux.nonEmpty, none⟩)

/-- The loop of `extract_programs_from_subkeys`, which ends early when the token is set. -/
def extractPrograms :
    List (Option hive.KeyNode) → List Program → Prog Site (List Program)
  | [], output => pure output
  | none :: _, _ => Prog.panic
  | some subkey :: rest, output => do
    if ← Prog.poll .uninstallKeys then pure output
    else do
      let program ← programOf hive subkey
      extractPrograms rest (output ++ program.toList)

/-- The loop of `search_programs_in_registry` over the paths. -/
def searchPaths (root : hive.KeyNode) : List String → List Program → Prog Site (List Program)
  | [], output => pure output
  | path :: rest, output => do
    match ← findKeyByPath hive root path with
    | none => searchPaths root rest output
    | some node => do
      let output ← extractPrograms hive (hive.subkeys node) output
      searchPaths root rest output

/-- `search_programs_in_registry`. -/
def searchProgramsInRegistry (root : hive.KeyNode) : Prog Site (List Program) :=
  sortAndDedup <$> searchPaths hive root uninstallPaths []

/-- `open_hive_with_recovery`: a hive whose header is damaged is opened without validation. -/
def openHiveWithRecovery (bytes : List UInt8) (logsPresent : Bool) :
    ExceptT String (Prog Site) (hive.Hive × Option String) := do
  match ← ExceptT.lift (Prog.ofOption (hive.new bytes)) with
  | .ok opened => pure (opened, none)
  | .error original => do
    let opened ← ExceptT.mk (Prog.ofOption (hive.withoutValidation bytes))
    let logsContext := if logsPresent then
        "transactional .LOG1/.LOG2 files were detected alongside the hive, but the Registry " ++
          "parser (nt-hive) cannot replay their contents"
      else "no transactional .LOG1/.LOG2 files were found alongside the hive to attempt replaying " ++
        "pending changes"
    pure (opened, some (s!"Hive with damaged/dirty header ({original}): {logsContext}; permissive " ++
      "read mode (no header validation) was activated to recover the keys still intact in the " ++
      "primary file"))

/-- A hive with its root key. -/
def openRoot (bytes : List UInt8) (logsPresent : Bool) :
    ExceptT VmSpectError (Prog Site) (hive.KeyNode × Option String) := do
  let (opened, notice) ← ExceptT.mk ((·.mapError VmSpectError.windowsRegistry) <$>
    (openHiveWithRecovery hive bytes logsPresent).run)
  let root ← ExceptT.mk ((·.mapError VmSpectError.windowsRegistry) <$>
    Prog.ofOption (hive.rootKeyNode opened))
  pure (root, notice)

/-- `try_analyze_software`. -/
def tryAnalyzeSoftware (bytes : List UInt8) (options : Options) (logsPresent : Bool) :
    ExceptT VmSpectError (Prog Site) (GuestInfo × List Program × Option String) := do
  let (root, notice) ← openRoot hive bytes logsPresent
  let info ← ExceptT.lift (if options.shouldAnalyzeSystem then extractGuestInfo hive root
    else pure {})
  let programs ← ExceptT.lift (if options.shouldAnalyzeApps then searchProgramsInRegistry hive root
    else pure [])
  pure (info, programs, notice)

/-- The services of guest tools, by the kind of tools. -/
def toolsServices : List (String × List String) :=
  [("VMware Tools", ["VMTools", "vmvss", "vmusbmouse", "vmx_svga", "pvscsi", "vmxnet3"]),
    ("VirtualBox Guest Additions",
      ["VBoxGuest", "VBoxService", "VBoxMouse", "VBoxSF", "VBoxVideo", "VBoxWddm"]),
    ("QEMU Guest Agent",
      ["QEMU-GA", "qemu-ga", "viostor", "netkvm", "vioscsi", "vioserial", "viorng", "balloon"]),
    ("Hyper-V Integration Services",
      ["vmbus", "hypervkvp", "hv_kvp", "vmicheartbeat", "vmicshutdown", "vmictimesync", "vmicvss",
        "vmicrdv"])]

/-- The keys of those services, in the order in which they are looked up. -/
def serviceKeys : List (String × List String × String) :=
  ["ControlSet001", "ControlSet002", "CurrentControlSet"].flatMap fun controlSet =>
    toolsServices.flatMap fun (kind, services) =>
      services.map fun srv => (kind, ["Version", "DriverVersion"], s!"{controlSet}\\Services\\{srv}")

/-- `try_detect_guest_tools_in_system`. -/
def tryDetectGuestToolsInSystem (bytes : List UInt8) (logsPresent : Bool) :
    ExceptT VmSpectError (Prog Site) (Option GuestTools × Option String) := do
  let (root, notice) ← openRoot hive bytes logsPresent
  let tools ← ExceptT.lift (findToolsKey hive root serviceKeys)
  pure (tools, notice)

/-- What parsing a hive gave: a result, an error, or a panic that `catch_unwind` caught. -/
def hiveOutcome {α : Type} (parse : ExceptT VmSpectError (Prog Site) α) :
    Prog Site (Option (Except VmSpectError α)) :=
  parse.run.catchPanic

/-- The part of `analyze_hives` on the `SYSTEM` hive: the guest tools and a warning. -/
def analyzeSystemHive (hives : Hives) : Prog Site (Option GuestTools × List String) := do
  match hives.system with
  | none => pure (none, [])
  | some system => do
    match ← hiveOutcome (tryDetectGuestToolsInSystem hive system hives.systemLogsPresent) with
    | some (.ok (tools, notice)) => pure (tools, notice.toList)
    | some (.error e) => pure (none,
        ["SYSTEM hive corrupt or inaccessible (dirty Registry): " ++ e.toText])
    | none => pure (none, ["SYSTEM hive severely damaged: the Registry parser failed " ++
        "irrecoverably (dirty Registry)"])

/-- The part of `analyze_hives` on the `SOFTWARE` hive, with whether it was inaccessible. -/
def analyzeSoftwareHive (hives : Hives) (options : Options) :
    Prog Site (GuestInfo × List Program × List String × Bool) := do
  match ← hiveOutcome (tryAnalyzeSoftware hive hives.software options hives.softwareLogsPresent) with
  | some (.ok (info, programs, notice)) => pure (info, programs, notice.toList, false)
  | some (.error e) => pure ({ osName := dirtyName }, [],
      ["SOFTWARE hive corrupt or inaccessible (dirty Registry): " ++ e.toText], true)
  | none => pure ({ osName := dirtyName }, [],
      ["SOFTWARE hive severely damaged: the Registry parser failed irrecoverably " ++
        "(dirty Registry)"], true)

/-- `analyze_hives`, with whether the file system has to take the place of the registry. -/
def analyzeHives (hives : Hives) (options : Options) : Prog Site (AnalysisResult × Bool) := do
  let (info, programs, warnings, requiresFsFallback) ← analyzeSoftwareHive hive hives options
  let (info, systemWarnings) ← if options.shouldAnalyzeSystem && info.guestTools.isNone then do
      let (tools, systemWarnings) ← analyzeSystemHive hive hives
      pure ({ info with guestTools := tools }, systemWarnings)
    else pure (info, [])
  pure (⟨info, programs, hives.warnings ++ warnings ++ systemWarnings⟩, requiresFsFallback)

end Registry

/-! ## The file system in place of the registry -/

section Fallback

variable (ntfs : NtfsCrate) (driver : VmDriver (Reading ν))

/-- `detect_os_from_binaries`. -/
def detectOsFromBinaries (volume : ntfs.Volume) (system32 : ntfs.File) :
    Viewing ν (Option (GuestInfo × String)) := do
  let timestamp ← match ← (readFilePrefix ntfs driver volume system32 "ntoskrnl.exe" 8192).run with
    | .ok (some bytes) => pure (extractPeTimestamp bytes)
    | _ => pure none
  match timestamp with
  | some timestamp => pure (some (
      { osName := s!"Windows (approximate version from {fallbackFsOrigin})".toList
        osBuild := "Approximated from the PE compilation timestamp of ntoskrnl.exe: ".toList ++
          dateFromEpoch timestamp },
      "Registry completely inaccessible: an approximate OS version was determined from the PE " ++
        s!"timestamp of \\Windows\\System32\\ntoskrnl.exe ({fallbackFsOrigin})"))
  | none => do
    if ← fileExists ntfs driver volume system32 "license.rtf" then
      pure (some (
        { osName := s!"Windows (detected by {fallbackFsOrigin}: license.rtf)".toList },
        "Registry completely inaccessible: ntoskrnl.exe could not be read, but Windows was " ++
          "confirmed via the presence of \\Windows\\System32\\license.rtf " ++
          s!"({fallbackFsOrigin})"))
    else pure none

/-- The loop of `scan_folders_as_programs`, with a bound on the entries that are left, and the names
that were seen. It ends early when the token is set. -/
def scanEntries : ℕ → ntfs.Entries → List (List Char) → List Program → Viewing ν (List Program)
  | 0, _, _, output => pure output
  | left + 1, entries, seen, output => do
    if ← StateT.lift (Reading.poll .folders) then pure output
    else do
      let (entry, entries) ← (ntfs.next entries).exec driver
      match entry with
      | none => pure output
      | some none => scanEntries left entries seen output
      | some (some key) =>
        if !key.isDirectory || key.isDos || key.name ∈ [['.'], ['.', '.']] || key.name ∈ seen then
          scanEntries left entries seen output
        else
          scanEntries left entries (key.name :: seen)
            (output ++ [⟨key.name, none, none, some fallbackFsOrigin.toList⟩])

/-- `scan_folders_as_programs`. The bound leaves room for the end of the entries. -/
def scanFoldersAsPrograms (directory : ntfs.File) (output : List Program) :
    Viewing ν (List Program) := do
  match ← (ntfs.directoryIndex directory).exec driver with
  | .error _ => pure output
  | .ok index => scanEntries ntfs driver (ntfs.maxEntries index + 1) (ntfs.entries index) [] output

/-- The loop of `apply_fs_fallback` over the program folders. -/
def scanProgramFiles (volume : ntfs.Volume) (root : ntfs.File) :
    List String → List Program → Viewing ν (List Program)
  | [], output => pure output
  | folder :: rest, output => do
    if ← StateT.lift (Reading.poll .programFiles) then pure output
    else do
      match ← (navigateDirectory ntfs driver volume [folder] root).run with
      | .ok (some dir) => do
        let output ← scanFoldersAsPrograms ntfs driver dir output
        scanProgramFiles volume root rest output
      | _ => scanProgramFiles volume root rest output

/-- The operating system that the file system shows, and a warning. -/
def fallbackInfo (volume : ntfs.Volume) (root : ntfs.File) :
    Viewing ν (Option GuestInfo × List String) := do
  match ← (navigateDirectory ntfs driver volume ["Windows", "System32"] root).run with
  | .ok (some system32) => do
    match ← detectOsFromBinaries ntfs driver volume system32 with
    | some (info, msg) => pure (some info, [msg])
    | none => pure (none, ["FallbackFS: could not determine the OS version (neither ntoskrnl.exe " ++
        "nor license.rtf were readable in \\Windows\\System32)"])
  | _ => pure (none, ["FallbackFS: \\Windows\\System32 was not found on the NTFS partition"])

/-- The part of `apply_fs_fallback` after the volume is open. -/
def fallbackScan (volume : ntfs.Volume) (root : ntfs.File) (options : Options) :
    Viewing ν (Option GuestInfo × List Program × List String) := do
  let (info, warnings) ← if options.shouldAnalyzeSystem then fallbackInfo ntfs driver volume root
    else pure (none, [])
  let programs ← if options.shouldAnalyzeApps then
      scanProgramFiles ntfs driver volume root programFilesDirs []
    else pure []
  let recovered := if programs = [] then [] else
    [s!"FallbackFS: recovered {programs.length} software entries by scanning the " ++
      s!"\\Program Files folders (no version/publisher; origin {fallbackFsOrigin}) because the " ++
      "Registry is inaccessible"]
  pure (info, programs, warnings ++ recovered)

/-- `apply_fs_fallback`, on a fresh view. -/
def applyFsFallback (options : Options) :
    Viewing ν (Option GuestInfo × List Program × List String) := do
  match ← ntfs.new.exec driver with
  | .error e =>
    pure (none, [], [s!"FallbackFS: could not re-mount the NTFS partition ({e})"])
  | .ok volume => do
    match ← (ntfs.readUpcaseTable volume).exec driver with
    | .error e => pure (none, [], [s!"FallbackFS: could not read the NTFS UpCase table ({e})"])
    | .ok volume => do
      match ← (ntfs.rootDirectory volume).exec driver with
      | .error e =>
        pure (none, [], [s!"FallbackFS: could not access the NTFS root directory ({e})"])
      | .ok root => fallbackScan ntfs driver volume root options

end Fallback

/-- `WindowsInspector::analyze`. -/
def analyze (crates : Crates) (driver : VmDriver (Reading ν)) (partitions : List Partition)
    (chunkSize : ℕ) (options : Options) : Reading ν (Except VmSpectError AnalysisResult) := do
  if !options.shouldAnalyzeSystem && !options.shouldAnalyzeApps then pure (.ok {})
  else do
    match ← findSystemPartition crates.ntfs driver chunkSize (partitions.filter (·.isNtfs)) with
    | none => pure (.ok (degradedResult
        "No NTFS partition contains Windows\\System32\\config (Registry inaccessible)"))
    | some p => do
      let includeSystem := options.includeSystem && options.shouldAnalyzeSystem
      let hives ← withView p.start p.size chunkSize
        (extractNtfsHives crates.ntfs driver includeSystem).run
      match hives with
      | .error e => pure (.ok (degradedResult
          ("Could not extract the Windows Registry hives (dirty / inaccessible Registry): " ++
            e.toText)))
      | .ok hives => do
        let (result, requiresFsFallback) ← StateT.lift (analyzeHives crates.hive hives options)
        if requiresFsFallback then do
          let (info, programs, warnings) ← withView p.start p.size chunkSize
            (applyFsFallback crates.ntfs driver options)
          pure (.ok ⟨info.getD result.guestInfo, result.programs ++ programs,
            result.warnings ++ warnings⟩)
        else pure (.ok result)

end VmSpect.Windows
