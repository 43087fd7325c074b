import VmSpect.Parsers.DpkgStanzas

/-!
# The arguments of the command line

`parse_args_from` of `src/bin/vmspect.rs`. An argument is given by its characters, and so is a path;
printing the help or the version ends the process before the rest is read.

`Argument` is what a user says with one or two of the texts, and `configOf` is what a list of
arguments means, field by field. The loop accepts exactly the lists of texts that are written like
that (`parseArgsFrom_ok_iff`), and refuses any other one at the first place where it goes wrong, with
the message for it (`parseArgsFrom_error_iff`).
-/

namespace VmSpect.Cli

open Text

/-! ## The parser -/

/-- `CliConfig`. -/
structure CliConfig where
  targetPath : Option (List Char) := none
  jsonFormat : Bool := false
  concurrent : Bool := false
  forceNbd : Bool := false
  recursive : Bool := false
  noApps : Bool := false
  noSystem : Bool := false
  includeSystem : Bool := false
  maxWorkers : Option ℕ := none
  fullReport : Bool := false
  excludedDirectories : List (List Char) := []
  maxDepth : Option ℕ := none
  quietDiscovery : Bool := false
  deriving DecidableEq, Repr

/-- Why the arguments give no configuration. -/
inductive Exit where
  /-- The process exits with success, after printing. -/
  | help
  | version
  | error (message : String)
  deriving DecidableEq, Repr

/-- The options without a value. -/
inductive Flag where
  | json
  | concurrent
  | forceNbd
  | recursive
  | noApps
  | noSystem
  | includeSystem
  | fullReport
  | quietDiscovery
  deriving DecidableEq, Repr

/-- How they are written. -/
def Flag.names : Flag → List String
  | json => ["--json"]
  | concurrent => ["--concurrent"]
  | forceNbd => ["--force-nbd"]
  | recursive => ["-r", "--recursive"]
  | noApps => ["--no-apps"]
  | noSystem => ["--no-system"]
  | includeSystem => ["--include-system"]
  | fullReport => ["--full-report"]
  | quietDiscovery => ["--quiet-discovery"]

/-- What they set. -/
def Flag.set (config : CliConfig) : Flag → CliConfig
  | json => { config with jsonFormat := true }
  | concurrent => { config with concurrent := true }
  | forceNbd => { config with forceNbd := true }
  | recursive => { config with recursive := true }
  | noApps => { config with noApps := true }
  | noSystem => { config with noSystem := true }
  | includeSystem => { config with includeSystem := true }
  | fullReport => { config with fullReport := true }
  | quietDiscovery => { config with quietDiscovery := true }

/-- All of them. -/
def flags : List Flag :=
  [.json, .concurrent, .forceNbd, .recursive, .noApps, .noSystem, .includeSystem, .fullReport,
    .quietDiscovery]

/-- Whether a text is one of several names. -/
def named (arg : List Char) (names : List String) : Bool := names.any (arg = ·.toList)

/-- The flag that a text stands for. -/
def flagOf (arg : List Char) : Option Flag := flags.find? fun flag => named arg flag.names

/-- The value of `--workers`. -/
def parseWorkers (value : List Char) : Except Exit ℕ :=
  match parseUnsigned 10 (2^64) value with
  | none => .error (.error s!"Invalid worker count: '{String.ofList value}'")
  | some 0 => .error (.error "Worker count must be at least 1")
  | some n => .ok n

/-- The start of a count behind an equals sign. -/
def workersPrefix : List Char := "--workers=".toList

/-- The loop of `parse_args_from`. -/
def parseArgsFrom : List (List Char) → CliConfig → Except Exit CliConfig
  | [], config => .ok config
  | arg :: args, config =>
    if named arg ["-h", "--help"] then .error .help
    else if named arg ["-V", "--version"] then .error .version
    else
      match flagOf arg with
      | some flag => parseArgsFrom args (flag.set config)
      | none =>
        if named arg ["--exclude"] then
          match args with
          | [] => .error (.error "A directory is required for --exclude")
          | value :: args => parseArgsFrom args
            { config with excludedDirectories := config.excludedDirectories ++ [value] }
        else if named arg ["--max-depth"] then
          match args with
          | [] => .error (.error "A numeric value is required for --max-depth")
          | value :: args =>
            match parseUnsigned 10 (2^64) value with
            | none => .error (.error s!"Invalid maximum depth: '{String.ofList value}'")
            | some depth => parseArgsFrom args { config with maxDepth := some depth }
        else if named arg ["-w", "--workers"] then
          match args with
          | [] => .error (.error "A numeric value is required for --workers")
          | value :: args =>
            match parseWorkers value with
            | .error exit => .error exit
            | .ok workers => parseArgsFrom args { config with maxWorkers := some workers }
        else if workersPrefix.isPrefixOf arg then
          match parseWorkers (Linux.trimStartText workersPrefix arg) with
          | .error exit => .error exit
          | .ok workers => parseArgsFrom args { config with maxWorkers := some workers }
        else if arg.head? = some '-' then
          .error (.error (s!"Unknown option: '{String.ofList arg}'. Use --help to see the " ++
            "available options."))
        else if config.targetPath.isNone then
          parseArgsFrom args { config with targetPath := some arg }
        else .error (.error s!"Unexpected positional argument: '{String.ofList arg}'")

/-! ## What the arguments say -/

/-- One thing that a user says. -/
inductive Argument where
  | flag (flag : Flag)
  | exclude (directory : List Char)
  | maxDepth (depth : ℕ)
  | workers (count : ℕ)
  | target (path : List Char)
  deriving DecidableEq, Repr

/-- The texts that it is written with. A count may stand behind any positive number of
`--workers=`. -/
inductive Argument.Written : Argument → List (List Char) → Prop
  | flag {flag : Flag} {name : String} (h : name ∈ flag.names) : Written (.flag flag) [name.toList]
  | exclude (directory : List Char) :
    Written (.exclude directory) ["--exclude".toList, directory]
  | maxDepth {depth : ℕ} {text : List Char} (h : parseUnsigned 10 (2^64) text = some depth) :
    Written (.maxDepth depth) ["--max-depth".toList, text]
  | workers {name : String} {count : ℕ} {text : List Char} (hname : name ∈ ["-w", "--workers"])
      (h : parseUnsigned 10 (2^64) text = some count) (hpos : 0 < count) :
    Written (.workers count) [name.toList, text]
  | workersEq (more : ℕ) {count : ℕ} {text : List Char}
      (h : parseUnsigned 10 (2^64) text = some count) (hpos : 0 < count) :
    Written (.workers count) [(List.replicate (more + 1) workersPrefix).flatten ++ text]
  | target {path : List Char} (h : path.head? ≠ some '-') : Written (.target path) [path]

/-- A list of arguments, one written after the other. -/
inductive AllWritten : List Argument → List (List Char) → Prop
  | nil : AllWritten [] []
  | cons {argument : Argument} {arguments : List Argument} {texts rest : List (List Char)}
      (h : argument.Written texts) (hrest : AllWritten arguments rest) :
    AllWritten (argument :: arguments) (texts ++ rest)

/-- What one argument gives. -/
def Argument.directory? : Argument → Option (List Char)
  | exclude directory => some directory
  | _ => none

/-- The depth that it gives. -/
def Argument.depth? : Argument → Option ℕ
  | maxDepth depth => some depth
  | _ => none

/-- The number of workers that it gives. -/
def Argument.count? : Argument → Option ℕ
  | workers count => some count
  | _ => none

/-- The target that it gives. -/
def Argument.path? : Argument → Option (List Char)
  | target path => some path
  | _ => none

/-- The configuration that a list of arguments says: the flags in it, all excluded directories in
their order, the last depth and the last count, and the target. -/
def configOf (arguments : List Argument) : CliConfig where
  targetPath := (arguments.filterMap Argument.path?).head?
  jsonFormat := .flag .json ∈ arguments
  concurrent := .flag .concurrent ∈ arguments
  forceNbd := .flag .forceNbd ∈ arguments
  recursive := .flag .recursive ∈ arguments
  noApps := .flag .noApps ∈ arguments
  noSystem := .flag .noSystem ∈ arguments
  includeSystem := .flag .includeSystem ∈ arguments
  maxWorkers := (arguments.filterMap Argument.count?).getLast?
  fullReport := .flag .fullReport ∈ arguments
  excludedDirectories := arguments.filterMap Argument.directory?
  maxDepth := (arguments.filterMap Argument.depth?).getLast?
  quietDiscovery := .flag .quietDiscovery ∈ arguments

/-- All names of options. -/
def optionNames : List String :=
  ["-h", "--help", "-V", "--version", "--exclude", "--max-depth", "-w", "--workers"] ++
    flags.flatMap Flag.names

/-- A list of texts that does not start with an argument, and what is said about that. -/
inductive Refused : List (List Char) → Exit → Prop
  | help {name : String} {rest : List (List Char)} (h : name ∈ ["-h", "--help"]) :
    Refused (name.toList :: rest) .help
  | version {name : String} {rest : List (List Char)} (h : name ∈ ["-V", "--version"]) :
    Refused (name.toList :: rest) .version
  | noDirectory : Refused ["--exclude".toList] (.error "A directory is required for --exclude")
  | noDepth : Refused ["--max-depth".toList] (.error "A numeric value is required for --max-depth")
  | badDepth {text : List Char} {rest : List (List Char)}
      (h : parseUnsigned 10 (2^64) text = none) :
    Refused ("--max-depth".toList :: text :: rest)
      (.error s!"Invalid maximum depth: '{String.ofList text}'")
  | noCount {name : String} (h : name ∈ ["-w", "--workers"]) :
    Refused [name.toList] (.error "A numeric value is required for --workers")
  | badCount {name : String} {text : List Char} {rest : List (List Char)}
      (hname : name ∈ ["-w", "--workers"]) (h : parseUnsigned 10 (2^64) text = none) :
    Refused (name.toList :: text :: rest) (.error s!"Invalid worker count: '{String.ofList text}'")
  | zeroCount {name : String} {text : List Char} {rest : List (List Char)}
      (hname : name ∈ ["-w", "--workers"]) (h : parseUnsigned 10 (2^64) text = some 0) :
    Refused (name.toList :: text :: rest) (.error "Worker count must be at least 1")
  | badCountEq (more : ℕ) {text : List Char} {rest : List (List Char)}
      (hend : workersPrefix.isPrefixOf text = false)
      (h : parseUnsigned 10 (2^64) text = none) :
    Refused (((List.replicate (more + 1) workersPrefix).flatten ++ text) :: rest)
      (.error s!"Invalid worker count: '{String.ofList text}'")
  | zeroCountEq (more : ℕ) {text : List Char} {rest : List (List Char)}
      (h : parseUnsigned 10 (2^64) text = some 0) :
    Refused (((List.replicate (more + 1) workersPrefix).flatten ++ text) :: rest)
      (.error "Worker count must be at least 1")
  | unknown {text : List Char} {rest : List (List Char)} (hdash : text.head? = some '-')
      (hname : ∀ name ∈ optionNames, text ≠ name.toList)
      (hcount : workersPrefix.isPrefixOf text = false) :
    Refused (text :: rest) (.error (s!"Unknown option: '{String.ofList text}'. Use --help to see the " ++
      "available options."))

/-! ## One argument -/

/-- `trim_start_matches` takes away all that stands at the front. -/
theorem trimStartText_replicate {pattern text : List Char} (hne : pattern ≠ [])
    (h : pattern.isPrefixOf text = false) (k : ℕ) :
    Linux.trimStartText pattern ((List.replicate k pattern).flatten ++ text) = text := by
  induction k with
  | zero => exact Linux.trimStartText_unprefixed h
  | succ k ih =>
    have hsplit : (List.replicate (k + 1) pattern).flatten ++ text =
        pattern ++ ((List.replicate k pattern).flatten ++ text) := by
      rw [List.replicate_succ, List.flatten_cons, List.append_assoc]
    have hprefix : pattern.isPrefixOf (pattern ++ ((List.replicate k pattern).flatten ++ text)) =
        true := List.isPrefixOf_iff_prefix.mpr (List.prefix_append _ _)
    rw [hsplit, Linux.trimStartText_prefixed hne hprefix, List.drop_left, ih]

/-- What it leaves does not start with the pattern. -/
theorem exists_trimStartText {pattern : List Char} (hne : pattern ≠ []) (text : List Char) :
    ∃ k, text = (List.replicate k pattern).flatten ++ Linux.trimStartText pattern text ∧
      pattern.isPrefixOf (Linux.trimStartText pattern text) = false := by
  induction hlen : text.length using Nat.strong_induction_on generalizing text with
  | _ n ih =>
    cases hpre : pattern.isPrefixOf text with
    | false =>
      rw [Linux.trimStartText_unprefixed hpre]
      exact ⟨0, rfl, hpre⟩
    | true =>
      obtain ⟨rest, rfl⟩ := List.isPrefixOf_iff_prefix.mp hpre
      have hpos : 0 < pattern.length := List.length_pos_of_ne_nil hne
      obtain ⟨k, hk, hend⟩ := ih rest.length
        (by rw [← hlen, List.length_append]; omega) rest rfl
      rw [Linux.trimStartText_prefixed hne hpre, List.drop_left]
      refine ⟨k + 1, ?_, hend⟩
      rw [List.replicate_succ, List.flatten_cons, List.append_assoc, ← hk]

/-- A number does not start with a dash. -/
theorem head?_of_parseUnsigned {bound n : ℕ} {text : List Char}
    (h : parseUnsigned 10 bound text = some n) : text.head? ≠ some '-' := by
  intro hdash
  obtain ⟨rest, rfl⟩ : ∃ rest, text = '-' :: rest := by
    cases text with
    | nil => cases hdash
    | cons c rest => exact ⟨rest, by rw [Option.some.inj hdash]⟩
  have hnone : digitsValue 10 ('-' :: rest) = none := by
    unfold digitsValue
    rw [List.foldlM_cons]
    rfl
  unfold parseUnsigned at h
  simp [hnone] at h

/-- So it does not start with the option. -/
theorem not_prefix_of_parseUnsigned {bound n : ℕ} {text : List Char}
    (h : parseUnsigned 10 bound text = some n) : workersPrefix.isPrefixOf text = false := by
  rw [Bool.eq_false_iff]
  intro hpre
  obtain ⟨rest, rfl⟩ := List.isPrefixOf_iff_prefix.mp hpre
  exact head?_of_parseUnsigned h rfl

/-- The first argument, and the texts after it. -/
def readArgument (arg : List Char) (args : List (List Char)) :
    Except Exit (Argument × List (List Char)) :=
  if named arg ["-h", "--help"] then .error .help
  else if named arg ["-V", "--version"] then .error .version
  else
    match flagOf arg with
    | some flag => .ok (.flag flag, args)
    | none =>
      if named arg ["--exclude"] then
        match args with
        | [] => .error (.error "A directory is required for --exclude")
        | value :: args => .ok (.exclude value, args)
      else if named arg ["--max-depth"] then
        match args with
        | [] => .error (.error "A numeric value is required for --max-depth")
        | value :: args =>
          match parseUnsigned 10 (2^64) value with
          | none => .error (.error s!"Invalid maximum depth: '{String.ofList value}'")
          | some depth => .ok (.maxDepth depth, args)
      else if named arg ["-w", "--workers"] then
        match args with
        | [] => .error (.error "A numeric value is required for --workers")
        | value :: args => (parseWorkers value).map fun count => (.workers count, args)
      else if workersPrefix.isPrefixOf arg then
        (parseWorkers (Linux.trimStartText workersPrefix arg)).map fun count => (.workers count, args)
      else if arg.head? = some '-' then
        .error (.error (s!"Unknown option: '{String.ofList arg}'. Use --help to see the " ++
          "available options."))
      else .ok (.target arg, args)

/-- What an argument does to the configuration. -/
def Argument.apply (config : CliConfig) : Argument → CliConfig
  | .flag f => f.set config
  | .exclude directory =>
    { config with excludedDirectories := config.excludedDirectories ++ [directory] }
  | .maxDepth depth => { config with maxDepth := some depth }
  | .workers count => { config with maxWorkers := some count }
  | .target path => { config with targetPath := some path }

/-- The loop reads one argument, and refuses a second target. -/
theorem parseArgsFrom_cons (arg : List Char) (args : List (List Char)) (config : CliConfig) :
    parseArgsFrom (arg :: args) config =
      match readArgument arg args with
      | .error exit => .error exit
      | .ok (argument, rest) =>
        if argument.path?.isSome && config.targetPath.isSome then
          .error (.error s!"Unexpected positional argument: '{String.ofList arg}'")
        else parseArgsFrom rest (argument.apply config) := by
  conv_lhs => unfold parseArgsFrom
  unfold readArgument
  by_cases hhelp : named arg ["-h", "--help"] = true
  · rw [if_pos hhelp, if_pos hhelp]
  rw [if_neg hhelp, if_neg hhelp]
  by_cases hversion : named arg ["-V", "--version"] = true
  · rw [if_pos hversion, if_pos hversion]
  rw [if_neg hversion, if_neg hversion]
  cases flagOf arg with
  | some f => rfl
  | none =>
    dsimp only
    by_cases hexclude : named arg ["--exclude"] = true
    · rw [if_pos hexclude, if_pos hexclude]
      cases args <;> rfl
    rw [if_neg hexclude, if_neg hexclude]
    by_cases hdepth : named arg ["--max-depth"] = true
    · rw [if_pos hdepth, if_pos hdepth]
      cases args with
      | nil => rfl
      | cons value args =>
        dsimp only
        cases parseUnsigned 10 (2^64) value <;> rfl
    rw [if_neg hdepth, if_neg hdepth]
    by_cases hworkers : named arg ["-w", "--workers"] = true
    · rw [if_pos hworkers, if_pos hworkers]
      cases args with
      | nil => rfl
      | cons value args =>
        dsimp only
        cases parseWorkers value <;> rfl
    rw [if_neg hworkers, if_neg hworkers]
    by_cases hequals : workersPrefix.isPrefixOf arg = true
    · rw [if_pos hequals, if_pos hequals]
      cases parseWorkers (Linux.trimStartText workersPrefix arg) <;> rfl
    rw [if_neg hequals, if_neg hequals]
    by_cases hdash : arg.head? = some '-'
    · rw [if_pos hdash, if_pos hdash]
    rw [if_neg hdash, if_neg hdash]
    cases config.targetPath <;> simp [Argument.path?, Argument.apply]

/-- The texts that are one of several names. -/
theorem named_iff {arg : List Char} {names : List String} :
    named arg names = true ↔ ∃ name ∈ names, arg = name.toList := by
  unfold named
  rw [List.any_eq_true]
  exact exists_congr fun name => and_congr_right fun _ => decide_eq_true_iff

/-- The texts that are the name of a flag. -/
theorem name_of_flagOf {arg : List Char} {f : Flag} (h : flagOf arg = some f) :
    ∃ name ∈ f.names, arg = name.toList := by
  have hfound := List.find?_some h
  exact named_iff.mp hfound

/-- The texts that are not. -/
theorem ne_of_flagOf {arg : List Char} (h : flagOf arg = none) :
    ∀ name ∈ flags.flatMap Flag.names, arg ≠ name.toList := by
  intro name hname heq
  obtain ⟨f, hf, hname⟩ := List.mem_flatMap.mp hname
  exact List.find?_eq_none.mp h f hf (named_iff.mpr ⟨name, hname, heq⟩)

/-- The texts that a count is written with. -/
theorem parseWorkers_spec (text : List Char) :
    match parseWorkers text with
    | .ok count => parseUnsigned 10 (2^64) text = some count ∧ 0 < count
    | .error exit => (parseUnsigned 10 (2^64) text = none ∧
        exit = .error s!"Invalid worker count: '{String.ofList text}'") ∨
      (parseUnsigned 10 (2^64) text = some 0 ∧
        exit = .error "Worker count must be at least 1") := by
  unfold parseWorkers
  rcases h : parseUnsigned 10 (2^64) text with _ | _ | n
  · exact Or.inl ⟨rfl, rfl⟩
  · exact Or.inr ⟨rfl, rfl⟩
  · exact ⟨rfl, Nat.succ_pos n⟩

/-- What is read was written like that, and what is not read is refused for a reason. -/
theorem readArgument_spec (arg : List Char) (args : List (List Char)) :
    match readArgument arg args with
    | .ok (argument, rest) => ∃ texts, argument.Written texts ∧ arg :: args = texts ++ rest
    | .error exit => Refused (arg :: args) exit := by
  unfold readArgument
  -- `-h` and `-V` end the program.
  by_cases hhelp : named arg ["-h", "--help"] = true
  · rw [if_pos hhelp]
    obtain ⟨name, hname, rfl⟩ := named_iff.mp hhelp
    exact .help hname
  rw [if_neg hhelp]
  by_cases hversion : named arg ["-V", "--version"] = true
  · rw [if_pos hversion]
    obtain ⟨name, hname, rfl⟩ := named_iff.mp hversion
    exact .version hname
  rw [if_neg hversion]
  -- A flag has no value.
  cases hflag : flagOf arg with
  | some f =>
    obtain ⟨name, hname, rfl⟩ := name_of_flagOf hflag
    exact ⟨_, .flag hname, rfl⟩
  | none =>
    dsimp only
    -- Any argument after `--exclude` is its value.
    by_cases hexclude : named arg ["--exclude"] = true
    · rw [if_pos hexclude]
      obtain ⟨name, hname, rfl⟩ := named_iff.mp hexclude
      obtain rfl := List.mem_singleton.mp hname
      cases args with
      | nil => exact .noDirectory
      | cons value args => exact ⟨_, .exclude value, rfl⟩
    rw [if_neg hexclude]
    -- The value of `--max-depth` has to be a number.
    by_cases hdepth : named arg ["--max-depth"] = true
    · rw [if_pos hdepth]
      obtain ⟨name, hname, rfl⟩ := named_iff.mp hdepth
      obtain rfl := List.mem_singleton.mp hname
      cases args with
      | nil => exact .noDepth
      | cons value args =>
        dsimp only
        cases hparse : parseUnsigned 10 (2^64) value with
        | none => exact .badDepth hparse
        | some depth => exact ⟨_, .maxDepth hparse, rfl⟩
    rw [if_neg hdepth]
    -- The value of `-w` has to be a number other than zero.
    by_cases hworkers : named arg ["-w", "--workers"] = true
    · rw [if_pos hworkers]
      obtain ⟨name, hname, rfl⟩ := named_iff.mp hworkers
      cases args with
      | nil => exact .noCount hname
      | cons value args =>
        have hspec := parseWorkers_spec value
        dsimp only
        cases hparse : parseWorkers value with
        | ok count =>
          rw [hparse] at hspec
          exact ⟨_, .workers hname hspec.1 hspec.2, rfl⟩
        | error exit =>
          rw [hparse] at hspec
          rcases hspec with ⟨hnone, rfl⟩ | ⟨hzero, rfl⟩
          · exact .badCount hname hnone
          · exact .zeroCount hname hzero
    rw [if_neg hworkers]
    -- `--workers=` with the value in the same argument; the prefix may be repeated.
    by_cases hequals : workersPrefix.isPrefixOf arg = true
    · rw [if_pos hequals]
      obtain ⟨k, hk, hend⟩ := exists_trimStartText (by decide : workersPrefix ≠ []) arg
      -- There is one prefix at least, by the test.
      obtain ⟨more, rfl⟩ : ∃ more, k = more + 1 := by
        refine Nat.exists_eq_succ_of_ne_zero ?_
        rintro rfl
        rw [List.replicate_zero, List.flatten_nil, List.nil_append] at hk
        rw [← hk, hequals] at hend
        cases hend
      generalize Linux.trimStartText workersPrefix arg = text at hk hend
      subst hk
      have hspec := parseWorkers_spec text
      cases hparse : parseWorkers text with
      | ok count =>
        rw [hparse] at hspec
        exact ⟨_, .workersEq more hspec.1 hspec.2, rfl⟩
      | error exit =>
        rw [hparse] at hspec
        rcases hspec with ⟨hnone, rfl⟩ | ⟨hzero, rfl⟩
        · exact .badCountEq more hend hnone
        · exact .zeroCountEq more hzero
    rw [if_neg hequals]
    -- Any other argument with a dash is unknown, since it is none of the names before.
    by_cases hdash : arg.head? = some '-'
    · rw [if_pos hdash]
      refine .unknown hdash ?_ (Bool.eq_false_iff.mpr hequals)
      intro name hname heq
      rcases List.mem_append.mp hname with hname | hname
      · simp only [List.mem_cons, List.not_mem_nil, or_false] at hname
        rcases hname with rfl | rfl | rfl | rfl | rfl | rfl | rfl | rfl
        · exact hhelp (named_iff.mpr ⟨_, by simp, heq⟩)
        · exact hhelp (named_iff.mpr ⟨_, by simp, heq⟩)
        · exact hversion (named_iff.mpr ⟨_, by simp, heq⟩)
        · exact hversion (named_iff.mpr ⟨_, by simp, heq⟩)
        · exact hexclude (named_iff.mpr ⟨_, by simp, heq⟩)
        · exact hdepth (named_iff.mpr ⟨_, by simp, heq⟩)
        · exact hworkers (named_iff.mpr ⟨_, by simp, heq⟩)
        · exact hworkers (named_iff.mpr ⟨_, by simp, heq⟩)
      · exact ne_of_flagOf hflag name hname heq
    · rw [if_neg hdash]
      exact ⟨_, .target hdash, rfl⟩

/-- A text that is not the name of an option. -/
theorem readArgument_unnamed {arg : List Char} (h : ∀ name ∈ optionNames, arg ≠ name.toList)
    (args : List (List Char)) :
    readArgument arg args =
      if workersPrefix.isPrefixOf arg then
        (parseWorkers (Linux.trimStartText workersPrefix arg)).map fun count => (.workers count, args)
      else if arg.head? = some '-' then
        .error (.error (s!"Unknown option: '{String.ofList arg}'. Use --help to see the " ++
          "available options."))
      else .ok (.target arg, args) := by
  have hnamed : ∀ names : List String, names ⊆ optionNames → ¬ named arg names = true := by
    intro names hsub hnamed
    obtain ⟨name, hname, heq⟩ := named_iff.mp hnamed
    exact h name (hsub hname) heq
  have hflag : flagOf arg = none := by
    refine List.find?_eq_none.mpr fun f hf => hnamed f.names fun name hname => ?_
    exact List.mem_append_right _ (List.mem_flatMap.mpr ⟨f, hf, hname⟩)
  unfold readArgument
  rw [if_neg (hnamed _ (by decide)), if_neg (hnamed _ (by decide)), hflag]
  dsimp only
  rw [if_neg (hnamed _ (by decide)), if_neg (hnamed _ (by decide)), if_neg (hnamed _ (by decide))]

/-- A text that starts with the option, the equals sign included. -/
theorem readArgument_equals (more : ℕ) {text : List Char}
    (hend : workersPrefix.isPrefixOf text = false) (args : List (List Char)) :
    readArgument ((List.replicate (more + 1) workersPrefix).flatten ++ text) args =
      (parseWorkers text).map fun count => (.workers count, args) := by
  have hprefix : workersPrefix.isPrefixOf
      ((List.replicate (more + 1) workersPrefix).flatten ++ text) = true := by
    rw [List.replicate_succ, List.flatten_cons, List.append_assoc]
    exact List.isPrefixOf_iff_prefix.mpr (List.prefix_append _ _)
  have hnames : ∀ name ∈ optionNames, workersPrefix.isPrefixOf name.toList = false := by decide
  rw [readArgument_unnamed, if_pos hprefix, trimStartText_replicate (by decide) hend]
  intro name hname heq
  rw [heq, hnames name hname] at hprefix
  cases hprefix

/-- The names of the flags. -/
theorem readArgument_flag {f : Flag} {name : String} (h : name ∈ f.names)
    (args : List (List Char)) : readArgument name.toList args = .ok (.flag f, args) := by
  have hnames : ∀ name ∈ f.names, named name.toList ["-h", "--help"] = false ∧
      named name.toList ["-V", "--version"] = false ∧ flagOf name.toList = some f := by
    cases f <;> decide
  obtain ⟨hhelp, hversion, hflag⟩ := hnames name h
  unfold readArgument
  rw [if_neg (by rw [hhelp]; decide), if_neg (by rw [hversion]; decide), hflag]

/-- The name of an option with a value. -/
theorem readArgument_workers {name : String} (h : name ∈ ["-w", "--workers"]) (text : List Char)
    (args : List (List Char)) :
    readArgument name.toList (text :: args) =
      (parseWorkers text).map fun count => (.workers count, args) := by
  simp only [List.mem_cons, List.not_mem_nil, or_false] at h
  rcases h with rfl | rfl <;> rfl

/-- An argument is read as it was written. -/
theorem readArgument_of_written {arg : List Char} {args rest texts : List (List Char)}
    {argument : Argument} (h : argument.Written texts) (heq : arg :: args = texts ++ rest) :
    readArgument arg args = .ok (argument, rest) := by
  have hcount : ∀ {text : List Char} {count : ℕ}, parseUnsigned 10 (2^64) text = some count →
      0 < count → parseWorkers text = .ok count := by
    intro text count hparse hpos
    obtain ⟨n, rfl⟩ := Nat.exists_eq_succ_of_ne_zero (Nat.ne_of_gt hpos)
    unfold parseWorkers
    rw [hparse]
    rfl
  cases h with
  | flag hname =>
    cases heq
    exact readArgument_flag hname rest
  | exclude directory =>
    cases heq
    rfl
  | @maxDepth depth text hparse =>
    cases heq
    show (match parseUnsigned 10 (2^64) text with
      | none => Except.error (Exit.error s!"Invalid maximum depth: '{String.ofList text}'")
      | some depth => .ok (Argument.maxDepth depth, rest)) = _
    rw [hparse]
  | workers hname hparse hpos =>
    cases heq
    refine (readArgument_workers hname _ rest).trans ?_
    rw [hcount hparse hpos]
    rfl
  | workersEq more hparse hpos =>
    cases heq
    rw [readArgument_equals more (not_prefix_of_parseUnsigned hparse), hcount hparse hpos]
    rfl
  | target hpath =>
    cases heq
    have hnames : ∀ name ∈ optionNames, name.toList.head? = some '-' := by decide
    have hunnamed : ∀ name ∈ optionNames, arg ≠ name.toList := by
      rintro name hname rfl
      exact hpath (hnames name hname)
    have hprefix : ¬ workersPrefix.isPrefixOf arg = true := by
      intro hpre
      obtain ⟨text, rfl⟩ := List.isPrefixOf_iff_prefix.mp hpre
      exact hpath rfl
    rw [readArgument_unnamed hunnamed, if_neg hprefix, if_neg hpath]
    rfl

/-- What is refused is not read. -/
theorem readArgument_of_refused {arg : List Char} {args : List (List Char)} {exit : Exit}
    (h : Refused (arg :: args) exit) : readArgument arg args = .error exit := by
  have hbad : ∀ {text : List Char}, parseUnsigned 10 (2^64) text = none → parseWorkers text =
      .error (.error s!"Invalid worker count: '{String.ofList text}'") := by
    intro text hparse
    unfold parseWorkers
    rw [hparse]
  have hzero : ∀ {text : List Char}, parseUnsigned 10 (2^64) text = some 0 → parseWorkers text =
      .error (.error "Worker count must be at least 1") := by
    intro text hparse
    unfold parseWorkers
    rw [hparse]
    rfl
  cases h with
  | help hname =>
    simp only [List.mem_cons, List.not_mem_nil, or_false] at hname
    rcases hname with rfl | rfl <;> rfl
  | version hname =>
    simp only [List.mem_cons, List.not_mem_nil, or_false] at hname
    rcases hname with rfl | rfl <;> rfl
  | noDirectory => rfl
  | noDepth => rfl
  | @badDepth text rest hparse =>
    show (match parseUnsigned 10 (2^64) text with
      | none => Except.error (Exit.error s!"Invalid maximum depth: '{String.ofList text}'")
      | some depth => .ok (Argument.maxDepth depth, rest)) = _
    rw [hparse]
  | noCount hname =>
    simp only [List.mem_cons, List.not_mem_nil, or_false] at hname
    rcases hname with rfl | rfl <;> rfl
  | badCount hname hparse =>
    rw [readArgument_workers hname, hbad hparse]
    rfl
  | zeroCount hname hparse =>
    rw [readArgument_workers hname, hzero hparse]
    rfl
  | badCountEq more hend hparse =>
    rw [readArgument_equals more hend, hbad hparse]
    rfl
  | zeroCountEq more hparse =>
    rw [readArgument_equals more (not_prefix_of_parseUnsigned hparse), hzero hparse]
    rfl
  | unknown hdash hname hcount =>
    rw [readArgument_unnamed hname, if_neg (by rw [hcount]; decide), if_pos hdash]

/-! ## All arguments -/

/-- The targets among the arguments. -/
def targets (arguments : List Argument) : List (List Char) := arguments.filterMap Argument.path?

/-- One more argument, after some that are no second target. -/
theorem apply_configOf (before : List Argument) (argument : Argument)
    (h : (targets (before ++ [argument])).length ≤ 1) :
    argument.apply (configOf before) = configOf (before ++ [argument]) := by
  cases argument with
  | flag f => cases f <;> simp [Argument.apply, Flag.set, configOf, Argument.path?,
      Argument.count?, Argument.directory?, Argument.depth?]
  | exclude directory => simp [Argument.apply, configOf, Argument.path?,
      Argument.count?, Argument.directory?, Argument.depth?]
  | maxDepth depth => simp [Argument.apply, configOf, Argument.path?,
      Argument.count?, Argument.directory?, Argument.depth?]
  | workers count => simp [Argument.apply, configOf, Argument.path?,
      Argument.count?, Argument.directory?, Argument.depth?]
  | target path =>
    have hnone : before.filterMap Argument.path? = [] := by
      simpa [targets, Argument.path?] using h
    simp [Argument.apply, configOf, Argument.path?, hnone,
      Argument.count?, Argument.directory?, Argument.depth?]

/-- An argument takes at least one text. -/
theorem Argument.Written.length_pos {argument : Argument} {texts : List (List Char)}
    (h : argument.Written texts) : 0 < texts.length := by
  cases h <;> simp

/-- Fewer arguments have fewer targets. -/
theorem targets_append_le {before after : List Argument} (h : (targets (before ++ after)).length ≤ 1) :
    (targets before).length ≤ 1 := by
  rw [targets, List.filterMap_append, List.length_append] at h
  exact (Nat.le_add_right _ _).trans h

/-- A target is written as it is. -/
theorem Argument.Written.of_path {argument : Argument} {texts : List (List Char)}
    (h : argument.Written texts) (hpath : argument.path?.isSome = true) {arg : List Char}
    {args rest : List (List Char)} (heq : arg :: args = texts ++ rest) :
    texts = [arg] ∧ arg.head? ≠ some '-' := by
  cases h with
  | target hdash =>
    obtain ⟨rfl, -⟩ := List.cons.inj heq
    exact ⟨rfl, hdash⟩
  | _ => cases hpath

/-- The configuration has a target when there is one among the arguments. -/
theorem isSome_targetPath_iff {arguments : List Argument} :
    (configOf arguments).targetPath.isSome = true ↔ 0 < (targets arguments).length := by
  show ((targets arguments).head?).isSome = true ↔ _
  cases targets arguments <;> simp

/-- The targets after one more argument. -/
theorem targets_concat (before : List Argument) (argument : Argument) :
    targets (before ++ [argument]) = targets before ++ argument.path?.toList := by
  rw [targets, List.filterMap_append]
  cases argument <;> rfl

/-- An argument is no second target. -/
theorem length_targets_concat {before : List Argument} {argument : Argument}
    (hbefore : (targets before).length ≤ 1) :
    (targets (before ++ [argument])).length ≤ 1 ↔
      ¬ (argument.path?.isSome && (configOf before).targetPath.isSome) = true := by
  rw [targets_concat, List.length_append, Bool.and_eq_true, isSome_targetPath_iff]
  cases argument.path? with
  | none => simpa using hbefore
  | some path =>
    simp only [Option.toList_some, List.length_singleton, Option.isSome_some, true_and]
    omega

/-- The loop, once it has read the arguments `before`. -/
theorem parseArgsFrom_spec (args : List (List Char)) (before : List Argument)
    (hbefore : (targets before).length ≤ 1) :
    match parseArgsFrom args (configOf before) with
    | .ok config => ∃ arguments, AllWritten arguments args ∧
        (targets (before ++ arguments)).length ≤ 1 ∧ config = configOf (before ++ arguments)
    | .error exit => ∃ arguments texts rest, AllWritten arguments texts ∧ args = texts ++ rest ∧
        (targets (before ++ arguments)).length ≤ 1 ∧
        (Refused rest exit ∨ ∃ path others, rest = path :: others ∧ path.head? ≠ some '-' ∧
          (targets (before ++ arguments)).length = 1 ∧
          exit = .error s!"Unexpected positional argument: '{String.ofList path}'") := by
  induction hlen : args.length using Nat.strong_induction_on generalizing args before with
  | _ n ih =>
    cases args with
    | nil =>
      show ∃ arguments, _
      exact ⟨[], .nil, by rwa [List.append_nil], by rw [List.append_nil]⟩
    | cons arg args =>
      have hspec := readArgument_spec arg args
      rw [parseArgsFrom_cons]
      cases hread : readArgument arg args with
      | error exit =>
        rw [hread] at hspec
        exact ⟨[], [], arg :: args, .nil, rfl, by rwa [List.append_nil], Or.inl hspec⟩
      | ok read =>
        obtain ⟨argument, rest⟩ := read
        rw [hread] at hspec
        obtain ⟨texts, hwritten, heq⟩ := hspec
        dsimp only
        by_cases hsecond : (argument.path?.isSome && (configOf before).targetPath.isSome) = true
        · -- A second target.
          rw [if_pos hsecond]
          obtain ⟨hpath, hseen⟩ := (Bool.and_eq_true _ _).mp hsecond
          have hpos := isSome_targetPath_iff.mp hseen
          obtain ⟨rfl, hdash⟩ := hwritten.of_path hpath heq
          exact ⟨[], [], _, .nil, rfl, by rwa [List.append_nil], Or.inr ⟨arg, args, rfl, hdash,
            by rw [List.append_nil]; omega, rfl⟩⟩
        · rw [if_neg hsecond]
          have hone := (length_targets_concat hbefore).mpr hsecond
          have hshort : rest.length < n := by
            have hpos := hwritten.length_pos
            have hsum := congrArg List.length heq
            rw [List.length_append, hlen] at hsum
            omega
          have hrest := ih rest.length hshort rest (before ++ [argument]) hone rfl
          rw [apply_configOf before argument hone]
          cases hparse : parseArgsFrom rest (configOf (before ++ [argument])) with
          | ok config =>
            rw [hparse] at hrest
            obtain ⟨arguments, hall, htargets, rfl⟩ := hrest
            rw [List.append_assoc, List.singleton_append] at htargets
            refine ⟨argument :: arguments, by rw [heq]; exact .cons hwritten hall, htargets, ?_⟩
            rw [List.append_assoc, List.singleton_append]
          | error exit =>
            rw [hparse] at hrest
            obtain ⟨arguments, read, rest, hall, rfl, htargets, hrefused⟩ := hrest
            rw [List.append_assoc, List.singleton_append] at htargets hrefused
            exact ⟨argument :: arguments, texts ++ read, rest, .cons hwritten hall,
              by rw [heq, List.append_assoc], htargets, hrefused⟩

/-- Written arguments are read, and the loop goes on behind them. -/
theorem parseArgsFrom_append {arguments : List Argument} {texts : List (List Char)}
    (hall : AllWritten arguments texts) (before : List Argument)
    (h : (targets (before ++ arguments)).length ≤ 1) (rest : List (List Char)) :
    parseArgsFrom (texts ++ rest) (configOf before) =
      parseArgsFrom rest (configOf (before ++ arguments)) := by
  induction hall generalizing before with
  | nil => rw [List.nil_append, List.append_nil]
  | @cons argument arguments texts others hwritten _ ih =>
    have hsplit : before ++ argument :: arguments = before ++ [argument] ++ arguments := by
      rw [List.append_assoc, List.singleton_append]
    rw [hsplit] at h ⊢
    have hone := targets_append_le h
    have hfirst := (length_targets_concat (targets_append_le hone)).mp hone
    obtain ⟨arg, args, hcons⟩ : ∃ arg args, texts ++ (others ++ rest) = arg :: args :=
      List.exists_cons_of_ne_nil (List.ne_nil_of_length_pos
        (by rw [List.length_append]; have := hwritten.length_pos; omega))
    rw [List.append_assoc, hcons, parseArgsFrom_cons,
      readArgument_of_written hwritten hcons.symm]
    dsimp only
    rw [if_neg hfirst, apply_configOf before argument hone, ih _ h]

/-- The arguments are accepted exactly when they are written as a list of arguments with at most one
target, and the configuration is the one that this list says. -/
theorem parseArgsFrom_ok_iff (args : List (List Char)) (config : CliConfig) :
    parseArgsFrom args {} = .ok config ↔ ∃ arguments, AllWritten arguments args ∧
      (targets arguments).length ≤ 1 ∧ config = configOf arguments := by
  have hempty : configOf [] = {} := rfl
  constructor
  · intro h
    have hspec := parseArgsFrom_spec args [] (Nat.zero_le _)
    rw [hempty, h] at hspec
    exact hspec
  · rintro ⟨arguments, hall, hone, rfl⟩
    have hread := parseArgsFrom_append hall [] hone []
    rw [List.append_nil, List.nil_append, hempty] at hread
    rw [hread]
    rfl

/-- They are refused exactly when some arguments, written like that, are followed by a list of texts
that does not start with an argument, or by a second target. -/
theorem parseArgsFrom_error_iff (args : List (List Char)) (exit : Exit) :
    parseArgsFrom args {} = .error exit ↔ ∃ arguments texts rest, AllWritten arguments texts ∧
      args = texts ++ rest ∧ (targets arguments).length ≤ 1 ∧
      (Refused rest exit ∨ ∃ path others, rest = path :: others ∧ path.head? ≠ some '-' ∧
        (targets arguments).length = 1 ∧
        exit = .error s!"Unexpected positional argument: '{String.ofList path}'") := by
  have hempty : configOf [] = {} := rfl
  constructor
  · intro h
    have hspec := parseArgsFrom_spec args [] (Nat.zero_le _)
    rw [hempty, h] at hspec
    exact hspec
  · rintro ⟨arguments, texts, rest, hall, rfl, hone, hrefused⟩
    have hread := parseArgsFrom_append hall [] hone rest
    rw [List.nil_append, hempty] at hread
    rw [hread]
    rcases hrefused with hrefused | ⟨path, others, rfl, hdash, hlen, rfl⟩
    · obtain ⟨arg, args, rfl⟩ : ∃ arg args, rest = arg :: args := by cases hrefused <;> exact ⟨_, _, rfl⟩
      rw [parseArgsFrom_cons, readArgument_of_refused hrefused]
    · have hseen : (configOf arguments).targetPath.isSome = true :=
        isSome_targetPath_iff.mpr (by omega)
      have hread : readArgument path others = .ok (.target path, others) :=
        readArgument_of_written (.target hdash) rfl
      rw [parseArgsFrom_cons, hread]
      dsimp only
      rw [hseen]
      rfl

end VmSpect.Cli
