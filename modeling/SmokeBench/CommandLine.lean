import SmokeBench.Catalog.Basic

/-!
The command line of the bench. Arguments are read from left to right and the first fault counts. An
option that takes a value and has none of its own waits for the next argument; whether it got one is
looked at when the next option comes or the arguments end.
-/

namespace SmokeBench

structure Invocation where
  showVersion : Bool
  list : Bool
  overrides : Overrides
  suites : List SuiteKind
  deriving DecidableEq, Repr

namespace CommandLine

inductive Switch
  | version
  | list
  | help
  deriving DecidableEq, Repr

inductive Setting
  | config
  | srcDir
  | qtDir
  | suite
  | summaryDir
  deriving DecidableEq, Repr

def Switch.flag : Switch → String
  | version => "--version"
  | list => "--list"
  | help => "--help"

def Setting.flag : Setting → String
  | config => "--config"
  | srcDir => "--src-dir"
  | qtDir => "--qt-dir"
  | suite => "--suite"
  | summaryDir => "--summary-dir"

def Setting.placeholder : Setting → String
  | config => "PATH"
  | srcDir | qtDir | summaryDir => "DIR"
  | suite => "SUITE"

def Setting.usage (s : Setting) : String := s!"{s.flag} <{s.placeholder}>"

inductive UsageError
  | unexpectedArgument (argument : String)
  | unexpectedValue (value : String) (switch : Switch)
  | missingValue (setting : Setting)
  | invalidValue (value : String) (setting : Setting)
  | repeated (usage : String)
  deriving DecidableEq, Repr

/-- The first line of what is said about a fault. -/
def UsageError.message : UsageError → String
  | unexpectedArgument a => s!"unexpected argument '{a}' found"
  | unexpectedValue v s => s!"unexpected value '{v}' for '{s.flag}' found; no more were expected"
  | missingValue s => s!"a value is required for '{s.usage}' but none was supplied"
  | invalidValue v s => s!"invalid value '{v}' for '{s.usage}'"
  | repeated usage => s!"the argument '{usage}' cannot be used multiple times"

inductive Stop
  | help (detailed : Bool)
  | fault (e : UsageError)
  deriving DecidableEq, Repr

structure State where
  invocation : Invocation
  /-- The option that waits for its value. -/
  awaiting : Option Setting
  deriving DecidableEq, Repr

def State.start : State := ⟨⟨false, false, ⟨none, none, none, none⟩, []⟩, none⟩

abbrev Step := Except Stop State

def fail {α : Type} (e : UsageError) : Except Stop α := .error (.fault e)

def once (s : Setting) (old : Option Path) (value : Path) : Except Stop (Option Path) :=
  match old with
  | some _ => fail (.repeated s.usage)
  | none => if value.bytes.isEmpty then fail (.missingValue s) else .ok (some value)

/-- Gives an option its value. -/
def take (state : State) (s : Setting) (value : Bytes) : Step := do
  let i := state.invocation
  let o := i.overrides
  match s with
  | .config =>
    let config ← once s o.config ⟨value⟩
    return ⟨{ i with overrides := { o with config } }, none⟩
  | .srcDir =>
    let srcDir ← once s o.srcDir ⟨value⟩
    return ⟨{ i with overrides := { o with srcDir } }, none⟩
  | .qtDir =>
    let qtDir ← once s o.qtDir ⟨value⟩
    return ⟨{ i with overrides := { o with qtDir } }, none⟩
  | .summaryDir =>
    let summaryDir ← once s o.summaryDir ⟨value⟩
    return ⟨{ i with overrides := { o with summaryDir } }, none⟩
  | .suite =>
    let text := Text.Utf8.lossy value
    match SuiteKind.ofKey? text with
    | some kind => return ⟨{ i with suites := i.suites ++ [kind] }, none⟩
    | none => if text.isEmpty then fail (.missingValue s) else fail (.invalidValue text s)

/-- Before the next option, none may still wait for its value. -/
def settle (state : State) : Step :=
  match state.awaiting with
  | some s => fail (.missingValue s)
  | none => .ok state

def turnOn (state : State) (s : Switch) : Step := do
  let state ← settle state
  let i := state.invocation
  match s with
  | .help => .error (.help true)
  | .version =>
    if i.showVersion then fail (.repeated s.flag)
    else return { state with invocation := { i with showVersion := true } }
  | .list =>
    if i.list then fail (.repeated s.flag)
    else return { state with invocation := { i with list := true } }

def switches : List Switch := [.version, .list, .help]
def settings : List Setting := [.config, .srcDir, .qtDir, .suite, .summaryDir]

def equalsSign : UInt8 := 61
def dash : UInt8 := 45

/-- An argument with two dashes in front: a flag, and a value after an equals sign. -/
def long (state : State) (argument : Bytes) : Step :=
  let flag := Text.Utf8.lossy (argument.takeWhile (· != equalsSign))
  let value := match argument.dropWhile (· != equalsSign) with
    | [] => none
    | _ :: value => some value
  match switches.find? (·.flag == flag), settings.find? (·.flag == flag), value with
  | some s, _, none => turnOn state s
  | some s, _, some value => fail (.unexpectedValue (Text.Utf8.lossy value) s)
  | none, some s, none => do return { ← settle state with awaiting := some s }
  | none, some s, some value => do take (← settle state) s value
  | none, none, _ => fail (.unexpectedArgument flag)

/-- An argument with one dash in front; help has the only short name. -/
def short (argument : Bytes) (state : State) : Step :=
  match (Text.Utf8.lossy argument).toList.drop 1 with
  | 'h' :: _ => do
    discard (settle state)
    .error (.help false)
  | c :: _ => fail (.unexpectedArgument (String.ofList ['-', c]))
  | [] => .ok state

def step (state : State) (argument : Bytes) : Step :=
  if [dash, dash].isPrefixOf argument then long state argument
  else if argument.head? = some dash ∧ 1 < argument.length then short argument state
  else
    match state.awaiting with
    | some s => take { state with awaiting := none } s argument
    | none => fail (.unexpectedArgument (Text.Utf8.lossy argument))

/-- Reads arguments in order; after two dashes alone no argument is expected. -/
def readFrom (state : State) : List Bytes → Step
  | [] => settle state
  | argument :: rest =>
    if argument = [dash, dash] then
      match rest with
      | [] => settle state
      | extra :: _ => fail (.unexpectedArgument (Text.Utf8.lossy extra))
    else
      match step state argument with
      | .ok state => readFrom state rest
      | .error stop => .error stop

def parse (args : List Bytes) : Except Stop Invocation := (·.invocation) <$> readFrom .start args

def programName : String := "lcc-sanity"
def version : String := "0.1.0"

structure OptionHelp where
  usage : String
  text : String

def switchHelp : Switch → OptionHelp
  | .version => ⟨"    --version", "Print version information and exit"⟩
  | .list => ⟨"    --list", "List the selected suites and their scenarios, then exit"⟩
  | .help => ⟨"-h, --help", ""⟩

def settingText : Setting → String
  | .config => "Optional TOML settings file"
  | .srcDir => "Directory holding litecoincashd, litecoincash-cli, and litecoincash-tx"
  | .qtDir => "Directory holding litecoincash-qt (defaults to \x60<src-dir>/qt\x60)"
  | .suite => "Suite to run; repeat to select several (defaults to all)"
  | .summaryDir => "Directory for summary.json and summary.md"

def suiteText : SuiteKind → String
  | .binaries => "Binary existence and basic response"
  | .config => "Configuration parsing"
  | .datadir => "Data directory and file creation"

def padRight (width : Nat) (s : String) : String :=
  s ++ String.ofList (List.replicate (width - s.length) ' ')

/-- The values of an option that knows them all: in one line, or a line for each with its meaning. -/
def knownValues (detailed : Bool) : Setting → List String
  | .suite =>
    if detailed then
      ["", "Possible values:"] ++
        SuiteKind.all.map fun k => "- " ++ padRight 10 (k.key ++ ":") ++ suiteText k
    else ["[possible values: " ++ String.intercalate ", " (SuiteKind.all.map SuiteKind.key) ++ "]"]
  | _ => []

/-- Every option with its help, in the order in which they are listed. -/
def optionHelps (detailed : Bool) : List (String × List String) :=
  let ofSwitch (s : Switch) : String × List String := ((switchHelp s).usage, [(switchHelp s).text])
  let ofSetting (s : Setting) : String × List String :=
    ("    " ++ s.usage, settingText s :: knownValues detailed s)
  let help := if detailed then "Print help (see a summary with '-h')"
    else "Print help (see more with '--help')"
  [ofSwitch .version, ofSwitch .list] ++ settings.map ofSetting ++
    [((switchHelp .help).usage, [help])]

/-- The width of the longest usage. -/
def usageColumn : Nat := (optionHelps false).foldl (fun n o => Nat.max n o.1.length) 0

def helpLines (detailed : Bool) : List String :=
  let options :=
    if detailed then
      (optionHelps true).flatMap fun (usage, lines) =>
        ["  " ++ usage] ++ lines.map (fun l => if l.isEmpty then "" else "          " ++ l) ++ [""]
    else
      (optionHelps false).map fun (usage, lines) =>
        "  " ++ padRight usageColumn usage ++ "  " ++ String.intercalate " " lines
  let options := if detailed then options.dropLast else options
  ["Smoke-test freshly built LitecoinCash binaries.", "", s!"Usage: {programName} [OPTIONS]", "",
    "Options:"] ++ options

def helpText (detailed : Bool) : String := String.join ((helpLines detailed).map (· ++ "\n"))

end CommandLine

end SmokeBench
