import SlashCommands.Demo.Replay
import SlashCommands.Json.Printer

/-!
# The command line

The program lists the demo commands, prints their payloads, or replays a script on them. Options are
read from left to right and the first one that is wrong, or that only asks for the version, ends the
reading.
-/

namespace SlashCommands.Cli

/-- The options of a command line. A switch not given leaves its option unset. -/
structure Options where
  config : Option String
  logLevel : Option String
  script : Option String
  printPayloads : Bool
deriving DecidableEq

/-- What a command line is read as. -/
inductive Parsed
  | options (options : Options)
  | version
  /-- The arguments make no sense. -/
  | misuse
deriving DecidableEq

namespace Options

/-- No option given. -/
def none : Options :=
  ⟨.none, .none, .none, false⟩

/-- Sets an option that takes a value; it may be set only once, and a file has a name. -/
def set? (o : Options) (name value : String) : Option Options :=
  if name = "--config" then
    if o.config.isSome || value.isEmpty then .none else some { o with config := some value }
  else if name = "--log-level" then
    if o.logLevel.isSome then .none else some { o with logLevel := some value }
  else if name = "--script" then
    if o.script.isSome || value.isEmpty then .none else some { o with script := some value }
  else .none

end Options

/-- The switches that are followed by a value. -/
def takesValue (name : String) : Bool :=
  name = "--config" || name = "--log-level" || name = "--script"

/-- Whether an argument cannot be the value of an option in front of it. -/
def looksLikeOption (argument : String) : Bool :=
  argument.toList.head? = some '-' && argument != "-"

/-- An argument with its value behind an equals sign. -/
def splitEquals (argument : String) : Option (String × String) :=
  (Text.splitFirst '=' argument.toList).map fun (name, value) =>
    (String.ofList name, String.ofList value)

/-- Whether the version is asked for, also by a short switch run together with others. -/
def isVersion (argument : String) : Bool :=
  argument = "--version" || "-V".toList.isPrefixOf argument.toList

/-- Reads the arguments after the options `o`. -/
def parseFrom (o : Options) : List String → Parsed
  | [] => .options o
  | argument :: rest =>
    if isVersion argument then .version
    else if argument = "--print-payloads" then
      if o.printPayloads then .misuse else parseFrom { o with printPayloads := true } rest
    else if argument = "--" then (if rest.isEmpty then .options o else .misuse)
    else if takesValue argument then
      match rest with
      | value :: rest =>
        if looksLikeOption value then .misuse
        else match o.set? argument value with
          | some o => parseFrom o rest
          | none => .misuse
      | [] => .misuse
    else match (splitEquals argument).bind fun (name, value) => o.set? name value with
      | some o => parseFrom o rest
      | none => .misuse

/-- Reads the arguments from the first one on. -/
def parse (arguments : List String) : Parsed :=
  parseFrom .none arguments

/-- How a run of the program ends. -/
structure Exit where
  code : UInt32
  output : List String
  error : Option String
deriving DecidableEq

namespace Exit

/-- An exit with some output and nothing wrong. -/
def success (output : List String) : Exit :=
  ⟨0, output, none⟩

/-- An exit with an error and no output. -/
def failure (error : String) : Exit :=
  ⟨1, [], some error⟩

end Exit

/-- What is to be known of the files that the options name. -/
abbrev Files := String → FileContent

/-- The settings of a file, or the default ones where no file is named. -/
def readSettings (files : Files) : Option String → Except String Settings
  | none => .ok .default
  | some path =>
    match Settings.ofFile path (files path) with
    | .error fault => .error fault.message
    | .ok none => .error ("config file " ++ path ++ " not found")
    | .ok (some settings) => .ok settings

/-- The events of a script file. -/
def readScript (files : Files) (path : String) : Except String (List Event) :=
  match files path with
  | .text content =>
    match Event.readScript content with
    | some events => .ok events
    | none => .error ("invalid script " ++ path)
  | _ => .error ("failed to read script " ++ path)

/-- Every registered payload as indented text. -/
def payloads (m : Machine Demo.Memory) : String :=
  (Json.arr (m.registry.specs.map fun s => s.payload.toJson)).pretty

/-- The output lines of a script, event by event. -/
def replay (settings : Settings) (m : Machine Demo.Memory) (events : List Event) :
    Except String (List String) :=
  match Demo.replay settings m events with
  | .ok steps => .ok (steps.flatMap Demo.Step.lines)
  | .error fault => .error fault.message

/-- The lines that the program prints. -/
def output (options : Options) (files : Files) : Except String (List String) := do
  let settings ← readSettings files options.config
  match Demo.machine settings with
  | .error fault => .error fault.message
  | .ok m =>
    if options.printPayloads then return [payloads m]
    else match options.script with
      | none => return m.registry.specs.flatMap Demo.commandLines
      | some path => replay settings m (← readScript files path)

/-- Runs the options and turns what fails into an exit. -/
def runOptions (options : Options) (files : Files) : Exit :=
  match output options files with
  | .ok lines => .success lines
  | .error text => .failure text

/-- One run of the program. -/
def run (arguments : List String) (files : Files) : Exit :=
  match parse arguments with
  | .options options => runOptions options files
  | .version => .success ["vidar-sim 0.1.0"]
  | .misuse => ⟨2, [], none⟩

end SlashCommands.Cli
