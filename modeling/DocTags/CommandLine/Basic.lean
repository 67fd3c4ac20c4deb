import DocTags.CommandLine.Arguments
import DocTags.CommandLine.Descriptors
import DocTags.Json.Writer
import DocTags.Log.Basic
import DocTags.Query
import DocTags.Settings.Loading
import DocTags.Yaml.Writer

/-!
# The command line

A command asks one question, or all of them, about every symbol in a descriptor file and prints the
answers. It fails if some answer reports a failure.
-/

namespace DocTags.CommandLine

/-- The commands. -/
inductive Command where
  | ask (query : Query)
  | extract
  deriving DecidableEq, Repr

namespace Command

/-- Every command. -/
def all : List Command :=
  [ask .requirements, ask .expectedException, ask .data, ask .inline, extract]

/-- The word for a command. -/
def key : Command → String
  | ask .requirements => "requirements"
  | ask .expectedException => "expected-exception"
  | ask .data => "data"
  | ask .inline => "inline"
  | extract => "extract"

/-- The command with the given word. -/
def ofKey? (s : String) : Option Command :=
  all.find? (·.key = s)

/-- The questions that a command asks. -/
def queries : Command → List Query
  | ask query => [query]
  | extract => Query.all

end Command

/-- The options in front of the command. -/
inductive GeneralOption where
  | verbose
  | configRoot
  | version
  | help
  deriving DecidableEq, Repr

/-- The options of a command. -/
inductive CommandOption where
  | format
  | importPath
  | help
  deriving DecidableEq, Repr

/-- What is known about the options in front of the command. -/
def generalSpecs : List (OptionSpec GeneralOption) :=
  [{ key := .verbose, long := "verbose", letter := some 'v' },
    { key := .configRoot, long := "config-root", takesValue := true },
    { key := .version, long := "version" },
    { key := .help, long := "help" }]

/-- What is known about the options of a command. -/
def commandSpecs : List (OptionSpec CommandOption) :=
  [{ key := .format, long := "format", takesValue := true },
    { key := .importPath, long := "import-path", letter := some 'I', takesValue := true },
    { key := .help, long := "help" }]

/-- What a run sees. -/
structure Setting where
  disk : Disk := {}
  world : World := {}
  environment : Environment := []
  accounts : Homes := .ofRoot
  limits : RowLimits := {}
  /-- The file with the user's settings. -/
  userFile : String
  /-- The root of the project unless an option gives one. -/
  currentDirectory : String

/-- How a run ends. -/
inductive Outcome where
  /-- With a text, and a failure if some answer reports one. -/
  | printed (text : String) (failed : Bool)
  /-- With a message that says why there are no answers. -/
  | refused (message : String)
  /-- The arguments make no sense. -/
  | misused
  /-- With a fault that no answer reports. -/
  | broken (fault : Fault)

/-- The text about the version. -/
def versionText : String := "docplane, version 0.1.0\n"

/-- The text about the arguments. -/
def helpText : String := "Usage: docplane [OPTIONS] COMMAND [ARGS]...\n"

/-- The answers about what is described, and whether some question failed. -/
def answersFor (e : Surroundings) (d : Description) :
    List Query → Run (List (Datum × Datum) × Bool)
  | [] => pure ([], false)
  | query :: queries => do
    let answer ← d.answer e query
    let (rest, failed) ← answersFor e d queries
    return ((.text query.key, answer.result) :: rest, answer.failed || failed)

/-- The entry of a description: its name and the answers. Modules are looked up by the name of its
type, which has to be one. -/
def entryFor (e : Surroundings) (command : Command) (d : Description) : Run (Datum × Bool) := do
  let queries := command.queries
  let _ ← Run.ofExcept ((e.resolver d.bare).mapError .fault)
  let (answers, failed) ← answersFor e d queries
  Run.note .debug "symbol_extracted" [("queries", .ofNat queries.length)]
  return (.map ((.text "symbol", d.qualifiedName) :: answers), failed)

/-- What comes of descriptions: log records with their destinations, and the entries with whether
some question failed. -/
structure Work where
  records : List (String × LogRecord)
  result : Except Failure (List Datum × Bool)

/-- Works on the descriptions one after the other. A failure that no answer reports ends it. -/
def workOn (e : Surroundings) (command : Command) (log : Log) : List Description → Work
  | [] => ⟨[], .ok ([], false)⟩
  | d :: ds =>
    let log := log.beginSymbol d.qualifiedName
    let run := entryFor e command d
    let written := run.events.flatMap log.write
    match run.result with
    | .error failure => ⟨written, .error failure⟩
    | .ok (entry, failed) =>
      let rest := workOn e command log.endSymbol ds
      ⟨written ++ rest.records,
        rest.result.map fun (entries, restFailed) => (entry :: entries, failed || restFailed)⟩

/-- How a run ends, and the log records on the way. -/
structure Ending where
  outcome : Outcome
  records : List (String × LogRecord) := []

/-- A value that documents have no keys for. -/
def isNoKey : Datum → Bool
  | .bytes .. | .moment _ | .tuple _ => true
  | _ => false

/-- Why a value cannot be printed. -/
def unprintable? (payload : Datum) : Option Fault :=
  let holdsNoKey : Datum → Bool
    | .map es => es.any fun e => isNoKey e.1
    | _ => false
  if payload.holds Datum.isKnot then some .endless
  else if payload.holds holdsNoKey then some .wrongType
  else if payload.isTooLong then some .notANumber
  else none

/-- The text that a value is printed as. -/
def printedText (settings : OutputSettings) (payload : Datum) : String :=
  match settings.format with
  | .yaml => String.ofList (Yaml.write payload)
  | .json =>
    let indent := if settings.indent = 0 then none else some settings.indent
    String.ofList (Json.write indent payload ++ ['\n'])

/-- The ending of a failure. -/
def Outcome.ofFailure : Failure → Outcome
  | .fault f => .broken f
  | .problem p => .refused ("Error: " ++ p.report.summary)

/-- The ending of a descriptor file that cannot be used. -/
def Outcome.ofDescriptorFault : DescriptorFault → Outcome
  | .unreadable path => .refused ("Error: Cannot parse descriptor file " ++ path)
  | .notAMapping i path type =>
    .refused ("Error: Descriptor #" ++ toString i ++ " in " ++ path ++ " must be a mapping, got "
      ++ type)
  | .fault f => .broken f

/-- Runs a command on a descriptor file. -/
def runOn (setting : Setting) (settings : Settings) (command : Command) (path : String) : Ending :=
  match Descriptors.load setting.disk path with
  | .error fault => ⟨.ofDescriptorFault fault, []⟩
  | .ok descriptions =>
    let e : Surroundings :=
      { disk := setting.disk
        world := setting.world
        extraction := settings.extraction
        limits := setting.limits }
    let log : Log := { shownAs := Log.hexNumber }
    let work := workOn e command (log.configure settings.logging) descriptions
    match work.result with
    | .error failure => ⟨.ofFailure failure, work.records⟩
    | .ok (entries, failed) =>
      match unprintable? (.list entries) with
      | some fault => ⟨.broken fault, work.records⟩
      | none => ⟨.printed (printedText settings.output (.list entries)) failed, work.records⟩

/-- A path to a directory that exists. -/
def isDirectoryPath (disk : Disk) (path : String) : Bool :=
  match disk.read path with
  | .error (.file (.isDirectory _)) => path ≠ ""
  | _ => false

/-- A path to a file that exists. -/
def isFilePath (disk : Disk) (path : String) : Bool :=
  (disk.read path).toBool

/-- The form of output that the arguments ask for; the inner none leaves it to the settings. -/
def formatOf? (a : Arguments CommandOption) : Option (Option OutputFormat) :=
  match a.value? .format with
  | none => some none
  | some word => (OutputFormat.all.find? (·.key = word)).map some

/-- Runs a command with its own arguments. -/
def runCommand (setting : Setting) (settings : Settings) (command : Command)
    (args : List String) : Ending :=
  match Arguments.read commandSpecs true args with
  | none => ⟨.misused, []⟩
  | some a =>
    if !(a.values .help).isEmpty then ⟨.printed helpText false, []⟩
    else
      match a.words, formatOf? a with
      | [path], some format =>
        if (a.values .importPath).all (isDirectoryPath setting.disk)
            && isFilePath setting.disk path then
          let output := { settings.output with format := format.getD settings.output.format }
          runOn setting { settings with output } command path
        else ⟨.misused, []⟩
      | _, _ => ⟨.misused, []⟩

/-- The settings with the least grave level for the log, if all events are asked for. -/
def withVerbosity (verbose : Bool) (settings : Settings) : Settings :=
  if verbose then { settings with logging := { settings.logging with level := .debug } }
  else settings

/-- The root of the project, if it exists. -/
def rootOf? (setting : Setting) (a : Arguments GeneralOption) : Option String :=
  match a.value? .configRoot with
  | none => some setting.currentDirectory
  | some root => if isDirectoryPath setting.disk root then some root else none

/-- The text that an option asks for instead of a run. -/
def textFor? : GeneralOption → Option String
  | .help => some helpText
  | .version => some versionText
  | .verbose | .configRoot => none

/-- The text that the first such option asks for. -/
def Arguments.text? (a : Arguments GeneralOption) : Option String :=
  a.options.findSome? fun o => textFor? o.1

/-- The ending of words that start with no command. An option that hides behind two hyphens can
still ask for a text. -/
def endingOfWords (words : List String) : Ending :=
  match (Arguments.read generalSpecs false words).bind (·.text?) with
  | some text => ⟨.printed text false, []⟩
  | none => ⟨.misused, []⟩

/-- Runs the program. -/
def run (setting : Setting) (args : List String) : Ending :=
  match Arguments.read generalSpecs false args with
  | none => ⟨.misused, []⟩
  | some a =>
    match a.text? with
    | some text => ⟨.printed text false, []⟩
    | none =>
      match rootOf? setting a, a.words with
      | some root, word :: rest =>
        match Command.ofKey? word with
        | none => endingOfWords (word :: rest)
        | some command =>
          match Settings.load setting.disk setting.userFile root setting.environment []
              setting.accounts with
          | .error failure => ⟨.ofFailure failure, []⟩
          | .ok settings =>
            match (Log.openOutputs setting.disk settings.logging.outputs).2 with
            | some fault => ⟨.broken fault, []⟩
            | none =>
              let settings := withVerbosity (!(a.values .verbose).isEmpty) settings
              runCommand setting settings command rest
      | _, _ => ⟨.misused, []⟩

/-- The source files that the descriptions in a file ask for. -/
def sourceFiles (disk : Disk) (path : String) : List String :=
  match Descriptors.load disk path with
  | .ok descriptions => descriptions.map (·.filePath)
  | .error _ => []

namespace Outcome

/-- The exit code. -/
def exitCode : Outcome → Nat
  | printed _ failed => if failed then 1 else 0
  | refused _ | broken _ => 1
  | misused => 2

end Outcome

end DocTags.CommandLine
