import DocTags.CommandLine.Basic

/-!
# The program

Reads the files, directories and variables that a run can ask for, runs it and writes what comes of
it. Providers and constants are looked up in no modules.
-/

namespace DocTags.Program

open CommandLine

/-- The names of the variables that settings are read from, and of the one that says where the user
is at home. -/
def variableNames : List String :=
  "HOME" :: Environment.settingNames.flatMap fun (area, names) =>
    let start := Environment.variableStart ++ area.toList
    (start :: names.map fun n => start ++ '_' :: '_' :: n.toList).map fun n =>
      String.ofList (n.map Char.toUpper)

/-- The variables that are set. -/
def readEnvironment : IO Environment :=
  variableNames.filterMapM fun n => do return (← IO.getEnv n).map fun v => (n, v)

/-- The text of a file, empty if it cannot be read. -/
def textOf (path : String) : IO String := do
  try
    IO.FS.readFile path
  catch _ =>
    return ""

/-- The accounts on lines of fields between colons, of which the first is the name of the user, the
third the number and the sixth the home directory. -/
def homesOf (number : String) (text : String) : Homes :=
  let accounts := (text.splitOn "\n").filterMap fun line =>
    match line.splitOn ":" with
    | name :: _ :: id :: _ :: _ :: home :: _ => some (name, id, home)
    | _ => none
  { own? := (accounts.find? (·.2.1 = number)).map (·.2.2)
    named? name := (accounts.find? (·.1 = name)).map (·.2.2) }

/-- The homes of the users of the system. -/
def readAccounts : IO Homes := do
  let status := (← textOf "/proc/self/status").splitOn "\n"
  let number := status.findSome? fun line =>
    match line.splitOn "\t" with
    | "Uid:" :: id :: _ => some id
    | _ => none
  return homesOf (number.getD "0") (← textOf "/etc/passwd")

/-- The code of the error of a directory that is read as a file. -/
def directoryCode : UInt32 := 21

/-- The disk with the file or directory under a path, if there is one. -/
def withPath (disk : Disk) (path : String) : IO Disk := do
  let full := (FilePath.resolve path).toOption.getD path
  try
    let bytes ← IO.FS.readBinFile full
    return { disk with files := (full, bytes.toList) :: disk.files }
  catch e =>
    match e with
    | .inappropriateType _ code _ =>
      return if code = directoryCode then { disk with directories := full :: disk.directories }
        else disk
    | _ => return disk

/-- A path from the current directory, if an argument is the path of something. Options and words
for commands stay as they are. -/
def fullArgument (current : String) (arg : String) : String :=
  if arg.startsWith "-" || (Command.ofKey? arg).isSome
      || (OutputFormat.all.map OutputFormat.key).contains arg then arg
  else String.ofList (FilePath.under current.toList arg.toList)

/-- Writes a record to its destination. -/
def writeRecord (destination : String) (record : LogRecord) : IO Unit := do
  let line := record.text ++ "\n"
  if destination = "stderr" then (← IO.getStderr).putStr line
  else if destination = "stdout" then (← IO.getStdout).putStr line
  else
    IO.FS.createDirAll (String.ofList (FilePath.parent destination.toList))
    let file ← IO.FS.Handle.mk destination .append
    file.putStr line

/-- Writes how a run ended. -/
def writeOutcome : Outcome → IO Unit
  | .printed text _ => IO.print text
  | .refused message => IO.eprintln message
  | .misused => IO.eprint helpText
  | .broken _ => IO.eprintln "Error: the run was broken off"

/-- The file with the user's settings, from the home directory. -/
def userFile : List Char := "~/.config/docplane/config.yaml".toList

/-- Runs the program on its arguments with the given file of the user. -/
def runIn (environment : Environment) (accounts : Homes) (userFile : String) (args : List String) :
    IO UInt32 := do
  let current := (← IO.getEnv "PWD").getD "/"
  let args := args.map (fullArgument current)
  let paths := args.filter fun a => !a.startsWith "-"
  let settingsFiles := userFile :: (current :: paths).map Settings.projectFile
  let disk ← (current :: paths ++ settingsFiles).foldlM withPath {}
  let disk ← (paths.flatMap (sourceFiles disk)).foldlM withPath disk
  let ending :=
    CommandLine.run { disk, environment, accounts, userFile, currentDirectory := current } args
  for (destination, record) in ending.records do
    writeRecord destination record
  writeOutcome ending.outcome
  return UInt32.ofNat ending.outcome.exitCode

/-- Runs the program on its arguments. Nothing can be run where the user is at home nowhere. -/
def run (args : List String) : IO UInt32 := do
  let environment ← readEnvironment
  let accounts ← readAccounts
  match LogOutput.expandHome (environment.homes accounts) .null userFile with
  | .ok path => runIn environment accounts (String.ofList path) args
  | .error _ =>
    let outcome := Outcome.broken .unknownHome
    writeOutcome outcome
    return UInt32.ofNat outcome.exitCode

end DocTags.Program

/-- Runs the program. -/
def main (args : List String) : IO UInt32 :=
  DocTags.Program.run args
