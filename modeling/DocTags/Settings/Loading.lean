import DocTags.Settings.Environment
import DocTags.World.Disk
import DocTags.Yaml.Reader

/-!
# Loading settings

Settings come in layers: the file of the user, the file of the project, the environment and direct
values. Each layer is laid over those before it, and the result is checked as a whole.
-/

namespace DocTags.Settings

/-- Why a file that is a YAML document holds no settings. -/
def notAMapping : String := "top level must be a mapping"

/-- Why a file that is no YAML document holds no settings. -/
def notADocument : String := "malformed document"

/-- A document that holds settings: a mapping. A document that counts as absent holds none. -/
def checkDocument (path : String) (d : Datum) : Except Failure Datum :=
  if !d.isTruthy then .ok (.map [])
  else
    match d.opened with
    | .map _ => .ok d
    | _ => .error (.problem (.unreadableSettings path notAMapping))

/-- There is no file that could be read: nothing stands under the path, or it is none of a file. -/
def isAbsence : Fault → Bool
  | .file (.missing _) | .file (.notADirectory _) | .invalidPath | .unwritable => true
  | _ => false

/-- The document of a file. A file that does not exist holds no settings. -/
def fileDocument (disk : Disk) (path : String) : Except Failure Datum :=
  match disk.readText path with
  | .error e => if isAbsence e then .ok (.map []) else .error (.fault e)
  | .ok text =>
    match Yaml.read text with
    | .error .malformed => .error (.problem (.unreadableSettings path notADocument))
    | .error (.unfit e) => .error (.fault e)
    | .ok d => checkDocument path d

/-- The entries of a document that is a mapping. -/
def entriesOf (d : Datum) : List (Datum × Datum) :=
  match d.opened with
  | .map es => es
  | _ => []

/-- Direct values by the names of their sections, in which case does not matter. -/
def directEntries (values : List (Datum × Datum)) : List (Datum × Datum) :=
  values.foldl
    (fun done e =>
      let key :=
        match e.1 with
        | .text k =>
          let name := String.ofList (Environment.lower k.toList)
          if sections.contains name then .text name else e.1
        | k => k
      Datum.insertEntry done key e.2)
    []

/-- The file with the user's settings for a project. -/
def projectFile (root : String) : String :=
  String.ofList (FilePath.under root.toList ".docplane/config.yaml".toList)

/-- Lays entries over others. -/
def layer (opening : Bool) (below above : List (Datum × Datum)) :
    Except Failure (List (Datum × Datum)) :=
  match Datum.layer? opening below above with
  | some es => .ok es
  | none => .error (.fault .tooDeep)

/-- The settings from the files, the environment and direct values. The accounts of the system say
where users are at home. -/
def load (disk : Disk) (userFile root : String) (env : Environment)
    (values : List (Datum × Datum)) (accounts : Homes := .ofRoot) : Except Failure Settings := do
  let user ← fileDocument disk userFile
  let project ← fileDocument disk (projectFile root)
  let opening := user.isKnot || project.isKnot
  let files ← layer opening (entriesOf user) (entriesOf project)
  let ambient ← (env.entries).mapError .fault
  let all ← layer opening (← layer opening files ambient) (directEntries values)
  (ofEntries (env.homes accounts) all).mapError Refusal.toFailure

end DocTags.Settings
