import DocTags.Datum.Merge
import DocTags.Json.Reader
import DocTags.Settings.Validation
import DocTags.Text.Table

/-!
# Settings from the environment

A variable is named after a section, with the name of a setting after two underscores. The variable
of a section holds a JSON document, that of a setting its text, which counts for more. Upper and
lower case do not matter in names. One more variable says where the user is at home.
-/

namespace DocTags

/-- Variables with their values, in order. -/
abbrev Environment := List (String × String)

namespace Environment

/-- The homes of users: a variable names that of the user at hand, or else the accounts do. -/
def homes (env : Environment) (accounts : Homes) : Homes :=
  { accounts with own? := (env.lookup "HOME").or accounts.own? }

/-- What the names of all variables start with. -/
def variableStart : List Char := "docplane__".toList

/-- The settings whose variables hold JSON documents. -/
def documentSettings : List (String × String) := [("logging", "outputs")]

/-- The names of the settings in the sections. -/
def settingNames : List (String × List String) :=
  [("logging", ["level", "outputs"]),
    ("extraction", ["resolve_constants", "instantiate_providers", "default_module"]),
    ("output", ["format", "indent"])]

/-- A name in lower case. -/
def lower (s : List Char) : List Char :=
  s.map Char.toLower

/-- The variables by their names in lower case. -/
def lowered (env : Environment) : Table (List Char) String :=
  env.foldl (fun t v => t.insert (lower v.1.toList) v.2) []

/-- The parts of a name between pairs of underscores. -/
def nameParts : List Char → List (List Char)
  | [] => [[]]
  | '_' :: '_' :: s => [] :: nameParts s
  | c :: s =>
    match nameParts s with
    | [] => [[c]]
    | p :: ps => (c :: p) :: ps

/-- Puts a value under a path of keys. Where something else than a mapping is in the way, nothing
happens. -/
def putUnder (value : Datum) (last : String) :
    List String → List (Datum × Datum) → List (Datum × Datum)
  | [], es => Datum.insertEntry es (.text last) value
  | k :: ks, es =>
    match Datum.field? es k with
    | none => Datum.insertEntry es (.text k) (.map (putUnder value last ks []))
    | some (.map inner) => Datum.insertEntry es (.text k) (.map (putUnder value last ks inner))
    | some _ => es

/-- Reads the JSON document that a variable of a section holds. -/
def readDocument (sectionName text : String) : Except Fault Datum :=
  (Json.read .everything text.toList).mapError fun
    | .tooDeep => .tooDeep
    | _ => .unreadableVariable sectionName

/-- The value of a setting's variable. -/
def settingValue (sectionName name text : String) : Except Fault Datum :=
  if documentSettings.contains (sectionName, name) && text ≠ "" then readDocument sectionName text
  else .ok (.text text)

/-- The settings of a section that have variables of their own. -/
def settingVariables (env : Environment) (sectionName : String) :
    Except Fault (List (Datum × Datum)) :=
  let start := variableStart ++ sectionName.toList ++ ['_', '_']
  (lowered env).foldlM
    (fun es v =>
      if start.isPrefixOf v.1 then do
        let parts := (nameParts (v.1.drop start.length)).map String.ofList
        let path := parts.dropLast
        let last := parts.getLast?.getD ""
        let value ← if path.isEmpty then settingValue sectionName last v.2 else pure (.text v.2)
        return putUnder value last path es
      else .ok es)
    []

/-- The entries of a section, the keys that are names of settings in lower case. -/
def withSettingNames (sectionName : String) (es : List (Datum × Datum)) : List (Datum × Datum) :=
  let names := (settingNames.lookup sectionName).getD []
  es.foldl
    (fun done e =>
      let key :=
        match e.1 with
        | .text k =>
          let name := String.ofList (lower k.toList)
          if names.contains name then .text name else e.1
        | k => k
      Datum.insertEntry done key e.2)
    []

/-- What the variables say about a section, if anything. -/
def section? (env : Environment) (sectionName : String) : Except Fault (Option Datum) := do
  match (lowered env).get? (variableStart ++ sectionName.toList) with
  | none =>
    let es ← settingVariables env sectionName
    return if es.isEmpty then none else some (.map (withSettingNames sectionName es))
  | some text =>
    match ← readDocument sectionName text with
    | .null => return none
    | .map es =>
      let own ← settingVariables env sectionName
      return some (.map (withSettingNames sectionName (Datum.overlayEntries es own)))
    | d => return some d

/-- What the variables say about the sections. -/
def entries (env : Environment) : Except Fault (List (Datum × Datum)) := do
  let found ← Settings.sections.mapM fun name => do
    return (← section? env name).map fun d => (Datum.text name, d)
  return found.filterMap id

end Environment

end DocTags
