import DocTags.Symbol
import DocTags.Text.FilePath
import DocTags.World.Disk
import DocTags.Yaml.Reader

/-!
# Descriptor files

A descriptor file is a YAML document with the description of a symbol or a list of them. The paths
in it start at the directory of the file.
-/

namespace DocTags.CommandLine

/-- Why a descriptor file gives no descriptions. -/
inductive DescriptorFault where
  /-- The file is no YAML document. -/
  | unreadable (path : String)
  /-- An entry is no mapping. -/
  | notAMapping (index : Nat) (path type : String)
  | fault (f : Fault)
  deriving DecidableEq, Repr

namespace Descriptors

/-- The entries of a document. -/
def entriesOf (d : Datum) : List Datum :=
  match d.opened with
  | .null => []
  | .list xs => xs
  | _ => [d]

/-- The entries of a description with its path from the directory of the descriptor file. -/
def withFullPath (directory : List Char) (es : List (Datum × Datum)) :
    Except Fault (List (Datum × Datum)) :=
  match Datum.field? es "file_path" with
  | none => .ok es
  | some d =>
    if !d.isTruthy then .ok es
    else do
      let path := (← d.toText).toList
      if FilePath.isAbsolute path then return es
      else
        let full := String.ofList (FilePath.under directory path)
        return Datum.insertEntry es (.text "file_path") (.text full)

/-- The description that a mapping holds. -/
def describe (directory : List Char) (es : List (Datum × Datum)) : Except Fault Description := do
  Description.ofEntries (← withFullPath directory es)

/-- The descriptions in the entries, of which the first has the given number. -/
def ofEntries (path : String) (i : Nat) : List Datum → Except DescriptorFault (List Description)
  | [] => .ok []
  | entry :: rest =>
    match entry.opened with
    | .map es => do
      let d ← (describe (FilePath.parent path.toList) es).mapError .fault
      return d :: (← ofEntries path (i + 1) rest)
    | _ => .error (.notAMapping i path entry.typeName)

/-- The descriptions in a file. -/
def load (disk : Disk) (path : String) : Except DescriptorFault (List Description) := do
  let shown := String.ofList (FilePath.tidy path.toList)
  let text ← (disk.readText path).mapError .fault
  match Yaml.read text with
  | .error .malformed => .error (.unreadable shown)
  | .error (.unfit f) => .error (.fault f)
  | .ok d => ofEntries shown 0 (entriesOf d)

end Descriptors

end DocTags.CommandLine
