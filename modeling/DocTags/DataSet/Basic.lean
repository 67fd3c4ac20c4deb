import DocTags.Datum.Display
import DocTags.Report.Run

/-!
# Data sets

A data set is a row of arguments under a key. Rows without a name are counted from zero over all
providers; names have to differ. A name need not be a text, but then it is shown like a number.
-/

namespace DocTags

/-- The key of a data set: its place among the rows without a name, or its name. -/
inductive RowKey where
  | index (n : Nat)
  | name (d : Datum)

namespace RowKey

/-- The key as a value. -/
def toDatum : RowKey → Datum
  | index n => .ofNat n
  | name d => d

/-- The key is a name that is a text. -/
def isText : RowKey → Bool
  | name (.text _) => true
  | _ => false

/-- The key as it is shown to people. -/
def label : RowKey → String
  | index n => "#" ++ toString n
  | name (.text s) => "\"" ++ s ++ "\""
  | name d => "#" ++ d.display

end RowKey

/-- A row of arguments under its key. -/
structure DataSet where
  key : RowKey
  arguments : Datum

namespace DataSet

/-- The data set as a mapping. -/
def toDatum (d : DataSet) : Datum :=
  .record [("key", d.key.toDatum), ("arguments", d.arguments.plain)]

end DataSet

/-- How deep rows may be nested: the literal ones that are decoded, and all that are reported. The
stack sets both limits. By default it has room for a thousand calls, of which decoding takes one for
each list and reporting two. -/
structure RowLimits where
  decoded : Nat := 990
  reported : Nat := 490
  deriving DecidableEq, Repr

namespace DataSet

/-- Data sets as they are reported. A row that is nested too deep is a fault. -/
def report (depth : Nat) (sets : List DataSet) : Except Failure Datum :=
  if sets.all fun d => d.arguments.nestsWithin depth then .ok (.list (sets.map toDatum))
  else .error (.fault .tooDeep)

theorem report_eq_ok_iff {depth : Nat} {sets : List DataSet} {d : Datum} :
    report depth sets = .ok d
      ↔ (∀ s ∈ sets, s.arguments.nestsWithin depth = true) ∧ d = .list (sets.map toDatum) := by
  rw [report, ← List.all_eq_true]
  split
  · next h => simp [h, eq_comm]
  · next h => simp [h]

end DataSet

/-- A row as a provider gives it, with its name if it has one. -/
structure GivenRow where
  name : Option Datum
  row : Datum

/-- The data sets collected so far. -/
structure Collection where
  dataSets : List DataSet := []
  nextIndex : Nat := 0

namespace Collection

/-- Some data set has the name. -/
def hasName (c : Collection) (name : Datum) : Bool :=
  c.dataSets.any fun d =>
    match d.key with
    | .index _ => false
    | .name other => Datum.sameKey other name

/-- Adds a row that the provider with the given reference gives. -/
def add (reference : String) (c : Collection) (given : GivenRow) : Except Failure Collection :=
  match given.name with
  | none => .ok ⟨c.dataSets ++ [⟨.index c.nextIndex, given.row⟩], c.nextIndex + 1⟩
  | some name =>
    if !name.isFixed then .error (.fault .wrongType)
    else if c.hasName name then .error (.problem (.duplicateName name reference))
    else .ok ⟨c.dataSets ++ [⟨.name name, given.row⟩], c.nextIndex⟩

end Collection

namespace GivenRow

/-- An item of a sequence: a row that may carry its name. -/
def ofItem : Datum → GivenRow
  | .named name row => ⟨some name, row⟩
  | row => ⟨none, row⟩

/-- An entry of a mapping: a whole number is no name. -/
def ofEntry : Datum × Datum → GivenRow
  | (.int _, row) => ⟨none, row⟩
  | (key, row) => ⟨some (.text key.display), row⟩

/-- The rows in the result of a provider, and the fault that ends them if there is one. Nothing
counts as no rows; a result that holds no rows has none of them. -/
def ofResult? : Datum → Option (List GivenRow × Option Thrown)
  | .null => some ([], none)
  | .map es => some (es.map ofEntry, none)
  | .list xs | .tuple xs | .set xs => some (xs.map ofItem, none)
  | .stream xs fault => some (xs.map ofItem, fault)
  | _ => none

end GivenRow

namespace Collection

/-- Adds the rows in the result of a provider. -/
def extend (c : Collection) (reference : String) (result : Datum) : Except Failure Collection :=
  match GivenRow.ofResult? result with
  | none => .error (.problem (.invalidResult reference result.typeName))
  | some (rows, fault) => do
    let c ← rows.foldlM (add reference) c
    match fault with
    | none => return c
    | some t => .error (.fault (.thrown t))

end Collection

end DocTags
