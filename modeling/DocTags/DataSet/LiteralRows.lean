import DocTags.DataSet.Basic
import DocTags.Json.Reader
import DocTags.Tag.Dialect
import DocTags.Text.Lines

/-!
# Literal rows

After the word that opens them, every line that starts with a bracket is a row, written as a JSON
list without objects.
-/

namespace DocTags.LiteralRows

open Text Pattern

/-- A line feed with the decoration of the next line. -/
def decoration : Pattern Unit :=
  chain [char (· == '\n'), chars isBlank, char (· == '*'), opt (char isBlank)]

/-- The comment with plain lines: no decoration, no last character, no line feeds at the end. -/
def clean (comment : List Char) : List Char :=
  dropEndWhile (· == '\n') (decoration.replace (fun _ => ['\n']) (dropReturns comment)).dropLast

/-- The lines that hold rows: trimmed, up to the first that does not start with a bracket. -/
def rowLines (s : List Char) : List (List Char) :=
  ((splitAt '\n' s).map trim).takeWhile fun l => l.head? = some '['

/-- Why a line is no row. -/
def failureOf (line : List Char) : Json.Fault → Failure
  | .tooDeep => .fault .tooDeep
  | e => .problem (.unreadableRow (String.ofList line) e.message)

/-- The row on a line, with lists no deeper than given. -/
def readRow (depth : Nat) (line : List Char) : Except Failure Datum :=
  (Json.read (.literals depth) line).mapError (failureOf line)

/-- Numbers the rows. -/
def number (rows : List Datum) : List DataSet :=
  (rows.zipIdx).map fun r => ⟨.index r.2, r.1⟩

/-- The literal rows of a comment, if it has the word that opens them. -/
def ofComment (depth : Nat) (comment : List Char) : Run (Option (List DataSet)) :=
  match Dialect.testWithPattern.search? (clean comment) with
  | none => pure none
  | some m => do
    let rows ← Run.ofExcept ((rowLines m.span.stop).mapM (readRow depth))
    if rows.isEmpty then Run.fail (.problem .noLiteralRows)
    else do
      Run.note .debug "testwith_rows_decoded" [("rows", .ofNat rows.length)]
      return some (number rows)

end DocTags.LiteralRows
