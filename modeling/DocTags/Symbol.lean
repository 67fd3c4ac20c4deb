import DocTags.Datum.Knot
import DocTags.Report.Problem
import DocTags.Text.Lines

/-!
# Symbols

A symbol is a test type, method or function as its describer sees it: its documentation comment, its
place in a file and its names. A name may be any value, and one that counts as absent names nothing.
A description is the same before its comments and lines are known to be texts.
-/

namespace DocTags

/-- A documented test type, method or function. -/
structure Symbol where
  docComment : String
  filePath : String
  startLine : Int
  endLine : Int
  declaringType : Datum
  member : Datum
  traitComments : List String
  isTypeLevel : Bool
  /-- The lines of the file, if they came with the symbol. -/
  sourceLines : Option (List String)

/-- A symbol as it was described. -/
structure Description where
  docComment : Datum
  filePath : String
  startLine : Int
  endLine : Int
  declaringType : Datum
  member : Datum
  traitComments : List Datum
  isTypeLevel : Bool
  sourceLines : Option (List Datum)

/-- Names a symbol by type and member, by whichever of them it has, or as anonymous. -/
def qualifiedName (type member : Datum) (isTypeLevel : Bool) : Datum :=
  if type.isTruthy && member.isTruthy && !isTypeLevel then
    .text (type.display ++ "::" ++ member.display)
  else if type.isTruthy then type
  else if member.isTruthy then member
  else .text "<anonymous>"

namespace Symbol

/-- The name under which the symbol is reported. -/
def qualifiedName (s : Symbol) : Datum :=
  DocTags.qualifiedName s.declaringType s.member s.isTypeLevel

end Symbol

namespace Datum

/-- The whole number that a row of bytes stands for. -/
def intOfBytes (bs : List UInt8) : Except Fault Int :=
  let s := bs.map fun b => Char.ofNat b.toNat
  if bs.any (128 ≤ ·) then .error .notANumber
  else (Decimal.readInt s).mapError fun _ => .notANumber

/-- The whole number that a value stands for. -/
def toInt : Datum → Except Fault Int
  | int n => .ok n
  | bool b => .ok b.toNat
  | real .notANumber => .error .notANumber
  | real (.infinite _) => .error .infiniteNumber
  | real (.finite negative m q) => .ok (Binary64.truncate negative m q)
  | text s => (Decimal.readInt s.toList).mapError fun _ => .notANumber
  | bytes _ bs => intOfBytes bs
  | _ => .error .wrongType

/-- The items of a sequence; the characters of a text and the keys of a mapping count as items. -/
def toItems (d : Datum) : Except Fault (List Datum) :=
  match d.opened with
  | list xs | tuple xs | set xs => .ok xs
  | map es => .ok (es.map (·.1))
  | text s => .ok ((Text.toPoints s).map fun n => text (String.ofList (Text.charsOf n)))
  | bytes _ bs => .ok (bs.map fun b => ofNat b.toNat)
  | stream rows none => .ok rows
  | stream _ (some f) => .error (.thrown f)
  | _ => .error .wrongType

/-- The text of a value that has to be one. -/
def toText : Datum → Except Fault String
  | text s => .ok s
  | _ => .error .wrongType

/-- The name of a module or a type that a value gives. A value without characters to replace gives
none. -/
def toName : Datum → Except Fault String
  | text s => .ok s
  | moment _ | bytes .. => .error .wrongType
  | _ => .error .noSuchOperation

/-- A whole number in a value has more digits than can be written. -/
def isTooLong (d : Datum) : Bool :=
  d.holds fun
    | int n => Nat.pow 10 Decimal.maxDigits ≤ n.natAbs
    | _ => false

/-- The text of a value on its own, if all numbers in it can be written. -/
def toDisplay (d : Datum) : Except Fault String :=
  if d.isTooLong then .error .notANumber else .ok d.display

end Datum

namespace Description

/-- Reads a description. The end is at the start if it is not given. -/
def ofEntries (entries : List (Datum × Datum)) : Except Fault Description := do
  let get (name : String) : Datum := (Datum.field? entries name).getD .null
  let docComment := get "doc_comment"
  let filePath ← ((Datum.field? entries "file_path").getD (.text "")).toDisplay
  let start := (Datum.field? entries "start_line").getD (.int 0)
  let startLine ← start.toInt
  let endLine ← ((Datum.field? entries "end_line").getD start).toInt
  let traits := get "composed_trait_doc_comments"
  let traitComments ← if traits.isTruthy then traits.toItems else pure []
  let sourceLines ←
    if (get "source_lines").isNull then pure none
    else (get "source_lines").toItems.map some
  return {
    docComment := if docComment.isTruthy then docComment else .text ""
    filePath
    startLine
    endLine
    declaringType := get "declaring_type_name"
    member := get "member_name"
    traitComments
    isTypeLevel := (get "is_type_level").isTruthy
    sourceLines }

/-- The name under which what is described is reported. -/
def qualifiedName (d : Description) : Datum :=
  DocTags.qualifiedName d.declaringType d.member d.isTypeLevel

/-- The description as a symbol without a comment and without lines. -/
def bare (d : Description) : Symbol :=
  { docComment := ""
    filePath := d.filePath
    startLine := d.startLine
    endLine := d.endLine
    declaringType := d.declaringType
    member := d.member
    traitComments := []
    isTypeLevel := d.isTypeLevel
    sourceLines := none }

/-- The symbol with its comment, which has to be a text. -/
def withComment (d : Description) : Except Fault Symbol := do
  return { d.bare with docComment := ← d.docComment.toText }

/-- The symbol with its comment and, where they count, the comments of its traits. -/
def withComments (d : Description) : Except Fault Symbol := do
  let traitComments ← if d.isTypeLevel then d.traitComments.mapM Datum.toText else pure []
  return { ← d.withComment with traitComments }

/-- The text of the line with the given number; a line that is not looked at may be no text. -/
def lineText (d : Description) (number : Nat) (line : Datum) : Except Fault String :=
  if d.startLine ≤ number ∧ number ≤ d.endLine then line.toText
  else .ok (line.toText.toOption.getD "")

/-- The symbol with its source lines. Those from its first to its last line have to be texts. -/
def withLines (d : Description) : Except Fault Symbol := do
  match d.sourceLines with
  | none => return d.bare
  | some lines =>
    let texts ← (lines.zipIdx 1).mapM fun l => d.lineText l.2 l.1
    return { d.bare with sourceLines := some texts }

end Description

end DocTags
