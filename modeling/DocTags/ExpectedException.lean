import DocTags.Tag.Table

/-!
# Expected exceptions

A symbol can say on one line which exception it expects, with a message and a code; tags of their
own give what the line does not. A code that is written as a number becomes a whole number.
-/

namespace DocTags

/-- The exception that a symbol expects. -/
structure ExpectedException where
  type : String
  code : Datum
  message : String
  messagePattern : String

namespace ExpectedException

open Text Pattern

/-- A sign if there is one. -/
def signPattern : Pattern Unit :=
  opt (char fun c => c == '+' || c == '-')

/-- Blanks around a pattern that reads the whole text. -/
def padded (p : Pattern Unit) : Pattern Unit :=
  chain [chars isBlank, signPattern, p, chars isBlank, textEnd]

/-- A whole number. -/
def integerPattern : Pattern Unit :=
  padded (chars1 isDecimal)

/-- A number that may have a point and an exponent. -/
def numericPattern : Pattern Unit :=
  padded
    (seq
      (alt
        (seq (chars1 isDecimal) (opt (seq (char (· == '.')) (chars isDecimal))))
        (seq (char (· == '.')) (chars1 isDecimal)))
      (opt (chain [char fun c => c == 'e' || c == 'E', signPattern, chars1 isDecimal])))

/-- The text inside a pair of double quotes, with the escaped quotes in it; other text as it is. -/
def unquote (s : List Char) : List Char :=
  let rec unescape : List Char → List Char
    | '\\' :: '"' :: s => '"' :: unescape s
    | c :: s => c :: unescape s
    | [] => []
  match s with
  | '"' :: r =>
    match r.reverse with
    | '"' :: inner => unescape inner.reverse
    | _ => s
  | _ => s

/-- The whole number that a text in the form of a number stands for. -/
def readCode (s : List Char) : Except Fault Int :=
  if (integerPattern.matchFront? s).isSome then
    (Decimal.readInt s).mapError fun _ => .notANumber
  else
    match Binary64.read? s with
    | some x => (Datum.real x).toInt
    | none => .error .notANumber

/-- A code as it is reported: a number where the text is one or names a constant that is one. -/
def normalizeCode (code : Datum) (constants : Option ConstantLookup) : Except Failure Datum :=
  match code with
  | .null | .int _ | .bool _ => .ok code
  | .real _ => (code.toInt.mapError .fault).map .int
  | _ =>
    let text := code.display
    let s := text.toList
    if (integerPattern.matchFront? s).isSome || (numericPattern.matchFront? s).isSome then
      ((readCode s).mapError .fault).map .int
    else
      match constants with
      | none => .ok (.text text)
      | some lookup => do
        match ← lookup text with
        | .int n => return .int n
        | .bool b => return .int b.toNat
        | .real x => return .int (← (Datum.real x).toInt.mapError .fault)
        | _ => return .text text

/-- The first value of a tag with a name: the symbol's own, else one from its traits. -/
def tagged? (own merged : TagTable) (name : String) : Option String :=
  match own.get? name with
  | some (v :: _) => some v
  | _ => ((merged.get? name).getD []).head?

/-- The resolved first value of a tag, null if there is none. -/
def taggedValue (own merged : TagTable) (constants : Option ConstantLookup) (name : String) :
    Except Failure Datum :=
  match tagged? own merged name with
  | none => .ok .null
  | some v => TagTable.resolveContent v constants

/-- A value if it counts as present, else the empty text. -/
def orEmpty (d : Datum) : Datum :=
  if d.isTruthy then d else .text ""

/-- The exception that a line's match and the tags of the symbol give. -/
def ofMatch (s : Symbol) (constants : Option ConstantLookup) (m : Match Field) :
    Except Failure ExpectedException := do
  let own := TagTable.ofComment s.docComment
  let merged := TagTable.ofSymbol s
  let message ←
    match m.group? .message with
    | some text => pure (.text (String.ofList (unquote (trim text))))
    | none => do
      let d ← taggedValue own merged constants "expectedexceptionmessage"
      pure (if d.isNull then .text "" else d)
  let messagePattern ← taggedValue own merged constants "expectedexceptionmessageregexp"
  let code ←
    match m.group? .code with
    | some text => pure (.text (String.ofList text))
    | none => taggedValue own merged constants "expectedexceptioncode"
  return {
    type := String.ofList (m.groupD .name)
    code := ← normalizeCode code constants
    message := message.display
    messagePattern := (orEmpty messagePattern).display }

/-- A comment says that an exception is expected. -/
def isDeclared (comment : String) : Bool :=
  (Dialect.expectedExceptionPattern.search? (stripDelimiters comment.toList)).isSome

/-- The exception that a symbol expects, if it expects one. -/
def ofSymbol (s : Symbol) (constants : Option ConstantLookup) : Run (Option ExpectedException) :=
  match Dialect.expectedExceptionPattern.search? (stripDelimiters s.docComment.toList) with
  | none => pure none
  | some m => do
    let expected ← Run.ofExcept (ofMatch s constants m)
    Run.note .debug "expected_exception_extracted"
      [("symbol", s.qualifiedName), ("type", .text expected.type)]
    return some expected

/-- The expected exception as a mapping. -/
def toDatum (e : ExpectedException) : Datum :=
  .record
    [("class", .text e.type), ("code", e.code), ("message", .text e.message),
      ("message_regex", .text e.messagePattern)]

end ExpectedException

end DocTags
