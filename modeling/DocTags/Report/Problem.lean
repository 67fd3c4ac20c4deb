import DocTags.Datum.Display

/-!
# Problems and faults

A problem is a cause that reports describe: every one has a code, a message and details. A fault is
any other cause that ends a computation; it is not described in reports.
-/

namespace DocTags

/-- The kinds of problem that reports tell apart. -/
inductive Code where
  | configParseError
  | configInvalidValue
  | malformedConstraint
  | invalidRow
  | rowParseError
  | emptyLiteral
  | duplicateName
  | typeNotFound
  | memberNotFound
  | instantiationFailed
  | testSkipped
  | internalError
  deriving DecidableEq, Repr

namespace Code

/-- Every code. -/
def all : List Code :=
  [configParseError, configInvalidValue, malformedConstraint, invalidRow, rowParseError,
    emptyLiteral, duplicateName, typeNotFound, memberNotFound, instantiationFailed, testSkipped,
    internalError]

/-- The number of a code. Its thousands tell the area. -/
def number : Code → Nat
  | configParseError => 2001
  | configInvalidValue => 2002
  | malformedConstraint => 3001
  | invalidRow => 4001
  | rowParseError => 4002
  | emptyLiteral => 4003
  | duplicateName => 4004
  | typeNotFound => 5001
  | memberNotFound => 5002
  | instantiationFailed => 5003
  | testSkipped => 6001
  | internalError => 9001

/-- The name of a code. -/
def name : Code → String
  | configParseError => "CONFIG_PARSE_ERROR"
  | configInvalidValue => "CONFIG_INVALID_VALUE"
  | malformedConstraint => "REQUIREMENT_MALFORMED_CONSTRAINT"
  | invalidRow => "DATA_SET_INVALID_ROW"
  | rowParseError => "DATA_SET_PARSE_ERROR"
  | emptyLiteral => "DATA_SET_EMPTY_LITERAL"
  | duplicateName => "DATA_SET_DUPLICATE_NAME"
  | typeNotFound => "PROVIDER_TYPE_NOT_FOUND"
  | memberNotFound => "PROVIDER_MEMBER_NOT_FOUND"
  | instantiationFailed => "PROVIDER_INSTANTIATION_FAILED"
  | testSkipped => "TEST_SKIPPED"
  | internalError => "INTERNAL_ERROR"

/-- The code with the given name. -/
def ofName? (s : String) : Option Code :=
  all.find? (·.name = s)

end Code

/-- What is told about a problem. -/
structure Report where
  code : Code
  message : String
  retryable : Bool := false
  details : List (String × Datum) := []

namespace Report

/-- The report on one line. -/
def summary (r : Report) : String :=
  "[" ++ toString r.code.number ++ "] " ++ r.code.name ++ ": " ++ r.message

/-- The report as a mapping. -/
def toDatum (r : Report) : Datum :=
  .record
    [("code", .ofNat r.code.number), ("error", .text r.code.name), ("message", .text r.message),
      ("retryable", .bool r.retryable), ("details", .record r.details)]

/-- Puts a detail in the place of an old one with its name, or at the end. -/
def withDetail (name : String) (value : Datum) : List (String × Datum) → List (String × Datum)
  | [] => [(name, value)]
  | d :: ds => if d.1 = name then (name, value) :: ds else d :: withDetail name value ds

/-- The report with the reference to a provider that led to it. -/
def withReference (r : Report) (reference : String) : Report :=
  { r with
    message := r.message ++ " (data provider \"" ++ reference ++ "\")"
    details := withDetail "provider" (.text reference) r.details }

end Report

/-- Why a reference to a provider leads nowhere. -/
inductive Unresolved where
  | typeNotFound (type reason : String)
  | memberNotFound (type member : String)
  | instantiationFailed (type reason : String)
  deriving DecidableEq, Repr

namespace Unresolved

/-- The report on an unresolved reference. -/
def report : Unresolved → Report
  | typeNotFound type reason =>
    { code := .typeNotFound
      message := "Class \"" ++ type ++ "\" does not exist: " ++ reason
      details := [("type", .text type), ("reason", .text reason)] }
  | memberNotFound type member =>
    { code := .memberNotFound
      message := "Method " ++ type ++ "::" ++ member ++ "() does not exist"
      details := [("type", .text type), ("member", .text member)] }
  | instantiationFailed type reason =>
    { code := .instantiationFailed
      message := "Cannot instantiate " ++ type ++ ": " ++ reason
      details := [("type", .text type), ("reason", .text reason)] }

end Unresolved

/-- A cause that reports describe. -/
inductive Problem where
  | unreadableSettings (path reason : String)
  | invalidSetting (setting : String) (value : Datum) (reason : String)
  | malformedConstraint (requirement expression reason : String)
  | invalidRow (key : Datum)
  | invalidResult (provider type : String)
  | unreadableRow (row reason : String)
  | noLiteralRows
  | duplicateName (name : Datum) (provider : String)
  | unresolved (cause : Unresolved) (references : List String)
  | noRows (providers : List String)
  | internal (reason : String) (details : List (String × Datum))

namespace Problem

/-- The report on a problem. -/
def report : Problem → Report
  | unreadableSettings path reason =>
    { code := .configParseError
      message := "Failed to parse config at " ++ path ++ ": " ++ reason
      details := [("path", .text path), ("reason", .text reason)] }
  | invalidSetting setting value reason =>
    { code := .configInvalidValue
      message := "Invalid value for '" ++ setting ++ "': " ++ reason
      details := [("field", .text setting), ("value", .text value.display),
        ("reason", .text reason)] }
  | malformedConstraint requirement expression reason =>
    { code := .malformedConstraint
      message := reason
      details := [("requirement", .text requirement), ("constraint", .text expression)] }
  | invalidRow key =>
    let label :=
      match key with
      | .int _ | .bool _ => "#" ++ key.display
      | name => "\"" ++ name.display ++ "\""
    { code := .invalidRow
      message := "Data set " ++ label ++ " is invalid."
      details := [("key", key)] }
  | invalidResult provider type =>
    { code := .invalidRow
      message := "Data provider \"" ++ provider ++ "\" must return data sets, got " ++ type ++ "."
      details := [("provider", .text provider), ("type", .text type)] }
  | unreadableRow row reason =>
    { code := .rowParseError
      message := "The data set for the @testWith annotation cannot be parsed: " ++ reason
      details := [("row", .text row), ("reason", .text reason)] }
  | noLiteralRows =>
    { code := .emptyLiteral
      message := "The data set for the @testWith annotation cannot be parsed." }
  | duplicateName name provider =>
    { code := .duplicateName
      message := "The key \"" ++ name.display
        ++ "\" has already been defined in the data provider \"" ++ provider ++ "\"."
      details := [("key", name), ("provider", .text provider)] }
  | unresolved cause references => references.foldl Report.withReference cause.report
  | noRows providers =>
    { code := .testSkipped
      message := "Data provider returned an empty data set"
      details := [("providers", .texts providers)] }
  | internal reason details =>
    { code := .internalError
      message := "Internal error: " ++ reason
      details := details }

/-- The kind of a problem. -/
def code (p : Problem) : Code :=
  p.report.code

end Problem

/-- Why a row of bytes is no text. -/
structure EncodingFault where
  /-- The first byte that does not fit. -/
  byte : UInt8
  start : Nat
  stop : Nat
  reason : String
  deriving DecidableEq, Repr

namespace EncodingFault

/-- The wording of an encoding fault. -/
def message (f : EncodingFault) : String :=
  let place :=
    if f.stop = f.start + 1 then
      "byte 0x" ++ String.ofList (Text.hexDigits 2 f.byte.toNat) ++ " in position "
        ++ toString f.start
    else "bytes in position " ++ toString f.start ++ "-" ++ toString (f.stop - 1)
  "'utf-8' codec can't decode " ++ place ++ ": " ++ f.reason

end EncodingFault

/-- Why a file cannot be read. -/
inductive FileFault where
  | missing (path : String)
  | isDirectory (path : String)
  /-- Something else is in the place of a directory that is to be made. -/
  | occupied (path : String)
  /-- Something that is no directory has parts. -/
  | notADirectory (path : String)
  | nameTooLong (path : String)
  deriving DecidableEq, Repr

namespace FileFault

/-- The number of a file fault with its wording, and the path. -/
def cause : FileFault → String × String
  | missing path => ("[Errno 2] No such file or directory", path)
  | isDirectory path => ("[Errno 21] Is a directory", path)
  | occupied path => ("[Errno 17] File exists", path)
  | notADirectory path => ("[Errno 20] Not a directory", path)
  | nameTooLong path => ("[Errno 36] File name too long", path)

/-- The wording of a file fault. -/
def message (f : FileFault) : String :=
  f.cause.1 ++ ": " ++ String.ofList (Text.quoted Text.isShown (Text.toPoints f.cause.2))

end FileFault

/-- A cause that ends a computation and that reports do not describe. -/
inductive Fault where
  /-- A module without a name was asked for. -/
  | emptyModuleName
  /-- A module was asked for by a name that starts with a point. -/
  | relativeModuleName
  /-- A call with a number of arguments that the callee does not take. -/
  | argumentCount
  /-- A text that should be a number is none. -/
  | notANumber
  /-- A number that should be whole is not finite. -/
  | infiniteNumber
  /-- A value is of a type that its place does not take. -/
  | wrongType
  /-- A value has not the operations that its place asks for. -/
  | noSuchOperation
  /-- A text that should hold a number is empty. -/
  | emptyText
  /-- A value is nested too deep. -/
  | tooDeep
  /-- A value that holds itself is written to a document. -/
  | endless
  /-- A text that holds half of a surrogate pair is written to bytes. -/
  | unwritable
  /-- A path holds a character that no path can hold. -/
  | invalidPath
  /-- A home directory is asked for that is not known. -/
  | unknownHome
  | file (fault : FileFault)
  | encoding (fault : EncodingFault)
  | thrown (fault : Thrown)
  /-- A word that should be a truth value is none. -/
  | unknownWord (word : String)
  | unknownQuery (name : String)
  | unknownDialect (name : String)
  | unknownCode (name : String)
  | unreadableVariable (name : String)
  deriving DecidableEq, Repr

/-- What ends a computation without a result. -/
inductive Failure where
  | problem (p : Problem)
  | fault (f : Fault)

end DocTags
