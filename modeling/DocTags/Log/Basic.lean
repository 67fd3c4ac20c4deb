import DocTags.Json.Writer
import DocTags.Report.Run
import DocTags.Settings.Basic
import DocTags.World.Disk

/-!
# The log

Every event is written to the outputs that its level is grave enough for. While a symbol is worked
on, the records carry its name and the number of the work. Before the log is configured nothing is
written.
-/

namespace DocTags

/-- The state of the log. -/
structure Log where
  /-- The least grave level that is written anywhere; none before the log is configured. -/
  threshold : Option Level := none
  outputs : List LogOutput := []
  /-- The symbol that is worked on. -/
  symbol : Option Datum := none
  /-- The number of the work, if one goes on. -/
  current : Option Nat := none
  /-- How many times work on a symbol has begun. -/
  begun : Nat := 0
  /-- How the number of a work is shown. -/
  shownAs : Nat → String

/-- What is written about an event. -/
inductive LogRecord where
  | fields (entries : List (String × Datum))
  | line (text : String)

namespace Log

/-- The digits of a work's number. -/
def numberWidth : Nat := 12

/-- The number of a work in hexadecimal digits. -/
def hexNumber (n : Nat) : String :=
  String.ofList (Text.hexDigits numberWidth n)

/-- Writes from now on to the given outputs. -/
def configure (settings : LogSettings) (log : Log) : Log :=
  { log with threshold := some settings.level, outputs := settings.outputs }

/-- Why records cannot be written to a file. Directories on the way to it are made, unless something
else is there. -/
def fileFault? (disk : Disk) (path : String) : Option Fault :=
  match disk.read path with
  | .ok _ | .error (.file (.missing _)) => none
  | .error (.file (.notADirectory path)) =>
    let directory := String.ofList (FilePath.parent path.toList)
    if (disk.read directory).toBool then some (.file (.occupied directory))
    else some (.file (.notADirectory directory))
  | .error f => some f

/-- The names of outputs that are no files. -/
def streams : List String := ["stdout", "stderr"]

/-- The outputs up to the first that cannot be written to, and why it cannot. -/
def openOutputs (disk : Disk) : List LogOutput → List LogOutput × Option Fault
  | [] => ([], none)
  | o :: os =>
    match if streams.contains o.destination then none else fileFault? disk o.destination with
    | some f => ([], some f)
    | none =>
      let (opened, fault) := openOutputs disk os
      (o :: opened, fault)

/-- Begins to work on a symbol. -/
def beginSymbol (name : Datum) (log : Log) : Log :=
  { log with symbol := some name, current := some (log.begun + 1), begun := log.begun + 1 }

/-- Ends the work on a symbol. -/
def endSymbol (log : Log) : Log :=
  { log with symbol := none, current := none }

/-- The number of the current work as it is shown. -/
def currentNumber? (log : Log) : Option String :=
  log.current.map log.shownAs

/-- The field for the time of a record, which an event cannot set. -/
def timeField : String := "timestamp"

/-- The fields of an event's record besides the time: those of the event, the symbol unless the
event has one of its own, the level, and the number of the work in any case. -/
def fieldsOf (log : Log) (e : Event) : List (String × Datum) :=
  let bound : List (String × Datum) :=
    match log.symbol with
    | some name => [("symbol", name)]
    | none => []
  let own := (e.fields.filter fun f => f.1 ≠ timeField).foldl
    (fun fs f => Report.withDetail f.1 f.2 fs) bound
  let all :=
    Report.withDetail "level" (.text e.level.word) (Report.withDetail "event" (.text e.name) own)
  match log.currentNumber? with
  | some number => Report.withDetail "extraction_id" (.text number) all
  | none => all

/-- A character that makes a text stand in quotes. -/
def needsQuotes (c : Char) : Bool :=
  [' ', '\t', '=', '\r', '\n', '"', '\''].contains c

/-- The text of a field on a line. -/
def lineValue : Datum → String
  | .text s => if s.toList.any needsQuotes then String.ofList (Datum.inspect (.text s)) else s
  | d => String.ofList d.inspect

/-- The fields whose values stand in brackets after the event, without their names. -/
def loggerFields : List String := ["logger", "logger_name"]

/-- The fields that are not written with their names on a line. -/
def unnamedFields : List String :=
  ["level", "event", "stack", "exception", "exc_info"] ++ loggerFields

/-- The value of a field that is written below a line; the inner none is a field without one. -/
def textBelow? (fields : List (String × Datum)) (name : String) : Option (Option String) :=
  match List.lookup name fields with
  | none | some .null => some none
  | some (.text s) => some (some s)
  | some _ => none

/-- What is written below a line: the calls on the way to the event, and the exception behind it.
None if one of them is no text. -/
def below? (fields : List (String × Datum)) : Option String := do
  let rule := String.ofList (List.replicate 79 '=')
  match ← textBelow? fields "stack", ← textBelow? fields "exception" with
  | none, none => return ""
  | some calls, none => return "\n" ++ calls
  | none, some exception => return "\n" ++ exception
  | some calls, some exception =>
    return "\n" ++ calls ++ "\n\n" ++ rule ++ "\n\n" ++ exception

/-- The fields as a line: the level, the event, the loggers and the other fields in the order of
their names. None if what belongs below it cannot be written. -/
def lineOf? (e : Event) (fields : List (String × Datum)) : Option String := do
  let others := fields.filter fun f => !unnamedFields.contains f.1
  let sorted := others.mergeSort fun f g => f.1 ≤ g.1
  let loggers := loggerFields.filterMap fun name =>
    (List.lookup name fields).map fun d => "[" ++ d.display ++ "]"
  let named := sorted.map fun f => f.1 ++ "=" ++ lineValue f.2
  let parts := ("[" ++ e.level.word ++ "]") :: e.name :: (loggers ++ named)
  let line := String.intercalate " " (parts.filter (· ≠ ""))
  return String.ofList (Text.dropEndWhile (· == ' ') line.toList) ++ (← below? fields)

/-- The record of an event in some format, if it can be written. -/
def recordOf? (log : Log) (e : Event) : LogFormat → Option LogRecord
  | .json => some (.fields (log.fieldsOf e))
  | .console => (lineOf? e (log.fieldsOf e)).map .line

/-- The event is grave enough to be written anywhere. -/
def passes (log : Log) (e : Event) : Bool :=
  match log.threshold with
  | none => false
  | some level => level.rank ≤ e.level.rank

/-- The event is grave enough for an output. -/
def passesAt (log : Log) (e : Event) (output : LogOutput) : Bool :=
  log.passes e && (output.level.getD (log.threshold.getD .critical)).rank ≤ e.level.rank

/-- The records of an event, each with its destination. -/
def write (log : Log) (e : Event) : List (String × LogRecord) :=
  (log.outputs.filter (log.passesAt e)).filterMap fun o =>
    (log.recordOf? e o.format).map fun r => (o.destination, r)

/-- An event that does not pass the threshold is written nowhere. -/
theorem write_eq_nil_of_passes_eq_false {log : Log} {e : Event} (h : log.passes e = false) :
    log.write e = [] := by
  simp [write, passesAt, h]

end Log

namespace LogRecord

/-- The record as a line of text. -/
def text : LogRecord → String
  | fields entries => String.ofList (Json.write none (.record entries))
  | line s => s

end LogRecord

end DocTags
