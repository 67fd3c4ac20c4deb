import DocTags.Settings.Basic
import DocTags.Symbol
import DocTags.Text.FilePath
import DocTags.Text.Utf8

/-!
# From values to settings

A mapping of sections becomes settings. Values are taken in several forms: a whole number may be
written as text, a truth value as a word. The first value that does not fit, in the order of the
settings, refuses the whole mapping; keys that no section has come last, and inside a section they
count for nothing. A fault ends everything, also behind a value that does not fit.
-/

namespace DocTags

/-- Why a mapping gives no settings. -/
inductive Refusal where
  /-- A value in some place does not fit. -/
  | rejected (place : List String) (value : Datum) (reason : String)
  | fault (f : Fault)

namespace Refusal

/-- The refusal of a value inside the given one. -/
def inside (name : String) : Refusal → Refusal
  | rejected place value reason => rejected (name :: place) value reason
  | fault f => fault f

/-- The refusal as a failure. A value that cannot be shown is a fault of its own. -/
def toFailure : Refusal → Failure
  | rejected place value reason =>
    if value.isTooLong then .fault .notANumber
    else .problem (.invalidSetting (String.intercalate "." place) value reason)
  | fault f => .fault f

end Refusal

/-- Reads a setting from a value. -/
abbrev SettingReader (α : Type) := Datum → Except Refusal α

namespace SettingReader

variable {α : Type}

/-- Refuses a value. -/
def reject (value : Datum) (reason : String) : Except Refusal α :=
  .error (.rejected [] value reason)

/-- What has been read, unless a value does not fit and what is read later ends with a fault. -/
def unlessFault {β : Type} (later : Except Refusal β) (x : Except Refusal α) : Except Refusal α :=
  match x, later with
  | .error (.rejected ..), .error (.fault f) => .error (.fault f)
  | _, _ => x

@[simp] theorem unlessFault_ok {β : Type} (later : Except Refusal β) (a : α) :
    unlessFault later (.ok a) = .ok a := rfl

/-- Takes nothing as none. -/
def optional (read : SettingReader α) : SettingReader (Option α)
  | .null => .ok none
  | d => (read d).map some

/-- The words in quotes, the last after `or`. -/
def alternatives : List String → String
  | [] => ""
  | [w] => "'" ++ w ++ "'"
  | [v, w] => "'" ++ v ++ "' or '" ++ w ++ "'"
  | w :: ws => "'" ++ w ++ "', " ++ alternatives ws

/-- Why a text with half of a surrogate pair is refused, or bytes that are no text. -/
def notUnicode : String :=
  "Input should be a valid string, unable to parse raw data as a unicode string"

/-- Takes one of the words for some values. -/
def word (key : α → String) (all : List α) : SettingReader α := fun d =>
  let expected := "Input should be " ++ alternatives (all.map key)
  match d with
  | .text s =>
    if Text.holdsHalf s then reject d notUnicode
    else
      match all.find? fun a => key a = s with
      | some a => .ok a
      | none => reject d expected
  | _ => reject d expected

/-- The text of bytes, if they are one. -/
def textOfBytes? (bs : List UInt8) : Option String :=
  (Utf8.decode bs).toOption.map fun s => String.ofList (Text.hold s)

/-- Takes a text, also as bytes. -/
def text : SettingReader String := fun d =>
  match d with
  | .text s => .ok s
  | .bytes _ bs =>
    match textOfBytes? bs with
    | some s => .ok s
    | none => reject d notUnicode
  | _ => reject d "Input should be a valid string"

/-- The words for a truth value, in lower case. -/
def truthOf? (word : String) : Option Bool :=
  if ["0", "off", "f", "false", "n", "no"].contains word then some false
  else if ["1", "on", "t", "true", "y", "yes"].contains word then some true
  else none

/-- The truth value that a number stands for. -/
def truthOfInt? (n : Int) : Option Bool :=
  if n = 0 then some false else if n = 1 then some true else none

/-- The bound that whole numbers given with a point have to stay within. -/
def realBound : Nat := Nat.pow 2 63

/-- Takes a truth value, one of the words for it, zero or one. -/
def truth : SettingReader Bool := fun d =>
  let read (value : Option Bool) : Except Refusal Bool :=
    match value with
    | some b => .ok b
    | none => reject d "Input should be a valid boolean, unable to interpret input"
  let readWord (s : String) : Except Refusal Bool :=
    read (truthOf? (String.ofList (s.toList.map Char.toLower)))
  match d with
  | .bool b => .ok b
  | .int n => read (truthOfInt? n)
  | .real (.finite negative m q) =>
    let n := Binary64.truncate negative m q
    if (Binary64.finite negative m q).isWhole ∧ n.natAbs < realBound then read (truthOfInt? n)
    else reject d "Input should be a valid boolean"
  | .text s => if Text.holdsHalf s then reject d notUnicode else readWord s
  | .bytes _ bs => (textOfBytes? bs).elim (read none) readWord
  | _ => reject d "Input should be a valid boolean"

/-- Why a text gives no whole number. -/
inductive NumeralFault where
  | unreadable
  | tooLarge
  deriving DecidableEq, Repr

/-- Drops zeros and underscores after a zero, of which `last` is the latest. A numeral of nothing
else keeps its last character. -/
def dropZeros (last : Char) : List Char → Option (List Char)
  | [] => some [last]
  | c :: s =>
    if c = '0' ∨ c = '_' then dropZeros c s
    else if c = '.' then some (last :: c :: s)
    else if c.isDigit then some (c :: s)
    else none

/-- Drops the zeros at the front of a numeral. -/
def dropFrontZeros : List Char → Option (List Char)
  | [] => none
  | c :: s =>
    if c = '0' then dropZeros c s
    else if c.isDigit || c == '-' then some (c :: s)
    else none

/-- Drops a point with one zero or more and nothing else after it. -/
def dropPoint (s : List Char) : List Char :=
  let fraction := (s.dropWhile (· != '.')).drop 1
  if !fraction.isEmpty && fraction.all (· == '0') then s.takeWhile (· != '.') else s

/-- Drops single underscores inside a numeral. -/
def dropUnderscores (s : List Char) : List Char :=
  let stray :=
    s.head? == some '_' || s.getLast? == some '_' || (s.zip (s.drop 1)).contains ('_', '_')
  if stray then s else s.filter (· != '_')

/-- The digits of a numeral and its sign, with nothing else about it. -/
def numeral? (s : List Char) : Option (List Char) :=
  let s := Text.trimWhere Decimal.isPadding s
  let unsigned := if s.head? = some '+' then s.drop 1 else s
  if s.head? = some '+' ∧ unsigned.head? = some '-' then none
  else (dropFrontZeros unsigned).map fun r => dropUnderscores (dropPoint r)

/-- The whole number that a text stands for. Digits that are too many, with their sign, are found
before what follows them. -/
def wholeNumber (s : List Char) : Except NumeralFault Int :=
  match numeral? s with
  | none => .error .unreadable
  | some cleaned =>
    let (negative, unsigned) := Decimal.splitSign cleaned
    let (digits, rest) := unsigned.span Char.isDigit
    if digits.isEmpty || (digits.head? == some '0' && digits.length != 1) then .error .unreadable
    else if Decimal.maxDigits < cleaned.length - rest.length then .error .tooLarge
    else if !rest.isEmpty then .error .unreadable
    else .ok (Decimal.signed negative (Decimal.ofDigits (digits.map fun c => c.toNat - 48)))

/-- Takes a whole number, also as text, as a truth value or with a point and no fraction. -/
def int : SettingReader Int := fun d =>
  let tooLarge := "Unable to parse input string as an integer, exceeded maximum size"
  let unreadable := "Input should be a valid integer, unable to parse string as an integer"
  let readNumeral (s : String) : Except Refusal Int :=
    match wholeNumber s.toList with
    | .ok n => .ok n
    | .error .unreadable => reject d unreadable
    | .error .tooLarge => reject d tooLarge
  match d with
  | .bool b => .ok b.toNat
  | .int n => .ok n
  | .real (.finite negative m q) =>
    if !(Binary64.finite negative m q).isWhole then
      reject d "Input should be a valid integer, got a number with a fractional part"
    else
      let n := Binary64.truncate negative m q
      if n.natAbs < realBound then .ok n else reject d tooLarge
  | .real _ => reject d "Input should be a finite number"
  | .text s => if Text.holdsHalf s then reject d notUnicode else readNumeral s
  | .bytes _ bs => (textOfBytes? bs).elim (reject d unreadable) readNumeral
  | _ => reject d "Input should be a valid integer"

/-- Takes a number that is not negative. -/
def indent : SettingReader Nat := fun d => do
  let n ← int d
  if n < 0 then reject d ("Value error, Indent must be >= 0, got " ++ toString n)
  else return n.toNat

/-- The entries of a section that goes by the given name. -/
def entries (sectionName : String) : SettingReader (List (Datum × Datum)) := fun d =>
  match d.opened with
  | .map es => .ok es
  | _ => reject d ("Input should be a valid dictionary or instance of " ++ sectionName)

/-- Reads the value under a name; without one the setting has its default. -/
def field (es : List (Datum × Datum)) (name : String) (absent : α) (read : SettingReader α) :
    Except Refusal α :=
  match Datum.field? es name with
  | none => .ok absent
  | some d => (read d).mapError (Refusal.inside name)

/-- Reads items, of which the first has the given number. -/
def itemsFrom (read : SettingReader α) (i : Nat) : List Datum → Except Refusal (List α)
  | [] => .ok []
  | d :: ds => do
    let later := itemsFrom read (i + 1) ds
    let a ← unlessFault later ((read d).mapError (Refusal.inside (toString i)))
    return a :: (← later)

/-- Takes a list. -/
def list (read : SettingReader α) : SettingReader (List α) := fun d =>
  match d.opened with
  | .list ds | .tuple ds | .set ds => itemsFrom read 0 ds
  | _ => reject d "Input should be a valid list"

end SettingReader

/-- Where the home directories of users are. -/
structure Homes where
  /-- The home directory of the user at hand. -/
  own? : Option String
  /-- The home directory of the user with a name. -/
  named? : String → Option String

namespace Homes

/-- The homes where root is the only user. -/
def ofRoot : Homes where
  own? := some "/root"
  named? name := if name = "root" then some "/root" else none

/-- A home directory as it stands in paths: without slashes at its end, unless it is the root. One
that starts with a tilde leads nowhere. -/
def directory? (home : String) : Option (List Char) :=
  if home.toList.head? = some '~' then none
  else
    match Text.dropEndWhile (· == '/') home.toList with
    | [] => some ['/']
    | directory => some directory

end Homes

namespace LogOutput

open SettingReader Text

/-- Why a home directory cannot be looked up: the name of its user holds halves of surrogate pairs,
of which those from the first that stands for no byte are named. -/
def notWritable (user : List Char) : String :=
  let plain := (points user).takeWhile FilePath.isWritable
  let halves := ((points user).drop plain.length).takeWhile isHalf
  let place :=
    match halves with
    | [n] => "character '\\u" ++ String.ofList (hexDigits 4 n) ++ "' in position "
        ++ toString plain.length
    | _ => "characters in position " ++ toString plain.length ++ "-"
        ++ toString (plain.length + halves.length - 1)
  "Value error, 'utf-8' codec can't encode " ++ place ++ ": surrogates not allowed"

/-- Why a home directory cannot be looked up: the name of its user holds a character that no name
can hold. -/
def holdsNull : String := "Value error, embedded null byte"

/-- The directory of a home that has been looked up. -/
def directoryOf (home? : Option String) : Except Refusal (List Char) :=
  match home?.bind Homes.directory? with
  | some directory => .ok directory
  | none => .error (.fault .unknownHome)

/-- The home directory of a user; without a name, of the one at hand. -/
def homeOf (homes : Homes) (d : Datum) (user : List Char) : Except Refusal (List Char) :=
  if user.isEmpty then directoryOf homes.own?
  else if !(points user).all FilePath.isWritable then reject d (notWritable user)
  else if user.contains '\x00' then reject d holdsNull
  else directoryOf (homes.named? (String.ofList user))

/-- A path whose first part may be a tilde for a home directory, perhaps with the name of its
user. -/
def expandHome (homes : Homes) (d : Datum) (path : List Char) : Except Refusal (List Char) :=
  match FilePath.isAbsolute path, FilePath.parts path with
  | false, ('~' :: user) :: rest =>
    (homeOf homes d user).map fun directory => FilePath.under directory (join ['/'] rest)
  | _, _ => .ok (FilePath.tidy path)

/-- A text with three replacement characters, one for each byte, in the place of each half of a
surrogate pair. -/
def withoutHalves (s : String) : String :=
  String.ofList ((toPoints s).flatMap fun n =>
    if isHalf n then List.replicate 3 '\uFFFD' else charsOf n)

/-- Takes a place for records: one of the two streams, or the path of a file from the root. -/
def readDestination (homes : Homes) : SettingReader String := fun d => do
  let s ← SettingReader.text d
  if s = "stderr" ∨ s = "stdout" then return s
  else
    let path ← expandHome homes d s.toList
    if FilePath.isAbsolute path then return String.ofList path
    else reject d ("Value error, File destination must be absolute path: " ++ withoutHalves s)

/-- Takes an output. -/
def read (homes : Homes) : SettingReader LogOutput := fun d => do
  let es ← entries "LogOutputConfig" d
  let place := field es "destination" "stderr" (readDestination homes)
  return {
    format := ← unlessFault place (field es "format" .console (word LogFormat.key LogFormat.all))
    destination := ← place
    level := ← field es "level" none (optional (word Level.key Level.all)) }

end LogOutput

namespace LogSettings

open SettingReader

/-- Takes the section on logging. -/
def read (d : Datum) (homes : Homes := .ofRoot) : Except Refusal LogSettings := do
  let es ← entries "LoggingConfig" d
  let outputs := field es "outputs" [{}] (list (LogOutput.read homes))
  return {
    level := ← unlessFault outputs (field es "level" .warning (word Level.key Level.all))
    outputs := ← outputs }

end LogSettings

namespace ExtractionSettings

open SettingReader

/-- Takes the section on extraction. -/
def read : SettingReader ExtractionSettings := fun d => do
  let es ← entries "ExtractionConfig" d
  return {
    resolveConstants := ← field es "resolve_constants" true truth
    instantiateProviders := ← field es "instantiate_providers" true truth
    defaultModule := ← field es "default_module" none (optional text) }

end ExtractionSettings

namespace OutputSettings

open SettingReader

/-- Takes the section on printing. -/
def read : SettingReader OutputSettings := fun d => do
  let es ← entries "OutputConfig" d
  return {
    format := ← field es "format" .json (word OutputFormat.key OutputFormat.all)
    indent := ← field es "indent" 2 SettingReader.indent }

end OutputSettings

namespace Settings

open SettingReader

/-- The names of the sections. -/
def sections : List String := ["logging", "extraction", "output"]

/-- The first entry that no section has the name of. -/
def unknownEntry? (es : List (Datum × Datum)) : Option (String × Datum) :=
  es.findSome? fun e =>
    match e.1 with
    | .text name => if sections.contains name then none else some (name, e.2)
    | _ => none

/-- A key that is text. -/
def isTextKey : Datum → Bool
  | .text _ => true
  | _ => false

/-- A key that holds half of a surrogate pair. -/
def holdsHalf : Datum → Bool
  | .text name => Text.holdsHalf name
  | _ => false

/-- Takes the sections. -/
def readSections (homes : Homes) (es : List (Datum × Datum)) : Except Refusal Settings := do
  return {
    logging := ← field es "logging" {} (LogSettings.read · homes)
    extraction := ← field es "extraction" {} ExtractionSettings.read
    output := ← field es "output" {} OutputSettings.read }

/-- The settings that the sections give. A key that cannot be read refuses them before any value. -/
def ofEntries (homes : Homes) (es : List (Datum × Datum)) : Except Refusal Settings :=
  if es.any fun e => !isTextKey e.1 then .error (.fault .wrongType)
  else
    match es.find? fun e => holdsHalf e.1 with
    | some e => unlessFault (readSections homes es) (reject e.1 notUnicode)
    | none => do
      let settings ← readSections homes es
      match unknownEntry? es with
      | some (name, value) => .error (.rejected [name] value "Extra inputs are not permitted")
      | none => return settings

end Settings

end DocTags
