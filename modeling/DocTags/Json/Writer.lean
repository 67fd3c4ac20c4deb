import DocTags.Datum.Display

/-!
# Writing JSON documents

Documents are ASCII: every other character is escaped, in two halves where it needs more than four
hexadecimal digits. Without an indent a document is one line; with one every item has a line of its
own. A value that JSON does not know is written as the text that shows it.
-/

namespace DocTags.Json

/-- A code of four hexadecimal digits as an escape. -/
def codeEscape (n : Nat) : List Char :=
  '\\' :: 'u' :: Text.hexDigits 4 n

/-- A code point inside a text. -/
def writePoint (n : Nat) : List Char :=
  if n = '"'.toNat then ['\\', '"']
  else if n = '\\'.toNat then ['\\', '\\']
  else if n = '\n'.toNat then ['\\', 'n']
  else if n = '\r'.toNat then ['\\', 'r']
  else if n = '\t'.toNat then ['\\', 't']
  else if n = 0x08 then ['\\', 'b']
  else if n = 0x0c then ['\\', 'f']
  else if 0x20 ≤ n ∧ n < 0x7f then [Char.ofNat n]
  else if n < 0x10000 then codeEscape n
  else codeEscape (0xD800 + (n - 0x10000) / 0x400) ++ codeEscape (0xDC00 + (n - 0x10000) % 0x400)

/-- A text in double quotes. -/
def writePoints (points : List Nat) : List Char :=
  '"' :: points.flatMap writePoint ++ ['"']

/-- A text in double quotes. -/
def writeText (s : String) : List Char :=
  writePoints (Text.toPoints s)

/-- The break before an item: none without an indent. -/
def lineBreak : Option Nat → Nat → List Char
  | none, _ => []
  | some width, depth => '\n' :: List.replicate (width * depth) ' '

/-- What stands between two items. -/
def separator (indent : Option Nat) (depth : Nat) : List Char :=
  match indent with
  | none => [',', ' ']
  | some _ => ',' :: lineBreak indent depth

mutual

/-- The text of a value at some depth of nesting. -/
def writeAt (indent : Option Nat) (depth : Nat) : Datum → List Char
  | .null | .caller => "null".toList
  | .bool b => if b then "true".toList else "false".toList
  | .int n => Decimal.intText n
  | .real x => x.render .json
  | .text s => writeText s
  | .list [] | .tuple [] => ['[', ']']
  | .list (x :: xs) | .tuple (x :: xs) =>
    '[' :: lineBreak indent (depth + 1) ++ writeAt indent (depth + 1) x
      ++ writeItems indent (depth + 1) xs ++ lineBreak indent depth ++ [']']
  | .map [] => ['\x7b', '\x7d']
  | .map ((k, v) :: es) =>
    '\x7b' :: lineBreak indent (depth + 1) ++ writeText k.keyText ++ ':' :: ' '
      :: writeAt indent (depth + 1) v ++ writeEntries indent (depth + 1) es
      ++ lineBreak indent depth ++ ['\x7d']
  | d => writeText (String.ofList d.inspect)

/-- The texts of further items, each after a separator. -/
def writeItems (indent : Option Nat) (depth : Nat) : List Datum → List Char
  | [] => []
  | x :: xs => separator indent depth ++ writeAt indent depth x ++ writeItems indent depth xs

/-- The texts of further entries, each after a separator. -/
def writeEntries (indent : Option Nat) (depth : Nat) : List (Datum × Datum) → List Char
  | [] => []
  | (k, v) :: es =>
    separator indent depth ++ writeText k.keyText ++ ':' :: ' ' :: writeAt indent depth v
      ++ writeEntries indent depth es

end

/-- The document of a value. -/
def write (indent : Option Nat) (d : Datum) : List Char :=
  writeAt indent 0 d

end DocTags.Json
