import DocTags.Datum.Basic
import DocTags.Decimal.Shortest
import DocTags.Text.Printable

/-!
# Values as text

`display` is the text of a value on its own and `inspect` the text of a value inside others. They
differ on texts and moments: inside others a text stands in quotes, with what cannot be shown
escaped, and a moment is shown by its numbers. `plain` is the form in which rows are reported.
-/

namespace DocTags

namespace Text

/-- A hexadecimal digit in lower case. -/
def hexDigit (n : Nat) : Char :=
  if n < 10 then Char.ofNat (48 + n) else Char.ofNat (87 + n)

/-- The lowest `width` hexadecimal digits of a number. -/
def hexDigits (width n : Nat) : List Char :=
  (List.range width).reverse.map fun i => hexDigit (n / Nat.pow 16 i % 16)

/-- A code point as an escape of the least width that holds it. -/
def escapePoint (n : Nat) : List Char :=
  if n < 0x100 then '\\' :: 'x' :: hexDigits 2 n
  else if n < 0x10000 then '\\' :: 'u' :: hexDigits 4 n
  else '\\' :: 'U' :: hexDigits 8 n

/-- A double quote where the text holds single quotes only, else a single quote. -/
def quoteFor (points : List Nat) : Char :=
  if points.contains '\''.toNat && !points.contains '"'.toNat then '"' else '\''

/-- A code point inside quoted text. -/
def quotedPoint (quote : Char) (shown : Nat → Bool) (n : Nat) : List Char :=
  if n = quote.toNat ∨ n = '\\'.toNat then ['\\', Char.ofNat n]
  else if n = '\n'.toNat then ['\\', 'n']
  else if n = '\r'.toNat then ['\\', 'r']
  else if n = '\t'.toNat then ['\\', 't']
  else if shown n then [Char.ofNat n]
  else escapePoint n

/-- Code points in quotes. -/
def quoted (shown : Nat → Bool) (points : List Nat) : List Char :=
  let quote := quoteFor points
  quote :: points.flatMap (quotedPoint quote shown) ++ [quote]

/-- A code point that quoted text shows as it is. -/
def isShown (n : Nat) : Bool :=
  n.isValidChar && isPrintable (Char.ofNat n)

/-- A byte that quoted bytes show as it is. -/
def isShownByte (n : Nat) : Bool :=
  0x20 ≤ n && n < 0x7F

end Text

namespace Datum

/-- Joins texts with a comma and a space. -/
def joinComma (parts : List (List Char)) : List Char :=
  List.intercalate [',', ' '] parts

/-- Texts in brackets. -/
def inBrackets (parts : List (List Char)) : List Char :=
  '[' :: joinComma parts ++ [']']

/-- Texts in parentheses, a comma after a single one. -/
def inParentheses : List (List Char) → List Char
  | [x] => '(' :: x ++ [',', ')']
  | parts => '(' :: joinComma parts ++ [')']

/-- Texts in braces. -/
def inBraces (parts : List (List Char)) : List Char :=
  '\x7b' :: joinComma parts ++ ['\x7d']

/-- The text of an entry, a colon between key and value. -/
def entryText (key value : List Char) : List Char :=
  key ++ ':' :: ' ' :: value

mutual

/-- The text of a value inside others, where `knotText` is that of a value that holds itself. -/
def inspectWith (knotText : List (Nat × Datum) → Nat → List Char) : Datum → List Char
  | null | caller => "None".toList
  | bool b => if b then "True".toList else "False".toList
  | int n => Decimal.intText n
  | real x => x.render .plain
  | text s => Text.quoted Text.isShown (Text.toPoints s)
  | moment m => m.inspect
  | list xs => inBrackets (inspectItems knotText xs)
  | tuple xs => inParentheses (inspectItems knotText xs)
  | set [] => "set()".toList
  | set xs => inBraces (inspectItems knotText xs)
  | map es => inBraces (inspectEntries knotText es)
  | bytes growable bs =>
    let body := 'b' :: Text.quoted Text.isShownByte (bs.map (·.toNat))
    if growable then "bytearray(".toList ++ body ++ [')'] else body
  | named name row =>
    "NamedRow(name=".toList ++ inspectWith knotText name ++ ", row=".toList
      ++ inspectWith knotText row ++ [')']
  | stream .. => "<generator>".toList
  | object type => '<' :: type.toList ++ " object>".toList
  | handle .type => "<class>".toList
  | handle .module => "<module>".toList
  | handle .function => "<function>".toList
  | knot containers number => knotText containers number
  | again _ => "...".toList

/-- The text of every item. -/
def inspectItems (knotText : List (Nat × Datum) → Nat → List Char) :
    List Datum → List (List Char)
  | [] => []
  | x :: xs => inspectWith knotText x :: inspectItems knotText xs

/-- The text of every entry. -/
def inspectEntries (knotText : List (Nat × Datum) → Nat → List Char) :
    List (Datum × Datum) → List (List Char)
  | [] => []
  | (k, v) :: es =>
    entryText (inspectWith knotText k) (inspectWith knotText v) :: inspectEntries knotText es

end

/-- What stands for a container inside itself. -/
def elision : Datum → List Char
  | map _ => inBraces ["...".toList]
  | tuple _ => '(' :: "...".toList ++ [')']
  | _ => inBrackets ["...".toList]

/-- The text of a part of a container in a table, inside the containers with the given numbers. A
container inside itself is left out. -/
def inspectPart (containers : List (Nat × Datum)) : Nat → List Nat → Datum → List Char
  | fuel + 1, around, again number =>
    let inside := inspectPart containers fuel (number :: around)
    match containers.lookup number with
    | none => []
    | some d =>
      if around.contains number then elision d
      else
        match d with
        | list xs => inBrackets (xs.map inside)
        | tuple xs => inParentheses (xs.map inside)
        | map es =>
          inBraces (es.map fun e => entryText (inspectWith (fun _ _ => []) e.1) (inside e.2))
        | d => inspectWith (fun _ _ => []) d
  | _, _, d => inspectWith (fun _ _ => []) d

/-- The text of a value that holds itself. Only as many containers as there are in the table are
inside one another before one is inside itself. -/
def knotText (containers : List (Nat × Datum)) (number : Nat) : List Char :=
  inspectPart containers (containers.length + 2) [] (again number)

/-- The text of a value inside others. -/
def inspect (d : Datum) : List Char :=
  inspectWith knotText d

/-- The text of a value on its own. -/
def display : Datum → String
  | text s => s
  | moment m => String.ofList m.display
  | d => String.ofList (inspect d)

/-- The text of a key in a document. -/
def keyText : Datum → String
  | null => "null"
  | bool b => if b then "true" else "false"
  | real x => String.ofList (x.render .json)
  | d => d.display

@[simp] theorem display_text (s : String) : (text s).display = s := rfl

mutual

/-- The reported form of a row: tuples become lists and keys become texts, at every depth. -/
def plain : Datum → Datum
  | map es => map (plainEntries [] es)
  | list xs => list (plainItems xs)
  | tuple xs => list (plainItems xs)
  | d => d

/-- The reported form of every item. -/
def plainItems : List Datum → List Datum
  | [] => []
  | x :: xs => plain x :: plainItems xs

/-- Adds the reported form of every entry to `done`. -/
def plainEntries (done : List (Datum × Datum)) : List (Datum × Datum) → List (Datum × Datum)
  | [] => done
  | (k, v) :: es => plainEntries (insertEntry done (text k.display) (plain v)) es

end

mutual

/-- No more than the given number of sequences and mappings are inside one another where a row is
reported. A value that holds itself has no end. -/
def nestsWithin : Nat → Datum → Bool
  | n, map es => n ≠ 0 && entriesNestWithin (n - 1) es
  | n, list xs => n ≠ 0 && itemsNestWithin (n - 1) xs
  | n, tuple xs => n ≠ 0 && itemsNestWithin (n - 1) xs
  | _, knot .. => false
  | _, _ => true

/-- No more are inside one another in any item. -/
def itemsNestWithin : Nat → List Datum → Bool
  | _, [] => true
  | n, x :: xs => nestsWithin n x && itemsNestWithin n xs

/-- No more are inside one another in the value of any entry. -/
def entriesNestWithin : Nat → List (Datum × Datum) → Bool
  | _, [] => true
  | n, (_, v) :: es => nestsWithin n v && entriesNestWithin n es

end

end Datum

end DocTags
