import DocTags.Datum.Display
import DocTags.Yaml.Tag

/-!
# Writing YAML documents

Collections are written as blocks, two columns to a level, and empty ones in brackets. A text is
plain where reading it back gives the same text, else in single quotes if it holds nothing but ASCII
characters that can be shown, else in double quotes with escapes. Long texts are folded at spaces.
-/

namespace DocTags.Yaml

/-- A document that is being written. -/
structure Sheet where
  /-- The characters so far, the latest first. -/
  reversed : List Char := []
  column : Nat := 0
  /-- The last thing written was a blank or nothing. -/
  afterBlank : Bool := true
  /-- The line holds nothing but indentation and signs of items and keys. -/
  atIndent : Bool := true

namespace Sheet

/-- The width that lines are folded at. -/
def maxWidth : Nat := 80

/-- Writes characters. -/
def put (cs : List Char) (s : Sheet) : Sheet :=
  { s with reversed := cs.reverse ++ s.reversed, column := s.column + cs.length }

/-- Ends the line. -/
def endLine (s : Sheet) : Sheet :=
  { s with reversed := '\n' :: s.reversed, column := 0, afterBlank := true, atIndent := true }

/-- Goes to a column, on a new line if there is something on this one. -/
def indentTo (column : Nat) (s : Sheet) : Sheet :=
  let s :=
    if !s.atIndent || column < s.column || (column == s.column && !s.afterBlank) then s.endLine
    else s
  if s.column < column then
    { s.put (List.replicate (column - s.column) ' ') with afterBlank := true }
  else s

/-- Writes a space unless there is a blank. -/
def space (s : Sheet) : Sheet :=
  if s.afterBlank then s else s.put [' ']

/-- Says that text has been written on the line. -/
def inText (s : Sheet) : Sheet :=
  { s with afterBlank := false, atIndent := false }

/-- Writes the sign of an item or a key after a space. -/
def sign (c : Char) (s : Sheet) : Sheet :=
  { s.space.put [c] with afterBlank := false }

/-- The text of the sheet. -/
def text (s : Sheet) : List Char :=
  s.reversed.reverse

end Sheet

/-- How a text is written. -/
inductive Style where
  | plain
  | single
  | double
  deriving DecidableEq, Repr

namespace Style

/-- The code point of a blank or the end of the text. -/
def isGapPoint : Option Nat → Bool
  | none => true
  | some n => isGap (Text.charOf n)

/-- Code points that end a line. -/
def isBreakPoint (n : Nat) : Bool :=
  n == 0x0A || n == 0x85 || n == 0x2028 || n == 0x2029

/-- Code points that need an escape. -/
def isSpecial (n : Nat) : Bool :=
  n != 0x0A && !(0x20 ≤ n && n ≤ 0x7E)

/-- Code points that stand for themselves in plain text wherever they are. -/
def isSign (signs : List Char) (n : Nat) : Bool :=
  signs.any fun c => c.toNat == n

/-- A sign of YAML at the front of a text. -/
def startsWithSign : List Nat → Bool
  | [] => false
  | n :: r =>
    [45, 45, 45].isPrefixOf (n :: r) || [46, 46, 46].isPrefixOf (n :: r)
      || isSign ['#', ',', '[', ']', '\x7b', '\x7d', '&', '*', '!', '|', '>', '\'', '"', '%', '@',
        '`'] n
      || (isSign ['?', ':', '-'] n && isGapPoint r.head?)

/-- A colon before a blank, or a number sign after one. -/
def holdsSign : List Nat → Bool
  | a :: b :: r =>
    (b == ':'.toNat && isGapPoint r.head?) || (b == '#'.toNat && isGap (Text.charOf a))
      || holdsSign (b :: r)
  | _ => false

/-- A space beside a line end: before one, or after one. -/
def holdsPair (before after : Nat → Bool) : List Nat → Bool
  | a :: b :: r => (before a && after b) || holdsPair before after (b :: r)
  | _ => false

/-- The code point of a space. -/
def isSpacePoint (n : Nat) : Bool :=
  n == 0x20

/-- A text can be written plain. -/
def allowsPlain (points : List Nat) : Bool :=
  let ends := points.head?.toList ++ points.getLast?.toList
  !points.isEmpty && !startsWithSign points && !holdsSign points
    && !ends.any isSpacePoint && !points.any isBreakPoint && !points.any isSpecial
    && Tag.ofPlain (points.map Text.charOf) == .text

/-- A text can be written in single quotes. -/
def allowsSingle (asKey : Bool) (points : List Nat) : Bool :=
  !points.any isSpecial && !holdsPair isSpacePoint isBreakPoint points
    && !holdsPair isBreakPoint isSpacePoint points && !(asKey && points.any isBreakPoint)

/-- The style of a text. -/
def ofText (asKey : Bool) (points : List Nat) : Style :=
  if allowsPlain points then .plain
  else if allowsSingle asKey points then .single
  else .double

end Style

/-- What a text is written from: where its further lines start, and whether it may have any. -/
structure Folding where
  indent : Nat
  folds : Bool

/-- Writes the end of a plain text: `run` is what has been read and not written, and `inSpaces` says
whether it is spaces. -/
def putPlainRun (f : Folding) (inSpaces : Bool) : List Char → List Char → Sheet → Sheet
  | run, [], s => s.put run.reverse
  | run, c :: r, s =>
    if inSpaces && c != ' ' then
      if run.length == 1 && Sheet.maxWidth < s.column && f.folds then
        putPlainRun f false [c] r (s.indentTo f.indent).inText
      else putPlainRun f false [c] r (s.put run.reverse)
    else if !inSpaces && c == ' ' then putPlainRun f true [c] r (s.put run.reverse)
    else putPlainRun f inSpaces (c :: run) r s

/-- Writes a plain text. -/
def putPlain (f : Folding) (cs : List Char) (s : Sheet) : Sheet :=
  putPlainRun f false [] cs s.space.inText

/-- The parts of a text in single quotes. -/
inductive RunKind where
  | words
  | spaces
  | breaks
  deriving DecidableEq, Repr

/-- The kind of run that a character belongs to. -/
def RunKind.ofChar (c : Char) : RunKind :=
  if c = ' ' then .spaces else if isBreak c then .breaks else .words

/-- Writes a run of a text in single quotes, in front of `next` if there is more. -/
def putRun (f : Folding) (atStart : Bool) (kind : RunKind) (run : List Char) (next : Option Char)
    (s : Sheet) : Sheet :=
  match kind with
  | .words => s.put run
  | .spaces =>
    if run.length == 1 && Sheet.maxWidth < s.column && f.folds && !atStart && next.isSome then
      s.indentTo f.indent
    else s.put run
  | .breaks =>
    let s := if run.head? = some '\n' then s.endLine else s
    (run.foldl (fun s _ => s.endLine) s).indentTo f.indent

/-- Writes the rest of a text in single quotes. -/
def putSingleRun (f : Folding) (atStart : Bool) (kind : RunKind) :
    List Char → List Char → Sheet → Sheet
  | run, [], s => putRun f atStart kind run.reverse none s
  | run, c :: r, s =>
    if c = '\'' then
      let s := (putRun f atStart kind run.reverse (some c) s).put ['\'', '\'']
      putSingleRun f false .words [] r s
    else if RunKind.ofChar c = kind then putSingleRun f atStart kind (c :: run) r s
    else
      putSingleRun f (atStart && run.isEmpty) (RunKind.ofChar c) [c] r
        (if run.isEmpty then s else putRun f atStart kind run.reverse (some c) s)

/-- Writes a text in single quotes. -/
def putSingle (f : Folding) (cs : List Char) (s : Sheet) : Sheet :=
  ((putSingleRun f true .words [] cs (s.space.put ['\'']).inText).put ['\'']).inText

/-- A hexadecimal number in capitals. -/
def hexCapitals (width n : Nat) : List Char :=
  (Text.hexDigits width n).map Char.toUpper

/-- The escape of a code point. -/
def escapeOf (n : Nat) : List Char :=
  match [(0x00, '0'), (0x07, 'a'), (0x08, 'b'), (0x09, 't'), (0x0A, 'n'), (0x0B, 'v'), (0x0C, 'f'),
    (0x0D, 'r'), (0x1B, 'e'), (0x22, '"'), (0x5C, '\\'), (0x85, 'N'), (0xA0, '_'), (0x2028, 'L'),
    (0x2029, 'P')].lookup n with
  | some c => ['\\', c]
  | none =>
    if n ≤ 0xFF then '\\' :: 'x' :: hexCapitals 2 n
    else if n ≤ 0xFFFF then '\\' :: 'u' :: hexCapitals 4 n
    else '\\' :: 'U' :: hexCapitals 8 n

/-- A code point stands for itself in double quotes. -/
def isOpenInDouble (n : Nat) : Bool :=
  0x20 ≤ n && n ≤ 0x7E && n != '"'.toNat && n != '\\'.toNat

/-- Ends a line inside double quotes with a backslash, and shields the space that follows. -/
def foldDouble (f : Folding) (next : Option Nat) (s : Sheet) : Sheet :=
  let s := ((s.put ['\\']).indentTo f.indent).inText
  if next = some ' '.toNat then s.put ['\\'] else s

/-- Writes the rest of a text in double quotes: `run` is what has been read and not written. -/
def putDoubleRun (f : Folding) (atStart : Bool) : List Char → List Nat → Sheet → Sheet
  | run, [], s => s.put run.reverse
  | run, n :: r, s =>
    let mayFold := f.folds && !atStart && !r.isEmpty
    if !isOpenInDouble n then
      let s := (s.put run.reverse).put (escapeOf n)
      let s := if mayFold && Sheet.maxWidth + 1 < s.column then foldDouble f r.head? s else s
      putDoubleRun f false [] r s
    else if mayFold && (n == ' '.toNat || run.isEmpty)
        && Sheet.maxWidth < s.column + run.length then
      putDoubleRun f false [Text.charOf n] r (foldDouble f (some n) (s.put run.reverse))
    else putDoubleRun f false (Text.charOf n :: run) r s

/-- Writes a text in double quotes. -/
def putDouble (f : Folding) (points : List Nat) (s : Sheet) : Sheet :=
  ((putDoubleRun f true [] points (s.space.put ['"']).inText).put ['"']).inText

/-- Writes a text. -/
def putText (asKey : Bool) (f : Folding) (points : List Nat) (s : Sheet) : Sheet :=
  match Style.ofText asKey points with
  | .plain => putPlain f (points.map Text.charOf) s
  | .single => putSingle f (points.map Text.charOf) s
  | .double => putDouble f points s

/-- The most characters of a key that needs no sign. -/
def maxKeyLength : Nat := 122

/-- A key needs no sign. -/
def isSimpleKey (points : List Nat) : Bool :=
  !points.isEmpty && points.length ≤ maxKeyLength && !points.any Style.isBreakPoint

/-- The column of what is inside a block. -/
def inner : Option Nat → Nat
  | none => 0
  | some i => i + 2

/-- The folding of a scalar inside a block. -/
def foldingIn (indent : Option Nat) : Folding :=
  ⟨indent.getD 0 + 2, true⟩

/-- The code points of a text, surrogate pairs joined. -/
def pointsOf (s : String) : List Nat :=
  Text.joinPairs (Text.toPoints s)

/-- Writes a key, with a sign if it needs one, and the colon after it. -/
def putKey (indent : Nat) (key : Datum) (s : Sheet) : Sheet :=
  let points := pointsOf key.keyText
  let s := s.indentTo indent
  if isSimpleKey points then
    ((putText true ⟨indent + 2, false⟩ points s).put [':']).inText
  else
    ((putText false ⟨indent + 2, true⟩ points (s.sign '?')).indentTo indent).sign ':'

/-- Writes the sign of an item at a column. -/
def putHyphen (column : Nat) (s : Sheet) : Sheet :=
  (s.indentTo column).sign '-'

/-- Writes a word that is no text. -/
def putWord (word : List Char) (s : Sheet) : Sheet :=
  (s.space.put word).inText

mutual

/-- Writes a value into a block at a column, `asValue` if it is the value of a key. -/
def putValue (indent : Option Nat) (asValue : Bool) : Datum → Sheet → Sheet
  | .null, s | .caller, s => putWord "null".toList s
  | .bool b, s => putWord (if b then "true".toList else "false".toList) s
  | .int n, s => putWord (Decimal.intText n) s
  | .real x, s => putWord (x.render .yaml) s
  | .text t, s => putText false (foldingIn indent) (pointsOf t) s
  | .list [], s | .tuple [], s => putWord ['[', ']'] s
  | .list (x :: xs), s | .tuple (x :: xs), s =>
    let column := if asValue && !s.atIndent then indent.getD 0 else inner indent
    putItems column xs (putValue (some column) false x (putHyphen column s))
  | .map [], s => putWord ['\x7b', '\x7d'] s
  | .map ((k, v) :: es), s =>
    putEntries (inner indent) es (putValue (some (inner indent)) true v (putKey (inner indent) k s))
  | d, s => putText false (foldingIn indent) (pointsOf (String.ofList d.inspect)) s

/-- Writes further items. -/
def putItems (column : Nat) : List Datum → Sheet → Sheet
  | [], s => s
  | x :: xs, s => putItems column xs (putValue (some column) false x (putHyphen column s))

/-- Writes further entries. -/
def putEntries (column : Nat) : List (Datum × Datum) → Sheet → Sheet
  | [], s => s
  | (k, v) :: es, s => putEntries column es (putValue (some column) true v (putKey column k s))

end

/-- The document of a value. -/
def write (d : Datum) : List Char :=
  ((putValue none false d {}).indentTo 0).text

end DocTags.Yaml
