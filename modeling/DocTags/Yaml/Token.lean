import DocTags.Report.Problem
import DocTags.Text.Surrogate
import DocTags.Text.Utf8
import DocTags.Yaml.Cursor

/-!
# YAML tokens

The tokens of a YAML text, and how the tokens that carry text are read. A scalar is plain, quoted or
a block; lines of a plain or quoted scalar are folded, which writes one line end as a space and
leaves one out of several.
-/

namespace DocTags.Yaml

/-- Why a text gives no value. -/
inductive Fault where
  /-- The text is no YAML document. -/
  | malformed
  /-- A scalar or an escape has no value. -/
  | unfit (fault : DocTags.Fault)
  deriving DecidableEq, Repr

/-- The name of a tag: a handle that stands for its beginning, and the rest. -/
structure TagName where
  handle : Option String
  suffix : String
  deriving DecidableEq, Repr

/-- The tokens of a YAML text. -/
inductive Token where
  /-- The version of YAML that the document is written in. -/
  | version (major : Nat)
  /-- What a tag's handle stands for. -/
  | shorthand (handle content : String)
  /-- A directive without a meaning. -/
  | directive
  | documentStart
  | documentEnd
  | blockSequence
  | blockMapping
  | blockEnd
  | flowSequence
  | flowSequenceEnd
  | flowMapping
  | flowMappingEnd
  /-- The hyphen before an item. -/
  | item
  | comma
  | key
  | value
  | reference (anchor : String)
  | anchor (name : String)
  | tag (name : TagName)
  | scalar (plain : Bool) (text : List Char)
  /-- The text cannot be read on. -/
  | broken (fault : Fault)
  deriving DecidableEq, Repr

namespace Token

/-- What a line end and the empty lines after it become in a folded scalar. -/
def fold (first breaks : List Char) : List Char :=
  if first ≠ ['\n'] then first ++ breaks
  else if breaks.isEmpty then [' ']
  else breaks

/-- A colon before these ends a plain scalar. -/
def endsAfterColon (inFlow : Bool) (c : Char) : Bool :=
  isGap c || (inFlow && [',', '[', ']', '\x7b', '\x7d'].contains c)

/-- The stretch of a plain scalar up to the next blank or sign. -/
def plainStretch (inFlow : Bool) : List Char → List Char
  | [] => []
  | a :: s =>
    if isGap a || (inFlow && [',', '?', '[', ']', '\x7b', '\x7d'].contains a)
        || (a == ':' && endsAfterColon inFlow (s.headD '\x00')) then []
    else a :: plainStretch inFlow s

/-- The line ends of empty lines, with the spaces around them skipped; none where the lines run into
a separator of documents. -/
def emptyLines : Nat → Cursor → List Char → Option (List Char) × Cursor
  | 0, c, breaks => (some breaks, c)
  | n + 1, c, breaks =>
    if c.peek = ' ' then emptyLines n c.next breaks
    else if isBreak c.peek then
      let (b, c) := c.lineBreak
      if c.atSeparator then (none, c) else emptyLines n c (breaks ++ b)
    else (some breaks, c)

/-- What stands between two stretches of a plain scalar. -/
structure PlainGap where
  /-- What the gap becomes in the scalar; empty where the scalar ends. -/
  text : List Char
  /-- The gap goes over a line end. -/
  broke : Bool
  cursor : Cursor

/-- Reads the gap after a stretch of a plain scalar. -/
def plainGap (c : Cursor) : PlainGap :=
  let (blanks, c) := c.span (· == ' ')
  if !isBreak c.peek then ⟨blanks, false, c⟩
  else
    let (first, c) := c.lineBreak
    if c.atSeparator then ⟨[], true, c⟩
    else
      match emptyLines c.rest.length c [] with
      | (none, c) => ⟨[], true, c⟩
      | (some breaks, c) => ⟨fold first breaks, true, c⟩

/-- Reads a plain scalar: `text` is what has been read and `gap` what stands before the next
stretch. Outside flow collections its lines start at the column `indent` at least. -/
def plainFrom (inFlow : Bool) (indent : Int) : Nat → List Char → PlainGap → List Char × PlainGap
  | 0, text, gap => (text, gap)
  | n + 1, text, gap =>
    let stretch := plainStretch inFlow gap.cursor.rest
    if gap.cursor.peek = '#' ∨ stretch.isEmpty then (text, gap)
    else
      let next := plainGap (gap.cursor.skip stretch.length)
      let text := text ++ gap.text ++ stretch
      if next.text.isEmpty || (!inFlow && next.cursor.column < indent) then (text, next)
      else plainFrom inFlow indent n text next

/-- Reads a plain scalar. -/
def plain (inFlow : Bool) (indent : Int) (c : Cursor) : List Char × PlainGap :=
  plainFrom inFlow indent (c.rest.length + 1) [] ⟨[], false, c⟩

/-- What an escaped character stands for. -/
def escaped? : Char → Option Char
  | '0' => some '\x00'
  | 'a' => some '\x07'
  | 'b' => some '\x08'
  | 't' | '\t' => some '\t'
  | 'n' => some '\n'
  | 'v' => some '\x0b'
  | 'f' => some '\x0c'
  | 'r' => some '\r'
  | 'e' => some '\x1b'
  | ' ' => some ' '
  | '"' => some '"'
  | '\\' => some '\\'
  | '/' => some '/'
  | 'N' => some '\x85'
  | '_' => some '\xa0'
  | 'L' => some '\u2028'
  | 'P' => some '\u2029'
  | _ => none

/-- How many digits follow a character that announces a code point. -/
def codeWidth? : Char → Option Nat
  | 'x' => some 2
  | 'u' => some 4
  | 'U' => some 8
  | _ => none

/-- The value of a hexadecimal digit. -/
def hexValue? (c : Char) : Option Nat :=
  if c.isDigit then some (c.toNat - 48)
  else if 'a' ≤ c ∧ c ≤ 'f' then some (c.toNat - 87)
  else if 'A' ≤ c ∧ c ≤ 'F' then some (c.toNat - 55)
  else none

/-- The number that hexadecimal digits stand for. -/
def hexNumber? (ds : List Char) : Option Nat :=
  ds.foldl (fun n d => do return 16 * (← n) + (← hexValue? d)) (some 0)

/-- The characters that hold a code point. Numbers that are no code points have none; those of more
than 31 bits are not even tried. -/
def charsOfPoint (n : Nat) : Except Fault (List Char) :=
  if n < 0x110000 then .ok (Text.charsOf n)
  else .error (.unfit (if n < Nat.pow 2 31 then .notANumber else .infiniteNumber))

/-- The characters whose code point is written with `width` digits at the cursor. -/
def codePoint (width : Nat) (c : Cursor) : Except Fault (List Char × Cursor) :=
  let digits := c.rest.take width
  if digits.length < width then .error .malformed
  else
    match hexNumber? digits with
    | none => .error .malformed
    | some n => (charsOfPoint n).map fun text => (text, c.skip width)

/-- The line ends of empty lines inside quotes, with the blanks around them skipped. -/
def quotedBreaks : Nat → Cursor → List Char → Except Fault (List Char × Cursor)
  | 0, c, breaks => .ok (breaks, c)
  | n + 1, c, breaks =>
    if c.atSeparator then .error .malformed
    else
      let c := c.dropWhile fun a => a == ' ' || a == '\t'
      if isBreak c.peek then
        let (b, c) := c.lineBreak
        quotedBreaks n c (breaks ++ b)
      else .ok (breaks, c)

/-- The blanks and line ends at the cursor inside quotes. -/
def quotedGap (c : Cursor) : Except Fault (List Char × Cursor) := do
  let (blanks, c) := c.span fun a => a == ' ' || a == '\t'
  if c.rest.isEmpty then .error .malformed
  else if isBreak c.peek then
    let (first, c) := c.lineBreak
    let (breaks, c) ← quotedBreaks (c.rest.length + 1) c []
    return (fold first breaks, c)
  else return (blanks, c)

/-- What the backslash before the cursor escapes. -/
def escape (c : Cursor) : Except Fault (List Char × Cursor) :=
  match escaped? c.peek, codeWidth? c.peek with
  | some a, _ => .ok ([a], c.next)
  | none, some width => codePoint width c.next
  | none, none =>
    if isBreak c.peek then quotedBreaks c.rest.length c.lineBreak.2 []
    else .error .malformed

/-- A character of a quoted scalar that stands for itself. -/
def isQuotedChar (c : Char) : Bool :=
  !isGap c && c != '\'' && c != '"' && c != '\\'

/-- Reads a quoted scalar after its opening quote. -/
def quotedFrom (double : Bool) : Nat → Cursor → List Char → Except Fault (List Char × Cursor)
  | 0, _, _ => .error .malformed
  | n + 1, c, done =>
    let (stretch, c) := c.span isQuotedChar
    let done := done ++ stretch
    match c.rest with
    | [] => .error .malformed
    | '\'' :: r =>
      if double then quotedFrom double n c.next (done ++ ['\''])
      else if r.head? = some '\'' then quotedFrom double n (c.skip 2) (done ++ ['\''])
      else .ok (done, c.next)
    | '"' :: _ =>
      if double then .ok (done, c.next) else quotedFrom double n c.next (done ++ ['"'])
    | '\\' :: _ =>
      if double then
        match escape c.next with
        | .error e => .error e
        | .ok (text, c) => quotedFrom double n c (done ++ text)
      else quotedFrom double n c.next (done ++ ['\\'])
    | _ =>
      match quotedGap c with
      | .error e => .error e
      | .ok (gap, c) => quotedFrom double n c (done ++ gap)

/-- Reads a quoted scalar. -/
def quoted (double : Bool) (c : Cursor) : Except Fault (List Char × Cursor) :=
  quotedFrom double (c.rest.length + 1) c.next []

/-- What happens to the line ends at the end of a block scalar. -/
inductive Chomping where
  | strip
  | clip
  | keep
  deriving DecidableEq, Repr

/-- The chomping that a sign asks for. -/
def chomping? : Char → Option Chomping
  | '+' => some .keep
  | '-' => some .strip
  | _ => none

/-- The indentation that a digit asks for. -/
def indentDigit? (c : Char) : Option Nat :=
  if c.isDigit then some (c.toNat - 48) else none

/-- Reads the signs after the start of a block scalar: chomping and indentation in any order. -/
def blockHeader (c : Cursor) : Except Fault (Chomping × Option Nat × Cursor) := do
  let (chomping, digit, c) :=
    match chomping? c.peek, indentDigit? c.peek with
    | some ch, _ =>
      match indentDigit? c.next.peek with
      | some d => (ch, some d, c.skip 2)
      | none => (ch, none, c.next)
    | none, some d =>
      match chomping? c.next.peek with
      | some ch => (ch, some d, c.skip 2)
      | none => (.clip, some d, c.next)
    | none, none => (.clip, none, c)
  if digit = some 0 then .error .malformed
  else if isBreakOrEnd c.peek || c.peek == ' ' then return (chomping, digit, c)
  else .error .malformed

/-- Skips spaces and a comment up to the end of the line. -/
def restOfLine (c : Cursor) : Except Fault Cursor :=
  let c := c.dropWhile (· == ' ')
  let c := if c.peek = '#' then c.dropWhile fun a => !isBreak a else c
  if isBreakOrEnd c.peek then .ok c.lineBreak.2 else .error .malformed

/-- The line ends of the empty lines at the start of a block scalar, and its widest line of spaces
so far. -/
def blockStart : Nat → Cursor → List Char → Nat → List Char × Nat × Cursor
  | 0, c, breaks, width => (breaks, width, c)
  | n + 1, c, breaks, width =>
    if c.peek = ' ' then blockStart n c.next breaks (max width c.next.column)
    else if isBreak c.peek then
      let (b, c) := c.lineBreak
      blockStart n c (breaks ++ b) width
    else (breaks, width, c)

/-- Skips spaces up to a column. -/
def skipIndent (indent : Nat) : Nat → Cursor → Cursor
  | 0, c => c
  | n + 1, c => if c.column < indent ∧ c.peek = ' ' then skipIndent indent n c.next else c

/-- The line ends of empty lines inside a block scalar. -/
def blockBreaks (indent : Nat) : Nat → Cursor → List Char → List Char × Cursor
  | 0, c, breaks => (breaks, c)
  | n + 1, c, breaks =>
    let c := skipIndent indent c.rest.length c
    if isBreak c.peek then
      let (b, c) := c.lineBreak
      blockBreaks indent n c (breaks ++ b)
    else (breaks, c)

/-- Reads the lines of a block scalar: `breaks` are the line ends before the next line and `last` is
the one that ended the line before. Gives what has been read, the last line end and those after it.
-/
def blockLines (folded : Bool) (indent : Nat) :
    Nat → Cursor → List Char → List Char → List Char → (List Char × List Char × List Char) × Cursor
  | 0, c, text, last, breaks => ((text, last, breaks), c)
  | n + 1, c, text, last, breaks =>
    if c.column ≠ indent ∨ c.rest.isEmpty then ((text, last, breaks), c)
    else
      let leading := c.peek == ' ' || c.peek == '\t'
      let (line, c) := c.span fun a => !isBreak a
      let text := text ++ breaks ++ line
      let (last, c) := c.lineBreak
      let (breaks, c) := blockBreaks indent (c.rest.length + 1) c []
      if c.column ≠ indent ∨ c.rest.isEmpty then ((text, last, breaks), c)
      else
        let joined :=
          if folded && last == ['\n'] && !leading && c.peek != ' ' && c.peek != '\t' then
            if breaks.isEmpty then [' '] else []
          else last
        blockLines folded indent n c (text ++ joined) last breaks

/-- Reads a block scalar inside a block at the column `parent`. -/
def block (folded : Bool) (parent : Int) (c : Cursor) : Except Fault (List Char × Cursor) := do
  let (chomping, digit, c) ← blockHeader c.next
  let c ← restOfLine c
  let least := max 1 (parent + 1).toNat
  let (indent, breaks, c) :=
    match digit with
    | some d =>
      let indent := least + d - 1
      let (breaks, c) := blockBreaks indent (c.rest.length + 1) c []
      (indent, breaks, c)
    | none =>
      let (breaks, width, c) := blockStart (c.rest.length + 1) c [] 0
      (max least width, breaks, c)
  let ((text, last, breaks), c) := blockLines folded indent (c.rest.length + 1) c [] [] breaks
  return (text ++ (if chomping = .strip then [] else last)
    ++ (if chomping = .keep then breaks else []), c)

/-- Reads the name of an anchor after its sign. -/
def anchorName (c : Cursor) : Except Fault (String × Cursor) :=
  let (name, c) := c.next.span isNameChar
  if name.isEmpty then .error .malformed
  else if isGap c.peek || ['?', ':', ',', ']', '\x7d', '%', '@', '`'].contains c.peek then
    .ok (String.ofList name, c)
  else .error .malformed

/-- A character that a tag is written with. -/
def isTagChar (c : Char) : Bool :=
  isNameChar c || [';', '/', '?', ':', '@', '&', '=', '+', '$', ',', '.', '!', '~', '*', '\'',
    '(', ')', '[', ']', '%'].contains c

/-- The bytes written with percent signs at the front of a text, and the rest. -/
def percentBytes : List Char → Option (List UInt8 × List Char)
  | '%' :: a :: b :: s => do
    let (bytes, rest) ← percentBytes s
    return (UInt8.ofNat (16 * (← hexValue? a) + (← hexValue? b)) :: bytes, rest)
  | '%' :: _ => none
  | s => some ([], s)

/-- The text of a tag with its percent signs read: those in a row are the bytes of characters. -/
def unescapeTag : Nat → List Char → Option (List Char)
  | 0, _ => some []
  | _, [] => some []
  | n + 1, '%' :: s => do
    let (bytes, rest) ← percentBytes ('%' :: s)
    return (← (Utf8.decode bytes).toOption) ++ (← unescapeTag n rest)
  | n + 1, c :: s => (unescapeTag n s).map (c :: ·)

/-- Reads the text of a tag. -/
def tagText (c : Cursor) : Except Fault (String × Cursor) :=
  let (text, c) := c.span isTagChar
  match unescapeTag text.length text with
  | some name => if text.isEmpty then .error .malformed else .ok (String.ofList name, c)
  | none => .error .malformed

/-- Reads the handle of a tag. -/
def tagHandle (c : Cursor) : Except Fault (String × Cursor) :=
  if c.peek ≠ '!' then .error .malformed
  else if c.next.peek = ' ' then .ok ("!", c.next)
  else
    let (name, after) := c.next.span isNameChar
    if after.peek = '!' then .ok (String.ofList ('!' :: name ++ ['!']), after.next)
    else .error .malformed

/-- Reads a tag. -/
def tagName (c : Cursor) : Except Fault (TagName × Cursor) := do
  let (name, c) ←
    if c.peekAt 1 = '<' then do
      let (suffix, c) ← tagText (c.skip 2)
      if c.peek = '>' then pure (TagName.mk none suffix, c.next) else .error .malformed
    else if isGap (c.peekAt 1) then pure (TagName.mk none "!", c.next)
    else do
      let word := c.next.rest.takeWhile fun a => !isBreak a && a != ' '
      let (handle, c) ← if word.contains '!' then tagHandle c else pure ("!", c.next)
      let (suffix, c) ← tagText c
      pure (TagName.mk (some handle) suffix, c)
  if isBreakOrEnd c.peek || c.peek == ' ' then return (name, c) else .error .malformed

/-- Reads digits. -/
def number (c : Cursor) : Except Fault (Nat × Cursor) :=
  let (digits, c) := c.span Char.isDigit
  if digits.isEmpty then .error .malformed
  else
    match Decimal.readDigits (digits.map fun d => d.toNat - 48) with
    | .ok n => .ok (n, c)
    | .error _ => .error (.unfit .notANumber)

/-- Reads a directive. -/
def readDirective (c : Cursor) : Except Fault (Token × Cursor) := do
  let (name, c) := c.next.span isNameChar
  if name.isEmpty || !(isBreakOrEnd c.peek || c.peek == ' ') then .error .malformed
  else if name = ['Y', 'A', 'M', 'L'] then
    let (major, c) ← number (c.dropWhile (· == ' '))
    if c.peek ≠ '.' then .error .malformed
    else
      let (_, c) ← number c.next
      if isBreakOrEnd c.peek || c.peek == ' ' then return (.version major, ← restOfLine c)
      else .error .malformed
  else if name = ['T', 'A', 'G'] then
    let (handle, c) ← tagHandle (c.dropWhile (· == ' '))
    if c.peek ≠ ' ' then .error .malformed
    else
      let (content, c) ← tagText (c.dropWhile (· == ' '))
      if isBreakOrEnd c.peek || c.peek == ' ' then
        return (.shorthand handle content, ← restOfLine c)
      else .error .malformed
  else return (.directive, ← restOfLine (c.dropWhile fun a => !isBreak a))

end Token

end DocTags.Yaml
