/-!
# Places in a YAML text

A cursor is a place in a text together with its line and column. The end of the text reads as a NUL,
which no text holds.
-/

namespace DocTags.Yaml

/-- A character that ends a line. -/
def isBreak (c : Char) : Bool :=
  c == '\n' || c == '\r' || c == '\x85' || c == '\u2028' || c == '\u2029'

/-- A character that ends a line, or the end of the text. -/
def isBreakOrEnd (c : Char) : Bool :=
  isBreak c || c == '\x00'

/-- A character that separates tokens, or the end of the text. -/
def isGap (c : Char) : Bool :=
  isBreakOrEnd c || c == ' ' || c == '\t'

/-- A character that a document may hold. -/
def isAllowed (c : Char) : Bool :=
  let n := c.toNat
  n == 0x09 || n == 0x0A || n == 0x0D || (0x20 ≤ n && n ≤ 0x7E) || n == 0x85
    || (0xA0 ≤ n && n ≤ 0xD7FF) || (0xE000 ≤ n && n ≤ 0xFFFD) || 0x10000 ≤ n

/-- A letter, a digit or a mark that names consist of. -/
def isNameChar (c : Char) : Bool :=
  c.isAlphanum || c == '-' || c == '_'

/-- A place in a text. -/
structure Cursor where
  rest : List Char
  index : Nat := 0
  line : Nat := 0
  column : Nat := 0

namespace Cursor

/-- The character at the cursor. -/
def peek (c : Cursor) : Char :=
  c.rest.headD '\x00'

/-- The character `n` places after the cursor. -/
def peekAt (c : Cursor) (n : Nat) : Char :=
  (c.rest.drop n).headD '\x00'

/-- The place after one character. A byte order mark takes no column. -/
def next (c : Cursor) : Cursor :=
  match c.rest with
  | [] => c
  | a :: s =>
    if isBreak a && !(a == '\r' && s.head? == some '\n') then
      ⟨s, c.index + 1, c.line + 1, 0⟩
    else if a = '\uFEFF' then ⟨s, c.index + 1, c.line, c.column⟩
    else ⟨s, c.index + 1, c.line, c.column + 1⟩

/-- The place after `n` characters. -/
def skip : Nat → Cursor → Cursor
  | 0, c => c
  | n + 1, c => skip n c.next

/-- The longest stretch of characters that satisfy `p`, and the place after it. -/
def span (c : Cursor) (p : Char → Bool) : List Char × Cursor :=
  let taken := c.rest.takeWhile p
  (taken, c.skip taken.length)

/-- The place after the longest stretch of characters that satisfy `p`. -/
def dropWhile (c : Cursor) (p : Char → Bool) : Cursor :=
  (c.span p).2

/-- The line end at the cursor, as a line feed unless it is a separator of its own kind, and the
place after it. -/
def lineBreak (c : Cursor) : List Char × Cursor :=
  match c.rest with
  | '\r' :: '\n' :: _ => (['\n'], c.skip 2)
  | a :: _ =>
    if a = '\u2028' ∨ a = '\u2029' then ([a], c.next)
    else if isBreak a then (['\n'], c.next)
    else ([], c)
  | [] => ([], c)

/-- The characters at the cursor are `mark`, and a gap follows. -/
def startsWith (c : Cursor) (mark : List Char) : Bool :=
  mark.isPrefixOf c.rest && isGap (c.peekAt mark.length)

/-- Three hyphens or points at the cursor separate documents. -/
def atSeparator (c : Cursor) : Bool :=
  c.startsWith ['-', '-', '-'] || c.startsWith ['.', '.', '.']

end Cursor

end DocTags.Yaml
