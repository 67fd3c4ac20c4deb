import DocTags.Yaml.Token

/-!
# The layout of a YAML text

Blocks are opened and closed by indentation. A key without a sign of its own is known only by the
colon after it, so every token that a key may start with is remembered as a candidate; if the colon
follows on the same line, the place of the candidate is marked. The tokens themselves only grow, and
the marks are put between them at the end.
-/

namespace DocTags.Yaml

/-- A place that a key may start at. -/
structure Candidate where
  /-- How many tokens stand before it. -/
  position : Nat
  /-- The block at this place holds nothing but keys. -/
  required : Bool
  index : Nat
  line : Nat
  column : Nat

/-- A place that a key starts at. -/
structure KeyMark where
  position : Nat
  /-- The key is the first of its mapping. -/
  opens : Bool

/-- What has been read of a text. -/
structure Layout where
  cursor : Cursor
  /-- How many flow collections are open. -/
  flow : Nat := 0
  /-- The column of the innermost block. -/
  indent : Int := -1
  /-- The columns of the blocks around it. -/
  outer : List Int := []
  /-- A key may start at the next token. -/
  keyAllowed : Bool := true
  /-- The candidates of the open flow collections, by how many of them are open. -/
  candidates : List (Nat × Candidate) := []
  /-- The tokens so far, the latest first. -/
  tokens : List Token := []
  count : Nat := 0
  marks : List KeyMark := []

namespace Layout

/-- The most characters of a key without a sign. -/
def maxKeyLength : Nat := 1024

/-- Adds a token. -/
def push (t : Token) (l : Layout) : Layout :=
  { l with tokens := t :: l.tokens, count := l.count + 1 }

/-- Adds a token and moves on. -/
def take (t : Token) (length : Nat) (l : Layout) : Layout :=
  { l.push t with cursor := l.cursor.skip length }

/-- Closes the blocks that start to the right of a column. -/
def closeBlocks (column : Int) (l : Layout) : Layout :=
  if l.flow ≠ 0 then l
  else
    let rec close : List Int → Layout → Layout
      | [], l => l
      | i :: outer, l =>
        if column < l.indent then close outer { l.push .blockEnd with indent := i, outer }
        else l
    close l.outer l

/-- A block at a column is opened, if it is right of the innermost block. -/
def opensBlock (column : Nat) (l : Layout) : Bool :=
  l.indent < column

/-- Opens a block at a column. -/
def openBlock (column : Nat) (l : Layout) : Layout :=
  { l with indent := column, outer := l.indent :: l.outer }

/-- Forgets the candidates that no colon can follow any more. -/
def forgetStale (l : Layout) : Except Fault Layout :=
  let isStale (c : Candidate) : Bool :=
    c.line != l.cursor.line || decide (maxKeyLength < l.cursor.index - c.index)
  if l.candidates.any fun e => isStale e.2 && e.2.required then .error .malformed
  else .ok { l with candidates := l.candidates.filter fun e => !isStale e.2 }

/-- Forgets the candidate of the innermost flow collection. -/
def forgetCandidate (l : Layout) : Except Fault Layout :=
  if l.candidates.any fun e => e.1 == l.flow && e.2.required then .error .malformed
  else .ok { l with candidates := l.candidates.filter fun e => e.1 != l.flow }

/-- Remembers the next token as a candidate. -/
def remember (l : Layout) : Except Fault Layout :=
  if !l.keyAllowed then .ok l
  else do
    let l ← l.forgetCandidate
    let candidate : Candidate :=
      { position := l.count
        required := l.flow == 0 && l.indent == l.cursor.column
        index := l.cursor.index
        line := l.cursor.line
        column := l.cursor.column }
    return { l with candidates := (l.flow, candidate) :: l.candidates }

/-- Skips spaces, comments and line ends up to the next token. -/
def skipToToken : Nat → Layout → Layout
  | 0, l => l
  | n + 1, l =>
    let c := l.cursor.dropWhile (· == ' ')
    let c := if c.peek = '#' then c.dropWhile fun a => !isBreak a else c
    if isBreak c.peek then
      skipToToken n
        { l with cursor := c.lineBreak.2, keyAllowed := l.keyAllowed || l.flow == 0 }
    else { l with cursor := c }

/-- Reads a directive or a separator of documents, which end all blocks. -/
def takeSeparator (l : Layout) : Except Fault Layout := do
  let l ← (l.closeBlocks (-1)).forgetCandidate
  return { l with keyAllowed := false }

/-- Reads the hyphen of an item. -/
def takeItem (l : Layout) : Except Fault Layout := do
  let column := l.cursor.column
  let l ←
    if l.flow ≠ 0 then pure l
    else if !l.keyAllowed then .error .malformed
    else if l.opensBlock column then pure ((l.openBlock column).push .blockSequence)
    else pure l
  let l ← { l with keyAllowed := true }.forgetCandidate
  return l.take .item 1

/-- Reads the sign of a key. -/
def takeKey (l : Layout) : Except Fault Layout := do
  let column := l.cursor.column
  let l ←
    if l.flow ≠ 0 then pure l
    else if !l.keyAllowed then .error .malformed
    else if l.opensBlock column then pure ((l.openBlock column).push .blockMapping)
    else pure l
  let l ← { l with keyAllowed := l.flow == 0 }.forgetCandidate
  return l.take .key 1

/-- Reads the colon before a value. If there is a candidate it is the key. -/
def takeValue (l : Layout) : Except Fault Layout := do
  match l.candidates.find? fun e => e.1 == l.flow with
  | some (_, c) =>
    let opens := l.flow == 0 && l.opensBlock c.column
    let l := { l with candidates := l.candidates.filter fun e => e.1 != l.flow }
    let l := { l with marks := ⟨c.position, opens⟩ :: l.marks, keyAllowed := false }
    let l := if opens then l.openBlock c.column else l
    return l.take .value 1
  | none =>
    let column := l.cursor.column
    let l ←
      if l.flow ≠ 0 then pure l
      else if !l.keyAllowed then .error .malformed
      else if l.opensBlock column then pure ((l.openBlock column).push .blockMapping)
      else pure l
    let l ← { l with keyAllowed := l.flow == 0 }.forgetCandidate
    return l.take .value 1

/-- Adds a token that a key may start with, and the place after it. -/
def takeNode (read : Cursor → Except Fault (Token × Cursor)) (l : Layout) :
    Except Fault Layout := do
  let l ← l.remember
  let (t, c) ← read l.cursor
  return { l.push t with cursor := c, keyAllowed := false }

/-- The most collections that may be open inside one another. -/
def maxDepth : Nat := 490

/-- Opens a flow collection. -/
def openFlow (t : Token) (l : Layout) : Except Fault Layout := do
  if maxDepth < l.flow then .error (.unfit .tooDeep)
  else
    let l ← l.remember
    return { l.take t 1 with flow := l.flow + 1, keyAllowed := true }

/-- Closes a flow collection. -/
def closeFlow (t : Token) (l : Layout) : Except Fault Layout := do
  let l ← l.forgetCandidate
  return { l.take t 1 with flow := l.flow - 1, keyAllowed := false }

/-- Reads a block scalar. -/
def takeBlock (folded : Bool) (l : Layout) : Except Fault Layout := do
  let l ← { l with keyAllowed := true }.forgetCandidate
  let (text, c) ← Token.block folded l.indent l.cursor
  return { l.push (.scalar false text) with cursor := c }

/-- Reads a plain scalar. After a line end a key may follow it. -/
def takePlain (l : Layout) : Except Fault Layout := do
  let l ← l.remember
  let (text, gap) := Token.plain (l.flow != 0) (l.indent + 1) l.cursor
  return { l.push (.scalar true text) with
    cursor := gap.cursor, keyAllowed := gap.broke }

/-- A plain scalar can start at the cursor. -/
def startsPlain (l : Layout) : Bool :=
  let a := l.cursor.peek
  let signs := ['-', '?', ':', ',', '[', ']', '\x7b', '\x7d', '#', '&', '*', '!', '|', '>', '\'',
    '"', '%', '@', '`']
  (!isGap a && !signs.contains a)
    || (!isGap (l.cursor.peekAt 1) && (a == '-' || (l.flow == 0 && (a == '?' || a == ':'))))

/-- Reads the token at the cursor. -/
def takeToken (l : Layout) : Except Fault Layout :=
  let c := l.cursor
  let gapFollows := isGap (c.peekAt 1)
  let atStart := c.column == 0
  let inFlow := l.flow != 0
  match c.peek with
  | '%' =>
    if atStart then do
      let l ← l.takeSeparator
      let (t, c) ← Token.readDirective l.cursor
      return { l.push t with cursor := c }
    else .error .malformed
  | '[' => l.openFlow .flowSequence
  | '\x7b' => l.openFlow .flowMapping
  | ']' => l.closeFlow .flowSequenceEnd
  | '\x7d' => l.closeFlow .flowMappingEnd
  | ',' => do
    let l ← { l with keyAllowed := true }.forgetCandidate
    return l.take .comma 1
  | '*' => l.takeNode fun c => (Token.anchorName c).map fun (n, c) => (.reference n, c)
  | '&' => l.takeNode fun c => (Token.anchorName c).map fun (n, c) => (.anchor n, c)
  | '!' => l.takeNode fun c => (Token.tagName c).map fun (n, c) => (.tag n, c)
  | '\'' => l.takeNode fun c => (Token.quoted false c).map fun (text, c) => (.scalar false text, c)
  | '"' => l.takeNode fun c => (Token.quoted true c).map fun (text, c) => (.scalar false text, c)
  | a =>
    if atStart && c.startsWith ['-', '-', '-'] then do
      return (← l.takeSeparator).take .documentStart 3
    else if atStart && c.startsWith ['.', '.', '.'] then do
      return (← l.takeSeparator).take .documentEnd 3
    else if a == '-' && gapFollows then l.takeItem
    else if a == '?' && (inFlow || gapFollows) then l.takeKey
    else if a == ':' && (inFlow || gapFollows) then l.takeValue
    else if a == '|' && !inFlow then l.takeBlock false
    else if a == '>' && !inFlow then l.takeBlock true
    else if l.startsPlain then l.takePlain
    else .error .malformed

/-- Says that the text cannot be read on. Whether a candidate is a key is settled by a colon after
it, so the tokens from the first candidate on are given up. -/
def stop (e : Fault) (l : Layout) : Layout :=
  let known := l.candidates.foldl (fun n c => min n c.2.position) l.count
  { l with tokens := .broken e :: l.tokens.drop (l.count - known), count := known + 1 }

/-- Reads on to the end. A text that cannot be read to its end has a last token that says so. -/
def finish : Nat → Layout → Layout
  | 0, l => l
  | n + 1, l =>
    let l := l.skipToToken (l.cursor.rest.length + 1)
    match l.forgetStale with
    | .error e => l.stop e
    | .ok l =>
      let l := l.closeBlocks l.cursor.column
      if l.cursor.rest.isEmpty then
        match (l.closeBlocks (-1)).forgetCandidate with
        | .error e => l.stop e
        | .ok l => l
      else
        match l.takeToken with
        | .error e => l.stop e
        | .ok l => finish n l

/-- Puts the marked keys between the tokens, of which the first has the given place. -/
def withMarks (marks : List KeyMark) : Nat → List Token → List Token
  | _, [] => []
  | i, t :: ts =>
    let rest := t :: withMarks marks (i + 1) ts
    match marks.find? fun m => m.position == i with
    | some m => if m.opens then .blockMapping :: .key :: rest else .key :: rest
    | none => rest

/-- The layout of a text of which nothing is read. A byte order mark at the start is skipped. -/
def start (s : List Char) : Layout :=
  let cursor : Cursor := ⟨s, 0, 0, 0⟩
  { cursor := if cursor.peek = '\uFEFF' then cursor.next else cursor }

end Layout

/-- The tokens of a text. -/
def Token.ofText (s : List Char) : List Token :=
  let l := (Layout.start s).finish (s.length + 2)
  Layout.withMarks l.marks 0 l.tokens.reverse

end DocTags.Yaml
