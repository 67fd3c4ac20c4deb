import DocTags.Symbol
import DocTags.Tag.Table
import DocTags.World.Disk

/-!
# Inline annotations

A comment that ends a source line can hold a tag. Between the first and the last line of a symbol
the last such tag of every name counts.
-/

namespace DocTags

/-- A tag in a comment of a source line. Lines are counted from one. -/
structure InlineTag where
  line : Nat
  value : String
  deriving DecidableEq, Repr

namespace InlineTag

open Text

/-- The annotation of a line, with its name. -/
def ofLine? (line : Nat) (text : String) : Option (String × InlineTag) :=
  (Dialect.inlinePattern.search? text.toList).map fun m =>
    (TagTable.lowerName (m.groupD .name), ⟨line, String.ofList (m.groupD .value)⟩)

/-- The annotations of the lines from `start` to `stop`. -/
def ofLines (start stop : Int) (lines : List String) : Table String InlineTag :=
  (((lines.zipIdx 1).filter fun l => start ≤ l.2 ∧ l.2 ≤ stop).filterMap
    fun l => ofLine? l.2 l.1).foldl (fun t e => t.insert e.1 e.2) []

/-- The lines of a text without the line feed at its end. -/
def linesOf (s : List Char) : List (List Char) :=
  splitAt '\n' (if s.getLast? = some '\n' then s.dropLast else s)

/-- The source lines of a symbol: those that came with it, else those of its file. -/
def sourceLines (disk : Disk) (s : Symbol) : Except Fault (List String) :=
  match s.sourceLines with
  | some lines => .ok lines
  | none => (disk.readText s.filePath).map fun text => (linesOf text).map String.ofList

/-- The annotations in the lines of a symbol. -/
def ofSymbol (disk : Disk) (s : Symbol) : Except Fault (Table String InlineTag) :=
  (sourceLines disk s).map (ofLines s.startLine s.endLine)

/-- An annotation as a mapping. -/
def toDatum (a : InlineTag) : Datum :=
  .record [("line", .ofNat a.line), ("value", .text a.value)]

end InlineTag

end DocTags
