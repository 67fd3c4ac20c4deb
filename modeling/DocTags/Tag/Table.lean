import DocTags.Symbol
import DocTags.Tag.Dialect
import DocTags.Text.Table
import DocTags.World.Resolver

/-!
# Tag tables

The general tags of a comment by name, in lower case. A type has the tags of its traits in front of
its own. A value that names a constant stands for the constant's value.
-/

namespace DocTags

/-- The values of every tag name, in order of appearance. -/
abbrev TagTable := Table String (List String)

namespace TagTable

/-- A tag name in lower case. -/
def lowerName (name : List Char) : String :=
  String.ofList (name.map Char.toLower)

/-- Adds values at the end of those of a name. -/
def append (t : TagTable) (name : String) (values : List String) : TagTable :=
  t.alter name fun old => old.getD [] ++ values

/-- The general tags of a text. -/
def ofText (s : List Char) : TagTable :=
  (Dialect.genericPattern.findAll s).foldl
    (fun t m => t.append (lowerName (m.groupD .name)) [String.ofList (m.groupD .value)]) []

/-- The general tags of a comment. -/
def ofComment (comment : String) : TagTable :=
  ofText (Text.stripDelimiters comment.toList)

/-- Two tables, the values of the second after those of the first. -/
def merge (t u : TagTable) : TagTable :=
  u.foldl (fun t e => t.append e.1 e.2) t

/-- The comments that a symbol's tags come from. -/
def sources (s : Symbol) : List String :=
  (if s.isTypeLevel then s.traitComments else []) ++ [s.docComment]

/-- The general tags of a symbol. -/
def ofSymbol (s : Symbol) : TagTable :=
  ((sources s).map ofComment).foldl merge []

/-- The value of the constant that a text names with two colons, if it has one; else the text. -/
def resolveContent (value : String) (constants : Option ConstantLookup) : Except Failure Datum :=
  match constants with
  | none => .ok (.text value)
  | some lookup =>
    if Text.countColonPairs value.toList ≠ 1 then .ok (.text value)
    else do
      let d ← lookup value
      return if d.isNull then .text value else d

end TagTable

end DocTags
