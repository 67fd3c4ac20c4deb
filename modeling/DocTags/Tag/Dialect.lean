import DocTags.Pattern.Basic
import DocTags.Text.Blank
import DocTags.Text.Digit
import DocTags.Text.Word

/-!
# The tag dialects

Each kind of tag has a line pattern. A line may satisfy several of them; the list `Dialect.all`
gives the order in which they are tried.
-/

namespace DocTags

/-- The kinds of tag that a line can hold. -/
inductive Dialect where
  | version
  | versionConstraint
  | os
  | setting
  | prerequisite
  | dataProvider
  | testWith
  | expectedException
  | generic
  deriving DecidableEq, Repr

/-- The parts that a tag can have. -/
inductive Field where
  | name
  | operator
  | version
  | constraint
  | value
  | setting
  | message
  | code
  deriving DecidableEq, Repr

namespace Field

/-- Every part. -/
def all : List Field :=
  [name, operator, version, constraint, value, setting, message, code]

/-- The word that stands for the part in reports. -/
def key : Field → String
  | name => "name"
  | operator => "operator"
  | version => "version"
  | constraint => "constraint"
  | value => "value"
  | setting => "setting"
  | message => "message"
  | code => "code"

/-- The part that a word stands for. -/
def ofKey? (s : String) : Option Field :=
  all.find? (·.key = s)

end Field

namespace Dialect

open Pattern Text

/-- Every dialect, the most specific first. -/
def all : List Dialect :=
  [version, versionConstraint, os, setting, prerequisite, dataProvider, testWith,
    expectedException, generic]

/-- The word that stands for the dialect in reports. -/
def key : Dialect → String
  | version => "version"
  | versionConstraint => "version_constraint"
  | os => "os"
  | setting => "setting"
  | prerequisite => "prerequisite"
  | dataProvider => "data_provider"
  | testWith => "test_with"
  | expectedException => "expected_exception"
  | generic => "generic"

/-- The dialect that a word stands for. -/
def ofKey? (s : String) : Option Dialect :=
  all.find? (·.key = s)

/-- A space or a tab. -/
def isGap (c : Char) : Bool :=
  c == ' ' || c == '\t'

/-- Any character of a line. -/
def inLine (c : Char) : Bool :=
  c != '\n'

/-- A sign of a comparison operator. -/
def isSign (c : Char) : Bool :=
  c == '<' || c == '>' || c == '=' || c == '!'

/-- A character of the number part of a version. -/
def isVersionChar (c : Char) : Bool :=
  isDecimal c || c == '.' || c == '-'

/-- A character of a constraint expression: digits, gaps and the signs of ranges. -/
def isConstraintChar (c : Char) : Bool :=
  isDecimal c || isGap c || c == '-' || c == '.' || c == '|' || c == '~' || c == '^'

/-- A character of a setting's value. -/
def isSettingChar (c : Char) : Bool :=
  isWord c || c == '.' || c == '-'

/-- A character of a reference to a provider. -/
def isReferenceChar (c : Char) : Bool :=
  isWord c || c == '.' || c == ':' || c == '\\' || c == '-'

/-- A character of an exception's type name. -/
def isTypeChar (c : Char) : Bool :=
  isWord c || c == ':' || c == '.' || c == '\\'

/-- A letter of a tag's name. -/
def isTagChar (c : Char) : Bool :=
  c.isAlpha || c == '_' || c == '-'

variable {κ : Type}

/-- The blanks between two words, perhaps across lines. -/
def blanks : Pattern κ :=
  chars isBlank

/-- At least one blank. -/
def blanks1 : Pattern κ :=
  chars1 isBlank

/-- The end of a line, after gaps and a carriage return. -/
def lineTail : Pattern κ :=
  chain [chars isGap, opt (char (· == '\r')), lineEnd]

/-- The word that opens every requirement. -/
def requires : Pattern κ :=
  seq (lit "@requires".toList) blanks1

/-- The name of the platform or of the test runner. -/
def platform : Pattern Field :=
  group .name (seq (lit "PHP".toList) (opt (lit "Unit".toList)))

/-- At most two signs of comparison. -/
def comparison : Pattern Field :=
  group .operator (upTo 2 (char isSign))

/-- A version with an operator. -/
def versionPattern : Pattern Field :=
  chain
    [requires, platform, blanks1, comparison, blanks,
      group .version
        (seq (chars1 isVersionChar)
          (opt (alt (lit "dev".toList)
            (seq (oneOf (lit "RC".toList) [lit "alpha".toList, lit "beta".toList])
              (char fun c => isDecimal c || c == '.'))))),
      lineTail]

/-- A version with a constraint expression. -/
def versionConstraintPattern : Pattern Field :=
  chain [requires, platform, blanks1, group .constraint (chars1 isConstraintChar), lineTail]

/-- An operating system or a family of them. -/
def osPattern : Pattern Field :=
  chain
    [requires, group .name (seq (lit "OS".toList) (opt (lit "FAMILY".toList))), blanks1,
      group .value (plus .lazy (char inLine)), lineTail]

/-- A setting and the value that it should have. -/
def settingPattern : Pattern Field :=
  chain
    [requires, group .name (lit "setting".toList), blanks1,
      group .setting (plus .lazy (char (· != ' '))), blanks,
      opt (group .value
        (seq (chars1 isSettingChar) (opt (char fun c => isWord c || c == '.')))),
      lineTail]

/-- A function or an extension, perhaps with a version. -/
def prerequisitePattern : Pattern Field :=
  chain
    [requires, group .name (alt (lit "function".toList) (lit "extension".toList)), blanks1,
      group .value (chars1 fun c => !isBlank c && !isSign c), blanks, comparison, blanks,
      opt (group .version
        (seq (chars1 isVersionChar) (opt (char fun c => isDecimal c || c == '.')))),
      lineTail]

/-- A reference to a data provider. -/
def dataProviderPattern : Pattern Field :=
  chain [lit "@dataProvider".toList, blanks1, group .value (chars1 isReferenceChar)]

/-- The word that opens literal rows. -/
def testWithPattern : Pattern Field :=
  seq (lit "@testWith".toList) blanks1

/-- A text in double quotes in which a backslash takes the next character with it. -/
def quotedPattern : Pattern Field :=
  chain
    [char (· == '"'),
      star .greedy
        (alt (char fun c => c != '"' && c != '\\' && c != '\n')
          (seq (char (· == '\\')) (char inLine))),
      char (· == '"')]

/-- An exception type, perhaps with a message and a code. -/
def expectedExceptionPattern : Pattern Field :=
  chain
    [lit "@expectedException".toList, blanks1, group .name (chars1 isTypeChar),
      opt (seq (chars1 isGap)
        (group .message (alt quotedPattern (chars fun c => !isBlank c)))),
      opt (seq (chars1 isGap) (group .code (chars fun c => !isBlank c))),
      blanks, lineEnd]

/-- The name of a tag, perhaps with a value. -/
def namedValue : Pattern Field :=
  chain
    [char (· == '@'), group .name (chars1 isTagChar),
      opt (seq (chars1 isGap) (group .value (star .lazy (char inLine))))]

/-- Any tag, perhaps with a value up to the end of the line. -/
def genericPattern : Pattern Field :=
  seq namedValue lineTail

/-- A tag in a comment of its own that ends the line. -/
def inlinePattern : Pattern Field :=
  chain
    [lit "/*".toList, opt (char (· == '*')), blanks, namedValue, chars isGap,
      opt (char (· == '\r')), lit "*/".toList, opt (char (· == '\r')), lineEnd]

/-- The line pattern of a dialect. -/
def pattern : Dialect → Pattern Field
  | version => versionPattern
  | versionConstraint => versionConstraintPattern
  | os => osPattern
  | setting => settingPattern
  | prerequisite => prerequisitePattern
  | dataProvider => dataProviderPattern
  | testWith => testWithPattern
  | expectedException => expectedExceptionPattern
  | generic => genericPattern

/-- The parts that the dialect's pattern names. -/
def fields : Dialect → List Field
  | version => [.name, .operator, .version]
  | versionConstraint => [.name, .constraint]
  | os => [.name, .value]
  | setting => [.name, .setting, .value]
  | prerequisite => [.name, .value, .operator, .version]
  | dataProvider => [.value]
  | testWith => []
  | expectedException => [.name, .message, .code]
  | generic => [.name, .value]

end Dialect

/-- A tag found on a line: its dialect and the text of its parts. -/
structure Tag where
  dialect : Dialect
  parts : List (Field × Option String)
  deriving DecidableEq, Repr

namespace Tag

/-- The tag that a match of the dialect's pattern stands for. -/
def ofMatch (d : Dialect) (m : Match Field) : Tag :=
  ⟨d, d.fields.map fun f => (f, (m.group? f).map String.ofList)⟩

/-- The text of a part, if the dialect names it and it took part in the match. -/
def get? (t : Tag) (f : Field) : Option String :=
  (t.parts.lookup f).join

/-- The text of a part, empty if there is none. -/
def getD (t : Tag) (f : Field) : String :=
  (t.get? f).getD ""

end Tag

namespace Dialect

/-- The first tag of this dialect on a line. -/
def tag? (d : Dialect) (line : List Char) : Option Tag :=
  (d.pattern.search? line).map (Tag.ofMatch d)

end Dialect

namespace Tag

/-- The tags on a line, at most one of each dialect, the most specific first. -/
def scanAll (line : List Char) : List Tag :=
  Dialect.all.filterMap (·.tag? line)

/-- The most specific tag on a line. -/
def scan? (line : List Char) : Option Tag :=
  Dialect.all.findSome? (·.tag? line)

theorem scan?_eq_head? (line : List Char) : scan? line = (scanAll line).head? := by
  simp [scan?, scanAll, List.head?_filterMap]

end Tag

end DocTags
