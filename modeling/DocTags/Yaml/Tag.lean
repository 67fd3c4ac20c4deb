import DocTags.Pattern.Basic
import DocTags.Yaml.Token

/-!
# The kinds of YAML nodes

A plain scalar is of the first kind whose form it has, and a text if it has none of the forms. A
quoted scalar is a text. A tag says the kind outright.
-/

namespace DocTags.Yaml

/-- The kinds of YAML nodes. -/
inductive Tag where
  | null
  | truth
  | int
  | real
  | text
  | time
  | bytes
  /-- The key whose value is merged into its mapping. -/
  | merge
  /-- The key of the default value. -/
  | default
  /-- A sign of YAML itself. -/
  | sign
  | sequence
  | mapping
  | set
  /-- A sequence of mappings with one entry each. -/
  | pairs
  | other (name : String)
  deriving DecidableEq, Repr

namespace Tag

open Pattern

/-- What the names of the known tags start with. -/
def namespaceOfTags : String := "tag:yaml.org,2002:"

/-- The kinds by the ends of their names. -/
def known : List (String × Tag) :=
  [("null", null), ("bool", truth), ("int", int), ("float", real), ("str", text),
    ("timestamp", time), ("binary", bytes), ("merge", merge), ("value", default), ("yaml", sign),
    ("seq", sequence), ("map", mapping), ("set", set), ("pairs", pairs), ("omap", pairs)]

/-- The kind with the given name. -/
def ofName (name : String) : Tag :=
  match known.find? fun e => namespaceOfTags ++ e.1 = name with
  | some e => e.2
  | none => other name

/-- The words for a truth value, with the value. -/
def truthWords : List (String × Bool) :=
  [("yes", true), ("no", false), ("true", true), ("false", false), ("on", true), ("off", false)]

/-- A word in lower case, in upper case or with a capital. -/
def inAnyCase (word : String) : List String :=
  [word, word.capitalize, String.ofList (word.toList.map Char.toUpper)]

/-- A digit or an underscore. -/
def isSpacedDigit (c : Char) : Bool :=
  c.isDigit || c == '_'

/-- A plus or minus sign. -/
def isSign (c : Char) : Bool :=
  c == '+' || c == '-'

/-- A sign if there is one. -/
def signForm : Pattern Unit :=
  opt (char isSign)

/-- A digit, then digits and underscores. -/
def digitsForm : Pattern Unit :=
  seq (char Char.isDigit) (chars isSpacedDigit)

/-- An exponent with its sign, if there is one. -/
def exponentForm : Pattern Unit :=
  opt (chain [char fun c => c == 'e' || c == 'E', char isSign, chars1 Char.isDigit])

/-- Further parts of a number to the base sixty. -/
def sixtiethsForm : Pattern Unit :=
  plus .greedy
    (chain [char (· == ':'), opt (char fun c => '0' ≤ c && c ≤ '5'), char Char.isDigit])

/-- One of the given words. -/
def wordsForm (words : List String) : Pattern Unit :=
  words.foldr (fun w p => alt (lit w.toList) p) (char fun _ => false)

/-- A number with a point, an infinity or no number. -/
def realForm : Pattern Unit :=
  oneOf
    (chain [signForm, digitsForm, char (· == '.'), chars isSpacedDigit, exponentForm])
    [chain [char (· == '.'), digitsForm, exponentForm],
      chain [signForm, digitsForm, sixtiethsForm, char (· == '.'), chars isSpacedDigit],
      chain [signForm, char (· == '.'), wordsForm (inAnyCase "inf")],
      seq (char (· == '.')) (wordsForm ["nan", "NaN", "NAN"])]

/-- A digit other than zero, then digits and underscores. -/
def decimalForm : Pattern Unit :=
  seq (char fun c => '1' ≤ c && c ≤ '9') (chars isSpacedDigit)

/-- A whole number to the base two, eight, ten, sixteen or sixty. -/
def intForm : Pattern Unit :=
  seq signForm
    (oneOf
      (seq (lit ['0', 'b']) (chars1 fun c => c == '0' || c == '1' || c == '_'))
      [seq (char (· == '0')) (chars1 fun c => ('0' ≤ c && c ≤ '7') || c == '_'),
        char (· == '0'),
        decimalForm,
        seq (lit ['0', 'x']) (chars1 fun c => (Token.hexValue? c).isSome || c == '_'),
        seq decimalForm sixtiethsForm])

/-- One or two digits. -/
def oneOrTwoDigits : Pattern Unit :=
  seq (char Char.isDigit) (opt (char Char.isDigit))

/-- Exactly `n` digits. -/
def exactDigits (n : Nat) : Pattern Unit :=
  chain (List.replicate n (char Char.isDigit))

/-- A day, or a day with a time of the day. -/
def timeForm : Pattern Unit :=
  let blank : Char → Bool := fun c => c == ' ' || c == '\t'
  let hyphen : Pattern Unit := char (· == '-')
  let colon : Pattern Unit := char (· == ':')
  let zone : Pattern Unit :=
    seq (chars blank)
      (alt (char (· == 'Z'))
        (chain [char isSign, oneOrTwoDigits, opt (seq colon (exactDigits 2))]))
  alt (chain [exactDigits 4, hyphen, exactDigits 2, hyphen, exactDigits 2])
    (chain
      [exactDigits 4, hyphen, oneOrTwoDigits, hyphen, oneOrTwoDigits,
        alt (char fun c => c == 'T' || c == 't') (chars1 blank),
        oneOrTwoDigits, colon, exactDigits 2, colon, exactDigits 2,
        opt (seq (char (· == '.')) (chars Char.isDigit)), opt zone])

/-- The match of a form by a whole text, which may have a line feed after it. -/
def formMatch? {κ : Type} (p : Pattern κ) (s : List Char) : Option (Match κ) :=
  (p.matchWhole? s).or
    (if s.getLast? = some '\n' ∧ s.length ≠ 1 then p.matchWhole? s.dropLast else none)

/-- A text has a form. -/
def hasForm (p : Pattern Unit) (s : List Char) : Bool :=
  (formMatch? p s).isSome

/-- The kind of a plain scalar. -/
def ofPlain (s : List Char) : Tag :=
  if hasForm (wordsForm (truthWords.flatMap fun w => inAnyCase w.1)) s then truth
  else if hasForm realForm s then real
  else if hasForm intForm s then int
  else if hasForm (lit ['<', '<']) s then merge
  else if s.isEmpty || hasForm (wordsForm ("~" :: inAnyCase "null")) s then null
  else if hasForm timeForm s then time
  else if hasForm (lit ['=']) s then default
  else if hasForm (wordsForm ["!", "&", "*"]) s then sign
  else text

end Tag

end DocTags.Yaml
