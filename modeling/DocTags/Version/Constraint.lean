import DocTags.Version.Basic

/-!
# Version constraints

A constraint is a choice of alternatives, joined by one or two bars. An alternative is a range of
two versions joined by a hyphen, or terms joined by blanks or commas that all have to hold. Every
term is a conjunction of bounds.
-/

namespace DocTags

/-- A comparison of versions. -/
inductive Comparison where
  | ge
  | gt
  | le
  | lt
  | eq
  | ne
  deriving DecidableEq, Repr

namespace Comparison

/-- The sign of a comparison. -/
def sign : Comparison → String
  | ge => ">="
  | gt => ">"
  | le => "<="
  | lt => "<"
  | eq => "=="
  | ne => "!="

/-- The comparison holds of two things in the given order. -/
def holds : Comparison → Ordering → Bool
  | ge, o => o != .lt
  | gt, o => o == .gt
  | le, o => o != .gt
  | lt, o => o == .lt
  | eq, o => o == .eq
  | ne, o => o != .eq

end Comparison

/-- A version that others are compared with. -/
structure Bound where
  comparison : Comparison
  version : Version
  deriving DecidableEq, Repr

namespace Bound

/-- The version satisfies the bound. -/
def allows (b : Bound) (v : Version) : Bool :=
  b.comparison.holds (v.order b.version)

/-- The sign and the version in normal form. -/
def render (b : Bound) : String :=
  b.comparison.sign ++ String.ofList b.version.render

end Bound

/-- Bounds that have to hold together; without any, every version is in the range. -/
abbrev VersionRange := List Bound

/-- Every bound allows the version. -/
def VersionRange.contains (r : VersionRange) (v : Version) : Bool :=
  r.all (·.allows v)

/-- A constraint: its text and the ranges that it stands for. -/
structure Constraint where
  expression : String
  ranges : List VersionRange
  deriving DecidableEq, Repr

namespace Constraint

open Text Pattern

/-- Some range holds the version. -/
def admits (c : Constraint) (v : Version) : Bool :=
  c.ranges.any (·.contains v)

/-- A text complies if it is a version that some range holds. -/
def complies (c : Constraint) (version : String) : Except Version.Fault Bool :=
  match Version.read version.toList with
  | .ok v => .ok (c.admits v)
  | .error .invalid => .ok false
  | .error e => .error e

/-- Why a text is no constraint. -/
inductive Fault where
  | noText
  | emptyAlternative
  | unsupported (term : String)
  | wildcardWithOperator (term : String)
  | invalidVersion (text : String)
  /-- A number with too many digits, and their count where it was read from a text. -/
  | tooManyDigits (digits : Option Nat)
  deriving DecidableEq, Repr

/-- The wording of a fault. -/
def Fault.message : Fault → String
  | noText => "Version constraint is empty"
  | emptyAlternative => "Version constraint has an empty alternative"
  | unsupported term => "Version constraint \"" ++ term ++ "\" is not supported."
  | wildcardWithOperator term => "Wildcard constraint \"" ++ term ++ "\" cannot take an operator."
  | invalidVersion text => "Version \"" ++ text ++ "\" is not valid."
  | tooManyDigits digits =>
    "Exceeds the limit (" ++ toString Decimal.maxDigits ++ " digits) for integer string conversion"
      ++ (match digits with
        | some n => ": value has " ++ toString n ++ " digits"
        | none => "")
      ++ "; use sys.set_int_max_str_digits() to increase the limit"

/-- The parts of an alternative or a term. -/
inductive Part where
  | lower
  | upper
  | operator
  | version
  | release
  | wildcard
  deriving DecidableEq, Repr

/-- What stands between two alternatives. -/
def alternativeBreak : Pattern Part :=
  chain [chars isBlank, char (· == '|'), opt (char (· == '|')), chars isBlank]

/-- What stands between two terms. -/
def termBreak : Pattern Part :=
  alt (chain [chars isBlank, char (· == ','), chars isBlank]) (chars1 isBlank)

/-- Two texts without blanks, joined by a hyphen with blanks around it. -/
def hyphenRange : Pattern Part :=
  chain
    [group .lower (chars1 fun c => !isBlank c), chars1 isBlank, char (· == '-'), chars1 isBlank,
      group .upper (chars1 fun c => !isBlank c), textEnd]

/-- An operator with blanks after it. -/
def detachedOperator : Pattern Part :=
  seq
    (group .operator
      (alt
        (seq (char fun c => c == '<' || c == '>' || c == '!' || c == '=') (opt (char (· == '='))))
        (char fun c => c == '^' || c == '~')))
    (chars1 isBlank)

/-- An operator in front of a version. -/
def termOperator : Pattern Part :=
  oneOf (char (· == '^'))
    [char (· == '~'),
      seq (char fun c => c == '<' || c == '>') (opt (char (· == '='))),
      seq (char (· == '=')) (opt (char (· == '='))),
      lit ['!', '=']]

/-- One to four numbers with points between them. -/
def releaseNumbers : Pattern Part :=
  seq (chars1 isDecimal) (upTo 3 (seq (char (· == '.')) (chars1 isDecimal)))

/-- An operator if there is one, and a version, a version with a wildcard, or a wildcard alone. -/
def termPattern : Pattern Part :=
  chain
    [opt (group .operator termOperator), opt (char (· == 'v')),
      group .version
        (alt
          (chain
            [group .release releaseNumbers, opt (group .wildcard (lit ['.', '*'])),
              opt (chain
                [opt (char (· == '-')), chars1 Char.isAlpha, opt (char (· == '.')),
                  chars isDecimal])])
          (char (· == '*'))),
      textEnd]

/-- The digits with points between them at the front of a text. -/
def leadingNumbers : Pattern Part :=
  seq (chars1 isDecimal) (star .greedy (seq (char (· == '.')) (chars1 isDecimal)))

/-- How many release numbers a version is written with, one if it does not start with a number. -/
def writtenNumbers (s : List Char) : Nat :=
  match leadingNumbers.matchFront? s with
  | none => 1
  | some m => m.span.text.count '.' + 1

/-- Reads a version and the number of release numbers that it is written with. -/
def readVersion (s : List Char) : Except Fault (Version × Nat) :=
  match Version.read s with
  | .ok v => .ok (v, writtenNumbers s)
  | .error .invalid => .error (.invalidVersion (String.ofList s))
  | .error (.tooManyDigits n) => .error (.tooManyDigits (some n))

/-- The first `position` release numbers, the last of them raised by one. -/
def raised (release : List Nat) : Nat → List Nat
  | 0 => []
  | 1 => [release.headD 0 + 1]
  | n + 1 => release.headD 0 :: raised release.tail n

/-- The smallest release above every version with the same first `position` release numbers. -/
def bump (v : Version) (position : Nat) : Except Fault Version :=
  let release := raised v.release position
  if release.all fun n => (Decimal.natText n).length ≤ Decimal.maxDigits then
    .ok (.ofRelease release)
  else .error (.tooManyDigits none)

/-- From a version up to the next one that differs in the first `position` release numbers. -/
def within (v : Version) (position : Nat) : Except Fault VersionRange :=
  (bump v position).map fun next => [⟨.ge, v⟩, ⟨.lt, next⟩]

/-- How many release numbers a caret keeps: up to the first that is not zero, at most three. -/
def caretPosition (v : Version) (written : Nat) : Nat :=
  if v.release.headD 0 ≠ 0 then 1
  else if v.release.tail.headD 0 ≠ 0 ∨ written < 3 then 2
  else 3

/-- How many release numbers a tilde keeps. -/
def tildePosition (written : Nat) : Nat :=
  if 3 ≤ written then 2 else 1

/-- The comparison that an operator stands for. -/
def comparisonOf? (operator : List Char) : Option Comparison :=
  match operator with
  | ['>', '='] => some .ge
  | ['>'] => some .gt
  | ['<', '='] => some .le
  | ['<'] => some .lt
  | ['='] | ['=', '='] => some .eq
  | ['!', '='] => some .ne
  | _ => none

/-- The bounds of a version with an operator. -/
def versionBounds (operator : List Char) (v : Version) (written : Nat) :
    Except Fault VersionRange :=
  match operator with
  | ['^'] => within v (caretPosition v written)
  | ['~'] => within v (tildePosition written)
  | [] => if written < 3 then within v written else .ok [⟨.eq, v⟩]
  | _ =>
    match comparisonOf? operator with
    | some c => .ok [⟨c, v⟩]
    | none => .ok []

/-- The bounds of a term. -/
def readTerm (term : List Char) : Except Fault VersionRange :=
  match termPattern.matchFront? term with
  | none => .error (.unsupported (String.ofList term))
  | some m =>
    let operator := m.groupD .operator
    let version := m.groupD .version
    if version = ['*'] ∨ (m.group? .wildcard).isSome then
      if operator ≠ [] then .error (.wildcardWithOperator (String.ofList term))
      else if version = ['*'] then .ok []
      else do
        let (v, written) ← readVersion (m.groupD .release)
        within v written
    else do
      let (v, written) ← readVersion version
      versionBounds operator v written

/-- The bounds of a range of two versions. An upper version with fewer than three numbers stands for
all versions that it starts. -/
def readHyphenRange (lower upper : List Char) : Except Fault VersionRange := do
  let (low, _) ← readVersion lower
  let (high, written) ← readVersion upper
  if written < 3 then return [⟨.ge, low⟩, ⟨.lt, ← bump high written⟩]
  return [⟨.ge, low⟩, ⟨.le, high⟩]

/-- The text without the blanks after operators. -/
def attachOperators (s : List Char) : List Char :=
  detachedOperator.replace (·.groupD .operator) s

/-- The bounds of an alternative. -/
def readAlternative (s : List Char) : Except Fault VersionRange :=
  if s.isEmpty then .error .emptyAlternative
  else
    match hyphenRange.matchFront? s with
    | some m => readHyphenRange (m.groupD .lower) (m.groupD .upper)
    | none => ((termBreak.split (attachOperators s)).mapM readTerm).map List.flatten

/-- Reads a constraint. -/
def read (expression : String) : Except Fault Constraint :=
  let s := trim expression.toList
  if s.isEmpty then .error .noText
  else ((alternativeBreak.split s).mapM readAlternative).map fun ranges =>
    ⟨String.ofList s, ranges⟩

end Constraint

end DocTags
