import DocTags.Proofs.Version.Expression

/-!
# The grammar of constraints

What the reader of constraints accepts: alternatives joined by bars, each of them two versions
joined by a hyphen or terms with separators between them. The documented terms are a version behind
an operator, a version on its own, a start of versions with a wildcard, and a wildcard alone.
Besides them the reader takes blanks between the two signs of an operator, and a suffix behind a
wildcard.
-/

namespace DocTags.Constraint

open Text

/-- A character that is written or left out. -/
def mark (c : Char) (isWritten : Bool) : List Char :=
  if isWritten then [c] else []

/-- A suffix of a version: letters, perhaps with a hyphen in front and a point and digits behind. -/
structure Suffix where
  hyphen : Bool
  letters : List Char
  point : Bool
  digits : List Char
  ne_nil : letters ≠ []
  isAlpha : ∀ c ∈ letters, c.isAlpha = true
  isDecimal : ∀ c ∈ digits, isDecimal c = true

/-- The written suffix. -/
def Suffix.text (x : Suffix) : List Char :=
  mark '-' x.hyphen ++ (x.letters ++ (mark '.' x.point ++ x.digits))

/-- The text of a suffix, empty if there is none. -/
def suffixText (x : Option Suffix) : List Char :=
  x.elim [] Suffix.text

/-- An operator with the blanks between its signs and behind it. -/
structure WrittenOperator where
  operator : Operator
  inner : Blanks
  behind : Blanks

namespace WrittenOperator

/-- The written operator. -/
def text (o : WrittenOperator) : List Char :=
  o.operator.text.take 1 ++ (o.inner.chars ++ (o.operator.text.drop 1 ++ o.behind.chars))

/-- No blanks stand between the signs. -/
def IsContiguous (o : WrittenOperator) : Prop :=
  o.inner.chars = []

end WrittenOperator

/-- A term as it is written. -/
inductive WrittenTerm where
  /-- A wildcard alone. -/
  | anything (letter : Bool)
  /-- A start of versions with a wildcard. A suffix behind it has no meaning. -/
  | wildcard (letter : Bool) (start : Release) (suffix : Option Suffix)
  /-- A version, perhaps behind an operator. -/
  | version (operator : Option WrittenOperator) (letter : Bool) (release : Release)
      (suffix : Option Suffix)
      (isVersion : Version.read (release.text ++ suffixText suffix) ≠ .error .invalid)

namespace WrittenTerm

/-- What stands behind the operator of a term. -/
def body : WrittenTerm → List Char
  | anything letter => mark 'v' letter ++ ['*']
  | wildcard letter start suffix =>
    mark 'v' letter ++ (start.text ++ (['.', '*'] ++ suffixText suffix))
  | version _ letter release suffix _ => mark 'v' letter ++ (release.text ++ suffixText suffix)

/-- The operator in front of a term. -/
def operator? : WrittenTerm → Option WrittenOperator
  | version operator .. => operator
  | _ => none

/-- The written term. -/
def text (t : WrittenTerm) : List Char :=
  t.operator?.elim [] WrittenOperator.text ++ t.body

/-- The written term without the blanks of its operator. -/
def closed (t : WrittenTerm) : List Char :=
  t.operator?.elim [] (·.operator.text) ++ t.body

/-- The term is one that is documented: its operator is in one piece, and nothing stands behind a
wildcard. -/
def IsDocumented : WrittenTerm → Prop
  | anything _ => True
  | wildcard _ _ suffix => suffix = none
  | version operator .. => ∀ o ∈ operator, o.IsContiguous

end WrittenTerm

/-- A version of any form, without blanks around it. -/
structure WrittenVersion where
  text : List Char
  solid : ∀ c ∈ text, isBlank c = false
  isVersion : Version.read text ≠ .error .invalid

/-- Further pieces of a text, each after what joins it to the piece before. -/
def joined {γ ι : Type} (gap : γ → List Char) (piece : ι → List Char) (is : List (γ × ι)) :
    List Char :=
  is.flatMap fun i => gap i.1 ++ piece i.2

/-- An alternative as it is written. -/
inductive WrittenAlternative where
  | range (lower : WrittenVersion) (before after : Gap) (upper : WrittenVersion)
  | terms (first : WrittenTerm) (rest : List (Separator × WrittenTerm))

namespace WrittenAlternative

/-- The written alternative. -/
def text : WrittenAlternative → List Char
  | range lower before after upper =>
    lower.text ++ (before.chars ++ '-' :: (after.chars ++ upper.text))
  | terms first rest => first.text ++ joined Separator.text WrittenTerm.text rest

/-- The terms of the alternative are documented. -/
def IsDocumented : WrittenAlternative → Prop
  | range .. => True
  | terms first rest => first.IsDocumented ∧ ∀ t ∈ rest, t.2.IsDocumented

end WrittenAlternative

/-- A constraint as it is written. -/
structure WrittenConstraint where
  first : WrittenAlternative
  rest : List (Bar × WrittenAlternative)

namespace WrittenConstraint

/-- The written constraint. -/
def text (e : WrittenConstraint) : List Char :=
  e.first.text ++ joined Bar.text WrittenAlternative.text e.rest

/-- The terms of the constraint are documented. -/
def IsDocumented (e : WrittenConstraint) : Prop :=
  e.first.IsDocumented ∧ ∀ a ∈ e.rest, a.2.IsDocumented

end WrittenConstraint

end DocTags.Constraint
