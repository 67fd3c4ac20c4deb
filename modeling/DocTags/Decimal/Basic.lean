import DocTags.Text.Blank
import DocTags.Text.Digit

/-!
# Decimal numbers as text

A decimal number is a natural number of units of a power of ten. Whole numbers are written with the
fewest digits and read with digits of any script, single underscores between digits, and blanks
around. A text of more digits than `maxDigits` is no number.
-/

namespace DocTags

/-- The number `digits` times ten to the power of `exponent`. -/
structure Decimal where
  digits : Nat
  exponent : Int
  deriving DecidableEq, Repr

namespace Decimal

open Text

/-- The most digits that a whole number may be written with. -/
def maxDigits : Nat := 4300

/-- The digits of a natural number. -/
def natText (n : Nat) : List Char :=
  Nat.toDigits 10 n

/-- The digits of a whole number, after a minus sign if it is negative. -/
def intText (n : Int) : List Char :=
  if n < 0 then '-' :: natText n.natAbs else natText n.natAbs

/-- The number that a row of digits stands for. -/
def ofDigits (ds : List Nat) : Nat :=
  ds.foldl (fun n d => 10 * n + d) 0

@[simp] theorem ofDigits_nil : ofDigits [] = 0 := rfl

theorem ofDigits_concat (ds : List Nat) (d : Nat) :
    ofDigits (ds ++ [d]) = 10 * ofDigits ds + d := by
  simp [ofDigits]

/-- Why a text is no whole number. -/
inductive Fault where
  | malformed
  | tooLong (digits : Nat)
  deriving DecidableEq, Repr

/-- The whole number that a row of digits stands for, if the row is not too long. -/
def readDigits (ds : List Nat) : Except Fault Nat :=
  if ds.length ≤ maxDigits then .ok (ofDigits ds) else .error (.tooLong ds.length)

/-- Digits with at most one underscore between two of them. -/
def groupedDigits? : List Char → Option (List Nat)
  | [] => none
  | [c] => (digitValue? c).map ([·])
  | c :: '_' :: s => do return (← digitValue? c) :: (← groupedDigits? s)
  | c :: s => do return (← digitValue? c) :: (← groupedDigits? s)

/-- A blank that may stand around a number: the information separators may not. -/
def isPadding (c : Char) : Bool :=
  isBlank c && !(28 ≤ c.toNat && c.toNat ≤ 31)

/-- Splits a sign off a text; true means minus. -/
def splitSign : List Char → Bool × List Char
  | '-' :: s => (true, s)
  | '+' :: s => (false, s)
  | s => (false, s)

/-- The natural number with the given sign. -/
def signed (negative : Bool) (n : Nat) : Int :=
  if negative then -n else n

/-- Reads a whole number with a sign, padding around it and underscores in it. -/
def readInt (s : List Char) : Except Fault Int :=
  let (negative, s) := splitSign (trimWhere isPadding s)
  match groupedDigits? s with
  | none => .error .malformed
  | some ds => (readDigits ds).map (signed negative)

/-- The value of a digit beyond nine in either case. -/
def letterDigit? (c : Char) : Option Nat :=
  if 'a' ≤ c ∧ c ≤ 'f' then some (c.toNat - 87)
  else if 'A' ≤ c ∧ c ≤ 'F' then some (c.toNat - 55)
  else none

/-- The value of a digit to a base. -/
def digitIn? (base : Nat) (c : Char) : Option Nat :=
  ((digitValue? c).or (letterDigit? c)).filter (· < base)

/-- The number that digits to a base stand for; none if there are none or one is no digit. -/
def ofDigitsIn? (base : Nat) (s : List Char) : Option Nat :=
  if s.isEmpty then none
  else (s.mapM (digitIn? base)).map fun ds => ds.foldl (fun n d => base * n + d) 0

/-- Drops a zero and the letter that announces a base. -/
def dropBaseMark (mark : Char) (s : List Char) : List Char :=
  match s with
  | z :: c :: r =>
    if digitValue? z = some 0 ∧ (c = mark ∨ c = mark.toUpper) then r else s
  | _ => s

/-- Reads a whole number to a base, whose letter may stand after a zero in front, with a sign and
padding around it. -/
def readIntIn? (base : Nat) (mark : Char) (s : List Char) : Option Int :=
  let (negative, s) := splitSign (trimWhere isPadding s)
  (ofDigitsIn? base (dropBaseMark mark s)).map (signed negative)

/-- The leading digits of a text and what follows them. -/
def spanDigits : List Char → List Nat × List Char
  | [] => ([], [])
  | c :: s =>
    match digitValue? c with
    | none => ([], c :: s)
    | some d =>
      let (ds, r) := spanDigits s
      (d :: ds, r)

/-- Reads the exponent of a number, if the text starts with one. -/
def spanExponent (s : List Char) : Int × List Char :=
  match s with
  | e :: r =>
    if e = 'e' ∨ e = 'E' then
      let (negative, r') := splitSign r
      match spanDigits r' with
      | ([], _) => (0, s)
      | (ds, rest) => (signed negative (ofDigits ds), rest)
    else (0, s)
  | [] => (0, [])

/-- Reads digits with perhaps a point among them and an exponent after them. -/
def readUnsigned? (s : List Char) : Option Decimal :=
  let (whole, r) := spanDigits s
  let (part, r) :=
    match r with
    | '.' :: r' => spanDigits r'
    | _ => ([], r)
  let (exponent, r) := spanExponent r
  if r.isEmpty && !(whole ++ part).isEmpty then
    some ⟨ofDigits (whole ++ part), exponent - part.length⟩
  else none

end Decimal

end DocTags
