import DocTags.Decimal.Binary64

/-!
# The shortest decimal that reads back

Of all decimals that round to a given binary number, the one with the fewest digits is chosen, and
of those the nearest. For each number of digits only the two neighbours of the binary number on that
decimal grid have to be tried: if any point of the grid reads back, one of these does.
-/

namespace DocTags.Binary64

/-- The number of digits before the point of a positive quotient; for a quotient below one, minus
the number of zeros after the point. -/
def decimalMagnitude (num den : Nat) : Int :=
  if den ≤ num then (Decimal.natText (num / den)).length
  else 1 - ((Decimal.natText (den / num)).length : Int)

/-- The quotient in units of ten to the power of `exponent`, rounded down, and whether the next grid
point is nearer. -/
def onGrid (num den : Nat) (exponent : Int) : Nat × Bool :=
  let num := if exponent < 0 then num * Nat.pow 10 (-exponent).toNat else num
  let den := if exponent < 0 then den else den * Nat.pow 10 exponent.toNat
  let low := num / den
  let r := num % den
  (low, den < 2 * r || (den == 2 * r && low % 2 == 1))

/-- The nearer of the two neighbours with `digits` digits that read back as the number. -/
def withDigits? (significand scale : Nat) (digits : Nat) : Option Decimal :=
  let num := significand * Nat.pow 2 scale
  let den := Nat.pow 2 unitBits
  let exponent := decimalMagnitude num den - digits
  let (low, up) := onGrid num den exponent
  let near : Decimal := ⟨if up then low + 1 else low, exponent⟩
  let far : Decimal := ⟨if up then low else low + 1, exponent⟩
  [near, far].find? fun d => ofDecimal false d == .finite false significand scale

/-- All the digits of a finite number. -/
def exactDecimal (significand scale : Nat) : Decimal :=
  ⟨significand * Nat.pow 2 scale * Nat.pow 5 unitBits, -(unitBits : Int)⟩

/-- The shortest decimal that reads back as the positive number. -/
def shortest (significand scale : Nat) : Decimal :=
  if significand = 0 then ⟨0, 0⟩
  else
    ((List.range 17).findSome? fun n => withDigits? significand scale (n + 1)).getD
      (exactDecimal significand scale)

/-- The digits of a decimal without zeros at the end, and the power of ten of the first of them. -/
def digitsAndPower (d : Decimal) : List Char × Int :=
  let ds := Decimal.natText d.digits
  let kept := Text.dropEndWhile (· == '0') ds
  (if kept.isEmpty then ['0'] else kept, d.exponent + (ds.length : Int) - 1)

/-- How numbers are laid out as text. -/
structure Layout where
  /-- The least power of ten of a first digit that is written without an exponent. -/
  lowest : Int
  /-- The least power of ten of a first digit that is too high for that. -/
  highest : Int
  /-- A point follows a single digit before an exponent. -/
  pointBeforeExponent : Bool
  infinity : List Char
  notANumber : List Char

/-- Digits with a point, at least one digit on either side of it. -/
def positional (ds : List Char) (power : Int) : List Char :=
  if power < 0 then '0' :: '.' :: List.replicate (-power - 1).toNat '0' ++ ds
  else
    let whole := power.toNat + 1
    if ds.length ≤ whole then ds ++ List.replicate (whole - ds.length) '0' ++ ['.', '0']
    else ds.take whole ++ '.' :: ds.drop whole

/-- A sign and at least two digits. -/
def exponentText (power : Int) : List Char :=
  let ds := Decimal.natText power.natAbs
  (if power < 0 then '-' else '+') :: (if ds.length < 2 then '0' :: ds else ds)

/-- One digit, the others after a point, and the exponent. -/
def scientific (layout : Layout) (ds : List Char) (power : Int) : List Char :=
  let mantissa :=
    match ds with
    | [d] => if layout.pointBeforeExponent then [d, '.', '0'] else [d]
    | d :: rest => d :: '.' :: rest
    | [] => []
  mantissa ++ 'e' :: exponentText power

/-- The text of a number. -/
def render (layout : Layout) : Binary64 → List Char
  | .notANumber => layout.notANumber
  | .infinite negative => if negative then '-' :: layout.infinity else layout.infinity
  | .finite negative m q =>
    let (ds, power) := digitsAndPower (shortest m q)
    let body :=
      if layout.lowest ≤ power ∧ power < layout.highest then positional ds power
      else scientific layout ds power
    if negative then '-' :: body else body

/-- Numbers as values show them. -/
def Layout.plain : Layout :=
  ⟨-4, 16, false, "inf".toList, "nan".toList⟩

/-- Numbers as JSON documents hold them. -/
def Layout.json : Layout :=
  ⟨-4, 16, false, "Infinity".toList, "NaN".toList⟩

/-- Numbers as YAML documents hold them. -/
def Layout.yaml : Layout :=
  ⟨-4, 16, true, ".inf".toList, ".nan".toList⟩

end DocTags.Binary64
