import DocTags.Decimal.Basic

/-!
# Binary floating-point numbers of 64 bits

A finite number is a significand of at most 53 bits times a power of two, counted in units of
2⁻¹⁰⁷⁴. Ratios are rounded to the nearest such number, a tie to the even significand. All arithmetic
is on natural numbers.
-/

namespace DocTags

/-- A binary floating-point number. A finite one is `significand * 2 ^ scale` units of 2⁻¹⁰⁷⁴. -/
inductive Binary64 where
  | notANumber
  | infinite (negative : Bool)
  | finite (negative : Bool) (significand scale : Nat)
  deriving DecidableEq, Repr

namespace Binary64

/-- The bits of a unit below one. -/
def unitBits : Nat := 1074

/-- The bits of a full significand. -/
def precision : Nat := 53

/-- The scale of the largest finite numbers. -/
def maxScale : Nat := 2045

/-- The quotient rounded to the nearest whole number, a tie to the even one. -/
def divNearest (num den : Nat) : Nat :=
  let q := num / den
  let r := num % den
  if 2 * r < den ∨ (2 * r = den ∧ q % 2 = 0) then q else q + 1

/-- The scale at which the quotient has a full significand, zero for small quotients. -/
def scaleOf (num den : Nat) : Nat :=
  (num / den).log2 + 1 - precision

/-- The number nearest to a quotient of units. -/
def ofUnits (negative : Bool) (num den : Nat) : Binary64 :=
  let scale := scaleOf num den
  let significand := divNearest num (den * Nat.pow 2 scale)
  let (significand, scale) :=
    if significand = Nat.pow 2 precision then (Nat.pow 2 (precision - 1), scale + 1)
    else (significand, scale)
  if maxScale < scale then .infinite negative else .finite negative significand scale

/-- The number nearest to a quotient. -/
def ofRatio (negative : Bool) (num den : Nat) : Binary64 :=
  ofUnits negative (num * Nat.pow 2 unitBits) den

/-- Zero with a sign. -/
def zero (negative : Bool) : Binary64 :=
  .finite negative 0 0

/-- The number nearest to a decimal number. Exponents beyond the range are settled without
computing the power. -/
def ofDecimal (negative : Bool) (d : Decimal) : Binary64 :=
  let magnitude := d.exponent + (Decimal.natText d.digits).length
  if d.digits = 0 then zero negative
  else if 400 < magnitude then .infinite negative
  else if magnitude < -400 then zero negative
  else if 0 ≤ d.exponent then ofRatio negative (d.digits * Nat.pow 10 d.exponent.toNat) 1
  else ofRatio negative d.digits (Nat.pow 10 (-d.exponent).toNat)

/-- Reads a decimal number, an infinity or the word for no number, in either case, with a sign and
padding around it. -/
def read? (s : List Char) : Option Binary64 :=
  let (negative, r) := Decimal.splitSign (Text.trimWhere Decimal.isPadding s)
  let word := String.ofList (r.map Char.toLower)
  if word = "inf" ∨ word = "infinity" then some (.infinite negative)
  else if word = "nan" then some .notANumber
  else (Decimal.readUnsigned? r).map (ofDecimal negative)

/-- A natural number rounded to the nearest number. -/
def ofNat (n : Nat) : Binary64 :=
  ofUnits false (n * Nat.pow 2 unitBits) 1

/-- The number with the other sign. -/
def neg : Binary64 → Binary64
  | notANumber => notANumber
  | infinite negative => infinite !negative
  | finite negative m q => finite (!negative) m q

/-- The sum of two numbers, rounded. -/
def add : Binary64 → Binary64 → Binary64
  | notANumber, _ | _, notANumber => notANumber
  | infinite a, infinite b => if a = b then infinite a else notANumber
  | infinite a, finite .. | finite .., infinite a => infinite a
  | finite a m q, finite b n r =>
    let sum := Decimal.signed a (m * Nat.pow 2 q) + Decimal.signed b (n * Nat.pow 2 r)
    if sum = 0 then zero (a && b) else ofUnits (sum < 0) sum.natAbs 1

/-- The product of two numbers, rounded. -/
def mul : Binary64 → Binary64 → Binary64
  | notANumber, _ | _, notANumber => notANumber
  | infinite a, infinite b => infinite (a != b)
  | infinite a, finite b m _ | finite b m _, infinite a =>
    if m = 0 then notANumber else infinite (a != b)
  | finite a m q, finite b n r => ofUnits (a != b) (m * n * Nat.pow 2 (q + r)) (Nat.pow 2 unitBits)

@[simp] theorem neg_neg (x : Binary64) : x.neg.neg = x := by
  cases x <;> simp [neg]

/-- The whole part of a finite number, rounded toward zero. -/
def truncate (negative : Bool) (significand scale : Nat) : Int :=
  Decimal.signed negative (significand * Nat.pow 2 scale / Nat.pow 2 unitBits)

/-- The number is finite and has no fractional part. -/
def isWhole : Binary64 → Bool
  | .finite _ m q => m * Nat.pow 2 q % Nat.pow 2 unitBits == 0
  | _ => false

/-- The number is zero of either sign. -/
def isZero : Binary64 → Bool
  | .finite _ m _ => m == 0
  | _ => false

end Binary64

end DocTags
