import DocTags.Text.Base64
import DocTags.Datum.Basic
import DocTags.Yaml.Tag

/-!
# What YAML scalars mean

The value of a scalar is read from its text by its kind. Numbers may have underscores anywhere and
colons between parts to the base sixty.
-/

namespace DocTags.Yaml

namespace Scalar

open Pattern

/-- A number that a text should hold. -/
def number {α : Type} : Option α → Except DocTags.Fault α
  | some a => .ok a
  | none => .error .notANumber

/-- Reads the number after a sign, which a text that is not empty may start with. -/
def signed {α : Type} (neg : α → α) (read : List Char → Except DocTags.Fault α) (s : List Char) :
    Except DocTags.Fault α :=
  let (negative, r) := Decimal.splitSign s
  if s.isEmpty then .error .emptyText
  else (read r).map fun a => if negative then neg a else a

/-- The number that parts to the base sixty stand for. -/
def sixtieths (parts : List Int) : Int :=
  parts.foldl (fun n p => 60 * n + p) 0

/-- Reads a whole number without a sign: to the base two, eight or sixteen after a zero, to the base
sixty with colons, else to the base ten. -/
def readMagnitude (s : List Char) : Except DocTags.Fault Int :=
  match s with
  | [] => .error .emptyText
  | ['0'] => .ok 0
  | '0' :: 'b' :: ds => number (Decimal.readIntIn? 2 'b' ds)
  | '0' :: 'x' :: ds => number (Decimal.readIntIn? 16 'x' ds)
  | '0' :: _ => number (Decimal.readIntIn? 8 'o' s)
  | _ =>
    if s.contains ':' then
      number (((s.splitOn ':').mapM fun p => (Decimal.readInt p).toOption).map sixtieths)
    else number (Decimal.readInt s).toOption

/-- Reads a whole number. -/
def readInt (s : List Char) : Except DocTags.Fault Int :=
  signed (- ·) readMagnitude (s.filter (· != '_'))

/-- The number that parts to the base sixty stand for, rounded at every step from the last part on;
`weight` is that of the first part in the list. -/
def addSixtieths (sum : Binary64) (weight : Nat) :
    List Binary64 → Except DocTags.Fault Binary64
  | [] => .ok sum
  | p :: ps =>
    match Binary64.ofNat weight with
    | .infinite _ => .error .infiniteNumber
    | w => addSixtieths (sum.add (p.mul w)) (60 * weight) ps

/-- Reads a number with a point and without a sign, or an infinity, or the word for no number. -/
def readRealMagnitude (s : List Char) : Except DocTags.Fault Binary64 :=
  if s = ".inf".toList then .ok (.infinite false)
  else if s = ".nan".toList then .ok .notANumber
  else if s.contains ':' then do
    let parts ← number ((s.splitOn ':').mapM Binary64.read?)
    addSixtieths (.zero false) 1 parts.reverse
  else number (Binary64.read? s)

/-- Reads a number with a point. -/
def readReal (s : List Char) : Except DocTags.Fault Binary64 :=
  signed Binary64.neg readRealMagnitude ((s.filter (· != '_')).map Char.toLower)

/-- The scalar is written as the word for no number, which is one and the same key everywhere. -/
def isNotANumberWord (s : List Char) : Bool :=
  (Decimal.splitSign ((s.filter (· != '_')).map Char.toLower)).2 == ".nan".toList

/-- The parts of a moment. -/
inductive MomentPart where
  | year
  | month
  | day
  | hour
  | minute
  | second
  | fraction
  /-- The sign of an offset. -/
  | sign
  | offsetHour
  | offsetMinute
  /-- The letter for universal time. -/
  | universal
  deriving DecidableEq, Repr

/-- Between `least` and two digits. -/
def twoDigits (name : MomentPart) (least : Nat) : Pattern MomentPart :=
  let digit : Pattern MomentPart := char Char.isDigit
  group name (seq digit (if least = 2 then digit else opt digit))

/-- A day, perhaps with a time. -/
def momentForm : Pattern MomentPart :=
  let digit : Pattern MomentPart := char Char.isDigit
  let is (c : Char) : Pattern MomentPart := char (· == c)
  let blank : Char → Bool := fun c => c == ' ' || c == '\t'
  let offset : Pattern MomentPart :=
    chain [group .sign (char Tag.isSign), twoDigits .offsetHour 1,
      opt (seq (is ':') (twoDigits .offsetMinute 2))]
  let zone : Pattern MomentPart := seq (chars blank) (alt (group .universal (is 'Z')) offset)
  let time : Pattern MomentPart :=
    chain [alt (char fun c => c == 'T' || c == 't') (chars1 blank), twoDigits .hour 1, is ':',
      twoDigits .minute 2, is ':', twoDigits .second 2,
      opt (seq (is '.') (group .fraction (chars Char.isDigit))), opt zone]
  chain [group .year (chain (List.replicate 4 digit)), is '-', twoDigits .month 1, is '-',
    twoDigits .day 1, opt time]

/-- Millionths of a second from the digits of a fraction, of which the first six count. -/
def microOf (digits : List Char) : Nat :=
  let kept := digits.take 6
  (Decimal.ofDigitsIn? 10 (kept ++ List.replicate (6 - kept.length) '0')).getD 0

/-- The moment of a match. -/
def momentOf (m : Match MomentPart) : Moment :=
  let get (p : MomentPart) : Nat := (Decimal.ofDigitsIn? 10 (m.groupD p)).getD 0
  let offset : Option Int :=
    match m.group? .sign with
    | some sign =>
      some (Decimal.signed (sign == ['-']) (get .offsetHour * 60 + get .offsetMinute))
    | none => (m.group? .universal).map fun _ => 0
  { year := get .year
    month := get .month
    day := get .day
    clock := (m.group? .hour).map fun _ =>
      ⟨get .hour, get .minute, get .second, microOf (m.groupD .fraction), offset⟩ }

/-- Reads a moment, which has to be in the calendar. -/
def readMoment (s : List Char) : Except DocTags.Fault Moment :=
  match Tag.formMatch? momentForm s with
  | none => .error .noSuchOperation
  | some m => if (momentOf m).isValid then .ok (momentOf m) else .error .notANumber

/-- The truth value that a word stands for. -/
def readTruth (s : List Char) : Except DocTags.Fault Bool :=
  match Tag.truthWords.lookup (String.ofList (s.map Char.toLower)) with
  | some b => .ok b
  | none => .error (.unknownWord (String.ofList s))

/-- Reads bytes. -/
def readBytes (s : List Char) : Except Fault (List UInt8) :=
  if s.any fun c => 128 ≤ c.toNat then .error .malformed
  else
    match Base64.decode? s with
    | some bs => .ok bs
    | none => .error .malformed

/-- The value of a scalar of some kind. -/
def value (tag : Tag) (s : List Char) : Except Fault Datum :=
  match tag with
  | .null => .ok .null
  | .truth => ((readTruth s).map .bool).mapError .unfit
  | .int => ((readInt s).map .int).mapError .unfit
  | .real => ((readReal s).map .real).mapError .unfit
  | .text => .ok (.text (String.ofList s))
  | .time => ((readMoment s).map .moment).mapError .unfit
  | .bytes => (readBytes s).map (.bytes false)
  | .merge | .default | .sign | .sequence | .mapping | .set | .pairs | .other _ =>
    .error .malformed

end Scalar

end DocTags.Yaml
