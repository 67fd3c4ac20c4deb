import DocTags.Datum.Basic

/-!
# Reading JSON documents

A reader in one pass. A fault names what was expected where the text stops making sense. A number
with a point or an exponent is a binary number, any other a whole number.
-/

namespace DocTags.Json

/-- What a reader takes beyond lists and scalars, and how deep they may be nested. -/
structure Policy where
  objects : Bool
  nonFinite : Bool
  depth : Nat

namespace Policy

/-- Objects and the names of infinite numbers are taken. -/
def everything : Policy := ⟨true, true, 980⟩

/-- Lists and scalars alone, the lists no deeper than given. -/
def literals (depth : Nat) : Policy := ⟨false, false, depth⟩

/-- The policy inside a list or an object. -/
def inner (policy : Policy) : Policy :=
  { policy with depth := policy.depth - 1 }

end Policy

/-- Why a text is no JSON document. -/
inductive Fault where
  | expectingValue
  | expectingComma
  | expectingColon
  | expectingName
  | extraData
  | unterminatedText
  | controlCharacter
  | invalidEscape
  | invalidCodeEscape
  | objectLiteral
  | nonFiniteLiteral (name : String)
  | tooManyDigits (digits : Nat)
  /-- Lists and objects are nested too deep. -/
  | tooDeep
  deriving DecidableEq, Repr

/-- The wording of a fault. -/
def Fault.message : Fault → String
  | expectingValue => "Expecting value"
  | expectingComma => "Expecting ',' delimiter"
  | expectingColon => "Expecting ':' delimiter"
  | expectingName => "Expecting property name enclosed in double quotes"
  | extraData => "Extra data"
  | unterminatedText => "Unterminated string starting at"
  | controlCharacter => "Invalid control character at"
  | invalidEscape => "Invalid \\escape"
  | invalidCodeEscape => "Invalid \\uXXXX escape"
  | objectLiteral => "Object literals are not supported"
  | nonFiniteLiteral name => "Unsupported literal " ++ name
  | tooManyDigits digits =>
    "Exceeds the limit (" ++ toString Decimal.maxDigits
      ++ " digits) for integer string conversion: value has " ++ toString digits
      ++ " digits; use sys.set_int_max_str_digits() to increase the limit"
  | tooDeep => "Nested too deep"

/-- A blank between tokens. -/
def isSpace (c : Char) : Bool :=
  c == ' ' || c == '\t' || c == '\n' || c == '\r'

/-- Skips the blanks in front. -/
def skip (s : List Char) : List Char :=
  s.dropWhile isSpace

/-- The character that a letter after a backslash stands for. -/
def escaped? : Char → Option Char
  | '"' => some '"'
  | '\\' => some '\\'
  | '/' => some '/'
  | 'b' => some '\x08'
  | 'f' => some '\x0c'
  | 'n' => some '\n'
  | 'r' => some '\r'
  | 't' => some '\t'
  | _ => none

/-- The value of a hexadecimal digit. -/
def hexValue? (c : Char) : Option Nat :=
  if c.isDigit then some (c.toNat - 48)
  else if 'a' ≤ c ∧ c ≤ 'f' then some (c.toNat - 87)
  else if 'A' ≤ c ∧ c ≤ 'F' then some (c.toNat - 55)
  else none

/-- The value of four hexadecimal digits. -/
def hexCode? (a b c d : Char) : Option Nat := do
  return (((← hexValue? a) * 16 + (← hexValue? b)) * 16 + (← hexValue? c)) * 16 + (← hexValue? d)

/-- A text and what follows it, with a code point in front of the text. -/
def holding (n : Nat) (r : List Char × List Char) : List Char × List Char :=
  (Text.charsOf n ++ r.1, r.2)

/-- Reads the rest of a text up to its closing quote. -/
def readText : List Char → Except Fault (List Char × List Char)
  | [] => .error .unterminatedText
  | '"' :: s => .ok ([], s)
  | '\\' :: 'u' :: a :: b :: c :: d :: '\\' :: 'u' :: a' :: b' :: c' :: d' :: e :: s =>
    match hexCode? a b c d with
    | none => .error .invalidCodeEscape
    | some n =>
      if Text.isHigh n then
        match hexCode? a' b' c' d' with
        | none => .error .invalidCodeEscape
        | some m =>
          if Text.isLow m then (readText (e :: s)).map (holding (Text.joinPair n m))
          else (readText ('\\' :: 'u' :: a' :: b' :: c' :: d' :: e :: s)).map (holding n)
      else (readText ('\\' :: 'u' :: a' :: b' :: c' :: d' :: e :: s)).map (holding n)
  | '\\' :: 'u' :: a :: b :: c :: d :: e :: s =>
    match hexCode? a b c d with
    | none => .error .invalidCodeEscape
    | some n => (readText (e :: s)).map (holding n)
  | '\\' :: 'u' :: _ => .error .invalidCodeEscape
  | '\\' :: c :: s =>
    match escaped? c with
    | none => .error .invalidEscape
    | some a => (readText s).map fun r => (a :: r.1, r.2)
  | ['\\'] => .error .unterminatedText
  | c :: s =>
    if c.toNat < 0x20 then .error .controlCharacter
    else (readText s).map fun r => (c :: r.1, r.2)

/-- The leading digits and the rest. -/
def spanDigits (s : List Char) : List Nat × List Char :=
  ((s.takeWhile Char.isDigit).map fun c => c.toNat - 48, s.dropWhile Char.isDigit)

/-- The digits after a point, if there are any. -/
def readFraction? : List Char → Option (List Nat × List Char)
  | '.' :: s =>
    match spanDigits s with
    | ([], _) => none
    | r => some r
  | _ => none

/-- The exponent after its letter, if there is one. -/
def readExponent? : List Char → Option (Int × List Char)
  | e :: s =>
    if e = 'e' ∨ e = 'E' then
      let (negative, r) := Decimal.splitSign s
      match spanDigits r with
      | ([], _) => none
      | (ds, rest) => some (Decimal.signed negative (Decimal.ofDigits ds), rest)
    else none
  | [] => none

/-- Reads the digits in front of a point: a zero, or digits that do not start with one. -/
def readWhole? : List Char → Option (List Nat × List Char)
  | '0' :: s => some ([0], s)
  | s =>
    match spanDigits s with
    | ([], _) => none
    | r => some r

/-- Reads a number. -/
def readNumber (s : List Char) : Except Fault (Datum × List Char) :=
  let (negative, r) :=
    match s with
    | '-' :: r => (true, r)
    | _ => (false, s)
  match readWhole? r with
  | none => .error .expectingValue
  | some (whole, r) =>
    match readFraction? r, readExponent? r with
    | none, none =>
      match Decimal.readDigits whole with
      | .ok n => .ok (.int (Decimal.signed negative n), r)
      | .error _ => .error (.tooManyDigits whole.length)
    | none, some (e, r) =>
      .ok (.real (.ofDecimal negative ⟨Decimal.ofDigits whole, e⟩), r)
    | some (part, r), _ =>
      let (e, r) := (readExponent? r).getD (0, r)
      .ok (.real (.ofDecimal negative ⟨Decimal.ofDigits (whole ++ part), e - part.length⟩), r)

/-- A named number that is not finite, where such numbers are taken. -/
def nonFinite (policy : Policy) (name : String) (x : Binary64) (rest : List Char) :
    Except Fault (Datum × List Char) :=
  if policy.nonFinite then .ok (.real x, rest) else .error (.nonFiniteLiteral name)

mutual

/-- Reads one value. -/
def readValue (policy : Policy) : Nat → List Char → Except Fault (Datum × List Char)
  | 0, _ => .error .expectingValue
  | fuel + 1, s =>
    match s with
    | '"' :: r => (readText r).map fun (text, r) => (.text (String.ofList text), r)
    | '[' :: r =>
      if policy.depth = 0 then .error .tooDeep
      else
        match skip r with
        | ']' :: r => .ok (.list [], r)
        | r => (readItems policy.inner fuel r).map fun (xs, r) => (.list xs, r)
    | '\x7b' :: r =>
      if policy.depth = 0 then .error .tooDeep
      else
        match skip r with
        | '\x7d' :: r => if policy.objects then .ok (.map [], r) else .error .objectLiteral
        | r =>
          match readMembers policy.inner fuel r with
          | .error e => .error e
          | .ok (es, r) =>
            if policy.objects then .ok (.mapOf es, r) else .error .objectLiteral
    | 'n' :: 'u' :: 'l' :: 'l' :: r => .ok (.null, r)
    | 't' :: 'r' :: 'u' :: 'e' :: r => .ok (.bool true, r)
    | 'f' :: 'a' :: 'l' :: 's' :: 'e' :: r => .ok (.bool false, r)
    | 'N' :: 'a' :: 'N' :: r => nonFinite policy "NaN" .notANumber r
    | 'I' :: 'n' :: 'f' :: 'i' :: 'n' :: 'i' :: 't' :: 'y' :: r =>
      nonFinite policy "Infinity" (.infinite false) r
    | '-' :: 'I' :: 'n' :: 'f' :: 'i' :: 'n' :: 'i' :: 't' :: 'y' :: r =>
      nonFinite policy "-Infinity" (.infinite true) r
    | s => readNumber s

/-- Reads the items of a list, at least one, up to its closing bracket. -/
def readItems (policy : Policy) : Nat → List Char → Except Fault (List Datum × List Char)
  | 0, _ => .error .expectingValue
  | fuel + 1, s =>
    match readValue policy fuel s with
    | .error e => .error e
    | .ok (x, r) =>
      match skip r with
      | ']' :: r => .ok ([x], r)
      | ',' :: r => (readItems policy fuel (skip r)).map fun (xs, r) => (x :: xs, r)
      | _ => .error .expectingComma

/-- Reads the members of an object, at least one, up to its closing brace. -/
def readMembers (policy : Policy) :
    Nat → List Char → Except Fault (List (Datum × Datum) × List Char)
  | 0, _ => .error .expectingValue
  | fuel + 1, s =>
    match s with
    | '"' :: r =>
      match readText r with
      | .error e => .error e
      | .ok (name, r) =>
        match skip r with
        | ':' :: r =>
          match readValue policy fuel (skip r) with
          | .error e => .error e
          | .ok (x, r) =>
            match skip r with
            | '\x7d' :: r => .ok ([(.text (String.ofList name), x)], r)
            | ',' :: r =>
              (readMembers policy fuel (skip r)).map fun (es, r) =>
                ((.text (String.ofList name), x) :: es, r)
            | _ => .error .expectingComma
        | _ => .error .expectingColon
    | _ => .error .expectingName

end

/-- Reads a whole document with blanks around it. -/
def read (policy : Policy) (s : List Char) : Except Fault Datum :=
  match readValue policy (2 * s.length + 2) (skip s) with
  | .error e => .error e
  | .ok (x, r) => if (skip r).isEmpty then .ok x else .error .extraData

end DocTags.Json
