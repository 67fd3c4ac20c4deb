/-!
# Base64

Four characters of the alphabet stand for three bytes. Characters outside the alphabet are skipped.
A last group of two or three characters is filled up to four with equals signs, after which nothing
counts; equals signs that fill no group are skipped.
-/

namespace DocTags.Base64

/-- The six bits that a character of the alphabet stands for. -/
def sextet? (c : Char) : Option Nat :=
  if 'A' ≤ c ∧ c ≤ 'Z' then some (c.toNat - 65)
  else if 'a' ≤ c ∧ c ≤ 'z' then some (c.toNat - 71)
  else if '0' ≤ c ∧ c ≤ '9' then some (c.toNat + 4)
  else if c = '+' then some 62
  else if c = '/' then some 63
  else none

/-- The bytes of a group of up to four sextets. -/
def groupBytes : List Nat → List UInt8
  | a :: b :: r =>
    UInt8.ofNat (a * 4 + b / 16) ::
      match r with
      | [] => []
      | c :: r =>
        UInt8.ofNat (b * 16 + c / 4) ::
          match r with
          | [] => []
          | d :: _ => [UInt8.ofNat (c * 64 + d)]
  | _ => []

/-- The bytes of the characters after the sextets of an open group and the signs that fill it. -/
def decodeFrom (group : List Nat) (fills : Nat) : List Char → Option (List UInt8)
  | [] => if group.isEmpty then some [] else none
  | c :: s =>
    if c = '=' then
      if group.length < 2 then decodeFrom group fills s
      else if group.length + fills + 1 < 4 then decodeFrom group (fills + 1) s
      else some (groupBytes group)
    else
      match sextet? c with
      | none => decodeFrom group fills s
      | some v =>
        if group.length < 3 then decodeFrom (group ++ [v]) 0 s
        else (decodeFrom [] 0 s).map (groupBytes (group ++ [v]) ++ ·)

/-- The bytes that a text stands for; none if its last group is not filled. -/
def decode? (s : List Char) : Option (List UInt8) :=
  decodeFrom [] 0 s

end DocTags.Base64
