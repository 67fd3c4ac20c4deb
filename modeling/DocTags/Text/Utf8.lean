import DocTags.Report.Problem

/-!
# Reading UTF-8

Bytes are read character by character. A fault names the bytes that do not fit: a byte that starts
no character, a character that breaks off at the end of the bytes, or a character whose next byte
does not continue it.
-/

namespace DocTags.Utf8

/-- A byte that continues a character. -/
def isContinuation (b : UInt8) : Bool :=
  0x80 ≤ b && b < 0xC0

/-- The low six bits of a byte. -/
def low (b : UInt8) : Nat :=
  b.toNat % 64

/-- The second byte of a character of three bytes fits the first. -/
def fitsThree (a b : UInt8) : Bool :=
  isContinuation b && !(a == 0xE0 && b < 0xA0) && !(a == 0xED && 0xA0 ≤ b)

/-- The second byte of a character of four bytes fits the first. -/
def fitsFour (a b : UInt8) : Bool :=
  isContinuation b && !(a == 0xF0 && b < 0x90) && !(a == 0xF4 && 0x90 ≤ b)

/-- A fault at the byte `a` in position `at`, over `length` bytes. -/
def fault (a : UInt8) (position length : Nat) (reason : String) : EncodingFault :=
  ⟨a, position, position + length, reason⟩

/-- A byte starts no character. -/
def badStart (a : UInt8) (position : Nat) : EncodingFault :=
  fault a position 1 "invalid start byte"

/-- A character breaks off. -/
def brokenOff (a : UInt8) (position length : Nat) : EncodingFault :=
  fault a position length "unexpected end of data"

/-- A character goes on for `length` bytes and then with a byte that does not fit. -/
def badContinuation (a : UInt8) (position length : Nat) : EncodingFault :=
  fault a position length "invalid continuation byte"

/-- Adds a character in front. -/
def push (n : Nat) (r : Except EncodingFault (List Char)) : Except EncodingFault (List Char) :=
  r.map (Char.ofNat n :: ·)

/-- The characters of the bytes from the given position on. -/
def decodeFrom (position : Nat) : List UInt8 → Except EncodingFault (List Char)
  | [] => .ok []
  | a :: r =>
    if a < 0x80 then push a.toNat (decodeFrom (position + 1) r)
    else if a < 0xC2 then .error (badStart a position)
    else if a < 0xE0 then
      match r with
      | [] => .error (brokenOff a position 1)
      | b :: r =>
        if isContinuation b then push (a.toNat % 32 * 64 + low b) (decodeFrom (position + 2) r)
        else .error (badContinuation a position 1)
    else if a < 0xF0 then
      match r with
      | [] => .error (brokenOff a position 1)
      | [b] =>
        if fitsThree a b then .error (brokenOff a position 2)
        else .error (badContinuation a position 1)
      | b :: c :: r =>
        if !fitsThree a b then .error (badContinuation a position 1)
        else if !isContinuation c then .error (badContinuation a position 2)
        else push ((a.toNat % 16 * 64 + low b) * 64 + low c) (decodeFrom (position + 3) r)
    else if a < 0xF5 then
      match r with
      | [] => .error (brokenOff a position 1)
      | [b] =>
        if fitsFour a b then .error (brokenOff a position 2)
        else .error (badContinuation a position 1)
      | [b, c] =>
        if !fitsFour a b then .error (badContinuation a position 1)
        else if !isContinuation c then .error (badContinuation a position 2)
        else .error (brokenOff a position 3)
      | b :: c :: d :: r =>
        if !fitsFour a b then .error (badContinuation a position 1)
        else if !isContinuation c then .error (badContinuation a position 2)
        else if !isContinuation d then .error (badContinuation a position 3)
        else
          push (((a.toNat % 8 * 64 + low b) * 64 + low c) * 64 + low d)
            (decodeFrom (position + 4) r)
    else .error (badStart a position)

/-- The characters of the bytes. -/
def decode (bytes : List UInt8) : Except EncodingFault (List Char) :=
  decodeFrom 0 bytes

end DocTags.Utf8
