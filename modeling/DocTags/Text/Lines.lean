import DocTags.Text.Blank

/-!
# Lines and pieces of texts

Physical lines end at a line feed, a carriage return or both. The helpers below cut, count and
replace fixed pieces of text.
-/

namespace DocTags.Text

/-- Cuts a text at every character `sep`. -/
def splitAt (sep : Char) : List Char → List (List Char)
  | [] => [[]]
  | c :: s =>
    if c = sep then [] :: splitAt sep s
    else
      match splitAt sep s with
      | [] => [[c]]
      | w :: ws => (c :: w) :: ws

theorem splitAt_ne_nil (sep : Char) (s : List Char) : splitAt sep s ≠ [] := by
  cases s with
  | nil => simp [splitAt]
  | cons c s =>
    unfold splitAt
    split
    · simp
    · split <;> simp

/-- Writes every line end as a line feed. -/
def unifyLineEnds : List Char → List Char
  | [] => []
  | '\r' :: '\n' :: s => '\n' :: unifyLineEnds s
  | '\r' :: s => '\n' :: unifyLineEnds s
  | c :: s => c :: unifyLineEnds s

/-- The physical lines of a text. -/
def lines (s : List Char) : List (List Char) :=
  splitAt '\n' (unifyLineEnds s)

/-- Writes a lone line feed for a carriage return with a line feed. -/
def dropReturns : List Char → List Char
  | [] => []
  | '\r' :: '\n' :: s => '\n' :: dropReturns s
  | c :: s => c :: dropReturns s

/-- Joins texts with a separator between them. -/
def join (sep : List Char) (parts : List (List Char)) : List Char :=
  List.intercalate sep parts

/-- How often two colons stand in a text, counted from the left without overlap. -/
def countColonPairs : List Char → Nat
  | ':' :: ':' :: s => countColonPairs s + 1
  | _ :: s => countColonPairs s
  | [] => 0

/-- The text before and after the first two colons. -/
def cutAtColons? : List Char → Option (List Char × List Char)
  | ':' :: ':' :: s => some ([], s)
  | c :: s => (cutAtColons? s).map fun r => (c :: r.1, r.2)
  | [] => none

/-- The text before and after the last two colons. -/
def cutAtLastColons? (s : List Char) : Option (List Char × List Char) :=
  (cutAtColons? s.reverse).map fun r => (r.2.reverse, r.1.reverse)

/-- The text before and after the last character `sep`. -/
def cutAtLast? (sep : Char) : List Char → Option (List Char × List Char)
  | [] => none
  | c :: s =>
    match cutAtLast? sep s with
    | some r => some (c :: r.1, r.2)
    | none => if c = sep then some ([], s) else none

/-- Writes `new` for every `old`. -/
def replaceChar (old new : Char) (s : List Char) : List Char :=
  s.map fun c => if c = old then new else c

/-- The first three and the last two characters taken off. -/
def stripDelimiters (s : List Char) : List Char :=
  (s.take (s.length - 2)).drop 3

end DocTags.Text
