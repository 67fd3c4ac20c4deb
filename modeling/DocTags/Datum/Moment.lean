import DocTags.Decimal.Basic

/-!
# Days and times

A moment is a day of the calendar, or a day with a time of the day. A time may say how far it is
ahead of universal time; two such moments are the same if they are the same instant.
-/

namespace DocTags

/-- A time of the day. -/
structure Clock where
  hour : Nat
  minute : Nat
  second : Nat
  /-- Millionths of a second. -/
  micro : Nat
  /-- Minutes ahead of universal time, if they are known. -/
  offset : Option Int
  deriving DecidableEq, Repr

/-- A day, perhaps with a time. -/
structure Moment where
  year : Nat
  month : Nat
  day : Nat
  clock : Option Clock
  deriving DecidableEq, Repr

namespace Moment

/-- The year has a leap day. -/
def isLeap (year : Nat) : Bool :=
  year % 4 == 0 && (year % 100 != 0 || year % 400 == 0)

/-- The days of a month. -/
def daysIn (year month : Nat) : Nat :=
  if month = 2 then if isLeap year then 29 else 28
  else if [4, 6, 9, 11].contains month then 30
  else 31

/-- The minutes of a day. -/
def dayMinutes : Nat := 1440

/-- The day is in the calendar, whose years have up to four digits, and the time within a day. -/
def isValid (m : Moment) : Bool :=
  1 ≤ m.year && m.year ≤ 9999 && 1 ≤ m.month && m.month ≤ 12
    && 1 ≤ m.day && m.day ≤ daysIn m.year m.month
    && m.clock.all fun c =>
      c.hour < 24 && c.minute < 60 && c.second < 60
        && c.offset.all fun o => o.natAbs < dayMinutes

/-- The days before a year and a month. -/
def daysBefore (year month : Nat) : Nat :=
  let past := year - 1
  past * 365 + past / 4 - past / 100 + past / 400
    + (List.range (month - 1)).foldl (fun days m => days + daysIn year (m + 1)) 0

/-- The minutes of a moment in universal time. -/
def instant (m : Moment) (c : Clock) (offset : Int) : Int :=
  ((daysBefore m.year m.month + m.day) * dayMinutes + c.hour * 60 + c.minute : Nat) - offset

/-- Two moments are the same: the same instant if both say how far they are ahead. -/
def same (m n : Moment) : Bool :=
  match m.clock, n.clock with
  | some c, some d =>
    match c.offset, d.offset with
    | some o, some p => m.instant c o == n.instant d p && c.second == d.second && c.micro == d.micro
    | _, _ => m == n
  | _, _ => m == n

/-- A number with zeros in front up to a width. -/
def padded (width n : Nat) : List Char :=
  let ds := Decimal.natText n
  List.replicate (width - ds.length) '0' ++ ds

/-- An offset as hours and minutes with a sign. -/
def offsetText (offset : Int) : List Char :=
  (if offset < 0 then '-' else '+') :: padded 2 (offset.natAbs / 60) ++ ':'
    :: padded 2 (offset.natAbs % 60)

/-- The text of a time. Millionths are left out if there are none. -/
def clockText (c : Clock) : List Char :=
  padded 2 c.hour ++ ':' :: padded 2 c.minute ++ ':' :: padded 2 c.second
    ++ (if c.micro = 0 then [] else '.' :: padded 6 c.micro)
    ++ (c.offset.map offsetText).getD []

/-- The text of a moment on its own. -/
def display (m : Moment) : List Char :=
  padded 4 m.year ++ '-' :: padded 2 m.month ++ '-' :: padded 2 m.day
    ++ (m.clock.map fun c => ' ' :: clockText c).getD []

/-- An offset as a value shows it: whole days, then seconds that are not negative. -/
def inspectOffset (offset : Int) : List Char :=
  if offset = 0 then "datetime.timezone.utc".toList
  else
    let seconds := Decimal.intText (offset % dayMinutes * 60)
    "datetime.timezone(datetime.timedelta(".toList
      ++ (if offset < 0 then "days=-1, ".toList else []) ++ "seconds=".toList ++ seconds
      ++ [')', ')']

/-- The text of a moment inside others: its numbers, the seconds only as far as they say anything.
-/
def inspect (m : Moment) : List Char :=
  let numbers (ns : List Nat) : List Char := List.intercalate [',', ' '] (ns.map Decimal.natText)
  let date := [m.year, m.month, m.day]
  match m.clock with
  | none => "datetime.date(".toList ++ numbers date ++ [')']
  | some c =>
    let seconds :=
      if c.micro ≠ 0 then [c.second, c.micro] else if c.second ≠ 0 then [c.second] else []
    "datetime.datetime(".toList ++ numbers (date ++ [c.hour, c.minute] ++ seconds)
      ++ (c.offset.map fun o => ", tzinfo=".toList ++ inspectOffset o).getD [] ++ [')']

end Moment

end DocTags
