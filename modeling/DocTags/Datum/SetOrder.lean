import DocTags.Datum.Basic

/-!
# The order of a set of numbers

A set keeps its items in a table whose size is a power of two. An item is put at the place that its
hash has in the table, or at the next free one on its path; the items come in the order of their
places. The hash of a number is its remainder by a prime, the same for every form of the number.
-/

namespace DocTags.SetOrder

/-- The prime that hashes are remainders by. -/
def modulus : Nat := 2305843009213693951

/-- The bits of a hash. -/
def wordBits : Nat := 64

/-- The hash of a number of units of 2⁻¹⁰⁷⁴, as a word: 2⁻¹⁰⁷⁴ is 2²⁴ by the modulus. -/
def hashOfUnits (units : Int) : Nat :=
  let h := units.natAbs * Nat.pow 2 24 % modulus
  if 0 ≤ units then h
  else Nat.pow 2 wordBits - (if h = 1 then 2 else h)

/-- The hash of a number of either sign of infinity. -/
def hashOfInfinity (negative : Bool) : Nat :=
  if negative then Nat.pow 2 wordBits - 314159 else 314159

/-- The hash of a value that is a number. -/
def hash? (d : Datum) : Option Nat :=
  match d with
  | .real (.infinite negative) => some (hashOfInfinity negative)
  | _ => (Datum.keyUnits? d).map hashOfUnits

/-- The least power of two above a number, at least eight. -/
def tableSize (n : Nat) : Nat :=
  max 8 (Nat.pow 2 (n.log2 + 1))

/-- The places that are tried in a row from a place on. -/
def run (size start : Nat) : List Nat :=
  if start + 9 < size then (List.range 10).map (start + ·) else [start]

/-- The first free place on the path from a place on. -/
def freePlace (size : Nat) (taken : Nat → Bool) : Nat → Nat → Nat → Nat
  | 0, start, _ => start
  | fuel + 1, start, perturbation =>
    match (run size start).find? fun i => !taken i with
    | some i => i
    | none =>
      let perturbation := perturbation / 32
      freePlace size taken fuel ((start * 5 + 1 + perturbation) % size) perturbation

/-- Items with the places that they are put at, one after the other. -/
def place (size : Nat) (items : List (Nat × Datum)) : List (Nat × Datum) :=
  items.foldl
    (fun placed item =>
      let taken (i : Nat) : Bool := placed.any fun p => p.1 == i
      (freePlace size taken (size + wordBits) (item.1 % size) item.1, item.2) :: placed)
    []

/-- The items of a set in order. Items that are not all numbers keep the order they came in. -/
def sort (items : List Datum) : List Datum :=
  match items.mapM fun d => (hash? d).map (·, d) with
  | none => items
  | some hashed =>
    let size := if items.length < 5 then 8 else tableSize (2 * items.length)
    ((place size hashed).mergeSort fun a b => a.1 ≤ b.1).map (·.2)

end DocTags.SetOrder
