import DocTags.Datum.Basic

/-!
# Values that hold themselves

A table of containers, whose parts can stand for containers of the table, describes values that
share parts and may hold themselves. A container with no way back to itself is settled: it is a
value like any other. The rest stay in the table, and `opened` shows one of them with its parts.
-/

namespace DocTags.Datum

/-- The parts of a container; keys are never containers. -/
def parts : Datum → List Datum
  | list xs | tuple xs => xs
  | map es => es.map (·.2)
  | _ => []

/-- A container with its parts changed. -/
def mapParts (f : Datum → Datum) : Datum → Datum
  | list xs => list (xs.map f)
  | tuple xs => tuple (xs.map f)
  | map es => map (es.map fun e => (e.1, f e.2))
  | d => d

/-- The part stands for a container. -/
def isAgain : Datum → Bool
  | again _ => true
  | _ => false

/-- The value shows one of the containers in a table. -/
def isKnot : Datum → Bool
  | knot .. => true
  | _ => false

/-- A part with the settled container that it stands for, if it is settled. -/
def settledPart (settled : List (Nat × Datum)) : Datum → Datum
  | again number => (settled.lookup number).getD (again number)
  | d => d

/-- Settles the containers that hold nothing but settled ones and values; the second list is those
that are not settled yet. -/
def settleRound (settled waiting : List (Nat × Datum)) : List (Nat × Datum) × List (Nat × Datum) :=
  waiting.foldr
    (fun c acc =>
      let d := mapParts (settledPart acc.1) c.2
      if d.parts.any isAgain then (acc.1, (c.1, d) :: acc.2) else ((c.1, d) :: acc.1, acc.2))
    (settled, [])

/-- Settles containers until no more can be settled. -/
def settle : Nat → List (Nat × Datum) → List (Nat × Datum) → List (Nat × Datum) × List (Nat × Datum)
  | 0, settled, waiting => (settled, waiting)
  | rounds + 1, settled, waiting =>
    let (settled', waiting') := settleRound settled waiting
    if waiting'.length = waiting.length then (settled', waiting')
    else settle rounds settled' waiting'

/-- A part of a container as a value of its own. -/
def partOf (containers : List (Nat × Datum)) : Datum → Datum
  | again number => knot containers number
  | d => d

/-- The value that a part stands for in a table of containers. -/
def ofContainers (containers : List (Nat × Datum)) (root : Datum) : Datum :=
  let (settled, waiting) := settle containers.length [] containers
  partOf waiting (settledPart settled root)

/-- The value with its container in sight, whose parts are values of their own. -/
def opened : Datum → Datum
  | knot containers number =>
    mapParts (partOf containers) ((containers.lookup number).getD null)
  | d => d

mutual

/-- Some value inside the given one, or itself, has a property. -/
def holds (p : Datum → Bool) : Datum → Bool
  | list xs => p (list xs) || itemsHold p xs
  | tuple xs => p (tuple xs) || itemsHold p xs
  | set xs => p (set xs) || itemsHold p xs
  | map es => p (map es) || entriesHold p es
  | named name row => p (named name row) || holds p name || holds p row
  | d => p d

/-- Some item has a property or holds a value that does. -/
def itemsHold (p : Datum → Bool) : List Datum → Bool
  | [] => false
  | x :: xs => holds p x || itemsHold p xs

/-- Some key or value has a property or holds a value that does. -/
def entriesHold (p : Datum → Bool) : List (Datum × Datum) → Bool
  | [] => false
  | (k, v) :: es => holds p k || holds p v || entriesHold p es

end

end DocTags.Datum
