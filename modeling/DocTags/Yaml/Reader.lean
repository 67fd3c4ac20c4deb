import DocTags.Datum.Knot
import DocTags.Datum.SetOrder
import DocTags.Yaml.Merge
import DocTags.Yaml.Scalar

/-!
# Reading YAML documents

The value of a document. Scalars have values at once. A collection is at first a container without
parts; the parts are found when its turn comes, level by level, so that a collection may hold itself
and the first fault of a document is the one that is met first in this order.
-/

namespace DocTags.Yaml

/-- The values of a document's nodes as far as they are known. -/
structure Construction where
  nodes : Array Node
  values : Array (Option Datum)
  /-- The collections in the order in which they were met. -/
  met : Array Nat := #[]
  /-- The containers with their parts, the latest first. -/
  containers : List (Nat × Datum) := []
  /-- The number of the next container that is no node. -/
  spare : Nat

namespace Construction

/-- The start of a construction. -/
def start (nodes : Array Node) : Construction :=
  { nodes, values := Array.replicate nodes.size none, spare := nodes.size }

/-- The text of a scalar. A mapping stands for its default value, which may be a mapping in turn;
`fuel` is more than there are nodes, so no text is found if and only if there is no end to it. -/
def scalarText (nodes : Array Node) : Nat → Nat → Except Fault (List Char)
  | 0, _ => .error (.unfit .tooDeep)
  | fuel + 1, number =>
    match nodes[number]? with
    | some (.scalar _ text) => .ok text
    | some (.mapping _ es) =>
      match es.find? fun e => Document.tagOf nodes e.1 == .default with
      | some e => scalarText nodes fuel e.2
      | none => .error .malformed
    | _ => .error .malformed

/-- The text of the scalar with a number. -/
def textOf (c : Construction) (number : Nat) : Except Fault (List Char) :=
  scalarText c.nodes (c.nodes.size + 1) number

/-- The value of a scalar with a kind. A moment has to be a scalar itself. -/
def scalarValue (c : Construction) (tag : Tag) (number : Nat) : Except Fault Datum := do
  let text ← c.textOf number
  match tag, c.nodes[number]? with
  | .time, some (.mapping ..) => .error (.unfit .wrongType)
  | _, _ => Scalar.value tag text

/-- The kinds of nodes that become containers. -/
def isContainer (tag : Tag) : Bool :=
  [.sequence, .mapping, .set, .pairs].contains tag

/-- Gives a node a value. -/
def know (c : Construction) (number : Nat) (value : Datum) : Construction :=
  { c with values := c.values.setIfInBounds number (some value) }

/-- The value of a node as a part. -/
def visit (c : Construction) (number : Nat) : Except Fault (Datum × Construction) :=
  match c.values[number]?.join with
  | some value => .ok (value, c)
  | none =>
    let tag := Document.tagOf c.nodes number
    if isContainer tag then
      let c := c.know number (.again number)
      .ok (.again number, { c with met := c.met.push number })
    else do
      let value ← c.scalarValue tag number
      return (value, c.know number value)

/-- A key of a mapping, with the number of its node. -/
structure Key where
  number : Nat
  value : Datum

/-- Two keys are the same: by their values, or as one and the same word for no number. -/
def sameKey (c : Construction) (k l : Key) : Bool :=
  let isWord (number : Nat) : Bool :=
    (c.textOf number).toOption.any Scalar.isNotANumberWord
  match k.value, l.value with
  | .real .notANumber, .real .notANumber =>
    k.number == l.number || (isWord k.number && isWord l.number)
  | _, _ => Datum.sameKey k.value l.value

/-- Puts a value under a key, in the place of an old one. -/
def insert (c : Construction) (key : Key) (value : Datum) :
    List (Key × Datum) → List (Key × Datum)
  | [] => [(key, value)]
  | e :: es => if c.sameKey e.1 key then (e.1, value) :: es else e :: c.insert key value es

/-- The entries of a mapping, each key before its value. Containers are no keys. -/
def visitEntries (c : Construction) (entries : List (Nat × Nat)) :
    Except Fault (List (Key × Datum) × Construction) :=
  entries.foldlM
    (fun acc e => do
      let (key, c) ← acc.2.visit e.1
      if key.isAgain then .error .malformed
      else
        let (value, c) ← c.visit e.2
        return (c.insert ⟨e.1, key⟩ value acc.1, c))
    ([], c)

/-- The entries of a node that has to be a mapping, without merge keys. -/
def mappingEntries (c : Construction) (number : Nat) :
    Except Fault (List (Key × Datum) × Construction) := do
  if (Document.entriesOf? c.nodes number).isNone then .error .malformed
  else
    let nodes ← Document.flatten c.nodes number
    visitEntries { c with nodes } ((Document.entriesOf? nodes number).getD [])

/-- The items of a node that has to be a sequence. -/
def items (c : Construction) (number : Nat) : Except Fault (List Nat) :=
  match c.nodes[number]? with
  | some (.sequence _ xs) => .ok xs
  | _ => .error .malformed

/-- The values of items. -/
def visitItems (c : Construction) (items : List Nat) :
    Except Fault (List Datum × Construction) := do
  let (values, c) ← items.foldlM
    (fun acc item => do
      let (value, c) ← acc.2.visit item
      return (value :: acc.1, c))
    ([], c)
  return (values.reverse, c)

/-- Adds a container. -/
def contain (c : Construction) (number : Nat) (value : Datum) : Construction :=
  { c with containers := (number, value) :: c.containers }

/-- The pair of the one entry of a mapping. It is a container of its own. -/
def visitPair (c : Construction) (number : Nat) : Except Fault (Datum × Construction) :=
  match Document.entriesOf? c.nodes number with
  | some [e] => do
    let (key, c) ← c.visit e.1
    let (value, c) ← c.visit e.2
    return (.again c.spare,
      { c.contain c.spare (.tuple [key, value]) with spare := c.spare + 1 })
  | _ => .error .malformed

/-- The pairs of items that have to be mappings. -/
def visitPairs (c : Construction) (items : List Nat) :
    Except Fault (List Datum × Construction) := do
  let (pairs, c) ← items.foldlM
    (fun acc item => do
      let (pair, c) ← acc.2.visitPair item
      return (pair :: acc.1, c))
    ([], c)
  return (pairs.reverse, c)

/-- Finds the parts of a collection. -/
def fill (c : Construction) (number : Nat) : Except Fault Construction :=
  match Document.tagOf c.nodes number with
  | .mapping => do
    let (es, c) ← c.mappingEntries number
    return c.contain number (.map (es.map fun e => (e.1.value, e.2)))
  | .set => do
    let (es, c) ← c.mappingEntries number
    return c.contain number (.set (SetOrder.sort (es.map (·.1.value))))
  | .pairs => do
    let (pairs, c) ← c.visitPairs (← c.items number)
    return c.contain number (.list pairs)
  | _ => do
    let (values, c) ← c.visitItems (← c.items number)
    return c.contain number (.list values)

/-- Finds the parts of all collections from the one with the given place on. Each is met once, so
`fuel` need not be more than there are nodes. -/
def fillFrom (place : Nat) : Nat → Construction → Except Fault Construction
  | 0, c => .ok c
  | fuel + 1, c =>
    match c.met[place]? with
    | none => .ok c
    | some number => do fillFrom (place + 1) fuel (← c.fill number)

end Construction

/-- The value of a document. -/
def Document.toDatum (d : Document) : Except Fault Datum := do
  let (root, c) ← (Construction.start d.nodes).visit d.root
  let c ← c.fillFrom 0 (d.nodes.size + 1)
  return Datum.ofContainers c.containers.reverse root

/-- Reads a document. A text without one is null. -/
def read (s : List Char) : Except Fault Datum := do
  if !s.all isAllowed then .error .malformed
  else
    match ← Document.ofTokens? (Token.ofText s) with
    | none => return .null
    | some d => d.toDatum

end DocTags.Yaml
