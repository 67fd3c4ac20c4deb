import DocTags.Yaml.Node

/-!
# Merge keys

The value of a merge key brings entries into its mapping, in front of the mapping's own: those of a
mapping, or those of several mappings, of which the first counts most and so comes last. A mapping
is changed in its place in the table, so all that refer to it see it without its merge keys.
-/

namespace DocTags.Yaml.Document

/-- The kind of the node with a number. -/
def tagOf (nodes : Array Node) (number : Nat) : Tag :=
  nodes[number]!.tag

/-- The entries of a node that is a mapping. -/
def entriesOf? (nodes : Array Node) (number : Nat) : Option (List (Nat × Nat)) :=
  match nodes[number]? with
  | some (.mapping _ es) => some es
  | _ => none

/-- Gives a mapping other entries. -/
def setEntries (nodes : Array Node) (number : Nat) (entries : List (Nat × Nat)) : Array Node :=
  nodes.modify number fun
    | .mapping tag _ => .mapping tag entries
    | node => node

/-- Makes the key of a default value a text like any other. -/
def plainKey (nodes : Array Node) (number : Nat) : Array Node :=
  nodes.modify number fun
    | .scalar .default text => .scalar .text text
    | .sequence .default items => .sequence .text items
    | .mapping .default entries => .mapping .text entries
    | node => node

/-- The key of an entry asks for a merge. -/
def isMerge (nodes : Array Node) (entry : Nat × Nat) : Bool :=
  tagOf nodes entry.1 == .merge

/-- The number of merge keys in a table. -/
def mergeCount (nodes : Array Node) : Nat :=
  nodes.foldl
    (fun count node =>
      match node with
      | .mapping _ es => count + es.countP (isMerge nodes)
      | _ => count)
    0

/-- The entries that the value of a merge key brings, each mapping changed by `flatten` first. -/
def broughtBy (flatten : Array Node → Nat → Except Fault (Array Node)) (nodes : Array Node)
    (number : Nat) : Except Fault (List (Nat × Nat) × Array Node) :=
  let bring (nodes : Array Node) (number : Nat) : Except Fault (List (Nat × Nat) × Array Node) := do
    if (entriesOf? nodes number).isNone then .error .malformed
    else
      let nodes ← flatten nodes number
      return ((entriesOf? nodes number).getD [], nodes)
  match nodes[number]? with
  | some (.sequence _ items) =>
    items.foldlM
      (fun acc item => do
        let (entries, nodes) ← bring acc.2 item
        return (entries ++ acc.1, nodes))
      ([], nodes)
  | _ => bring nodes number

/-- Takes the merge keys out of a mapping one by one and puts the entries that they bring in front
of the others. There are at most `count` merge keys left in the table. -/
def flattenFrom : Nat → List (Nat × Nat) → Array Node → Nat → Except Fault (Array Node)
  | count, brought, nodes, number =>
    let entries := (entriesOf? nodes number).getD []
    match count, entries.find? (isMerge nodes) with
    | count + 1, some merge => do
      let nodes := setEntries nodes number (entries.erase merge)
      let (more, nodes) ← broughtBy (flattenFrom count []) nodes merge.2
      flattenFrom count (brought ++ more) nodes number
    | _, _ =>
      let nodes := entries.foldl (fun nodes e => plainKey nodes e.1) nodes
      .ok (setEntries nodes number (brought ++ entries))

/-- Takes the merge keys out of a mapping. -/
def flatten (nodes : Array Node) (number : Nat) : Except Fault (Array Node) :=
  let isFlat := !((entriesOf? nodes number).getD []).any (isMerge nodes)
  flattenFrom (if isFlat then 0 else mergeCount nodes) [] nodes number

end DocTags.Yaml.Document
