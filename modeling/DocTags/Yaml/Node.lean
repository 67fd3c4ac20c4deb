import DocTags.Yaml.Layout
import DocTags.Yaml.Tag

/-!
# YAML documents

A document is a table of nodes: scalars, sequences and mappings, each with its kind. Collections
refer to their parts by number, and so does a reference to an anchor, which may stand inside the
collection that it refers to.
-/

namespace DocTags.Yaml

/-- A node of a document. -/
inductive Node where
  | scalar (tag : Tag) (text : List Char)
  | sequence (tag : Tag) (items : List Nat)
  | mapping (tag : Tag) (entries : List (Nat × Nat))
  deriving DecidableEq, Repr

/-- The nodes of a document, and the number of the node that it consists of. -/
structure Document where
  nodes : Array Node
  root : Nat

namespace Node

/-- A node that is left out. -/
def blank : Node :=
  scalar .null []

instance : Inhabited Node := ⟨blank⟩

/-- The kind of a node. -/
def tag : Node → Tag
  | scalar t _ | sequence t _ | mapping t _ => t

/-- The tokens that have not been read, and what is known by now. -/
structure Source where
  tokens : List Token
  nodes : Array Node := #[]
  /-- The numbers of the nodes with anchors. -/
  anchors : List (String × Nat) := []
  /-- What the handles of tags stand for. -/
  handles : List (String × String) := []
  /-- How many more collections may be opened inside one another. -/
  depth : Nat := Layout.maxDepth

namespace Source

/-- The handles that every document knows. -/
def defaultHandles : List (String × String) :=
  [("!", "!"), ("!!", Tag.namespaceOfTags)]

/-- The source after its first token. -/
def rest (s : Source) : Source :=
  { s with tokens := s.tokens.drop 1 }

/-- The next token is one of the given ones. -/
def sees (s : Source) (ts : List Token) : Bool :=
  match s.tokens with
  | t :: _ => ts.contains t
  | [] => false

/-- The fault of a text that does not go on as it should. -/
def stuck {α : Type} (s : Source) : Except Fault α :=
  match s.tokens with
  | .broken e :: _ => .error e
  | _ => .error .malformed

/-- Takes a token that has to come next. -/
def take (s : Source) (t : Token) : Except Fault Source :=
  if s.tokens.head? = some t then .ok s.rest else s.stuck

/-- Adds a node, whose number comes with it. -/
def add (s : Source) (node : Node) : Nat × Source :=
  (s.nodes.size, { s with nodes := s.nodes.push node })

/-- Puts a node in the place of the one with the given number. -/
def put (s : Source) (number : Nat) (node : Node) : Source :=
  { s with nodes := s.nodes.setIfInBounds number node }

/-- Reads what is inside a collection. -/
def inside {α : Type} (s : Source) (read : Source → Except Fault (α × Source)) :
    Except Fault (α × Source) :=
  let depth := s.depth
  if depth = 0 then .error (.unfit .tooDeep)
  else (read { s with depth := depth - 1 }).map fun (a, s) => (a, { s with depth })

/-- The full name of a tag; none for the tag without a meaning of its own. -/
def tagName? (s : Source) (name : TagName) : Except Fault (Option String) :=
  match name.handle with
  | none => .ok (if name.suffix = "!" then none else some name.suffix)
  | some handle =>
    match s.handles.lookup handle with
    | some content => .ok (some (content ++ name.suffix))
    | none => .error .malformed

/-- Gives an anchor, whose name has to be new, to the node with the given number. -/
def setAnchor (s : Source) (anchor : Option String) (number : Nat) : Except Fault Source :=
  match anchor with
  | none => .ok s
  | some name =>
    if (s.anchors.lookup name).isSome then .error .malformed
    else .ok { s with anchors := (name, number) :: s.anchors }

end Source

/-- What may stand before a node: an anchor and a tag. -/
structure Properties where
  anchor : Option String := none
  /-- The tag; the inner none is the tag without a meaning of its own. -/
  tag : Option (Option String) := none

namespace Properties

/-- Reads an anchor and a tag in any order. -/
def read (s : Source) : Except Fault (Properties × Source) := do
  match s.tokens with
  | .anchor a :: .tag t :: _ => return (⟨some a, some (← s.tagName? t)⟩, s.rest.rest)
  | .tag t :: .anchor a :: _ => return (⟨some a, some (← s.tagName? t)⟩, s.rest.rest)
  | .anchor a :: _ => return (⟨some a, none⟩, s.rest)
  | .tag t :: _ => return (⟨none, some (← s.tagName? t)⟩, s.rest)
  | _ => return ({}, s)

/-- There is an anchor or a tag. -/
def isPresent (p : Properties) : Bool :=
  p.anchor.isSome || p.tag.isSome

/-- The kind that the tag asks for, else the given one. -/
def tagOr (p : Properties) (kind : Tag) : Tag :=
  match p.tag with
  | some (some name) => Tag.ofName name
  | _ => kind

/-- The kind of a scalar. The tag without a meaning of its own makes quotes count for nothing. -/
def scalarTag (p : Properties) (plain : Bool) (text : List Char) : Tag :=
  match p.tag with
  | some (some name) => Tag.ofName name
  | some none => Tag.ofPlain text
  | none => if plain then Tag.ofPlain text else .text

end Properties

/-- Where a node stands: inside a flow collection, in a block, or in a block where items may stand
at the column of their key. -/
inductive Place where
  | flow
  | block
  | besideKey
  deriving DecidableEq, Repr

mutual

/-- Reads a node. Its number is known before its content is read. -/
def readNode (place : Place) : Nat → Source → Except Fault (Nat × Source)
  | 0, s => s.stuck
  | n + 1, s =>
    match s.tokens with
    | .reference name :: _ =>
      match s.anchors.lookup name with
      | some number => .ok (number, s.rest)
      | none => .error .malformed
    | _ => do
      let (p, s) ← Properties.read s
      let (number, s) := s.add blank
      let s ← s.setAnchor p.anchor number
      let (node, s) ← readContent place p n s
      return (number, s.put number node)

/-- Reads a node after its anchor and its tag. -/
def readContent (place : Place) (p : Properties) : Nat → Source → Except Fault (Node × Source)
  | 0, s => s.stuck
  | n + 1, s =>
    match s.tokens, place with
    | .item :: _, .besideKey => do
      let (xs, s) ← s.inside (readLooseItems n)
      return (.sequence (p.tagOr .sequence) xs, s)
    | .scalar plain text :: _, _ => .ok (.scalar (p.scalarTag plain text) text, s.rest)
    | .flowSequence :: _, _ => do
      let (xs, s) ← s.rest.inside (readFlowItems true n)
      return (.sequence (p.tagOr .sequence) xs, s)
    | .flowMapping :: _, _ => do
      let (es, s) ← s.rest.inside (readFlowEntries true n)
      return (.mapping (p.tagOr .mapping) es, s)
    | .blockSequence :: _, .block | .blockSequence :: _, .besideKey => do
      let (xs, s) ← s.rest.inside (readItems n)
      return (.sequence (p.tagOr .sequence) xs, s)
    | .blockMapping :: _, .block | .blockMapping :: _, .besideKey => do
      let (es, s) ← s.rest.inside (readEntries n)
      return (.mapping (p.tagOr .mapping) es, s)
    | _, _ =>
      if p.isPresent then .ok (.scalar (p.scalarTag true []) [], s) else s.stuck

/-- Reads a node, unless one of the given tokens says that it is left out. -/
def readUnless (ends : List Token) (place : Place) : Nat → Source → Except Fault (Nat × Source)
  | 0, s => s.stuck
  | n + 1, s => if s.sees ends then .ok (s.add blank) else readNode place n s

/-- Reads the items of a block up to its end. -/
def readItems : Nat → Source → Except Fault (List Nat × Source)
  | 0, s => s.stuck
  | n + 1, s =>
    match s.tokens with
    | .item :: _ => do
      let (x, s) ← readUnless [.item, .blockEnd] .block n s.rest
      let (xs, s) ← readItems n s
      return (x :: xs, s)
    | _ => do return ([], ← s.take .blockEnd)

/-- Reads items that stand at the column of their key. -/
def readLooseItems : Nat → Source → Except Fault (List Nat × Source)
  | 0, s => s.stuck
  | n + 1, s =>
    match s.tokens with
    | .item :: _ => do
      let (x, s) ← readUnless [.item, .key, .value, .blockEnd] .block n s.rest
      let (xs, s) ← readLooseItems n s
      return (x :: xs, s)
    | _ => .ok ([], s)

/-- Reads the entries of a block up to its end. -/
def readEntries : Nat → Source → Except Fault (List (Nat × Nat) × Source)
  | 0, s => s.stuck
  | n + 1, s =>
    match s.tokens with
    | .key :: _ => do
      let (k, s) ← readUnless [.key, .value, .blockEnd] .besideKey n s.rest
      let (v, s) ← readValue [.key, .value, .blockEnd] .besideKey n s
      let (es, s) ← readEntries n s
      return ((k, v) :: es, s)
    | _ => do return ([], ← s.take .blockEnd)

/-- Reads the value after a key; without a colon it is left out. -/
def readValue (ends : List Token) (place : Place) : Nat → Source → Except Fault (Nat × Source)
  | 0, s => s.stuck
  | n + 1, s =>
    match s.tokens with
    | .value :: _ => readUnless ends place n s.rest
    | _ => .ok (s.add blank)

/-- Reads the entry that stands as an item of a flow sequence. -/
def readPair : Nat → Source → Except Fault (List (Nat × Nat) × Source)
  | 0, s => s.stuck
  | n + 1, s => do
    let (k, s) ← readUnless [.value, .comma, .flowSequenceEnd] .flow n s
    let (v, s) ← readValue [.comma, .flowSequenceEnd] .flow n s
    return ([(k, v)], s)

/-- Reads the items of a flow sequence up to its end. A key makes an item a mapping of one entry. -/
def readFlowItems (first : Bool) : Nat → Source → Except Fault (List Nat × Source)
  | 0, s => s.stuck
  | n + 1, s =>
    if s.sees [.flowSequenceEnd] then .ok ([], s.rest)
    else do
      let s ← if first then pure s else s.take .comma
      match s.tokens with
      | .flowSequenceEnd :: _ => return ([], s.rest)
      | .key :: _ =>
        let (number, s) := s.add blank
        let (es, s) ← s.rest.inside (readPair n)
        let (xs, s) ← readFlowItems false n (s.put number (.mapping .mapping es))
        return (number :: xs, s)
      | _ =>
        let (x, s) ← readNode .flow n s
        let (xs, s) ← readFlowItems false n s
        return (x :: xs, s)

/-- Reads the entries of a flow mapping up to its end. -/
def readFlowEntries (first : Bool) : Nat → Source → Except Fault (List (Nat × Nat) × Source)
  | 0, s => s.stuck
  | n + 1, s =>
    if s.sees [.flowMappingEnd] then .ok ([], s.rest)
    else do
      let s ← if first then pure s else s.take .comma
      match s.tokens with
      | .flowMappingEnd :: _ => return ([], s.rest)
      | .key :: _ =>
        let (k, s) ← readUnless [.value, .comma, .flowMappingEnd] .flow n s.rest
        let (v, s) ← readValue [.comma, .flowMappingEnd] .flow n s
        let (es, s) ← readFlowEntries false n s
        return ((k, v) :: es, s)
      | _ =>
        let (k, s) ← readNode .flow n s
        let (v, s) := s.add blank
        let (es, s) ← readFlowEntries false n s
        return ((k, v) :: es, s)

end

end Node

namespace Document

open Node

/-- Reads the directives before a document. -/
def readDirectives (versionSeen : Bool) (handles : List (String × String)) :
    List Token → Except Fault (List (String × String) × List Token)
  | .version major :: ts =>
    if versionSeen || major != 1 then .error .malformed else readDirectives true handles ts
  | .shorthand name content :: ts =>
    if (handles.lookup name).isSome then .error .malformed
    else readDirectives versionSeen ((name, content) :: handles) ts
  | .directive :: ts => readDirectives versionSeen handles ts
  | ts => .ok (handles, ts)

/-- Nothing but ends of documents follows. -/
def ended : List Token → Except Fault Unit
  | [] => .ok ()
  | .documentEnd :: ts => ended ts
  | .broken e :: _ => .error e
  | _ => .error .malformed

/-- Reads a document that holds a node. -/
def readBody (s : Source) : Except Fault Document := do
  let (root, s) ← readNode .block (6 * s.tokens.length + 6) s
  ended s.tokens
  return ⟨s.nodes, root⟩

/-- The document of a text of one document; none for a text without one. -/
def ofTokens? (ts : List Token) : Except Fault (Option Document) :=
  match ts with
  | [] => .ok none
  | .version _ :: _ | .shorthand .. :: _ | .directive :: _ | .documentStart :: _ => do
    let (handles, ts) ← readDirectives false [] ts
    let s ← ({ tokens := ts } : Source).take .documentStart
    match s.tokens with
    | [] | .documentEnd :: _ =>
      ended s.tokens
      return some ⟨#[blank], 0⟩
    | _ => return some (← readBody { s with handles := handles ++ Source.defaultHandles })
  | ts => do return some (← readBody { tokens := ts, handles := Source.defaultHandles })

end Document

end DocTags.Yaml
