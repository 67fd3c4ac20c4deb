import DocTags.Datum.Moment
import DocTags.Decimal.Binary64
import DocTags.Text.Surrogate

/-!
# The values of provider rows and constants

Rows, constants, settings and reports all consist of data: scalars, sequences, mappings that keep
the order of their entries, and the few opaque things that a provider can hand out.
-/

namespace DocTags

/-- What went wrong when a provider or a constructor was called. -/
inductive ThrownKind where
  /-- The call did not fit what was called. -/
  | badCall
  /-- A file could not be used. -/
  | fileAccess (name : String)
  | other (name : String)
  deriving DecidableEq, Repr

/-- A fault thrown by a provider or a constructor. -/
structure Thrown where
  kind : ThrownKind
  text : String
  deriving DecidableEq, Repr

/-- The things of a module that are not data. -/
inductive Handle where
  | type
  | module
  | function
  deriving DecidableEq, Repr

/-- A value. -/
inductive Datum where
  | null
  | bool (b : Bool)
  | int (n : Int)
  | real (x : Binary64)
  | text (s : String)
  | moment (m : Moment)
  | list (items : List Datum)
  | tuple (items : List Datum)
  | set (items : List Datum)
  /-- Entries in the order in which their keys came first; the keys differ. -/
  | map (entries : List (Datum × Datum))
  | bytes (growable : Bool) (octets : List UInt8)
  /-- A row with the name of its data set. -/
  | named (name row : Datum)
  /-- Rows handed out one by one, perhaps up to a fault. -/
  | stream (rows : List Datum) (fault : Option Thrown)
  /-- A place for the name of the test that asks for the rows. -/
  | caller
  /-- An instance of a type, with no other features. -/
  | object (type : String)
  | handle (kind : Handle)
  /-- A value that holds itself: the container with the given number in a table of containers. -/
  | knot (containers : List (Nat × Datum)) (number : Nat)
  /-- A part of a container in such a table: the container with the given number. -/
  | again (number : Nat)

namespace Datum

instance : Inhabited Datum := ⟨null⟩

/-- The value is not null. -/
def isNull : Datum → Bool
  | null => true
  | _ => false

/-- A value that counts as a row of arguments: a mapping, a list or a tuple. -/
def isStructured : Datum → Bool
  | map _ | list _ | tuple _ | knot .. => true
  | _ => false

/-- A value that counts as present: not null, false, zero or empty. -/
def isTruthy : Datum → Bool
  | null => false
  | bool b => b
  | int n => n != 0
  | real x => !x.isZero
  | text s => !s.isEmpty
  | list xs | tuple xs | set xs => !xs.isEmpty
  | map es => !es.isEmpty
  | bytes _ bs => !bs.isEmpty
  | moment _ | named .. | stream .. | caller | object _ | handle _ | knot .. | again _ => true

/-- The name of a moment's type. -/
def momentType (m : Moment) : String :=
  if m.clock.isNone then "date" else "datetime"

/-- The name of the value's type. -/
def typeName : Datum → String
  | null | caller | again _ => "NoneType"
  | bool _ => "bool"
  | int _ => "int"
  | real _ => "float"
  | text _ => "str"
  | moment m => momentType m
  | list _ => "list"
  | tuple _ => "tuple"
  | set _ => "set"
  | map _ => "dict"
  | bytes growable _ => if growable then "bytearray" else "bytes"
  | named .. => "NamedRow"
  | stream .. => "generator"
  | object type => type
  | handle .type => "type"
  | handle .module => "module"
  | handle .function => "function"
  | knot containers number =>
    match containers.lookup number with
    | some (map _) => "dict"
    | some (tuple _) => "tuple"
    | _ => "list"

/-- The number that a scalar stands for as a key, in units of 2⁻¹⁰⁷⁴. -/
def keyUnits? : Datum → Option Int
  | bool b => some (b.toNat * Nat.pow 2 Binary64.unitBits : Nat)
  | int n => some (n * Nat.pow 2 Binary64.unitBits)
  | real (.finite negative m q) => some (Decimal.signed negative (m * Nat.pow 2 q))
  | _ => none

mutual

/-- Two keys of a mapping are the same: texts by their characters, numbers by their value. -/
def sameKey : Datum → Datum → Bool
  | null, null => true
  | text s, text t => s == t
  | moment m, moment n => m.same n
  | bytes _ bs, bytes _ cs => bs == cs
  | tuple xs, tuple ys => sameKeys xs ys
  | int m, int n => m == n
  | real (.infinite a), real (.infinite b) => a == b
  | x, y =>
    match keyUnits? x, keyUnits? y with
    | some a, some b => a == b
    | _, _ => false

/-- The keys are the same one by one. -/
def sameKeys : List Datum → List Datum → Bool
  | [], [] => true
  | x :: xs, y :: ys => sameKey x y && sameKeys xs ys
  | _, _ => false

end

mutual

/-- A value that can be told apart from others for good, and so can be a key or a name. -/
def isFixed : Datum → Bool
  | tuple xs => areFixed xs
  | named name row => isFixed name && isFixed row
  | list _ | map _ | set _ | bytes true _ | knot .. => false
  | _ => true

/-- All items can be told apart from others for good. -/
def areFixed : List Datum → Bool
  | [] => true
  | x :: xs => isFixed x && areFixed xs

end

/-- The value under a key. -/
def lookup? (entries : List (Datum × Datum)) (key : Datum) : Option Datum :=
  (entries.find? fun e => sameKey e.1 key).map (·.2)

/-- The value under a text key. -/
def field? (entries : List (Datum × Datum)) (name : String) : Option Datum :=
  lookup? entries (text name)

/-- Puts a value under a key: in the place of the old value, or at the end. -/
def insertEntry : List (Datum × Datum) → Datum → Datum → List (Datum × Datum)
  | [], key, value => [(key, value)]
  | e :: es, key, value =>
    if sameKey e.1 key then (e.1, value) :: es else e :: insertEntry es key value

theorem insertEntry_nil (key value : Datum) : insertEntry [] key value = [(key, value)] := rfl

theorem insertEntry_cons (e : Datum × Datum) (es : List (Datum × Datum)) (key value : Datum) :
    insertEntry (e :: es) key value
      = if sameKey e.1 key = true then (e.1, value) :: es else e :: insertEntry es key value := rfl

/-- The mapping with the given entries, the last one of each key. -/
def mapOf (entries : List (Datum × Datum)) : Datum :=
  map (entries.foldl (fun es e => insertEntry es e.1 e.2) [])

/-- A mapping with text keys, which have to differ. -/
def record (fields : List (String × Datum)) : Datum :=
  map (fields.map fun f => (text f.1, f.2))

/-- A list of texts. -/
def texts (items : List String) : Datum :=
  list (items.map text)

/-- A text, or null. -/
def ofText? : Option String → Datum
  | some s => text s
  | none => null

/-- A whole number. -/
def ofNat (n : Nat) : Datum :=
  int n

mutual

/-- Puts the caller's name into the places kept for it. -/
def withCaller (name : Datum) : Datum → Datum
  | caller => name
  | list xs => list (itemsWithCaller name xs)
  | tuple xs => tuple (itemsWithCaller name xs)
  | set xs => set (itemsWithCaller name xs)
  | map es => map (entriesWithCaller name es)
  | named own row => named (withCaller name own) (withCaller name row)
  | stream rows fault => stream (itemsWithCaller name rows) fault
  | d => d

/-- Puts the caller's name into every item. -/
def itemsWithCaller (name : Datum) : List Datum → List Datum
  | [] => []
  | x :: xs => withCaller name x :: itemsWithCaller name xs

/-- Puts the caller's name into every key and value. -/
def entriesWithCaller (name : Datum) : List (Datum × Datum) → List (Datum × Datum)
  | [] => []
  | (k, v) :: es => (withCaller name k, withCaller name v) :: entriesWithCaller name es

end

end Datum

end DocTags
