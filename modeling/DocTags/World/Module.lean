import DocTags.Datum.Basic

/-!
# Modules

The modules that providers and constants are looked up in. A module has members: constants, types
with members of their own, and functions. Every dotted prefix of a module's name is a module too.
-/

namespace DocTags

/-- How a function belongs to its type. -/
inductive Binding where
  /-- Called with its arguments alone. -/
  | static
  /-- Called with the type in front of its arguments. -/
  | ofType
  /-- Called with an instance in front of its arguments; the instance is no declared parameter. -/
  | onInstance
  /-- Called with an instance in front of its arguments; the instance is the first declared
  parameter. -/
  | bare
  deriving DecidableEq, Repr

/-- The parameters that a function can declare. -/
inductive Parameter where
  | required
  | optional
  /-- Takes all further arguments. -/
  | rest
  /-- Takes no argument by position. -/
  | keyword
  /-- Takes all further named arguments. -/
  | keywords
  deriving DecidableEq, Repr

/-- A function: what it declares, and what a call gives. -/
structure Function where
  binding : Binding
  parameters : List Parameter
  returns : Datum
  raises : Option Thrown

namespace Function

/-- A call with `n` arguments by position fits the declared parameters. -/
def accepts (f : Function) (n : Nat) : Bool :=
  let required := f.parameters.count .required
  let optional := f.parameters.count .optional
  required ≤ n && (n ≤ required + optional || f.parameters.contains .rest)

end Function

/-- What a name can stand for. -/
inductive Entity where
  | constant (value : Datum)
  | type (name : String) (members : List (String × Entity)) (initFault : Option Thrown)
  | function (f : Function)
  | module (members : List (String × Entity))

namespace Entity

/-- The members of a module or a type. Nothing else has any. -/
def members : Entity → List (String × Entity)
  | type _ ms _ | module ms => ms
  | constant _ | function _ => []

/-- The entity is a type. -/
def isType : Entity → Bool
  | type .. => true
  | _ => false

/-- A member that is not the constant null. -/
def member? (e : Entity) (name : String) : Option Entity :=
  match e.members.lookup name with
  | some (constant d) => if d.isNull then none else some (constant d)
  | other => other

/-- Follows names from member to member. -/
def walk? : Entity → List String → Option Entity
  | e, [] => some e
  | e, name :: names => (e.member? name).bind (walk? · names)

/-- The entity as a value. -/
def toDatum : Entity → Datum
  | constant d => d
  | type .. => .handle .type
  | function _ => .handle .function
  | module _ => .handle .module

end Entity

/-- The modules that can be found. -/
structure World where
  modules : List (String × List (String × Entity)) := []

namespace World

/-- The module with the given name. -/
def module? (w : World) (name : String) : Option Entity :=
  match w.modules.lookup name with
  | some ms => some (.module ms)
  | none =>
    if w.modules.any fun m => (name.toList ++ ['.']).isPrefixOf m.1.toList then some (.module [])
    else none

end World

end DocTags
