import DocTags.DataSet.Basic
import DocTags.Report.Run
import DocTags.Text.Lines
import DocTags.World.Module

/-!
# Resolving names

A type is looked for under several names: as it is written and inside each of the search modules. Of
a dotted name the longest front part that is a module counts, and the other parts are its members.
-/

namespace DocTags

/-- A resolved type: the name under which it was found. -/
structure TypeHandle where
  name : String
  target : Entity

/-- A resolved member that can be called. -/
structure MemberHandle where
  owner : TypeHandle
  name : String
  callee : Entity
  isStatic : Bool
  parameterCount : Nat

/-- Resolves names in a world, for a symbol that may have literal rows instead of names. -/
structure Resolver where
  world : World
  searchModules : List String := []
  /-- Types may be constructed to call their members. -/
  instantiates : Bool := true
  /-- How deep the lists of literal rows may be nested. -/
  rowDepth : Nat := RowLimits.decoded {}

/-- Looks up a constant by its text; null if there is none. -/
abbrev ConstantLookup := String → Except Failure Datum

namespace Resolver

open Text

/-- Segments joined by points. -/
def dotted (segments : List (List Char)) : List Char :=
  join ['.'] segments

/-- Tries the first `n` segments as a module, then ever fewer. The longest module decides. -/
def findFrom (w : World) (segments : List (List Char)) : Nat → Except Fault (Option Entity)
  | 0 => .ok none
  | n + 1 =>
    let name := dotted (segments.take (n + 1))
    if name.isEmpty then .error .emptyModuleName
    else if name.head? = some '.' then .error .relativeModuleName
    else
      match w.module? (String.ofList name) with
      | some m => .ok (m.walk? ((segments.drop (n + 1)).map String.ofList))
      | none => findFrom w segments n

/-- What a dotted path leads to. -/
def find (w : World) (path : List Char) : Except Fault (Option Entity) :=
  let segments := splitAt '.' path
  findFrom w segments segments.length

/-- The first path that leads somewhere, with what it leads to. -/
def findFirst (w : World) : List (List Char) → Except Fault (Option TypeHandle)
  | [] => .ok none
  | path :: paths => do
    match ← find w path with
    | some e => return some ⟨String.ofList path, e⟩
    | none => findFirst w paths

/-- A name with points for backslashes and without points at its ends. -/
def normalName (name : List Char) : List Char :=
  trimWhere (· == '.') (replaceChar '\\' '.' name)

/-- The paths under which a name is looked for. A name without points is looked for in the search
modules first. -/
def candidates (searchModules : List String) (name : List Char) : List (List Char) :=
  let relative := searchModules.map fun m => m.toList ++ '.' :: name
  if name.contains '.' then name :: relative else relative ++ [name]

/-- Resolves a type. -/
def resolveType (r : Resolver) (name : String) : Except Failure TypeHandle :=
  let name := normalName name.toList
  match findFirst r.world (candidates r.searchModules name) with
  | .error e => .error (.fault e)
  | .ok (some handle) => .ok handle
  | .ok none =>
    .error (.problem (.unresolved
      (.typeNotFound (String.ofList name) "not importable from any search module") []))

/-- How many arguments a function counts as a member: an instance that is a declared parameter is
not counted. -/
def parameterCountOf (ownerIsType : Bool) (f : Function) : Nat :=
  if ownerIsType && f.binding == .bare then f.parameters.length - 1 else f.parameters.length

/-- Resolves a member that can be called. -/
def resolveMember (owner : TypeHandle) (name : String) : Except Failure MemberHandle :=
  let ownerIsType := owner.target.isType
  match owner.target.member? name with
  | some (.function f) =>
    .ok
      { owner, name, callee := .function f
        isStatic := !ownerIsType || f.binding == .static || f.binding == .ofType
        parameterCount := parameterCountOf ownerIsType f }
  | some (.type n ms fault) =>
    .ok { owner, name, callee := .type n ms fault, isStatic := !ownerIsType, parameterCount := 0 }
  | _ => .error (.problem (.unresolved (.memberNotFound owner.name name) []))

/-- Calls something. With an instance, a function whose first declared parameter it is takes one
argument more. -/
def call (callee : Entity) (onInstance : Bool) (args : List Datum) : Except Fault Datum :=
  match callee with
  | .function f =>
    let n := if onInstance && f.binding == .bare then args.length + 1 else args.length
    if !f.accepts n then .error .argumentCount
    else
      match f.raises with
      | some t => .error (.thrown t)
      | none => .ok (Datum.withCaller (args.headD .null) f.returns)
  | .type name _ fault =>
    if !args.isEmpty then .error .argumentCount
    else
      match fault with
      | some t => .error (.thrown t)
      | none => .ok (.object name)
  | .constant _ | .module _ => .error .argumentCount

/-- Constructs an instance of a resolved type. -/
def instantiate (r : Resolver) (owner : TypeHandle) : Except Failure Datum :=
  let failed (reason : String) : Except Failure Datum :=
    .error (.problem (.unresolved (.instantiationFailed owner.name reason) []))
  if !r.instantiates then failed "provider instantiation is disabled"
  else
    match owner.target with
    | .module _ => failed "'module' object is not callable"
    | .constant d => failed ("'" ++ d.typeName ++ "' object is not callable")
    | target =>
      match call target false [] with
      | .ok d => .ok d
      | .error (.thrown ⟨.badCall, text⟩) => failed text
      | .error e => .error (.fault e)

/-- Calls a resolved member. -/
def invoke (member : MemberHandle) (args : List Datum) : Run Datum := do
  Run.note .debug "data_provider_invoked"
    [("provider", .text (member.owner.name ++ "::" ++ member.name)),
      ("static", .bool member.isStatic), ("args", .ofNat args.length)]
  Run.ofExcept ((call member.callee (!member.isStatic) args).mapError .fault)

/-- The value of a constant named by a type and a member with two colons between them. A type that
is not found has none. -/
def constant (r : Resolver) : ConstantLookup := fun text =>
  let s := text.toList
  match countColonPairs s, cutAtColons? s with
  | 1, some (type, name) =>
    if type.isEmpty || name.isEmpty then .ok .null
    else
      match r.resolveType (String.ofList type) with
      | .error (.problem (.unresolved ..)) => .ok .null
      | .error e => .error e
      | .ok owner =>
        .ok (((owner.target.member? (String.ofList name)).map Entity.toDatum).getD .null)
  | _, _ => .ok .null

end Resolver

end DocTags
