import DocTags.DataSet.LiteralRows
import DocTags.Symbol
import DocTags.World.Resolver

/-!
# Provided data

The data sets of a symbol come from the providers that its comment refers to, in the order of the
references, or else from literal rows.
-/

namespace DocTags.ProvidedData

open Text

/-- The references to providers in a comment. -/
def references (comment : List Char) : List (List Char) :=
  (Dialect.dataProviderPattern.findAll comment).map (·.groupD .value)

/-- The type and the member that a reference names. Without a type the given one counts. -/
def splitReference (reference : List Char) (default : Datum) : Datum × String :=
  let segments := splitAt '\\' reference
  let leaf := segments.getLast?.getD []
  let (type, member) :=
    match cutAtLastColons? leaf with
    | some r => r
    | none =>
      match cutAtLast? '.' leaf with
      | some r => r
      | none => ([], leaf)
  if type.isEmpty then (default, String.ofList member)
  else
    (.text (String.ofList (join ['\\'] (segments.dropLast ++ [type]))), String.ofList member)

/-- Puts the reference that led to it to an unresolved cause. -/
def referredBy {α : Type} (reference : String) (r : Except Failure α) : Except Failure α :=
  r.mapError fun
    | .problem (.unresolved cause references) =>
      .problem (.unresolved cause (references ++ [reference]))
    | e => e

/-- Resolves a reference to a member. Its type is constructed if the member is not static. -/
def resolve (r : Resolver) (reference : String) (type : Datum) (name : String) :
    Except Failure MemberHandle := do
  if type.isNull then
    .error (.problem (.unresolved (.typeNotFound reference "no owning type") []))
  else
    let owner ← r.resolveType (← type.toName.mapError .fault)
    let member ← Resolver.resolveMember owner name
    if !member.isStatic then
      let _ ← r.instantiate owner
    return member

/-- Adds the rows of one provider. -/
def addProvider (r : Resolver) (s : Symbol) (c : Collection) (reference : List Char) :
    Run Collection := do
  let shown := String.ofList reference
  let (type, name) := splitReference reference s.declaringType
  let member ← Run.ofExcept (referredBy shown (resolve r shown type name))
  let asking := if s.isTypeLevel then Datum.null else s.member
  let result ← Resolver.invoke member (if member.parameterCount = 0 then [] else [asking])
  let extended ← Run.ofExcept (c.extend shown result)
  Run.note .debug "data_provider_resolved"
    [("provider", .text shown), ("symbol", s.qualifiedName),
      ("rows", .ofNat (extended.dataSets.length - c.dataSets.length))]
  return extended

/-- Adds the rows of all providers in order. -/
def addProviders (r : Resolver) (s : Symbol) (c : Collection) : List (List Char) → Run Collection
  | [] => pure c
  | reference :: rest => do addProviders r s (← addProvider r s c reference) rest

/-- The data sets from the providers of a symbol, if it refers to any. -/
def ofProviders (r : Resolver) (s : Symbol) : Run (Option (List DataSet)) :=
  match references s.docComment.toList with
  | [] => pure none
  | refs => do return some (← addProviders r s {} refs).dataSets

/-- Data sets that are fit for a test: there are some, and every row is structured. -/
def check (providers : List String) (sets : List DataSet) : Except Problem (List DataSet) :=
  if sets.isEmpty then .error (.noRows providers)
  else
    match sets.find? fun d => !d.arguments.isStructured with
    | some d => .error (.invalidRow d.key.toDatum)
    | none => .ok sets

/-- The data sets of a symbol; none if it takes no data. -/
def ofSymbol (r : Resolver) (s : Symbol) : Run (Option (List DataSet)) := do
  let sets? ←
    match ← ofProviders r s with
    | some sets => pure (some sets)
    | none => LiteralRows.ofComment r.rowDepth s.docComment.toList
  match sets? with
  | none => return none
  | some sets =>
    let providers := (references s.docComment.toList).map String.ofList
    return some (← Run.ofExcept ((check providers sets).mapError .problem))

end DocTags.ProvidedData
