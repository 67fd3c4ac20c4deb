import DocTags.DataSet.Provided
import DocTags.ExpectedException
import DocTags.InlineTag
import DocTags.Requirements
import DocTags.Settings.Basic

/-!
# Queries

The questions that can be asked about a symbol. An answer is a result, a report of a skipped test or
of a requirement that makes no sense, or the report of a failure; only the last counts as failed.
-/

namespace DocTags

/-- The questions about a symbol. -/
inductive Query where
  | requirements
  | expectedException
  | data
  | inline
  deriving DecidableEq, Repr

namespace Query

/-- Every question. -/
def all : List Query :=
  [requirements, expectedException, data, inline]

/-- The word for a question. -/
def key : Query → String
  | requirements => "requirements"
  | expectedException => "expected_exception"
  | data => "data"
  | inline => "inline"

/-- The question with the given word. -/
def ofKey? (s : String) : Option Query :=
  all.find? (·.key = s)

end Query

/-- What questions are answered from: the files, the modules, the settings and the limits of the
stack. -/
structure Surroundings where
  disk : Disk := {}
  world : World := {}
  extraction : ExtractionSettings := {}
  limits : RowLimits := {}

namespace Surroundings

open Text

/-- The module in front of a type's name. -/
def moduleOf (name : String) : List String :=
  match cutAtLast? '.' (replaceChar '\\' '.' name.toList) with
  | some (m, _) => if m.isEmpty then [] else [String.ofList m]
  | none => []

/-- The module of a type, if there is a type. -/
def moduleOfType (type : Datum) : Except Fault (List String) :=
  if type.isTruthy then type.toName.map moduleOf else .ok []

/-- The resolver for the names in a symbol's tags. -/
def resolver (e : Surroundings) (s : Symbol) : Except Fault Resolver := do
  return {
    world := e.world
    searchModules := e.extraction.defaultModule.toList ++ (← moduleOfType s.declaringType)
    instantiates := e.extraction.instantiateProviders
    rowDepth := e.limits.decoded }

/-- The look-up of constants, if tags may name constants. -/
def constants (e : Surroundings) (r : Resolver) : Option ConstantLookup :=
  if e.extraction.resolveConstants then some r.constant else none

/-- The result of a question. -/
def ask (e : Surroundings) (s : Symbol) (query : Query) : Run Datum := do
  let r ← Run.ofExcept ((e.resolver s).mapError .fault)
  match query with
  | .requirements => return (← Requirements.ofSymbol s).toDatum
  | .expectedException =>
    let expected ← ExpectedException.ofSymbol s (e.constants r)
    return (expected.map ExpectedException.toDatum).getD .null
  | .data =>
    match ← ProvidedData.ofSymbol r s with
    | none => return .null
    | some sets => Run.ofExcept (DataSet.report e.limits.reported sets)
  | .inline =>
    let found ← Run.ofExcept ((InlineTag.ofSymbol e.disk s).mapError .fault)
    return .record (found.map fun a => (a.1, a.2.toDatum))

/-- An answer, and whether the question failed. -/
structure Answer where
  result : Datum
  failed : Bool

/-- The wording of a fault that is reported as an internal problem: a file that cannot be read. -/
def readingFault? : Fault → Option String
  | .file f => some f.message
  | .encoding f => some f.message
  | .thrown ⟨.fileAccess _, text⟩ => some text
  | _ => none

/-- Notes a failure and reports it. -/
def reportFailure (query : Query) (p : Problem) (message : String) : Run Answer := do
  Run.note .error "extraction_failed"
    [("query", .text query.key), ("error", .text p.code.name), ("message", .text message)]
  return ⟨.record [("error", p.report.toDatum)], true⟩

/-- The answer to a question that ended without a result. -/
def answerFailure (query : Query) : Failure → Run Answer
  | .problem (.noRows providers) =>
    pure ⟨.record [("skipped", .bool true),
      ("reason", .text (Problem.noRows providers).report.message)], false⟩
  | .problem (.malformedConstraint requirement expression reason) =>
    pure ⟨.record [("warning",
      (Problem.malformedConstraint requirement expression reason).report.toDatum)], false⟩
  | .problem p => reportFailure query p p.report.message
  | .fault f =>
    match readingFault? f with
    | some message =>
      reportFailure query (.internal message [("query", .text query.key)]) message
    | none => Run.fail (.fault f)

/-- The answer to a question. -/
def answer (e : Surroundings) (s : Symbol) (query : Query) : Run Answer :=
  let asked := e.ask s query
  match asked.result with
  | .ok d => ⟨asked.events, .ok ⟨d, false⟩⟩
  | .error failure =>
    let answered := answerFailure query failure
    ⟨asked.events ++ answered.events, answered.result⟩

end Surroundings

namespace Description

/-- The symbol with everything that counts for the exception that it expects: the comments of traits
count only if one is expected. -/
def expecting (d : Description) : Except Fault Symbol := do
  let s ← d.withComment
  if ExpectedException.isDeclared s.docComment then d.withComments else return s

/-- The symbol with everything that counts for a question. -/
def toSymbol (d : Description) : Query → Except Fault Symbol
  | .requirements | .data => d.withComment
  | .expectedException => d.expecting
  | .inline => d.withLines

/-- The answer to a question about what is described. -/
def answer (d : Description) (e : Surroundings) (query : Query) : Run Surroundings.Answer := do
  e.answer (← Run.ofExcept ((d.toSymbol query).mapError .fault)) query

end Description

end DocTags
