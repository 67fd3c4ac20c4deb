import DocTags.Proofs.DataSet.Merging
import DocTags.Proofs.World.Returning
import DocTags.Query

/-!
# Faults of questions

A question about a symbol can end in a fault that no answer reports. Which faults these are depends
on the question: paths that no file can have, names that no module can have, numbers that cannot be
read, calls that do not fit, values of another type.
-/

namespace DocTags

open Surroundings

/-- The faults of values that stand where a text or a name should. -/
def nameFaults : List Fault :=
  [.wrongType, .noSuchOperation]

/-- The failure is a problem, one of the faults or a fault that an answer reports. -/
def Failure.IsWithin (fs : List Fault) : Failure → Prop
  | .problem _ => True
  | .fault f => f ∈ fs ∨ (readingFault? f).isSome = true

variable {α : Type} {fs gs : List Fault}

theorem Failure.IsWithin.mono (h : fs ⊆ gs) {x : Failure} (hx : x.IsWithin fs) : x.IsWithin gs := by
  cases x with
  | problem p => trivial
  | fault f => exact hx.imp_left fun hf => h hf

theorem FailsWithin.within {x : Except Failure α} (hx : FailsWithin (Failure.IsWithin fs) x)
    (h : fs ⊆ gs) : FailsWithin (Failure.IsWithin gs) x :=
  hx.mono fun _ => Failure.IsWithin.mono h

namespace Resolver

variable (w : World) (r : Resolver)

end Resolver

theorem Datum.toName_within (d : Datum) : FailsWithin (· ∈ nameFaults) d.toName := by
  cases d with
  | text s => exact .ok _ s
  | moment | bytes => exact .error (by decide)
  | _ => exact .error (by decide)

theorem Surroundings.resolver_within (e : Surroundings) (s : Symbol) :
    FailsWithin (· ∈ nameFaults) (e.resolver s) := by
  have hmodule : FailsWithin (· ∈ nameFaults) (moduleOfType s.declaringType) := by
    rw [moduleOfType]
    split
    · exact (Datum.toName_within _).map _
    · exact .ok _ _
  exact hmodule.bind fun _ _ => .ok _ _

namespace ExpectedException

variable {constants : Option ConstantLookup}

end ExpectedException

namespace ProvidedData

variable {r : Resolver} (hw : r.world.Returns)

end ProvidedData

namespace Surroundings

end Surroundings

namespace Description

theorem toText_within (v : Datum) : FailsWithin (· = .wrongType) v.toText := by
  cases v with
  | text s => exact .ok _ s
  | _ => exact .error rfl

variable (d : Description)

theorem withComment_within : FailsWithin (· = .wrongType) d.withComment :=
  (toText_within d.docComment).bind fun _ _ => .ok _ _

theorem withComments_within : FailsWithin (· = .wrongType) d.withComments := by
  rw [withComments]
  split
  · exact (FailsWithin.mapM fun c _ => toText_within c).bind fun _ _ =>
      d.withComment_within.bind fun _ _ => .ok _ _
  · exact FailsWithin.bind (.ok _ _) fun _ _ => d.withComment_within.bind fun _ _ => .ok _ _

theorem withLines_within : FailsWithin (· = .wrongType) d.withLines := by
  rw [withLines]
  split
  · exact .ok _ _
  · refine (FailsWithin.mapM fun line _ => ?_).bind fun _ _ => .ok _ _
    rw [lineText]
    split
    · exact toText_within _
    · exact .ok _ _

/-- Only a comment or a line that is no text keeps what is described from being a symbol. -/
theorem toSymbol_within (q : Query) : FailsWithin (· = .wrongType) (d.toSymbol q) := by
  cases q with
  | requirements | data => exact d.withComment_within
  | inline => exact d.withLines_within
  | expectedException =>
      refine d.withComment_within.bind fun s _ => ?_
      split
      · exact d.withComments_within
      · exact .ok _ _

/-- What comes of a question about what is described. -/
def asked (e : Surroundings) (q : Query) : Except Failure Datum :=
  ((d.toSymbol q).mapError .fault).bind fun s => (e.ask s q).result

end Description

end DocTags
