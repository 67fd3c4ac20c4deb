import DocTags.Proofs.DataSet.Dialogue

/-!
# The outcome of an extraction

The references of a symbol are visited in order. A visit resolves the type and the member of its
reference, constructs an instance if the member is not static, and invokes the member once. The
first reference that fails ends the extraction, and no later one is resolved. If none fails the rows
of all visits decide together: without rows the test is skipped, the first row without structure is
refused, and otherwise all rows are the data sets.
-/

namespace DocTags.ProvidedData

/-- A resolved reference: what it names, and what it has been resolved to. -/
structure Resolution (T M I : Type) where
  reference : List Char
  type : Datum
  name : String
  owner : T
  member : M
  receiver : Option I

/-- A visit of a reference: its resolution, and the rows that its provider gives. -/
structure Visit (T M I : Type) extends Resolution T M I where
  rows : List GivenRow

variable {T M I : Type} (h : Host T M I) (s : Symbol)

namespace Resolution

/-- The calls that resolve the reference. -/
def calls (v : Resolution T M I) : List (Call T M I) :=
  .resolveType v.type :: .resolveMember v.owner v.name
    :: if h.isStatic v.member then [] else [.instantiate v.owner]

/-- The call of the member. -/
def invocation (v : Resolution T M I) : Call T M I :=
  .invoke v.member v.receiver (argumentsFor h s v.member)

/-- Behind the calls made the host answers as the resolution says, and a member that is not static
has an instance that has been constructed for it. -/
structure Holds (made : List (Call T M I)) (v : Resolution T M I) : Prop where
  named : splitReference v.reference s.declaringType = (v.type, v.name)
  hasType : v.type.isNull = false
  owner : h.resolveType made v.type = .ok v.owner
  member : h.resolveMember (made ++ [.resolveType v.type]) v.owner v.name = .ok v.member
  shared : h.isStatic v.member = true → v.receiver = none
  fresh : h.isStatic v.member = false → ∃ i, v.receiver = some i
    ∧ h.instantiate (made ++ [.resolveType v.type, .resolveMember v.owner v.name]) v.owner = .ok i

/-- What the member returns behind the calls made and those that resolve its reference. -/
def answer (made : List (Call T M I)) (v : Resolution T M I) : Except Failure Datum :=
  h.invoke (made ++ v.calls h) v.member v.receiver (argumentsFor h s v.member)

end Resolution

namespace Visit

/-- The calls of a visit. -/
def calls (v : Visit T M I) : List (Call T M I) :=
  v.toResolution.calls h ++ [v.toResolution.invocation h s]

/-- Behind the calls made the reference is resolved, and its provider gives the rows. -/
structure Holds (made : List (Call T M I)) (v : Visit T M I) : Prop where
  resolved : v.toResolution.Holds h s made
  rows : ∃ result, v.toResolution.answer h s made = .ok result
    ∧ GivenRow.ofResult? result = some (v.rows, none)

end Visit

/-- The calls of visits after one another. -/
def callsMade (visits : List (Visit T M I)) : List (Call T M I) :=
  visits.flatMap (·.calls h s)

/-- The rows of visits after one another. -/
def rowsGiven (visits : List (Visit T M I)) : List GivenRow :=
  visits.flatMap (·.rows)

/-- The visits hold after one another. -/
def AreHeld (made : List (Call T M I)) : List (Visit T M I) → Prop
  | [] => True
  | v :: visits => v.Holds h s made ∧ AreHeld (made ++ v.calls h s) visits

/-- The failure with the reference that led to it, if it is one of resolving. -/
def attached (reference : String) : Failure → Failure
  | .problem (.unresolved cause references) =>
    .problem (.unresolved cause (references ++ [reference]))
  | e => e

/-- Behind the calls made and the rows before it the reference fails, with the calls made for it. -/
inductive Halts (made : List (Call T M I)) (rows : List GivenRow) (reference : List Char) :
    List (Call T M I) → Failure → Prop
  | noType (hnull : (splitReference reference s.declaringType).1.isNull = true) :
      Halts made rows reference []
        (.problem (.unresolved (.typeNotFound (String.ofList reference) "no owning type")
          [String.ofList reference]))
  | type {type : Datum} {name : String} {e : Failure}
      (named : splitReference reference s.declaringType = (type, name))
      (hasType : type.isNull = false) (htype : h.resolveType made type = .error e) :
      Halts made rows reference [.resolveType type] (attached (String.ofList reference) e)
  | member {type : Datum} {name : String} {owner : T} {e : Failure}
      (named : splitReference reference s.declaringType = (type, name))
      (hasType : type.isNull = false) (howner : h.resolveType made type = .ok owner)
      (hmember : h.resolveMember (made ++ [.resolveType type]) owner name = .error e) :
      Halts made rows reference [.resolveType type, .resolveMember owner name]
        (attached (String.ofList reference) e)
  | receiver {type : Datum} {name : String} {owner : T} {member : M} {e : Failure}
      (named : splitReference reference s.declaringType = (type, name))
      (hasType : type.isNull = false) (howner : h.resolveType made type = .ok owner)
      (hmember : h.resolveMember (made ++ [.resolveType type]) owner name = .ok member)
      (hstatic : h.isStatic member = false)
      (hreceiver : h.instantiate (made ++ [.resolveType type, .resolveMember owner name]) owner
        = .error e) :
      Halts made rows reference
        [.resolveType type, .resolveMember owner name, .instantiate owner]
        (attached (String.ofList reference) e)
  | invocation {v : Resolution T M I} {e : Failure} (hv : v.Holds h s made)
      (href : v.reference = reference) (hanswer : v.answer h s made = .error e) :
      Halts made rows reference (v.calls h ++ [v.invocation h s]) e
  | rejection {v : Resolution T M I} {result : Datum} {e : Failure} (hv : v.Holds h s made)
      (href : v.reference = reference) (hanswer : v.answer h s made = .ok result)
      (hrejects : Collection.Rejects rows (String.ofList reference) result e) :
      Halts made rows reference (v.calls h ++ [v.invocation h s]) e

variable {h s} {made : List (Call T M I)} {rows : List GivenRow}

theorem callsMade_cons (v : Visit T M I) (visits : List (Visit T M I)) :
    callsMade h s (v :: visits) = v.calls h s ++ callsMade h s visits :=
  List.flatMap_cons

theorem rowsGiven_cons (v : Visit T M I) (visits : List (Visit T M I)) :
    rowsGiven (v :: visits) = v.rows ++ rowsGiven visits :=
  List.flatMap_cons

/-- How the references are visited behind the calls made and the rows before: all of them, or those
in front of the first that stops the extraction. -/
inductive Course (h : Host T M I) (s : Symbol) (made : List (Call T M I)) (rows : List GivenRow)
    (refs : List (List Char)) : List (Call T M I) × Except Failure Collection → Prop
  | completed (visits : List (Visit T M I)) (held : AreHeld h s made visits)
      (hfit : NamesFit (rows ++ rowsGiven visits)) (hrefs : refs = visits.map (·.reference)) :
      Course h s made rows refs
        (made ++ callsMade h s visits, .ok (.ofRows (rows ++ rowsGiven visits)))
  | stopped (visits : List (Visit T M I)) (held : AreHeld h s made visits)
      (hfit : NamesFit (rows ++ rowsGiven visits)) (reference : List Char)
      (after : List (List Char)) (hrefs : refs = visits.map (·.reference) ++ reference :: after)
      (more : List (Call T M I)) (e : Failure)
      (hhalts : Halts h s (made ++ callsMade h s visits) (rows ++ rowsGiven visits) reference more
        e) :
      Course h s made rows refs (made ++ callsMade h s visits ++ more, .error e)

/-- A visit in front of a course. -/
theorem Course.cons {v : Visit T M I} {refs : List (List Char)}
    {outcome : List (Call T M I) × Except Failure Collection} (hv : v.Holds h s made)
    (hcourse : Course h s (made ++ v.calls h s) (rows ++ v.rows) refs outcome) :
    Course h s made rows (v.reference :: refs) outcome := by
  cases hcourse with
  | completed visits held hfit hrefs =>
      rw [List.append_assoc, ← callsMade_cons, List.append_assoc, ← rowsGiven_cons] at *
      exact .completed (v :: visits) ⟨hv, held⟩ hfit (by rw [hrefs, List.map_cons])
  | stopped visits held hfit reference after hrefs more e hhalts =>
      rw [List.append_assoc, ← callsMade_cons, List.append_assoc, ← rowsGiven_cons] at hhalts
      rw [List.append_assoc, ← rowsGiven_cons] at hfit
      rw [List.append_assoc made, ← callsMade_cons]
      exact .stopped (v :: visits) ⟨hv, held⟩ hfit reference after
        (by rw [hrefs, List.map_cons, List.cons_append]) more e hhalts

end DocTags.ProvidedData
