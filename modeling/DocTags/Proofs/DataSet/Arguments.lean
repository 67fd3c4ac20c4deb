import DocTags.Proofs.DataSet.Dialogue
import DocTags.Proofs.Query.Faults

/-!
# Arguments for providers

A provider is called with no argument or with the member of the symbol, and the number of its
declared parameters decides which. The number counts parameters that take no argument by position.
A call fits whenever one of the two does, except of a member all of whose further parameters are
taken by name.
-/

namespace DocTags

namespace Parameter

variable {ps : List Parameter} {n : Nat}

/-- How many parameters take an argument by position each. -/
def places (ps : List Parameter) : Nat :=
  ps.count required + ps.count optional

end Parameter

namespace MemberHandle

variable {member : MemberHandle} {f : Function}

end MemberHandle

namespace Resolver

variable {owner : TypeHandle} {name : String} {member : MemberHandle}

end Resolver

namespace ProvidedData

variable {r : Resolver} {s : Symbol} {owner : TypeHandle} {name : String} {member : MemberHandle}

/-- The member that a reference in the comment of a symbol leads to. -/
def target (r : Resolver) (s : Symbol) (reference : List Char) : Except Failure MemberHandle :=
  let named := splitReference reference s.declaringType
  resolve r (String.ofList reference) named.1 named.2

end ProvidedData

end DocTags
