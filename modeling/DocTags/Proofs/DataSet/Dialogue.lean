import DocTags.Proofs.DataSet.Merging
import DocTags.Proofs.DataSet.Numbering

/-!
# Asking for providers

Providers are asked for through a few calls: to resolve a type and a member, to construct an
instance and to invoke the member. What answers them is a host, and its answers may depend on all
the calls before. The extraction of provided data is a dialogue with a host; with the resolver of a
world as the host it is the extraction that runs.
-/

namespace DocTags.ProvidedData

/-- A call to a host whose types, members and instances are opaque. -/
inductive Call (T M I : Type) where
  | resolveType (type : Datum)
  | resolveMember (owner : T) (name : String)
  | instantiate (owner : T)
  | invoke (member : M) (receiver : Option I) (arguments : List Datum)

/-- What answers the calls, each after the calls before it. Beside them it says how deep the lists
of literal rows may be nested. -/
structure Host (T M I : Type) where
  rowDepth : Nat
  isStatic : M → Bool
  parameterCount : M → Nat
  resolveType : List (Call T M I) → Datum → Except Failure T
  resolveMember : List (Call T M I) → T → String → Except Failure M
  instantiate : List (Call T M I) → T → Except Failure I
  invoke : List (Call T M I) → M → Option I → List Datum → Except Failure Datum

/-- A computation that makes calls: what it gives behind the calls made before, with all calls that
have been made then. -/
def Dialogue (T M I α : Type) : Type :=
  List (Call T M I) → List (Call T M I) × Except Failure α

variable {T M I : Type}

namespace Dialogue

variable {α β : Type}

instance : Monad (Dialogue T M I) where
  pure a := fun made => (made, .ok a)
  bind x f := fun made =>
    match x made with
    | (made, .ok a) => f a made
    | (made, .error e) => (made, .error e)

/-- A computation that makes no call. -/
def ofExcept (x : Except Failure α) : Dialogue T M I α :=
  fun made => (made, x)

/-- Makes a call. -/
def ask (call : Call T M I) (answer : List (Call T M I) → Except Failure α) : Dialogue T M I α :=
  fun made => (made ++ [call], answer made)

/-- Puts the reference that led to it to an unresolved cause. -/
def referredBy (reference : String) (x : Dialogue T M I α) : Dialogue T M I α :=
  fun made => ((x made).1, ProvidedData.referredBy reference (x made).2)

variable (x : Dialogue T M I α) (f : α → Dialogue T M I β) (made : List (Call T M I))

@[simp] theorem pure_result (a : α) : ((pure a : Dialogue T M I α) made).2 = .ok a := rfl

@[simp] theorem bind_result :
    ((x >>= f) made).2 = (x made).2.bind fun a => (f a (x made).1).2 := by
  rcases hx : x made with ⟨made', e | a⟩
  · simp [bind, hx, Except.bind]
  · simp [bind, hx, Except.bind]

@[simp] theorem ofExcept_result (y : Except Failure α) :
    (ofExcept y : Dialogue T M I α) made = (made, y) := rfl

variable {x f made}

variable {call : Call T M I} {answer : List (Call T M I) → Except Failure α}

end Dialogue

open Dialogue (ofExcept ask)

/-- What the providers of a symbol are told: its member, or nothing. -/
def askingOf (s : Symbol) : Datum :=
  if s.isTypeLevel then .null else s.member

section Host

variable (h : Host T M I) (s : Symbol)

/-- The arguments for a member: none if it takes none. -/
def argumentsFor (member : M) : List Datum :=
  if h.parameterCount member = 0 then [] else [askingOf s]

end Host

section Running

variable (r : Resolver) (s : Symbol)

end Running

end DocTags.ProvidedData
