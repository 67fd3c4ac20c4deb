import DocTags.Report.Problem

/-!
# Runs

A run has a result or a failure, and the events that it has noted on the way, in order. A failure
keeps the events noted before it.
-/

namespace DocTags

/-- How grave an event is. -/
inductive Level where
  | debug
  | info
  | warning
  | error
  | critical
  deriving DecidableEq, Repr

namespace Level

/-- Every level, the least grave first. -/
def all : List Level :=
  [debug, info, warning, error, critical]

/-- The place of a level in the order of gravity. -/
def rank : Level → Nat
  | debug => 10
  | info => 20
  | warning => 30
  | error => 40
  | critical => 50

/-- The name of a level in settings. -/
def key : Level → String
  | debug => "DEBUG"
  | info => "INFO"
  | warning => "WARNING"
  | error => "ERROR"
  | critical => "CRITICAL"

/-- The name of a level in records. -/
def word : Level → String
  | debug => "debug"
  | info => "info"
  | warning => "warning"
  | error => "error"
  | critical => "critical"

/-- The level with the given name in settings. -/
def ofKey? (s : String) : Option Level :=
  all.find? (·.key = s)

/-- The level with the given name in records. -/
def ofWord? (s : String) : Option Level :=
  all.find? (·.word = s)

end Level

/-- Something worth a record. -/
structure Event where
  level : Level
  name : String
  fields : List (String × Datum)

/-- A computation that notes events and may fail. -/
structure Run (α : Type) where
  events : List Event
  result : Except Failure α

namespace Run

variable {α β : Type}

instance : Monad Run where
  pure a := ⟨[], .ok a⟩
  bind x f :=
    match x.result with
    | .error e => ⟨x.events, .error e⟩
    | .ok a => ⟨x.events ++ (f a).events, (f a).result⟩

/-- A run that does nothing but end with the given result. -/
def ofExcept (r : Except Failure α) : Run α :=
  ⟨[], r⟩

/-- A run that fails. -/
def fail (e : Failure) : Run α :=
  ⟨[], .error e⟩

/-- A run that notes one event. -/
def note (level : Level) (name : String) (fields : List (String × Datum)) : Run Unit :=
  ⟨[⟨level, name, fields⟩], .ok ()⟩

@[simp] theorem pure_result (a : α) : (pure a : Run α).result = .ok a := rfl

@[simp] theorem ofExcept_result (r : Except Failure α) : (ofExcept r).result = r := rfl

@[simp] theorem fail_result (e : Failure) : (fail e : Run α).result = .error e := rfl

@[simp] theorem note_result (level : Level) (name : String) (fields : List (String × Datum)) :
    (note level name fields).result = .ok () := rfl

/-- The result of two runs after one another does not depend on what they note. -/
@[simp] theorem bind_result (x : Run α) (f : α → Run β) :
    (x >>= f).result = x.result.bind fun a => (f a).result := by
  cases h : x.result <;> simp [bind, h, Except.bind]

end Run

end DocTags
