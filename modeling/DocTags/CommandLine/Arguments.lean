/-!
# Arguments of a command

Arguments are options and plain words. An option has a long name after two hyphens and perhaps a
letter after one; letters can stand together. An option that takes a value has it from its own
argument or from the next one. Two hyphens alone end the options.
-/

namespace DocTags.CommandLine

/-- An option that a command knows. -/
structure OptionSpec (κ : Type) where
  key : κ
  long : String
  letter : Option Char := none
  takesValue : Bool := false

/-- The arguments of a command: options with their values, and plain words. -/
structure Arguments (κ : Type) where
  options : List (κ × String) := []
  words : List String := []

namespace Arguments

variable {κ : Type}

/-- Adds an option in front. -/
def withOption (key : κ) (value : String) (a : Arguments κ) : Arguments κ :=
  { a with options := (key, value) :: a.options }

/-- Adds a word in front. -/
def withWord (word : String) (a : Arguments κ) : Arguments κ :=
  { a with words := word :: a.words }

/-- The values of an option. -/
def values [DecidableEq κ] (a : Arguments κ) (key : κ) : List String :=
  (a.options.filter fun o => o.1 = key).map (·.2)

/-- The last value of an option. -/
def value? [DecidableEq κ] (a : Arguments κ) (key : κ) : Option String :=
  (a.values key).getLast?

/-- The name and the value of an argument with an equals sign. -/
def cutAtEquals (s : List Char) : List Char × Option String :=
  match s.dropWhile (· != '=') with
  | [] => (s, none)
  | _ :: value => (s.takeWhile (· != '='), some (String.ofList value))

/-- What the letters of an argument ask for: options without a value, and perhaps a last one with
the rest of the argument as its value, or with none if nothing is left. -/
def readLetters (specs : List (OptionSpec κ)) :
    List Char → Option (List κ × Option (κ × Option String))
  | [] => some ([], none)
  | c :: s =>
    match specs.find? fun o => o.letter == some c with
    | none => none
    | some o =>
      if o.takesValue then
        some ([], some (o.key, if s.isEmpty then none else some (String.ofList s)))
      else (readLetters specs s).map fun (keys, last) => (o.key :: keys, last)

/-- What one argument asks for: options without a value, and perhaps a last one that takes a value.
None if the argument is no option. -/
def readOption (specs : List (OptionSpec κ)) (s : List Char) :
    Option (List κ × Option (κ × Option String)) :=
  let (name, value) := cutAtEquals s
  match specs.find? fun o => ("--" ++ o.long).toList == name with
  | some o =>
    if o.takesValue then some ([], some (o.key, value))
    else if value.isSome then none
    else some ([o.key], none)
  | none =>
    match s with
    | '-' :: '-' :: _ => none
    | '-' :: letters => readLetters specs letters
    | _ => none

/-- Adds options without a value in front. -/
def withFlags (keys : List κ) (a : Arguments κ) : Arguments κ :=
  keys.foldr (fun k a => a.withOption k "") a

/-- Reads arguments; none if an option is unknown, has no value that it needs or has one that it
does not take. Unless options may stand after words, the first word ends the options. -/
def read (specs : List (OptionSpec κ)) (mixed : Bool) : List String → Option (Arguments κ)
  | [] => some {}
  | arg :: rest =>
    match arg.toList with
    | ['-', '-'] => some { words := rest }
    | '-' :: c :: s =>
      match readOption specs ('-' :: c :: s) with
      | none => none
      | some (flags, none) => (read specs mixed rest).map (withFlags flags)
      | some (flags, some (key, some value)) =>
        (read specs mixed rest).map fun a => withFlags flags (a.withOption key value)
      | some (flags, some (key, none)) =>
        match rest with
        | [] => none
        | value :: rest =>
          (read specs mixed rest).map fun a => withFlags flags (a.withOption key value)
    | _ =>
      if mixed then (read specs mixed rest).map (withWord arg)
      else some { words := arg :: rest }

end Arguments

end DocTags.CommandLine
