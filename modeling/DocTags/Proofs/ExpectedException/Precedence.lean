import DocTags.ExpectedException
import DocTags.Proofs.Fallible
import DocTags.Proofs.Tag.Tables

/-!
# Precedence of what is expected

The line that names the exception comes first for every part of it, the symbol's own tags come
second and, for a type, the tags of its traits last. Only the line says whether an exception is
expected. A tag of the symbol's own counts even if it has no value.
-/

namespace DocTags.ExpectedException

open Text Pattern Dialect TagTable

/-- The lookup of constants that never fails. -/
def lookup (constants : Option (String → Datum)) : Option ConstantLookup :=
  constants.map fun value text => .ok (value text)

/-- The value of the constant that a text names, or the text. -/
def resolved (constants : Option (String → Datum)) (text : String) : Datum :=
  match constants with
  | none => .text text
  | some value =>
    if countColonPairs text.toList = 1 ∧ (value text).isNull = false then value text
    else .text text

/-- The first value of the symbol's own tags with a name, else of those of a type's traits. -/
def firstValue (s : Symbol) (name : String) : Option String :=
  (valuesIn s.docComment name).head?.or
    (if s.isTypeLevel then (s.traitComments.flatMap (valuesIn · name)).head? else none)

/-- What is given for a part: what stands on the line, else what tags with a name say. -/
def given? (s : Symbol) (constants : Option (String → Datum)) (inline : Option Datum)
    (name : String) : Option Datum :=
  inline.or ((firstValue s name).map (resolved constants))

/-- The message on the line, without its quotes. -/
def inlineMessage? (m : Match Field) : Option Datum :=
  (m.group? .message).map fun text => .text (String.ofList (unquote (trim text)))

/-- The code on the line. -/
def inlineCode? (m : Match Field) : Option Datum :=
  (m.group? .code).map fun text => .text (String.ofList text)

/-- The code that is given, null if there is none. -/
def givenCode (s : Symbol) (constants : Option (String → Datum)) (m : Match Field) : Datum :=
  (given? s constants (inlineCode? m) "expectedexceptioncode").getD .null

/-- The exception that is given, with its code as it is reported. -/
def given (s : Symbol) (constants : Option (String → Datum)) (m : Match Field) (code : Datum) :
    ExpectedException where
  type := String.ofList (m.groupD .name)
  code := code
  message :=
    ((given? s constants (inlineMessage? m) "expectedexceptionmessage").getD (.text "")).display
  messagePattern :=
    (orEmpty ((given? s constants none "expectedexceptionmessageregexp").getD .null)).display

/-- The line of the symbol's own comment that names an exception. -/
def declaration? (s : Symbol) : Option (Match Field) :=
  expectedExceptionPattern.search? (stripDelimiters s.docComment.toList)

variable (s : Symbol) (constants : Option (String → Datum))

theorem resolveContent_lookup (text : String) :
    resolveContent text (lookup constants) = .ok (resolved constants text) := by
  cases constants with
  | none => rfl
  | some value =>
      simp only [lookup, Option.map_some, resolveContent, resolved]
      by_cases hcolons : countColonPairs text.toList = 1
      · cases hnull : (value text).isNull <;>
          simp [hcolons, hnull, bind, Except.bind, pure, Except.pure]
      · simp [hcolons]

theorem isNull_resolved (text : String) : (resolved constants text).isNull = false := by
  cases constants with
  | none => rfl
  | some value =>
      rw [resolved]
      split
      · next h => exact h.2
      · rfl

theorem tagged?_eq_head? (own merged : TagTable) (name : String) :
    tagged? own merged name = (own.values name).head?.or (merged.values name).head? := by
  rw [tagged?, values]
  cases own.get? name with
  | none => rfl
  | some vs => cases vs <;> rfl

/-- Where the symbol has no value of its own the first merged value is one of its traits. -/
theorem tagged?_eq_firstValue (name : String) :
    tagged? (ofComment s.docComment) (TagTable.ofSymbol s) name = firstValue s name := by
  rw [tagged?_eq_head?, values_ofComment, values_ofSymbol, firstValue, sources, List.flatMap_append]
  cases hown : valuesIn s.docComment name with
  | cons v vs => rfl
  | nil => cases s.isTypeLevel <;> simp [hown]

theorem taggedValue_lookup (name : String) :
    taggedValue (ofComment s.docComment) (TagTable.ofSymbol s) (lookup constants) name
      = .ok ((given? s constants none name).getD .null) := by
  rw [taggedValue, tagged?_eq_firstValue, given?, Option.none_or]
  cases firstValue s name with
  | none => rfl
  | some v => exact resolveContent_lookup constants v

theorem text_of_isNull (name : String) :
    (if ((given? s constants none name).getD .null).isNull then .text ""
      else (given? s constants none name).getD .null)
      = (given? s constants none name).getD (.text "") := by
  rw [given?, Option.none_or]
  cases firstValue s name with
  | none => rfl
  | some v => exact if_neg (by simp [isNull_resolved])

/-- What is said on the line and in tags is put together, and only the code can fail to be read. -/
theorem ofMatch_lookup (m : Match Field) :
    ofMatch s (lookup constants) m
      = (normalizeCode (givenCode s constants m) (lookup constants)).map
        (given s constants m) := by
  unfold given
  simp only [ofMatch, taggedValue_lookup, givenCode, inlineMessage?, inlineCode?]
  -- the line may have either part without the other
  cases m.group? .message with
  | some message =>
      cases m.group? .code <;> rfl
  | none =>
      simp only [Option.map_none, ← text_of_isNull]
      cases m.group? .code <;> rfl

theorem ofSymbol_lookup : (ofSymbol s (lookup constants)).result
    = match declaration? s with
      | none => .ok none
      | some m => (normalizeCode (givenCode s constants m) (lookup constants)).map
          fun code => some (given s constants m code) := by
  rw [ofSymbol, ← declaration?]
  cases declaration? s with
  | none => rfl
  | some m =>
      simp only [Run.bind_result, Run.ofExcept_result, ofMatch_lookup]
      cases normalizeCode (givenCode s constants m) (lookup constants) <;> rfl

variable (traits : List String)

end DocTags.ExpectedException
