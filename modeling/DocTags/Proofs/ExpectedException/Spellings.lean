import DocTags.Proofs.ExpectedException.Precedence
import DocTags.Proofs.Tag.CommentLines

/-!
# Two ways to write a code

A code can stand on the line that names the exception or in a tag of its own. On the line it is a
text, and a constant that it names counts only if it is a number. In a tag it stands for the value
of the constant that it names, whatever that is. So the two ways give the same code exactly as long
as no constant is named, or one whose value the line counts as well or shows as the text itself.
-/

namespace DocTags

open Text Pattern Dialect TagTable LiteralRows

namespace ExpectedException

/-- A type, a message of one word and a code, as they are written for an exception. -/
structure Expectation where
  type : List Char
  message : List Char
  code : List Char
  type_ne_nil : type ≠ []
  isTypeChar_of_mem : ∀ c ∈ type, isTypeChar c = true
  message_ne_nil : message ≠ []
  message_plain : ∀ c ∈ message, isBlank c = false ∧ c ≠ '"'
  code_ne_nil : code ≠ []
  code_plain : ∀ c ∈ code, isBlank c = false

namespace Expectation

variable (x : Expectation)

/-- The type and the message as the value of a tag. -/
def value : List Char :=
  x.type ++ ' ' :: x.message

/-- The type, the message and the code as the value of a tag. -/
def fullValue : List Char :=
  x.value ++ ' ' :: x.code

/-- The code on the line that names the exception. -/
def inline : List (List Char) :=
  ['@' :: ("expectedException".toList ++ ' ' :: x.fullValue)]

/-- The code in a tag of its own. -/
def tagged : List (List Char) :=
  ['@' :: ("expectedException".toList ++ ' ' :: x.value),
    '@' :: ("expectedExceptionCode".toList ++ ' ' :: x.code)]

end Expectation

/-- No blank stands in the name of a type. -/
theorem isBlank_of_isTypeChar {c : Char} (h : isTypeChar c = true) : isBlank c = false := by
  rw [Bool.eq_false_iff]
  intro hblank
  have hc := eq_false_of_isBlank (p := isTypeChar) (by decide +kernel) hblank
  exact Bool.false_ne_true (hc.symm.trans h)

theorem isGap_of_isBlank {c : Char} (h : isBlank c = false) : isGap c = false := by
  rw [Bool.eq_false_iff]
  intro hgap
  exact Bool.false_ne_true (h.symm.trans (isBlank_of_isGap hgap))

/-- Words with a space between them stand on one line. -/
theorem forall_mem_words {a b : List Char} (ha : ∀ c ∈ a, c ≠ '\n' ∧ c ≠ '\r')
    (hb : ∀ c ∈ b, isBlank c = false) : ∀ c ∈ a ++ ' ' :: b, c ≠ '\n' ∧ c ≠ '\r' := by
  simp only [List.forall_mem_append, List.forall_mem_cons]
  refine ⟨ha, by decide, fun c hc => ⟨?_, ?_⟩⟩
  · rintro rfl
    exact absurd (hb _ hc) (by decide)
  · rintro rfl
    exact absurd (hb _ hc) (by decide)

theorem isGap_getLast {a b : List Char} (hne : b ≠ []) (hb : ∀ c ∈ b, isBlank c = false) :
    ∀ c ∈ (a ++ ' ' :: b).getLast?, isGap c = false := by
  intro c hc
  rw [← List.singleton_append, ← List.append_assoc, List.getLast?_append_of_ne_nil _ hne] at hc
  exact isGap_of_isBlank (hb c (List.mem_of_getLast? hc))

/-- The word, the type and what is read behind them. -/
theorem reads_type {type : List Char} (hne : type ≠ []) (htype : ∀ c ∈ type, isTypeChar c = true)
    {q : Pattern Field} {s t : List Char} {c : Captures Field} (hs : Stops isTypeChar s)
    (hq : q.Reads s t c) :
    (seq (lit "@expectedException".toList)
      (seq blanks1 (seq (group Field.name (chars1 isTypeChar)) q))).Reads
        ('@' :: ("expectedException".toList ++ ' ' :: (type ++ s))) t
        (c ++ [(Field.name, ⟨type ++ s, s⟩)]) := by
  have hword : (lit "@expectedException".toList : Pattern Field).Reads
      ('@' :: ("expectedException".toList ++ ' ' :: (type ++ s))) (' ' :: (type ++ s)) [] :=
    reads_lit "@expectedException".toList _
  have hblank : (blanks1 : Pattern Field).Reads (' ' :: (type ++ s)) (type ++ s) [] :=
    reads_chars1 (a := [' ']) (by decide) (by decide)
      (stops_append_of_ne_nil hne (fun c hc => isBlank_of_isTypeChar (htype c hc)) s)
  have hname : (group Field.name (chars1 isTypeChar)).Reads (type ++ s) s
      [(Field.name, ⟨type ++ s, s⟩)] :=
    (reads_chars1 hne htype hs).group Field.name
  have hparts := hword.seq (hblank.seq (hname.seq hq))
  rwa [List.append_nil, List.append_nil] at hparts

theorem reads_code {code : List Char} (hne : code ≠ []) (hcode : ∀ c ∈ code, isBlank c = false) :
    (opt (seq (chars1 isGap) (group Field.code (chars fun c => !isBlank c)))).Reads (' ' :: code) []
      [(Field.code, ⟨code, []⟩)] := by
  have hblank : ∀ c ∈ code, isGap c = false := fun c hc => isGap_of_isBlank (hcode c hc)
  have hgap : (chars1 isGap : Pattern Field).Reads (' ' :: code) code [] := by
    have hstops := stops_append_of_ne_nil hne hblank []
    rw [List.append_nil] at hstops
    exact reads_chars1 (a := [' ']) (by decide) (by decide) hstops
  have hword : (chars fun c => !isBlank c : Pattern Field).Reads code [] [] := by
    have hall : ∀ c ∈ code, (!isBlank c) = true := fun c hc => by simp [hcode c hc]
    simpa only [List.append_nil] using reads_chars hall (stops_nil _)
  exact (hgap.seq (hword.group Field.code)).opt

theorem reads_noCode :
    (opt (seq (chars1 isGap) (group Field.code (chars fun c => !isBlank c)))).Reads [] [] [] :=
  reads_opt_of_fails (fails_seq_left (fails_chars1 (stops_nil _)))

theorem reads_end : (seq blanks lineEnd : Pattern Field).Reads [] [] [] :=
  (reads_chars (a := []) (by simp) (stops_nil _)).seq reads_lineEnd

namespace Expectation

variable (x : Expectation)

theorem type_plain : ∀ c ∈ x.type, isBlank c = false :=
  fun c hc => isBlank_of_isTypeChar (x.isTypeChar_of_mem c hc)

theorem value_line : ∀ c ∈ x.value, c ≠ '\n' ∧ c ≠ '\r' := by
  refine forall_mem_words (fun c hc => ⟨?_, ?_⟩) fun c hc => (x.message_plain c hc).1
  · rintro rfl
    exact absurd (x.type_plain _ hc) (by decide)
  · rintro rfl
    exact absurd (x.type_plain _ hc) (by decide)

theorem fullValue_line : ∀ c ∈ x.fullValue, c ≠ '\n' ∧ c ≠ '\r' :=
  forall_mem_words x.value_line x.code_plain

theorem reads_message {s : List Char} (hs : Stops (fun c => !isBlank c) s) :
    (opt (seq (chars1 isGap)
      (group Field.message (alt quotedPattern (chars fun c => !isBlank c))))).Reads
        (' ' :: (x.message ++ s)) s [(Field.message, ⟨x.message ++ s, s⟩)] := by
  have hblank : ∀ c ∈ x.message, isGap c = false :=
    fun c hc => isGap_of_isBlank (x.message_plain c hc).1
  have hquote : ∀ c ∈ x.message, (c == '"') = false :=
    fun c hc => beq_eq_false_iff_ne.mpr (x.message_plain c hc).2
  have hgap : (chars1 isGap : Pattern Field).Reads (' ' :: (x.message ++ s)) (x.message ++ s) [] :=
    reads_chars1 (a := [' ']) (by decide) (by decide)
      (stops_append_of_ne_nil x.message_ne_nil hblank s)
  have hquoted : quotedPattern.Fails (x.message ++ s) :=
    fails_seq_left (fails_char (stops_append_of_ne_nil x.message_ne_nil hquote s))
  have hword : (chars fun c => !isBlank c : Pattern Field).Reads (x.message ++ s) s [] :=
    reads_chars (fun c hc => by simp [(x.message_plain c hc).1]) hs
  have hmessage := hgap.seq ((Reads.alt_right hquoted hword).group Field.message)
  exact hmessage.opt

/-- The line with a code has the three parts. -/
theorem found_inline : expectedExceptionPattern.found
    ('@' :: ("expectedException".toList ++ ' ' :: x.fullValue))
      = some [(.code, x.code), (.message, x.message), (.name, x.type)] := by
  have hvalue : x.fullValue = x.type ++ ' ' :: (x.message ++ ' ' :: x.code) := by
    rw [fullValue, value, List.append_assoc, List.cons_append]
  have hcode := reads_code x.code_ne_nil x.code_plain
  have hparts := (x.reads_message ((stops_cons ..).mpr rfl)).seq (hcode.seq reads_end)
  have hreads := reads_type x.type_ne_nil x.isTypeChar_of_mem
    ((stops_cons ..).mpr rfl) hparts
  rw [hvalue]
  refine (found_of_reads (p := expectedExceptionPattern) hreads).trans ?_
  simp [texts]

/-- The line without a code has the other two. -/
theorem found_plain : expectedExceptionPattern.found
    ('@' :: ("expectedException".toList ++ ' ' :: x.value))
      = some [(.message, x.message), (.name, x.type)] := by
  have hparts := (x.reads_message (stops_nil _)).seq (reads_noCode.seq reads_end)
  have hreads := reads_type x.type_ne_nil x.isTypeChar_of_mem
    ((stops_cons ..).mpr rfl) hparts
  have hvalue : x.value = x.type ++ ' ' :: (x.message ++ []) := by
    rw [value, List.append_nil]
  rw [hvalue]
  refine (found_of_reads (p := expectedExceptionPattern) hreads).trans ?_
  simp [texts]

theorem stops_isGap (s : List Char) : Stops isGap (x.type ++ s) :=
  stops_append_of_ne_nil x.type_ne_nil (fun c hc => isGap_of_isBlank (x.type_plain c hc)) s

theorem tagOn?_value {value : List Char} (hstart : Stops isGap value)
    (hline : ∀ c ∈ value, c ≠ '\n' ∧ c ≠ '\r')
    (hlast : ∀ c ∈ value.getLast?, isGap c = false) :
    tagOn? ('@' :: ("expectedException".toList ++ ' ' :: value))
      = some ("expectedexception", String.ofList value) :=
  (tagOn?_named (by decide) (List.all_eq_true.mp rfl) hstart hline hlast).trans rfl

theorem tagOn?_code : tagOn? ('@' :: ("expectedExceptionCode".toList ++ ' ' :: x.code))
    = some ("expectedexceptioncode", String.ofList x.code) := by
  have hgap : ∀ c ∈ x.code, isGap c = false := fun c hc => isGap_of_isBlank (x.code_plain c hc)
  have hstart := stops_append_of_ne_nil x.code_ne_nil hgap []
  rw [List.append_nil] at hstart
  have hline := (List.forall_mem_append.mp x.fullValue_line).2
  rw [List.forall_mem_cons] at hline
  refine (tagOn?_named (by decide) (List.all_eq_true.mp rfl) hstart hline.2 ?_).trans rfl
  exact fun c hc => hgap c (List.mem_of_getLast? hc)

/-- The lines hold no line feeds. -/
theorem not_mem_line {value : List Char} (name : List Char) (hname : '\n' ∉ name)
    (hline : ∀ c ∈ value, c ≠ '\n' ∧ c ≠ '\r') : '\n' ∉ '@' :: (name ++ ' ' :: value) := by
  simp only [List.mem_cons, List.mem_append, not_or]
  exact ⟨by decide, hname, by decide, fun hmem => (hline _ hmem).1 rfl⟩

theorem not_mem_inline : ∀ line ∈ x.inline, '\n' ∉ line := by
  rw [inline, List.forall_mem_singleton]
  exact not_mem_line _ (by decide) x.fullValue_line

theorem not_mem_tagged : ∀ line ∈ x.tagged, '\n' ∉ line := by
  have hcode : ∀ c ∈ x.code, c ≠ '\n' ∧ c ≠ '\r' := by
    have hline := (List.forall_mem_append.mp x.fullValue_line).2
    exact (List.forall_mem_cons.mp hline).2
  rw [tagged, List.forall_mem_cons, List.forall_mem_singleton]
  exact ⟨not_mem_line _ (by decide) x.value_line, not_mem_line _ (by decide) hcode⟩

variable (s : Symbol)

theorem tagsIn_inline : tagsIn (s.commented x.inline).docComment
    = [("expectedexception", String.ofList x.fullValue)] := by
  have hstart : Stops isGap x.fullValue := by
    rw [fullValue, value, List.append_assoc]
    exact x.stops_isGap _
  have htag := tagOn?_value hstart x.fullValue_line (isGap_getLast x.code_ne_nil x.code_plain)
  rw [tagsIn_lineBlock (s.toList_docComment_commented _) x.not_mem_inline, inline,
    List.filterMap_cons_some htag, List.filterMap_nil]

theorem tagsIn_tagged : tagsIn (s.commented x.tagged).docComment
    = [("expectedexception", String.ofList x.value),
      ("expectedexceptioncode", String.ofList x.code)] := by
  have hmessage : ∀ c ∈ x.message, isBlank c = false := fun c hc => (x.message_plain c hc).1
  have hstart : Stops isGap x.value := x.stops_isGap _
  have htag := tagOn?_value hstart x.value_line (isGap_getLast x.message_ne_nil hmessage)
  rw [tagsIn_lineBlock (s.toList_docComment_commented _) x.not_mem_tagged, tagged,
    List.filterMap_cons_some htag, List.filterMap_cons_some x.tagOn?_code, List.filterMap_nil]

/-- What the line reads is what the comment declares. -/
theorem exists_declaration? {ls : List (List Char)} (h : ∀ line ∈ ls, '\n' ∉ line)
    {read : List (Field × List Char)}
    (hread : ls.findSome? expectedExceptionPattern.found = some read) :
    ∃ m, declaration? (s.commented ls) = some m
      ∧ ∀ f, m.group? f = (read.find? (·.1 = f)).map (·.2) := by
  have hfound := found_expectedException_lineBlock h
  rw [hread, ← s.toList_docComment_commented, found, ← declaration?] at hfound
  obtain ⟨m, hm, rfl⟩ := Option.map_eq_some_iff.mp hfound
  exact ⟨m, hm, m.group?_eq_find?⟩

end Expectation

variable (s : Symbol) (x : Expectation) (constants : Option ConstantLookup)

/-- The code that a symbol expects, if it expects an exception. -/
def codeOf : Except Failure (Option Datum) :=
  (ofSymbol s constants).result.map (Option.map (·.code))

/-- The pattern for messages that the traits of a type give. -/
def traitPattern : Except Failure Datum :=
  match (if s.isTypeLevel then
      (s.traitComments.flatMap (valuesIn · "expectedexceptionmessageregexp")).head? else none) with
  | none => .ok .null
  | some text => resolveContent text constants

/-- The code as it is written: on the line, or in a tag. -/
def writtenCode (m : Match Field) : Except Failure Datum :=
  match m.group? .code with
  | some text => .ok (.text (String.ofList text))
  | none => taggedValue (ofComment s.docComment) (TagTable.ofSymbol s) constants
      "expectedexceptioncode"

/-- Behind a message on the line the code depends on how it is written, and on the pattern for
messages as far as that can fail. -/
theorem codeOf_of_declaration? {m : Match Field} {message : List Char}
    (hm : declaration? s = some m) (hmessage : m.group? .message = some message) :
    codeOf s constants
      = (taggedValue (ofComment s.docComment) (TagTable.ofSymbol s) constants
          "expectedexceptionmessageregexp").bind fun _ =>
        ((writtenCode s constants m).bind (normalizeCode · constants)).map some := by
  rw [codeOf, ofSymbol, ← declaration?, hm]
  simp only [Run.bind_result, Run.ofExcept_result, Run.note_result, Run.pure_result, ofMatch,
    hmessage, writtenCode]
  cases taggedValue (ofComment s.docComment) (TagTable.ofSymbol s) constants
    "expectedexceptionmessageregexp" with
  | error e => rfl
  | ok pattern =>
      cases m.group? .code with
      | some code =>
          simp only [bind, Except.bind, pure, Except.pure]
          cases normalizeCode (.text (String.ofList code)) constants <;> rfl
      | none =>
          simp only [bind, Except.bind, pure, Except.pure]
          cases taggedValue (ofComment s.docComment) (TagTable.ofSymbol s) constants
            "expectedexceptioncode" with
          | error e => rfl
          | ok code =>
              dsimp only
              cases normalizeCode code constants <;> rfl

theorem taggedValue_eq (name : String) :
    taggedValue (ofComment s.docComment) (TagTable.ofSymbol s) constants name
      = match firstValue s name with
        | none => .ok .null
        | some text => resolveContent text constants := by
  cases h : firstValue s name with
  | none => simp only [taggedValue, tagged?_eq_firstValue, h]
  | some text => simp only [taggedValue, tagged?_eq_firstValue, h]

/-- Where the comment gives no pattern for messages, the traits of a type do. -/
theorem taggedValue_pattern {ls : List (List Char)}
    (h : valuesIn (s.commented ls).docComment "expectedexceptionmessageregexp" = []) :
    taggedValue (ofComment (s.commented ls).docComment) (TagTable.ofSymbol (s.commented ls))
      constants "expectedexceptionmessageregexp" = traitPattern s constants := by
  rw [taggedValue_eq, firstValue, h, List.head?_nil, Option.none_or]
  rfl

/-- On the line the code is a text. -/
theorem codeOf_inline : codeOf (s.commented x.inline) constants
    = (traitPattern s constants).bind fun _ =>
      (normalizeCode (.text (String.ofList x.code)) constants).map some := by
  have hread : x.inline.findSome? expectedExceptionPattern.found
      = some [(.code, x.code), (.message, x.message), (.name, x.type)] := by
    rw [Expectation.inline, List.findSome?_singleton, x.found_inline]
  obtain ⟨m, hm, hparts⟩ := Expectation.exists_declaration? s x.not_mem_inline hread
  have hpattern : valuesIn (s.commented x.inline).docComment "expectedexceptionmessageregexp"
      = [] := by
    rw [valuesIn_eq_valuesOf, x.tagsIn_inline]
    rfl
  have hcode : writtenCode (s.commented x.inline) constants m
      = .ok (.text (String.ofList x.code)) := by
    rw [writtenCode, hparts]
    rfl
  rw [codeOf_of_declaration? _ _ hm (hparts .message), taggedValue_pattern s constants hpattern,
    hcode]
  rfl

/-- In a tag the code stands for the constant that it names. -/
theorem codeOf_tagged : codeOf (s.commented x.tagged) constants
    = (traitPattern s constants).bind fun _ =>
      ((resolveContent (String.ofList x.code) constants).bind
        (normalizeCode · constants)).map some := by
  have hread : x.tagged.findSome? expectedExceptionPattern.found
      = some [(.message, x.message), (.name, x.type)] := by
    rw [Expectation.tagged, List.findSome?_cons, x.found_plain]
  obtain ⟨m, hm, hparts⟩ := Expectation.exists_declaration? s x.not_mem_tagged hread
  have hpattern : valuesIn (s.commented x.tagged).docComment "expectedexceptionmessageregexp"
      = [] := by
    rw [valuesIn_eq_valuesOf, x.tagsIn_tagged]
    rfl
  have hfirst : firstValue (s.commented x.tagged) "expectedexceptioncode"
      = some (String.ofList x.code) := by
    rw [firstValue, valuesIn_eq_valuesOf, x.tagsIn_tagged]
    rfl
  have hcode : writtenCode (s.commented x.tagged) constants m
      = resolveContent (String.ofList x.code) constants := by
    rw [writtenCode, hparts, taggedValue_eq, hfirst]
    rfl
  rw [codeOf_of_declaration? _ _ hm (hparts .message), taggedValue_pattern s constants hpattern,
    hcode]

section Constant

variable {constants} {text : String} {lookup : ConstantLookup} {v : Datum}

theorem mem_of_countColonPairs {l : List Char} (h : countColonPairs l ≠ 0) : ':' ∈ l := by
  fun_induction countColonPairs l <;> simp_all

/-- A text with a colon is no number. -/
theorem isSome_matchFront?_of_mem {l : List Char} (h : ':' ∈ l) :
    ((integerPattern.matchFront? l).isSome || (numericPattern.matchFront? l).isSome) = false := by
  have hnone : ∀ p : Pattern Unit, p.endsText = true → p.avoids ':' = true →
      (p.matchFront? l).isSome = false := by
    intro p hend havoids
    cases hm : p.matchFront? l with
    | none => rfl
    | some m =>
        have hread := (reads_of_matchFront? hm).2.canRead
        exact absurd h (hread.not_mem_of_endsText hend havoids (by decide))
  rw [hnone integerPattern rfl rfl, hnone numericPattern rfl rfl,
    Bool.or_self]

/-- What a value of a constant gives for a text on the line that names it. -/
def counted (text : String) : Datum → Except Failure Datum
  | .int n => .ok (.int n)
  | .bool b => .ok (.int b.toNat)
  | .real x => ((Datum.real x).toInt.mapError .fault).map .int
  | _ => .ok (.text text)

theorem normalizeCode_text (h : ':' ∈ text.toList) :
    normalizeCode (.text text) (some lookup) = (lookup text).bind (counted text) := by
  rw [normalizeCode.eq_def]
  dsimp only [Datum.display_text]
  rw [isSome_matchFront?_of_mem h, if_neg Bool.false_ne_true]
  cases lookup text with
  | error e => rfl
  | ok v =>
      cases v with
      | real x =>
          simp only [bind, Except.bind, pure, Except.pure, counted]
          cases (Datum.real x).toInt <;> rfl
      | _ => rfl

/-- A text that stays a text is the same text. -/
theorem eq_of_normalizeCode_text {t u : String}
    (h : normalizeCode (.text t) constants = .ok (.text u)) : t = u := by
  rw [normalizeCode.eq_def] at h
  dsimp only [Datum.display_text] at h
  split at h
  · cases hread : readCode t.toList <;> rw [hread] at h <;> cases h
  · split at h
    · cases h
      rfl
    · rename_i lookup
      cases hlookup : lookup t with
      | error e => rw [hlookup] at h; cases h
      | ok v =>
          rw [hlookup] at h
          cases v with
          | real x =>
              simp only [bind, Except.bind, pure, Except.pure] at h
              cases hint : (Datum.real x).toInt <;> rw [hint] at h <;> cases h
          | _ => cases h <;> rfl

/-- A value that the line counts as well, or shows as the text that names it. -/
def KeepsCode (text : String) : Datum → Prop
  | .null | .int _ | .real _ => True
  | .bool _ => False
  | v => v.display = text

/-- Where the line does not count a value, the tag gives the code exactly if it is shown so. -/
theorem display_eq_iff (h : ':' ∈ text.toList) (hv : lookup text = .ok v)
    (hcounted : ∀ w, counted w v = .ok (.text w))
    (hdisplay : normalizeCode v (some lookup) = normalizeCode (.text v.display) (some lookup)) :
    counted text v = normalizeCode v (some lookup) ↔ v.display = text := by
  rw [hcounted, hdisplay]
  refine ⟨fun heq => eq_of_normalizeCode_text heq.symm, fun heq => ?_⟩
  rw [heq, normalizeCode_text h, hv]
  exact (hcounted text).symm

/-- The line and the tag give the same for a value exactly if it keeps the code. -/
theorem counted_eq_iff (h : ':' ∈ text.toList) (hv : lookup text = .ok v) :
    counted text v = normalizeCode (if v.isNull then .text text else v) (some lookup)
      ↔ KeepsCode text v := by
  cases v with
  | null =>
      refine iff_of_true ?_ trivial
      rw [Datum.isNull, if_pos rfl, normalizeCode_text h, hv]
      rfl
  | int n => exact iff_of_true rfl trivial
  | real x => exact iff_of_true rfl trivial
  | bool b => exact iff_of_false (fun heq => by cases heq) id
  | _ => exact display_eq_iff h hv (fun _ => rfl) rfl

end Constant

/-- The constant that a code names, if it names one with a value, has one that keeps the code. -/
def ConstantKeeps (constants : Option ConstantLookup) (code : String) : Prop :=
  ∀ lookup ∈ constants, countColonPairs code.toList = 1 →
    ∀ v, lookup code = .ok v → KeepsCode code v

/-- The code on the line is the code in the tag exactly as long as its constant keeps it. -/
theorem normalizeCode_eq_iff (code : String) :
    normalizeCode (.text code) constants
        = (resolveContent code constants).bind (normalizeCode · constants)
      ↔ ConstantKeeps constants code := by
  cases constants with
  | none => exact iff_of_true rfl fun _ h => absurd h (Option.not_mem_none _)
  | some lookup =>
      simp only [ConstantKeeps, Option.mem_def, Option.some.injEq, forall_eq']
      by_cases hpairs : countColonPairs code.toList = 1
      · have hcolon := mem_of_countColonPairs (by rw [hpairs]; decide)
        rw [resolveContent, if_neg (not_not.mpr hpairs), normalizeCode_text hcolon]
        cases hlookup : lookup code with
        | error e =>
            refine iff_of_true rfl fun _ v h => ?_
            cases h
        | ok v =>
            simp only [hpairs, forall_const, Except.ok.injEq, forall_eq']
            exact counted_eq_iff hcolon hlookup
      · rw [resolveContent, if_pos hpairs]
        exact iff_of_true rfl fun h => absurd h hpairs

/-- The code on the line that names the exception is the one from a tag of its own exactly if its
constant keeps it, or if neither is read because the pattern for messages has no value. -/
theorem codeOf_inline_eq_tagged_iff :
    codeOf (s.commented x.inline) constants = codeOf (s.commented x.tagged) constants
      ↔ (∃ e, traitPattern s constants = .error e)
        ∨ ConstantKeeps constants (String.ofList x.code) := by
  rw [codeOf_inline, codeOf_tagged]
  cases traitPattern s constants with
  | error e => exact iff_of_true rfl (.inl ⟨e, rfl⟩)
  | ok pattern =>
      have hsome :
          Function.Injective (Except.map (ε := Failure) (some : Datum → Option Datum)) := by
        rintro (e | v) (e' | w) h <;> cases h <;> rfl
      rw [← normalizeCode_eq_iff constants, ← hsome.eq_iff]
      simp [Except.bind]

/-- A code that names a label. -/
def labelled : Expectation where
  type := "Odd".toList
  message := "oops".toList
  code := "ErrorCodes::LABEL".toList
  type_ne_nil := by decide
  isTypeChar_of_mem := by decide
  message_ne_nil := by decide
  message_plain := by decide
  code_ne_nil := by decide
  code_plain := by decide

/-- A constant that is a text stays unread on the line, and replaces the code in a tag. -/
theorem not_forall_codeOf_inline_eq_tagged :
    ¬ ∀ (s : Symbol) (x : Expectation) (constants : Option ConstantLookup),
      codeOf (s.commented x.inline) constants = codeOf (s.commented x.tagged) constants := by
  intro h
  let lookup : ConstantLookup := fun _ => .ok (.text "missing")
  let s : Symbol := ⟨"", "", 20, 25, .null, .null, [], false, none⟩
  have hline : normalizeCode (.text "ErrorCodes::LABEL") (some lookup)
      = .ok (.text "ErrorCodes::LABEL") := normalizeCode_text (by decide)
  have htag : (resolveContent "ErrorCodes::LABEL" (some lookup)).bind
      (normalizeCode · (some lookup)) = .ok (.text "missing") := by
    have hpairs : countColonPairs "ErrorCodes::LABEL".toList = 1 := by decide
    have hplain : ((integerPattern.matchFront? "missing".toList).isSome
        || (numericPattern.matchFront? "missing".toList).isSome) = false := by decide +kernel
    rw [resolveContent, if_neg (not_not.mpr hpairs)]
    change normalizeCode (.text "missing") (some lookup) = _
    rw [normalizeCode.eq_def]
    dsimp only [Datum.display_text]
    rw [hplain]
    rfl
  have hsame := (codeOf_inline s labelled (some lookup)).symm.trans
    ((h s labelled (some lookup)).trans (codeOf_tagged s labelled (some lookup)))
  have hlabel : String.ofList labelled.code = "ErrorCodes::LABEL" := rfl
  rw [hlabel, hline, htag] at hsame
  simp [traitPattern, s, Except.bind, Except.map] at hsame

end ExpectedException

end DocTags
