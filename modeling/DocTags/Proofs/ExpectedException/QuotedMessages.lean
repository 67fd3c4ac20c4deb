import DocTags.Proofs.Decimal.Digits
import DocTags.Proofs.ExpectedException.Spellings

/-!
# Messages in double quotes

Between double quotes a backslash takes the next character with it, so a message can hold any text
of one line if its backslashes and its quotes stand behind a backslash. The whole of it is read, but
only the quotes lose their backslash again: every backslash of the message comes out twice.
-/

namespace DocTags.ExpectedException

open Text Pattern Dialect TagTable

/-- The text with a backslash in front of every backslash and every double quote. -/
def escaped (message : List Char) : List Char :=
  message.flatMap fun c => if c = '\\' ∨ c = '"' then ['\\', c] else [c]

/-- The text as it is written between double quotes. -/
def quoted (message : List Char) : List Char :=
  '"' :: (escaped message ++ ['"'])

/-- The text with every backslash written twice. -/
def doubled (message : List Char) : List Char :=
  message.flatMap fun c => if c = '\\' then ['\\', '\\'] else [c]

variable {message s : List Char} {c : Char}

theorem escaped_cons_of_special (h : c = '\\' ∨ c = '"') :
    escaped (c :: message) = '\\' :: c :: escaped message := by
  rw [escaped, List.flatMap_cons, if_pos h]
  rfl

theorem escaped_cons_of_plain (h : ¬ (c = '\\' ∨ c = '"')) :
    escaped (c :: message) = c :: escaped message := by
  rw [escaped, List.flatMap_cons, if_neg h]
  rfl

/-- No quote stands at the front of an escaped text. -/
theorem head?_escaped_ne (message : List Char) : (escaped message).head? ≠ some '"' := by
  cases message with
  | nil => simp [escaped]
  | cons c message =>
      by_cases h : c = '\\' ∨ c = '"'
      · rw [escaped_cons_of_special h]
        simp
      · rw [escaped_cons_of_plain h]
        simpa using fun hc : c = '"' => h (.inr hc)

theorem not_mem_escaped {x : Char} (hx : x ≠ '\\') (h : x ∉ message) : x ∉ escaped message := by
  simp only [escaped, List.mem_flatMap, not_exists, not_and]
  intro c hc hmem
  have hne : x ≠ c := fun he => h (he ▸ hc)
  split at hmem <;> simp_all

theorem unescape_of_ne (h : ¬ (c = '\\' ∧ s.head? = some '"')) :
    unquote.unescape (c :: s) = c :: unquote.unescape s := by
  rw [unquote.unescape]
  rintro t rfl rfl
  exact h ⟨rfl, rfl⟩

/-- Only the quotes lose their backslash. -/
theorem unescape_escaped (message : List Char) :
    unquote.unescape (escaped message) = doubled message := by
  induction message with
  | nil => rfl
  | cons c message ih =>
      rw [doubled, List.flatMap_cons, ← doubled]
      by_cases hslash : c = '\\'
      · have hhead : ¬ ('\\' = '\\' ∧ (escaped message).head? = some '"') :=
          fun h => head?_escaped_ne message h.2
        rw [escaped_cons_of_special (.inl hslash), hslash, unescape_of_ne (by simp),
          unescape_of_ne hhead, ih]
        rfl
      · rw [if_neg hslash]
        by_cases hquote : c = '"'
        · rw [escaped_cons_of_special (.inr hquote), hquote, unquote.unescape, ih]
          rfl
        · rw [escaped_cons_of_plain (by simp [hslash, hquote]),
            unescape_of_ne fun h => hslash h.1, ih]
          rfl

theorem unquote_quoted (message : List Char) : unquote (quoted message) = doubled message := by
  simp only [quoted, unquote, List.reverse_append, List.reverse_singleton, List.singleton_append,
    List.reverse_reverse, unescape_escaped]

theorem trim_quoted (message : List Char) : trim (quoted message) = quoted message :=
  trim_eq_self ⟨'"', escaped message ++ ['"'], rfl, by decide⟩
    ⟨'"' :: escaped message, '"', rfl, by decide⟩

theorem length_doubled (message : List Char) :
    (doubled message).length = message.length + message.count '\\' := by
  induction message with
  | nil => rfl
  | cons c message ih =>
      rw [doubled, List.flatMap_cons, ← doubled, List.length_append, ih, List.length_cons,
        List.count_cons]
      by_cases hc : c = '\\'
      · simp [hc]
        omega
      · simp [hc]
        omega

/-- A message stays as it is exactly if it holds no backslash. -/
theorem doubled_eq_self_iff : doubled message = message ↔ '\\' ∉ message := by
  constructor
  · intro h
    have hlength := length_doubled message
    rw [h] at hlength
    exact List.count_eq_zero.mp (by omega)
  · intro h
    have hplain : doubled message = message.flatMap fun c => [c] := by
      apply List.flatMap_congr
      intro c hc
      exact if_neg fun hslash : c = '\\' => h (hslash ▸ hc)
    rw [hplain, List.flatMap_singleton']

/-- Between the quotes a plain character is read alone and a backslash with the next character. -/
theorem reads_escaped (hfeed : '\n' ∉ message) (s : List Char) :
    (star .greedy (alt (char fun c => c != '"' && c != '\\' && c != '\n')
      (seq (char (· == '\\')) (char inLine))) : Pattern Field).Reads
        (escaped message ++ '"' :: s) ('"' :: s) [] := by
  induction message with
  | nil =>
      refine reads_star_of_fails rfl (fails_alt (fails_char ?_) (fails_seq_left (fails_char ?_)))
      · exact (stops_cons ..).mpr rfl
      · exact (stops_cons ..).mpr rfl
  | cons c message ih =>
      rw [List.mem_cons, not_or] at hfeed
      by_cases hc : c = '\\' ∨ c = '"'
      · have hpair : (seq (char (· == '\\')) (char inLine) : Pattern Field).Reads
            ('\\' :: c :: (escaped message ++ '"' :: s)) (escaped message ++ '"' :: s) [] :=
          (reads_char rfl).seq (reads_char (by simpa [inLine] using Ne.symm hfeed.1))
        have hbody := Reads.alt_right
          (p := char fun c => c != '"' && c != '\\' && c != '\n')
          (fails_char ((stops_cons ..).mpr rfl)) hpair
        rw [escaped_cons_of_special hc]
        exact hbody.star rfl (ih hfeed.2)
      · have hplain : (c != '"' && c != '\\' && c != '\n') = true := by
          rw [not_or] at hc
          simp [hc.1, hc.2, Ne.symm hfeed.1]
        rw [escaped_cons_of_plain hc]
        exact (reads_char hplain).alt_left.star rfl (ih hfeed.2)

theorem reads_quoted (hfeed : '\n' ∉ message) (s : List Char) :
    quotedPattern.Reads (quoted message ++ s) s [] := by
  have hclosing : (char (· == '"') : Pattern Field).Reads ('"' :: s) s [] := reads_char rfl
  have hsplit : quoted message ++ s = '"' :: (escaped message ++ '"' :: s) := by
    rw [quoted, List.cons_append, List.append_assoc, List.singleton_append]
  rw [hsplit]
  exact (reads_char rfl).seq ((reads_escaped hfeed s).seq hclosing)

theorem reads_quotedMessage (hfeed : '\n' ∉ message) (s : List Char) :
    (opt (seq (chars1 isGap)
      (group Field.message (alt quotedPattern (chars fun c => !isBlank c))))).Reads
        (' ' :: (quoted message ++ s)) s [(Field.message, ⟨quoted message ++ s, s⟩)] := by
  have hgap : (chars1 isGap : Pattern Field).Reads (' ' :: (quoted message ++ s))
      (quoted message ++ s) [] :=
    reads_chars1 (a := [' ']) (by decide) (by decide) ((stops_cons ..).mpr rfl)
  exact (hgap.seq ((reads_quoted hfeed s).alt_left.group Field.message)).opt

/-- A type and a message of one line, as they are declared. -/
structure QuotedException where
  type : List Char
  message : List Char
  type_ne_nil : type ≠ []
  isTypeChar_of_mem : ∀ c ∈ type, isTypeChar c = true
  not_mem_message : '\n' ∉ message

/-- What may stand behind the message: a code, behind a space. -/
def codeText : Option Int → List Char
  | none => []
  | some c => ' ' :: Decimal.intText c

namespace QuotedException

variable (x : QuotedException)

/-- The line that names the exception, with its message in quotes and perhaps a code. -/
def line (code : Option Int) : List Char :=
  '@' :: ("expectedException".toList
    ++ ' ' :: (x.type ++ ' ' :: (quoted x.message ++ codeText code)))

/-- What the parts of the line read. -/
def read (code : Option Int) : List (Field × List Char) :=
  (code.toList.map fun c => (.code, Decimal.intText c))
    ++ [(.message, quoted x.message), (.name, x.type)]

theorem found_line (code : Option Int) :
    expectedExceptionPattern.found (x.line code) = some (x.read code) := by
  have hend : ∃ c, (seq (opt (seq (chars1 isGap) (group Field.code (chars fun c => !isBlank c))))
      (seq blanks lineEnd)).Reads (codeText code) [] c
        ∧ texts c = code.toList.map fun c => (Field.code, Decimal.intText c) := by
    cases code with
    | none => exact ⟨_, reads_noCode.seq reads_end, rfl⟩
    | some n =>
        have hplain : ∀ c ∈ Decimal.intText n, isBlank c = false :=
          Decimal.forall_mem_intText (by decide) n
        refine ⟨_, (reads_code (Decimal.intText_ne_nil n) hplain).seq reads_end, ?_⟩
        simp [texts]
  obtain ⟨c, hend, htexts⟩ := hend
  have hparts := (reads_quotedMessage x.not_mem_message (codeText code)).seq hend
  have hreads := reads_type x.type_ne_nil x.isTypeChar_of_mem
    ((stops_cons ..).mpr (by decide +kernel)) hparts
  refine (found_of_reads (p := expectedExceptionPattern) hreads).trans ?_
  rw [read, ← htexts]
  simp [texts]

theorem not_mem_line (code : Option Int) : '\n' ∉ x.line code := by
  have htype : '\n' ∉ x.type :=
    fun hmem => absurd (x.isTypeChar_of_mem _ hmem) (by decide +kernel)
  have hquoted : '\n' ∉ quoted x.message := by
    simp only [quoted, List.mem_cons, List.mem_append, not_or]
    exact ⟨by decide, not_mem_escaped (by decide) x.not_mem_message, by decide, by simp⟩
  have hcode : '\n' ∉ codeText code := by
    cases code with
    | none => exact List.not_mem_nil
    | some n =>
        rw [codeText, List.mem_cons, not_or]
        have hdigits := Decimal.forall_mem_intText (P := (· ≠ '\n')) (by decide) n
        exact ⟨by decide, fun hmem => hdigits _ hmem rfl⟩
  simp only [line, List.mem_cons, List.mem_append, not_or]
  exact ⟨by decide, by decide, by decide, htype, by decide, hquoted, hcode⟩

/-- The symbol with a comment in which the line stands between others. -/
def declaredBy (s : Symbol) (before after : List (List Char)) (code : Option Int) : Symbol :=
  s.commented (before ++ x.line code :: after)

/-- The exception that is expected with a code. -/
def expected (s : Symbol) (constants : Option (String → Datum)) (code : Datum) :
    ExpectedException where
  type := String.ofList x.type
  code := code
  message := String.ofList (doubled x.message)
  messagePattern :=
    (orEmpty ((given? s constants none "expectedexceptionmessageregexp").getD .null)).display

variable {x} {s : Symbol} {before after : List (List Char)}
  (hlines : ∀ line ∈ before ++ after, '\n' ∉ line)
  (hbefore : ∀ line ∈ before, expectedExceptionPattern.found line = none)

include hlines hbefore

/-- The line declares what is expected. -/
theorem exists_declaration? (code : Option Int) :
    ∃ m, declaration? (x.declaredBy s before after code) = some m
      ∧ ∀ f, m.group? f = ((x.read code).find? (·.1 = f)).map (·.2) := by
  rw [List.forall_mem_append] at hlines
  refine Expectation.exists_declaration? s ?_ ?_
  · exact List.forall_mem_append.mpr
      ⟨hlines.1, List.forall_mem_cons.mpr ⟨x.not_mem_line code, hlines.2⟩⟩
  · rw [List.findSome?_append, List.findSome?_eq_none_iff.mpr hbefore, Option.none_or,
      List.findSome?_cons, x.found_line]

theorem ofSymbol_declaredBy (constants : Option (String → Datum)) (code : Option Int) :
    (ofSymbol (x.declaredBy s before after code) (lookup constants)).result
      = (normalizeCode
          ((given? (x.declaredBy s before after code) constants
            (code.map fun n => .text (String.ofList (Decimal.intText n)))
            "expectedexceptioncode").getD .null) (lookup constants)).map
        fun c => some (x.expected (x.declaredBy s before after code) constants c) := by
  obtain ⟨m, hm, hparts⟩ := exists_declaration? (x := x) hlines hbefore code
  have hcode : inlineCode? m = code.map fun n => .text (String.ofList (Decimal.intText n)) := by
    rw [inlineCode?, hparts]
    cases code <;> rfl
  have hmessage : inlineMessage? m = some (.text (String.ofList (doubled x.message))) := by
    have hgroup : m.group? .message = some (quoted x.message) := by
      rw [hparts]
      cases code <;> rfl
    rw [inlineMessage?, hgroup, Option.map_some, trim_quoted, unquote_quoted]
  have hname : m.groupD .name = x.type := by
    rw [Match.groupD, hparts]
    cases code <;> rfl
  rw [ofSymbol_lookup, hm]
  simp only [givenCode, hcode, given, hmessage, hname, expected]
  rfl

end QuotedException

theorem isSome_matchFront?_intText (n : Int) :
    (integerPattern.matchFront? (Decimal.intText n)).isSome = true := by
  have hdigits : (chars1 isDecimal : Pattern Unit).Reads (Decimal.natText n.natAbs) [] [] := by
    have hread := reads_numeral (κ := Unit) isDecimal (by decide) (.ofNat n.natAbs) (stops_nil _)
    rwa [List.append_nil] at hread
  have hsigned : ∃ s c, signPattern.Reads (Decimal.intText n) s c
      ∧ s = Decimal.natText n.natAbs := by
    by_cases hn : n < 0
    · rw [Decimal.intText, if_pos hn]
      exact ⟨_, _, (reads_char rfl).opt, rfl⟩
    · have hstops : Stops (fun c => c == '+' || c == '-') (Decimal.natText n.natAbs ++ []) :=
        (Numeral.ofNat n.natAbs).stops (by decide) []
      rw [List.append_nil] at hstops
      rw [Decimal.intText, if_neg hn]
      exact ⟨_, _, reads_opt_of_fails (fails_char hstops), rfl⟩
  have hblanks :
      (chars isBlank : Pattern Unit).Reads (Decimal.intText n) (Decimal.intText n) [] := by
    have hstops := stops_append (Decimal.forall_mem_intText (P := fun c => isBlank c = false)
      (by decide) n) (stops_nil isBlank)
    rw [List.append_nil] at hstops
    exact reads_chars (a := []) (by simp) hstops
  have hend : (seq (chars isBlank) textEnd : Pattern Unit).Reads [] [] [] :=
    (reads_chars (a := []) (by simp) (stops_nil _)).seq reads_textEnd
  obtain ⟨s, c, hsign, rfl⟩ := hsigned
  have hwhole := hblanks.seq (hsign.seq (hdigits.seq hend))
  rw [matchFront?_of_reads (p := integerPattern) hwhole, Option.isSome_some]

/-- A whole number behind the message is the code if it does not have too many digits. -/
theorem normalizeCode_intText (n : Int) (constants : Option ConstantLookup) :
    normalizeCode (.text (String.ofList (Decimal.intText n))) constants
      = if (Decimal.natText n.natAbs).length ≤ Decimal.maxDigits then .ok (.int n)
        else .error (.fault .notANumber) := by
  rw [normalizeCode.eq_def]
  dsimp only [Datum.display_text]
  rw [String.toList_ofList, isSome_matchFront?_intText, Bool.true_or, if_pos rfl, readCode,
    if_pos (isSome_matchFront?_intText n), Decimal.readInt_intText]
  split <;> rfl

/-- A line with a message in double quotes declares the type, the message with every backslash
twice, and the code as long as this does not have too many digits. Without a code on the line, tags
say which code is expected. So the messages that are reported as they are meant are those without a
backslash. -/
theorem ofSymbol_quotedMessage (x : QuotedException) (s : Symbol) {before after : List (List Char)}
    (hlines : ∀ line ∈ before ++ after, '\n' ∉ line)
    (hbefore : ∀ line ∈ before, expectedExceptionPattern.found line = none)
    (constants : Option (String → Datum)) :
    (∀ n, (ofSymbol (x.declaredBy s before after (some n)) (lookup constants)).result
      = if (Decimal.natText n.natAbs).length ≤ Decimal.maxDigits then
          .ok (some (x.expected (x.declaredBy s before after (some n)) constants (.int n)))
        else .error (.fault .notANumber))
    ∧ (ofSymbol (x.declaredBy s before after none) (lookup constants)).result
      = (normalizeCode ((given? (x.declaredBy s before after none) constants none
          "expectedexceptioncode").getD .null) (lookup constants)).map
        (fun code => some (x.expected (x.declaredBy s before after none) constants code))
    ∧ ((x.expected s constants .null).message = String.ofList x.message ↔ '\\' ∉ x.message) := by
  refine ⟨fun n => ?_, QuotedException.ofSymbol_declaredBy hlines hbefore constants none, ?_⟩
  · rw [QuotedException.ofSymbol_declaredBy hlines hbefore, Option.map_some, given?, Option.some_or,
      Option.getD_some, normalizeCode_intText]
    split <;> rfl
  · rw [QuotedException.expected, String.ofList_inj, doubled_eq_self_iff]

/-- A symbol without a comment. -/
def plainSymbol : Symbol :=
  ⟨"", "", 20, 25, .null, .null, [], false, none⟩

/-- An exception with a backslash in its message. -/
def slashed : QuotedException :=
  ⟨"Broken".toList, "a\\b".toList, by decide, by decide +kernel, by decide⟩

/-- The backslash of the message is reported twice. -/
theorem ofSymbol_slashed :
    (ofSymbol (slashed.declaredBy plainSymbol [] [] (some 5)) none).result
      = .ok (some ⟨"Broken", .int 5, "a\\\\b", ""⟩) := by
  have hpattern : firstValue (slashed.declaredBy plainSymbol [] [] (some 5))
      "expectedexceptionmessageregexp" = none := by
    decide +kernel
  have hlines : ∀ line ∈ ([] ++ [] : List (List Char)), '\n' ∉ line := by simp
  refine ((ofSymbol_quotedMessage slashed plainSymbol hlines (by simp) none).1 5).trans ?_
  rw [if_pos (by decide), QuotedException.expected, given?, hpattern]
  rfl

/-- Not every message comes out of its quotes as it was meant. -/
theorem not_forall_ofSymbol_quotedMessage :
    ¬ ∀ (x : QuotedException) (s : Symbol) (n : Int), ∃ e,
      (ofSymbol (x.declaredBy s [] [] (some n)) none).result = .ok (some e)
      ∧ e.type = String.ofList x.type ∧ e.message = String.ofList x.message
      ∧ e.code = .int n := by
  intro h
  obtain ⟨e, he, -, hmessage, -⟩ := h slashed plainSymbol 5
  have hlines : ∀ line ∈ ([] ++ [] : List (List Char)), '\n' ∉ line := by simp
  have hresult := QuotedException.ofSymbol_declaredBy (x := slashed) (s := plainSymbol) hlines
    (by simp) none (some 5)
  obtain ⟨code, -, hcode⟩ := exists_of_map_eq_ok (hresult.symm.trans he)
  have hdoubled : "a\\\\b" = e.message :=
    congrArg ExpectedException.message (Option.some.inj hcode)
  rw [hmessage] at hdoubled
  exact absurd hdoubled (by decide)

end DocTags.ExpectedException
