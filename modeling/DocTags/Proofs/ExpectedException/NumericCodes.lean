import DocTags.Proofs.Decimal.Rounding
import DocTags.Proofs.Decimal.Written
import DocTags.Proofs.ExpectedException.Precedence

/-!
# Codes that are written as numbers

A code that is a number becomes a whole number. Digits without a point and an exponent are read
exactly. Every other number is first rounded to the nearest binary number, so that what is reported
is the whole part of that one, and a number that is too large is an infinity, which has none.
-/

namespace DocTags.ExpectedException

open Text Pattern Decimal

/-- A code that is written as a number, with blanks around it. -/
structure NumericCode where
  lead : List Char
  number : WrittenDecimal
  trail : List Char
  lead_isBlank : ∀ c ∈ lead, isBlank c = true
  trail_isBlank : ∀ c ∈ trail, isBlank c = true

namespace NumericCode

/-- The written code. -/
def text (w : NumericCode) : List Char :=
  w.lead ++ w.number.text ++ w.trail

/-- The blanks are such as may stand around a number. -/
def IsPadded (w : NumericCode) : Prop :=
  ∀ c ∈ w.lead ++ w.trail, isPadding c = true

/-- The whole part of the number that is written, rounded toward zero. -/
def wholePart (w : NumericCode) : Int :=
  signed w.number.sign.isMinus (w.number.value.numerator / w.number.value.denominator)

end NumericCode

/-- A text is in the form of a number. -/
def isNumeric (s : List Char) : Bool :=
  (integerPattern.matchFront? s).isSome || (numericPattern.matchFront? s).isSome

variable {p : Pattern Unit} {s s' : List Char}

theorem isSome_matchFront?_iff : (p.matchFront? s).isSome = true ↔ ∃ s', p.CanRead s s' := by
  constructor
  · intro h
    obtain ⟨m, hm⟩ := Option.isSome_iff_exists.mp h
    exact ⟨m.span.stop, (reads_of_matchFront? hm).2.canRead⟩
  · rintro ⟨s', h⟩
    obtain ⟨t, c, hreads⟩ := h.exists_reads
    rw [matchFront?_of_reads hreads, Option.isSome_some]

theorem canRead_signPattern :
    signPattern.CanRead s s' ↔ ∃ sign : Sign, s = sign.chars ++ s' := by
  rw [signPattern, canRead_opt, canRead_char]
  constructor
  · rintro (⟨c, hc, rfl⟩ | rfl)
    · rw [Bool.or_eq_true, beq_iff_eq, beq_iff_eq] at hc
      rcases hc with rfl | rfl
      · exact ⟨⟨['+'], .inr (.inl rfl)⟩, rfl⟩
      · exact ⟨⟨['-'], .inr (.inr rfl)⟩, rfl⟩
    · exact ⟨⟨[], .inl rfl⟩, rfl⟩
  · rintro ⟨⟨chars, rfl | rfl | rfl⟩, rfl⟩
    · exact .inr rfl
    · exact .inl ⟨'+', rfl, rfl⟩
    · exact .inl ⟨'-', rfl, rfl⟩

/-- A padded pattern reads a sign and what the pattern reads, between blanks. -/
theorem exists_canRead_padded_iff : (∃ s', (padded p).CanRead s s') ↔ ∃ lead sign core trail,
    s = lead ++ (Sign.chars sign ++ core) ∧ p.CanRead core trail
      ∧ (∀ c ∈ lead, isBlank c = true) ∧ ∀ c ∈ trail, isBlank c = true := by
  simp only [padded, chain, canRead_seq, canRead_chars, canRead_signPattern, canRead_textEnd]
  constructor
  · rintro ⟨s', m, ⟨lead, rfl, hlead⟩, core, ⟨sign, rfl⟩, t, hp, u, ⟨trail, rfl, htrail⟩, -, hend⟩
    refine ⟨lead, sign, core, trail ++ u, rfl, hp, hlead, List.forall_mem_append.mpr ⟨htrail, ?_⟩⟩
    rcases hend with rfl | rfl <;> decide
  · rintro ⟨lead, sign, core, trail, rfl, hp, hlead, htrail⟩
    exact ⟨[], _, ⟨lead, rfl, hlead⟩, core, ⟨sign, rfl⟩, trail, hp, [],
      ⟨trail, (List.append_nil _).symm, htrail⟩, rfl, .inl rfl⟩

/-- The integer pattern reads the codes that are whole numbers. -/
theorem integerPattern_iff : (integerPattern.matchFront? s).isSome = true
    ↔ ∃ w : NumericCode, w.number.IsWhole ∧ s = w.text := by
  rw [isSome_matchFront?_iff, integerPattern, exists_canRead_padded_iff]
  simp only [canRead_chars1]
  constructor
  · rintro ⟨lead, sign, _, trail, rfl, ⟨digits, hne, rfl, hdigits⟩, hlead, htrail⟩
    refine ⟨⟨lead, ⟨sign, ⟨digits, hdigits⟩, none, .inl hne, none⟩, trail, hlead, htrail⟩,
      ⟨rfl, rfl⟩, ?_⟩
    simp only [NumericCode.text, WrittenDecimal.text, WrittenDecimal.body,
      WrittenDecimal.fractionText, WrittenDecimal.exponentText, List.append_nil,
      List.append_assoc]
  · rintro ⟨⟨lead, ⟨sign, whole, fraction, hdigits, exponent⟩, trail, hlead, htrail⟩, hwhole, rfl⟩
    obtain ⟨rfl, rfl⟩ : fraction = none ∧ exponent = none := hwhole
    have hne : whole.chars ≠ [] := by
      rcases hdigits with hne | ⟨r, hr, -⟩
      · exact hne
      · cases hr
    refine ⟨lead, sign, whole.chars ++ trail, trail, ?_, ⟨whole.chars, hne, rfl, whole.isDecimal⟩,
      hlead, htrail⟩
    simp only [NumericCode.text, WrittenDecimal.text, WrittenDecimal.body,
      WrittenDecimal.fractionText, WrittenDecimal.exponentText, List.append_nil,
      List.append_assoc]

/-- Digits, perhaps with a point in front of them or among them. -/
def pointedPattern : Pattern Unit :=
  alt (seq (chars1 isDecimal) (opt (seq (char (· == '.')) (chars isDecimal))))
    (seq (char (· == '.')) (chars1 isDecimal))

/-- A letter and a whole number. -/
def exponentPattern : Pattern Unit :=
  chain [char fun c => c == 'e' || c == 'E', signPattern, chars1 isDecimal]

theorem canRead_pointedPattern : pointedPattern.CanRead s s'
    ↔ ∃ (whole : DigitRow) (fraction : Option DigitRow),
      (whole.chars ≠ [] ∨ ∃ r, fraction = some r ∧ r.chars ≠ [])
      ∧ s = whole.chars ++ (WrittenDecimal.fractionText fraction ++ s') := by
  simp only [pointedPattern, canRead_alt, canRead_seq, canRead_opt, canRead_chars1, canRead_chars,
    canRead_char, beq_iff_eq]
  constructor
  · rintro (⟨t, ⟨digits, hne, rfl, hdigits⟩, ⟨u, ⟨c, rfl, rfl⟩, part, rfl, hpart⟩ | rfl⟩
      | ⟨t, ⟨c, rfl, rfl⟩, part, hne, rfl, hpart⟩)
    · exact ⟨⟨digits, hdigits⟩, some ⟨part, hpart⟩, .inl hne, rfl⟩
    · exact ⟨⟨digits, hdigits⟩, none, .inl hne, rfl⟩
    · exact ⟨⟨[], by simp⟩, some ⟨part, hpart⟩, .inr ⟨_, rfl, hne⟩, rfl⟩
  · rintro ⟨whole, fraction, hdigits, rfl⟩
    by_cases hne : whole.chars = []
    · obtain ⟨r, rfl, hr⟩ := hdigits.resolve_left (· hne)
      rw [hne]
      exact .inr ⟨_, ⟨'.', rfl, rfl⟩, r.chars, hr, rfl, r.isDecimal⟩
    · refine .inl ⟨_, ⟨whole.chars, hne, rfl, whole.isDecimal⟩, ?_⟩
      cases fraction with
      | none => exact .inr rfl
      | some r => exact .inl ⟨_, ⟨'.', rfl, rfl⟩, r.chars, rfl, r.isDecimal⟩

theorem canRead_exponentPattern : exponentPattern.CanRead s s'
    ↔ ∃ e : WrittenExponent, s = e.text ++ s' := by
  simp only [exponentPattern, chain, canRead_seq, canRead_signPattern, canRead_chars1,
    canRead_char, Bool.or_eq_true, beq_iff_eq]
  constructor
  · rintro ⟨t, ⟨c, hc, rfl⟩, u, ⟨sign, rfl⟩, digits, hne, rfl, hdigits⟩
    refine ⟨⟨c, hc, sign, ⟨digits, hdigits⟩, hne⟩, ?_⟩
    simp only [WrittenExponent.text, List.cons_append, List.append_assoc]
  · rintro ⟨e, rfl⟩
    refine ⟨_, ⟨e.letter, e.isLetter, rfl⟩, e.row.chars ++ s', ⟨e.sign, ?_⟩, e.row.chars, e.ne_nil,
      rfl, e.row.isDecimal⟩
    exact List.append_assoc e.sign.chars e.row.chars s'

/-- The numeric pattern reads all codes that are numbers. -/
theorem numericPattern_iff : (numericPattern.matchFront? s).isSome = true
    ↔ ∃ w : NumericCode, s = w.text := by
  have hpattern : numericPattern = padded (seq pointedPattern (opt exponentPattern)) := rfl
  rw [isSome_matchFront?_iff, hpattern, exists_canRead_padded_iff]
  simp only [canRead_seq, canRead_opt, canRead_pointedPattern, canRead_exponentPattern]
  constructor
  · rintro ⟨lead, sign, _, trail, rfl, ⟨m, ⟨whole, fraction, hdigits, rfl⟩, hexponent⟩, hlead,
      htrail⟩
    obtain ⟨exponent, rfl⟩ : ∃ e : Option WrittenExponent,
        m = WrittenDecimal.exponentText e ++ trail := by
      rcases hexponent with ⟨e, rfl⟩ | rfl
      · exact ⟨some e, rfl⟩
      · exact ⟨none, rfl⟩
    refine ⟨⟨lead, ⟨sign, whole, fraction, hdigits, exponent⟩, trail, hlead, htrail⟩, ?_⟩
    simp only [NumericCode.text, WrittenDecimal.text, WrittenDecimal.body, List.append_assoc]
  · rintro ⟨⟨lead, ⟨sign, whole, fraction, hdigits, exponent⟩, trail, hlead, htrail⟩, rfl⟩
    refine ⟨lead, sign, _, trail, ?_, ⟨WrittenDecimal.exponentText exponent ++ trail,
      ⟨whole, fraction, hdigits, rfl⟩, ?_⟩, hlead, htrail⟩
    · simp only [NumericCode.text, WrittenDecimal.text, WrittenDecimal.body, List.append_assoc]
    · cases exponent with
      | none => exact .inr rfl
      | some e => exact .inl ⟨e, rfl⟩

/-- The texts in the form of a number are those of codes that are written as numbers. -/
theorem isNumeric_iff : isNumeric s = true ↔ ∃ w : NumericCode, s = w.text := by
  rw [isNumeric, Bool.or_eq_true, integerPattern_iff, numericPattern_iff]
  exact or_iff_right_of_imp fun ⟨w, _, hw⟩ => ⟨w, hw⟩

/-- A whole number is written without a point and without the letter of an exponent. -/
theorem not_mem_text_of_isWhole (w : NumericCode) (hwhole : w.number.IsWhole) :
    ∀ c ∈ ['.', 'e', 'E'], c ∉ w.text := by
  intro c hc hmem
  have hbody : w.number.body = w.number.whole.chars := by
    rw [WrittenDecimal.body, hwhole.1, hwhole.2]
    exact List.append_nil _
  rw [NumericCode.text, WrittenDecimal.text, hbody] at hmem
  simp only [List.mem_append] at hmem
  have hcases : isBlank c = true ∨ c ∈ w.number.sign.chars ∨ isDecimal c = true := by
    rcases hmem with (h | h | h) | h
    · exact .inl (w.lead_isBlank c h)
    · exact .inr (.inl h)
    · exact .inr (.inr (w.number.whole.isDecimal c h))
    · exact .inl (w.trail_isBlank c h)
  have hsign : ∀ sign : Sign, c ∉ sign.chars := by
    rintro ⟨chars, rfl | rfl | rfl⟩ h
    · cases h
    · exact absurd (List.mem_singleton.mp h ▸ hc) (by decide)
    · exact absurd (List.mem_singleton.mp h ▸ hc) (by decide)
  have hclass : ∀ x ∈ ['.', 'e', 'E'], isBlank x = false ∧ isDecimal x = false := by decide
  rcases hcases with h | h | h
  · exact Bool.false_ne_true ((hclass c hc).1.symm.trans h)
  · exact hsign _ h
  · exact Bool.false_ne_true ((hclass c hc).2.symm.trans h)

theorem exists_mem_text_of_not_isWhole (w : NumericCode) (hwhole : ¬ w.number.IsWhole) :
    ∃ c ∈ ['.', 'e', 'E'], c ∈ w.text := by
  have htext : ∀ c, c ∈ w.number.body → c ∈ w.text := fun c hc =>
    List.mem_append_left _ (List.mem_append_right _ (List.mem_append_right _ hc))
  by_cases hfraction : w.number.fraction = none
  · obtain ⟨e, he⟩ := Option.ne_none_iff_exists'.mp fun h => hwhole ⟨hfraction, h⟩
    refine ⟨e.letter, ?_, htext _ (List.mem_append_right _ (List.mem_append_right _ ?_))⟩
    · rcases e.isLetter with h | h <;> rw [h] <;> decide
    · rw [he]
      exact List.mem_cons_self
  · obtain ⟨r, hr⟩ := Option.ne_none_iff_exists'.mp hfraction
    refine ⟨'.', by decide, htext _ (List.mem_append_right _ (List.mem_append_left _ ?_))⟩
    rw [hr]
    exact List.mem_cons_self

/-- A number with a point or an exponent is in no other form a whole number. -/
theorem integerPattern_text (w : NumericCode) :
    (integerPattern.matchFront? w.text).isSome = true ↔ w.number.IsWhole := by
  rw [integerPattern_iff]
  constructor
  · rintro ⟨w', hwhole', htext⟩
    by_contra hwhole
    obtain ⟨c, hc, hmem⟩ := exists_mem_text_of_not_isWhole w hwhole
    exact not_mem_text_of_isWhole w' hwhole' c hc (htext ▸ hmem)
  · exact fun hwhole => ⟨w, hwhole, rfl⟩

variable {w : NumericCode}

/-- A separator among the blanks makes the text no number. -/
theorem readCode_of_not_isPadded (h : ¬ w.IsPadded) : readCode w.text = .error .notANumber := by
  obtain ⟨c, hc⟩ := not_forall.mp h
  obtain ⟨hmem, hpadding⟩ := Classical.not_imp.mp hc
  rw [Bool.not_eq_true] at hpadding
  have hblank : isBlank c = true :=
    (List.mem_append.mp hmem).elim (w.lead_isBlank c) (w.trail_isBlank c)
  have htext : c ∈ w.text := by
    rcases List.mem_append.mp hmem with h | h
    · exact List.mem_append_left _ (List.mem_append_left _ h)
    · exact List.mem_append_right _ h
  rw [readCode]
  split
  · rw [readInt_of_separator hblank hpadding htext]
    rfl
  · rw [read?_of_separator hblank hpadding htext]

theorem wholePart_of_isWhole (hwhole : w.number.IsWhole) :
    w.wholePart = signed w.number.sign.isMinus (ofDigits w.number.whole.digits) := by
  have hvalue : w.number.value = ⟨ofDigits w.number.whole.digits, 0⟩ := by
    rw [WrittenDecimal.value, WrittenDecimal.fractionDigits, hwhole.1, hwhole.2]
    simp
  have hnumber : ofDigits w.number.whole.digits * Nat.pow 10 0 / Nat.pow 10 0
      = ofDigits w.number.whole.digits := by
    rw [Nat.pow_eq, Nat.pow_zero, Nat.mul_one, Nat.div_one]
  rw [NumericCode.wholePart, hvalue]
  exact congrArg (signed w.number.sign.isMinus) hnumber

/-- Digits without a point and an exponent are read exactly, if they are not too many. -/
theorem readCode_of_isWhole (h : w.IsPadded) (hwhole : w.number.IsWhole) :
    readCode w.text = if w.number.whole.chars.length ≤ maxDigits then .ok w.wholePart
      else .error .notANumber := by
  obtain ⟨hlead, htrail⟩ := List.forall_mem_append.mp h
  rw [readCode, if_pos ((integerPattern_text w).mpr hwhole), NumericCode.text,
    readInt_text w.number hwhole hlead htrail, wholePart_of_isWhole hwhole]
  split <;> rfl

/-- Any other number is rounded first. -/
theorem readCode_of_not_isWhole (h : w.IsPadded) (hwhole : ¬ w.number.IsWhole) :
    readCode w.text
      = (Datum.real (.ofDecimal w.number.sign.isMinus w.number.value)).toInt := by
  obtain ⟨hlead, htrail⟩ := List.forall_mem_append.mp h
  rw [readCode, if_neg (mt (integerPattern_text w).mp hwhole), NumericCode.text,
    read?_text w.number hlead htrail]

theorem signed_inj {negative : Bool} {m n : Nat} :
    signed negative m = signed negative n ↔ m = n := by
  cases negative
  · exact Int.ofNat_inj
  · rw [signed, signed, if_pos rfl, if_pos rfl, Int.neg_inj]
    exact Int.ofNat_inj

/-- The result for a symbol whose exception has a given code. -/
def reportedCode (s : Symbol) (constants : Option (String → Datum)) (m : Match Field)
    (code : Except Fault Int) : Except Failure (Option ExpectedException) :=
  (code.mapError .fault).map fun n => some (given s constants m (.int n))

variable {symbol : Symbol} {constants : Option (String → Datum)} {m : Match Field}

/-- Where the code is in the form of a number, it decides how the reading ends. -/
theorem ofSymbol_of_isNumeric {t : String} (hm : declaration? symbol = some m)
    (hcode : givenCode symbol constants m = .text t) (ht : isNumeric t.toList = true) :
    (ofSymbol symbol (lookup constants)).result
      = reportedCode symbol constants m (readCode t.toList) := by
  have hnormal : normalizeCode (.text t) (lookup constants)
      = ((readCode t.toList).mapError .fault).map .int := by
    rw [normalizeCode.eq_def]
    exact if_pos ht
  rw [ofSymbol_lookup, hm]
  simp only [hcode, hnormal, reportedCode]
  cases readCode t.toList <;> rfl

theorem reportedCode_eq_ok_iff {code : Except Fault Int} {n : Int} :
    reportedCode symbol constants m code = .ok (some (given symbol constants m (.int n)))
      ↔ code = .ok n := by
  cases code with
  | error f => exact iff_of_false nofun nofun
  | ok k =>
      constructor
      · intro h
        have hgiven := Option.some.inj (Except.ok.inj h)
        exact congrArg Except.ok (Datum.int.inj (congrArg ExpectedException.code hgiven))
      · rintro ⟨⟩
        rfl

/-- What a code in the form of a number is read as. Separators around it and too many digits
without a point and an exponent make it no number, and fewer are read exactly. Any other number is
an infinity if it is too large, and otherwise the whole part of the nearest binary number. -/
inductive NumericCode.ReadsAs (w : NumericCode) : Except Fault Int → Prop
  | malformed (h : ¬ w.IsPadded) : w.ReadsAs (.error .notANumber)
  | tooLong (hwhole : w.number.IsWhole) (h : maxDigits < w.number.whole.chars.length) :
      w.ReadsAs (.error .notANumber)
  | exact (h : w.IsPadded) (hwhole : w.number.IsWhole)
      (hlength : w.number.whole.chars.length ≤ maxDigits) : w.ReadsAs (.ok w.wholePart)
  | infinite (h : w.IsPadded) (hwhole : ¬ w.number.IsWhole)
      (hlarge : Binary64.overflow * w.number.value.denominator ≤ w.number.value.numerator) :
      w.ReadsAs (.error .infiniteNumber)
  | rounded (n q : Nat) (h : w.IsPadded) (hwhole : ¬ w.number.IsWhole)
      (hlt : w.number.value.numerator < Binary64.overflow * w.number.value.denominator)
      (hreduced : Binary64.IsReduced n q)
      (hnearest : Binary64.IsNearest (w.number.value.numerator * Nat.pow 2 Binary64.unitBits)
        w.number.value.denominator n q) :
      w.ReadsAs (.ok (Binary64.truncate w.number.sign.isMinus n q))

/-- A code in the form of a number keeps its value: it has not too many digits without a point and
an exponent, or the binary number nearest to it has the same whole part. -/
def NumericCode.IsKept (w : NumericCode) : Prop :=
  w.IsPadded ∧ (w.number.IsWhole ∧ w.number.whole.chars.length ≤ maxDigits
    ∨ ¬ w.number.IsWhole
      ∧ w.number.value.numerator < Binary64.overflow * w.number.value.denominator
      ∧ ∃ n q, Binary64.IsReduced n q
        ∧ Binary64.IsNearest (w.number.value.numerator * Nat.pow 2 Binary64.unitBits)
          w.number.value.denominator n q
        ∧ n * Nat.pow 2 q / Nat.pow 2 Binary64.unitBits
          = w.number.value.numerator / w.number.value.denominator)

theorem readsAs_readCode (w : NumericCode) : w.ReadsAs (readCode w.text) := by
  by_cases hpadded : w.IsPadded
  · by_cases hwhole : w.number.IsWhole
    · rw [readCode_of_isWhole hpadded hwhole]
      split
      · next hlength => exact .exact hpadded hwhole hlength
      · next hlength => exact .tooLong hwhole (Nat.not_le.mp hlength)
    · rw [readCode_of_not_isWhole hpadded hwhole]
      by_cases hlarge : Binary64.overflow * w.number.value.denominator ≤ w.number.value.numerator
      · rw [Binary64.ofDecimal_of_le hlarge]
        exact .infinite hpadded hwhole hlarge
      · obtain ⟨n, q, hrounded, hreduced, hnearest⟩ :=
          Binary64.exists_ofDecimal_of_lt (Nat.not_le.mp hlarge) w.number.sign.isMinus
        rw [hrounded]
        exact .rounded n q hpadded hwhole (Nat.not_le.mp hlarge) hreduced hnearest
  · rw [readCode_of_not_isPadded hpadded]
    exact .malformed hpadded

/-- The value is kept if and only if the code is read as its whole part. -/
theorem NumericCode.ReadsAs.eq_ok_iff {w : NumericCode} {code : Except Fault Int}
    (h : w.ReadsAs code) : code = .ok w.wholePart ↔ w.IsKept := by
  cases h with
  | malformed h => exact iff_of_false nofun fun hkept => h hkept.1
  | tooLong hwhole h =>
      refine iff_of_false nofun ?_
      rintro ⟨-, ⟨-, hlength⟩ | ⟨hnot, -⟩⟩
      · omega
      · exact hnot hwhole
  | exact h hwhole hlength => exact iff_of_true rfl ⟨h, .inl ⟨hwhole, hlength⟩⟩
  | infinite h hwhole hlarge =>
      refine iff_of_false nofun ?_
      rintro ⟨-, ⟨hnot, -⟩ | ⟨-, hlt, -⟩⟩
      · exact hwhole hnot
      · omega
  | rounded n q h hwhole hlt hreduced hnearest =>
      have hsame : Except.ok (Binary64.truncate w.number.sign.isMinus n q)
            = (.ok w.wholePart : Except Fault Int)
          ↔ n * Nat.pow 2 q / Nat.pow 2 Binary64.unitBits
            = w.number.value.numerator / w.number.value.denominator := by
        rw [Except.ok.injEq]
        exact signed_inj
      rw [hsame]
      constructor
      · exact fun heq => ⟨h, .inr ⟨hwhole, hlt, n, q, hreduced, hnearest, heq⟩⟩
      · rintro ⟨-, ⟨hnot, -⟩ | ⟨-, -, k, r, hreduced', hnearest', heq⟩⟩
        · exact absurd hnot hwhole
        · rw [hnearest.value_eq w.number.value.denominator_pos hnearest' hreduced hreduced', heq]

/-- A code in the form of a number is read as said, and it keeps its value under exactly the
condition given. -/
theorem ofSymbol_numericCode {t : String} (hm : declaration? symbol = some m)
    (hcode : givenCode symbol constants m = .text t) (ht : isNumeric t.toList = true) :
    ∃ w : NumericCode, t.toList = w.text
      ∧ (∃ code, w.ReadsAs code
        ∧ (ofSymbol symbol (lookup constants)).result = reportedCode symbol constants m code)
      ∧ ((ofSymbol symbol (lookup constants)).result
          = .ok (some (given symbol constants m (.int w.wholePart))) ↔ w.IsKept) := by
  obtain ⟨w, hw⟩ := isNumeric_iff.mp ht
  have hreads := readsAs_readCode w
  have hresult := ofSymbol_of_isNumeric hm hcode ht
  rw [hw] at hresult
  refine ⟨w, hw, ⟨readCode w.text, hreads, hresult⟩, ?_⟩
  rw [hresult, ← hreads.eq_ok_iff]
  exact reportedCode_eq_ok_iff

/-- A whole number that is written with a point or an exponent keeps its value as long as it fits
into a significand. -/
theorem isKept_of_le {w : NumericCode} {k : Nat} (h : w.IsPadded) (hwhole : ¬ w.number.IsWhole)
    (hvalue : w.number.value.numerator = k * w.number.value.denominator)
    (hk : k ≤ Nat.pow 2 Binary64.precision) : w.IsKept := by
  have hpos := w.number.value.denominator_pos
  have hrange : Nat.pow 2 Binary64.precision < Binary64.overflow := by decide +kernel
  have hlt : w.number.value.numerator < Binary64.overflow * w.number.value.denominator := by
    rw [hvalue]
    exact Nat.mul_lt_mul_of_pos_right (Nat.lt_of_le_of_lt hk hrange) hpos
  obtain ⟨n, q, -, hreduced, hnearest⟩ :=
    Binary64.exists_ofDecimal_of_lt hlt w.number.sign.isMinus
  refine ⟨h, .inr ⟨hwhole, hlt, n, q, hreduced, hnearest, ?_⟩⟩
  rw [hvalue] at hnearest
  rw [hnearest.eq_of_le hpos hk, hvalue, Nat.mul_div_cancel _ hpos,
    Nat.mul_div_cancel _ (Binary64.two_pow_pos _)]

/-- A symbol whose code is not a binary number: it lies between two of them. -/
def betweenSymbol : Symbol :=
  ⟨"/**\n * @expectedException Odd oops 9007199254740993.0\n */", "", 20, 25, .null, .null, [],
    false, none⟩

theorem exists_declaration?_betweenSymbol : ∃ m, declaration? betweenSymbol = some m
    ∧ givenCode betweenSymbol none m = .text "9007199254740993.0" := by
  have hline : (declaration? betweenSymbol).map (fun m => m.group? .code)
      = some (some "9007199254740993.0".toList) := by
    decide +kernel
  obtain ⟨m, hm, hcode⟩ := Option.map_eq_some_iff.mp hline
  refine ⟨m, hm, ?_⟩
  rw [givenCode, given?, inlineCode?, hcode]
  rfl

theorem readCode_between : readCode "9007199254740993.0".toList = .ok 9007199254740992 := by
  decide +kernel

/-- The code of the symbol is one of those that do not keep their value. -/
theorem ofSymbol_between : ∃ m, declaration? betweenSymbol = some m
    ∧ givenCode betweenSymbol none m = .text "9007199254740993.0"
    ∧ isNumeric "9007199254740993.0".toList = true
    ∧ ∃ w : NumericCode, "9007199254740993.0".toList = w.text
      ∧ (∃ code, w.ReadsAs code
        ∧ (ofSymbol betweenSymbol (lookup none)).result = reportedCode betweenSymbol none m code)
      ∧ ((ofSymbol betweenSymbol (lookup none)).result
          = .ok (some (given betweenSymbol none m (.int w.wholePart))) ↔ w.IsKept) := by
  obtain ⟨m, hm, hcode⟩ := exists_declaration?_betweenSymbol
  have hnumeric : isNumeric "9007199254740993.0".toList = true := by decide +kernel
  exact ⟨m, hm, hcode, hnumeric, ofSymbol_numericCode hm hcode hnumeric⟩

theorem isDecimal_betweenDigits : ∀ c ∈ "9007199254740993".toList, isDecimal c = true := by
  decide

theorem betweenDigits_ne_nil : "9007199254740993".toList ≠ [] := by
  decide

theorem isBlank_noBlanks : ∀ c ∈ ([] : List Char), isBlank c = true :=
  List.forall_mem_nil _

/-- The number that is the code of the symbol. -/
def betweenCode : NumericCode :=
  ⟨[], ⟨⟨[], .inl rfl⟩, ⟨"9007199254740993".toList, isDecimal_betweenDigits⟩,
    some ⟨['0'], List.forall_mem_singleton.mpr rfl⟩, .inl betweenDigits_ne_nil, none⟩, [],
    isBlank_noBlanks, isBlank_noBlanks⟩

/-- Not every code in the form of a number keeps its value. -/
theorem not_forall_ofSymbol_wholePart :
    ¬ ∀ (w : NumericCode) (symbol : Symbol) (constants : Option (String → Datum)) (m : Match Field),
      declaration? symbol = some m →
      givenCode symbol constants m = .text (String.ofList w.text) →
      (ofSymbol symbol (lookup constants)).result
        = .ok (some (given symbol constants m (.int w.wholePart))) := by
  intro h
  obtain ⟨m, hm, hcode⟩ := exists_declaration?_betweenSymbol
  have htext : String.ofList betweenCode.text = "9007199254740993.0" := by decide +kernel
  have hnumeric : isNumeric "9007199254740993.0".toList = true := by decide +kernel
  have hkept := h betweenCode betweenSymbol none m hm (htext ▸ hcode)
  rw [ofSymbol_of_isNumeric hm hcode hnumeric, reportedCode_eq_ok_iff, readCode_between] at hkept
  have hpart : betweenCode.wholePart = 9007199254740993 := by decide +kernel
  rw [hpart] at hkept
  exact absurd (Except.ok.inj hkept) (by decide)

end DocTags.ExpectedException
