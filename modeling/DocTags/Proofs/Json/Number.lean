import DocTags.Json.Reader
import DocTags.Proofs.Text.Numeral

/-!
# JSON numbers

A number is written with digits, perhaps a fraction and an exponent behind them, and perhaps a minus
in front. Without a fraction and an exponent it is a whole number, otherwise the binary number next
to its decimal value.
-/

namespace DocTags.Json

open Pattern (Stops stops_cons takeWhile_append_of_stops dropWhile_append_of_stops)

/-- An exponent: its letter, a sign if there is one, and its digits. -/
structure Exponent where
  letter : Char
  isLetter : letter = 'e' ∨ letter = 'E'
  sign : List Char
  isSign : sign = [] ∨ sign = ['+'] ∨ sign = ['-']
  digits : Numeral

namespace Exponent

/-- The written exponent. -/
def text (e : Exponent) : List Char :=
  e.letter :: (e.sign ++ e.digits.digits)

/-- The number that the exponent stands for. -/
def value (e : Exponent) : Int :=
  Decimal.signed (e.sign = ['-']) e.digits.value

end Exponent

/-- A number as it is written. -/
structure WrittenNumber where
  isNegative : Bool
  whole : Numeral
  /-- Only a lone zero starts with one. -/
  eq_zero : whole.digits.head? = some '0' → whole.digits = ['0']
  fraction : Option Numeral
  exponent : Option Exponent

namespace WrittenNumber

/-- The written fraction, if there is one. -/
def fractionText : Option Numeral → List Char
  | none => []
  | some n => '.' :: n.digits

/-- The written exponent, if there is one. -/
def exponentText : Option Exponent → List Char
  | none => []
  | some e => e.text

/-- The written number. -/
def text (w : WrittenNumber) : List Char :=
  (if w.isNegative then ['-'] else [])
    ++ (w.whole.digits ++ (fractionText w.fraction ++ exponentText w.exponent))

/-- The number that is written. -/
def value (w : WrittenNumber) : Datum :=
  match w.fraction, w.exponent with
  | none, none => .int (Decimal.signed w.isNegative w.whole.value)
  | none, some e => .real (.ofDecimal w.isNegative ⟨w.whole.value, e.value⟩)
  | some n, e =>
    .real (.ofDecimal w.isNegative
      ⟨Decimal.ofDigits ((w.whole.digits ++ n.digits).map fun c => c.toNat - 48),
        (e.map Exponent.value).getD 0 - n.digits.length⟩)

/-- A whole number has no more digits than can be read. -/
def IsShort (w : WrittenNumber) : Prop :=
  w.fraction = none → w.exponent = none → w.whole.IsShort

end WrittenNumber

/-- A character that can go on with a number. -/
def isNumberChar (c : Char) : Bool :=
  c.isDigit || c == '.' || c == 'e' || c == 'E'

variable {s : List Char}

theorem stops_isDigit (h : Stops isNumberChar s) : Stops Char.isDigit s :=
  h.mono fun c hc => by simp [isNumberChar, hc]

theorem stops_point (h : Stops isNumberChar s) : Stops (· == '.') s := by
  apply h.mono
  intro c hc
  rw [beq_iff_eq.mp hc]
  rfl

theorem spanDigits_append (n : Numeral) (hs : Stops Char.isDigit s) :
    spanDigits (n.digits ++ s) = (n.digits.map (fun c => c.toNat - 48), s) := by
  rw [spanDigits, takeWhile_append_of_stops n.isDigit hs, dropWhile_append_of_stops n.isDigit hs]

theorem exists_map_eq_cons (n : Numeral) (f : Char → Nat) :
    ∃ d ds, n.digits.map f = d :: ds := by
  obtain ⟨c, cs, hc⟩ := List.exists_cons_of_ne_nil n.ne_nil
  exact ⟨f c, cs.map f, by rw [hc, List.map_cons]⟩

/-- The digits in front of a point are read as they are written. -/
theorem readWhole?_append (n : Numeral) (hn : n.digits.head? = some '0' → n.digits = ['0'])
    (hs : Stops Char.isDigit s) :
    readWhole? (n.digits ++ s) = some (n.digits.map (fun c => c.toNat - 48), s) := by
  by_cases hzero : n.digits.head? = some '0'
  · rw [hn hzero]
    rfl
  · have hspan := spanDigits_append n hs
    obtain ⟨c, cs, hc⟩ := List.exists_cons_of_ne_nil n.ne_nil
    have hne : c ≠ '0' := by
      rintro rfl
      exact hzero (by rw [hc, List.head?_cons])
    rw [hc, List.cons_append] at hspan ⊢
    rw [readWhole?, hspan, List.map_cons]
    · exact fun _ h => hne (List.cons.inj h).1

/-- A fraction is read if it is written. -/
theorem readFraction?_append (f : Option Numeral) (hdigit : Stops Char.isDigit s)
    (hpoint : Stops (· == '.') s) :
    readFraction? (WrittenNumber.fractionText f ++ s)
      = f.map fun n => (n.digits.map (fun c => c.toNat - 48), s) := by
  cases f with
  | none =>
      cases s with
      | nil => rfl
      | cons c s =>
          have hne : c ≠ '.' := by simpa using hpoint
          rw [WrittenNumber.fractionText, List.nil_append, readFraction?]
          · rfl
          · exact fun _ h => hne (List.cons.inj h).1
  | some n =>
      obtain ⟨d, ds, hd⟩ := exists_map_eq_cons n fun c => c.toNat - 48
      rw [WrittenNumber.fractionText, List.cons_append, readFraction?,
        spanDigits_append n hdigit, Option.map_some]
      simp only [hd]

theorem splitSign_append (e : Exponent) :
    Decimal.splitSign (e.sign ++ e.digits.digits ++ s)
      = (decide (e.sign = ['-']), e.digits.digits ++ s) := by
  rcases e.isSign with h | h | h
  · obtain ⟨c, cs, hc⟩ := List.exists_cons_of_ne_nil e.digits.ne_nil
    have hne : c ≠ '-' ∧ c ≠ '+' :=
      e.digits.forall_mem (P := fun c => c ≠ '-' ∧ c ≠ '+') (by decide) c (by simp [hc])
    rw [h, hc, List.nil_append, List.cons_append, Decimal.splitSign]
    · simp
    · exact fun _ h => hne.1 (List.cons.inj h).1
    · exact fun _ h => hne.2 (List.cons.inj h).1
  · rw [h]
    rfl
  · rw [h]
    rfl

/-- An exponent is read if it is written. -/
theorem readExponent?_append (x : Option Exponent) (hs : Stops isNumberChar s) :
    readExponent? (WrittenNumber.exponentText x ++ s) = x.map fun e => (e.value, s) := by
  cases x with
  | none =>
      cases s with
      | nil => rfl
      | cons c s =>
          have hne : ¬ (c = 'e' ∨ c = 'E') := by
            simp [isNumberChar] at hs
            simp [hs]
          rw [WrittenNumber.exponentText, List.nil_append, readExponent?, if_neg hne]
          rfl
  | some e =>
      obtain ⟨d, ds, hd⟩ := exists_map_eq_cons e.digits fun c => c.toNat - 48
      rw [WrittenNumber.exponentText, Exponent.text, List.cons_append, readExponent?,
        if_pos e.isLetter, splitSign_append]
      simp only [spanDigits_append e.digits (stops_isDigit hs), hd, Option.map_some,
        Exponent.value, Numeral.value]

theorem stops_exponentText {accepts : Char → Bool} (he : accepts 'e' = false)
    (hE : accepts 'E' = false) (x : Option Exponent) (hs : Stops accepts s) :
    Stops accepts (WrittenNumber.exponentText x ++ s) := by
  cases x with
  | none => exact hs
  | some e =>
      rw [WrittenNumber.exponentText, Exponent.text, List.cons_append, stops_cons]
      rcases e.isLetter with h | h
      · rw [h, he]
      · rw [h, hE]

theorem stops_fractionText {accepts : Char → Bool} (hpoint : accepts '.' = false)
    (f : Option Numeral) (hs : Stops accepts s) :
    Stops accepts (WrittenNumber.fractionText f ++ s) := by
  cases f with
  | none => exact hs
  | some n => simpa [WrittenNumber.fractionText] using hpoint

/-- Reads a number behind its sign. -/
def readUnsigned (negative : Bool) (r : List Char) : Except Fault (Datum × List Char) :=
  match readWhole? r with
  | none => .error .expectingValue
  | some (whole, r) =>
    match readFraction? r, readExponent? r with
    | none, none =>
      match Decimal.readDigits whole with
      | .ok n => .ok (.int (Decimal.signed negative n), r)
      | .error _ => .error (.tooManyDigits whole.length)
    | none, some (e, r) =>
      .ok (.real (.ofDecimal negative ⟨Decimal.ofDigits whole, e⟩), r)
    | some (part, r), _ =>
      let (e, r) := (readExponent? r).getD (0, r)
      .ok (.real (.ofDecimal negative ⟨Decimal.ofDigits (whole ++ part), e - part.length⟩), r)

theorem readNumber_minus (r : List Char) : readNumber ('-' :: r) = readUnsigned true r := rfl

theorem readNumber_of_ne {c : Char} (hc : c ≠ '-') (s : List Char) :
    readNumber (c :: s) = readUnsigned false (c :: s) := by
  rw [readNumber]
  · rfl
  · exact fun _ h => hc (List.cons.inj h).1

/-- The sign of a written number is split off its digits. -/
theorem readNumber_sign (w : WrittenNumber) (r : List Char) :
    readNumber ((if w.isNegative then ['-'] else []) ++ (w.whole.digits ++ r))
      = readUnsigned w.isNegative (w.whole.digits ++ r) := by
  cases w.isNegative with
  | true => exact readNumber_minus _
  | false =>
      obtain ⟨c, cs, hc⟩ := List.exists_cons_of_ne_nil w.whole.ne_nil
      have hne : c ≠ '-' := w.whole.forall_mem (P := (· ≠ '-')) (by decide) c (by simp [hc])
      rw [hc]
      exact readNumber_of_ne hne _

/-- A written number is read as the number that it stands for. -/
theorem readNumber_append (w : WrittenNumber) (hw : w.IsShort) (hs : Stops isNumberChar s) :
    readNumber (w.text ++ s) = .ok (w.value, s) := by
  have hdigit : Stops Char.isDigit (WrittenNumber.exponentText w.exponent ++ s) :=
    stops_exponentText (by decide) (by decide) w.exponent (stops_isDigit hs)
  have hpoint : Stops (· == '.') (WrittenNumber.exponentText w.exponent ++ s) :=
    stops_exponentText (by decide) (by decide) w.exponent (stops_point hs)
  have hwhole := readWhole?_append w.whole w.eq_zero
    (stops_fractionText (by decide) w.fraction hdigit)
  have hfraction := readFraction?_append w.fraction hdigit hpoint
  have hexponent := readExponent?_append w.exponent hs
  rw [WrittenNumber.text, List.append_assoc, List.append_assoc, List.append_assoc,
    readNumber_sign, readUnsigned, hwhole, WrittenNumber.value]
  simp only [hfraction]
  cases hf : w.fraction with
  | none =>
      simp only [WrittenNumber.fractionText, List.nil_append, Option.map_none, hexponent]
      cases hx : w.exponent with
      | none =>
          have hshort : (w.whole.digits.map fun c => c.toNat - 48).length ≤ Decimal.maxDigits := by
            rw [List.length_map]
            exact hw hf hx
          simp only [Option.map_none, Decimal.readDigits, if_pos hshort,
            WrittenNumber.exponentText, List.nil_append]
          rfl
      | some e => rfl
  | some n =>
      simp only [Option.map_some, hexponent]
      cases hx : w.exponent with
      | none => simp [WrittenNumber.exponentText]
      | some e => simp

/-- The characters of numbers. -/
def numberChars : List Char :=
  "0123456789+-.eE".toList

/-- A written number consists of such characters. -/
theorem WrittenNumber.forall_mem (w : WrittenNumber) : ∀ c ∈ w.text, c ∈ numberChars := by
  have hnumeral (n : Numeral) : ∀ c ∈ n.digits, c ∈ numberChars := n.forall_mem (by decide)
  have hfraction : ∀ c ∈ fractionText w.fraction, c ∈ numberChars := by
    cases w.fraction with
    | none => simp [fractionText]
    | some n => exact List.forall_mem_cons.mpr ⟨by decide, hnumeral n⟩
  have hexponent : ∀ c ∈ exponentText w.exponent, c ∈ numberChars := by
    cases w.exponent with
    | none => simp [exponentText]
    | some e =>
        refine List.forall_mem_cons.mpr ⟨?_, List.forall_mem_append.mpr ⟨?_, hnumeral e.digits⟩⟩
        · rcases e.isLetter with h | h <;> rw [h] <;> decide
        · rcases e.isSign with h | h | h <;> rw [h] <;> decide
  have hsign : ∀ c ∈ if w.isNegative then ['-'] else [], c ∈ numberChars := by
    cases w.isNegative <;> decide
  exact List.forall_mem_append.mpr ⟨hsign, List.forall_mem_append.mpr ⟨hnumeral w.whole,
    List.forall_mem_append.mpr ⟨hfraction, hexponent⟩⟩⟩

end DocTags.Json
