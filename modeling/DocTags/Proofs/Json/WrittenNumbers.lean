import DocTags.Json.Writer
import DocTags.Proofs.Decimal.Shortest
import DocTags.Proofs.Json.Representation

/-!
# Numbers as documents hold them

Whole numbers are written with all their digits, finite numbers with the digits that are laid out
for them: around a point, or with an exponent behind. Either text is a number by the grammar, and
what it stands for is the number that is written.
-/

namespace DocTags.Json

open Binary64 (LaidOut)

/-- The sign in front of a number. -/
def signText (negative : Bool) : List Char :=
  if negative then ['-'] else []

/-- The number in the grammar is written with its sign and the text behind it, and it stands for the
binary number next to the decimal one. -/
structure Writes (w : WrittenNumber) (negative : Bool) (body : List Char) (d : Decimal) : Prop where
  text_eq : w.text = signText negative ++ body
  value_eq : w.value = .real (.ofDecimal negative d)

theorem text_wholeNumber (n : Int) : (wholeNumber n).text = Decimal.intText n := by
  have htext : (wholeNumber n).text
      = (if decide (n < 0) then ['-'] else []) ++ Decimal.natText n.natAbs := by
    simp [wholeNumber, WrittenNumber.text, WrittenNumber.fractionText, WrittenNumber.exponentText,
      Numeral.ofNat]
  rw [htext, Decimal.intText]
  by_cases hn : n < 0
  · rw [if_pos hn, if_pos (decide_eq_true hn), List.singleton_append]
  · rw [if_neg hn, if_neg (by simp [hn]), List.nil_append]

/-- A lone zero. -/
def zeroDigit : Numeral :=
  ⟨['0'], by decide, by decide⟩

/-- Digits with zeros in front of them. -/
def padded (k : Nat) (n : Numeral) : Numeral where
  digits := List.replicate k '0' ++ n.digits
  ne_nil := List.append_ne_nil_of_right_ne_nil _ n.ne_nil
  isDigit := List.forall_mem_append.mpr
    ⟨fun _ hc => (List.eq_of_mem_replicate hc).symm ▸ by decide, n.isDigit⟩

/-- Digits with zeros behind them. -/
def filled (n : Numeral) (k : Nat) : Numeral where
  digits := n.digits ++ List.replicate k '0'
  ne_nil := List.append_ne_nil_of_left_ne_nil n.ne_nil _
  isDigit := List.forall_mem_append.mpr
    ⟨n.isDigit, fun _ hc => (List.eq_of_mem_replicate hc).symm ▸ by decide⟩

@[simp] theorem digits_zeroDigit : zeroDigit.digits = ['0'] := rfl

@[simp] theorem digits_padded (k : Nat) (n : Numeral) :
    (padded k n).digits = List.replicate k '0' ++ n.digits := rfl

@[simp] theorem digits_filled (n : Numeral) (k : Nat) :
    (filled n k).digits = n.digits ++ List.replicate k '0' := rfl

theorem value_padded (k : Nat) (n : Numeral) : (padded k n).value = n.value := by
  have hzero : '0'.toNat - 48 = 0 := rfl
  rw [Numeral.value, digits_padded, List.map_append, List.map_replicate, hzero,
    Decimal.ofDigits_zeros_append, Numeral.value]

theorem value_filled (n : Numeral) (k : Nat) : (filled n k).value = n.value * Nat.pow 10 k := by
  have hzero : '0'.toNat - 48 = 0 := rfl
  rw [Numeral.value, digits_filled, List.map_append, List.map_replicate, hzero,
    Decimal.ofDigits_append_zeros, Numeral.value]

/-- The number with the given digits around the point. -/
def pointNumber (negative : Bool) (whole fraction : Numeral)
    (h : whole.digits.head? = some '0' → whole.digits = ['0']) (exponent : Option Exponent) :
    WrittenNumber :=
  ⟨negative, whole, h, some fraction, exponent⟩

theorem text_pointNumber {negative : Bool} {whole fraction : Numeral}
    {h : whole.digits.head? = some '0' → whole.digits = ['0']} {exponent : Option Exponent} :
    (pointNumber negative whole fraction h exponent).text = signText negative
      ++ (whole.digits ++ ('.' :: fraction.digits ++ WrittenNumber.exponentText exponent)) :=
  rfl

/-- What the number with the given digits around the point stands for. -/
theorem value_pointNumber {negative : Bool} {whole fraction all : Numeral}
    {h : whole.digits.head? = some '0' → whole.digits = ['0']} {exponent : Option Exponent}
    (hall : all.digits = whole.digits ++ fraction.digits) :
    (pointNumber negative whole fraction h exponent).value
      = .real (.ofDecimal negative ⟨all.value,
        (exponent.map Exponent.value).getD 0 - fraction.digits.length⟩) := by
  rw [Numeral.value, hall]
  rfl

/-- The number with the given digits and an exponent. -/
def exponentNumber (negative : Bool) (whole : Numeral)
    (h : whole.digits.head? = some '0' → whole.digits = ['0']) (exponent : Exponent) :
    WrittenNumber :=
  ⟨negative, whole, h, none, some exponent⟩

theorem text_exponentNumber {negative : Bool} {whole : Numeral}
    {h : whole.digits.head? = some '0' → whole.digits = ['0']} {exponent : Exponent} :
    (exponentNumber negative whole h exponent).text
      = signText negative ++ (whole.digits ++ exponent.text) :=
  rfl

theorem value_exponentNumber {negative : Bool} {whole : Numeral}
    {h : whole.digits.head? = some '0' → whole.digits = ['0']} {exponent : Exponent} :
    (exponentNumber negative whole h exponent).value
      = .real (.ofDecimal negative ⟨whole.value, exponent.value⟩) :=
  rfl

variable (negative : Bool) (l : LaidOut)

/-- A number below one. -/
theorem exists_writes_below (hpower : l.power < 0) :
    ∃ w, Writes w negative (Binary64.positional l.digits.digits l.power) l.value := by
  obtain ⟨k, hk⟩ : ∃ k, (-l.power - 1).toNat = k := ⟨_, rfl⟩
  have hfirst : zeroDigit.digits.head? = some '0' → zeroDigit.digits = ['0'] := fun _ => rfl
  refine ⟨pointNumber negative zeroDigit (padded k l.digits) hfirst none, ?_, ?_⟩
  · rw [text_pointNumber, Binary64.positional, if_pos hpower, hk]
    simp [WrittenNumber.exponentText]
  · have hall : (padded 1 (padded k l.digits)).digits
        = zeroDigit.digits ++ (padded k l.digits).digits := rfl
    have hexponent : (0 : Int) - (padded k l.digits).digits.length
        = l.power + 1 - l.digits.digits.length := by
      rw [digits_padded, List.length_append, List.length_replicate]
      omega
    rw [value_pointNumber hall, value_padded, value_padded, LaidOut.value, ← hexponent]
    rfl

/-- A number with all its digits in front of the point. -/
theorem exists_writes_whole (hpower : 0 ≤ l.power)
    (hlength : l.digits.digits.length ≤ l.power.toNat + 1) :
    ∃ w, Writes w negative (Binary64.positional l.digits.digits l.power) l.value := by
  obtain ⟨k, hk⟩ := Nat.exists_eq_add_of_le hlength
  have hfirst : (filled l.digits k).digits.head? = some '0' →
      (filled l.digits k).digits = ['0'] := by
    intro hhead
    rw [digits_filled, List.head?_append_of_ne_nil _ l.digits.ne_nil] at hhead
    obtain ⟨hdigits, hzero⟩ := l.eq_zero hhead
    rw [hdigits, hzero, List.length_singleton] at hk
    obtain rfl : k = 0 := by simpa using hk
    rw [digits_filled, hdigits]
    rfl
  refine ⟨pointNumber negative (filled l.digits k) zeroDigit hfirst none, ?_, ?_⟩
  · have hcount : l.power.toNat + 1 - l.digits.digits.length = k := by omega
    rw [text_pointNumber, Binary64.positional, if_neg (Int.not_lt.mpr hpower)]
    simp only [if_pos hlength, hcount]
    simp [WrittenNumber.exponentText]
  · have hall : (filled l.digits (k + 1)).digits
        = (filled l.digits k).digits ++ zeroDigit.digits := by
      rw [digits_filled, digits_filled, digits_zeroDigit, List.replicate_succ', List.append_assoc]
    have hexponent : (0 : Int) - zeroDigit.digits.length + (k + 1 : Nat)
        = l.power + 1 - l.digits.digits.length := by
      rw [digits_zeroDigit, List.length_singleton]
      omega
    rw [value_pointNumber hall, value_filled, Binary64.ofDecimal_shift, LaidOut.value, ← hexponent]
    rfl

/-- A number with digits on both sides of the point. -/
theorem exists_writes_split (hpower : 0 ≤ l.power)
    (hlength : l.power.toNat + 1 < l.digits.digits.length) :
    ∃ w, Writes w negative (Binary64.positional l.digits.digits l.power) l.value := by
  let whole : Numeral := ⟨l.digits.digits.take (l.power.toNat + 1),
    List.ne_nil_of_length_pos (by rw [List.length_take]; omega),
    fun c hc => l.digits.isDigit c (List.mem_of_mem_take hc)⟩
  let fraction : Numeral := ⟨l.digits.digits.drop (l.power.toNat + 1),
    List.ne_nil_of_length_pos (by rw [List.length_drop]; omega),
    fun c hc => l.digits.isDigit c (List.mem_of_mem_drop hc)⟩
  have hall : l.digits.digits = whole.digits ++ fraction.digits :=
    (List.take_append_drop _ _).symm
  have hfirst : whole.digits.head? = some '0' → whole.digits = ['0'] := by
    intro hhead
    have hsame : l.digits.digits.head? = some '0' := by
      rw [hall, List.head?_append_of_ne_nil _ whole.ne_nil, hhead]
    rw [(l.eq_zero hsame).1, List.length_singleton] at hlength
    omega
  refine ⟨pointNumber negative whole fraction hfirst none, ?_, ?_⟩
  · rw [text_pointNumber, Binary64.positional, if_neg (Int.not_lt.mpr hpower)]
    simp [if_neg (Nat.not_le.mpr hlength), whole, fraction, WrittenNumber.exponentText]
  · have hexponent : (0 : Int) - fraction.digits.length = l.power + 1 - l.digits.digits.length := by
      simp only [fraction, List.length_drop]
      omega
    rw [value_pointNumber hall, LaidOut.value, ← hexponent]
    rfl

theorem exists_writes_positional :
    ∃ w, Writes w negative (Binary64.positional l.digits.digits l.power) l.value := by
  by_cases hpower : l.power < 0
  · exact exists_writes_below negative l hpower
  · rw [Int.not_lt] at hpower
    by_cases hlength : l.digits.digits.length ≤ l.power.toNat + 1
    · exact exists_writes_whole negative l hpower hlength
    · exact exists_writes_split negative l hpower (Nat.not_le.mp hlength)

/-- The exponent of a number that is written with one. -/
theorem exists_exponent (power : Int) :
    ∃ e : Exponent, e.text = 'e' :: Binary64.exponentText power ∧ e.value = power := by
  let n : Numeral := .ofNat power.natAbs
  obtain ⟨k, hk⟩ : ∃ k, (if n.digits.length < 2 then '0' :: n.digits else n.digits)
      = (padded k n).digits := by
    by_cases hshort : n.digits.length < 2
    · exact ⟨1, by rw [if_pos hshort]; rfl⟩
    · exact ⟨0, by rw [if_neg hshort]; rfl⟩
  have hdigits : Binary64.exponentText power
      = (if power < 0 then '-' else '+') :: (padded k n).digits := congrArg (_ :: ·) hk
  have hvalue : (padded k n).value = power.natAbs := by rw [value_padded, Numeral.value_ofNat]
  by_cases hpower : power < 0
  · refine ⟨⟨'e', .inl rfl, ['-'], .inr (.inr rfl), padded k n⟩, ?_, ?_⟩
    · rw [hdigits, if_pos hpower]
      rfl
    · rw [Exponent.value, hvalue, Decimal.signed]
      simp only [decide_true, if_true]
      omega
  · refine ⟨⟨'e', .inl rfl, ['+'], .inr (.inl rfl), padded k n⟩, ?_, ?_⟩
    · rw [hdigits, if_neg hpower]
      rfl
    · rw [Exponent.value, hvalue, Decimal.signed]
      simp
      omega

/-- A number with one digit in front of the point and with an exponent. -/
theorem exists_writes_scientific {layout : Binary64.Layout}
    (hlayout : layout.pointBeforeExponent = false) :
    ∃ w, Writes w negative (Binary64.scientific layout l.digits.digits l.power) l.value := by
  obtain ⟨e, htext, hvalue⟩ := exists_exponent l.power
  obtain ⟨c, ds, hcons⟩ := List.exists_cons_of_ne_nil l.digits.ne_nil
  cases ds with
  | nil =>
      refine ⟨exponentNumber negative l.digits (fun h => (l.eq_zero h).1) e, ?_, ?_⟩
      · rw [text_exponentNumber, hcons, Binary64.scientific, hlayout, htext]
        rfl
      · have hexponent : l.power = l.power + 1 - l.digits.digits.length := by
          rw [hcons, List.length_singleton]
          omega
        rw [value_exponentNumber, LaidOut.value, hvalue, ← hexponent]
  | cons d ds =>
      have hdigit := l.digits.isDigit
      rw [hcons, List.forall_mem_cons] at hdigit
      let whole : Numeral := ⟨[c], List.cons_ne_nil c [], List.forall_mem_singleton.mpr hdigit.1⟩
      let fraction : Numeral := ⟨d :: ds, List.cons_ne_nil d ds, hdigit.2⟩
      have hfirst : whole.digits.head? = some '0' → whole.digits = ['0'] := by
        intro hhead
        obtain rfl := Option.some.inj hhead
        rfl
      have hall : l.digits.digits = whole.digits ++ fraction.digits := hcons
      refine ⟨pointNumber negative whole fraction hfirst (some e), ?_, ?_⟩
      · rw [text_pointNumber, WrittenNumber.exponentText, htext, hcons, Binary64.scientific]
        · rfl
        · exact fun h => absurd h (List.cons_ne_nil d ds)
      · have hexponent : l.power - fraction.digits.length
            = l.power + 1 - l.digits.digits.length := by
          simp only [hcons, fraction, List.length_cons]
          omega
        rw [value_pointNumber hall, LaidOut.value, Option.map_some, Option.getD_some, hvalue,
          hexponent]

/-- The text of a finite number is a number by the grammar that stands for it. -/
theorem exists_render {m q : Nat} (h : Binary64.IsReduced m q) :
    ∃ w : WrittenNumber, w.text = Binary64.render .json (.finite negative m q)
      ∧ w.value = .real (.finite negative m q) := by
  obtain ⟨l, hl, hvalue⟩ := Binary64.exists_laidOut_shortest h
  have hwrites {body : List Char} (hbody : ∃ w, Writes w negative body l.value) :
      ∃ w : WrittenNumber, w.text = (if negative then '-' :: body else body)
        ∧ w.value = .real (.finite negative m q) := by
    obtain ⟨w, htext, hw⟩ := hbody
    refine ⟨w, ?_, by rw [hw, hvalue]⟩
    rw [htext, signText]
    cases negative <;> rfl
  rw [Binary64.render, hl]
  apply hwrites
  split
  · exact exists_writes_positional negative l
  · exact exists_writes_scientific negative l rfl

end DocTags.Json
