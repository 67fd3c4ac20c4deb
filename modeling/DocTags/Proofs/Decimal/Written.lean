import DocTags.Decimal.Binary64
import DocTags.Proofs.Decimal.Digits

/-!
# Decimal numbers as they are written

A number is written with digits of any script, perhaps with a point among them, an exponent behind
them and a sign in front. It is read as the decimal number that it stands for, whatever padding
stands around it. Any other character makes it no number.
-/

namespace DocTags.Decimal

open Text Pattern

/-- Digits of any script. -/
structure DigitRow where
  chars : List Char
  isDecimal : ∀ c ∈ chars, isDecimal c = true

namespace DigitRow

/-- The values of the digits. -/
def digits (r : DigitRow) : List Nat :=
  r.chars.filterMap digitValue?

end DigitRow

/-- A sign, if there is one. -/
structure Sign where
  chars : List Char
  isSign : chars = [] ∨ chars = ['+'] ∨ chars = ['-']

/-- The sign is a minus. -/
def Sign.isMinus (s : Sign) : Bool :=
  s.chars = ['-']

/-- An exponent: its letter, its sign and its digits. -/
structure WrittenExponent where
  letter : Char
  isLetter : letter = 'e' ∨ letter = 'E'
  sign : Sign
  row : DigitRow
  ne_nil : row.chars ≠ []

namespace WrittenExponent

/-- The written exponent. -/
def text (e : WrittenExponent) : List Char :=
  e.letter :: (e.sign.chars ++ e.row.chars)

/-- The number that the exponent stands for. -/
def value (e : WrittenExponent) : Int :=
  signed e.sign.isMinus (ofDigits e.row.digits)

end WrittenExponent

/-- A number as it is written, with digits in front of the point or behind it. -/
structure WrittenDecimal where
  sign : Sign
  whole : DigitRow
  fraction : Option DigitRow
  hasDigits : whole.chars ≠ [] ∨ ∃ r, fraction = some r ∧ r.chars ≠ []
  exponent : Option WrittenExponent

namespace WrittenDecimal

/-- The written fraction, if there is one. -/
def fractionText : Option DigitRow → List Char
  | none => []
  | some r => '.' :: r.chars

/-- The written exponent, if there is one. -/
def exponentText : Option WrittenExponent → List Char
  | none => []
  | some e => e.text

/-- The digits with the point and the exponent. -/
def body (w : WrittenDecimal) : List Char :=
  w.whole.chars ++ (fractionText w.fraction ++ exponentText w.exponent)

/-- The written number. -/
def text (w : WrittenDecimal) : List Char :=
  w.sign.chars ++ w.body

/-- The digits behind the point. -/
def fractionDigits (w : WrittenDecimal) : List Nat :=
  (w.fraction.map DigitRow.digits).getD []

/-- The number without its sign. -/
def value (w : WrittenDecimal) : Decimal :=
  ⟨ofDigits (w.whole.digits ++ w.fractionDigits),
    (w.exponent.map WrittenExponent.value).getD 0 - w.fractionDigits.length⟩

/-- The number is written without a point and an exponent. -/
def IsWhole (w : WrittenDecimal) : Prop :=
  w.fraction = none ∧ w.exponent = none

end WrittenDecimal

variable {c : Char} {s : List Char}

/-- A capital letter. -/
def isUpper (c : Char) : Bool :=
  'A'.val ≤ c.val && c.val ≤ 'Z'.val

theorem mem_upper_of_isUpper (h : isUpper c = true) :
    c ∈ "ABCDEFGHIJKLMNOPQRSTUVWXYZ".toList := by
  simp only [isUpper, Bool.and_eq_true, decide_eq_true_eq, UInt32.le_iff_toNat_le] at h
  have hletter : ∀ n < 26, Char.ofNat (65 + n) ∈ "ABCDEFGHIJKLMNOPQRSTUVWXYZ".toList := by decide
  obtain ⟨hlow, hhigh⟩ : 65 ≤ c.toNat ∧ c.toNat ≤ 90 := h
  have hself := hletter (c.toNat - 65) (by omega)
  rwa [Nat.add_sub_cancel' hlow, Char.ofNat_toNat] at hself

/-- A class of characters without capital letters is checked on these. -/
theorem isUpper_eq_false {p : Char → Bool}
    (hp : ∀ c ∈ "ABCDEFGHIJKLMNOPQRSTUVWXYZ".toList, p c = false) (h : p c = true) :
    isUpper c = false := by
  rw [Bool.eq_false_iff]
  intro hupper
  rw [hp c (mem_upper_of_isUpper hupper)] at h
  exact Bool.false_ne_true h

theorem isBlank_eq_false_of_isDecimal (h : isDecimal c = true) : isBlank c = false := by
  rw [Bool.eq_false_iff]
  intro hblank
  have hnone : isDecimal c = false := eq_false_of_isBlank (by decide) hblank
  rw [hnone] at h
  exact Bool.false_ne_true h

theorem exists_digitValue? (h : isDecimal c = true) : ∃ d, digitValue? c = some d :=
  Option.isSome_iff_exists.mp h

/-- The characters of numbers other than digits. -/
def isMark (c : Char) : Bool :=
  c == '.' || c == 'e' || c == 'E' || c == '+' || c == '-'

theorem isMark_eq_false_of_isDecimal (h : isDecimal c = true) : isMark c = false := by
  rw [Bool.eq_false_iff]
  intro hmark
  simp only [isMark, Bool.or_eq_true, beq_iff_eq] at hmark
  rcases hmark with (((rfl | rfl) | rfl) | rfl) | rfl <;> exact absurd h (by decide)

theorem digits_cons {cs : List Char} {d : Nat} (hd : digitValue? c = some d) :
    (c :: cs).filterMap digitValue? = d :: cs.filterMap digitValue? :=
  List.filterMap_cons_some hd

theorem length_digits (r : DigitRow) : r.digits.length = r.chars.length := by
  obtain ⟨cs, hcs⟩ := r
  induction cs with
  | nil => rfl
  | cons c cs ih =>
      rw [List.forall_mem_cons] at hcs
      obtain ⟨d, hd⟩ := exists_digitValue? hcs.1
      have hrest := ih hcs.2
      simp only [DigitRow.digits, digits_cons hd, List.length_cons] at hrest ⊢
      rw [hrest]

theorem digits_ne_nil {r : DigitRow} (h : r.chars ≠ []) : r.digits ≠ [] :=
  fun hnil => h (List.length_eq_zero_iff.mp (by rw [← length_digits, hnil, List.length_nil]))

theorem spanDigits_append (r : DigitRow) (hs : Stops isDecimal s) :
    spanDigits (r.chars ++ s) = (r.digits, s) := by
  obtain ⟨cs, hcs⟩ := r
  induction cs with
  | nil =>
      cases s with
      | nil => rfl
      | cons c s =>
          have hnone : digitValue? c = none := by
            simpa [isDecimal] using (stops_cons _ c s).mp hs
          simp [spanDigits, hnone, DigitRow.digits]
  | cons c cs ih =>
      rw [List.forall_mem_cons] at hcs
      obtain ⟨d, hd⟩ := exists_digitValue? hcs.1
      have hrest := ih hcs.2
      simp only [DigitRow.digits, digits_cons hd, List.cons_append, spanDigits, hd] at hrest ⊢
      rw [hrest]

theorem groupedDigits?_chars (r : DigitRow) (hne : r.chars ≠ []) :
    groupedDigits? r.chars = some r.digits := by
  obtain ⟨cs, hcs⟩ := r
  induction cs with
  | nil => exact absurd rfl hne
  | cons c cs ih =>
      rw [List.forall_mem_cons] at hcs
      obtain ⟨d, hd⟩ := exists_digitValue? hcs.1
      cases cs with
      | nil => simp [groupedDigits?, hd, DigitRow.digits]
      | cons c' cs =>
          have hc' : c' ≠ '_' := by
            rintro rfl
            exact absurd (hcs.2 _ List.mem_cons_self) (by decide)
          have hrest := ih hcs.2 (List.cons_ne_nil c' cs)
          simp only [DigitRow.digits, digits_cons hd] at hrest ⊢
          rw [groupedDigits?, hd, hrest]
          · rfl
          · simp
          · intro t ht
            exact hc' (List.cons.inj ht).1

/-- Grouped digits hold nothing but digits and underscores. -/
theorem forall_mem_of_groupedDigits? {ds : List Nat} (h : groupedDigits? s = some ds) :
    ∀ c ∈ s, isDecimal c = true ∨ c = '_' := by
  have hdigit : ∀ {x : Char} {d : Nat}, digitValue? x = some d → isDecimal x = true :=
    fun hd => Option.isSome_of_mem hd
  fun_induction groupedDigits? s generalizing ds with
  | case1 => cases h
  | case2 c =>
      obtain ⟨d, hd, -⟩ := Option.map_eq_some_iff.mp h
      exact List.forall_mem_singleton.mpr (.inl (hdigit hd))
  | case3 c s ih =>
      obtain ⟨d, hd, h⟩ := Option.bind_eq_some_iff.mp h
      obtain ⟨ds', hds, -⟩ := Option.bind_eq_some_iff.mp h
      exact List.forall_mem_cons.mpr ⟨.inl (hdigit hd),
        List.forall_mem_cons.mpr ⟨.inr rfl, ih hds⟩⟩
  | case4 c s hne hgroup ih =>
      obtain ⟨d, hd, h⟩ := Option.bind_eq_some_iff.mp h
      obtain ⟨ds', hds, -⟩ := Option.bind_eq_some_iff.mp h
      exact List.forall_mem_cons.mpr ⟨.inl (hdigit hd), ih hds⟩

theorem eq_append_of_spanDigits {ds : List Nat} {r : List Char} (h : spanDigits s = (ds, r)) :
    ∃ cs, s = cs ++ r ∧ ∀ c ∈ cs, isDecimal c = true := by
  fun_induction spanDigits s generalizing ds r with
  | case1 =>
      obtain ⟨-, rfl⟩ := Prod.mk.inj h
      exact ⟨[], rfl, by simp⟩
  | case2 c s hc =>
      obtain ⟨-, rfl⟩ := Prod.mk.inj h
      exact ⟨[], rfl, by simp⟩
  | case3 c s d hc ds' r' hspan ih =>
      obtain ⟨-, rfl⟩ := Prod.mk.inj h
      obtain ⟨cs, rfl, hcs⟩ := ih hspan
      exact ⟨c :: cs, rfl, List.forall_mem_cons.mpr ⟨Option.isSome_of_mem hc, hcs⟩⟩

theorem eq_append_of_splitSign (s : List Char) :
    ∃ sign, s = sign ++ (splitSign s).2 ∧ ∀ c ∈ sign, isMark c = true := by
  fun_cases splitSign s with
  | case1 s => exact ⟨['-'], rfl, by decide⟩
  | case2 s => exact ⟨['+'], rfl, by decide⟩
  | case3 s => exact ⟨[], rfl, by simp⟩

theorem eq_append_of_spanExponent {e : Int} {r : List Char} (h : spanExponent s = (e, r)) :
    ∃ cs, s = cs ++ r ∧ ∀ c ∈ cs, isDecimal c = true ∨ isMark c = true := by
  have hnone : (0, s) = (e, r) →
      ∃ cs, s = cs ++ r ∧ ∀ c ∈ cs, isDecimal c = true ∨ isMark c = true := by
    intro heq
    obtain ⟨-, rfl⟩ := Prod.mk.inj heq
    exact ⟨[], rfl, by simp⟩
  cases s with
  | nil => exact hnone h
  | cons c s =>
      simp only [spanExponent] at h
      split at h
      · next hletter =>
          have hmark : isMark c = true := by
            rcases hletter with rfl | rfl <;> rfl
          obtain ⟨sign, hsign, hmarks⟩ := eq_append_of_splitSign s
          cases hspan : spanDigits (splitSign s).2 with
          | mk ds rest =>
              obtain ⟨cs, hcs, hdigits⟩ := eq_append_of_spanDigits hspan
              simp only [hspan] at h
              split at h
              · exact hnone h
              · next heq =>
                  obtain ⟨rfl, rfl⟩ := Prod.mk.inj heq
                  obtain ⟨-, rfl⟩ := Prod.mk.inj h
                  refine ⟨c :: (sign ++ cs), ?_, ?_⟩
                  · rw [List.cons_append, List.append_assoc, ← hcs, ← hsign]
                  · exact List.forall_mem_cons.mpr ⟨.inr hmark, List.forall_mem_append.mpr
                      ⟨fun x hx => .inr (hmarks x hx), fun x hx => .inl (hdigits x hx)⟩⟩
      · exact hnone h

/-- A number without a sign holds nothing but digits and marks. -/
theorem forall_mem_of_readUnsigned? {d : Decimal} (h : readUnsigned? s = some d) :
    ∀ c ∈ s, isDecimal c = true ∨ isMark c = true := by
  have hdigits : ∀ {cs : List Char}, (∀ c ∈ cs, isDecimal c = true) →
      ∀ c ∈ cs, isDecimal c = true ∨ isMark c = true := fun hcs c hc => .inl (hcs c hc)
  have hend : ∀ {r r' : List Char} {e : Int}, spanExponent r = (e, r') → r'.isEmpty = true →
      ∀ c ∈ r, isDecimal c = true ∨ isMark c = true := by
    intro r r' e hspan hempty
    obtain ⟨cs, rfl, hcs⟩ := eq_append_of_spanExponent hspan
    rwa [List.isEmpty_iff.mp hempty, List.append_nil]
  cases hwhole : spanDigits s with
  | mk whole r =>
      obtain ⟨cs, rfl, hcs⟩ := eq_append_of_spanDigits hwhole
      refine List.forall_mem_append.mpr ⟨hdigits hcs, ?_⟩
      simp only [readUnsigned?, hwhole] at h
      split at h
      · next r' =>
          cases hpart : spanDigits r' with
          | mk part r'' =>
              obtain ⟨cs', rfl, hcs'⟩ := eq_append_of_spanDigits hpart
              cases hexponent : spanExponent r'' with
              | mk e rest =>
                  simp only [hpart, hexponent] at h
                  split at h
                  · next hempty =>
                      have hrest := hend hexponent (Bool.and_eq_true_iff.mp hempty).1
                      exact List.forall_mem_cons.mpr ⟨.inr rfl,
                        List.forall_mem_append.mpr ⟨hdigits hcs', hrest⟩⟩
                  · cases h
      · cases hexponent : spanExponent r with
        | mk e rest =>
            simp only [hexponent] at h
            split at h
            · next hempty => exact hend hexponent (Bool.and_eq_true_iff.mp hempty).1
            · cases h

variable (w : WrittenDecimal)

/-- What a sign can be. -/
def isSignChar (c : Char) : Bool :=
  c == '+' || c == '-'

theorem isSignChar_eq_false_of_isDecimal (h : isDecimal c = true) : isSignChar c = false := by
  have hmark := isMark_eq_false_of_isDecimal h
  simp only [isMark, Bool.or_eq_false_iff] at hmark
  rw [isSignChar, hmark.1.2, hmark.2, Bool.or_self]

/-- A sign in front of what starts with none is split off. -/
theorem splitSign_append (sign : Sign) (hs : Stops isSignChar s) :
    splitSign (sign.chars ++ s) = (sign.isMinus, s) := by
  obtain ⟨chars, rfl | rfl | rfl⟩ := sign
  · cases s with
    | nil => rfl
    | cons c s =>
        have hc := (stops_cons _ c s).mp hs
        rw [List.nil_append, splitSign]
        · rfl
        · rintro t ⟨⟩
          exact absurd hc (by decide)
        · rintro t ⟨⟩
          exact absurd hc (by decide)
  · rfl
  · rfl

theorem stops_fractionText (f : Option DigitRow) (hs : Stops isDecimal s) :
    Stops isDecimal (WrittenDecimal.fractionText f ++ s) := by
  cases f with
  | none => exact hs
  | some r => exact (stops_cons _ _ _).mpr (by decide)

theorem stops_exponentText {accepts : Char → Bool} (he : accepts 'e' = false)
    (hE : accepts 'E' = false) (e : Option WrittenExponent) :
    Stops accepts (WrittenDecimal.exponentText e) := by
  cases e with
  | none => exact stops_nil _
  | some e =>
      rcases e.isLetter with h | h
      · exact (stops_cons _ _ _).mpr (h ▸ he)
      · exact (stops_cons _ _ _).mpr (h ▸ hE)

theorem spanExponent_exponentText (e : Option WrittenExponent) :
    spanExponent (WrittenDecimal.exponentText e)
      = ((e.map WrittenExponent.value).getD 0, []) := by
  cases e with
  | none => rfl
  | some e =>
      have hsplit : splitSign (e.sign.chars ++ e.row.chars) = (e.sign.isMinus, e.row.chars) := by
        have hstops := stops_append
          (fun c hc => isSignChar_eq_false_of_isDecimal (e.row.isDecimal c hc)) (stops_nil _)
        rw [List.append_nil] at hstops
        exact splitSign_append e.sign hstops
      have hspan : spanDigits e.row.chars = (e.row.digits, []) := by
        simpa using spanDigits_append e.row (stops_nil _)
      have hne : e.row.digits ≠ [] := digits_ne_nil e.ne_nil
      simp only [WrittenDecimal.exponentText, WrittenExponent.text, spanExponent, if_pos e.isLetter,
        hsplit, hspan]
      rfl

theorem allDigits_ne_nil : w.whole.digits ++ w.fractionDigits ≠ [] := by
  intro hnil
  obtain ⟨hwhole, hfraction⟩ := List.append_eq_nil_iff.mp hnil
  rcases w.hasDigits with h | ⟨r, hr, h⟩
  · exact digits_ne_nil h hwhole
  · rw [WrittenDecimal.fractionDigits, hr] at hfraction
    exact digits_ne_nil h hfraction

/-- The digits, the point and the exponent are read as the number. -/
theorem readUnsigned?_body : readUnsigned? w.body = some w.value := by
  have hexponent : Stops isDecimal (WrittenDecimal.exponentText w.exponent) :=
    stops_exponentText (by decide) (by decide) w.exponent
  have hwhole : spanDigits w.body = (w.whole.digits,
      WrittenDecimal.fractionText w.fraction ++ WrittenDecimal.exponentText w.exponent) :=
    spanDigits_append w.whole (stops_fractionText w.fraction hexponent)
  have hsome : (w.whole.digits ++ w.fractionDigits).isEmpty = false :=
    List.isEmpty_eq_false_iff.mpr (allDigits_ne_nil w)
  have hspan := spanExponent_exponentText w.exponent
  cases hfraction : w.fraction with
  | some r =>
      have hdigits : w.fractionDigits = r.digits := by
        rw [WrittenDecimal.fractionDigits, hfraction]
        rfl
      rw [hdigits] at hsome
      rw [hfraction] at hwhole
      have hpart := spanDigits_append r hexponent
      simp only [WrittenDecimal.fractionText, List.cons_append] at hwhole
      simp only [readUnsigned?, hwhole, hpart, hspan, hsome, WrittenDecimal.value, hdigits]
      rfl
  | none =>
      have hdigits : w.fractionDigits = [] := by
        rw [WrittenDecimal.fractionDigits, hfraction]
        rfl
      have hpoint : ∀ t, WrittenDecimal.exponentText w.exponent ≠ '.' :: t := by
        intro t ht
        have hstops : Stops (· == '.') (WrittenDecimal.exponentText w.exponent) :=
          stops_exponentText (by decide) (by decide) w.exponent
        rw [ht] at hstops
        exact absurd ((stops_cons _ _ _).mp hstops) (by decide)
      rw [hdigits] at hsome
      rw [hfraction] at hwhole
      simp only [WrittenDecimal.fractionText, List.nil_append] at hwhole
      simp only [readUnsigned?, hwhole, hspan, hsome, WrittenDecimal.value, hdigits]
      rfl

theorem isBlank_eq_false_of_isMark (h : isMark c = true) : isBlank c = false := by
  simp only [isMark, Bool.or_eq_true, beq_iff_eq] at h
  rcases h with (((rfl | rfl) | rfl) | rfl) | rfl <;> decide

theorem forall_mem_fractionText (f : Option DigitRow) :
    ∀ c ∈ WrittenDecimal.fractionText f, isDecimal c = true ∨ isMark c = true := by
  cases f with
  | none => simp [WrittenDecimal.fractionText]
  | some r => exact List.forall_mem_cons.mpr ⟨.inr rfl, fun c hc => .inl (r.isDecimal c hc)⟩

theorem forall_mem_sign (sign : Sign) : ∀ c ∈ sign.chars, isMark c = true := by
  obtain ⟨chars, rfl | rfl | rfl⟩ := sign <;> simp [isMark]

theorem forall_mem_exponentText (e : Option WrittenExponent) :
    ∀ c ∈ WrittenDecimal.exponentText e, isDecimal c = true ∨ isMark c = true := by
  cases e with
  | none => simp [WrittenDecimal.exponentText]
  | some e =>
      have hletter : isMark e.letter = true := by
        rcases e.isLetter with h | h <;> rw [h] <;> rfl
      exact List.forall_mem_cons.mpr ⟨.inr hletter, List.forall_mem_append.mpr
        ⟨fun c hc => .inr (forall_mem_sign e.sign c hc), fun c hc => .inl (e.row.isDecimal c hc)⟩⟩

/-- A number holds nothing but digits and marks. -/
theorem forall_mem_text : ∀ c ∈ w.text, isDecimal c = true ∨ isMark c = true :=
  List.forall_mem_append.mpr ⟨fun c hc => .inr (forall_mem_sign w.sign c hc),
    List.forall_mem_append.mpr ⟨fun c hc => .inl (w.whole.isDecimal c hc),
      List.forall_mem_append.mpr
        ⟨forall_mem_fractionText w.fraction, forall_mem_exponentText w.exponent⟩⟩⟩

/-- A number has a digit. -/
theorem exists_isDecimal_mem_body : ∃ c ∈ w.body, isDecimal c = true := by
  rcases w.hasDigits with h | ⟨r, hr, h⟩
  · obtain ⟨c, cs, hc⟩ := List.exists_cons_of_ne_nil h
    have hmem : c ∈ w.whole.chars := hc ▸ List.mem_cons_self
    exact ⟨c, List.mem_append_left _ hmem, w.whole.isDecimal c hmem⟩
  · obtain ⟨c, cs, hc⟩ := List.exists_cons_of_ne_nil h
    have hmem : c ∈ r.chars := hc ▸ List.mem_cons_self
    have htext : c ∈ WrittenDecimal.fractionText w.fraction := by
      rw [hr]
      exact List.mem_cons_of_mem '.' hmem
    exact ⟨c, List.mem_append_right _ (List.mem_append_left _ htext), r.isDecimal c hmem⟩

theorem stops_isSignChar_body : Stops isSignChar w.body := by
  cases hbody : w.body with
  | nil => exact stops_nil _
  | cons c s =>
      rw [stops_cons]
      cases hwhole : w.whole.chars with
      | cons d ds =>
          rw [WrittenDecimal.body, hwhole] at hbody
          obtain ⟨rfl, -⟩ := List.cons.inj hbody
          exact isSignChar_eq_false_of_isDecimal
            (w.whole.isDecimal d (hwhole ▸ List.mem_cons_self))
      | nil =>
          obtain ⟨r, hr, -⟩ := w.hasDigits.resolve_left (· hwhole)
          rw [WrittenDecimal.body, hwhole, hr] at hbody
          obtain ⟨rfl, -⟩ := List.cons.inj hbody
          rfl

variable {lead trail : List Char}

theorem isPadding_eq_false {c : Char} (h : isBlank c = false) : isPadding c = false := by
  rw [isPadding, h, Bool.false_and]

/-- Padding around a number is trimmed off. -/
theorem trimWhere_text (hlead : ∀ c ∈ lead, isPadding c = true)
    (htrail : ∀ c ∈ trail, isPadding c = true) :
    trimWhere isPadding (lead ++ w.text ++ trail) = w.text := by
  have hsolid : ∀ c ∈ w.text, isPadding c = false := by
    intro c hc
    apply isPadding_eq_false
    rcases forall_mem_text w c hc with h | h
    · exact isBlank_eq_false_of_isDecimal h
    · exact isBlank_eq_false_of_isMark h
  obtain ⟨x, hx, -⟩ := exists_isDecimal_mem_body w
  have hne : w.text ≠ [] := List.ne_nil_of_mem (List.mem_append_right _ hx)
  exact trimWhere_append hlead htrail (List.head?_eq_some_head hne) (hsolid _ (List.head_mem hne))
    (List.getLast?_eq_some_getLast hne) (hsolid _ (List.getLast_mem hne))

theorem splitSign_text : splitSign w.text = (w.sign.isMinus, w.body) :=
  splitSign_append w.sign (stops_isSignChar_body w)

/-- A whole number is read exactly, if its digits are not too many. -/
theorem readInt_text (hwhole : w.IsWhole) (hlead : ∀ c ∈ lead, isPadding c = true)
    (htrail : ∀ c ∈ trail, isPadding c = true) :
    readInt (lead ++ w.text ++ trail)
      = if w.whole.chars.length ≤ maxDigits then
          .ok (signed w.sign.isMinus (ofDigits w.whole.digits))
        else .error (.tooLong w.whole.chars.length) := by
  have hbody : w.body = w.whole.chars := by
    rw [WrittenDecimal.body, hwhole.1, hwhole.2]
    exact List.append_nil _
  have hne : w.whole.chars ≠ [] := by
    rcases w.hasDigits with h | ⟨r, hr, -⟩
    · exact h
    · rw [hwhole.1] at hr
      cases hr
  rw [readInt, trimWhere_text w hlead htrail, splitSign_text, hbody]
  simp only [groupedDigits?_chars w.whole hne, readDigits, length_digits]
  split <;> rfl

/-- A character that is neither in a word nor a capital letter is in no text that is the word in
lower case. -/
theorem ofList_map_toLower_ne {word : String} (hupper : isUpper c = false)
    (hword : c ∉ word.toList) (hc : c ∈ s) : String.ofList (s.map Char.toLower) ≠ word := by
  rintro rfl
  have hself : c.toLower = c := by
    unfold Char.toLower
    split
    · next h =>
        simp only [isUpper, Bool.and_eq_false_iff, decide_eq_false_iff_not] at hupper
        rcases hupper with h' | h'
        · exact absurd h.1 h'
        · exact absurd h.2 h'
    · rfl
  rw [String.toList_ofList] at hword
  exact hword (List.mem_map.mpr ⟨c, hc, hself⟩)

/-- Any number is read as the binary number next to it. -/
theorem read?_text (hlead : ∀ c ∈ lead, isPadding c = true)
    (htrail : ∀ c ∈ trail, isPadding c = true) :
    Binary64.read? (lead ++ w.text ++ trail)
      = some (Binary64.ofDecimal w.sign.isMinus w.value) := by
  obtain ⟨c, hc, hdecimal⟩ := exists_isDecimal_mem_body w
  have hupper : isUpper c = false := isUpper_eq_false (by decide) hdecimal
  have hword : ∀ word : String, (∀ x ∈ word.toList, isDecimal x = false) →
      String.ofList (w.body.map Char.toLower) ≠ word := by
    intro word hletters
    refine ofList_map_toLower_ne hupper (fun hmem => ?_) hc
    rw [hletters c hmem] at hdecimal
    exact Bool.false_ne_true hdecimal
  rw [Binary64.read?, trimWhere_text w hlead htrail, splitSign_text]
  simp only [hword "inf" (by decide), hword "infinity" (by decide), hword "nan" (by decide),
    or_self, if_false, readUnsigned?_body, Option.map_some]

/-- A blank that is no padding is left where it is. -/
theorem mem_splitSign_of_separator (hblank : isBlank c = true) (hpadding : isPadding c = false)
    (hc : c ∈ s) : c ∈ (splitSign (trimWhere isPadding s)).2 := by
  have htrimmed : c ∈ trimWhere isPadding s := mem_trimWhere_of_neg hpadding hc
  obtain ⟨sign, hsign, hmarks⟩ := eq_append_of_splitSign (trimWhere isPadding s)
  rw [hsign] at htrimmed
  refine (List.mem_append.mp htrimmed).resolve_left fun hmem => ?_
  rw [isBlank_eq_false_of_isMark (hmarks c hmem)] at hblank
  exact Bool.false_ne_true hblank

/-- A text with a blank that is no padding is no number. -/
theorem readInt_of_separator (hblank : isBlank c = true) (hpadding : isPadding c = false)
    (hc : c ∈ s) : readInt s = .error .malformed := by
  have hmem := mem_splitSign_of_separator hblank hpadding hc
  have hnone : groupedDigits? (splitSign (trimWhere isPadding s)).2 = none := by
    rw [Option.eq_none_iff_forall_not_mem]
    intro ds hds
    rcases forall_mem_of_groupedDigits? hds c hmem with h | rfl
    · rw [isBlank_eq_false_of_isDecimal h] at hblank
      exact Bool.false_ne_true hblank
    · exact absurd hblank (by decide)
  simp only [readInt, hnone]

theorem read?_of_separator (hblank : isBlank c = true) (hpadding : isPadding c = false)
    (hc : c ∈ s) : Binary64.read? s = none := by
  have hmem := mem_splitSign_of_separator hblank hpadding hc
  have hupper : isUpper c = false := isUpper_eq_false (by decide) hblank
  have hword : ∀ word : String, (∀ x ∈ word.toList, isBlank x = false) →
      String.ofList ((splitSign (trimWhere isPadding s)).2.map Char.toLower) ≠ word := by
    intro word hletters
    refine ofList_map_toLower_ne hupper (fun hmem => ?_) hmem
    rw [hletters c hmem] at hblank
    exact Bool.false_ne_true hblank
  have hnone : readUnsigned? (splitSign (trimWhere isPadding s)).2 = none := by
    rw [Option.eq_none_iff_forall_not_mem]
    intro d hd
    rcases forall_mem_of_readUnsigned? hd c hmem with h | h
    · rw [isBlank_eq_false_of_isDecimal h] at hblank
      exact Bool.false_ne_true hblank
    · rw [isBlank_eq_false_of_isMark h] at hblank
      exact Bool.false_ne_true hblank
  simp only [Binary64.read?, hword "inf" (by decide), hword "infinity" (by decide),
    hword "nan" (by decide), or_self, if_false, hnone, Option.map_none]

end DocTags.Decimal
