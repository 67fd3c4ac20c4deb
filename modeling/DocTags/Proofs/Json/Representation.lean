import DocTags.Proofs.Decimal.Binary64
import DocTags.Proofs.Json.Value

/-!
# Values that can be written

Every value without objects can be written on one line, whole numbers and nested lists within the
limits of the reader: texts letter by letter with escapes for the rest, finite numbers in their
exact decimal form.
-/

namespace DocTags.Json

open Text

/-- A value that JSON can represent without objects, with lists at most so deep. -/
inductive IsRepresentable : Nat → Datum → Prop where
  | null (depth : Nat) : IsRepresentable depth .null
  | bool (depth : Nat) (b : Bool) : IsRepresentable depth (.bool b)
  | int (depth : Nat) (n : Int) (h : (Numeral.ofNat n.natAbs).IsShort) :
      IsRepresentable depth (.int n)
  | real (depth : Nat) (negative : Bool) (m q : Nat) (h : Binary64.IsReduced m q) :
      IsRepresentable depth (.real (.finite negative m q))
  | text (depth : Nat) (s : String) : IsRepresentable depth (.text s)
  | list (depth : Nat) (xs : List Datum) (h : ∀ x ∈ xs, IsRepresentable depth x) :
      IsRepresentable (depth + 1) (.list xs)

/-- The code escape of a control character stands for the character. -/
theorem exists_hexCode_of_lt {n : Nat} (hn : n < 0x20) :
    ∃ c d, hexCode? '0' '0' c d = some n ∧ charsOf n = [Char.ofNat n] ∧ isHigh n = false := by
  have hcodes : ∀ n < 0x20, hexCode? '0' '0' (Char.ofNat (48 + n / 16))
      ("0123456789abcdef".toList.getD (n % 16) '0') = some n := by decide
  have hchars : ∀ n < 0x20, charsOf n = [Char.ofNat n] ∧ isHigh n = false := by decide
  exact ⟨_, _, hcodes n hn, hchars n hn⟩

/-- Every text can be spelled. -/
theorem exists_spells (t : List Char) : ∃ s, Spells s t := by
  induction t with
  | nil => exact ⟨[], .nil⟩
  | cons c t ih =>
      obtain ⟨s, hs⟩ := ih
      by_cases hcontrol : c.toNat < 0x20
      · obtain ⟨a, b, hcode, hchars, hhigh⟩ := exists_hexCode_of_lt hcontrol
        rw [Char.ofNat_toNat] at hchars
        have h := Spells.code '0' '0' a b hcode (by simp [hhigh]) hs
        rw [hchars] at h
        exact ⟨_, h⟩
      · by_cases hquote : c = '"'
        · exact ⟨_, .letter '"' (by rw [hquote]; rfl) hs⟩
        · by_cases hbackslash : c = '\\'
          · exact ⟨_, .letter '\\' (by rw [hbackslash]; rfl) hs⟩
          · exact ⟨_, .plain c ⟨Nat.not_lt.mp hcontrol, hquote, hbackslash⟩ hs⟩

/-- The whole number as it is written. -/
def wholeNumber (n : Int) : WrittenNumber :=
  ⟨n < 0, .ofNat n.natAbs, Numeral.digits_ofNat_of_head?, none, none⟩

theorem value_wholeNumber (n : Int) : (wholeNumber n).value = .int n := by
  have hsigned : Decimal.signed (n < 0) n.natAbs = n := by
    by_cases hn : n < 0
    · rw [Decimal.signed, if_pos (decide_eq_true hn)]
      omega
    · rw [Decimal.signed, if_neg (by simp [hn])]
      omega
  have hvalue : (wholeNumber n).value
      = .int (Decimal.signed (n < 0) (Numeral.ofNat n.natAbs).value) := rfl
  rw [hvalue, Numeral.value_ofNat, hsigned]

/-- The letter of an exponent and the exponent of a unit. -/
def unitExponent : Exponent :=
  ⟨'e', .inl rfl, ['-'], .inr (.inr rfl), .ofNat Binary64.unitBits⟩

/-- The whole number of units of the exponent. -/
def unitsNumber (negative : Bool) (n : Nat) : WrittenNumber :=
  ⟨negative, .ofNat n, Numeral.digits_ofNat_of_head?, none, some unitExponent⟩

theorem value_unitsNumber (negative : Bool) (n : Nat) :
    (unitsNumber negative n).value
      = .real (.ofDecimal negative ⟨n, -(Binary64.unitBits : Int)⟩) := by
  have hexponent : unitExponent.value = -(Binary64.unitBits : Int) := by
    rw [Exponent.value, unitExponent, Numeral.value_ofNat]
    rfl
  have hvalue : (unitsNumber negative n).value
      = .real (.ofDecimal negative ⟨(Numeral.ofNat n).value, unitExponent.value⟩) := rfl
  rw [hvalue, Numeral.value_ofNat, hexponent]

/-- Every finite number can be written, in its exact decimal form. -/
theorem exists_value_eq_finite {m q : Nat} (h : Binary64.IsReduced m q) (negative : Bool) :
    ∃ n, (unitsNumber negative n).value = .real (.finite negative m q) := by
  refine ⟨(Binary64.exactDecimal m q).digits, ?_⟩
  rw [value_unitsNumber, ← Binary64.ofDecimal_exactDecimal h]
  rfl

/-- No space. -/
def noSpace : Space :=
  ⟨[], fun _ h => nomatch h⟩

/-- Items that can be written one by one can be written as the items of a list. -/
theorem exists_items {depth : Nat} {xs : List Datum} (hne : xs ≠ [])
    (h : ∀ x ∈ xs, ∃ l : Literal, l.value = x ∧ l.depth ≤ depth ∧ l.IsShort) :
    ∃ items : Items, items.values = xs ∧ items.depth ≤ depth ∧ items.IsShort := by
  induction xs with
  | nil => exact absurd rfl hne
  | cons x xs ih =>
      rw [List.forall_mem_cons] at h
      obtain ⟨⟨l, hvalue, hdepth, hshort⟩, hxs⟩ := h
      cases xs with
      | nil => exact ⟨.last l noSpace, by rw [Items.values, hvalue], hdepth, hshort⟩
      | cons y ys =>
          obtain ⟨items, hvalues, hdepths, hshorts⟩ := ih (List.cons_ne_nil y ys) hxs
          refine ⟨.cons l noSpace noSpace items, ?_, ?_, hshort, hshorts⟩
          · rw [Items.values, hvalue, hvalues]
          · exact Nat.max_le.mpr ⟨hdepth, hdepths⟩

/-- Every value that JSON can represent without objects can be written on one line. -/
theorem IsRepresentable.exists_literal {depth : Nat} {d : Datum} (h : IsRepresentable depth d) :
    ∃ l : Literal, l.value = d ∧ l.depth ≤ depth ∧ l.IsShort := by
  induction h with
  | null depth => exact ⟨.null, rfl, Nat.zero_le depth, trivial⟩
  | bool depth b => exact ⟨.bool b, rfl, Nat.zero_le depth, trivial⟩
  | int depth n h =>
      exact ⟨.number (wholeNumber n), value_wholeNumber n, Nat.zero_le depth, fun _ _ => h⟩
  | real depth negative m q h =>
      obtain ⟨n, hn⟩ := exists_value_eq_finite h negative
      refine ⟨.number (unitsNumber negative n), hn, Nat.zero_le depth, fun _ hnone => ?_⟩
      exact absurd hnone (by simp [unitsNumber])
  | text depth s =>
      obtain ⟨spelling, hs⟩ := exists_spells s.toList
      refine ⟨.text spelling s.toList hs, ?_, Nat.zero_le depth, trivial⟩
      rw [Literal.value, String.ofList_toList]
  | list depth xs h ih =>
      by_cases hne : xs = []
      · exact ⟨.emptyList noSpace, by rw [hne]; rfl, Nat.succ_le_succ (Nat.zero_le depth), trivial⟩
      · obtain ⟨items, hvalues, hdepth, hshort⟩ := exists_items hne ih
        exact ⟨.list noSpace items, by rw [Literal.value, hvalues], Nat.succ_le_succ hdepth, hshort⟩

end DocTags.Json
