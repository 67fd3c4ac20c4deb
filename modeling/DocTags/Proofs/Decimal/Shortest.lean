import DocTags.Proofs.Decimal.Rounding

/-!
# Shortest decimal forms

The decimal that is chosen for a finite number is read as the number. The digits that are laid out
for it are as good: zeros at the end of the digits of a decimal count as powers of ten.
-/

namespace DocTags

namespace Decimal

/-- A zero in front of digits does not count. -/
theorem ofDigits_zeros_append (n : Nat) (ds : List Nat) :
    ofDigits (List.replicate n 0 ++ ds) = ofDigits ds := by
  induction n with
  | zero => rfl
  | succ n ih =>
      rw [List.replicate_succ, List.cons_append, ← ih]
      rfl

/-- A zero behind digits counts as a power of ten. -/
theorem ofDigits_append_zeros (ds : List Nat) (n : Nat) :
    ofDigits (ds ++ List.replicate n 0) = ofDigits ds * Nat.pow 10 n := by
  induction n with
  | zero => rw [List.replicate_zero, List.append_nil, Nat.pow_eq, Nat.pow_zero, Nat.mul_one]
  | succ n ih =>
      have hpow : Nat.pow 10 (n + 1) = Nat.pow 10 n * 10 := rfl
      rw [List.replicate_succ', ← List.append_assoc, ofDigits_concat, ih, hpow, Nat.add_zero,
        Nat.mul_comm 10, Nat.mul_assoc]

end Decimal

namespace Binary64

open Text

variable {m q : Nat}

/-- Powers of ten may stand in the digits or in the exponent. -/
theorem ofDecimal_shift (negative : Bool) (n k : Nat) (e : Int) :
    ofDecimal negative ⟨n * Nat.pow 10 k, e⟩ = ofDecimal negative ⟨n, e + k⟩ := by
  apply ofDecimal_congr
  have hexponents : k + e.toNat + (-(e + k)).toNat = (e + k).toNat + (-e).toNat := by omega
  simp only [Decimal.numerator, Decimal.denominator, Nat.pow_eq]
  rw [Nat.mul_assoc, Nat.mul_assoc, Nat.mul_assoc, ← Nat.pow_add, ← Nat.pow_add, ← Nat.pow_add,
    ← Nat.add_assoc, hexponents]

/-- The sign of a decimal number is that of the number. -/
theorem ofDecimal_eq_finite {d : Decimal} {negative negative' : Bool}
    (h : ofDecimal negative d = .finite negative m q) :
    ofDecimal negative' d = .finite negative' m q := by
  rw [ofDecimal_eq_ofUnits] at h ⊢
  exact ofUnits_eq_finite h

theorem ofDecimal_of_withDigits? {digits : Nat} {d : Decimal}
    (h : withDigits? m q digits = some d) : ofDecimal false d = .finite false m q := by
  rw [withDigits?] at h
  generalize onGrid _ _ _ = r at h
  have hread := List.find?_some h
  exact beq_iff_eq.mp hread

/-- The scale of zero is zero. -/
theorem IsReduced.scale_eq_zero (h : IsReduced 0 q) : q = 0 := by
  by_contra hq
  exact absurd (h.le hq) (by decide)

/-- The decimal that is chosen for a number is rounded to the number. -/
theorem ofDecimal_shortest (h : IsReduced m q) (negative : Bool) :
    ofDecimal negative (shortest m q) = .finite negative m q := by
  rw [shortest]
  split
  · next hzero =>
      subst hzero
      rw [h.scale_eq_zero]
      rfl
  · cases hfound : (List.range 17).findSome? fun n => withDigits? m q (n + 1) with
    | none => exact ofDecimal_exactDecimal h negative
    | some d =>
        obtain ⟨n, -, hd⟩ := List.exists_of_findSome?_eq_some hfound
        exact ofDecimal_eq_finite (ofDecimal_of_withDigits? hd)

/-- Zero is chosen for zero only. -/
theorem exponent_shortest (h : IsReduced m q) (hzero : (shortest m q).digits = 0) :
    (shortest m q).exponent = 0 := by
  have hvalue := ofDecimal_shortest h false
  rw [ofDecimal, if_pos hzero, zero] at hvalue
  obtain ⟨-, rfl, -⟩ := Binary64.finite.inj hvalue
  rfl

/-- Digits with a power of ten for the first of them. A zero in front is the only digit, and its
power is zero. -/
structure LaidOut where
  digits : Numeral
  power : Int
  eq_zero : digits.digits.head? = some '0' → digits.digits = ['0'] ∧ power = 0

/-- The decimal number that is laid out. -/
def LaidOut.value (l : LaidOut) : Decimal :=
  ⟨l.digits.value, l.power + 1 - l.digits.digits.length⟩

/-- The digits of a number without the zeros at their end. -/
theorem natText_eq_append (n : Nat) : ∃ k,
    Decimal.natText n
      = dropEndWhile (· == '0') (Decimal.natText n) ++ List.replicate k '0' := by
  have hzeros : ∀ c ∈ (Decimal.natText n).rtakeWhile (· == '0'), c = '0' := by
    intro c hc
    have hzero := List.mem_rtakeWhile_imp hc
    exact beq_iff_eq.mp hzero
  refine ⟨((Decimal.natText n).rtakeWhile (· == '0')).length, ?_⟩
  rw [dropEndWhile_eq_rdropWhile, ← List.eq_replicate_of_mem hzeros,
    List.rdropWhile_append_rtakeWhile]

/-- What is laid out for a decimal number stands for a number next to the same binary number. -/
theorem exists_laidOut {d : Decimal} (h : d.digits = 0 → d.exponent = 0) :
    ∃ l : LaidOut, digitsAndPower d = (l.digits.digits, l.power)
      ∧ ∀ negative, ofDecimal negative l.value = ofDecimal negative d := by
  by_cases hzero : d.digits = 0
  · obtain ⟨n, e⟩ := d
    obtain rfl : n = 0 := hzero
    obtain rfl : e = 0 := h rfl
    exact ⟨⟨⟨['0'], by decide, by decide⟩, 0, fun _ => ⟨rfl, rfl⟩⟩, rfl, fun _ => rfl⟩
  · obtain ⟨k, hk⟩ := natText_eq_append d.digits
    have hhead := Decimal.head?_natText_ne hzero
    have hvalue : Decimal.ofDigits ((Decimal.natText d.digits).map fun c => c.toNat - 48)
        = d.digits := Numeral.value_ofNat d.digits
    have hdigit := (Numeral.ofNat d.digits).isDigit
    change ∀ c ∈ Decimal.natText d.digits, c.isDigit = true at hdigit
    generalize hkept : dropEndWhile (· == '0') (Decimal.natText d.digits) = kept at hk
    rw [hk] at hhead hvalue hdigit
    have hne : kept ≠ [] := by
      rintro rfl
      rw [List.nil_append, List.map_replicate] at hvalue
      have hzeros := Decimal.ofDigits_append_zeros [] k
      rw [List.nil_append, Decimal.ofDigits_nil, Nat.zero_mul] at hzeros
      exact hzero (hvalue.symm.trans hzeros)
    have hfirst : kept.head? ≠ some '0' := by
      rwa [List.head?_append_of_ne_nil _ hne] at hhead
    refine ⟨⟨⟨kept, hne, fun c hc => hdigit c (List.mem_append_left _ hc)⟩,
      d.exponent + (Decimal.natText d.digits).length - 1, fun heq => absurd heq hfirst⟩, ?_, ?_⟩
    · rw [digitsAndPower, hkept]
      simp [hne]
    · intro negative
      have hlength : (Decimal.natText d.digits).length = kept.length + k := by
        rw [hk, List.length_append, List.length_replicate]
      have hexponent : d.exponent + ((Decimal.natText d.digits).length : Int) - 1 + 1 - kept.length
          = d.exponent + k := by
        rw [hlength]
        omega
      rw [List.map_append, List.map_replicate] at hvalue
      have hshift := Decimal.ofDigits_append_zeros (kept.map fun c => c.toNat - 48) k
      rw [LaidOut.value, Numeral.value, hexponent, ← ofDecimal_shift, ← hshift]
      exact congrArg (ofDecimal negative ⟨·, d.exponent⟩) hvalue

/-- What is laid out for a finite number is read as the number. -/
theorem exists_laidOut_shortest (h : IsReduced m q) :
    ∃ l : LaidOut, digitsAndPower (shortest m q) = (l.digits.digits, l.power)
      ∧ ∀ negative, ofDecimal negative l.value = .finite negative m q := by
  obtain ⟨l, hl, hvalue⟩ := exists_laidOut (exponent_shortest h)
  exact ⟨l, hl, fun negative => (hvalue negative).trans (ofDecimal_shortest h negative)⟩

end Binary64

end DocTags
