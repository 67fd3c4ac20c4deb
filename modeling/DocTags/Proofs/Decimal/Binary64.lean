import DocTags.Decimal.Shortest
import DocTags.Proofs.Decimal.Digits

/-!
# Decimal forms of binary numbers

A unit of a binary number is a power of five in units of a power of ten. So every finite number has
an exact decimal form, and rounding the form gives the number back.
-/

namespace DocTags.Binary64

/-- The significand and the scale of a finite number: the significand is full or the scale zero. -/
structure IsReduced (significand scale : Nat) : Prop where
  lt : significand < Nat.pow 2 precision
  le : scale ≠ 0 → Nat.pow 2 (precision - 1) ≤ significand
  scale_le : scale ≤ maxScale

variable {m q den : Nat}

theorem pow_pos_of_pos {b : Nat} (hb : 0 < b) (n : Nat) : 0 < Nat.pow b n :=
  Nat.pow_pos hb

theorem two_pow_pos (n : Nat) : 0 < Nat.pow 2 n :=
  pow_pos_of_pos (by decide) n

theorem ten_pow_pos (n : Nat) : 0 < Nat.pow 10 n :=
  pow_pos_of_pos (by decide) n

theorem two_pow_le {n k : Nat} (h : n ≤ k) : Nat.pow 2 n ≤ Nat.pow 2 k :=
  Nat.pow_le_pow_right (by decide) h

theorem five_pow_mul_two_pow (n : Nat) : Nat.pow 5 n * Nat.pow 2 n = Nat.pow 10 n :=
  (Nat.mul_pow 5 2 n).symm

theorem log2_mul_pow (hm : m ≠ 0) (q : Nat) : (m * Nat.pow 2 q).log2 = m.log2 + q := by
  induction q with
  | zero => exact congrArg Nat.log2 (Nat.mul_one m)
  | succ q ih =>
      have hstep : m * Nat.pow 2 (q + 1) = 2 * (m * Nat.pow 2 q) := by
        rw [Nat.mul_comm 2, Nat.mul_assoc]
        rfl
      have hne : m * Nat.pow 2 q ≠ 0 := Nat.mul_ne_zero hm (Nat.ne_of_gt (two_pow_pos q))
      rw [hstep, Nat.log2_two_mul hne, ih, Nat.add_assoc]

/-- A multiple of the denominator has the scale of the number. -/
theorem scaleOf_exact (h : IsReduced m q) (hm : m ≠ 0) (hden : 0 < den) :
    scaleOf (m * Nat.pow 2 q * den) den = q := by
  have hlt : m.log2 < 53 := (Nat.log2_lt hm).mpr h.lt
  rw [scaleOf, Nat.mul_div_cancel _ hden, log2_mul_pow hm, precision]
  by_cases hq : q = 0
  · omega
  · have hle : 52 ≤ m.log2 := (Nat.le_log2 hm).mpr (h.le hq)
    omega

theorem divNearest_exact (hden : 0 < den) (m : Nat) : divNearest (m * den) den = m := by
  rw [divNearest, Nat.mul_div_cancel _ hden, Nat.mul_mod_left]
  exact if_pos (.inl hden)

/-- An exact quotient is not rounded. -/
theorem ofUnits_exact (h : IsReduced m q) (hm : m ≠ 0) (hden : 0 < den) (negative : Bool) :
    ofUnits negative (m * Nat.pow 2 q * den) den = .finite negative m q := by
  have hscaled : m * Nat.pow 2 q * den = m * (den * Nat.pow 2 q) := by
    rw [Nat.mul_assoc, Nat.mul_comm den]
  have hpos : 0 < den * Nat.pow 2 q := Nat.mul_pos hden (two_pow_pos q)
  have hsignificand : divNearest (m * Nat.pow 2 q * den) (den * Nat.pow 2 q) = m := by
    rw [hscaled, divNearest_exact hpos]
  rw [ofUnits, scaleOf_exact h hm hden, hsignificand]
  simp only [if_neg (Nat.ne_of_lt h.lt), if_neg (Nat.not_lt.mpr h.scale_le)]

/-- The digits of an exact decimal form are neither too many nor too few for a finite number. -/
theorem length_exactDecimal (h : IsReduced m q) (hm : m ≠ 0) :
    673 < (Decimal.natText (exactDecimal m q).digits).length
      ∧ (Decimal.natText (exactDecimal m q).digits).length ≤ 1474 := by
  have hfives : Nat.pow 5 unitBits ≤ (exactDecimal m q).digits :=
    Nat.le_mul_of_pos_left _ (Nat.mul_pos (Nat.pos_of_ne_zero hm) (two_pow_pos q))
  have hbound : (exactDecimal m q).digits
      < Nat.pow 2 precision * Nat.pow 2 maxScale * Nat.pow 5 unitBits :=
    Nat.mul_lt_mul_of_pos_right (Nat.mul_lt_mul_of_lt_of_le h.lt (two_pow_le h.scale_le)
      (two_pow_pos maxScale)) (pow_pos_of_pos (by decide) unitBits)
  have hlow : Decimal.leastBeyond 673 ≤ Nat.pow 5 unitBits := by decide +kernel
  have hhigh : Nat.pow 2 precision * Nat.pow 2 maxScale * Nat.pow 5 unitBits
      ≤ Decimal.leastBeyond 1474 := by decide +kernel
  exact ⟨(Decimal.lt_length_natText_iff _ (by decide)).mpr (Nat.le_trans hlow hfives),
    (Decimal.length_natText_le_iff _ (by decide)).mpr (Nat.lt_of_lt_of_le hbound hhigh)⟩

/-- The exact decimal form of a finite number is rounded to the number. -/
theorem ofDecimal_exactDecimal (h : IsReduced m q) (negative : Bool) :
    ofDecimal negative (exactDecimal m q) = .finite negative m q := by
  by_cases hm : m = 0
  · have hq : q = 0 :=
      Decidable.byContradiction fun hq => absurd (h.le hq) (by rw [hm]; decide)
    have hdigits : (exactDecimal m q).digits = 0 := by
      rw [exactDecimal, hm, Nat.zero_mul, Nat.zero_mul]
    rw [ofDecimal, if_pos hdigits, hm, hq, zero]
  · obtain ⟨hlow, hhigh⟩ := length_exactDecimal h hm
    have hdigits : (exactDecimal m q).digits ≠ 0 :=
      Nat.mul_ne_zero (Nat.mul_ne_zero hm (Nat.ne_of_gt (two_pow_pos q)))
        (Nat.ne_of_gt (pow_pos_of_pos (by decide) unitBits))
    have hexponent : (exactDecimal m q).exponent = -1074 := rfl
    have hden : (-(exactDecimal m q).exponent).toNat = unitBits := rfl
    have htens : (exactDecimal m q).digits * Nat.pow 2 unitBits
        = m * Nat.pow 2 q * Nat.pow 10 unitBits := by
      rw [exactDecimal, Nat.mul_assoc (m * _), five_pow_mul_two_pow]
    simp only [ofDecimal, if_neg hdigits, hden]
    rw [if_neg (by omega), if_neg (by omega), if_neg (by omega), ofRatio, htens]
    exact ofUnits_exact h hm (ten_pow_pos unitBits) negative

end DocTags.Binary64
