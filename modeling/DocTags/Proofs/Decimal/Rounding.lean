import DocTags.Proofs.Decimal.Binary64
import Mathlib.Data.Nat.Dist

/-!
# Rounding to the nearest binary number

A quotient is rounded to a number that is nearest to it among all numbers with significands that
are not too long, and to the even one of two that are as near. What lies beyond the largest numbers
by half a unit or more is infinite. How a quotient or a decimal number is written does not matter.
-/

namespace DocTags.Binary64

variable {num den num' den' k m q : Nat}

/-- A quotient is rounded by half of one at most, and if by half of one, to an even number. -/
theorem divNearest_near (hden : 0 < den) (num : Nat) :
    2 * (divNearest num den * den) ≤ 2 * num + den
    ∧ 2 * num ≤ 2 * (divNearest num den * den) + den
    ∧ (2 * (divNearest num den * den) = 2 * num + den
        ∨ 2 * num = 2 * (divNearest num den * den) + den → divNearest num den % 2 = 0) := by
  have hnum : num / den * den + num % den = num := Nat.div_add_mod' num den
  have hlt : num % den < den := Nat.mod_lt num hden
  simp only [divNearest]
  split
  · omega
  · rw [Nat.add_one_mul (num / den) den]
    omega

theorem dist_divNearest_le (hden : 0 < den) (num k : Nat) :
    Nat.dist (divNearest num den * den) num ≤ Nat.dist (k * den) num := by
  obtain ⟨hlow, hhigh, -⟩ := divNearest_near hden num
  rw [Nat.dist, Nat.dist]
  rcases Nat.lt_trichotomy k (divNearest num den) with hlt | rfl | hgt
  · have hle := Nat.mul_le_mul_right den (Nat.succ_le_of_lt hlt)
    rw [Nat.succ_mul] at hle
    omega
  · exact Nat.le_refl _
  · have hle := Nat.mul_le_mul_right den (Nat.succ_le_of_lt hgt)
    rw [Nat.succ_mul] at hle
    omega

theorem even_divNearest (hden : 0 < den) (hk : k ≠ divNearest num den)
    (heq : Nat.dist (divNearest num den * den) num = Nat.dist (k * den) num) :
    divNearest num den % 2 = 0 := by
  obtain ⟨hlow, hhigh, htie⟩ := divNearest_near hden num
  apply htie
  rw [Nat.dist, Nat.dist] at heq
  rcases Nat.lt_trichotomy k (divNearest num den) with hlt | rfl | hgt
  · have hle := Nat.mul_le_mul_right den (Nat.succ_le_of_lt hlt)
    rw [Nat.succ_mul] at hle
    omega
  · exact absurd rfl hk
  · have hle := Nat.mul_le_mul_right den (Nat.succ_le_of_lt hgt)
    rw [Nat.succ_mul] at hle
    omega

/-- An odd number is passed from the middle behind it on. -/
theorem lt_divNearest_iff (hden : 0 < den) (hk : k % 2 = 1) :
    k < divNearest num den ↔ (2 * k + 1) * den ≤ 2 * num := by
  obtain ⟨hlow, hhigh, htie⟩ := divNearest_near hden num
  have hmiddle : (2 * k + 1) * den = 2 * (k * den) + den := by
    rw [Nat.add_one_mul (2 * k) den, Nat.mul_assoc]
  rw [hmiddle]
  constructor
  · intro hlt
    have hle := Nat.mul_le_mul_right den (Nat.succ_le_of_lt hlt)
    rw [Nat.succ_mul] at hle
    omega
  · intro hle
    by_contra hnot
    have hmul := Nat.mul_le_mul_right den (Nat.not_lt.mp hnot)
    have heven := htie (.inr (by omega))
    have hself : divNearest num den = k := Nat.eq_of_mul_eq_mul_right hden (by omega)
    omega

theorem le_divNearest (hk : k ≤ num / den) : k ≤ divNearest num den := by
  simp only [divNearest]
  split <;> omega

theorem divNearest_le (hk : num / den < k) : divNearest num den ≤ k := by
  simp only [divNearest]
  split <;> omega

/-- A common factor does not matter. -/
theorem divNearest_mul_right (hk : 0 < k) (num den : Nat) :
    divNearest (num * k) (den * k) = divNearest num den := by
  have hlt : 2 * (num % den * k) < den * k ↔ 2 * (num % den) < den := by
    rw [← Nat.mul_assoc, Nat.mul_lt_mul_right hk]
  have heq : 2 * (num % den * k) = den * k ↔ 2 * (num % den) = den := by
    rw [← Nat.mul_assoc, Nat.mul_left_inj (Nat.ne_of_gt hk)]
  simp only [divNearest, Nat.mul_div_mul_right num den hk, Nat.mul_mod_mul_right, hlt, heq]

theorem div_lt_scaleOf (num den : Nat) : num / den < Nat.pow 2 (precision + scaleOf num den) := by
  have hlt : num / den < 2 ^ ((num / den).log2 + 1) := Nat.lt_log2_self
  refine Nat.lt_of_lt_of_le hlt (two_pow_le ?_)
  rw [scaleOf]
  omega

theorem scaleOf_le_div (h : scaleOf num den ≠ 0) :
    Nat.pow 2 (precision - 1 + scaleOf num den) ≤ num / den := by
  have hne : num / den ≠ 0 := by
    intro hzero
    rw [scaleOf, hzero] at h
    exact h rfl
  refine Nat.le_trans (two_pow_le ?_) (Nat.log2_self_le hne)
  rw [scaleOf, precision] at h ⊢
  omega

/-- The significand and the scale to which a quotient is rounded, however large it is. -/
def rounded (num den : Nat) : Nat × Nat :=
  let scale := scaleOf num den
  let significand := divNearest num (den * Nat.pow 2 scale)
  if significand = Nat.pow 2 precision then (Nat.pow 2 (precision - 1), scale + 1)
  else (significand, scale)

theorem ofUnits_eq (negative : Bool) (num den : Nat) : ofUnits negative num den
    = if maxScale < (rounded num den).2 then .infinite negative
      else .finite negative (rounded num den).1 (rounded num den).2 := by
  unfold ofUnits rounded
  rfl

theorem two_pow_add (n k : Nat) : Nat.pow 2 (n + k) = Nat.pow 2 n * Nat.pow 2 k :=
  Nat.pow_add 2 n k

/-- The quotient in units of its scale has as many bits as a full significand, at scale zero perhaps
fewer. -/
theorem div_scaleOf (num den : Nat) :
    num / (den * Nat.pow 2 (scaleOf num den)) < Nat.pow 2 precision
    ∧ (scaleOf num den ≠ 0 →
      Nat.pow 2 (precision - 1) ≤ num / (den * Nat.pow 2 (scaleOf num den))) := by
  rw [← Nat.div_div_eq_div_mul]
  constructor
  · rw [Nat.div_lt_iff_lt_mul (two_pow_pos _), ← two_pow_add]
    exact div_lt_scaleOf num den
  · intro hscale
    rw [Nat.le_div_iff_mul_le (two_pow_pos _), ← two_pow_add]
    exact scaleOf_le_div hscale

/-- What a quotient is rounded to is a multiple of a unit of its scale. If the significand would be
too long, the scale is one more. -/
theorem rounded_cases (num den : Nat) :
    (rounded num den = (divNearest num (den * Nat.pow 2 (scaleOf num den)), scaleOf num den)
      ∧ divNearest num (den * Nat.pow 2 (scaleOf num den)) < Nat.pow 2 precision)
    ∨ (rounded num den = (Nat.pow 2 (precision - 1), scaleOf num den + 1)
      ∧ divNearest num (den * Nat.pow 2 (scaleOf num den)) = Nat.pow 2 precision) := by
  have hle := divNearest_le (div_scaleOf num den).1
  simp only [rounded]
  split
  · next heq => exact .inr ⟨rfl, heq⟩
  · next hne => exact .inl ⟨rfl, Nat.lt_of_le_of_ne hle hne⟩

theorem rounded_lt (num den : Nat) : (rounded num den).1 < Nat.pow 2 precision := by
  rcases rounded_cases num den with ⟨h, hlt⟩ | ⟨h, -⟩
  · rw [h]
    exact hlt
  · rw [h]
    exact Nat.pow_lt_pow_right (by decide) (by decide)

theorem le_rounded (h : (rounded num den).2 ≠ 0) :
    Nat.pow 2 (precision - 1) ≤ (rounded num den).1 := by
  rcases rounded_cases num den with ⟨hr, -⟩ | ⟨hr, -⟩
  · rw [hr] at h ⊢
    exact le_divNearest ((div_scaleOf num den).2 h)
  · rw [hr]

/-- The value of what a quotient is rounded to. -/
theorem rounded_value (num den : Nat) : (rounded num den).1 * Nat.pow 2 (rounded num den).2
    = divNearest num (den * Nat.pow 2 (scaleOf num den)) * Nat.pow 2 (scaleOf num den) := by
  rcases rounded_cases num den with ⟨h, -⟩ | ⟨h, heq⟩
  · rw [h]
  · rw [h, heq, ← two_pow_add, ← two_pow_add]
    congr 1
    rw [precision]
    omega

theorem rounded_value_mul (num den : Nat) :
    (rounded num den).1 * Nat.pow 2 (rounded num den).2 * den
      = divNearest num (den * Nat.pow 2 (scaleOf num den))
        * (den * Nat.pow 2 (scaleOf num den)) := by
  rw [rounded_value, Nat.mul_assoc, Nat.mul_comm den]

/-- Among the numbers with significands that are not too long, none is nearer to the quotient, and
if another one is as near, the significand is even. -/
structure IsNearest (num den m q : Nat) : Prop where
  le : ∀ n r, n < Nat.pow 2 precision →
    Nat.dist (m * Nat.pow 2 q * den) num ≤ Nat.dist (n * Nat.pow 2 r * den) num
  even : ∀ n r, n < Nat.pow 2 precision → n * Nat.pow 2 r ≠ m * Nat.pow 2 q →
    Nat.dist (m * Nat.pow 2 q * den) num = Nat.dist (n * Nat.pow 2 r * den) num → m % 2 = 0

/-- A number at a lower scale is too small to be as near. -/
theorem dist_rounded_lt (hden : 0 < den) {n r : Nat} (hn : n < Nat.pow 2 precision)
    (hr : r < scaleOf num den) :
    Nat.dist ((rounded num den).1 * Nat.pow 2 (rounded num den).2 * den) num
      < Nat.dist (n * Nat.pow 2 r * den) num := by
  have hdiv := (div_scaleOf num den).2 (by omega)
  have hpos : 0 < den * Nat.pow 2 (scaleOf num den) := Nat.mul_pos hden (two_pow_pos _)
  rw [Nat.le_div_iff_mul_le hpos] at hdiv
  have hnear := dist_divNearest_le hpos num (Nat.pow 2 (precision - 1))
  have hsmall : n * Nat.pow 2 r * den
      < Nat.pow 2 (precision - 1) * (den * Nat.pow 2 (scaleOf num den)) := by
    have hscale : Nat.pow 2 (r + 1) ≤ Nat.pow 2 (scaleOf num den) := two_pow_le hr
    calc n * Nat.pow 2 r * den
        < Nat.pow 2 precision * Nat.pow 2 r * den :=
          Nat.mul_lt_mul_of_pos_right (Nat.mul_lt_mul_of_pos_right hn (two_pow_pos r)) hden
      _ = Nat.pow 2 (precision - 1) * (den * Nat.pow 2 (r + 1)) := by
          have htwo : Nat.pow 2 precision = Nat.pow 2 (precision - 1) * 2 := rfl
          have hstep : Nat.pow 2 (r + 1) = 2 * Nat.pow 2 r := Nat.pow_succ'
          rw [htwo, hstep, Nat.mul_comm den]
          simp only [Nat.mul_assoc]
      _ ≤ Nat.pow 2 (precision - 1) * (den * Nat.pow 2 (scaleOf num den)) :=
          Nat.mul_le_mul_left _ (Nat.mul_le_mul_left den hscale)
  rw [rounded_value_mul]
  rw [Nat.dist, Nat.dist] at hnear ⊢
  omega

/-- A quotient is rounded to the number that is nearest. -/
theorem isNearest_rounded (hden : 0 < den) (num : Nat) :
    IsNearest num den (rounded num den).1 (rounded num den).2 := by
  have hpos : 0 < den * Nat.pow 2 (scaleOf num den) := Nat.mul_pos hden (two_pow_pos _)
  -- A number at the scale or a higher one is a multiple of a unit of the scale.
  have hmultiple : ∀ n r, scaleOf num den ≤ r →
      n * Nat.pow 2 r = n * Nat.pow 2 (r - scaleOf num den) * Nat.pow 2 (scaleOf num den) := by
    intro n r hr
    rw [Nat.mul_assoc, ← two_pow_add, Nat.sub_add_cancel hr]
  have hscaled : ∀ k, k * Nat.pow 2 (scaleOf num den) * den
      = k * (den * Nat.pow 2 (scaleOf num den)) := by
    intro k
    rw [Nat.mul_assoc, Nat.mul_comm den]
  constructor
  · intro n r hn
    by_cases hr : r < scaleOf num den
    · exact Nat.le_of_lt (dist_rounded_lt hden hn hr)
    · rw [rounded_value_mul, hmultiple n r (Nat.not_lt.mp hr), hscaled]
      exact dist_divNearest_le hpos num _
  · intro n r hn hne heq
    have hr : scaleOf num den ≤ r := by
      by_contra hr
      exact Nat.ne_of_lt (dist_rounded_lt hden hn (Nat.not_le.mp hr)) heq
    rw [rounded_value, hmultiple n r hr] at hne
    rw [rounded_value_mul, hmultiple n r hr, hscaled] at heq
    have heven := even_divNearest hpos (fun h => hne (by rw [h])) heq
    rcases rounded_cases num den with ⟨hrounded, -⟩ | ⟨hrounded, -⟩
    · rw [hrounded]
      exact heven
    · have hfull : Nat.pow 2 (precision - 1) % 2 = 0 := by decide
      rw [hrounded]
      exact hfull

theorem dist_lt_of_between {a b c x : Nat} (hac : a < c) (hcb : c < b)
    (h : Nat.dist a x = Nat.dist b x) : Nat.dist c x < Nat.dist a x := by
  rw [Nat.dist, Nat.dist] at h ⊢
  omega

/-- Two different numbers with even significands are not next to each other. -/
theorem exists_between {n r : Nat} (h : IsReduced m q) (h' : IsReduced n r) (hm : m % 2 = 0)
    (hn : n % 2 = 0) (hlt : m * Nat.pow 2 q < n * Nat.pow 2 r) :
    (m + 1) < Nat.pow 2 precision ∧ (m + 1) * Nat.pow 2 q < n * Nat.pow 2 r := by
  have hsucc : (m + 1) * Nat.pow 2 q = m * Nat.pow 2 q + Nat.pow 2 q := Nat.add_one_mul m _
  have heven : Nat.pow 2 precision % 2 = 0 := by decide
  refine ⟨by have := h.lt; omega, ?_⟩
  by_cases hr : q ≤ r
  · -- The larger one is a multiple of a unit of the lower scale.
    have hmultiple : n * Nat.pow 2 r = n * Nat.pow 2 (r - q) * Nat.pow 2 q := by
      rw [Nat.mul_assoc, ← two_pow_add, Nat.sub_add_cancel hr]
    rw [hmultiple] at hlt ⊢
    have hle : m + 1 ≤ n * Nat.pow 2 (r - q) := Nat.lt_of_mul_lt_mul_right hlt
    refine Nat.mul_lt_mul_of_pos_right (Nat.lt_of_le_of_ne hle fun heq => ?_) (two_pow_pos q)
    have hfactor : n * Nat.pow 2 (r - q) % 2 = 0 := by
      rw [Nat.mul_mod, hn, Nat.zero_mul]
    omega
  · -- Below a full significand there is no larger number at a lower scale.
    have hfull := h.le (by omega)
    have hstep : Nat.pow 2 precision * Nat.pow 2 r ≤ Nat.pow 2 (precision - 1) * Nat.pow 2 q := by
      rw [← two_pow_add, ← two_pow_add]
      refine two_pow_le ?_
      rw [precision]
      omega
    have hsmall : n * Nat.pow 2 r < m * Nat.pow 2 q :=
      calc n * Nat.pow 2 r < Nat.pow 2 precision * Nat.pow 2 r :=
            Nat.mul_lt_mul_of_pos_right h'.lt (two_pow_pos r)
        _ ≤ Nat.pow 2 (precision - 1) * Nat.pow 2 q := hstep
        _ ≤ m * Nat.pow 2 q := Nat.mul_le_mul_right _ hfull
    exact absurd hlt (Nat.lt_asymm hsmall)

theorem IsNearest.not_lt {n r : Nat} (hden : 0 < den) (h : IsNearest num den m q)
    (h' : IsNearest num den n r) (hm : IsReduced m q) (hn : IsReduced n r) :
    ¬ m * Nat.pow 2 q < n * Nat.pow 2 r := by
  intro hlt
  have hdist := Nat.le_antisymm (h.le n r hn.lt) (h'.le m q hm.lt)
  have heven := h.even n r hn.lt (Nat.ne_of_gt hlt) hdist
  have heven' := h'.even m q hm.lt (Nat.ne_of_lt hlt) hdist.symm
  obtain ⟨hlength, hbetween⟩ := exists_between hm hn heven heven' hlt
  have hself : m * Nat.pow 2 q < (m + 1) * Nat.pow 2 q :=
    Nat.mul_lt_mul_of_pos_right (Nat.lt_succ_self m) (two_pow_pos q)
  have hnearer := dist_lt_of_between (Nat.mul_lt_mul_of_pos_right hself hden)
    (Nat.mul_lt_mul_of_pos_right hbetween hden) hdist
  exact absurd (h.le (m + 1) q hlength) (Nat.not_le.mpr hnearer)

/-- A quotient has one nearest number. -/
theorem IsNearest.value_eq {n r : Nat} (hden : 0 < den) (h : IsNearest num den m q)
    (h' : IsNearest num den n r) (hm : IsReduced m q) (hn : IsReduced n r) :
    m * Nat.pow 2 q = n * Nat.pow 2 r :=
  Nat.le_antisymm (Nat.not_lt.mp (h'.not_lt hden h hn hm)) (Nat.not_lt.mp (h.not_lt hden h' hm hn))

/-- A quotient is infinite from the middle on between the largest finite number and the next one
that a larger scale would have. -/
theorem maxScale_lt_rounded_iff (hden : 0 < den) (num : Nat) :
    maxScale < (rounded num den).2
      ↔ (2 * (Nat.pow 2 precision - 1) + 1) * (den * Nat.pow 2 maxScale) ≤ 2 * num := by
  have hscale : (rounded num den).2 = scaleOf num den
      ∨ (rounded num den).2 = scaleOf num den + 1 := by
    rcases rounded_cases num den with ⟨h, -⟩ | ⟨h, -⟩ <;> simp [h]
  have hfull : 2 * (Nat.pow 2 precision - 1) + 1 ≤ 2 * Nat.pow 2 precision := by decide
  have hlong : Nat.pow 2 precision ≤ 2 * (Nat.pow 2 precision - 1) + 1 := by decide
  rcases Nat.lt_trichotomy (scaleOf num den) maxScale with hlt | heq | hgt
  · have hdiv := (Nat.div_lt_iff_lt_mul hden).mp (div_lt_scaleOf num den)
    have hpow : Nat.pow 2 (precision + scaleOf num den) * 2
        ≤ Nat.pow 2 precision * Nat.pow 2 maxScale := by
      rw [← two_pow_add]
      exact two_pow_le (n := precision + scaleOf num den + 1) (by omega)
    refine iff_of_false (by omega) (Nat.not_le.mpr ?_)
    calc 2 * num < 2 * (Nat.pow 2 (precision + scaleOf num den) * den) := by omega
      _ = Nat.pow 2 (precision + scaleOf num den) * 2 * den := by
          rw [Nat.mul_comm _ 2, Nat.mul_assoc]
      _ ≤ Nat.pow 2 precision * Nat.pow 2 maxScale * den := Nat.mul_le_mul_right den hpow
      _ = Nat.pow 2 precision * (den * Nat.pow 2 maxScale) := by
          rw [Nat.mul_assoc, Nat.mul_comm den]
      _ ≤ _ := Nat.mul_le_mul_right _ hlong
  · have hpos : 0 < den * Nat.pow 2 maxScale := Nat.mul_pos hden (two_pow_pos _)
    have hodd : (Nat.pow 2 precision - 1) % 2 = 1 := by decide
    rw [← lt_divNearest_iff hpos hodd]
    rcases rounded_cases num den with ⟨h, hs⟩ | ⟨h, hs⟩
    · rw [heq] at h hs
      rw [h]
      exact iff_of_false (Nat.lt_irrefl _) (by omega)
    · rw [heq] at h hs
      rw [h, hs]
      exact iff_of_true (Nat.lt_succ_self _) (by decide)
  · have hdiv := (Nat.le_div_iff_mul_le hden).mp
      (scaleOf_le_div (Nat.ne_of_gt (Nat.zero_lt_of_lt hgt)))
    have hpow : Nat.pow 2 precision * Nat.pow 2 maxScale
        ≤ Nat.pow 2 (precision - 1 + scaleOf num den) := by
      rw [← two_pow_add]
      refine two_pow_le ?_
      rw [precision]
      omega
    refine iff_of_true (by omega) ?_
    calc (2 * (Nat.pow 2 precision - 1) + 1) * (den * Nat.pow 2 maxScale)
        ≤ 2 * Nat.pow 2 precision * (den * Nat.pow 2 maxScale) := Nat.mul_le_mul_right _ hfull
      _ = 2 * (Nat.pow 2 precision * Nat.pow 2 maxScale * den) := by
          rw [Nat.mul_assoc, Nat.mul_assoc, Nat.mul_comm den]
      _ ≤ 2 * (Nat.pow 2 (precision - 1 + scaleOf num den) * den) :=
          Nat.mul_le_mul_left 2 (Nat.mul_le_mul_right den hpow)
      _ ≤ 2 * num := Nat.mul_le_mul_left 2 hdiv

/-- A finite result has the form of a finite number. -/
theorem isReduced_rounded (h : (rounded num den).2 ≤ maxScale) :
    IsReduced (rounded num den).1 (rounded num den).2 :=
  ⟨rounded_lt num den, le_rounded, h⟩

/-- How a quotient is written does not matter. -/
theorem rounded_mul_right (hk : 0 < k) (num den : Nat) :
    rounded (num * k) (den * k) = rounded num den := by
  have hscale : scaleOf (num * k) (den * k) = scaleOf num den := by
    rw [scaleOf, scaleOf, Nat.mul_div_mul_right num den hk]
  have hunits : den * k * Nat.pow 2 (scaleOf num den) = den * Nat.pow 2 (scaleOf num den) * k := by
    rw [Nat.mul_assoc, Nat.mul_comm k, Nat.mul_assoc]
  simp only [rounded, hscale, hunits, divNearest_mul_right hk]

theorem ofUnits_congr (hden : 0 < den) (hden' : 0 < den') (h : num * den' = num' * den)
    (negative : Bool) : ofUnits negative num den = ofUnits negative num' den' := by
  have hrounded : rounded num den = rounded num' den' := by
    rw [← rounded_mul_right hden' num den, h, Nat.mul_comm den, rounded_mul_right hden]
  rw [ofUnits_eq, ofUnits_eq, hrounded]

/-- The sign of a quotient is that of the number. -/
theorem ofUnits_eq_finite {negative negative' : Bool}
    (h : ofUnits negative num den = .finite negative m q) :
    ofUnits negative' num den = .finite negative' m q := by
  rw [ofUnits_eq] at h ⊢
  split at h
  · cases h
  · next hscale =>
      obtain ⟨-, rfl, rfl⟩ := Binary64.finite.inj h
      exact if_neg hscale

end DocTags.Binary64

namespace DocTags.Decimal

/-- The numerator of a decimal number over its denominator. -/
def numerator (d : Decimal) : Nat :=
  d.digits * Nat.pow 10 d.exponent.toNat

/-- The power of ten in which a decimal number counts, if it has digits behind the point. -/
def denominator (d : Decimal) : Nat :=
  Nat.pow 10 (-d.exponent).toNat

theorem denominator_pos (d : Decimal) : 0 < d.denominator :=
  Binary64.ten_pow_pos _

end DocTags.Decimal

namespace DocTags.Binary64

open Decimal

/-- A decimal number below its range is rounded to zero. -/
theorem ofUnits_of_lt (hden : 2 * num < den) (negative : Bool) :
    ofUnits negative num den = zero negative := by
  have hdiv : num / den = 0 := Nat.div_eq_of_lt (by omega)
  have hmod : num % den = num := Nat.mod_eq_of_lt (by omega)
  have hscale : scaleOf num den = 0 := by
    rw [scaleOf, hdiv]
    rfl
  have hnearest : divNearest num (den * Nat.pow 2 0) = 0 := by
    have hone : den * Nat.pow 2 0 = den := Nat.mul_one den
    rw [hone, divNearest, hdiv, hmod, if_pos (.inl hden)]
  have hrounded : rounded num den = (0, 0) := by
    rw [rounded, hscale, hnearest]
    exact if_neg (by decide)
  rw [ofUnits_eq, hrounded, if_neg (by decide), zero]

theorem ofUnits_of_le (hden : 0 < den)
    (h : (2 * (Nat.pow 2 precision - 1) + 1) * (den * Nat.pow 2 maxScale) ≤ 2 * num)
    (negative : Bool) : ofUnits negative num den = .infinite negative := by
  rw [ofUnits_eq, if_pos ((maxScale_lt_rounded_iff hden num).mpr h)]

theorem leastBeyond_add (n k : Nat) : leastBeyond (n + k) = leastBeyond n * leastBeyond k :=
  Nat.pow_add 10 n k

theorem length_natText_pos (n : Nat) : 0 < (natText n).length :=
  List.length_pos_iff.mpr Nat.toDigits_ne_nil

/-- A decimal number is at least the power of ten of its first digit. -/
theorem leastBeyond_le_numerator (d : Decimal) (h : d.digits ≠ 0) {n : Nat}
    (hn : (n : Int) < d.exponent + (natText d.digits).length) :
    leastBeyond n * d.denominator ≤ d.numerator := by
  have hfirst : leastBeyond ((natText d.digits).length - 1) ≤ d.digits := by
    by_cases hone : (natText d.digits).length - 1 = 0
    · rw [hone]
      exact Nat.pos_of_ne_zero h
    · exact (lt_length_natText_iff d.digits (Nat.pos_of_ne_zero hone)).mp (by omega)
  have hlength := length_natText_pos d.digits
  calc leastBeyond n * d.denominator = leastBeyond (n + (-d.exponent).toNat) :=
        (leastBeyond_add _ _).symm
    _ ≤ leastBeyond ((natText d.digits).length - 1 + d.exponent.toNat) :=
        leastBeyond_le (by omega)
    _ = leastBeyond ((natText d.digits).length - 1) * leastBeyond d.exponent.toNat :=
        leastBeyond_add _ _
    _ ≤ d.numerator := Nat.mul_le_mul_right _ hfirst

/-- A decimal number is below the power of ten in front of its first digit. -/
theorem numerator_lt_leastBeyond (d : Decimal) {n : Nat}
    (hn : d.exponent + (natText d.digits).length ≤ -n) :
    leastBeyond n * d.numerator < d.denominator := by
  have hlt : d.digits < leastBeyond (natText d.digits).length :=
    (length_natText_le_iff d.digits (length_natText_pos _)).mp (Nat.le_refl _)
  calc leastBeyond n * d.numerator
      < leastBeyond n * (leastBeyond (natText d.digits).length * leastBeyond d.exponent.toNat) :=
        Nat.mul_lt_mul_of_pos_left (Nat.mul_lt_mul_of_pos_right hlt (ten_pow_pos _)) (ten_pow_pos n)
    _ = leastBeyond (n + ((natText d.digits).length + d.exponent.toNat)) := by
        rw [leastBeyond_add, leastBeyond_add]
    _ ≤ d.denominator := leastBeyond_le (by omega)

/-- The least whole number that is rounded to an infinity: the middle between the largest finite
number and the one that a larger scale would have next. -/
def overflow : Nat :=
  (Nat.pow 2 (precision + 1) - 1) * Nat.pow 2 (maxScale - 1 - unitBits)

theorem overflow_le_iff (num den : Nat) : overflow * den ≤ num
    ↔ (2 * (Nat.pow 2 precision - 1) + 1) * (den * Nat.pow 2 maxScale)
      ≤ 2 * (num * Nat.pow 2 unitBits) := by
  have hfull : 2 * (Nat.pow 2 precision - 1) + 1 = Nat.pow 2 (precision + 1) - 1 := by decide
  have hscale : Nat.pow 2 maxScale
      = Nat.pow 2 (maxScale - 1 - unitBits) * (2 * Nat.pow 2 unitBits) := by
    decide +kernel
  have hleft : (2 * (Nat.pow 2 precision - 1) + 1) * (den * Nat.pow 2 maxScale)
      = overflow * den * (2 * Nat.pow 2 unitBits) := by
    rw [hfull, hscale, overflow, Nat.mul_left_comm den, ← Nat.mul_assoc, ← Nat.mul_assoc]
  have hright : 2 * (num * Nat.pow 2 unitBits) = num * (2 * Nat.pow 2 unitBits) :=
    Nat.mul_left_comm 2 num _
  rw [hleft, hright]
  exact (Nat.mul_le_mul_right_iff (Nat.mul_pos (by decide) (two_pow_pos _))).symm

/-- A decimal number is rounded as the quotient that it is. -/
theorem ofDecimal_eq_ofUnits (negative : Bool) (d : Decimal) : ofDecimal negative d
    = ofUnits negative (d.numerator * Nat.pow 2 unitBits) d.denominator := by
  simp only [ofDecimal]
  split
  · next hzero =>
      have hnone : 2 * (d.numerator * Nat.pow 2 unitBits) < d.denominator := by
        rw [numerator, hzero, Nat.zero_mul, Nat.zero_mul]
        exact d.denominator_pos
      exact (ofUnits_of_lt hnone negative).symm
  next hdigits =>
  split
  · next hlarge =>
      have hrange : overflow ≤ leastBeyond 400 := by decide +kernel
      have hle := Nat.le_trans (Nat.mul_le_mul_right d.denominator hrange)
        (leastBeyond_le_numerator d hdigits hlarge)
      exact (ofUnits_of_le d.denominator_pos ((overflow_le_iff _ _).mp hle) negative).symm
  next hlarge =>
  split
  · next hsmall =>
      have hlt : leastBeyond 400 * d.numerator < d.denominator :=
        numerator_lt_leastBeyond d (by omega)
      have hrange : 2 * Nat.pow 2 unitBits ≤ leastBeyond 400 := by decide +kernel
      refine (ofUnits_of_lt ?_ negative).symm
      calc 2 * (d.numerator * Nat.pow 2 unitBits) = 2 * Nat.pow 2 unitBits * d.numerator := by
            rw [Nat.mul_comm d.numerator, Nat.mul_assoc]
        _ ≤ leastBeyond 400 * d.numerator := Nat.mul_le_mul_right _ hrange
        _ < d.denominator := hlt
  next hsmall =>
  split
  · next hwhole =>
      have hone : (-d.exponent).toNat = 0 := by omega
      rw [ofRatio, numerator, denominator, hone]
  · next hpart =>
      have hone : d.exponent.toNat = 0 := by omega
      have hdigits : d.digits * Nat.pow 10 0 = d.digits := Nat.mul_one _
      rw [ofRatio, numerator, denominator, hone, hdigits]

/-- How a decimal number is written does not matter. -/
theorem ofDecimal_congr {d e : Decimal}
    (h : d.numerator * e.denominator = e.numerator * d.denominator) (negative : Bool) :
    ofDecimal negative d = ofDecimal negative e := by
  rw [ofDecimal_eq_ofUnits, ofDecimal_eq_ofUnits]
  refine ofUnits_congr d.denominator_pos e.denominator_pos ?_ negative
  rw [Nat.mul_right_comm, h, Nat.mul_right_comm]

theorem ofDecimal_of_le {d : Decimal} (h : overflow * d.denominator ≤ d.numerator)
    (negative : Bool) : ofDecimal negative d = .infinite negative := by
  rw [ofDecimal_eq_ofUnits]
  exact ofUnits_of_le d.denominator_pos ((overflow_le_iff _ _).mp h) negative

/-- A decimal number that is not too large is rounded to the nearest number. -/
theorem exists_ofDecimal_of_lt {d : Decimal} (h : d.numerator < overflow * d.denominator)
    (negative : Bool) : ∃ m q, ofDecimal negative d = .finite negative m q ∧ IsReduced m q
      ∧ IsNearest (d.numerator * Nat.pow 2 unitBits) d.denominator m q := by
  have hscale : ¬ maxScale < (rounded (d.numerator * Nat.pow 2 unitBits) d.denominator).2 := by
    rw [maxScale_lt_rounded_iff d.denominator_pos, ← overflow_le_iff]
    exact Nat.not_le.mpr h
  rw [ofDecimal_eq_ofUnits, ofUnits_eq, if_neg hscale]
  exact ⟨_, _, rfl, isReduced_rounded (Nat.not_lt.mp hscale),
    isNearest_rounded d.denominator_pos _⟩

/-- The nearest number of a whole number that is not too long is the whole number. -/
theorem IsNearest.eq_of_le {k : Nat} (h : IsNearest (k * den * Nat.pow 2 unitBits) den m q)
    (hden : 0 < den) (hk : k ≤ Nat.pow 2 precision) :
    m * Nat.pow 2 q = k * Nat.pow 2 unitBits := by
  -- The longest one has a shorter significand at the next scale.
  obtain ⟨n, r, hn, hnr⟩ : ∃ n r, n < Nat.pow 2 precision
      ∧ n * Nat.pow 2 r = k * Nat.pow 2 unitBits := by
    rcases Nat.lt_or_eq_of_le hk with hlt | rfl
    · exact ⟨k, unitBits, hlt, rfl⟩
    · refine ⟨Nat.pow 2 (precision - 1), unitBits + 1, by decide, ?_⟩
      rw [← two_pow_add, ← two_pow_add]
      exact congrArg (Nat.pow 2) (by decide)
  have hself : n * Nat.pow 2 r * den = k * den * Nat.pow 2 unitBits := by
    rw [hnr, Nat.mul_right_comm]
  have hle := h.le n r hn
  rw [hself, Nat.dist_self, Nat.le_zero] at hle
  have heq := Nat.eq_of_dist_eq_zero hle
  rw [← hself] at heq
  exact (Nat.eq_of_mul_eq_mul_right hden heq).trans hnr

end DocTags.Binary64
