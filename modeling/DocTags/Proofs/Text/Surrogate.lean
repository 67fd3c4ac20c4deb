import DocTags.Text.Surrogate

/-!
# Pairs of surrogates

Where a first half stands in front of a second half the pair can be joined to the code point that it
stands for. A text is settled if it holds no such pair, and every code point in the one way that
there is for it.
-/

namespace DocTags.Text

variable {a b n : Nat} {ps : List Nat} {s : List Char}

theorem isHalf_toNat (c : Char) : isHalf c.toNat = false := by
  have hvalid : c.toNat < 0xD800 ∨ 0xDFFF < c.toNat ∧ c.toNat < 0x110000 := c.valid
  rw [Bool.eq_false_iff, ne_eq, isHalf_iff]
  omega

theorem toNat_lt (c : Char) : c.toNat < 0x110000 := by
  have hvalid : c.toNat < 0xD800 ∨ 0xDFFF < c.toNat ∧ c.toNat < 0x110000 := c.valid
  omega

theorem isHigh_eq_false (h : isHalf n = false) : isHigh n = false := by
  simp only [isHalf, isHigh, Bool.and_eq_false_iff, decide_eq_false_iff_not] at h ⊢
  omega

theorem isLow_eq_false (h : isHalf n = false) : isLow n = false := by
  simp only [isHalf, isLow, Bool.and_eq_false_iff, decide_eq_false_iff_not] at h ⊢
  omega

theorem isHigh_iff : isHigh n = true ↔ 0xD800 ≤ n ∧ n < 0xDC00 := by
  simp [isHigh]

theorem isLow_iff : isLow n = true ↔ 0xDC00 ≤ n ∧ n < 0xE000 := by
  simp [isLow]

/-- A character is held by itself, perhaps behind a guard. -/
theorem charsOf_toNat (c : Char) :
    charsOf c.toNat = if isReserved c.toNat then [Char.ofNat guardPoint, c] else [c] := by
  have hself : charOf c.toNat = c := by
    rw [charOf, isHalf_toNat, if_neg Bool.false_ne_true, Char.ofNat_toNat]
  rw [charsOf, hself]

theorem pointOf_lt (c : Char) : pointOf c < 0x110000 := by
  have hlt := toNat_lt c
  rw [pointOf]
  split <;> omega

/-- What characters hold are code points. -/
theorem lt_of_mem_points (h : n ∈ points s) : n < 0x110000 := by
  fun_induction points s with
  | case1 c d r _ ih =>
      rcases List.mem_cons.mp h with rfl | hmem
      · exact toNat_lt d
      · exact ih hmem
  | case2 c d r _ ih =>
      rcases List.mem_cons.mp h with heq | hmem
      · rw [heq]
        exact pointOf_lt c
      · exact ih hmem
  | case3 c =>
      rw [List.mem_singleton.mp h]
      exact pointOf_lt c
  | case4 => exact absurd h List.not_mem_nil

/-- The code points go on with the second half of a pair. -/
def goesOnLow (ps : List Nat) : Bool :=
  ps.head?.any isLow

/-- What is no first half in front of a second half stays. -/
theorem joinPairs_cons (h : ¬ (isHigh a = true ∧ goesOnLow ps = true)) :
    joinPairs (a :: ps) = a :: joinPairs ps := by
  cases ps with
  | nil => rfl
  | cons b r =>
      rw [joinPairs, if_neg]
      rwa [Bool.and_eq_true]

theorem le_joinPair (a b : Nat) : 0x10000 ≤ joinPair a b :=
  Nat.le_trans (Nat.le_add_right _ _) (Nat.le_add_right _ _)

theorem joinPair_lt (ha : isHigh a = true) (hb : isLow b = true) : joinPair a b < 0x110000 := by
  have hhigh := isHigh_iff.mp ha
  have hlow := isLow_iff.mp hb
  unfold joinPair
  omega

/-- The text with every pair joined and every code point as it is held. -/
def settled (s : List Char) : List Char :=
  (joinPairs (points s)).flatMap charsOf

/-- The text holds no pair that could be joined, and every code point as it is held. -/
def IsSettled (s : List Char) : Prop :=
  settled s = s

/-- Code points among which there is no pair are settled as they are held. -/
theorem isSettled_flatMap (hps : ∀ n ∈ ps, n < 0x110000) (hjoin : joinPairs ps = ps) :
    IsSettled (ps.flatMap charsOf) := by
  rw [IsSettled, settled, points_flatMap_charsOf hps, hjoin]

end DocTags.Text
