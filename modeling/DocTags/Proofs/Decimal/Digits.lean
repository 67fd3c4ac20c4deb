import DocTags.Proofs.Text.Lines
import DocTags.Proofs.Text.Numeral

/-!
# The digits of a natural number

A natural number is written with the fewest digits: reading them gives the number back, a zero in
front is the only digit, and their count bounds the number. A whole number is read back from its
digits and its sign as long as the digits are not too many.
-/

namespace DocTags

namespace Decimal

/-- The least number that has more than `n` digits. -/
def leastBeyond (n : Nat) : Nat :=
  Nat.pow 10 n

theorem leastBeyond_le {m n : Nat} (h : m ≤ n) : leastBeyond m ≤ leastBeyond n :=
  Nat.pow_le_pow_right (by decide) h

theorem leastBeyond_lt {m n : Nat} (h : m < n) : leastBeyond m < leastBeyond n :=
  Nat.pow_lt_pow_right (by decide) h

theorem one_le_leastBeyond (n : Nat) : 1 ≤ leastBeyond n :=
  leastBeyond_le (Nat.zero_le _)

theorem length_natText_le_iff (n : Nat) {k : Nat} (hk : 0 < k) :
    (natText n).length ≤ k ↔ n < leastBeyond k :=
  Nat.length_toDigits_le_iff (by decide) hk

theorem lt_length_natText_iff (n : Nat) {k : Nat} (hk : 0 < k) :
    k < (natText n).length ↔ leastBeyond k ≤ n := by
  rw [← Nat.not_le, length_natText_le_iff n hk, Nat.not_lt]

theorem head?_natText_ne {n : Nat} (hn : n ≠ 0) : (natText n).head? ≠ some '0' := by
  induction n using Nat.strongRecOn with
  | ind n ih =>
      rw [natText, Nat.toDigits_eq_if (by decide)]
      split
      · next hlt =>
          have hdigit : ∀ d < 10, d ≠ 0 → d.digitChar ≠ '0' := by decide
          simpa using hdigit n hlt hn
      · next hle =>
          have hhead := ih (n / 10) (by omega) (by omega)
          cases hcs : Nat.toDigits 10 (n / 10) with
          | nil => exact absurd hcs Nat.toDigits_ne_nil
          | cons c cs =>
              rw [natText, hcs] at hhead
              exact hhead

theorem ofDigits_lt {ds : List Nat} (h : ∀ d ∈ ds, d < 10) :
    ofDigits ds < leastBeyond ds.length := by
  have hfold : ∀ (ds : List Nat), (∀ d ∈ ds, d < 10) → ∀ n,
      ds.foldl (fun n d => 10 * n + d) n < (n + 1) * leastBeyond ds.length := by
    intro ds
    induction ds with
    | nil => exact fun _ n => Nat.le_of_eq (Nat.mul_one _).symm
    | cons d ds ih =>
        intro hd n
        rw [List.forall_mem_cons] at hd
        calc ds.foldl (fun n d => 10 * n + d) (10 * n + d)
            < (10 * n + d + 1) * leastBeyond ds.length := ih hd.2 _
          _ ≤ ((n + 1) * 10) * leastBeyond ds.length := Nat.mul_le_mul_right _ (by omega)
          _ = (n + 1) * leastBeyond (d :: ds).length := by
              rw [Nat.mul_assoc, Nat.mul_comm 10]
              rfl
  have h0 := hfold ds h 0
  rwa [Nat.zero_add, Nat.one_mul] at h0

end Decimal

namespace Numeral

/-- The count of the digits bounds the number. -/
theorem value_lt {n : Numeral} {k : Nat} (h : n.digits.length ≤ k) :
    n.value < Decimal.leastBeyond k := by
  have hdigit : ∀ d ∈ n.digits.map (fun c => c.toNat - 48), d < 10 := by
    intro d hd
    obtain ⟨c, hc, rfl⟩ := List.mem_map.mp hd
    exact n.forall_mem (P := fun c => c.toNat - 48 < 10) (by decide) c hc
  have hlt := Decimal.ofDigits_lt hdigit
  rw [List.length_map] at hlt
  exact Nat.lt_of_lt_of_le hlt (Decimal.leastBeyond_le h)

/-- A natural number as it is written. -/
def ofNat (n : Nat) : Numeral :=
  ⟨Decimal.natText n, Nat.toDigits_ne_nil,
    fun _ hc => Nat.isDigit_of_mem_toDigits (by decide) (by decide) hc⟩

/-- Only zero is written with a zero in front. -/
theorem digits_ofNat_of_head? {n : Nat} (h : (ofNat n).digits.head? = some '0') :
    (ofNat n).digits = ['0'] := by
  by_cases hn : n = 0
  · rw [hn]
    rfl
  · exact absurd h (Decimal.head?_natText_ne hn)

theorem value_ofNat (n : Nat) : (ofNat n).value = n := by
  rw [value, Decimal.ofDigits, List.foldl_map]
  exact Nat.ofDigitChars_ten_toDigits

end Numeral

namespace Decimal

open Text

theorem groupedDigits?_of_isDigit {s : List Char} (hne : s ≠ [])
    (h : ∀ c ∈ s, c.isDigit = true) :
    groupedDigits? s = some (s.map fun c => c.toNat - 48) := by
  induction s with
  | nil => exact absurd rfl hne
  | cons c s ih =>
      rw [List.forall_mem_cons] at h
      have hc := digitValue?_of_isDigit h.1
      cases s with
      | nil => simp [groupedDigits?, hc]
      | cons d s =>
          have hd : d ≠ '_' := by
            rintro rfl
            exact absurd (h.2 _ List.mem_cons_self) (by decide)
          have hrest := ih (List.cons_ne_nil d s) h.2
          rw [groupedDigits?, hc, hrest]
          · rfl
          · simp
          · intro t ht
            exact hd (List.cons.inj ht).1

/-- What holds of the ten digits and of the minus sign holds of all characters of a number. -/
theorem forall_mem_intText {P : Char → Prop} (h : ∀ c ∈ "-0123456789".toList, P c) (n : Int) :
    ∀ c ∈ intText n, P c := by
  have hdigits : ∀ c ∈ natText n.natAbs, P c :=
    (Numeral.ofNat n.natAbs).forall_mem fun c hc => h c (List.mem_cons_of_mem '-' hc)
  rw [intText]
  split
  · exact List.forall_mem_cons.mpr ⟨h '-' List.mem_cons_self, hdigits⟩
  · exact hdigits

theorem intText_ne_nil (n : Int) : intText n ≠ [] := by
  rw [intText]
  split
  · exact List.cons_ne_nil _ _
  · exact Nat.toDigits_ne_nil

theorem splitSign_intText (n : Int) :
    splitSign (intText n) = (decide (n < 0), natText n.natAbs) := by
  by_cases hn : n < 0
  · rw [intText, if_pos hn, splitSign, decide_eq_true hn]
  · rw [intText, if_neg hn, decide_eq_false hn]
    obtain ⟨c, s, hs⟩ := List.exists_cons_of_ne_nil (Numeral.ofNat n.natAbs).ne_nil
    have hplain : ∀ x ∈ natText n.natAbs, x ≠ '-' ∧ x ≠ '+' :=
      (Numeral.ofNat n.natAbs).forall_mem (by decide)
    have htext : natText n.natAbs = c :: s := hs
    rw [htext, List.forall_mem_cons] at hplain
    rw [htext, splitSign]
    · exact fun t ht => hplain.1.1 (List.cons.inj ht).1
    · exact fun t ht => hplain.1.2 (List.cons.inj ht).1

theorem signed_natAbs (n : Int) : signed (decide (n < 0)) n.natAbs = n := by
  rw [signed]
  by_cases hn : n < 0
  · rw [decide_eq_true hn, if_pos rfl]
    omega
  · rw [decide_eq_false hn, if_neg Bool.false_ne_true]
    omega

/-- A whole number is read back from its digits if they are not too many. -/
theorem readInt_intText (n : Int) : readInt (intText n)
    = if (natText n.natAbs).length ≤ maxDigits then .ok n
      else .error (.tooLong (natText n.natAbs).length) := by
  have hdigits : groupedDigits? (natText n.natAbs)
      = some ((natText n.natAbs).map fun c => c.toNat - 48) :=
    groupedDigits?_of_isDigit (Numeral.ofNat n.natAbs).ne_nil (Numeral.ofNat n.natAbs).isDigit
  have hvalue : ofDigits ((natText n.natAbs).map fun c => c.toNat - 48) = n.natAbs :=
    Numeral.value_ofNat n.natAbs
  rw [readInt, trimWhere_of_forall (forall_mem_intText (by decide) n), splitSign_intText]
  simp only [hdigits, readDigits, List.length_map, hvalue]
  split
  · simp only [Except.map, signed_natAbs]
  · rfl

end Decimal

end DocTags
