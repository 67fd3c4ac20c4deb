import DocTags.Proofs.Version.ReleaseLine
import Mathlib.Order.Compare

/-!
# Versions are totally ordered

Versions are compared part by part: the epochs, the release numbers, what stands in front of the
release and behind it, and the local parts segment by segment. Each of these comparisons is a total
order, and so is one comparison after the other.
-/

namespace DocTags.Version

open Std
open Ordering (byKey)

/-- Between two rows in order every row comes after the first or before the second. -/
theorem Precedes.cotrans {u w : List Nat} (h : Precedes u w) (v : List Nat) :
    Precedes u v ∨ Precedes v w := by
  obtain ⟨i, hagree, hi⟩ := h
  induction i generalizing u w v with
  | zero =>
      by_cases hlt : place u 0 < place v 0
      · exact .inl ⟨0, agree_zero, hlt⟩
      · exact .inr ⟨0, agree_zero, by omega⟩
  | succ i ih =>
      obtain ⟨h0, htail⟩ := agree_succ.mp hagree
      rcases Nat.lt_trichotomy (place u 0) (place v 0) with hlt | heq | hgt
      · exact .inl ⟨0, agree_zero, hlt⟩
      · rw [← place_tail, ← place_tail] at hi
        rcases ih v.tail htail hi with hv | hv
        · exact .inl (precedes_iff.mpr (.inr ⟨heq, hv⟩))
        · exact .inr (precedes_iff.mpr (.inr ⟨heq ▸ h0, hv⟩))
      · exact .inr ⟨0, agree_zero, by omega⟩

theorem isLE_comparePadded_iff (v w : List Nat) :
    (comparePadded v w).isLE ↔ ¬ Precedes w v := by
  rw [← comparePadded_eq_gt_iff]
  cases comparePadded v w <;> decide

instance : TransCmp comparePadded where
  eq_swap := (comparePadded_swap _ _).symm
  isLE_trans := by
    intro u v w huv hvw
    rw [isLE_comparePadded_iff] at huv hvw ⊢
    intro h
    exact (h.cotrans v).elim hvw huv

theorem compareWords_eq_compareLex (s t : List Char) :
    compareWords s t = List.compareLex (compareOn Char.toNat) s t := by
  fun_induction compareWords s t with
  | case1 => rfl
  | case2 => rfl
  | case3 => rfl
  | case4 a as b bs ih => rw [List.compareLex_cons_cons, ih, compareOn]

theorem compareLocal_eq_compareLex (s t : List LocalSegment) :
    compareLocal s t = List.compareLex compareSegments s t := by
  fun_induction compareLocal s t with
  | case1 => rfl
  | case2 => rfl
  | case3 => rfl
  | case4 a as b bs ih => rw [List.compareLex_cons_cons, ih]

instance : TransCmp compareWords :=
  (funext₂ compareWords_eq_compareLex : compareWords = _) ▸ inferInstance

instance : OrientedCmp compareSegments where
  eq_swap := by
    intro a b
    cases a with
    | word s =>
        cases b with
        | word t => exact (inferInstance : OrientedCmp compareWords).eq_swap
        | number n => rfl
    | number m =>
        cases b with
        | word t => rfl
        | number n => exact (Nat.compare_swap n m).symm

instance : TransCmp compareSegments where
  isLE_trans := by
    intro a b c hab hbc
    cases a <;> cases b <;> cases c
    case word.word.word => exact (inferInstance : TransCmp compareWords).isLE_trans hab hbc
    case number.number.number =>
      exact (inferInstance : TransCmp (compare : Nat → Nat → Ordering)).isLE_trans hab hbc
    -- Any other three segments in order start with a word and end with a number.
    all_goals
      first
      | rfl
      | exact absurd hab Bool.false_ne_true
      | exact absurd hbc Bool.false_ne_true

instance : TransCmp compareLocal :=
  (funext₂ compareLocal_eq_compareLex : compareLocal = _) ▸ inferInstance

instance : TransCmp comparePairs :=
  inferInstanceAs (TransCmp (compareLex (compareOn Prod.fst) (compareOn Prod.snd)))

instance : TransCmp order :=
  inferInstanceAs (TransCmp
    (compareLex (byKey epoch compare) <|
    compareLex (byKey release comparePadded) <|
    compareLex (byKey preRank comparePairs) <|
    compareLex (byKey postRank compare) <|
    compareLex (byKey devRank comparePairs) (byKey localPart compareLocal)))

end DocTags.Version
