import DocTags.Version.Constraint

/-!
# The order of release numbers

Rows of release numbers are compared place by place, and a place that a row does not have counts as
zero. Raising the last of the first `n` numbers of a row gives the least row above all rows with the
same first `n` numbers, so a range from a row up to the raised one holds exactly the rows that
agree with it on `n` places and do not precede it.
-/

namespace DocTags

namespace Version

open Constraint (raised)

/-- The number at a place of a row, zero where the row has none. -/
def place (r : List Nat) (i : Nat) : Nat :=
  r.getD i 0

/-- The rows have the same numbers at the first `n` places. -/
def Agree (n : Nat) (v w : List Nat) : Prop :=
  ∀ i < n, place v i = place w i

/-- The rows have the same number at every place. -/
def Same (v w : List Nat) : Prop :=
  ∀ i, place v i = place w i

/-- The first row has the smaller number at the first place where the rows differ. -/
def Precedes (v w : List Nat) : Prop :=
  ∃ i, Agree i v w ∧ place v i < place w i

section Places

variable {v w r : List Nat} {n : Nat}

theorem place_tail (v : List Nat) (i : Nat) : place v.tail i = place v (i + 1) := by
  cases v <;> simp [place]

@[simp] theorem place_nil (i : Nat) : place [] i = 0 := rfl

@[simp] theorem place_cons_zero (a : Nat) (v : List Nat) : place (a :: v) 0 = a := rfl

theorem headD_eq_place (v : List Nat) : v.headD 0 = place v 0 := by
  cases v <;> rfl

/-- Agreement on one more place is agreement on the first place and on those behind it. -/
theorem agree_succ : Agree (n + 1) v w ↔ place v 0 = place w 0 ∧ Agree n v.tail w.tail := by
  constructor
  · intro h
    refine ⟨h 0 (Nat.succ_pos n), fun i hi => ?_⟩
    rw [place_tail, place_tail]
    exact h (i + 1) (Nat.succ_lt_succ hi)
  · rintro ⟨h0, h⟩ i hi
    cases i with
    | zero => exact h0
    | succ i =>
        rw [← place_tail, ← place_tail]
        exact h i (Nat.lt_of_succ_lt_succ hi)

theorem agree_zero : Agree 0 v w := by
  intro i hi
  exact absurd hi (Nat.not_lt_zero i)

theorem same_iff : Same v w ↔ place v 0 = place w 0 ∧ Same v.tail w.tail := by
  constructor
  · intro h
    refine ⟨h 0, ?_⟩
    intro i
    rw [place_tail, place_tail, h (i + 1)]
  · rintro ⟨h0, h⟩ i
    cases i with
    | zero => exact h0
    | succ i => rw [← place_tail, ← place_tail, h i]

/-- A row precedes another at the first place or behind it. -/
theorem precedes_iff :
    Precedes v w ↔ place v 0 < place w 0 ∨ place v 0 = place w 0 ∧ Precedes v.tail w.tail := by
  constructor
  · rintro ⟨i, ha, hi⟩
    cases i with
    | zero => exact Or.inl hi
    | succ i =>
        obtain ⟨h0, ht⟩ := agree_succ.mp ha
        exact Or.inr ⟨h0, i, ht, by rwa [place_tail, place_tail]⟩
  · rintro (h | ⟨h0, i, ha, hi⟩)
    · exact ⟨0, agree_zero, h⟩
    · rw [place_tail, place_tail] at hi
      exact ⟨i + 1, agree_succ.mpr ⟨h0, ha⟩, hi⟩

theorem not_precedes_nil : ¬ Precedes v [] := by
  rintro ⟨i, -, hi⟩
  exact Nat.not_lt_zero _ hi

/-- A row that agrees with another on all its numbers does not precede it. -/
theorem not_precedes_of_agree_length (h : Agree r.length w r) : ¬ Precedes w r := by
  rintro ⟨i, -, hi⟩
  by_cases hlt : i < r.length
  · exact Nat.ne_of_lt hi (h i hlt)
  · have hzero : place r i = 0 := by
      rw [place, List.getD_eq_getElem?_getD, List.getElem?_eq_none (Nat.le_of_not_lt hlt)]
      rfl
    omega

end Places

theorem comparePadded_eq_lt_iff (v w : List Nat) : comparePadded v w = .lt ↔ Precedes v w := by
  fun_induction comparePadded v w with
  | case1 => simp [not_precedes_nil]
  | case2 a as ih =>
      simp [precedes_iff (v := a :: as), Ordering.then_eq_lt, Nat.compare_eq_lt, ih]
  | case3 b bs ih =>
      simp [precedes_iff (w := b :: bs), Ordering.then_eq_lt, Nat.compare_eq_lt, ih]
  | case4 a as b bs ih =>
      simp [precedes_iff (v := a :: as), Ordering.then_eq_lt, Nat.compare_eq_lt, ih]

theorem comparePadded_eq_eq_iff (v w : List Nat) : comparePadded v w = .eq ↔ Same v w := by
  fun_induction comparePadded v w with
  | case1 => simp [Same]
  | case2 a as ih => simp [same_iff (v := a :: as), ih]
  | case3 b bs ih => simp [same_iff (w := b :: bs), ih]
  | case4 a as b bs ih => simp [same_iff (v := a :: as), ih]

theorem comparePadded_swap (v w : List Nat) : (comparePadded v w).swap = comparePadded w v := by
  fun_induction comparePadded v w with
  | case1 => simp [comparePadded]
  | case2 a as ih => simp [comparePadded, Ordering.swap_then, Nat.compare_swap, ih]
  | case3 b bs ih => simp [comparePadded, Ordering.swap_then, Nat.compare_swap, ih]
  | case4 a as b bs ih => simp [comparePadded, Ordering.swap_then, Nat.compare_swap, ih]

theorem comparePadded_eq_gt_iff (v w : List Nat) : comparePadded v w = .gt ↔ Precedes w v := by
  rw [← comparePadded_eq_lt_iff, ← comparePadded_swap v w]
  cases comparePadded v w <;> simp

/-- Of two rows one precedes the other or they are the same. -/
theorem not_precedes_iff (v w : List Nat) : ¬ Precedes w v ↔ Precedes v w ∨ Same v w := by
  rw [← comparePadded_eq_gt_iff, ← comparePadded_eq_lt_iff, ← comparePadded_eq_eq_iff]
  cases comparePadded v w <;> decide

theorem precedes_or_agree_iff (v w : List Nat) (n : Nat) :
    Precedes v w ∨ Agree n v w ↔ ¬ Precedes w v ∨ Agree n v w := by
  rw [not_precedes_iff]
  constructor
  · rintro (h | h)
    · exact Or.inl (Or.inl h)
    · exact Or.inr h
  · rintro ((h | h) | h)
    · exact Or.inl h
    · exact Or.inr fun i _ => h i
    · exact Or.inr h

theorem place_raised_zero {n : Nat} (r : List Nat) :
    place (raised r (n + 1)) 0 = if n = 0 then place r 0 + 1 else place r 0 := by
  cases n with
  | zero => exact congrArg (· + 1) (headD_eq_place r)
  | succ n => exact headD_eq_place r

theorem tail_raised (r : List Nat) (n : Nat) : (raised r (n + 1)).tail = raised r.tail n := by
  cases n <;> simp [raised]

/-- The rows before a raised row are those before the row itself and those that agree with it. -/
theorem precedes_raised_iff (w r : List Nat) (n : Nat) :
    Precedes w (raised r (n + 1)) ↔ Precedes w r ∨ Agree (n + 1) w r := by
  induction n generalizing w r with
  | zero =>
      rw [precedes_iff, tail_raised, place_raised_zero, if_pos rfl, precedes_iff (w := r),
        agree_succ]
      simp only [raised, not_precedes_nil, and_false, or_false, agree_zero, and_true]
      omega
  | succ n ih =>
      rw [precedes_iff, tail_raised, place_raised_zero, if_neg (Nat.succ_ne_zero n), ih,
        precedes_iff (w := r), agree_succ (n := n + 1), and_or_left, or_assoc]

theorem precedes_raised_iff_of_pos (w r : List Nat) {n : Nat} (hn : 0 < n) :
    Precedes w (raised r n) ↔ Precedes w r ∨ Agree n w r := by
  obtain ⟨k, rfl⟩ := Nat.exists_eq_succ_of_ne_zero (Nat.ne_of_gt hn)
  exact precedes_raised_iff w r k

/-- Not before a row and before the row raised at a place: agreement on all places up to it. -/
theorem not_precedes_and_precedes_raised (w r : List Nat) {n : Nat} (hn : 0 < n) :
    ¬ Precedes w r ∧ Precedes w (raised r n) ↔ ¬ Precedes w r ∧ Agree n w r := by
  rw [precedes_raised_iff_of_pos w r hn]
  constructor
  · rintro ⟨h, h' | h'⟩
    · exact absurd h' h
    · exact ⟨h, h'⟩
  · rintro ⟨h, h'⟩
    exact ⟨h, Or.inr h'⟩

/-- The version is a final release: it has release numbers and nothing else. -/
def IsFinal (v : Version) : Prop :=
  v = ofRelease v.release

/-- Final releases are compared by their release numbers. -/
theorem IsFinal.order_eq {v : Version} (h : v.IsFinal) (r : List Nat) :
    v.order (ofRelease r) = comparePadded v.release r := by
  rw [h]
  simp [order, ofRelease, preRank, postRank, devRank, comparePairs, compareLocal]

end Version

/-- What a comparison says of two rows of release numbers. -/
def Comparison.Relates : Comparison → List Nat → List Nat → Prop
  | ge, v, w => ¬ Version.Precedes v w
  | gt, v, w => Version.Precedes w v
  | le, v, w => ¬ Version.Precedes w v
  | lt, v, w => Version.Precedes v w
  | eq, v, w => Version.Same v w
  | ne, v, w => ¬ Version.Same v w

namespace Bound

open Version

theorem allows_iff (c : Comparison) (r : List Nat) {v : Version} (h : v.IsFinal) :
    (Bound.mk c (ofRelease r)).allows v = true ↔ c.Relates v.release r := by
  rw [allows, h.order_eq]
  have hlt := comparePadded_eq_lt_iff v.release r
  have heq := comparePadded_eq_eq_iff v.release r
  have hgt := comparePadded_eq_gt_iff v.release r
  cases c <;> simp only [Comparison.Relates, Comparison.holds, ← hlt, ← heq, ← hgt] <;>
    cases comparePadded v.release r <;> decide

end Bound

end DocTags
