import DocTags.Proofs.Version.ConstraintReading

/-!
# Release lines

A caret, a tilde, a wildcard and a release of one or two numbers fix the first numbers of a release.
Their bounds end before the next release that differs there, and the versions before that release
include its own previews. So what complies is a version of the fixed line or such a preview.
-/

namespace DocTags

namespace Version

open Constraint (raised)

variable {v : Version} {r : List Nat} {n : Nat}

/-- The version comes before the release that it has the numbers of: it is a pre-release, or a
development release without a post-release. -/
def IsPreview (v : Version) : Prop :=
  v.pre.isSome ∨ v.post = none ∧ v.dev.isSome

/-- The order of what stands behind the release numbers, against a final release. -/
def orderBehind (v : Version) : Ordering :=
  (comparePairs v.preRank (4, 0)).then <|
  (compare v.postRank 0).then <|
  (comparePairs v.devRank (1, 0)).then <|
  compareLocal v.localPart []

theorem order_ofRelease (v : Version) (r : List Nat) :
    v.order (ofRelease r)
      = (compare v.epoch 0).then ((comparePadded v.release r).then v.orderBehind) := rfl

/-- Exactly the previews come before the final release with their numbers. -/
theorem orderBehind_eq_lt_iff (v : Version) : v.orderBehind = .lt ↔ v.IsPreview := by
  obtain ⟨epoch, release, pre, post, dev, localPart⟩ := v
  cases pre with
  | some p =>
      obtain ⟨stage, k⟩ := p
      have hstage : orderBehind ⟨epoch, release, some (stage, k), post, dev, localPart⟩ = .lt := by
        cases stage <;> rfl
      simp [hstage, IsPreview]
  | none =>
      cases post with
      | some k =>
          have hpost : compare (k + 1) 0 = .gt := Nat.compare_eq_gt.mpr (Nat.succ_pos k)
          simp [orderBehind, IsPreview, comparePairs, preRank, postRank, hpost]
      | none =>
          cases dev with
          | some k =>
              have hdev : orderBehind ⟨epoch, release, none, none, some k, localPart⟩ = .lt := rfl
              simp [hdev, IsPreview]
          | none =>
              -- Only a local part is left, and with one a version comes after its release.
              have hlocal : compareLocal localPart [] ≠ .lt := by
                cases localPart <;> simp [compareLocal]
              simpa [orderBehind, IsPreview, comparePairs, preRank, postRank, devRank] using hlocal

/-- The version comes before the final release: it has no epoch, and its numbers precede those of
the release or it is a preview with the same numbers. -/
theorem order_ofRelease_eq_lt_iff (v : Version) (r : List Nat) :
    v.order (ofRelease r) = .lt
      ↔ v.epoch = 0 ∧ (Precedes v.release r ∨ Same v.release r ∧ v.IsPreview) := by
  have hepoch : compare v.epoch 0 ≠ .lt := by simp [Nat.compare_eq_lt]
  rw [order_ofRelease, Ordering.then_eq_lt, Ordering.then_eq_lt, Nat.compare_eq_eq,
    comparePadded_eq_lt_iff, comparePadded_eq_eq_iff, orderBehind_eq_lt_iff]
  simp only [hepoch, false_or]

theorem Precedes.not_precedes {v w : List Nat} (h : Precedes v w) : ¬ Precedes w v := by
  rw [← comparePadded_eq_lt_iff] at h
  rw [← comparePadded_eq_gt_iff, h]
  decide

theorem Precedes.not_same {v w : List Nat} (h : Precedes v w) : ¬ Same w v := by
  rintro hsame
  obtain ⟨i, -, hi⟩ := h
  exact Nat.ne_of_gt hi (hsame i)

theorem Precedes.trans_same {u v w : List Nat} (h : Precedes u w) (hsame : Same v w) :
    Precedes u v := by
  obtain ⟨i, hagree, hi⟩ := h
  exact ⟨i, fun j hj => (hagree j hj).trans (hsame j).symm, (hsame i).symm ▸ hi⟩

/-- A row with the numbers of a raised row comes after the row that was raised. -/
theorem precedes_of_same_raised {w : List Nat} (hn : 0 < n) (h : Same w (raised r n)) :
    Precedes r w :=
  ((precedes_raised_iff_of_pos r r hn).mpr (.inr fun _ _ => rfl)).trans_same h

end Version

namespace Constraint

open Version (Agree Same Precedes)

variable {v : Version} {n : Nat}

/-- The bounds within `n` places hold the versions that agree with the release there and do not come
before it, and besides them the previews of the release raised at the last of these places. -/
theorem contains_boundsWithin_iff (v : Version) (r : Release) (hn : 0 < n) :
    (boundsWithin r n).contains v = true
      ↔ v.epoch = 0
        ∧ (Agree n v.release r.numbers ∧ v.order (.ofRelease r.numbers) ≠ .lt
          ∨ Same v.release (raised r.numbers n) ∧ v.IsPreview) := by
  have hcontains : (boundsWithin r n).contains v = true
      ↔ v.order (.ofRelease r.numbers) ≠ .lt
        ∧ v.order (.ofRelease (raised r.numbers n)) = .lt := by
    simp [boundsWithin, VersionRange.contains, Bound.allows, Comparison.holds]
  rw [hcontains, Version.order_ofRelease_eq_lt_iff v (raised r.numbers n),
    Version.precedes_raised_iff_of_pos v.release r.numbers hn]
  constructor
  · rintro ⟨hlower, hepoch, (hprecedes | hagree) | hpreview⟩
    · exact absurd ((v.order_ofRelease_eq_lt_iff _).mpr ⟨hepoch, .inl hprecedes⟩) hlower
    · exact ⟨hepoch, .inl ⟨hagree, hlower⟩⟩
    · exact ⟨hepoch, .inr hpreview⟩
  · rintro ⟨hepoch, ⟨hagree, hlower⟩ | hpreview⟩
    · exact ⟨hlower, hepoch, .inl (.inr hagree)⟩
    · refine ⟨fun hlt => ?_, hepoch, .inr hpreview⟩
      have habove := Version.precedes_of_same_raised hn hpreview.1
      rcases ((v.order_ofRelease_eq_lt_iff _).mp hlt).2 with hprecedes | ⟨hsame, -⟩
      · exact habove.not_precedes hprecedes
      · exact habove.not_same hsame

/-- A term that fixes the first numbers of a release: a release behind a caret or a tilde, with a
wildcard behind it, or on its own if it has fewer than three numbers. -/
inductive LineTerm where
  | caret (blanks : Blanks) (version : Release)
  | tilde (blanks : Blanks) (version : Release)
  | wildcard (start : Release)
  | bare (version : Release) (length_lt : version.numbers.length < 3)

namespace LineTerm

/-- The release of the term. -/
def release : LineTerm → Release
  | caret _ r | tilde _ r | wildcard r | bare r _ => r

/-- How many numbers of its release the term fixes. -/
def places : LineTerm → Nat
  | caret _ r => caretPlaces r.numbers
  | tilde _ r => tildePlaces r.numbers
  | wildcard r | bare r _ => r.numbers.length

/-- The term among all terms. -/
def toTerm : LineTerm → Term
  | caret blanks r => .operated .caret blanks r
  | tilde blanks r => .operated .tilde blanks r
  | wildcard r => .wildcard r
  | bare r _ => .bare r

/-- The term as an expression of its own. -/
def toExpression (t : LineTerm) : Expression :=
  ⟨.terms t.toTerm [], []⟩

theorem places_pos (t : LineTerm) : 0 < t.places := by
  cases t with
  | caret blanks r => exact caretPlaces_pos _
  | tilde blanks r => exact tildePlaces_pos _
  | wildcard r => exact length_numbers_pos r
  | bare r hlt => exact length_numbers_pos r

theorem isLegible_toExpression (t : LineTerm) :
    t.toExpression.IsLegible ↔ CanRaise t.release t.places := by
  have hterm : t.toTerm.IsLegible ↔ CanRaise t.release t.places := by
    cases t with
    | caret | tilde | wildcard => exact Iff.rfl
    | bare r hlt => simp [toTerm, Term.IsLegible, release, places, hlt]
  simp [toExpression, Expression.IsLegible, Expression.alternatives, Alternative.IsLegible, hterm]

theorem bounds_toTerm (t : LineTerm) : t.toTerm.bounds = boundsWithin t.release t.places := by
  cases t with
  | caret | tilde | wildcard => rfl
  | bare r hlt => simp [toTerm, Term.bounds, release, places, hlt]

/-- The constraint that the term stands for. -/
def constraint (t : LineTerm) : Constraint :=
  ⟨String.ofList t.toTerm.text, [boundsWithin t.release t.places]⟩

theorem read_text (t : LineTerm) :
    GivesIff Fault.IsTooLong (read (String.ofList t.toTerm.text)) (CanRaise t.release t.places)
      t.constraint := by
  have htext : t.toExpression.text = t.toTerm.text := by
    simp [toExpression, Expression.text, Alternative.text, termsText, alternativesText]
  have hbounds : t.toExpression.alternatives.map Alternative.bounds
      = [boundsWithin t.release t.places] := by
    simp [toExpression, Expression.alternatives, Alternative.bounds, t.bounds_toTerm]
  have hread := (Constraint.read_text t.toExpression).congr t.isLegible_toExpression
  rwa [htext, hbounds] at hread

/-- A text complies with the term if it is a version that the term's bounds hold. -/
theorem complies_constraint_iff (t : LineTerm) (w : String) :
    t.constraint.complies w = .ok true
      ↔ ∃ v, Version.read w.toList = .ok v
        ∧ (boundsWithin t.release t.places).contains v = true := by
  rw [complies]
  cases Version.read w.toList with
  | ok v => simp [admits, constraint]
  | error e => cases e <;> simp

end LineTerm

/-- A term that fixes a line reads as a constraint, unless a number has too many digits. A text
complies with it exactly if it is a version of the line that does not come before the release, or a
preview of the next line's first release. -/
theorem complies_line_iff (t : LineTerm) :
    (CanRaise t.release t.places →
      ∃ c, read (String.ofList t.toTerm.text) = .ok c ∧ ∀ w : String, c.complies w = .ok true ↔
        ∃ v, Version.read w.toList = .ok v ∧ v.epoch = 0
          ∧ (Agree t.places v.release t.release.numbers
              ∧ v.order (.ofRelease t.release.numbers) ≠ .lt
            ∨ Same v.release (raised t.release.numbers t.places) ∧ v.IsPreview))
    ∧ (¬ CanRaise t.release t.places →
      ∃ k, read (String.ofList t.toTerm.text) = .error (.tooManyDigits k)) := by
  constructor
  · intro hraise
    refine ⟨t.constraint, t.read_text.1 hraise, fun w => ?_⟩
    rw [t.complies_constraint_iff]
    simp only [contains_boundsWithin_iff _ t.release t.places_pos]
  · intro hraise
    obtain ⟨_, ⟨k, rfl⟩, hk⟩ := t.read_text.2 hraise
    exact ⟨k, hk⟩

theorem length_nil_le_three : ([] : List Numeral).length ≤ 3 :=
  Nat.zero_le 3

/-- The term `^1`. -/
def caretOne : LineTerm :=
  .caret ⟨[], isBlank_of_mem_nil⟩
    ⟨⟨['1'], List.cons_ne_nil _ _, List.forall_mem_singleton.mpr rfl⟩, [], length_nil_le_three⟩

theorem canRaise_caretOne : CanRaise caretOne.release caretOne.places := by
  constructor
  · simp [caretOne, LineTerm.release, Release.IsShort, Release.numerals, Numeral.IsShort,
      Decimal.maxDigits]
  · exact Nat.lt_of_lt_of_le (by decide : 2 < Decimal.leastBeyond 1)
      (Decimal.leastBeyond_le (by decide))

/-- The alpha release of the line after that of `^1`. -/
def nextAlpha : Version :=
  ⟨0, [2, 0], some (.alpha, 1), none, none, []⟩

theorem same_nextAlpha :
    Same nextAlpha.release (raised caretOne.release.numbers caretOne.places) := by
  intro i
  match i with
  | 0 | 1 | i + 2 => rfl

/-- Of two alpha releases `1.5a1` complies with `^1` as a version of its line and `2.0a1` as a
preview of the next line. -/
theorem complies_caret_one_previews :
    CanRaise caretOne.release caretOne.places ∧ ∃ c, read "^1" = .ok c
      ∧ c.complies "1.5a1" = .ok true ∧ c.complies "2.0a1" = .ok true := by
  obtain ⟨c, hread, hcomplies⟩ := (complies_line_iff caretOne).1 canRaise_caretOne
  have hagree : Agree 1 [1, 5] [1] :=
    (by decide : ∀ i < 1, Version.place [1, 5] i = Version.place [1] i)
  have hlower : Version.order ⟨0, [1, 5], some (.alpha, 1), none, none, []⟩ (.ofRelease [1])
      ≠ .lt := by
    intro hlt
    rcases ((Version.order_ofRelease_eq_lt_iff _ _).mp hlt).2 with hprecedes | ⟨hsame, -⟩
    · exact Version.not_precedes_of_agree_length (r := [1]) hagree hprecedes
    · exact absurd (hsame 1) (by decide)
  refine ⟨canRaise_caretOne, c, hread, (hcomplies _).mpr ?_, (hcomplies _).mpr ?_⟩
  · exact ⟨_, rfl, rfl, .inl ⟨hagree, hlower⟩⟩
  · exact ⟨nextAlpha, rfl, rfl, .inr ⟨same_nextAlpha, .inl rfl⟩⟩

/-- A version that complies with a caret need not agree with the release behind it. -/
theorem not_forall_agree_of_complies : ¬ ∀ (t : LineTerm) (c : Constraint) (w : String)
    (v : Version), read (String.ofList t.toTerm.text) = .ok c → Version.read w.toList = .ok v →
      c.complies w = .ok true → Agree t.places v.release t.release.numbers := by
  intro h
  have hcontains : (boundsWithin caretOne.release caretOne.places).contains nextAlpha = true :=
    (contains_boundsWithin_iff _ _ caretOne.places_pos).mpr
      ⟨rfl, .inr ⟨same_nextAlpha, .inl rfl⟩⟩
  have hread : Version.read "2.0a1".toList = .ok nextAlpha := rfl
  have hagree := h caretOne _ "2.0a1" nextAlpha (caretOne.read_text.1 canRaise_caretOne) hread
    ((caretOne.complies_constraint_iff _).mpr ⟨nextAlpha, hread, hcontains⟩)
  exact absurd (hagree 0 Nat.one_pos) (by decide)

end Constraint

end DocTags
