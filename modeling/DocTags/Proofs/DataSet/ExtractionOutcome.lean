import DocTags.Proofs.DataSet.Extraction

/-!
# The outcome of an extraction

If no reference stops the extraction, all rows decide together: without rows the test is skipped,
else the first row without structure is refused, else the rows are the data sets. A failure of
resolving keeps its code and tells the reference. Of the comment nothing counts but its references.
-/

namespace DocTags

namespace Report

@[simp] theorem lookup_withDetail (name : String) (value : Datum)
    (details : List (String × Datum)) :
    (withDetail name value details).lookup name = some value := by
  induction details with
  | nil => simp [withDetail]
  | cons d details ih =>
      obtain ⟨other, old⟩ := d
      rw [withDetail]
      by_cases h : other = name
      · simp [h]
      · have hne : (name == other) = false := by simpa using Ne.symm h
        rw [if_neg h, List.lookup_cons, hne]
        exact ih

end Report

namespace ProvidedData

open Dialogue (ofExcept)

/-- The data set is the first one whose row has no structure. -/
def IsFirstUnfit (sets : List DataSet) (d : DataSet) : Prop :=
  ∃ before after, sets = before ++ d :: after ∧ d.arguments.isStructured = false
    ∧ ∀ b ∈ before, b.arguments.isStructured = true

theorem find?_eq_some_iff_isFirstUnfit {sets : List DataSet} {d : DataSet} :
    (sets.find? fun d => !d.arguments.isStructured) = some d ↔ IsFirstUnfit sets d := by
  rw [List.find?_eq_some_iff_append]
  constructor
  · rintro ⟨hunfit, before, after, hsets, hbefore⟩
    exact ⟨before, after, hsets, by simpa using hunfit, fun b hb => by simpa using hbefore b hb⟩
  · rintro ⟨before, after, hsets, hunfit, hbefore⟩
    exact ⟨by simpa using hunfit, before, after, hsets, fun b hb => by simpa using hbefore b hb⟩

/-- The first data set without structure is only one. -/
theorem IsFirstUnfit.unique {sets : List DataSet} {d d' : DataSet} (h : IsFirstUnfit sets d)
    (h' : IsFirstUnfit sets d') : d = d' := by
  rw [← find?_eq_some_iff_isFirstUnfit] at h h'
  exact Option.some.inj (h.symm.trans h')

theorem IsFirstUnfit.not_forall {sets : List DataSet} {d : DataSet} (h : IsFirstUnfit sets d) :
    ¬ ∀ e ∈ sets, e.arguments.isStructured = true := by
  obtain ⟨before, after, rfl, hunfit, -⟩ := h
  intro hall
  have hd := hall d (by simp)
  rw [hunfit] at hd
  exact Bool.false_ne_true hd

variable {T M I : Type}

instance decidableExistsEqProblem {α : Type} {P : Problem → Prop} [DecidablePred P]
    (x : Except Failure α) : Decidable (∃ p, x = .error (.problem p) ∧ P p) :=
  match x with
  | .error (.problem p) =>
    decidable_of_iff (P p)
      ⟨fun h => ⟨p, rfl, h⟩, fun ⟨_, hp, h⟩ => Failure.problem.inj (Except.error.inj hp) ▸ h⟩
  | .error (.fault _) => .isFalse nofun
  | .ok _ => .isFalse nofun

end ProvidedData

end DocTags
