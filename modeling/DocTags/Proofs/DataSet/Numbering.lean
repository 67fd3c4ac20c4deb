import DocTags.DataSet.Basic
import DocTags.Proofs.Fallible

/-!
# Collections by their rows

A collection is determined by the rows that have been added: those without a name are numbered and
the others keep their names. The rows of a result are added up to the first one whose name is in use
or is of no use as a name, and up to the fault that ends the result.
-/

namespace DocTags

variable {rows more before after : List GivenRow} {g : GivenRow} {d : Datum} {reference : String}

/-- The data sets of rows, those without a name numbered from `n` on. -/
def numbered (n : Nat) : List GivenRow → List DataSet
  | [] => []
  | g :: rows =>
    match g.name with
    | none => ⟨.index n, g.row⟩ :: numbered (n + 1) rows
    | some d => ⟨.name d, g.row⟩ :: numbered n rows

/-- The name is that of one of the rows. -/
def IsUsed (rows : List GivenRow) (d : Datum) : Prop :=
  ∃ g ∈ rows, ∃ d', g.name = some d' ∧ Datum.sameKey d' d = true

/-- The names of the rows can be names, and no row has a name that is used before it. -/
def NamesFit (rows : List GivenRow) : Prop :=
  ∀ before g after d, rows = before ++ g :: after → g.name = some d →
    d.isFixed = true ∧ ¬ IsUsed before d

theorem NamesFit.concat (h : NamesFit rows)
    (hg : ∀ d, g.name = some d → d.isFixed = true ∧ ¬ IsUsed rows d) : NamesFit (rows ++ [g]) := by
  intro before g' after d hrows hname
  rcases List.eq_nil_or_concat after with rfl | ⟨after, x, rfl⟩
  · obtain ⟨rfl, hsame⟩ := List.append_inj' hrows rfl
    obtain rfl := List.singleton_inj.mp hsame
    exact hg d hname
  · have hfront : rows = before ++ g' :: after := by
      have hcut : rows ++ [g] = (before ++ g' :: after) ++ [x] := by
        rw [hrows]
        simp
      exact (List.append_inj' hcut rfl).1
    exact h before g' after d hfront hname

namespace Collection

/-- The collection of the rows. -/
def ofRows (rows : List GivenRow) : Collection :=
  ⟨numbered 0 rows, rows.countP (·.name.isNone)⟩

/-- A row of those that are added cannot be: its name is in use, or it is of no use as a name. -/
inductive Refuses (rows more : List GivenRow) (reference : String) : Failure → Prop
  | duplicate (before : List GivenRow) (g : GivenRow) (after : List GivenRow) (d : Datum)
      (hmore : more = before ++ g :: after) (hfit : NamesFit (rows ++ before))
      (hname : g.name = some d) (hused : IsUsed (rows ++ before) d) :
      Refuses rows more reference (.problem (.duplicateName d reference))
  | unfit (before : List GivenRow) (g : GivenRow) (after : List GivenRow) (d : Datum)
      (hmore : more = before ++ g :: after) (hfit : NamesFit (rows ++ before))
      (hname : g.name = some d) (hfixed : d.isFixed = false) :
      Refuses rows more reference (.fault .wrongType)

theorem Refuses.cons {e : Failure} (h : Refuses (rows ++ [g]) more reference e) :
    Refuses rows (g :: more) reference e := by
  cases h with
  | duplicate before g' after d hmore hfit hname hused =>
      rw [List.append_assoc] at hfit hused
      exact .duplicate (g :: before) g' after d (by rw [hmore]; rfl) hfit hname hused
  | unfit before g' after d hmore hfit hname hfixed =>
      rw [List.append_assoc] at hfit
      exact .unfit (g :: before) g' after d (by rw [hmore]; rfl) hfit hname hfixed

/-- The result of a provider cannot be added: it holds no rows, one of its rows is refused, or a
fault ends it. -/
inductive Rejects (rows : List GivenRow) (reference : String) (result : Datum) : Failure → Prop
  | unusable (hnone : GivenRow.ofResult? result = none) :
      Rejects rows reference result (.problem (.invalidResult reference result.typeName))
  | row {more : List GivenRow} {fault : Option Thrown} {e : Failure}
      (hsome : GivenRow.ofResult? result = some (more, fault))
      (hrefuses : Refuses rows more reference e) : Rejects rows reference result e
  | fault {more : List GivenRow} {t : Thrown}
      (hsome : GivenRow.ofResult? result = some (more, some t)) (hfit : NamesFit (rows ++ more)) :
      Rejects rows reference result (.fault (.thrown t))

end Collection

end DocTags
