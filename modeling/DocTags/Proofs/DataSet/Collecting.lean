import DocTags.DataSet.Provided
import DocTags.Proofs.Fallible

/-!
# Collecting rows

Rows are collected one step at a time. A collection keeps every row in its place, counts the rows
without a name and refuses a name that is used again.
-/

namespace DocTags

namespace RowKey

/-- The place that the key is, if it is one. -/
def index? : RowKey → Option Nat
  | index n => some n
  | name _ => none

/-- The text that the key is, if it is one. -/
def text? : RowKey → Option String
  | name (.text n) => some n
  | _ => none

@[simp] theorem index?_index (n : Nat) : (index n).index? = some n := rfl

@[simp] theorem index?_name (d : Datum) : (name d).index? = none := rfl

@[simp] theorem text?_index (n : Nat) : (index n).text? = none := rfl

@[simp] theorem text?_name (n : String) : (name (.text n)).text? = some n := rfl

/-- The key is a place or a text. -/
def IsPlain (k : RowKey) : Prop :=
  (∃ n, k = index n) ∨ ∃ n, k = name (.text n)

end RowKey

namespace GivenRow

/-- The text that the row is named by, if it is named by one. -/
def text? (g : GivenRow) : Option String :=
  match g.name with
  | some (.text n) => some n
  | _ => none

/-- The row has no name or one that is a text. -/
def IsPlain (g : GivenRow) : Prop :=
  ∀ d, g.name = some d → ∃ n, d = .text n

end GivenRow

/-- The texts that rows are named by, in order. -/
def textNames (rows : List (String × GivenRow)) : List String :=
  rows.filterMap (·.2.text?)

namespace Collection

variable {rows : List (String × GivenRow)} {c c' : Collection} {reference : String}
  {given : GivenRow}

/-- The collection holds exactly the rows, in order, under keys that count those without a name and
are the names of the others. -/
structure Holds (rows : List (String × GivenRow)) (c : Collection) : Prop where
  arguments : c.dataSets.map (·.arguments) = rows.map (·.2.row)
  texts : c.dataSets.map (·.key.text?) = rows.map (·.2.text?)
  indices : c.dataSets.filterMap (·.key.index?) = List.range c.nextIndex
  nextIndex : c.nextIndex = rows.countP (·.2.name.isNone)
  isPlain : ∀ d ∈ c.dataSets, d.key.IsPlain
  distinct : (textNames rows).Nodup

theorem holds_empty : Holds [] {} :=
  ⟨rfl, rfl, rfl, rfl, by simp, List.nodup_nil⟩

/-- A text is found among the names exactly if a row is named by it. -/
theorem Holds.hasName_iff (h : Holds rows c) (n : String) :
    c.hasName (.text n) = true ↔ n ∈ textNames rows := by
  have hkey : ∀ d ∈ c.dataSets, (match d.key with
      | .index _ => false
      | .name other => Datum.sameKey other (.text n)) = true ↔ d.key.text? = some n := by
    intro d hd
    rcases h.isPlain d hd with ⟨i, hi⟩ | ⟨m, hm⟩
    · simp [hi]
    · simp [hm, Datum.sameKey]
  have htexts : some n ∈ c.dataSets.map (·.key.text?) ↔ some n ∈ rows.map (·.2.text?) := by
    rw [h.texts]
  rw [List.mem_map, List.mem_map] at htexts
  rw [hasName, List.any_eq_true, textNames, List.mem_filterMap, ← htexts]
  exact exists_congr fun d => and_congr_right fun hd => hkey d hd

/-- A row without a name is added under the next place. -/
theorem Holds.add_of_none (h : Holds rows c) (hname : given.name = none) :
    ∃ c', add reference c given = .ok c' ∧ Holds (rows ++ [(reference, given)]) c' := by
  have htext : given.text? = none := by simp [GivenRow.text?, hname]
  refine ⟨_, by rw [add, hname], ?_⟩
  constructor
  · simp [h.arguments]
  · simp [h.texts, htext]
  · simp [h.indices, List.range_succ]
  · simp [h.nextIndex, List.countP_append, hname]
  · intro d hd
    rcases List.mem_append.mp hd with hd | hd
    · exact h.isPlain d hd
    · exact .inl ⟨c.nextIndex, by rw [List.mem_singleton.mp hd]⟩
  · simpa [textNames, htext] using h.distinct

/-- A row with a new name is added under it. -/
theorem Holds.add_of_not_mem (h : Holds rows c) {n : String} (hname : given.name = some (.text n))
    (hn : n ∉ textNames rows) :
    ∃ c', add reference c given = .ok c' ∧ Holds (rows ++ [(reference, given)]) c' := by
  have htext : given.text? = some n := by simp [GivenRow.text?, hname]
  have hhas : c.hasName (.text n) = false := by
    rw [Bool.eq_false_iff]
    intro hc
    exact hn ((h.hasName_iff n).mp hc)
  refine ⟨⟨c.dataSets ++ [⟨.name (.text n), given.row⟩], c.nextIndex⟩,
    by rw [add, hname]; simp [Datum.isFixed, hhas], ?_⟩
  constructor
  · simp [h.arguments]
  · simp [h.texts, htext]
  · simp [h.indices]
  · simp [h.nextIndex, List.countP_append, hname]
  · intro d hd
    rcases List.mem_append.mp hd with hd | hd
    · exact h.isPlain d hd
    · exact .inr ⟨n, by rw [List.mem_singleton.mp hd]⟩
  · have hdistinct : (textNames rows ++ [n]).Nodup := by
      rw [List.nodup_append]
      refine ⟨h.distinct, by simp, ?_⟩
      rintro a ha b hb rfl
      exact hn (List.mem_singleton.mp hb ▸ ha)
    simpa [textNames, htext] using hdistinct

/-- A row with a name that is in use is refused. -/
theorem Holds.add_of_mem (h : Holds rows c) {n : String} (hname : given.name = some (.text n))
    (hn : n ∈ textNames rows) :
    add reference c given = .error (.problem (.duplicateName (.text n) reference)) := by
  rw [add, hname]
  simp [Datum.isFixed, (h.hasName_iff n).mpr hn]

end Collection

namespace Collection

variable {result : Datum}

/-- What adding a result can end in, whatever has been collected before: a name that is of no use or
in use, no rows in the result, or the fault that ends it. -/
inductive Stops (result : Datum) : Failure → Prop where
  | unfit : Stops result (.fault .wrongType)
  | duplicate (name : Datum) (reference : String) :
      Stops result (.problem (.duplicateName name reference))
  | unusable (reference : String) (hnone : GivenRow.ofResult? result = none) :
      Stops result (.problem (.invalidResult reference result.typeName))
  | fault (items : List Datum) (t : Thrown) (hstream : result = .stream items (some t)) :
      Stops result (.fault (.thrown t))

theorem add_stops (reference : String) (c : Collection) (given : GivenRow) :
    FailsWithin (Stops result) (c.add reference given) := by
  rw [add]
  split
  · exact .ok _ _
  · split
    · exact .error .unfit
    · split
      · exact .error (.duplicate _ _)
      · exact .ok _ _

theorem extend_stops (c : Collection) (reference : String) (result : Datum) :
    FailsWithin (Stops result) (c.extend reference result) := by
  rw [extend]
  split
  · next hnone => exact .error (.unusable reference hnone)
  · next rows fault hrows =>
      refine (FailsWithin.foldlM (add_stops reference) rows c).bind fun c _ => ?_
      cases fault with
      | none => exact .ok _ _
      | some t =>
          cases result with
          | stream items fault =>
              obtain ⟨-, rfl⟩ := Prod.mk.inj (Option.some.inj hrows)
              exact .error (.fault items t rfl)
          | _ => cases hrows

end Collection

/-- The computation does not end with the refusal of a name. -/
def NeverRefuses {α : Type} (x : Except Failure α) : Prop :=
  ∀ name reference, x ≠ .error (.problem (.duplicateName name reference))

namespace NeverRefuses

variable {α β : Type} {x : Except Failure α}

theorem ok (a : α) : NeverRefuses (.ok a) := by
  simp [NeverRefuses]

theorem map (hx : NeverRefuses x) (f : α → β) : NeverRefuses (x.map f) := by
  intro name reference h
  cases x with
  | error e => exact hx name reference (congrArg Except.error (Except.error.inj h))
  | ok a => exact absurd h (by simp [Except.map])

end NeverRefuses

/-- One step of collecting: a row with the reference to its provider, or a failure. -/
abbrev Step := Except Failure (String × GivenRow)

namespace Step

/-- The step gives no row, or a row without a name or with one that is a text. -/
def IsPlain : Step → Prop
  | .ok g => g.2.IsPlain
  | .error _ => True

/-- The steps that a provider takes: its rows in order, and the failure that ends them if there is
one. -/
def ofProvider (reference : String) : Except Failure Datum → List Step
  | .error e => [.error e]
  | .ok result =>
    match GivenRow.ofResult? result with
    | none => [.error (.problem (.invalidResult reference result.typeName))]
    | some (rows, fault) =>
      rows.map (fun g => .ok (reference, g))
        ++ fault.toList.map fun t => .error (.fault (.thrown t))

/-- Takes a step. -/
def take (c : Collection) (step : Step) : Except Failure Collection :=
  step.bind fun g => c.add g.1 g.2

end Step

namespace Collection

open Step (take)

variable {rows : List (String × GivenRow)} {c c' : Collection} {reference : String}

/-- A step fails with its own failure, takes its row, or refuses a name that is in use. -/
theorem Holds.take_cases (h : Holds rows c) {step : Step} (hplain : step.IsPlain) :
    (∃ e, step = .error e ∧ take c step = .error e)
      ∨ (∃ g c', step = .ok g ∧ take c step = .ok c' ∧ Holds (rows ++ [g]) c')
      ∨ ∃ g n, step = .ok g ∧ g.2.name = some (.text n) ∧ n ∈ textNames rows
        ∧ take c step = .error (.problem (.duplicateName (.text n) g.1)) := by
  cases step with
  | error e => exact .inl ⟨e, rfl, rfl⟩
  | ok g =>
      refine .inr ?_
      cases hname : g.2.name with
      | none =>
          obtain ⟨c', hadd, hc'⟩ : ∃ c', c.add g.1 g.2 = .ok c' ∧ Holds (rows ++ [g]) c' :=
            h.add_of_none hname
          exact .inl ⟨g, c', rfl, hadd, hc'⟩
      | some d =>
          obtain ⟨n, rfl⟩ := hplain d hname
          by_cases hn : n ∈ textNames rows
          · exact .inr ⟨g, n, rfl, hname, hn, h.add_of_mem hname hn⟩
          · obtain ⟨c', hadd, hc'⟩ : ∃ c', c.add g.1 g.2 = .ok c' ∧ Holds (rows ++ [g]) c' :=
              h.add_of_not_mem hname hn
            exact .inl ⟨g, c', rfl, hadd, hc'⟩

/-- If all steps can be taken, each of them gives a row, and the collection holds these rows. -/
theorem Holds.foldlM_take (h : Holds rows c) {steps : List Step} (hplain : ∀ s ∈ steps, s.IsPlain)
    (hrun : steps.foldlM take c = .ok c') :
    ∃ more, steps = more.map .ok ∧ Holds (rows ++ more) c' := by
  induction steps generalizing rows c with
  | nil =>
      obtain rfl := Except.ok.inj hrun
      exact ⟨[], rfl, by simpa using h⟩
  | cons step steps ih =>
      rw [List.forall_mem_cons] at hplain
      rw [List.foldlM_cons] at hrun
      rcases h.take_cases hplain.1 with ⟨e, -, ht⟩ | ⟨g, d, rfl, ht, hd⟩ | ⟨g, n, -, -, -, ht⟩
      · rw [ht] at hrun
        exact absurd hrun (by simp [bind, Except.bind])
      · rw [ht] at hrun
        obtain ⟨more, rfl, hmore⟩ := ih hd hplain.2 hrun
        exact ⟨g :: more, rfl, by simpa using hmore⟩
      · rw [ht] at hrun
        exact absurd hrun (by simp [bind, Except.bind])

theorem textNames_append (rows more : List (String × GivenRow)) :
    textNames (rows ++ more) = textNames rows ++ textNames more :=
  List.filterMap_append

/-- A row that repeats a name does not fit behind the rows. -/
theorem not_nodup_textNames {n : String} (hn : n ∈ textNames rows) {g : String × GivenRow}
    (hname : g.2.name = some (.text n)) (more : List (String × GivenRow)) :
    ¬ (textNames (rows ++ g :: more)).Nodup := by
  have hg : textNames (g :: more) = n :: textNames more := by
    simp [textNames, GivenRow.text?, hname]
  rw [textNames_append, hg]
  intro hnodup
  exact (List.nodup_append.mp hnodup).2.2 n hn n List.mem_cons_self rfl

/-- Behind the rows the steps give rows whose names differ, up to one of the reference that repeats
the name. -/
def RepeatsName (rows : List (String × GivenRow)) (steps : List Step) (d : Datum)
    (reference : String) : Prop :=
  ∃ before given after n, steps = before.map .ok ++ .ok (reference, given) :: after
    ∧ d = .text n ∧ given.name = some (.text n) ∧ n ∈ textNames (rows ++ before)
    ∧ (textNames (rows ++ before)).Nodup

section RepeatsName

variable {steps : List Step} {d : Datum} {g : String × GivenRow}

theorem not_repeatsName_nil : ¬ RepeatsName rows [] d reference := by
  rintro ⟨before, given, after, n, hsteps, -⟩
  simp at hsteps

theorem not_repeatsName_error (e : Failure) :
    ¬ RepeatsName rows (.error e :: steps) d reference := by
  rintro ⟨before, given, after, n, hsteps, -⟩
  cases before <;> simp at hsteps

/-- A row that fits behind the rows can be counted to them. -/
theorem repeatsName_cons_of_nodup (h : (textNames (rows ++ [g])).Nodup) :
    RepeatsName rows (.ok g :: steps) d reference
      ↔ RepeatsName (rows ++ [g]) steps d reference := by
  constructor
  · rintro ⟨before, given, after, n, hsteps, rfl, hname, hn, hnodup⟩
    cases before with
    | nil =>
        obtain ⟨hg, rfl⟩ := List.cons.inj hsteps
        obtain rfl := Except.ok.inj hg
        rw [List.append_nil] at hn
        exact absurd h (not_nodup_textNames hn hname [])
    | cons g' before =>
        obtain ⟨hg, rfl⟩ := List.cons.inj hsteps
        obtain rfl := Except.ok.inj hg
        exact ⟨before, given, after, n, rfl, rfl, hname, by simpa using hn, by simpa using hnodup⟩
  · rintro ⟨before, given, after, n, rfl, rfl, hname, hn, hnodup⟩
    exact ⟨g :: before, given, after, n, rfl, rfl, hname, by simpa using hn,
      by simpa using hnodup⟩

/-- A row that repeats a name of the rows is the first to do so. -/
theorem repeatsName_cons_of_mem {n : String} (hname : g.2.name = some (.text n))
    (hn : n ∈ textNames rows) (hnodup : (textNames rows).Nodup) :
    RepeatsName rows (.ok g :: steps) d reference ↔ .text n = d ∧ g.1 = reference := by
  constructor
  · rintro ⟨before, given, after, m, hsteps, rfl, hm, -, hnodup⟩
    cases before with
    | nil =>
        obtain ⟨hg, -⟩ := List.cons.inj hsteps
        obtain rfl := Except.ok.inj hg
        exact ⟨Option.some.inj (hname.symm.trans hm), rfl⟩
    | cons g' before =>
        obtain ⟨hg, -⟩ := List.cons.inj hsteps
        obtain rfl := Except.ok.inj hg
        exact absurd hnodup (not_nodup_textNames hn hname before)
  · rintro ⟨rfl, rfl⟩
    exact ⟨[], g.2, steps, n, rfl, rfl, hname, by simpa using hn, by simpa using hnodup⟩

end RepeatsName

/-- A name is refused exactly if rows with different names come before a row that repeats one of
them. -/
theorem Holds.foldlM_take_eq_refusal_iff (h : Holds rows c) {steps : List Step}
    (hplain : ∀ s ∈ steps, s.IsPlain) (hrefusal : ∀ s ∈ steps, NeverRefuses s) (d : Datum)
    (reference : String) :
    steps.foldlM take c = .error (.problem (.duplicateName d reference))
      ↔ RepeatsName rows steps d reference := by
  induction steps generalizing rows c with
  | nil => exact iff_of_false (by simp [pure, Except.pure]) not_repeatsName_nil
  | cons step steps ih =>
      rw [List.forall_mem_cons] at hplain hrefusal
      rw [List.foldlM_cons]
      rcases h.take_cases hplain.1 with
        ⟨e, rfl, ht⟩ | ⟨g, c', rfl, ht, hc'⟩ | ⟨g, n, rfl, hname, hn, ht⟩
      · rw [ht]
        apply iff_of_false
        · intro he
          exact hrefusal.1 d reference (congrArg Except.error (Except.error.inj he))
        · exact not_repeatsName_error e
      · rw [ht, repeatsName_cons_of_nodup hc'.distinct]
        exact ih hc' hplain.2 hrefusal.2
      · rw [ht, repeatsName_cons_of_mem hname hn h.distinct]
        simp [bind, Except.bind]

/-- Adding the result of a provider takes its steps. -/
theorem extend_eq_foldlM_take (c : Collection) (reference : String)
    (fetched : Except Failure Datum) :
    fetched.bind (c.extend reference) = (Step.ofProvider reference fetched).foldlM take c := by
  cases fetched with
  | error e => rfl
  | ok result =>
      rw [Except.bind, extend, Step.ofProvider]
      rcases GivenRow.ofResult? result with _ | ⟨rows, fault⟩
      · rfl
      · rw [List.foldlM_append, List.foldlM_map]
        cases fault with
        | none => simp [take, Except.bind]
        | some t =>
            simp only [take, Except.bind, Option.toList_some, List.map_cons, List.map_nil,
              List.foldlM_cons, List.foldlM_nil]
            rfl

end Collection

end DocTags
