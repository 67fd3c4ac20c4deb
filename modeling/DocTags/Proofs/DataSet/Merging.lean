import DocTags.Proofs.DataSet.Collecting
import DocTags.Proofs.Datum.Entries

/-!
# Merging the rows of providers

The providers of a symbol give rows one after the other, until one of them fails. Their rows become
the data sets in this order, and names are refused by the collection alone.
-/

namespace DocTags

namespace Failure

/-- The failure of a reference: a fault, or that it leads nowhere. -/
def OfReference : Failure → Prop
  | fault _ | problem (.unresolved ..) => True
  | problem _ => False

theorem ofReference_fault {α : Type} (x : Except Fault α) :
    FailsWithin OfReference (x.mapError fault) :=
  FailsWithin.of_mapError (fun _ => trivial) x

end Failure

namespace ProvidedData

/-- What the provider of a reference returns to a symbol. -/
def fetch (r : Resolver) (s : Symbol) (reference : List Char) : Except Failure Datum := do
  let (type, name) := splitReference reference s.declaringType
  let member ← referredBy (String.ofList reference) (resolve r (String.ofList reference) type name)
  let asking := if s.isTypeLevel then Datum.null else s.member
  (Resolver.invoke member (if member.parameterCount = 0 then [] else [asking])).result

/-- All that the providers of a symbol do, in the order of the references. -/
def steps (r : Resolver) (s : Symbol) (refs : List (List Char)) : List Step :=
  refs.flatMap fun reference => Step.ofProvider (String.ofList reference) (fetch r s reference)

theorem addProvider_result (r : Resolver) (s : Symbol) (c : Collection) (reference : List Char) :
    (addProvider r s c reference).result
      = (Step.ofProvider (String.ofList reference) (fetch r s reference)).foldlM Step.take c := by
  rw [← Collection.extend_eq_foldlM_take, addProvider, fetch]
  simp only [Run.bind_result, Run.ofExcept_result, Run.note_result, Run.pure_result]
  obtain ⟨type, name⟩ := splitReference reference s.declaringType
  cases referredBy (String.ofList reference) (resolve r (String.ofList reference) type name) with
  | error e => rfl
  | ok member =>
      simp only [bind, Except.bind]
      cases (Resolver.invoke member _).result with
      | error e => rfl
      | ok result => cases h : c.extend (String.ofList reference) result <;> simp only [h]

/-- Adding all providers goes over the references and ends where adding one of them fails. -/
theorem addProviders_result_eq_foldlM (r : Resolver) (s : Symbol) (c : Collection)
    (refs : List (List Char)) : (addProviders r s c refs).result
      = refs.foldlM (fun c reference => (addProvider r s c reference).result) c := by
  induction refs generalizing c with
  | nil => rfl
  | cons reference refs ih =>
      rw [addProviders, Run.bind_result, List.foldlM_cons]
      simp only [ih]
      rfl

/-- Adding all providers takes all their steps. -/
theorem addProviders_result (r : Resolver) (s : Symbol) (c : Collection)
    (refs : List (List Char)) :
    (addProviders r s c refs).result = (steps r s refs).foldlM Step.take c := by
  induction refs generalizing c with
  | nil => rfl
  | cons reference refs ih =>
      rw [addProviders, Run.bind_result, addProvider_result, steps, List.flatMap_cons,
        List.foldlM_append]
      simp only [ih]
      rfl

theorem ofReference_resolveType (r : Resolver) (name : String) :
    FailsWithin Failure.OfReference (r.resolveType name) := by
  rw [Resolver.resolveType]
  split
  · exact .error trivial
  · exact .ok _ _
  · exact .error trivial

theorem ofReference_resolveMember (owner : TypeHandle) (name : String) :
    FailsWithin Failure.OfReference (Resolver.resolveMember owner name) := by
  rw [Resolver.resolveMember]
  split
  · exact .ok _ _
  · exact .ok _ _
  · exact .error trivial

theorem ofReference_instantiate (r : Resolver) (owner : TypeHandle) :
    FailsWithin Failure.OfReference (r.instantiate owner) := by
  rw [Resolver.instantiate]
  split
  · exact .error trivial
  · split
    · exact .error trivial
    · exact .error trivial
    · split
      · exact .ok _ _
      · exact .error trivial
      · exact .error trivial

theorem ofReference_resolve (r : Resolver) (reference : String) (type : Datum) (name : String) :
    FailsWithin Failure.OfReference (resolve r reference type name) := by
  rw [resolve]
  split
  · exact .error trivial
  · refine (Failure.ofReference_fault _).bind fun _ _ =>
      (ofReference_resolveType r _).bind fun owner _ =>
        (ofReference_resolveMember owner name).bind fun member _ => ?_
    split
    · exact (ofReference_instantiate r owner).bind fun _ _ => .ok _ _
    · exact .ok _ _

theorem ofReference_referredBy {α : Type} {x : Except Failure α}
    (hx : FailsWithin Failure.OfReference x) (reference : String) :
    FailsWithin Failure.OfReference (referredBy reference x) := by
  refine hx.mapError fun failure hfailure => ?_
  split
  · trivial
  · exact hfailure

/-- What keeps a provider from being asked is a fault, or that its reference leads nowhere. -/
theorem ofReference_fetch (r : Resolver) (s : Symbol) (reference : List Char) :
    FailsWithin Failure.OfReference (fetch r s reference) := by
  rw [fetch]
  refine (ofReference_referredBy (ofReference_resolve r _ _ _) _).bind fun member _ => ?_
  simp only [Resolver.invoke, Run.bind_result, Run.note_result, Run.ofExcept_result]
  exact Failure.ofReference_fault _

/-- A provider that cannot be asked does not count as the refusal of a name. -/
theorem neverRefuses_fetch (r : Resolver) (s : Symbol) (reference : List Char) :
    NeverRefuses (fetch r s reference) :=
  fun _ _ h => ofReference_fetch r s reference _ h

theorem neverRefuses_of_mem_ofProvider {reference : String} {fetched : Except Failure Datum}
    (hf : NeverRefuses fetched) {step : Step} (h : step ∈ Step.ofProvider reference fetched) :
    NeverRefuses step := by
  cases fetched with
  | error e =>
      obtain rfl := List.mem_singleton.mp h
      intro d name he
      exact hf d name (congrArg Except.error (Except.error.inj he))
  | ok result =>
      rw [Step.ofProvider] at h
      split at h
      · obtain rfl := List.mem_singleton.mp h
        simp [NeverRefuses]
      · simp only [List.mem_append, List.mem_map] at h
        rcases h with ⟨g, -, rfl⟩ | ⟨t, -, rfl⟩
        · exact NeverRefuses.ok _
        · simp [NeverRefuses]

/-- Refusals come from collecting only, not from the providers. -/
theorem neverRefuses_of_mem_steps {r : Resolver} {s : Symbol} {refs : List (List Char)}
    {step : Step} (h : step ∈ steps r s refs) : NeverRefuses step := by
  obtain ⟨reference, -, h⟩ := List.mem_flatMap.mp h
  exact neverRefuses_of_mem_ofProvider (neverRefuses_fetch r s reference) h

end ProvidedData

namespace RowKey

variable {k k' : RowKey} {ks : List RowKey}

/-- Keys are different if the places among them and the texts among them are. -/
theorem nodup_of_filterMap (hplain : ∀ k ∈ ks, k.IsPlain) (hindex : (ks.filterMap index?).Nodup)
    (htext : (ks.filterMap text?).Nodup) : ks.Nodup := by
  induction ks with
  | nil => exact List.nodup_nil
  | cons k ks ih =>
      rw [List.forall_mem_cons] at hplain
      rw [List.nodup_cons]
      rcases hplain.1 with ⟨n, rfl⟩ | ⟨n, rfl⟩
      · rw [List.filterMap_cons_some (index?_index n), List.nodup_cons] at hindex
        rw [List.filterMap_cons_none (text?_index n)] at htext
        constructor
        · intro hmem
          exact hindex.1 (List.mem_filterMap.mpr ⟨_, hmem, index?_index n⟩)
        · exact ih hplain.2 hindex.2 htext
      · rw [List.filterMap_cons_none (index?_name _)] at hindex
        rw [List.filterMap_cons_some (text?_name n), List.nodup_cons] at htext
        constructor
        · intro hmem
          exact htext.1 (List.mem_filterMap.mpr ⟨_, hmem, text?_name n⟩)
        · exact ih hplain.2 hindex htext.2

theorem toString_nat_inj {m n : Nat} (h : toString m = toString n) : m = n := by
  have hdigits : Nat.toDigits 10 m = Nat.toDigits 10 n := by
    simpa using congrArg String.toList h
  rw [← Nat.ofDigitChars_ten_toDigits (n := m), hdigits, Nat.ofDigitChars_ten_toDigits]

/-- Plain keys with the same label are the same: a place starts with a number sign and a text with
a quotation mark. -/
theorem label_inj (hk : k.IsPlain) (hk' : k'.IsPlain) (h : k.label = k'.label) : k = k' := by
  have hlist := congrArg String.toList h
  rcases hk with ⟨m, rfl⟩ | ⟨m, rfl⟩ <;> rcases hk' with ⟨n, rfl⟩ | ⟨n, rfl⟩
  · simp only [label, String.toList_append, List.append_cancel_left_eq] at hlist
    exact congrArg index (toString_nat_inj (String.toList_inj.mp hlist))
  · simp [label] at hlist
  · simp [label] at hlist
  · simp only [label, String.toList_append, List.append_assoc, List.append_cancel_left_eq,
      List.append_cancel_right_eq] at hlist
    rw [String.toList_inj.mp hlist]

/-- Plain keys that are the same as keys of a mapping are the same. -/
theorem eq_of_sameKey (hk : k.IsPlain) (hk' : k'.IsPlain)
    (h : Datum.sameKey k.toDatum k'.toDatum = true) : k = k' := by
  rcases hk with ⟨m, rfl⟩ | ⟨m, rfl⟩ <;> rcases hk' with ⟨n, rfl⟩ | ⟨n, rfl⟩
  · have hmn : (m : Int) = n := by simpa [toDatum, Datum.ofNat, Datum.sameKey] using h
    rw [Int.ofNat.inj hmn]
  · have hne : Datum.sameKey (.int m) (.text n) = false := rfl
    exact absurd (h.symm.trans hne) (by decide)
  · have hne : Datum.sameKey (.text m) (.int n) = false := rfl
    exact absurd (h.symm.trans hne) (by decide)
  · have hmn : m = n := by simpa [toDatum, Datum.sameKey] using h
    rw [hmn]

end RowKey

/-- The data sets hold exactly the rows, in order: those without a name under the numbers from zero,
the others under names that differ. Labels differ too, and as a mapping no row is lost. -/
structure IsMerge (rows : List (String × GivenRow)) (sets : List DataSet) : Prop where
  arguments : sets.map (·.arguments) = rows.map (·.2.row)
  isPlain : ∀ d ∈ sets, d.key.IsPlain
  texts : sets.map (·.key.text?) = rows.map (·.2.text?)
  indices : sets.filterMap (·.key.index?) = List.range (rows.countP (·.2.name.isNone))
  names_nodup : (sets.filterMap (·.key.text?)).Nodup
  labels_nodup : (sets.map (·.key.label)).Nodup
  mapOf_eq : Datum.mapOf (sets.map fun d => (d.key.toDatum, d.arguments))
    = .map (sets.map fun d => (d.key.toDatum, d.arguments))

theorem Collection.Holds.isMerge {rows : List (String × GivenRow)} {c : Collection}
    (h : Holds rows c) : IsMerge rows c.dataSets := by
  have hnames : (c.dataSets.filterMap (·.key.text?)).Nodup := by
    have htexts := congrArg (List.filterMap id) h.texts
    simp only [List.filterMap_map, Function.id_comp] at htexts
    exact htexts ▸ h.distinct
  have hkeys : c.dataSets.Pairwise fun d e => d.key ≠ e.key := by
    rw [← List.pairwise_map]
    apply RowKey.nodup_of_filterMap
    · exact List.forall_mem_map.mpr h.isPlain
    · rw [List.filterMap_map]
      exact h.indices ▸ List.nodup_range
    · rwa [List.filterMap_map]
  constructor
  · exact h.arguments
  · exact h.isPlain
  · exact h.texts
  · rw [h.indices, h.nextIndex]
  · exact hnames
  · apply List.pairwise_map.mpr
    apply hkeys.imp_of_mem
    intro d e hd he hne heq
    exact hne (RowKey.label_inj (h.isPlain d hd) (h.isPlain e he) heq)
  · apply Datum.mapOf_eq_map
    apply List.pairwise_map.mpr
    apply hkeys.imp_of_mem
    intro d e hd he hne
    rw [Bool.eq_false_iff]
    intro heq
    exact hne (RowKey.eq_of_sameKey (h.isPlain d hd) (h.isPlain e he) heq)

namespace ProvidedData

variable {r : Resolver} {s : Symbol}

theorem eq_of_check {providers : List String} {sets sets' : List DataSet}
    (h : check providers sets = .ok sets') : sets' = sets := by
  rw [check] at h
  split at h
  · exact absurd h (by simp)
  · split at h
    · exact absurd h (by simp)
    · exact (Except.ok.inj h).symm

theorem neverRefuses_check (providers : List String) (sets : List DataSet) :
    NeverRefuses ((check providers sets).mapError .problem) := by
  rw [check]
  split
  · simp [NeverRefuses]
  · split <;> simp [NeverRefuses]

theorem ofProviders_result (h : references s.docComment.toList ≠ []) :
    (ofProviders r s).result
      = ((steps r s (references s.docComment.toList)).foldlM Step.take {}).map
        fun c => some c.dataSets := by
  rw [← addProviders_result, ofProviders]
  split
  · next hnil => exact absurd hnil h
  · rw [Run.bind_result]
    cases (addProviders r s {} (references s.docComment.toList)).result <;> rfl

/-- With references to providers the data sets are those that are collected, if they are fit. -/
theorem ofSymbol_result_of_references (h : references s.docComment.toList ≠ []) :
    (ofSymbol r s).result
      = ((steps r s (references s.docComment.toList)).foldlM Step.take {}).bind fun c =>
        ((check ((references s.docComment.toList).map String.ofList) c.dataSets).mapError
          .problem).map some := by
  rw [ofSymbol, Run.bind_result, ofProviders_result h]
  cases (steps r s (references s.docComment.toList)).foldlM Step.take {} with
  | error e => rfl
  | ok c =>
      simp only [Except.map, Except.bind, Run.pure_result, Run.bind_result, Run.ofExcept_result]

/-- Merging the rows of providers keeps every row in order under keys that differ, and it is refused
exactly where a name is used again. -/
theorem ofSymbol_merges (hrefs : references s.docComment.toList ≠ [])
    (hplain : ∀ step ∈ steps r s (references s.docComment.toList), step.IsPlain) :
    (∀ sets?, (ofSymbol r s).result = .ok sets? → ∃ sets rows, sets? = some sets
      ∧ steps r s (references s.docComment.toList) = rows.map .ok ∧ IsMerge rows sets)
    ∧ ∀ d reference, (ofSymbol r s).result = .error (.problem (.duplicateName d reference))
      ↔ ∃ before given after n,
        steps r s (references s.docComment.toList)
          = before.map .ok ++ .ok (reference, given) :: after
        ∧ d = .text n ∧ given.name = some (.text n) ∧ n ∈ textNames before
        ∧ (textNames before).Nodup := by
  rw [ofSymbol_result_of_references hrefs]
  constructor
  · intro sets? hrun
    cases hc : (steps r s (references s.docComment.toList)).foldlM Step.take {} with
    | error e => simp [hc, Except.bind] at hrun
    | ok c =>
        obtain ⟨rows, hrows, hholds⟩ := Collection.holds_empty.foldlM_take hplain hc
        simp only [hc, Except.bind] at hrun
        cases hcheck : check ((references s.docComment.toList).map String.ofList) c.dataSets with
        | error e => simp [hcheck, Except.map] at hrun
        | ok sets =>
            obtain rfl := eq_of_check hcheck
            simp only [hcheck, mapError_ok, Except.map, Except.ok.injEq] at hrun
            exact ⟨c.dataSets, rows, hrun.symm, hrows, hholds.isMerge⟩
  · intro d reference
    refine Iff.trans ?_ (Collection.holds_empty.foldlM_take_eq_refusal_iff hplain
      (fun _ => neverRefuses_of_mem_steps) d reference)
    cases hc : (steps r s (references s.docComment.toList)).foldlM Step.take {} with
    | error e => simp [Except.bind]
    | ok c =>
        have hcheck := (neverRefuses_check ((references s.docComment.toList).map String.ofList)
          c.dataSets).map some
        exact iff_of_false (hcheck d reference) (by simp)

/-- A module with a function that gives a row with a name and a row without one. -/
def pairWorld : World :=
  ⟨[("m", [("rows", .function
    ⟨.static, [], .list [.named (.text "a") (.list []), .list []], none⟩)])]⟩

/-- A function whose rows come from that module. -/
def pairSymbol : Symbol :=
  ⟨"@dataProvider m.rows", "", 1, 1, .null, .null, [], false, none⟩

/-- The two rows of the module make two data sets. -/
theorem ofSymbol_merges_pair :
    ∃ rows sets, (ofSymbol { world := pairWorld } pairSymbol).result = .ok (some sets)
      ∧ rows.length = 2 ∧ IsMerge rows sets := by
  have hrefs : references pairSymbol.docComment.toList = ["m.rows".toList] := by decide +kernel
  have hne : references pairSymbol.docComment.toList ≠ [] := by simp [hrefs]
  have hsteps : steps { world := pairWorld } pairSymbol (references pairSymbol.docComment.toList)
      = [("m.rows", ⟨some (.text "a"), .list []⟩), ("m.rows", ⟨none, .list []⟩)].map .ok := by
    rw [hrefs]
    rfl
  have hplain : ∀ step ∈ steps { world := pairWorld } pairSymbol
      (references pairSymbol.docComment.toList), step.IsPlain := by
    rw [hsteps]
    simp [Step.IsPlain, GivenRow.IsPlain]
  have hrun : (ofSymbol { world := pairWorld } pairSymbol).result
      = .ok (some [⟨.name (.text "a"), .list []⟩, ⟨.index 0, .list []⟩]) := by
    rw [ofSymbol_result_of_references hne, hsteps]
    rfl
  obtain ⟨sets, rows, hsets, hrows, hmerge⟩ := (ofSymbol_merges hne hplain).1 _ hrun
  refine ⟨rows, sets, hsets ▸ hrun, ?_, hmerge⟩
  simpa using (congrArg List.length (hrows.symm.trans hsteps))

end ProvidedData

end DocTags
