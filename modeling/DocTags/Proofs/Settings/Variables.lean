import DocTags.Proofs.Fallible
import DocTags.Proofs.Settings.Layers
import DocTags.Proofs.Text.Table
import DocTags.Settings.Environment
import Mathlib.Data.List.Basic
import Mathlib.Data.List.Induction

/-!
# Settings of variables

Variables that are each named after one setting make a layer. The layer holds a setting exactly if
its variable is set, with the value that the last such variable gives.
-/

namespace DocTags

open Datum Settings

namespace Environment

/-- What the names of the variables for a section's settings start with. -/
def settingStart (sectionName : String) : List Char :=
  variableStart ++ sectionName.toList ++ ['_', '_']

end Environment

/-- The name of the setting's variable, in lower case. -/
def Setting.variableName (x : Setting) : List Char :=
  Environment.settingStart x.sectionName ++ x.name.toList

namespace Environment

variable {homes : Homes} {env : Environment} {t : Table (List Char) String}
  {es : List (Datum × Datum)} {v : List Char × String} {x y : Setting} {d : Datum}
  {sectionName : String}

/-- The value of the variable with a name. Case does not matter, and the last one counts. -/
def value? (env : Environment) (name : List Char) : Option String :=
  (env.reverse.find? fun v => lower v.1.toList = name).map (·.2)

/-- What the environment gives for a setting. -/
def given? (env : Environment) (x : Setting) : Option Datum :=
  (env.value? x.variableName).bind fun s => (settingValue x.sectionName x.name s).toOption

/-- A variable, its name in lower case, with a value for the setting that it is named after. -/
def HoldsSetting (homes : Homes) (v : List Char × String) : Prop :=
  ∃ x : Setting, v.1 = x.variableName
    ∧ ∃ d, settingValue x.sectionName x.name v.2 = .ok d ∧ x.Accepts homes d

/-- The name, in lower case, is neither for a section nor for a setting of a section. -/
def IsForeign (name : List Char) : Prop :=
  ∀ sectionName ∈ sections, name ≠ variableStart ++ sectionName.toList
    ∧ ¬ settingStart sectionName <+: name

/-- Every variable that says something about the settings has a value for one of them. -/
def HoldsSettings (env : Environment) (homes : Homes) : Prop :=
  ∀ v ∈ env, IsForeign (lower v.1.toList) ∨ HoldsSetting homes (lower v.1.toList, v.2)

instance (v : List Char × String) : Decidable (HoldsSetting homes v) :=
  inferInstanceAs (Decidable (∃ _ : Setting, _ ∧ _))

instance (name : List Char) : Decidable (IsForeign name) :=
  inferInstanceAs (Decidable (∀ sectionName ∈ sections, _))

instance (env : Environment) : Decidable (env.HoldsSettings homes) :=
  inferInstanceAs (Decidable (∀ v ∈ env, _))

theorem value?_append_singleton (env : Environment) (v : String × String) (name : List Char) :
    value? (env ++ [v]) name = if lower v.1.toList = name then some v.2 else value? env name := by
  rw [value?, List.reverse_append, List.reverse_singleton, List.singleton_append, List.find?_cons]
  by_cases h : lower v.1.toList = name
  · simp [h]
  · simp [h, value?]

theorem lowered_append_singleton (env : Environment) (v : String × String) :
    lowered (env ++ [v]) = (lowered env).insert (lower v.1.toList) v.2 := by
  rw [lowered, List.foldl_append, ← lowered, List.foldl_cons, List.foldl_nil]

theorem get?_lowered (env : Environment) (name : List Char) :
    (lowered env).get? name = env.value? name := by
  -- The last variable of a name counts, so the induction goes from the end.
  induction env using List.reverseRecOn with
  | nil => rfl
  | append_singleton env v ih =>
      rw [lowered_append_singleton, Table.get?_insert, value?_append_singleton, ih]

theorem nodup_keys_lowered (env : Environment) : (lowered env).keys.Nodup := by
  induction env using List.reverseRecOn with
  | nil => exact List.nodup_nil
  | append_singleton env v ih =>
      rw [lowered_append_singleton]
      exact Table.nodup_keys_insert ih _ _

theorem HoldsSettings.of_mem_lowered (h : env.HoldsSettings homes) (hv : v ∈ lowered env) :
    IsForeign v.1 ∨ HoldsSetting homes v := by
  induction env using List.reverseRecOn with
  | nil => exact absurd hv List.not_mem_nil
  | append_singleton env u ih =>
      rw [lowered_append_singleton] at hv
      rcases Table.mem_insert hv with hv | rfl
      · exact ih (fun u hu => h u (List.mem_append_left _ hu)) hv
      · exact h u (List.mem_append_right _ (List.mem_singleton.mpr rfl))

/-- Puts the value of a variable for one of a section's settings into the section. -/
def putVariable (sectionName : String) (es : List (Datum × Datum)) (v : List Char × String) :
    Except Fault (List (Datum × Datum)) :=
  let start := settingStart sectionName
  if start.isPrefixOf v.1 then do
    let parts := (nameParts (v.1.drop start.length)).map String.ofList
    let path := parts.dropLast
    let last := parts.getLast?.getD ""
    let value ← if path.isEmpty then settingValue sectionName last v.2 else pure (.text v.2)
    return putUnder value last path es
  else .ok es

theorem settingVariables_eq_foldlM (env : Environment) (sectionName : String) :
    env.settingVariables sectionName = (lowered env).foldlM (putVariable sectionName) [] := rfl

/-- No setting's name holds two underscores. -/
theorem nameParts_name (x : Setting) : nameParts x.name.toList = [x.name.toList] := by
  cases x <;> decide

theorem sectionName_eq_of_settingStart (h : sectionName ∈ sections)
    (hstart : settingStart sectionName <+: x.variableName) : x.sectionName = sectionName := by
  have hall : ∀ sectionName ∈ sections, settingStart sectionName <+: x.variableName →
      x.sectionName = sectionName := by
    cases x <;> decide
  exact hall sectionName h hstart

theorem variableName_ne (x : Setting) (h : sectionName ∈ sections) :
    x.variableName ≠ variableStart ++ sectionName.toList := by
  have hall : ∀ sectionName ∈ sections, x.variableName ≠ variableStart ++ sectionName.toList := by
    cases x <;> decide
  exact hall sectionName h

theorem variableName_eq_iff (h : x.sectionName = y.sectionName) :
    x.variableName = y.variableName ↔ x.name = y.name := by
  rw [Setting.variableName, Setting.variableName, h, List.append_cancel_left_eq, String.toList_inj]

/-- The variable of a setting puts its value under the name of the setting. -/
theorem putVariable_variableName (x : Setting) (value : String) (es : List (Datum × Datum)) :
    putVariable x.sectionName es (x.variableName, value)
      = (settingValue x.sectionName x.name value).map (insertEntry es (.text x.name)) := by
  have hstart : (settingStart x.sectionName).isPrefixOf x.variableName = true :=
    List.isPrefixOf_iff_prefix.mpr (List.prefix_append _ _)
  have hrest : x.variableName.drop (settingStart x.sectionName).length = x.name.toList :=
    List.drop_left
  rw [putVariable, if_pos hstart]
  simp only [hrest, nameParts_name, List.map_singleton, String.ofList_toList,
    List.dropLast_singleton, List.isEmpty_nil, if_true, List.getLast?_singleton, Option.getD_some,
    putUnder]
  cases settingValue x.sectionName x.name value <;> rfl

theorem putVariable_of_not_settingStart (h : ¬ settingStart sectionName <+: v.1)
    (es : List (Datum × Datum)) : putVariable sectionName es v = .ok es := by
  rw [putVariable, if_neg]
  rwa [List.isPrefixOf_iff_prefix]

/-- One more variable: a setting of the section takes its value and no other setting changes. -/
theorem exists_putVariable (hname : sectionName ∈ sections)
    (hv : IsForeign v.1 ∨ HoldsSetting homes v) (hes : IsSection homes sectionName es) :
    ∃ es', putVariable sectionName es v = .ok es' ∧ IsSection homes sectionName es'
      ∧ ∀ x : Setting, x.sectionName = sectionName → field? es' x.name
        = if v.1 = x.variableName then (settingValue x.sectionName x.name v.2).toOption
          else field? es x.name := by
  by_cases hstart : settingStart sectionName <+: v.1
  · rcases hv with hforeign | ⟨y, hy, d, hd, haccepts⟩
    · exact absurd hstart (hforeign sectionName hname).2
    · obtain ⟨name, value⟩ := v
      obtain rfl : name = y.variableName := hy
      obtain rfl := sectionName_eq_of_settingStart hname hstart
      refine ⟨insertEntry es (.text y.name) d, ?_, ⟨hes.keysDiffer.insertEntry _ _, ?_⟩, ?_⟩
      · rw [putVariable_variableName, hd]
        rfl
      · intro e he
        rcases mem_insertEntry he with he | rfl
        · exact hes.settings e he
        · exact ⟨y, rfl, rfl, haccepts⟩
      · intro x hx
        rw [field?_insertEntry]
        by_cases hxy : y.name = x.name
        · rw [if_pos hxy, if_pos ((variableName_eq_iff hx.symm).mpr hxy), hx, ← hxy, hd]
          rfl
        · rw [if_neg hxy, if_neg fun heq => hxy ((variableName_eq_iff hx.symm).mp heq)]
  · refine ⟨es, putVariable_of_not_settingStart hstart es, hes, fun x hx => ?_⟩
    have hne : v.1 ≠ x.variableName := by
      intro heq
      exact hstart (heq ▸ hx ▸ List.prefix_append _ _)
    rw [if_neg hne]

/-- The variables of a table put into a section one after the other. -/
theorem exists_foldlM_putVariable (hname : sectionName ∈ sections)
    (ht : ∀ v ∈ t, IsForeign v.1 ∨ HoldsSetting homes v) (hnodup : t.keys.Nodup)
    (hes : IsSection homes sectionName es) :
    ∃ es', t.foldlM (putVariable sectionName) es = .ok es' ∧ IsSection homes sectionName es'
      ∧ ∀ x : Setting, x.sectionName = sectionName → field? es' x.name
        = match t.get? x.variableName with
          | some value => (settingValue x.sectionName x.name value).toOption
          | none => field? es x.name := by
  induction t generalizing es with
  | nil => exact ⟨es, rfl, hes, fun x _ => rfl⟩
  | cons v t ih =>
      rw [List.forall_mem_cons] at ht
      obtain ⟨hnew, hnodup⟩ := List.nodup_cons.mp hnodup
      obtain ⟨es₁, hput, hes₁, hfield₁⟩ := exists_putVariable hname ht.1 hes
      obtain ⟨es₂, hrun, hes₂, hfield₂⟩ := ih ht.2 hnodup hes₁
      refine ⟨es₂, ?_, hes₂, fun x hx => ?_⟩
      · rw [List.foldlM_cons, hput]
        exact hrun
      · rw [hfield₂ x hx, Table.get?_cons]
        -- The names in the table differ: behind a setting's variable there is no other one.
        by_cases hv : v.1 = x.variableName
        · rw [if_pos hv, ← hv, Table.get?_eq_none hnew]
          simp only [hfield₁ x hx, if_pos hv]
        · rw [if_neg hv]
          cases Table.get? t x.variableName with
          | none => simp only [hfield₁ x hx, if_neg hv]
          | some _ => rfl

/-- The names of settings are in lower case. -/
theorem lower_name (x : Setting) : lower x.name.toList = x.name.toList := by
  cases x <;> decide

/-- A key of a section; the name of a setting goes to lower case. -/
def settingKey (sectionName : String) : Datum → Datum
  | .text k =>
    let name := String.ofList (lower k.toList)
    if ((settingNames.lookup sectionName).getD []).contains name then .text name else .text k
  | k => k

theorem settingKey_name (sectionName : String) (x : Setting) :
    settingKey sectionName (.text x.name) = .text x.name := by
  simp only [settingKey, lower_name, String.ofList_toList, ite_self]

theorem withSettingNames_eq_foldl (sectionName : String) (es : List (Datum × Datum)) :
    withSettingNames sectionName es
      = es.foldl (fun done e => insertEntry done (settingKey sectionName e.1) e.2) [] := by
  rw [withSettingNames]
  refine List.foldl_ext _ _ _ fun done e _ => ?_
  rw [settingKey.eq_def]
  cases e.1 <;> rfl

theorem withSettingNames_of_isSection (hes : IsSection homes sectionName es) :
    withSettingNames sectionName es = es := by
  have hkey : ∀ e ∈ es, settingKey sectionName e.1 = e.1 := by
    intro e he
    obtain ⟨x, -, hx, -⟩ := hes.settings e he
    rw [hx, settingKey_name]
  calc withSettingNames sectionName es
      = inserted [] es :=
        (withSettingNames_eq_foldl _ _).trans
          (List.foldl_ext _ _ _ fun done e he => by rw [hkey e he])
    _ = es := inserted_eq_append hes.keysDiffer

/-- The variables of settings alone make up a section. -/
theorem HoldsSettings.exists_section? (h : env.HoldsSettings homes)
    (hname : sectionName ∈ sections) :
    ∃ es, env.section? sectionName = .ok (if es.isEmpty then none else some (.map es))
      ∧ IsSection homes sectionName es
      ∧ ∀ x : Setting, x.sectionName = sectionName → field? es x.name = env.given? x := by
  have hnil : IsSection homes sectionName [] :=
    ⟨List.Pairwise.nil, fun _ he => absurd he List.not_mem_nil⟩
  obtain ⟨es, hrun, hes, hfield⟩ := exists_foldlM_putVariable hname (fun _ => h.of_mem_lowered)
    env.nodup_keys_lowered hnil
  have hsection : (lowered env).get? (variableStart ++ sectionName.toList) = none := by
    apply Table.get?_eq_none
    intro hmem
    obtain ⟨v, hv, hkey⟩ := List.mem_map.mp hmem
    rcases h.of_mem_lowered hv with hforeign | ⟨x, hx, -⟩
    · exact (hforeign sectionName hname).1 hkey
    · exact variableName_ne x hname (hx.symm.trans hkey)
  refine ⟨es, ?_, hes, fun x hx => ?_⟩
  · rw [section?, hsection, settingVariables_eq_foldlM, hrun]
    simp only [bind, Except.bind, withSettingNames_of_isSection hes]
    rfl
  · rw [hfield x hx, get?_lowered, given?]
    cases env.value? x.variableName <;> rfl

/-- The sections that hold something. -/
def sectionEntries (inner : String → List (Datum × Datum)) : List (Datum × Datum) :=
  sections.filterMap fun name =>
    if (inner name).isEmpty then none else some (.text name, .map (inner name))

variable {inner : String → List (Datum × Datum)} {e : Datum × Datum}

theorem mem_sectionEntries : e ∈ sectionEntries inner ↔
    ∃ name ∈ sections, inner name ≠ [] ∧ e = (.text name, .map (inner name)) := by
  rw [sectionEntries, List.mem_filterMap]
  refine exists_congr fun name => and_congr_right fun _ => ?_
  cases inner name with
  | nil => simp
  | cons f es => simp [eq_comm]

theorem isLayer_sectionEntries (opening : Bool)
    (h : ∀ name ∈ sections, IsSection homes name (inner name)) :
    IsLayer homes opening (sectionEntries inner) where
  hasSections := by
    intro e he
    obtain ⟨name, hname, -, rfl⟩ := mem_sectionEntries.mp he
    exact ⟨⟨name, hname, rfl⟩, inner name, seen_map opening _⟩
  keysDiffer := by
    have hnodup : sections.Pairwise (· ≠ ·) := by decide
    rw [KeysDiffer, sectionEntries, List.pairwise_filterMap]
    refine hnodup.imp fun hne e he f hf => ?_
    obtain rfl := Option.some.inj (Option.ite_none_left_eq_some.mp he).2
    obtain rfl := Option.some.inj (Option.ite_none_left_eq_some.mp hf).2
    exact sameKey_text_eq_false.mpr (by simpa using hne)
  isSection := by
    intro name v es hmem hseen
    obtain ⟨name', hname, -, heq⟩ := mem_sectionEntries.mp hmem
    obtain ⟨rfl, rfl⟩ : name = name' ∧ v = .map (inner name') := by simpa using heq
    obtain rfl : inner name = es := by simpa [seen_map] using hseen
    exact h name hname

theorem written?_sectionEntries (opening : Bool)
    (h : ∀ name ∈ sections, IsSection homes name (inner name)) (x : Setting) :
    written? opening (sectionEntries inner) x = field? (inner x.sectionName) x.name := by
  by_cases hx : inner x.sectionName = []
  · have hnone : field? (sectionEntries inner) x.sectionName = none := by
      refine field?_eq_none fun e he heq => ?_
      obtain ⟨name, -, hname, rfl⟩ := mem_sectionEntries.mp he
      obtain rfl : name = x.sectionName := by simpa using heq
      exact hname hx
    rw [written?, hnone, hx, Option.bind_none, field?_nil]
  · have hmem : (.text x.sectionName, .map (inner x.sectionName)) ∈ sectionEntries inner :=
      mem_sectionEntries.mpr ⟨x.sectionName, x.sectionName_mem, hx, rfl⟩
    rw [written?, (isLayer_sectionEntries opening h).keysDiffer.field?_eq_some hmem,
      Option.bind_some, fieldIn_of_seen (seen_map opening _)]

/-- The variables of settings make a layer, which holds what they give. -/
theorem HoldsSettings.exists_entries (h : env.HoldsSettings homes) (opening : Bool) :
    ∃ es, env.entries = .ok es ∧ IsLayer homes opening es
      ∧ ∀ x, written? opening es x = env.given? x := by
  choose! inner hsection hinner hfield using fun name (hname : name ∈ sections) =>
    h.exists_section? hname
  refine ⟨sectionEntries inner, ?_, isLayer_sectionEntries opening hinner, fun x => ?_⟩
  · have hfound : ∀ name ∈ sections,
        (do return (← env.section? name).map fun d => (Datum.text name, d)
          : Except Fault (Option (Datum × Datum)))
          = .ok (if (inner name).isEmpty then none else some (.text name, .map (inner name))) := by
      intro name hname
      rw [hsection name hname]
      cases inner name <;> rfl
    have hrun := mapM_eq_ok hfound
    rw [Environment.entries, hrun]
    exact congrArg Except.ok List.filterMap_map
  · rw [written?_sectionEntries opening hinner,
      hfield x.sectionName x.sectionName_mem x rfl]

theorem HoldsSettings.accepts (h : env.HoldsSettings homes) (hd : env.given? x = some d) :
    x.Accepts homes d := by
  obtain ⟨es, -, hlayer, hwritten⟩ := h.exists_entries true
  exact hlayer.accepts ((hwritten x).trans hd)

end Environment

end DocTags
