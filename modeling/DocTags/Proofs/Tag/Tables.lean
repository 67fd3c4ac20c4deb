import DocTags.Proofs.Text.Table
import DocTags.Tag.Table

/-!
# The values under a tag name

A comment's table has under a name the values of the tags with that name, in order. The table of a
symbol has those of all its comments, one comment after the other. Merging needs that no name stands
twice in the second table, which every table of tags satisfies.
-/

namespace DocTags.TagTable

variable {t u : TagTable}

/-- The values under a name, none if the name is missing. -/
def values (t : TagTable) (name : String) : List String :=
  (t.get? name).getD []

/-- The values that a comment's general tags with a name have, in order. -/
def valuesIn (comment name : String) : List String :=
  ((Dialect.genericPattern.findAll (Text.stripDelimiters comment.toList)).filter
    fun m => lowerName (m.groupD .name) = name).map fun m => String.ofList (m.groupD .value)

@[simp] theorem values_nil (name : String) : values [] name = [] := rfl

theorem values_cons (e : String × List String) (t : TagTable) (name : String) :
    values (e :: t) name = if e.1 = name then e.2 else t.values name := by
  rw [values, Table.get?_cons]
  split <;> rfl

theorem values_append (t : TagTable) (key : String) (vs : List String) (name : String) :
    (t.append key vs).values name = t.values name ++ if key = name then vs else [] := by
  rw [values, append, Table.get?_alter]
  by_cases h : key = name
  · subst h
    simp [values]
  · simp [values, h]

theorem nodup_keys_append (h : t.keys.Nodup) (key : String) (vs : List String) :
    (t.append key vs).keys.Nodup := by
  rw [append, Table.keys_alter]
  cases hkey : t.hasKey key with
  | true => exact h
  | false =>
      have hnew : key ∉ t.keys := by
        rw [← Table.hasKey_iff, hkey]
        exact Bool.false_ne_true
      have hne : ∀ old ∈ t.keys, old ≠ key := fun old hold heq => hnew (heq ▸ hold)
      rw [if_neg Bool.false_ne_true]
      exact List.nodup_append.mpr ⟨h, by simp, by simpa using hne⟩

/-- A name that is missing has no values. -/
theorem values_eq_nil_of_not_mem {name : String} (h : name ∉ t.keys) : t.values name = [] := by
  rw [← Table.hasKey_iff, Table.hasKey_eq_isSome_get?, Option.not_isSome_iff_eq_none] at h
  rw [values, h, Option.getD_none]

theorem nodup_keys_ofComment (comment : String) : (ofComment comment).keys.Nodup := by
  rw [ofComment, ofText]
  exact List.foldlRecOn (motive := fun t : TagTable => t.keys.Nodup) _ _ List.nodup_nil
    fun t ht m _ => nodup_keys_append ht _ _

theorem values_ofComment (comment name : String) :
    (ofComment comment).values name = valuesIn comment name := by
  rw [ofComment, ofText, valuesIn]
  generalize Dialect.genericPattern.findAll _ = ms
  suffices h : ∀ t : TagTable,
      (ms.foldl (fun (t : TagTable) m =>
          t.append (lowerName (m.groupD .name)) [String.ofList (m.groupD .value)]) t).values name
        = t.values name ++ (ms.filter fun m => lowerName (m.groupD .name) = name).map
          fun m => String.ofList (m.groupD .value) from h []
  induction ms with
  | nil => simp
  | cons m ms ih =>
      intro t
      rw [List.foldl_cons, ih, values_append, List.append_assoc, List.filter_cons]
      by_cases h : lowerName (m.groupD .name) = name <;> simp [h]

theorem merge_cons (t : TagTable) (e : String × List String) (u : TagTable) :
    merge t (e :: u) = merge (t.append e.1 e.2) u := rfl

theorem values_merge (t : TagTable) (hu : u.keys.Nodup) (name : String) :
    (merge t u).values name = t.values name ++ u.values name := by
  induction u generalizing t with
  | nil => simp [merge]
  | cons e u ih =>
      obtain ⟨hnew, hu⟩ := List.nodup_cons.mp hu
      rw [merge_cons, ih (t.append e.1 e.2) hu, values_append, values_cons, List.append_assoc]
      by_cases h : e.1 = name
      · subst h
        rw [values_eq_nil_of_not_mem hnew]
        simp
      · simp [h]

/-- A symbol has under a name the values of all its comments, its own the last. -/
theorem values_ofSymbol (s : Symbol) (name : String) :
    (ofSymbol s).values name = (sources s).flatMap (valuesIn · name) := by
  rw [ofSymbol]
  generalize sources s = comments
  suffices h : ∀ t : TagTable, ((comments.map ofComment).foldl merge t).values name
      = t.values name ++ comments.flatMap (valuesIn · name) from h []
  induction comments with
  | nil => simp
  | cons comment comments ih =>
      intro t
      rw [List.map_cons, List.foldl_cons, ih, values_merge t (nodup_keys_ofComment comment),
        values_ofComment, List.flatMap_cons, List.append_assoc]

end DocTags.TagTable
