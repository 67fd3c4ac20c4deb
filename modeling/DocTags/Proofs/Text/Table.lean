import DocTags.Text.Table

/-!
# Tables put together

Two tables put together have the keys of the first in order and then the new ones of the second.
Where both have a value, one of them is kept. Entries that are put into the second table one by one
can be put into the whole one by one.
-/

namespace DocTags

theorem mem_of_lookup {κ ν : Type} [BEq κ] [LawfulBEq κ] {t : List (κ × ν)} {key : κ} {value : ν}
    (h : t.lookup key = some value) : (key, value) ∈ t := by
  obtain ⟨before, after, rfl, -⟩ := List.lookup_eq_some_iff.mp h
  exact List.mem_append_right before List.mem_cons_self

namespace Table

variable {κ ν ν' : Type} [DecidableEq κ] {t u r : Table κ ν} {key other : κ}

omit [DecidableEq κ] in
@[simp] theorem keys_nil : keys ([] : Table κ ν) = [] := rfl

theorem hasKey_iff : t.hasKey key = true ↔ key ∈ t.keys := by
  simp [hasKey, keys]

theorem hasKey_eq_isSome_get? (t : Table κ ν) (key : κ) : t.hasKey key = (t.get? key).isSome := by
  rw [hasKey, get?, Option.isSome_map, List.isSome_find?]

theorem keys_alter (t : Table κ ν) (key : κ) (f : Option ν → ν) :
    (t.alter key f).keys = if t.hasKey key then t.keys else t.keys ++ [key] := by
  induction t with
  | nil => rfl
  | cons e es ih =>
      by_cases h : e.1 = key
      · simp [alter, h, keys, hasKey]
      · have hes : hasKey (e :: es) key = hasKey es key := by simp [hasKey, h]
        rw [alter, if_neg h, hes, keys, List.map_cons, ← keys, ih]
        cases hasKey es key <;> rfl

theorem keys_insert (t : Table κ ν) (key : κ) (value : ν) :
    (t.insert key value).keys = if t.hasKey key then t.keys else t.keys ++ [key] :=
  t.keys_alter key _

theorem nodup_keys_insert (h : t.keys.Nodup) (key : κ) (value : ν) :
    (t.insert key value).keys.Nodup := by
  rw [keys_insert]
  split
  · exact h
  · next hnew =>
      refine List.nodup_append.mpr ⟨h, List.pairwise_singleton _ _, ?_⟩
      rintro k hk _ hmem rfl
      obtain rfl := List.mem_singleton.mp hmem
      exact hnew (hasKey_iff.mpr hk)

theorem get?_eq_none (h : key ∉ t.keys) : t.get? key = none := by
  rw [← Option.isSome_eq_false_iff.trans Option.isNone_iff_eq_none, ← hasKey_eq_isSome_get?,
    ← Bool.not_eq_true, hasKey_iff]
  exact h

theorem mem_insert {e : κ × ν} {value : ν} (h : e ∈ t.insert key value) :
    e ∈ t ∨ e = (key, value) := by
  induction t with
  | nil => exact .inr (List.mem_singleton.mp h)
  | cons f t ih =>
      rw [insert, alter] at h
      split at h
      · exact (List.mem_cons.mp h).symm.imp_left (List.mem_cons_of_mem f)
      · rcases List.mem_cons.mp h with rfl | h
        · exact .inl List.mem_cons_self
        · exact (ih h).imp_left (List.mem_cons_of_mem f)

theorem hasKey_insert (t : Table κ ν) (key other : κ) (value : ν) :
    (t.insert key value).hasKey other = (decide (key = other) || t.hasKey other) := by
  rw [hasKey_eq_isSome_get?, get?_insert, hasKey_eq_isSome_get?]
  by_cases h : key = other <;> simp [h]

/-- The keys of entries that are put in one by one are those that they have. -/
theorem mem_keys_foldl_insert {entries : List (κ × ν)} :
    key ∈ (entries.foldl (fun t e => t.insert e.1 e.2) t).keys
      ↔ key ∈ t.keys ∨ ∃ e ∈ entries, e.1 = key := by
  induction entries generalizing t with
  | nil => simp
  | cons e entries ih =>
      rw [List.foldl_cons, ih, ← hasKey_iff, hasKey_insert, Bool.or_eq_true, decide_eq_true_eq,
        hasKey_iff]
      simp only [List.mem_cons, exists_eq_or_imp, or_assoc]
      exact or_left_comm

theorem get?_of_mem {e : κ × ν} (h : t.keys.Nodup) (he : e ∈ t) : t.get? e.1 = some e.2 := by
  induction t with
  | nil => cases he
  | cons f t ih =>
      obtain ⟨hf, ht⟩ := List.nodup_cons.mp h
      rw [get?_cons]
      rcases List.mem_cons.mp he with rfl | he
      · rw [if_pos rfl]
      · have hne : f.1 ≠ e.1 := fun heq => hf (List.mem_map.mpr ⟨e, he, heq.symm⟩)
        rw [if_neg hne, ih ht he]

theorem eq_nil_iff_get? : t = [] ↔ ∀ key, t.get? key = none := by
  constructor
  · rintro rfl key
    rfl
  · intro h
    cases t with
    | nil => rfl
    | cons e t => simpa [get?_cons] using h e.1

/-- The table with every value changed. -/
def mapValues (f : ν → ν') (t : Table κ ν) : Table κ ν' :=
  t.map fun e => (e.1, f e.2)

@[simp] theorem hasKey_mapValues (f : ν → ν') (t : Table κ ν) (key : κ) :
    (t.mapValues f).hasKey key = t.hasKey key := by
  simp [hasKey, mapValues, Function.comp_def]

theorem mapValues_insert (f : ν → ν') (t : Table κ ν) (key : κ) (value : ν) :
    (t.insert key value).mapValues f = (t.mapValues f).insert key (f value) := by
  induction t with
  | nil => rfl
  | cons e es ih =>
      simp only [insert, mapValues] at ih ⊢
      by_cases h : e.1 = key
      · simp [alter, h]
      · simp [alter, h, ih]

/-- `r` is `t` and `u` together: the keys of `t` and then the new ones of `u`. A value of `t` stays
under the keys that are kept and gives way to one of `u` under the others. -/
structure Joined (kept : κ → Bool) (t u r : Table κ ν) : Prop where
  keys : r.keys = t.keys ++ u.keys.filter fun key => !t.hasKey key
  get? : ∀ key, r.get? key
    = if kept key then (t.get? key).or (u.get? key) else (u.get? key).or (t.get? key)

namespace Joined

variable {kept : κ → Bool}

theorem nil (kept : κ → Bool) (t : Table κ ν) : Joined kept t [] t := by
  constructor
  · simp
  · simp

theorem hasKey (h : Joined kept t u r) (key : κ) :
    r.hasKey key = (t.hasKey key || u.hasKey key) := by
  simp only [hasKey_eq_isSome_get?, h.get? key]
  split
  · rw [Option.isSome_or]
  · rw [Option.isSome_or, Bool.or_comm]

/-- A value under a key whose value in the first table does not stay, or that is not in it. -/
theorem insert (h : Joined kept t u r) (hkey : kept key = false ∨ t.hasKey key = false)
    (value : ν) : Joined kept t (u.insert key value) (r.insert key value) := by
  constructor
  · rw [keys_insert, keys_insert, h.hasKey, h.keys]
    cases ht : t.hasKey key <;> cases hu : u.hasKey key <;> simp [ht]
  · intro other
    rw [get?_insert, get?_insert, h.get? other]
    by_cases hother : key = other
    · subst hother
      rcases hkey with hkept | hnone
      · simp [hkept]
      · rw [hasKey_eq_isSome_get?, Option.isSome_eq_false_iff, Option.isNone_iff_eq_none] at hnone
        simp [hnone]
    · simp [hother]

/-- A value under a key whose value in the first table stays. -/
theorem insert_of_kept (h : Joined kept t u r) (hkept : kept key = true)
    (hkey : t.hasKey key = true) (value : ν) : Joined kept t (u.insert key value) r := by
  constructor
  · rw [keys_insert, h.keys]
    cases u.hasKey key <;> simp [hkey]
  · intro other
    rw [get?_insert, h.get? other]
    by_cases hother : key = other
    · subst hother
      obtain ⟨v, hv⟩ := Option.isSome_iff_exists.mp ((hasKey_eq_isSome_get? t key).symm.trans hkey)
      simp [hkept, hv]
    · simp [hother]

end Joined

end Table

end DocTags
