import DocTags.Datum.Merge

/-!
# Entries with text keys

What stands under a text key of a mapping, after an entry has been put in and after other entries
have been laid over. A mapping that is laid over another one replaces what is no mapping, and where
both have a mapping the two are laid over one another in turn.
-/

namespace DocTags.Datum

variable {es below above : List (Datum × Datum)} {k v w : Datum} {key name : String}

/-- The keys of the entries differ. -/
def KeysDiffer (es : List (Datum × Datum)) : Prop :=
  es.Pairwise fun e f => sameKey e.1 f.1 = false

/-- The value is a mapping. -/
def isMap : Datum → Bool
  | map _ => true
  | _ => false

theorem exists_of_isMap {d : Datum} (h : d.isMap = true) : ∃ es, d = map es := by
  cases d with
  | map es => exact ⟨es, rfl⟩
  | _ => cases h

/-- A text is the same key as the same text only. -/
@[simp] theorem sameKey_text : sameKey k (text name) = true ↔ k = text name := by
  cases k with
  | text s => exact beq_iff_eq.trans ⟨congrArg text, text.inj⟩
  | real x => cases x <;> exact iff_of_false Bool.false_ne_true nofun
  | _ => exact iff_of_false Bool.false_ne_true nofun

instance decidableEqText (k : Datum) (name : String) : Decidable (k = text name) :=
  decidable_of_iff _ sameKey_text

instance decidableExistsEqMap {P : List (Datum × Datum) → Prop} [∀ es, Decidable (P es)]
    (d : Datum) : Decidable (∃ es, d = map es ∧ P es) :=
  match d with
  | map es => decidable_of_iff (P es) ⟨fun h => ⟨es, rfl, h⟩, fun ⟨_, hd, h⟩ => map.inj hd ▸ h⟩
  | null | bool _ | int _ | real _ | text _ | moment _ | list _ | tuple _ | set _ | bytes ..
  | named .. | stream .. | caller | object _ | handle _ | knot .. | again _ =>
    .isFalse fun ⟨_, hd, _⟩ => nomatch hd

theorem sameKey_text_eq_false : sameKey k (text name) = false ↔ k ≠ text name := by
  rw [Ne, ← sameKey_text, Bool.not_eq_true]

@[simp] theorem field?_nil (name : String) : field? [] name = none := rfl

theorem field?_cons_self (v : Datum) (es : List (Datum × Datum)) (name : String) :
    field? ((text name, v) :: es) name = some v := by
  simp [field?, lookup?]

theorem field?_cons_of_ne (h : k ≠ text name) (v : Datum) (es : List (Datum × Datum)) :
    field? ((k, v) :: es) name = field? es name := by
  simp [field?, lookup?, sameKey_text_eq_false.mpr h]

theorem field?_eq_none (h : ∀ e ∈ es, e.1 ≠ text name) : field? es name = none := by
  simpa [field?, lookup?, sameKey_text_eq_false] using fun k v hmem => h (k, v) hmem

/-- A key that differs from all other keys stands nowhere else. -/
theorem KeysDiffer.field?_eq_none (h : KeysDiffer ((text name, v) :: es)) :
    field? es name = none := by
  refine Datum.field?_eq_none fun e he heq => ?_
  have hne := (List.pairwise_cons.mp h).1 e he
  rw [heq] at hne
  exact sameKey_text_eq_false.mp hne rfl

theorem KeysDiffer.field?_eq_some (h : KeysDiffer es) (hmem : (text name, v) ∈ es) :
    field? es name = some v := by
  induction es with
  | nil => exact absurd hmem List.not_mem_nil
  | cons e es ih =>
      rcases List.mem_cons.mp hmem with rfl | hmem
      · exact field?_cons_self v es name
      · have hne : e.1 ≠ text name :=
          sameKey_text_eq_false.mp ((List.pairwise_cons.mp h).1 _ hmem)
        rw [← ih h.of_cons hmem]
        exact field?_cons_of_ne hne e.2 es

theorem exists_mem_of_field? (h : field? es name = some v) : (text name, v) ∈ es := by
  obtain ⟨e, he, rfl⟩ := Option.map_eq_some_iff.mp h
  have hkey : sameKey e.1 (text name) = true := by simpa using List.find?_some he
  rw [← sameKey_text.mp hkey]
  exact List.mem_of_find?_eq_some he

/-- The entries of a record are those of its fields. -/
theorem field?_record (fields : List (String × Datum)) (name : String) :
    field? (fields.map fun f => (text f.1, f.2)) name = fields.lookup name := by
  induction fields with
  | nil => rfl
  | cons f fields ih =>
      rw [List.map_cons, List.lookup_cons]
      by_cases h : name = f.1
      · rw [h, field?_cons_self, beq_self_eq_true]
      · have hne : text f.1 ≠ text name := by simpa using Ne.symm h
        rw [field?_cons_of_ne hne, ih, beq_eq_false_iff_ne.mpr h]

theorem field?_insertEntry (es : List (Datum × Datum)) (key : String) (v : Datum) (name : String) :
    field? (insertEntry es (text key) v) name = if key = name then some v else field? es name := by
  induction es with
  | nil =>
      by_cases h : key = name
      · rw [insertEntry_nil, if_pos h, h, field?_cons_self]
      · rw [insertEntry_nil, if_neg h, field?_cons_of_ne (by simpa using h)]
  | cons e es ih =>
      obtain ⟨k, w⟩ := e
      rw [insertEntry_cons]
      by_cases hk : sameKey k (text key) = true
      · obtain rfl := sameKey_text.mp hk
        rw [if_pos hk]
        by_cases h : key = name
        · rw [if_pos h, h, field?_cons_self]
        · have hne : text key ≠ text name := by simpa using h
          rw [if_neg h, field?_cons_of_ne hne, field?_cons_of_ne hne]
      · rw [if_neg hk]
        by_cases hname : k = text name
        · have h : key ≠ name := fun heq => hk (sameKey_text.mpr (heq ▸ hname))
          rw [hname, field?_cons_self, field?_cons_self, if_neg h]
        · rw [field?_cons_of_ne hname, field?_cons_of_ne hname, ih]

theorem mem_insertEntry {e : Datum × Datum} (h : e ∈ insertEntry es (text key) v) :
    e ∈ es ∨ e = (text key, v) := by
  induction es with
  | nil => exact .inr (List.mem_singleton.mp h)
  | cons f es ih =>
      rw [insertEntry_cons] at h
      by_cases hk : sameKey f.1 (text key) = true
      · rw [if_pos hk, List.mem_cons, sameKey_text.mp hk] at h
        exact h.symm.imp_left (List.mem_cons_of_mem f)
      · rw [if_neg hk, List.mem_cons] at h
        rcases h with rfl | h
        · exact .inl List.mem_cons_self
        · exact (ih h).imp_left (List.mem_cons_of_mem f)

theorem KeysDiffer.insertEntry (h : KeysDiffer es) (key : String) (v : Datum) :
    KeysDiffer (insertEntry es (text key) v) := by
  induction es with
  | nil => exact List.pairwise_singleton _ _
  | cons e es ih =>
      obtain ⟨hnew, hes⟩ := List.pairwise_cons.mp h
      rw [insertEntry_cons]
      by_cases hk : sameKey e.1 (text key) = true
      · rw [if_pos hk]
        exact List.pairwise_cons.mpr ⟨hnew, hes⟩
      · rw [if_neg hk]
        refine List.pairwise_cons.mpr ⟨fun f hf => ?_, ih hes⟩
        rcases mem_insertEntry hf with hf | rfl
        · exact hnew f hf
        · exact Bool.not_eq_true _ ▸ hk

theorem insertEntry_of_forall (h : ∀ e ∈ es, sameKey e.1 k = false) (v : Datum) :
    insertEntry es k v = es ++ [(k, v)] := by
  induction es with
  | nil => rfl
  | cons e es ih =>
      rw [List.forall_mem_cons] at h
      simp [insertEntry_cons, h.1, ih h.2]

/-- The entries put in one after the other. -/
def inserted (below above : List (Datum × Datum)) : List (Datum × Datum) :=
  above.foldl (fun done e => insertEntry done e.1 e.2) below

/-- Entries with new keys go to the end. -/
theorem inserted_eq_append (h : KeysDiffer (below ++ above)) :
    inserted below above = below ++ above := by
  induction above generalizing below with
  | nil => rw [inserted, List.foldl_nil, List.append_nil]
  | cons e above ih =>
      have hnew : ∀ f ∈ below, sameKey f.1 e.1 = false :=
        fun f hf => (List.pairwise_append.mp h).2.2 f hf e List.mem_cons_self
      rw [List.append_cons] at h
      rw [inserted, List.foldl_cons, insertEntry_of_forall hnew, ← inserted, ih h]
      exact (List.append_cons below e above).symm

/-- A mapping with different keys has all the entries that it is made of. -/
theorem mapOf_eq_map (h : KeysDiffer es) : mapOf es = .map es :=
  congrArg map (@inserted_eq_append [] es h)

/-- Under a key stands what was put in, or else what stood there before. -/
theorem field?_inserted (hdiffer : KeysDiffer above) (htext : ∀ e ∈ above, ∃ key, e.1 = text key)
    (name : String) :
    field? (inserted below above) name = (field? above name).or (field? below name) := by
  induction above generalizing below with
  | nil => rfl
  | cons e above ih =>
      obtain ⟨k, v⟩ := e
      rw [List.forall_mem_cons] at htext
      obtain ⟨⟨key, rfl⟩, htext⟩ := htext
      rw [inserted, List.foldl_cons, ← inserted, ih hdiffer.of_cons htext, field?_insertEntry]
      by_cases h : key = name
      · subst h
        rw [if_pos rfl, hdiffer.field?_eq_none, field?_cons_self, Option.none_or, Option.some_or]
      · rw [if_neg h, field?_cons_of_ne (by simpa using h)]

/-- Where nothing that is put in is a mapping, laying over is putting in. -/
theorem overlayEntries_eq_inserted (h : ∀ e ∈ above, ∀ m, e.2 ≠ map m) :
    overlayEntries below above = inserted below above := by
  induction above generalizing below with
  | nil => rw [overlayEntries_nil, inserted, List.foldl_nil]
  | cons e above ih =>
      obtain ⟨k, v⟩ := e
      rw [List.forall_mem_cons] at h
      have hvalue : overlay (lookup? below k) v = v := by
        rw [overlay.eq_def]
        split
        · next heq => exact absurd rfl (h.1 _)
        · rfl
      rw [overlayEntries_cons, hvalue, ih h.2, inserted, inserted, List.foldl_cons]

section Opened

variable {n : Nat} {a b : List (Datum × Datum)}

/-- A mapping over a mapping is laid over it first. -/
theorem overlayOpened_cons_of_maps (hold : (lookup? below k).map opened = some (map a))
    (hnew : v.opened = map b) :
    overlayOpened (n + 1) below ((k, v) :: above)
      = (overlayOpened n a b).bind fun es =>
        overlayOpened (n + 1) (insertEntry below k (map es)) above := by
  simp only [overlayOpened, List.foldlM_cons, hold, hnew]
  cases overlayOpened n a b <;> rfl

theorem overlayOpened_cons_of_not
    (h : ∀ a b, (lookup? below k).map opened = some (map a) → v.opened ≠ map b) :
    overlayOpened (n + 1) below ((k, v) :: above)
      = overlayOpened (n + 1) (insertEntry below k v) above := by
  simp only [overlayOpened, List.foldlM_cons]
  rfl

/-- Where nothing that is put in is a mapping, laying over is putting in. -/
theorem overlayOpened_eq_inserted (h : ∀ e ∈ above, ∀ m, e.2.opened ≠ map m) :
    overlayOpened (n + 1) below above = some (inserted below above) := by
  induction above generalizing below with
  | nil => rfl
  | cons e above ih =>
      obtain ⟨k, v⟩ := e
      rw [List.forall_mem_cons] at h
      rw [overlayOpened_cons_of_not fun _ b _ => h.1 b, ih h.2, inserted, inserted, List.foldl_cons]

end Opened

/-- A value as it is looked at, opened or not. -/
def seen (opening : Bool) (d : Datum) : Datum :=
  if opening then d.opened else d

@[simp] theorem seen_map (opening : Bool) (es : List (Datum × Datum)) :
    seen opening (map es) = map es := by
  cases opening <;> rfl

/-- A value laid over what stood there before: a mapping is put into a mapping. -/
def laid (opening : Bool) (old : Option Datum) (new : Datum) : Datum :=
  match old.map (seen opening), seen opening new with
  | some (map a), map b => map (inserted a b)
  | _, _ => new

theorem laid_of_maps {opening : Bool} {old : Option Datum} {a b : List (Datum × Datum)}
    (hold : old.map (seen opening) = some (map a)) (hnew : seen opening v = map b) :
    laid opening old v = map (inserted a b) := by
  rw [laid, hold, hnew]

theorem laid_of_not {opening : Bool} {old : Option Datum}
    (h : ∀ a b, old.map (seen opening) = some (map a) → seen opening v ≠ map b) :
    laid opening old v = v := by
  rw [laid]
  split
  · next hold hnew => exact absurd hnew (h _ _ hold)
  · rfl

theorem overlay_eq_laid (old : Option Datum)
    (h : ∀ inner, v = map inner → ∀ e ∈ inner, ∀ m, e.2 ≠ map m) :
    overlay old v = laid false old v := by
  rw [overlay.eq_def]
  split
  · next a b =>
      exact (congrArg map (overlayEntries_eq_inserted (h b rfl))).trans
        (laid_of_maps (a := a) rfl rfl).symm
  · next hnot =>
      refine (laid_of_not ?_).symm
      intro a b hold hnew
      obtain ⟨u, rfl, hu⟩ := Option.map_eq_some_iff.mp hold
      exact hnot a b (congrArg some hu) hnew

/-- Entries are laid over others one after the other, as long as the mappings among them hold no
mappings in turn. -/
theorem layer?_cons {opening : Bool}
    (h : ∀ inner, seen opening v = map inner → ∀ e ∈ inner, ∀ m, e.2.opened ≠ map m) :
    layer? opening below ((k, v) :: above)
      = layer? opening (insertEntry below k (laid opening (lookup? below k) v)) above := by
  cases opening with
  | false =>
      have hplain : ∀ inner, v = map inner → ∀ e ∈ inner, ∀ m, e.2 ≠ map m := by
        rintro inner rfl e he m heq
        exact h inner rfl e he m (by rw [heq]; rfl)
      rw [layer?_false, layer?_false, overlayEntries_cons, overlay_eq_laid _ hplain]
  | true =>
      change overlayOpened (489 + 1) _ _ = overlayOpened (489 + 1) _ _
      by_cases hmaps : ∃ a b, (lookup? below k).map (seen true) = some (map a)
          ∧ seen true v = map b
      · obtain ⟨a, b, hold, hnew⟩ := hmaps
        have hinner : overlayOpened (488 + 1) a b = some (inserted a b) :=
          overlayOpened_eq_inserted (h b hnew)
        rw [laid_of_maps hold hnew, overlayOpened_cons_of_maps hold hnew, hinner, Option.bind_some]
      · have hnot : ∀ a b, (lookup? below k).map (seen true) = some (map a) → seen true v ≠ map b :=
          fun a b hold hnew => hmaps ⟨a, b, hold, hnew⟩
        rw [laid_of_not hnot]
        exact overlayOpened_cons_of_not hnot

end DocTags.Datum
