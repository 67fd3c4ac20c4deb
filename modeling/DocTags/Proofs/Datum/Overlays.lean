import DocTags.Proofs.Datum.Keys

/-!
# Nested mappings over one another

What is left of nested mappings that are laid over one another is told path by path: a leaf is the
upper one's, or else the lower one's, and a mapping has the keys of the lower one in front of those
that only the upper one has. So, as long as the mappings agree on what is a mapping, it does not
matter which two of three are laid over one another first, and nothing is gained by laying the same
mapping over twice.
-/

namespace DocTags.Datum

variable {a b c es : List (Datum × Datum)} {d x y z k v w : Datum} {e : Datum × Datum}
  {path : List Datum}

/-- In every mapping in the value, down to its leaves, the keys differ and each can be found: it is
the same as itself, as all texts are. -/
inductive IsNested : Datum → Prop where
  | leaf {d : Datum} (isMap : d.isMap = false) : IsNested d
  | node {es : List (Datum × Datum)} (keysDiffer : KeysDiffer es)
      (found : ∀ e ∈ es, sameKey e.1 e.1 = true) (values : ∀ e ∈ es, IsNested e.2) :
      IsNested (map es)

/-- What stands at the end of a path of keys. -/
def valueAt? : Datum → List Datum → Option Datum
  | d, [] => some d
  | map es, k :: path => (lookup? es k).bind (valueAt? · path)
  | _, _ :: _ => none

/-- The leaf at the end of a path: a value that is no mapping. -/
def leafAt? (d : Datum) (path : List Datum) : Option Datum :=
  (valueAt? d path).filter fun v => !v.isMap

/-- The keys of a mapping in order; a leaf has none. -/
def keys : Datum → List Datum
  | map es => es.map (·.1)
  | _ => []

/-- The keys of the mapping at the end of a path, if there is one. -/
def keysAt (d : Datum) (path : List Datum) : List Datum :=
  ((valueAt? d path).map keys).getD []

/-- Wherever a path leads to something in both values, it is a mapping in both or in none. -/
def Agree (x y : Datum) : Prop :=
  ∀ path v w, valueAt? x path = some v → valueAt? y path = some w → v.isMap = w.isMap

theorem IsNested.keysDiffer (h : IsNested (map es)) : KeysDiffer es := by
  cases h with
  | leaf h => cases h
  | node h => exact h

theorem IsNested.found (h : IsNested (map es)) : ∀ e ∈ es, sameKey e.1 e.1 = true := by
  cases h with
  | leaf h => cases h
  | node _ h => exact h

theorem IsNested.values (h : IsNested (map es)) : ∀ e ∈ es, IsNested e.2 := by
  cases h with
  | leaf h => cases h
  | node _ _ h => exact h

/-- What stands under a key of a nested mapping is nested. -/
theorem IsNested.of_lookup? (h : IsNested (map es)) (hv : lookup? es k = some v) : IsNested v := by
  obtain ⟨e, he, -, rfl⟩ := exists_mem_of_lookup? hv
  exact h.values e he

theorem valueAt?_map_cons (es : List (Datum × Datum)) (k : Datum) (path : List Datum) :
    valueAt? (map es) (k :: path) = (lookup? es k).bind (valueAt? · path) := by
  rw [valueAt?]

theorem valueAt?_leaf_cons (h : d.isMap = false) (k : Datum) (path : List Datum) :
    valueAt? d (k :: path) = none := by
  cases d with
  | map => cases h
  | _ => rfl

/-- What stands at the end of a path in a nested mapping is nested. -/
theorem IsNested.of_valueAt? (h : IsNested d) (hv : valueAt? d path = some v) : IsNested v := by
  induction path generalizing d with
  | nil => exact Option.some.inj hv ▸ h
  | cons k path ih =>
      cases hmap : d.isMap with
      | false =>
          rw [valueAt?_leaf_cons hmap] at hv
          cases hv
      | true =>
          obtain ⟨es, rfl⟩ := exists_of_isMap hmap
          rw [valueAt?_map_cons] at hv
          obtain ⟨u, hu, hv⟩ := Option.bind_eq_some_iff.mp hv
          exact ih (h.of_lookup? hu) hv

theorem Agree.isMap_eq (h : Agree x y) : x.isMap = y.isMap :=
  h [] x y rfl rfl

/-- Mappings that agree hold values that agree. -/
theorem Agree.of_lookup? (h : Agree (map a) (map b)) (hx : lookup? a k = some x)
    (hy : lookup? b k = some y) : Agree x y := by
  intro path v w hv hw
  refine h (k :: path) v w ?_ ?_
  · rw [valueAt?_map_cons, hx, Option.bind_some, hv]
  · rw [valueAt?_map_cons, hy, Option.bind_some, hw]

/-- Mappings agree if the values under the same keys do. -/
theorem agree_maps (h : ∀ e ∈ a, ∀ f ∈ b, sameKey e.1 f.1 = true → Agree e.2 f.2) :
    Agree (map a) (map b) := by
  intro path v w hv hw
  cases path with
  | nil =>
      obtain rfl := Option.some.inj hv
      obtain rfl := Option.some.inj hw
      rfl
  | cons k path =>
      rw [valueAt?_map_cons] at hv hw
      obtain ⟨x, hx, hv⟩ := Option.bind_eq_some_iff.mp hv
      obtain ⟨y, hy, hw⟩ := Option.bind_eq_some_iff.mp hw
      obtain ⟨e, he, hek, rfl⟩ := exists_mem_of_lookup? hx
      obtain ⟨f, hf, hfk, rfl⟩ := exists_mem_of_lookup? hy
      have hsame : sameKey e.1 f.1 = true := sameKey_trans hek (sameKey_comm f.1 k ▸ hfk)
      exact h e he f hf hsame path v w hv hw

theorem agree_leaves (hx : x.isMap = false) (hy : y.isMap = false) : Agree x y := by
  intro path v w hv hw
  cases path with
  | nil =>
      obtain rfl := Option.some.inj hv
      obtain rfl := Option.some.inj hw
      rw [hx, hy]
  | cons k path =>
      rw [valueAt?_leaf_cons hx] at hv
      cases hv

theorem overlay_maps (a b : List (Datum × Datum)) :
    overlay (some (map a)) (map b) = map (overlayEntries a b) := by
  rw [overlay]

theorem overlay_none (v : Datum) : overlay none v = v := by
  rw [overlay]
  exact nofun

theorem overlay_of_not_isMap (h : v.isMap = false) (old : Option Datum) : overlay old v = v := by
  rw [overlay.eq_def]
  split
  · cases h
  · rfl

theorem overlay_over_not_isMap (h : x.isMap = false) (v : Datum) : overlay (some x) v = v := by
  rw [overlay.eq_def]
  split
  · next heq =>
      obtain rfl := Option.some.inj heq
      cases h
  · rfl

theorem isMap_overlay (old : Option Datum) (v : Datum) : (overlay old v).isMap = v.isMap := by
  rw [overlay.eq_def]
  split <;> rfl

/-- What stands under a key of entries that are laid over others, by what stands there in both. -/
def overlay? (old : Option Datum) : Option Datum → Option Datum
  | none => old
  | some v => some (overlay old v)

theorem overlay?_none (new : Option Datum) : overlay? none new = new := by
  cases new with
  | none => rfl
  | some v => exact congrArg some (overlay_none v)

theorem lookup?_overlayEntries (hb : KeysDiffer b) (k : Datum) :
    lookup? (overlayEntries a b) k = overlay? (lookup? a k) (lookup? b k) := by
  induction b generalizing a with
  | nil => rw [overlayEntries_nil]; rfl
  | cons e b ih =>
      obtain ⟨l, v⟩ := e
      rw [overlayEntries_cons, ih hb.of_cons, lookup?_insertEntry, lookup?_cons]
      by_cases hl : sameKey l k = true
      · rw [if_pos hl, if_pos hl, hb.lookup?_eq_none hl, lookup?_congr hl]
        rfl
      · rw [if_neg hl, if_neg hl]

/-- The keys below stay in front of the new ones. -/
theorem keys_overlayEntries (hb : KeysDiffer b) :
    (overlayEntries a b).map (·.1)
      = a.map (·.1) ++ (b.map (·.1)).filter (isNew (a.map (·.1))) := by
  induction b generalizing a with
  | nil => simp
  | cons e b ih =>
      obtain ⟨l, v⟩ := e
      -- A key that differs from `l` is as new behind `l` as it was before.
      have hnew : ∀ m ∈ b.map (·.1), isNew (a.map (·.1) ++ [l].filter (isNew (a.map (·.1)))) m
          = isNew (a.map (·.1)) m := by
        rw [List.forall_mem_map]
        intro f hf
        have hne : sameKey l f.1 = false := (List.pairwise_cons.mp hb).1 f hf
        rw [isNew, List.any_append, List.filter_singleton]
        cases isNew (a.map (·.1)) l <;> simp [isNew, hne]
      rw [overlayEntries_cons, ih hb.of_cons, keys_insertEntry, List.append_assoc,
        List.filter_congr hnew, List.map_cons, ← List.filter_append, List.singleton_append]

theorem keys_leaf (h : d.isMap = false) : keys d = [] := by
  cases d with
  | map => cases h
  | _ => rfl

theorem keys_overlay (hw : IsNested w) (h : v.isMap = w.isMap) :
    keys (overlay (some v) w) = keys v ++ (keys w).filter (isNew (keys v)) := by
  cases hmap : w.isMap with
  | false =>
      rw [overlay_of_not_isMap hmap, keys_leaf hmap, keys_leaf (h.trans hmap)]
      rfl
  | true =>
      obtain ⟨b, rfl⟩ := exists_of_isMap hmap
      obtain ⟨a, rfl⟩ := exists_of_isMap (h.trans hmap)
      rw [overlay_maps]
      exact keys_overlayEntries hw.keysDiffer

theorem overlayEntries_nil_left (hb : KeysDiffer b) (hfound : ∀ e ∈ b, sameKey e.1 e.1 = true) :
    overlayEntries [] b = b := by
  have hkeys : (overlayEntries [] b).map (·.1) = b.map (·.1) := by
    rw [keys_overlayEntries hb, List.map_nil, List.nil_append]
    exact List.filter_eq_self.mpr fun k _ => rfl
  refine (hb.ext hfound hkeys.symm fun k => ?_).symm
  rw [lookup?_overlayEntries hb]
  exact (overlay?_none (lookup? b k)).symm

/-- The keys of nested mappings that are laid over one another differ and can be found. -/
theorem keysDiffer_overlayEntries (ha : IsNested (map a)) (hb : IsNested (map b)) :
    KeysDiffer (overlayEntries a b) := by
  rw [keysDiffer_iff, keys_overlayEntries hb.keysDiffer, List.pairwise_append]
  refine ⟨keysDiffer_iff.mp ha.keysDiffer, (keysDiffer_iff.mp hb.keysDiffer).filter _, ?_⟩
  intro k hk l hl
  exact isNew_eq_true_iff.mp (List.mem_filter.mp hl).2 k hk

theorem found_overlayEntries (ha : IsNested (map a)) (hb : IsNested (map b)) :
    ∀ e ∈ overlayEntries a b, sameKey e.1 e.1 = true := by
  rw [← List.forall_mem_map (P := fun k => sameKey k k = true), keys_overlayEntries hb.keysDiffer,
    List.forall_mem_append, List.forall_mem_map]
  refine ⟨ha.found, fun k hk => ?_⟩
  obtain ⟨e, he, rfl⟩ := List.mem_map.mp (List.mem_filter.mp hk).1
  exact hb.found e he

theorem isNested_overlay (hx : IsNested x) (hy : IsNested y) : IsNested (overlay (some x) y) := by
  induction hy generalizing x with
  | leaf h =>
      rw [overlay_of_not_isMap h]
      exact .leaf h
  | @node b hb hfound hvalues ih =>
      cases hmap : x.isMap with
      | false =>
          rw [overlay_over_not_isMap hmap]
          exact .node hb hfound hvalues
      | true =>
          obtain ⟨a, rfl⟩ := exists_of_isMap hmap
          have hy : IsNested (map b) := .node hb hfound hvalues
          have hkeys := keysDiffer_overlayEntries hx hy
          rw [overlay_maps]
          refine .node hkeys (found_overlayEntries hx hy) fun e he => ?_
          have hvalue := hkeys.lookup?_of_mem he (found_overlayEntries hx hy e he)
          rw [lookup?_overlayEntries hb] at hvalue
          cases hv : lookup? b e.1 with
          | none =>
              rw [hv] at hvalue
              exact hx.of_lookup? hvalue
          | some v =>
              rw [hv] at hvalue
              obtain ⟨f, hf, -, rfl⟩ := exists_mem_of_lookup? hv
              rw [← Option.some.inj hvalue]
              cases hu : lookup? a e.1 with
              | none =>
                  rw [overlay_none]
                  exact hvalues f hf
              | some u => exact ih f hf (hx.of_lookup? hu)

theorem isNested_overlayEntries (ha : IsNested (map a)) (hb : IsNested (map b)) :
    IsNested (map (overlayEntries a b)) :=
  overlay_maps a b ▸ isNested_overlay ha hb

/-- Nested mappings with the same keys and the same values under them are the same. -/
theorem IsNested.ext (ha : IsNested (map a)) (hkeys : a.map (·.1) = b.map (·.1))
    (hvalues : ∀ k, lookup? a k = lookup? b k) : a = b :=
  ha.keysDiffer.ext ha.found hkeys hvalues

/-- At the end of a path stands the upper value over the lower one, if there are both. -/
theorem valueAt?_overlay (hy : IsNested y) (h : Agree x y) (path : List Datum) :
    valueAt? (overlay (some x) y) path = overlay? (valueAt? x path) (valueAt? y path) := by
  induction path generalizing x y with
  | nil => rfl
  | cons k path ih =>
      cases hmap : y.isMap with
      | false =>
          rw [overlay_of_not_isMap hmap, valueAt?_leaf_cons hmap,
            valueAt?_leaf_cons (h.isMap_eq.trans hmap)]
          rfl
      | true =>
          obtain ⟨b, rfl⟩ := exists_of_isMap hmap
          obtain ⟨a, rfl⟩ := exists_of_isMap (h.isMap_eq.trans hmap)
          rw [overlay_maps, valueAt?_map_cons, valueAt?_map_cons, valueAt?_map_cons,
            lookup?_overlayEntries hy.keysDiffer]
          cases hv : lookup? b k with
          | none => rfl
          | some v =>
              cases hu : lookup? a k with
              | none => rw [Option.bind_none, overlay?_none, overlay?_none]
              | some u => exact ih (hy.of_lookup? hv) (h.of_lookup? hu hv)

/-- A leaf is the upper one's, or else the lower one's. -/
theorem leafAt?_overlay (hy : IsNested y) (h : Agree x y) (path : List Datum) :
    leafAt? (overlay (some x) y) path = (leafAt? y path).or (leafAt? x path) := by
  rw [leafAt?, leafAt?, leafAt?, valueAt?_overlay hy h]
  cases hw : valueAt? y path with
  | none => rfl
  | some w =>
      cases hv : valueAt? x path with
      | none => rw [overlay?_none, Option.filter_none, Option.or_none]
      | some v =>
          have hagree : v.isMap = w.isMap := h path v w hv hw
          rw [overlay?, Option.filter_some, Option.filter_some, Option.filter_some, isMap_overlay,
            hagree]
          cases hmap : w.isMap with
          | false => rw [overlay_of_not_isMap hmap]; rfl
          | true => rfl

/-- The keys below stand in front of those that only the mapping above has. -/
theorem keysAt_overlay (hy : IsNested y) (h : Agree x y) (path : List Datum) :
    keysAt (overlay (some x) y) path
      = keysAt x path ++ (keysAt y path).filter (isNew (keysAt x path)) := by
  rw [keysAt, keysAt, keysAt, valueAt?_overlay hy h]
  cases hw : valueAt? y path with
  | none => exact (List.append_nil _).symm
  | some w =>
      cases hv : valueAt? x path with
      | none =>
          rw [overlay?_none]
          exact (List.filter_eq_self.mpr fun k _ => rfl).symm
      | some v => exact keys_overlay (hy.of_valueAt? hw) (h path v w hv hw)

/-- What is new among some keys and those of others that are new among them is new among both. -/
theorem isNew_append_filter (ks ls : List Datum) (k : Datum) :
    isNew (ks ++ ls.filter (isNew ks)) k = (isNew ks k && isNew ls k) := by
  rw [Bool.eq_iff_iff, Bool.and_eq_true, isNew_eq_true_iff, isNew_eq_true_iff, isNew_eq_true_iff,
    List.forall_mem_append]
  refine and_congr_right fun hks => ⟨fun hls l hl => ?_, fun hls l hl => ?_⟩
  · by_contra hsame
    have hsame : sameKey l k = true := Bool.not_eq_false _ ▸ hsame
    have hnew : isNew ks l = true :=
      isNew_eq_true_iff.mpr fun m hm => (sameKey_congr_right hsame m).trans (hks m hm)
    exact Bool.false_ne_true ((hls l (List.mem_filter.mpr ⟨hl, hnew⟩)).symm.trans hsame)
  · exact hls l (List.mem_filter.mp hl).1

/-- Of three mappings that agree, any two may be laid over one another first. -/
theorem overlay_assoc (hx : IsNested x) (hy : IsNested y) (hz : IsNested z) (hxy : Agree x y)
    (hxz : Agree x z) (hyz : Agree y z) :
    overlay (some (overlay (some x) y)) z = overlay (some x) (overlay (some y) z) := by
  induction hz generalizing x y with
  | leaf h => rw [overlay_of_not_isMap h, overlay_of_not_isMap h, overlay_of_not_isMap h]
  | @node c hc hfound hvalues ih =>
      obtain ⟨b, rfl⟩ := exists_of_isMap hyz.isMap_eq
      obtain ⟨a, rfl⟩ := exists_of_isMap hxy.isMap_eq
      have hz : IsNested (map c) := .node hc hfound hvalues
      have hbc := isNested_overlayEntries hy hz
      have habc := isNested_overlayEntries (isNested_overlayEntries hx hy) hz
      rw [overlay_maps, overlay_maps, overlay_maps, overlay_maps]
      refine congrArg map (habc.ext ?_ fun k => ?_)
      · have hnew := funext (isNew_append_filter (a.map (·.1)) (b.map (·.1)))
        rw [keys_overlayEntries hc, keys_overlayEntries hy.keysDiffer,
          keys_overlayEntries hbc.keysDiffer, keys_overlayEntries hc, List.filter_append,
          List.filter_filter, List.append_assoc, hnew]
      · rw [lookup?_overlayEntries hc, lookup?_overlayEntries hy.keysDiffer,
          lookup?_overlayEntries hbc.keysDiffer, lookup?_overlayEntries hc]
        cases hw : lookup? c k with
        | none => rfl
        | some w =>
            cases hv : lookup? b k with
            | none =>
                rw [overlay?_none]
                rfl
            | some v =>
                cases hu : lookup? a k with
                | none => rw [overlay?_none, overlay?_none]
                | some u =>
                    obtain ⟨f, hf, -, rfl⟩ := exists_mem_of_lookup? hw
                    exact congrArg some (ih f hf (hx.of_lookup? hu) (hy.of_lookup? hv)
                      (hxy.of_lookup? hu hv) (hxz.of_lookup? hu hw) (hyz.of_lookup? hv hw))

/-- No key of entries that were laid over is new. -/
theorem filter_isNew_overlayEntries (hb : IsNested (map b)) :
    (b.map (·.1)).filter (isNew ((overlayEntries a b).map (·.1))) = [] := by
  refine List.filter_eq_nil_iff.mpr fun k hk hnew => ?_
  rw [keys_overlayEntries hb.keysDiffer, isNew_append_filter, Bool.and_eq_true,
    isNew_eq_true_iff, isNew_eq_true_iff] at hnew
  obtain ⟨e, he, rfl⟩ := List.mem_map.mp hk
  exact Bool.false_ne_true ((hnew.2 e.1 hk).symm.trans (hb.found e he))

/-- To lay the same over once more changes nothing. -/
theorem overlay_overlay_self (hx : IsNested x) (hy : IsNested y) :
    overlay (some (overlay (some x) y)) y = overlay (some x) y := by
  induction hy generalizing x with
  | leaf h => rw [overlay_of_not_isMap h, overlay_of_not_isMap h]
  | @node b hb hfound hvalues ih =>
      have hy : IsNested (map b) := .node hb hfound hvalues
      have hentries : ∀ a, IsNested (map a) →
          overlayEntries (overlayEntries a b) b = overlayEntries a b := by
        intro a ha
        have hab := isNested_overlayEntries ha hy
        refine (isNested_overlayEntries hab hy).ext ?_ fun k => ?_
        · rw [keys_overlayEntries hb, filter_isNew_overlayEntries hy, List.append_nil]
        · rw [lookup?_overlayEntries hb, lookup?_overlayEntries hb]
          cases hv : lookup? b k with
          | none => rfl
          | some v =>
              obtain ⟨f, hf, -, rfl⟩ := exists_mem_of_lookup? hv
              cases hu : lookup? a k with
              | some u => exact congrArg some (ih f hf (ha.of_lookup? hu))
              | none =>
                  -- Over nothing it is the same as over a leaf.
                  have hleaf := ih f hf (.leaf (rfl : null.isMap = false))
                  have hover : overlay (some null) f.2 = f.2 := overlay_over_not_isMap rfl f.2
                  rw [hover] at hleaf
                  rw [overlay?, overlay?, overlay_none, hleaf]
      cases hmap : x.isMap with
      | true =>
          obtain ⟨a, rfl⟩ := exists_of_isMap hmap
          rw [overlay_maps, overlay_maps, hentries a hx]
      | false =>
          have hnil := hentries [] (.node .nil (List.forall_mem_nil _) (List.forall_mem_nil _))
          rw [overlayEntries_nil_left hb hfound] at hnil
          rw [overlay_over_not_isMap hmap, overlay_maps, hnil]

/-- Nested mappings that agree are laid over one another leaf by leaf: a leaf is the one above, or
else the one below, and there is no other. Any two of three may be laid over one another first, the
same one laid over twice is as good as once, and at the end of every path the keys below come before
those that only the mapping above has. -/
theorem overlayEntries_laws (ha : IsNested (map a)) (hb : IsNested (map b)) (hc : IsNested (map c))
    (hab : Agree (map a) (map b)) (hac : Agree (map a) (map c)) (hbc : Agree (map b) (map c)) :
    (∀ path, leafAt? (map (overlayEntries a b)) path
        = (leafAt? (map b) path).or (leafAt? (map a) path))
      ∧ overlayEntries (overlayEntries a b) c = overlayEntries a (overlayEntries b c)
      ∧ overlayEntries (overlayEntries a b) b = overlayEntries a b
      ∧ ∀ path, keysAt (map (overlayEntries a b)) path
        = keysAt (map a) path ++ (keysAt (map b) path).filter (isNew (keysAt (map a) path)) := by
  have hassoc := overlay_assoc ha hb hc hab hac hbc
  have hself := overlay_overlay_self ha hb
  rw [overlay_maps, overlay_maps, overlay_maps, overlay_maps] at hassoc
  rw [overlay_maps, overlay_maps] at hself
  refine ⟨fun path => ?_, map.inj hassoc, map.inj hself, fun path => ?_⟩
  · rw [← overlay_maps]
    exact leafAt?_overlay hb hab path
  · rw [← overlay_maps]
    exact keysAt_overlay hb hab path

/-- A mapping without mappings in it, whose keys differ and can be found. -/
def IsFlat (es : List (Datum × Datum)) : Prop :=
  KeysDiffer es ∧ ∀ e ∈ es, sameKey e.1 e.1 = true ∧ e.2.isMap = false

/-- A mapping of flat mappings, whose keys differ and can be found. -/
def IsSectioned (es : List (Datum × Datum)) : Prop :=
  KeysDiffer es ∧ ∀ e ∈ es, sameKey e.1 e.1 = true ∧ ∃ inner, e.2 = map inner ∧ IsFlat inner

instance (es : List (Datum × Datum)) : Decidable (IsFlat es) :=
  inferInstanceAs (Decidable (_ ∧ _))

instance (es : List (Datum × Datum)) : Decidable (IsSectioned es) :=
  inferInstanceAs (Decidable (_ ∧ _))

theorem IsFlat.isNested (h : IsFlat es) : IsNested (map es) :=
  .node h.1 (fun e he => (h.2 e he).1) fun e he => .leaf (h.2 e he).2

theorem IsSectioned.isNested (h : IsSectioned es) : IsNested (map es) := by
  refine .node h.1 (fun e he => (h.2 e he).1) fun e he => ?_
  obtain ⟨-, inner, heq, hinner⟩ := h.2 e he
  exact heq ▸ hinner.isNested

/-- Sections agree, as all of them are mappings and nothing in them is one. -/
theorem IsSectioned.agree (ha : IsSectioned a) (hb : IsSectioned b) :
    Agree (map a) (map b) := by
  refine agree_maps fun e he f hf _ => ?_
  obtain ⟨-, x, hx, hxFlat⟩ := ha.2 e he
  obtain ⟨-, y, hy, hyFlat⟩ := hb.2 f hf
  rw [hx, hy]
  exact agree_maps fun e he f hf _ => agree_leaves (hxFlat.2 e he).2 (hyFlat.2 f hf).2

/-- The settings of a user: one section. -/
def userLayer : List (Datum × Datum) :=
  [(text "output", map [(text "format", text "yaml"), (text "indent", int 4)])]

/-- The settings of a project: a part of the same section, and one that is empty. -/
def projectLayer : List (Datum × Datum) :=
  [(text "output", map [(text "indent", int 0)]), (text "extraction", map [])]

/-- Settings that are given last: the same section behind a new one. -/
def lastLayer : List (Datum × Datum) :=
  [(text "logging", map [(text "level", text "debug")]),
    (text "output", map [(text "format", text "json")])]

theorem overlayEntries_laws_layers :
    (IsSectioned userLayer ∧ IsSectioned projectLayer ∧ IsSectioned lastLayer)
      ∧ leafAt? (map (overlayEntries userLayer projectLayer)) [text "output", text "indent"]
        = some (int 0)
      ∧ leafAt? (map (overlayEntries userLayer projectLayer)) [text "output", text "format"]
        = some (text "yaml")
      ∧ overlayEntries (overlayEntries userLayer projectLayer) lastLayer
        = overlayEntries userLayer (overlayEntries projectLayer lastLayer)
      ∧ overlayEntries (overlayEntries userLayer projectLayer) projectLayer
        = overlayEntries userLayer projectLayer
      ∧ keysAt (map (overlayEntries userLayer projectLayer)) []
        = [text "output", text "extraction"] := by
  have huser : IsSectioned userLayer := by decide
  have hproject : IsSectioned projectLayer := by decide
  have hlast : IsSectioned lastLayer := by decide
  obtain ⟨hleaf, hassoc, hself, hkeys⟩ :=
    overlayEntries_laws huser.isNested hproject.isNested hlast.isNested (huser.agree hproject)
      (huser.agree hlast) (hproject.agree hlast)
  refine ⟨⟨huser, hproject, hlast⟩, ?_, ?_, hassoc, hself, ?_⟩
  · rw [hleaf]
    rfl
  · rw [hleaf]
    rfl
  · rw [hkeys]
    rfl

end DocTags.Datum
