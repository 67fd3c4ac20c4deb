import DocTags.Proofs.Datum.Entries
import DocTags.Proofs.Decimal.Binary64
import Mathlib.Data.List.Basic

/-!
# Keys of mappings

Two keys are the same if the same thing tells them apart from others. A key that nothing tells
apart, such as the value that is no number, is the same as no key at all, not even itself. So being
the same is symmetric and transitive, and the value under a key can be found by any key that is the
same.
-/

namespace DocTags

namespace Datum

/-- What a key is told apart by. -/
inductive KeyClass where
  | null
  | text (s : String)
  | moment (instant : Moment ⊕ Int × Nat × Nat)
  | octets (bs : List UInt8)
  | tuple (items : List KeyClass)
  | infinite (negative : Bool)
  | number (units : Int)

/-- What a moment is told apart by: the instant, if it says how far it is ahead. -/
def instantOf (m : Moment) : Moment ⊕ Int × Nat × Nat :=
  match m.clock with
  | some c =>
    match c.offset with
    | some o => .inr (m.instant c o, c.second, c.micro)
    | none => .inl m
  | none => .inl m

mutual

/-- What a value is told apart by as a key, if it can be the same as another one. -/
def keyClass? : Datum → Option KeyClass
  | null => some .null
  | text s => some (.text s)
  | moment m => some (.moment (instantOf m))
  | bytes _ bs => some (.octets bs)
  | tuple xs => (keyClasses? xs).map .tuple
  | real (.infinite negative) => some (.infinite negative)
  | d => (keyUnits? d).map .number

/-- What values are told apart by one by one. -/
def keyClasses? : List Datum → Option (List KeyClass)
  | [] => some []
  | x :: xs => (keyClass? x).bind fun c => (keyClasses? xs).map (c :: ·)

end

variable {x y k l m v : Datum} {c : KeyClass} {e : Datum × Datum} {es fs : List (Datum × Datum)}

theorem same_iff (m n : Moment) : m.same n = true ↔ instantOf m = instantOf n := by
  rcases m with ⟨y, mo, d, _ | ⟨h, mi, s, u, _ | o⟩⟩ <;>
    rcases n with ⟨y', mo', d', _ | ⟨h', mi', s', u', _ | o'⟩⟩ <;>
      simp [Moment.same, instantOf, and_assoc]

theorem keyClass?_of_keyUnits? {u : Int} (h : keyUnits? x = some u) :
    keyClass? x = some (.number u) := by
  cases x with
  | bool | int => rw [keyClass?, h, Option.map_some] <;> nofun
  | real a =>
      cases a with
      | finite => rw [keyClass?, h, Option.map_some] <;> nofun
      | _ => cases h
  | _ => cases h

/-- The values that something can tell apart. -/
def KeyClass.Fits (x : Datum) : KeyClass → Prop
  | null => x = .null
  | text s => x = .text s
  | moment _ => ∃ m, x = .moment m
  | octets bs => ∃ growable, x = .bytes growable bs
  | tuple _ => ∃ xs, x = .tuple xs
  | infinite negative => x = .real (.infinite negative)
  | number u => keyUnits? x = some u

theorem fits_of_keyClass? (h : keyClass? x = some c) : c.Fits x := by
  fun_cases keyClass? x with
  | case1 =>
      obtain rfl := Option.some.inj h
      rfl
  | case2 s =>
      obtain rfl := Option.some.inj h
      rfl
  | case3 m =>
      obtain rfl := Option.some.inj h
      exact ⟨m, rfl⟩
  | case4 growable bs =>
      obtain rfl := Option.some.inj h
      exact ⟨growable, rfl⟩
  | case5 xs =>
      obtain ⟨cs, -, rfl⟩ := Option.map_eq_some_iff.mp h
      exact ⟨xs, rfl⟩
  | case6 negative =>
      obtain rfl := Option.some.inj h
      rfl
  | case7 =>
      rw [keyClass?] at h <;> try assumption
      obtain ⟨u, hu, rfl⟩ := Option.map_eq_some_iff.mp h
      exact hu

theorem exists_both_iff {a b : KeyClass} :
    (∃ c, some a = some c ∧ some b = some c) ↔ a = b := by
  constructor
  · rintro ⟨c, ha, hb⟩
    exact Option.some.inj (ha.trans hb.symm)
  · rintro rfl
    exact ⟨a, rfl, rfl⟩

mutual

/-- Two keys are the same if something tells both of them apart and it is the same thing. -/
theorem sameKey_iff (x y : Datum) :
    sameKey x y = true ↔ ∃ c, keyClass? x = some c ∧ keyClass? y = some c := by
  fun_cases sameKey x y with
  | case1 => exact iff_of_true rfl (exists_both_iff.mpr rfl)
  | case2 s t => rw [beq_iff_eq, keyClass?, keyClass?, exists_both_iff, KeyClass.text.injEq]
  | case3 m n => rw [same_iff, keyClass?, keyClass?, exists_both_iff, KeyClass.moment.injEq]
  | case4 _ bs _ cs =>
      rw [beq_iff_eq, keyClass?, keyClass?, exists_both_iff, KeyClass.octets.injEq]
  | case5 xs ys =>
      simp only [sameKeys_iff xs ys, keyClass?, Option.map_eq_some_iff]
      constructor
      · rintro ⟨cs, hxs, hys⟩
        exact ⟨.tuple cs, ⟨cs, hxs, rfl⟩, cs, hys, rfl⟩
      · rintro ⟨-, ⟨cs, hxs, rfl⟩, ds, hys, heq⟩
        exact ⟨cs, hxs, KeyClass.tuple.inj heq ▸ hys⟩
  | case6 m n =>
      have hpos : (Nat.pow 2 Binary64.unitBits : Int) ≠ 0 :=
        Int.natCast_ne_zero.mpr (Nat.ne_of_gt (Binary64.two_pow_pos _))
      have hm : keyClass? (int m) = some (.number (m * Nat.pow 2 Binary64.unitBits)) :=
        keyClass?_of_keyUnits? rfl
      have hn : keyClass? (int n) = some (.number (n * Nat.pow 2 Binary64.unitBits)) :=
        keyClass?_of_keyUnits? rfl
      rw [beq_iff_eq, hm, hn, exists_both_iff, KeyClass.number.injEq]
      exact (Int.mul_eq_mul_right_iff hpos).symm
  | case7 a b => rw [beq_iff_eq, keyClass?, keyClass?, exists_both_iff, KeyClass.infinite.injEq]
  | case8 x y _ _ _ _ _ _ _ u v hu hv =>
      rw [beq_iff_eq, keyClass?_of_keyUnits? hu, keyClass?_of_keyUnits? hv, exists_both_iff,
        KeyClass.number.injEq]
  | case9 x y hnull htext hmoment hbytes htuple _ hinfinite hunits =>
      refine iff_of_false Bool.false_ne_true ?_
      rintro ⟨c, hx, hy⟩
      have hx := fits_of_keyClass? hx
      have hy := fits_of_keyClass? hy
      cases c with
      | null => exact hnull hx hy
      | text s => exact htext s s hx hy
      | moment =>
          obtain ⟨m, rfl⟩ := hx
          obtain ⟨n, rfl⟩ := hy
          exact hmoment m n rfl rfl
      | octets bs =>
          obtain ⟨growable, rfl⟩ := hx
          obtain ⟨growable', rfl⟩ := hy
          exact hbytes growable bs growable' bs rfl rfl
      | tuple =>
          obtain ⟨xs, rfl⟩ := hx
          obtain ⟨ys, rfl⟩ := hy
          exact htuple xs ys rfl rfl
      | infinite negative => exact hinfinite negative negative hx hy
      | number u => exact hunits u u hx hy

theorem sameKeys_iff : ∀ xs ys : List Datum,
    sameKeys xs ys = true ↔ ∃ cs, keyClasses? xs = some cs ∧ keyClasses? ys = some cs
  | [], [] => by simp [sameKeys, keyClasses?]
  | [], _ :: _ => by simp [sameKeys, keyClasses?, Option.bind_eq_some_iff]
  | _ :: _, [] => by simp [sameKeys, keyClasses?, Option.bind_eq_some_iff]
  | x :: xs, y :: ys => by
      simp only [sameKeys, keyClasses?, sameKey_iff x y, sameKeys_iff xs ys, Bool.and_eq_true,
        Option.bind_eq_some_iff, Option.map_eq_some_iff]
      constructor
      · rintro ⟨⟨c, hx, hy⟩, cs, hxs, hys⟩
        exact ⟨c :: cs, ⟨c, hx, cs, hxs, rfl⟩, c, hy, cs, hys, rfl⟩
      · rintro ⟨-, ⟨c, hx, cs, hxs, rfl⟩, d, hy, ds, hys, heq⟩
        obtain ⟨rfl, rfl⟩ := List.cons.inj heq
        exact ⟨⟨d, hx, hy⟩, ds, hxs, hys⟩

end

theorem sameKey_comm (k l : Datum) : sameKey k l = sameKey l k := by
  rw [Bool.eq_iff_iff, sameKey_iff, sameKey_iff]
  exact exists_congr fun c => and_comm

theorem sameKey_trans (hkl : sameKey k l = true) (hlm : sameKey l m = true) :
    sameKey k m = true := by
  obtain ⟨c, hk, hl⟩ := (sameKey_iff k l).mp hkl
  obtain ⟨d, hl', hm⟩ := (sameKey_iff l m).mp hlm
  obtain rfl := Option.some.inj (hl.symm.trans hl')
  exact (sameKey_iff k m).mpr ⟨c, hk, hm⟩

theorem sameKey_congr_right (h : sameKey k l = true) (m : Datum) : sameKey m k = sameKey m l := by
  rw [Bool.eq_iff_iff]
  exact ⟨fun hm => sameKey_trans hm h, fun hm => sameKey_trans hm (sameKey_comm k l ▸ h)⟩

theorem sameKey_congr_left (h : sameKey k l = true) (m : Datum) : sameKey k m = sameKey l m := by
  rw [sameKey_comm k m, sameKey_comm l m, sameKey_congr_right h]

instance (es : List (Datum × Datum)) : Decidable (KeysDiffer es) :=
  inferInstanceAs (Decidable (es.Pairwise _))

theorem lookup?_cons (e : Datum × Datum) (es : List (Datum × Datum)) (k : Datum) :
    lookup? (e :: es) k = if sameKey e.1 k = true then some e.2 else lookup? es k := by
  rw [lookup?, List.find?_cons]
  cases h : sameKey e.1 k <;> simp [lookup?]

theorem lookup?_congr (h : sameKey k l = true) (es : List (Datum × Datum)) :
    lookup? es k = lookup? es l := by
  simp only [lookup?, sameKey_congr_right h]

theorem lookup?_eq_none_iff : lookup? es k = none ↔ ∀ e ∈ es, sameKey e.1 k = false := by
  simp [lookup?]

theorem exists_mem_of_lookup? (h : lookup? es k = some v) :
    ∃ e ∈ es, sameKey e.1 k = true ∧ e.2 = v := by
  obtain ⟨e, he, rfl⟩ := Option.map_eq_some_iff.mp h
  exact ⟨e, List.mem_of_find?_eq_some he, by simpa using List.find?_some he, rfl⟩

theorem KeysDiffer.lookup?_eq_none (h : KeysDiffer (e :: es)) (hk : sameKey e.1 k = true) :
    lookup? es k = none := by
  refine lookup?_eq_none_iff.mpr fun f hf => ?_
  rw [← sameKey_congr_right hk, sameKey_comm]
  exact (List.pairwise_cons.mp h).1 f hf

/-- Under the key of an entry stands its value, if the keys differ and this one can be found. -/
theorem KeysDiffer.lookup?_of_mem (h : KeysDiffer es) (he : e ∈ es)
    (hfound : sameKey e.1 e.1 = true) : lookup? es e.1 = some e.2 := by
  induction es with
  | nil => exact absurd he List.not_mem_nil
  | cons f es ih =>
      rw [lookup?_cons]
      rcases List.mem_cons.mp he with rfl | he
      · rw [if_pos hfound]
      · have hne : sameKey f.1 e.1 = false := (List.pairwise_cons.mp h).1 e he
        rw [hne, if_neg Bool.false_ne_true, ih h.of_cons he]

theorem lookup?_insertEntry (es : List (Datum × Datum)) (k v l : Datum) :
    lookup? (insertEntry es k v) l = if sameKey k l = true then some v else lookup? es l := by
  induction es with
  | nil => rw [insertEntry_nil, lookup?_cons]
  | cons e es ih =>
      rw [insertEntry_cons]
      by_cases hk : sameKey e.1 k = true
      · rw [if_pos hk, lookup?_cons, lookup?_cons, sameKey_congr_left hk l]
        by_cases hl : sameKey k l = true
        · rw [if_pos hl, if_pos hl]
        · rw [if_neg hl, if_neg hl, if_neg hl]
      · rw [if_neg hk, lookup?_cons, lookup?_cons, ih]
        by_cases hl : sameKey e.1 l = true
        · have hne : ¬ sameKey k l = true := fun h =>
            hk ((sameKey_congr_right h e.1).trans hl)
          rw [if_pos hl, if_neg hne, if_pos hl]
        · rw [if_neg hl, if_neg hl]

/-- The key is none of the given ones. -/
def isNew (ks : List Datum) (k : Datum) : Bool :=
  !ks.any fun l => sameKey l k

theorem isNew_eq_true_iff {ks : List Datum} :
    isNew ks k = true ↔ ∀ l ∈ ks, sameKey l k = false := by
  simp [isNew]

theorem keysDiffer_iff :
    KeysDiffer es ↔ (es.map (·.1)).Pairwise fun k l => sameKey k l = false := by
  rw [KeysDiffer, List.pairwise_map]

/-- A new key goes to the end. -/
theorem keys_insertEntry (es : List (Datum × Datum)) (k v : Datum) :
    (insertEntry es k v).map (·.1)
      = es.map (·.1) ++ [k].filter (isNew (es.map (·.1))) := by
  induction es with
  | nil => rfl
  | cons e es ih =>
      rw [insertEntry_cons]
      by_cases hk : sameKey e.1 k = true
      · simp [isNew, hk]
      · have hk' : sameKey e.1 k = false := Bool.not_eq_true _ ▸ hk
        have hnew : isNew (e.1 :: es.map (·.1)) k = isNew (es.map (·.1)) k := by
          rw [isNew, isNew, List.any_cons, hk', Bool.false_or]
        rw [if_neg hk, List.map_cons, ih, List.map_cons, List.cons_append, List.filter_singleton,
          List.filter_singleton, hnew]

/-- Entries are given by their keys and by what stands under them. -/
theorem KeysDiffer.eq_filterMap (h : KeysDiffer es) (hfound : ∀ e ∈ es, sameKey e.1 e.1 = true) :
    es = (es.map (·.1)).filterMap fun k => (lookup? es k).map fun v => (k, v) := by
  rw [List.filterMap_map]
  have hself : ∀ e ∈ es, ((lookup? es e.1).map fun v => (e.1, v)) = some e := by
    intro e he
    rw [h.lookup?_of_mem he (hfound e he), Option.map_some]
  calc es = es.filterMap some := List.filterMap_some.symm
    _ = _ := List.filterMap_congr fun e he => (hself e he).symm

/-- Entries with the same keys and the same values under them are the same. -/
theorem KeysDiffer.ext (h : KeysDiffer es) (hfound : ∀ e ∈ es, sameKey e.1 e.1 = true)
    (hkeys : es.map (·.1) = fs.map (·.1)) (hvalues : ∀ k, lookup? es k = lookup? fs k) :
    es = fs := by
  have hfs : KeysDiffer fs := keysDiffer_iff.mpr (hkeys ▸ keysDiffer_iff.mp h)
  have hfoundFs : ∀ f ∈ fs, sameKey f.1 f.1 = true := by
    rw [← List.forall_mem_map (P := fun k => sameKey k k = true), ← hkeys, List.forall_mem_map]
    exact hfound
  rw [h.eq_filterMap hfound, hfs.eq_filterMap hfoundFs, hkeys]
  simp only [hvalues]

end Datum

end DocTags
