import Mathlib.Data.List.TakeWhile
import DocTags.Proofs.Fallible
import DocTags.Proofs.Json.Grammar

/-!
# What the reader accepts

What is read as a value without objects denotes this value by the grammar. So on the texts on which
no limit of the reader is hit, reading is exactly the grammar.
-/

namespace DocTags.Json

variable {s r : List Char}

/-- Digits that have been read are a numeral. -/
theorem exists_of_spanDigits {ds : List Nat} (h : spanDigits s = (ds, r)) (hne : ds ≠ []) :
    ∃ n : Numeral, s = n.digits ++ r ∧ n.digits.map (fun c => c.toNat - 48) = ds := by
  rw [spanDigits, Prod.mk.injEq] at h
  obtain ⟨hdigits, hrest⟩ := h
  have htaken : s.takeWhile Char.isDigit ≠ [] := by
    intro hnil
    rw [hnil] at hdigits
    exact hne hdigits.symm
  refine ⟨⟨s.takeWhile Char.isDigit, htaken, fun c hc => List.mem_takeWhile_imp hc⟩, ?_, hdigits⟩
  rw [← hrest]
  exact List.takeWhile_append_dropWhile.symm

theorem exists_of_readWhole? {ds : List Nat} (h : readWhole? s = some (ds, r)) :
    ∃ n : Numeral, s = n.digits ++ r ∧ n.digits.map (fun c => c.toNat - 48) = ds
      ∧ (n.digits.head? = some '0' → n.digits = ['0']) := by
  rw [readWhole?.eq_def] at h
  split at h
  · cases h
    exact ⟨⟨['0'], by simp, by decide⟩, rfl, rfl, fun _ => rfl⟩
  · next hzero =>
      split at h
      · cases h
      · next hspan =>
          have hread : spanDigits s = (ds, r) := Option.some.inj h
          have hne : ds ≠ [] := by
            rintro rfl
            exact hspan r hread
          obtain ⟨n, hn, hdigits⟩ := exists_of_spanDigits hread hne
          refine ⟨n, hn, hdigits, fun hhead => ?_⟩
          obtain ⟨t, ht⟩ := List.head?_eq_some_iff.mp hhead
          exact (hzero (t ++ r) (by rw [hn, ht, List.cons_append])).elim

theorem exists_of_readFraction? {ds : List Nat} (h : readFraction? s = some (ds, r)) :
    ∃ n : Numeral, s = WrittenNumber.fractionText (some n) ++ r
      ∧ n.digits.map (fun c => c.toNat - 48) = ds := by
  rw [readFraction?.eq_def] at h
  split at h
  · split at h
    · cases h
    · next hspan =>
        have hread := Option.some.inj h
        have hne : ds ≠ [] := by
          rintro rfl
          exact hspan r hread
        obtain ⟨n, rfl, hdigits⟩ := exists_of_spanDigits hread hne
        exact ⟨n, rfl, hdigits⟩
  · cases h

theorem splitSign_eq {negative : Bool} (h : Decimal.splitSign s = (negative, r)) :
    ∃ sign, s = sign ++ r ∧ (sign = [] ∨ sign = ['+'] ∨ sign = ['-'])
      ∧ decide (sign = ['-']) = negative := by
  rw [Decimal.splitSign.eq_def] at h
  split at h
  · cases h
    exact ⟨['-'], rfl, .inr (.inr rfl), rfl⟩
  · cases h
    exact ⟨['+'], rfl, .inr (.inl rfl), rfl⟩
  · cases h
    exact ⟨[], rfl, .inl rfl, rfl⟩

theorem exists_of_readExponent? {e : Int} (h : readExponent? s = some (e, r)) :
    ∃ x : Exponent, s = WrittenNumber.exponentText (some x) ++ r ∧ x.value = e := by
  rw [readExponent?.eq_def] at h
  split at h
  · next letter t =>
      split at h
      · next hletter =>
          obtain ⟨⟨negative, u⟩, hsign⟩ : ∃ p, Decimal.splitSign t = p := ⟨_, rfl⟩
          rw [hsign] at h
          simp only at h
          split at h
          · cases h
          · next ds rest hspan hread =>
              cases h
              obtain ⟨sign, rfl, hforms, hnegative⟩ := splitSign_eq hsign
              have hne : ds ≠ [] := by
                rintro rfl
                exact hspan rfl
              obtain ⟨n, rfl, hdigits⟩ := exists_of_spanDigits hread hne
              refine ⟨⟨letter, hletter, sign, hforms, n⟩, ?_, ?_⟩
              · simp [WrittenNumber.exponentText, Exponent.text]
              · rw [Exponent.value, Numeral.value, hdigits, ← hnegative]
      · cases h
  · cases h

theorem eq_ofDigits_of_readDigits {ds : List Nat} {n : Nat} (h : Decimal.readDigits ds = .ok n) :
    n = Decimal.ofDigits ds := by
  rw [Decimal.readDigits] at h
  split at h
  · exact (Except.ok.inj h).symm
  · cases h

/-- A number that has been read behind its sign is a written one. -/
theorem exists_of_readUnsigned {negative : Bool} {d : Datum}
    (h : readUnsigned negative s = .ok (d, r)) :
    ∃ w : WrittenNumber, w.isNegative = negative ∧ w.value = d
      ∧ s = w.whole.digits ++ (WrittenNumber.fractionText w.fraction
        ++ WrittenNumber.exponentText w.exponent) ++ r := by
  rw [readUnsigned] at h
  split at h
  · cases h
  · next ds t hwhole =>
      obtain ⟨whole, rfl, hdigits, hzero⟩ := exists_of_readWhole? hwhole
      split at h
      · split at h
        · next n hread =>
            cases h
            refine ⟨⟨negative, whole, hzero, none, none⟩, rfl, ?_, ?_⟩
            · rw [eq_ofDigits_of_readDigits hread]
              simp only [WrittenNumber.value, Numeral.value, hdigits]
            · simp [WrittenNumber.fractionText, WrittenNumber.exponentText]
        · cases h
      · next e u hfraction hexponent =>
          cases h
          obtain ⟨x, rfl, rfl⟩ := exists_of_readExponent? hexponent
          refine ⟨⟨negative, whole, hzero, none, some x⟩, rfl, ?_, ?_⟩
          · simp only [WrittenNumber.value, Numeral.value, hdigits]
          · simp [WrittenNumber.fractionText]
      · next part u hfraction =>
          obtain ⟨n, rfl, hpart⟩ := exists_of_readFraction? hfraction
          have hall : (whole.digits ++ n.digits).map (fun c => c.toNat - 48) = ds ++ part := by
            rw [List.map_append, hdigits, hpart]
          have hlength : n.digits.length = part.length := by
            rw [← hpart, List.length_map]
          cases hexponent : readExponent? u with
          | none =>
              rw [hexponent] at h
              cases h
              refine ⟨⟨negative, whole, hzero, some n, none⟩, rfl, ?_, ?_⟩
              · simp only [WrittenNumber.value, hall, hlength, Option.map_none, Option.getD_none]
              · simp [WrittenNumber.exponentText]
          | some found =>
              rw [hexponent] at h
              cases h
              obtain ⟨x, rfl, hx⟩ := exists_of_readExponent? hexponent
              refine ⟨⟨negative, whole, hzero, some n, some x⟩, rfl, ?_, ?_⟩
              · simp only [WrittenNumber.value, hall, hlength, hx, Option.map_some,
                  Option.getD_some]
              · simp

theorem exists_of_readNumber {d : Datum} (h : readNumber s = .ok (d, r)) :
    ∃ w : WrittenNumber, s = w.text ++ r ∧ w.value = d := by
  cases s with
  | nil => cases h
  | cons c t =>
      by_cases hc : c = '-'
      · subst hc
        rw [readNumber_minus] at h
        obtain ⟨w, hsign, hvalue, rfl⟩ := exists_of_readUnsigned h
        exact ⟨w, by simp [WrittenNumber.text, hsign], hvalue⟩
      · rw [readNumber_of_ne hc] at h
        obtain ⟨w, hsign, hvalue, htext⟩ := exists_of_readUnsigned h
        exact ⟨w, by rw [htext]; simp [WrittenNumber.text, hsign], hvalue⟩

theorem exists_of_map_holding {n : Nat} {t : List Char}
    {x : Except Fault (List Char × List Char)} (h : x.map (holding n) = .ok (t, r)) :
    ∃ t', x = .ok (t', r) ∧ t = Text.charsOf n ++ t' := by
  obtain ⟨⟨t', r'⟩, hx, hheld⟩ := exists_of_map_eq_ok h
  obtain ⟨rfl, rfl⟩ := Prod.mk.inj hheld
  exact ⟨t', hx, rfl⟩

/-- A code escape in front of what has been read. -/
theorem exists_spells_code {a b c d : Char} {n : Nat} {t : List Char}
    (hn : hexCode? a b c d = some n)
    (hpair : ∀ u, s = u ++ '"' :: r → ¬ (Text.isHigh n = true ∧ StartsLow u))
    (h : ∃ u, s = u ++ '"' :: r ∧ Spells u t) :
    ∃ u, '\\' :: 'u' :: a :: b :: c :: d :: s = u ++ '"' :: r
      ∧ Spells u (Text.charsOf n ++ t) := by
  obtain ⟨u, hu, hspells⟩ := h
  refine ⟨_, ?_, .code a b c d hn (hpair u hu) hspells⟩
  rw [hu]
  rfl

/-- What has been read up to a quote is a spelling. -/
theorem exists_of_readText {t : List Char} (h : readText s = .ok (t, r)) :
    ∃ u, s = u ++ '"' :: r ∧ Spells u t := by
  fun_induction readText s generalizing t r with
  | case1 => cases h
  | case2 s =>
      cases h
      exact ⟨[], rfl, .nil⟩
  | case3 => cases h
  | case4 => cases h
  | case5 a b c d a' b' c' d' e s n hn hhigh m hm hlow ih =>
      obtain ⟨t', hread, ht⟩ := exists_of_map_holding h
      obtain ⟨u, hu, hspells⟩ := ih hread
      rw [ht]
      refine ⟨_, ?_, .pair a b c d a' b' c' d' hn hhigh hm hlow hspells⟩
      rw [hu]
      rfl
  | case6 a b c d a' b' c' d' e s n hn hhigh m hm hlow ih =>
      obtain ⟨t', hread, rfl⟩ := exists_of_map_holding h
      refine exists_spells_code hn ?_ (ih hread)
      rintro u hu ⟨-, x, y, z, w, v, k, rfl, hk, hlow'⟩
      simp only [List.cons_append, List.cons.injEq, true_and] at hu
      obtain ⟨rfl, rfl, rfl, rfl, -⟩ := hu
      rw [hm] at hk
      cases hk
      exact hlow hlow'
  | case7 a b c d a' b' c' d' e s n hn hhigh ih =>
      obtain ⟨t', hread, rfl⟩ := exists_of_map_holding h
      exact exists_spells_code hn (fun u _ hboth => hhigh hboth.1) (ih hread)
  | case8 => cases h
  | case9 a b c d e s hnext n hn ih =>
      obtain ⟨t', hread, rfl⟩ := exists_of_map_holding h
      refine exists_spells_code hn ?_ (ih hread)
      rintro u hu ⟨-, x, y, z, w, v, k, rfl, -, -⟩
      simp only [List.cons_append, List.cons.injEq] at hu
      obtain ⟨he, hs⟩ := hu
      obtain ⟨f, v', hv⟩ := List.exists_cons_of_ne_nil (append_quote_ne_nil v r)
      rw [hv] at hs
      exact hnext x y z w f v' he hs
  | case10 => cases h
  | case11 => cases h
  | case12 l s _ _ _ a ha ih =>
      obtain ⟨⟨t', r'⟩, hread, hcons⟩ := exists_of_map_eq_ok h
      obtain ⟨rfl, rfl⟩ := Prod.mk.inj hcons
      obtain ⟨u, rfl, hspells⟩ := ih hread
      exact ⟨_, rfl, .letter l ha hspells⟩
  | case13 => cases h
  | case14 => cases h
  | case15 c s hquote _ _ _ hcode hlast hcontrol ih =>
      obtain ⟨⟨t', r'⟩, hread, hcons⟩ := exists_of_map_eq_ok h
      obtain ⟨rfl, rfl⟩ := Prod.mk.inj hcons
      obtain ⟨u, rfl, hspells⟩ := ih hread
      refine ⟨_, rfl, .plain c ⟨Nat.not_lt.mp hcontrol, hquote, fun hc => ?_⟩ hspells⟩
      obtain ⟨x, v, hv⟩ := List.exists_cons_of_ne_nil (append_quote_ne_nil u r')
      exact hcode x v hc hv

/-- Neither objects nor the names of numbers that are not finite are taken. -/
def Policy.IsStrict (policy : Policy) : Prop :=
  policy.objects = false ∧ policy.nonFinite = false

theorem Policy.isStrict_literals (depth : Nat) : (Policy.literals depth).IsStrict :=
  ⟨rfl, rfl⟩

/-- Skipped blanks are a gap. -/
theorem exists_gap (s : List Char) : ∃ g, IsGap g ∧ s = g ++ skip s :=
  ⟨s.takeWhile isSpace, fun _ hc => List.mem_takeWhile_imp hc,
    List.takeWhile_append_dropWhile.symm⟩

theorem nonFinite_ne_ok {policy : Policy} (h : policy.IsStrict) {name : String} {x : Binary64}
    {rest : List Char} {v : Datum × List Char} : nonFinite policy name x rest ≠ .ok v := by
  rw [nonFinite, h.2, if_neg Bool.false_ne_true]
  exact error_ne_ok

/-- An object is not taken. -/
theorem readValue_object_ne_ok {policy : Policy} (h : policy.IsStrict) {fuel : Nat}
    {v : Datum × List Char} : readValue policy (fuel + 1) ('\x7b' :: s) ≠ .ok v := by
  rw [readValue]
  split
  · exact error_ne_ok
  · split
    · rw [h.1]
      exact error_ne_ok
    · split
      · exact error_ne_ok
      · rw [h.1]
        exact error_ne_ok

/-- What a strict reader takes from the front of a text, the value that it makes of it, and the text
that is left. -/
inductive ReadsValue (policy : Policy) (fuel : Nat) : List Char → Datum → List Char → Prop
  | null (r : List Char) : ReadsValue policy fuel ("null".toList ++ r) .null r
  | bool (b : Bool) (r : List Char) :
      ReadsValue policy fuel ((if b then "true".toList else "false".toList) ++ r) (.bool b) r
  | number (w : WrittenNumber) {r : List Char} (h : readNumber (w.text ++ r) = .ok (w.value, r)) :
      ReadsValue policy fuel (w.text ++ r) w.value r
  | text {spelling letters : List Char} (h : Spells spelling letters) (r : List Char) :
      ReadsValue policy fuel ('"' :: (spelling ++ '"' :: r)) (.text (String.ofList letters)) r
  | emptyList {g : List Char} (hdepth : policy.depth ≠ 0) (hg : IsGap g) (r : List Char) :
      ReadsValue policy fuel ('[' :: (g ++ ']' :: r)) (.list []) r
  | list {g t r : List Char} {xs : List Datum} (hdepth : policy.depth ≠ 0) (hg : IsGap g)
      (h : readItems policy.inner fuel t = .ok (xs, r)) :
      ReadsValue policy fuel ('[' :: (g ++ t)) (.list xs) r

/-- Behind an opening bracket a list is read that is empty, or that has items. -/
theorem readsValue_of_readValue_list {policy : Policy} {fuel : Nat} {d : Datum}
    (h : readValue policy (fuel + 1) ('[' :: s) = .ok (d, r)) :
    ReadsValue policy fuel ('[' :: s) d r := by
  obtain ⟨g, hg, hs⟩ := exists_gap s
  rw [readValue] at h
  split at h
  · cases h
  · next hdepth =>
      split at h
      · next t hclose =>
          cases h
          rw [hs, hclose]
          exact .emptyList hdepth hg r
      · obtain ⟨⟨xs, r'⟩, hitems, hlist⟩ := exists_of_map_eq_ok h
        cases hlist
        rw [hs]
        exact .list hdepth hg hitems

/-- What has been read is a constant, a number, a text or a list. -/
theorem readsValue_of_readValue {policy : Policy} {fuel : Nat} {d : Datum}
    (hstrict : policy.IsStrict) (h : readValue policy (fuel + 1) s = .ok (d, r)) :
    ReadsValue policy fuel s d r := by
  have hread := h
  unfold readValue at h
  split at h
  · obtain ⟨⟨letters, t⟩, htext, hvalue⟩ := exists_of_map_eq_ok h
    cases hvalue
    obtain ⟨spelling, rfl, hspells⟩ := exists_of_readText htext
    exact .text hspells r
  · exact readsValue_of_readValue_list hread
  · exact absurd hread (readValue_object_ne_ok hstrict)
  · cases h
    exact .null r
  · cases h
    exact .bool true r
  · cases h
    exact .bool false r
  · exact absurd h (nonFinite_ne_ok hstrict)
  · exact absurd h (nonFinite_ne_ok hstrict)
  · exact absurd h (nonFinite_ne_ok hstrict)
  · obtain ⟨w, rfl, rfl⟩ := exists_of_readNumber h
    exact .number w h

/-- An item is the last one, or a comma and further items are behind it. -/
theorem exists_of_readItems {policy : Policy} {fuel : Nat} {xs : List Datum}
    (h : readItems policy (fuel + 1) s = .ok (xs, r)) :
    ∃ x u g, readValue policy fuel s = .ok (x, u) ∧ IsGap g
      ∧ ((u = g ++ ']' :: r ∧ xs = [x])
        ∨ ∃ g' t ys, IsGap g' ∧ u = g ++ ',' :: (g' ++ t)
          ∧ readItems policy fuel t = .ok (ys, r) ∧ xs = x :: ys) := by
  rw [readItems] at h
  split at h
  · cases h
  · next x u hitem =>
      obtain ⟨g, hg, hu⟩ := exists_gap u
      refine ⟨x, u, g, hitem, hg, ?_⟩
      split at h
      · next v hclose =>
          cases h
          exact .inl ⟨by rw [hu, hclose], rfl⟩
      · next v hcomma =>
          obtain ⟨⟨ys, r'⟩, hread, hcons⟩ := exists_of_map_eq_ok h
          cases hcons
          obtain ⟨g', hg', hv⟩ := exists_gap v
          exact .inr ⟨g', _, ys, hg', by rw [hu, hcomma, ← hv], hread, rfl⟩
      · cases h

/-- What has been read as a value or as items denotes them. -/
theorem denotes_of_readValue (fuel : Nat) :
    (∀ {policy : Policy} {s d r}, policy.IsStrict → readValue policy fuel s = .ok (d, r) →
        ∃ t, s = t ++ r ∧ Denotes t d)
      ∧ ∀ {policy : Policy} {s xs r}, policy.IsStrict → readItems policy fuel s = .ok (xs, r) →
        ∃ t, s = t ++ r ∧ DenotesItems t xs := by
  induction fuel with
  | zero =>
      constructor
      · intro policy s d r _ h
        cases h
      · intro policy s xs r _ h
        cases h
  | succ fuel ih =>
      obtain ⟨ihvalue, ihitems⟩ := ih
      constructor
      · intro policy s d r hstrict h
        cases readsValue_of_readValue hstrict h with
        | null => exact ⟨_, rfl, .null⟩
        | bool b => exact ⟨_, rfl, .bool b⟩
        | number w => exact ⟨_, rfl, .number w⟩
        | text hspells => exact ⟨_, by simp, .text hspells⟩
        | emptyList _ hg => exact ⟨_, by simp, .emptyList hg⟩
        | list _ hg hitems =>
            have hinner : policy.inner.IsStrict := hstrict
            obtain ⟨t, rfl, hxs⟩ := ihitems hinner hitems
            exact ⟨_, by simp, .list hg hxs⟩
      · intro policy s xs r hstrict h
        obtain ⟨x, u, g, hitem, hg, ⟨rfl, rfl⟩ | ⟨g', t, ys, hg', rfl, hrest, rfl⟩⟩ :=
          exists_of_readItems h
        · obtain ⟨t, rfl, ht⟩ := ihvalue hstrict hitem
          exact ⟨_, by simp, .last ht hg⟩
        · obtain ⟨t', rfl, ht'⟩ := ihvalue hstrict hitem
          obtain ⟨t, rfl, hys⟩ := ihitems hstrict hrest
          exact ⟨_, by simp, .cons ht' hg hg' hys⟩

/-- What is read is a document. -/
theorem isDocument_of_read {policy : Policy} (hstrict : policy.IsStrict) {d : Datum}
    (h : read policy s = .ok d) : IsDocument s d := by
  obtain ⟨g, hg, hs⟩ := exists_gap s
  rw [read] at h
  split at h
  · cases h
  · next x u hvalue =>
      split at h
      · next hempty =>
          cases h
          obtain ⟨t, ht, hdenotes⟩ := (denotes_of_readValue _).1 hstrict hvalue
          obtain ⟨g', hg', hu⟩ := exists_gap u
          rw [List.isEmpty_iff.mp hempty, List.append_nil] at hu
          subst hu
          exact ⟨g, t, u, by rw [← ht, ← hs], hg, hdenotes, hg'⟩
      · cases h

/-- A limit of the reader is hit on the text. -/
def HitsLimit (policy : Policy) (s : List Char) : Prop :=
  ∃ e, read policy s = .error e ∧ e.IsLimit

/-- Where no limit is hit, reading is the grammar. -/
theorem read_eq_ok_iff {policy : Policy} (hstrict : policy.IsStrict) (hlimit : ¬ HitsLimit policy s)
    {d : Datum} : read policy s = .ok d ↔ IsDocument s d := by
  constructor
  · exact isDocument_of_read hstrict
  · intro h
    exact (h.read_upToLimits policy).resolve_right hlimit

end DocTags.Json
