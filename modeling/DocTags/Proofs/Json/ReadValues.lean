import DocTags.Proofs.Json.Continuation
import DocTags.Proofs.Json.Rereading

/-!
# Values that are read

What a reader without objects gives is a value that a document can be made for. Its numbers are the
written ones: whole numbers stand for themselves, and every other number for the binary number next
to it, which is infinite where no finite one is next. Its texts are settled if the characters that
are read are no stand-ins.
-/

namespace DocTags.Json

open Decimal (maxDigits leastBeyond)

namespace WrittenNumber

variable {w : WrittenNumber}

/-- The number is written without a point and an exponent. -/
def IsWhole (w : WrittenNumber) : Prop :=
  w.fraction = none ∧ w.exponent = none

/-- The digits behind the point. -/
def fractionDigits (w : WrittenNumber) : List Char :=
  (w.fraction.map Numeral.digits).getD []

/-- The decimal number that is written, without its sign. -/
def decimal (w : WrittenNumber) : Decimal :=
  ⟨Decimal.ofDigits ((w.whole.digits ++ w.fractionDigits).map fun c => c.toNat - 48),
    (w.exponent.map Exponent.value).getD 0 - w.fractionDigits.length⟩

/-- The number is no whole one, and it is so large that the binary number next to it is infinite. -/
def Overflows (w : WrittenNumber) : Prop :=
  ¬ w.IsWhole ∧ Binary64.overflow * w.decimal.denominator ≤ w.decimal.numerator

/-- What a written number stands for. -/
inductive StandsFor (w : WrittenNumber) : Datum → Prop where
  | whole (h : w.IsWhole) : StandsFor w (.int (Decimal.signed w.isNegative w.whole.value))
  | finite (m q : Nat) (h : ¬ w.IsWhole)
      (hlt : w.decimal.numerator < Binary64.overflow * w.decimal.denominator)
      (hreduced : Binary64.IsReduced m q)
      (hnearest : Binary64.IsNearest (w.decimal.numerator * Nat.pow 2 Binary64.unitBits)
        w.decimal.denominator m q) : StandsFor w (.real (.finite w.isNegative m q))
  | infinite (h : w.Overflows) : StandsFor w (.real (.infinite w.isNegative))

theorem value_of_isWhole (h : w.IsWhole) :
    w.value = .int (Decimal.signed w.isNegative w.whole.value) := by
  rw [value, h.1, h.2]

theorem value_of_not_isWhole (h : ¬ w.IsWhole) :
    w.value = .real (.ofDecimal w.isNegative w.decimal) := by
  obtain ⟨negative, whole, hzero, fraction, exponent⟩ := w
  cases fraction with
  | some n => rfl
  | none =>
      cases exponent with
      | none => exact absurd ⟨rfl, rfl⟩ h
      | some e =>
          rw [value, decimal, fractionDigits]
          simp [Numeral.value]

theorem standsFor_value (w : WrittenNumber) : w.StandsFor w.value := by
  by_cases h : w.IsWhole
  · rw [value_of_isWhole h]
    exact .whole h
  · rw [value_of_not_isWhole h]
    by_cases hlarge : Binary64.overflow * w.decimal.denominator ≤ w.decimal.numerator
    · rw [Binary64.ofDecimal_of_le hlarge]
      exact .infinite ⟨h, hlarge⟩
    · obtain ⟨m, q, hrounded, hreduced, hnearest⟩ :=
        Binary64.exists_ofDecimal_of_lt (Nat.not_le.mp hlarge) w.isNegative
      rw [hrounded]
      exact .finite m q h (Nat.not_le.mp hlarge) hreduced hnearest

/-- A written number stands for a finite one unless it is too large. -/
theorem isFinite_value_iff (w : WrittenNumber) : w.value.IsFinite ↔ ¬ w.Overflows := by
  have hstands := w.standsFor_value
  generalize w.value = d at hstands
  cases hstands with
  | whole h => exact iff_of_true trivial fun hlarge => hlarge.1 h
  | finite m q h hlt => exact iff_of_true trivial fun hlarge => absurd hlarge.2 (Nat.not_le.mpr hlt)
  | infinite h => exact iff_of_false id (not_not_intro h)

/-- A number holds itself alone, and no text. -/
theorem numbers_value (w : WrittenNumber) :
    w.value.numbers = [w.value] ∧ w.value.settled = w.value := by
  have hstands := w.standsFor_value
  generalize w.value = d at hstands
  cases hstands <;> exact ⟨rfl, rfl⟩

end WrittenNumber

variable {s r : List Char} {d : Datum} {k : Nat}

/-- A binary number next to a decimal one can be written. -/
theorem isWritable_ofDecimal (k : Nat) (negative : Bool) (d : Decimal) :
    IsWritable k (.real (.ofDecimal negative d)) := by
  by_cases hlarge : Binary64.overflow * d.denominator ≤ d.numerator
  · rw [Binary64.ofDecimal_of_le hlarge]
    exact .infinite k negative
  · obtain ⟨m, q, hrounded, hreduced, -⟩ :=
      Binary64.exists_ofDecimal_of_lt (Nat.not_le.mp hlarge) negative
    rw [hrounded]
    exact .real k negative m q hreduced

/-- A whole number of few enough digits can be read again. -/
theorem isShort_ofNat {n : Nat} (h : n < leastBeyond maxDigits) : (Numeral.ofNat n).IsShort :=
  (Decimal.length_natText_le_iff n (by decide)).mpr h

theorem natAbs_signed (negative : Bool) (n : Nat) : (Decimal.signed negative n).natAbs = n := by
  cases negative with
  | false => rfl
  | true => exact Int.natAbs_neg _

/-- A number that has been read can be written. -/
theorem isWritable_of_readNumber (h : readNumber s = .ok (d, r)) (k : Nat) : IsWritable k d := by
  have hunsigned {negative : Bool} {s : List Char} (h : readUnsigned negative s = .ok (d, r)) :
      IsWritable k d := by
    rw [readUnsigned] at h
    split at h
    · cases h
    · next ds t hwhole =>
        obtain ⟨whole, -, hdigits, -⟩ := exists_of_readWhole? hwhole
        split at h
        · split at h
          · next n hread =>
              obtain ⟨rfl, -⟩ := Prod.mk.inj (Except.ok.inj h)
              rw [Decimal.readDigits] at hread
              split at hread
              · next hlength =>
                  rw [← hdigits, List.length_map] at hlength
                  have hvalue : whole.value = n := by
                    rw [Numeral.value, hdigits]
                    exact Except.ok.inj hread
                  have hshort := isShort_ofNat (hvalue ▸ Numeral.value_lt hlength)
                  exact .int k _ (by rwa [natAbs_signed])
              · cases hread
          · cases h
        · obtain ⟨rfl, -⟩ := Prod.mk.inj (Except.ok.inj h)
          exact isWritable_ofDecimal k _ _
        · obtain ⟨rfl, -⟩ := Prod.mk.inj (Except.ok.inj h)
          exact isWritable_ofDecimal k _ _
  cases s with
  | nil => cases h
  | cons c t =>
      by_cases hc : c = '-'
      · rw [hc, readNumber_minus] at h
        exact hunsigned h
      · rw [readNumber_of_ne hc] at h
        exact hunsigned h

/-- The numbers of a value are those that are written in the text, in order. -/
def WrittenIn (s : List Char) (numbers : List Datum) : Prop :=
  ∃ ws : List WrittenNumber, numbers = ws.map WrittenNumber.value ∧ ∀ w ∈ ws, w.text <:+: s

/-- The text holds no stand-in for half of a pair. -/
def HoldsNoStandIn (s : List Char) : Prop :=
  ∀ c ∈ s, Text.isReserved c.toNat = false

/-- What is known of a value that has been read from the front of a text. -/
structure IsReadFrom (depth : Nat) (s : List Char) (d : Datum) : Prop where
  writable : IsWritable depth d
  written : WrittenIn s d.numbers
  settled : HoldsNoStandIn s → d.settled = d

theorem WrittenIn.nil (s : List Char) : WrittenIn s [] :=
  ⟨[], rfl, by simp⟩

theorem WrittenIn.mono {t : List Char} {numbers : List Datum} (h : WrittenIn t numbers)
    (ht : t <:+: s) : WrittenIn s numbers := by
  obtain ⟨ws, hws, htexts⟩ := h
  exact ⟨ws, hws, fun w hw => (htexts w hw).trans ht⟩

theorem WrittenIn.append {numbers more : List Datum} (h : WrittenIn s numbers)
    (hmore : WrittenIn s more) : WrittenIn s (numbers ++ more) := by
  obtain ⟨ws, rfl, htexts⟩ := h
  obtain ⟨vs, rfl, hrest⟩ := hmore
  exact ⟨ws ++ vs, (List.map_append).symm, List.forall_mem_append.mpr ⟨htexts, hrest⟩⟩

theorem HoldsNoStandIn.mono {t : List Char} (h : HoldsNoStandIn s) (ht : t <:+: s) :
    HoldsNoStandIn t :=
  fun c hc => h c (ht.subset hc)

theorem IsReadFrom.mono {t : List Char} (h : IsReadFrom k t d) (ht : t <:+: s) :
    IsReadFrom k s d where
  writable := h.writable
  written := h.written.mono ht
  settled := fun hs => h.settled (hs.mono ht)

/-- A number that is read is the one that is written. -/
theorem isReadFrom_of_readNumber (h : readNumber s = .ok (d, r)) (k : Nat) : IsReadFrom k s d := by
  have hwritable := isWritable_of_readNumber h k
  obtain ⟨w, rfl, rfl⟩ := exists_of_readNumber h
  obtain ⟨hnumbers, hsettled⟩ := w.numbers_value
  refine ⟨hwritable, ⟨[w], hnumbers, ?_⟩, fun _ => hsettled⟩
  exact List.forall_mem_singleton.mpr (List.prefix_append _ _).isInfix

/-- A text that is read is what is spelled. -/
theorem isReadFrom_of_spells {u t : List Char} (h : Spells u t) (r : List Char) (k : Nat) :
    IsReadFrom k ('"' :: (u ++ '"' :: r)) (.text (String.ofList t)) where
  writable := .text k _
  written := .nil _
  settled := by
    intro hs
    have hsettled := h.isSettled fun c hc => hs c (by simp [hc])
    rw [Datum.settled, settledText, String.toList_ofList, hsettled]

theorem isReadFrom_list {xs : List Datum} (h : ∀ x ∈ xs, IsReadFrom k s x)
    (hwritten : WrittenIn s (xs.flatMap Datum.numbers)) : IsReadFrom (k + 1) s (.list xs) where
  writable := .list k xs fun x hx => (h x hx).writable
  written := by
    rw [Datum.numbers, Datum.itemNumbers_eq_flatMap]
    exact hwritten
  settled := by
    intro hs
    rw [Datum.settled_list, List.map_congr_left fun x hx => (h x hx).settled hs, List.map_id']

/-- What is read is known, values and items together. -/
theorem isReadFrom_of_readValue (fuel : Nat) :
    (∀ {policy : Policy} {s d r}, policy.IsStrict → readValue policy fuel s = .ok (d, r) →
        IsReadFrom policy.depth s d)
      ∧ ∀ {policy : Policy} {s xs r}, policy.IsStrict → readItems policy fuel s = .ok (xs, r) →
        (∀ x ∈ xs, IsReadFrom policy.depth s x) ∧ WrittenIn s (xs.flatMap Datum.numbers) := by
  induction fuel with
  | zero =>
      constructor
      · intro policy s d r _ h
        cases h
      · intro policy s xs r _ h
        cases h
  | succ fuel ih =>
      obtain ⟨ihvalue, ihitems⟩ := ih
      constructor
      · intro policy s d r hstrict h
        cases readsValue_of_readValue hstrict h with
        | null => exact ⟨.null _, .nil _, fun _ => rfl⟩
        | bool b => exact ⟨.bool _ b, .nil _, fun _ => rfl⟩
        | number w hread => exact isReadFrom_of_readNumber hread _
        | text hspells r => exact isReadFrom_of_spells hspells r _
        | emptyList hdepth =>
            obtain ⟨k, hk⟩ := Nat.exists_eq_succ_of_ne_zero hdepth
            rw [hk]
            exact isReadFrom_list (by simp) (.nil _)
        | list hdepth hg hitems =>
            rename_i g t xs
            obtain ⟨k, hk⟩ := Nat.exists_eq_succ_of_ne_zero hdepth
            have hinner : policy.inner.IsStrict := hstrict
            have hinside : policy.inner.depth = k := by rw [Policy.inner, hk, Nat.succ_sub_one]
            have hsuffix : t <:+: '[' :: (g ++ t) :=
              ((List.suffix_append g t).trans (List.suffix_cons _ _)).isInfix
            obtain ⟨hxs, hnumbers⟩ := ihitems hinner hitems
            rw [hinside] at hxs
            rw [hk]
            exact isReadFrom_list (fun x hx => (hxs x hx).mono hsuffix) (hnumbers.mono hsuffix)
      · intro policy s xs r hstrict h
        obtain ⟨x, u, g, hitem, -, ⟨-, rfl⟩ | ⟨g', t, ys, -, rfl, hrest, rfl⟩⟩ :=
          exists_of_readItems h
        · have hx := ihvalue hstrict hitem
          refine ⟨List.forall_mem_singleton.mpr hx, ?_⟩
          rw [List.flatMap_singleton]
          exact hx.written
        · have hx := ihvalue hstrict hitem
          obtain ⟨v, rfl, -⟩ := (denotes_of_readValue fuel).1 hstrict hitem
          have hsuffix : t <:+: v ++ (g ++ ',' :: (g' ++ t)) :=
            ⟨v ++ (g ++ ',' :: g'), [], by simp⟩
          obtain ⟨hys, hnumbers⟩ := ihitems hstrict hrest
          refine ⟨List.forall_mem_cons.mpr ⟨hx, fun y hy => (hys y hy).mono hsuffix⟩, ?_⟩
          rw [List.flatMap_cons]
          exact hx.written.append (hnumbers.mono hsuffix)

/-- What is read from a whole text is known. -/
theorem isReadFrom_of_read {policy : Policy} (hstrict : policy.IsStrict)
    (h : read policy s = .ok d) : IsReadFrom policy.depth s d := by
  rw [read] at h
  split at h
  · cases h
  · next x u hvalue =>
      split at h
      · obtain rfl := Except.ok.inj h
        obtain ⟨g, -, hs⟩ := exists_gap s
        have hsuffix : skip s <:+: s := ⟨g, [], by rw [List.append_nil, ← hs]⟩
        exact ((isReadFrom_of_readValue _).1 hstrict hvalue).mono hsuffix
      · cases h

end DocTags.Json
