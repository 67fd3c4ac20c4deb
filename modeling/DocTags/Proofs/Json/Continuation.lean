import DocTags.Proofs.Json.Soundness

/-!
# Documents that go on

What has been read as a value is read again when the text goes on, if what follows does not go on
with a number. So a document with more than blanks behind it is refused, and what is refused is the
additional text.
-/

namespace DocTags.Json

open Pattern (Stops stops_nil)

variable {policy : Policy} {s r e : List Char} {d : Datum}

/-- What stops in front of more text stops at its end. -/
theorem stops_of_append {accepts : Char → Bool} (h : Stops accepts (r ++ e)) : Stops accepts r := by
  cases r with
  | nil => exact stops_nil accepts
  | cons c r => exact h

/-- A number that has been read is read again if the text goes on with something else. -/
theorem readNumber_append_of_ok (h : readNumber s = .ok (d, r))
    (he : Stops isNumberChar (r ++ e)) : readNumber (s ++ e) = .ok (d, r ++ e) := by
  obtain ⟨w, rfl, rfl⟩ := exists_of_readNumber h
  by_cases hshort : w.IsShort
  · rw [List.append_assoc]
    exact readNumber_append w hshort he
  · simp only [WrittenNumber.IsShort, Classical.not_imp] at hshort
    obtain ⟨hfraction, hexponent, hlong⟩ := hshort
    rw [readNumber_long w hfraction hexponent hlong (stops_of_append he)] at h
    cases h

/-- A list with items is read when the text goes on, if its items are. -/
theorem readValue_list_append {fuel more : Nat} {g t : List Char} {xs : List Datum}
    (hstrict : policy.IsStrict) (hdepth : policy.depth ≠ 0) (hg : IsGap g)
    (hread : readItems policy.inner fuel t = .ok (xs, r))
    (hmore : readItems policy.inner (fuel + more) (t ++ e) = .ok (xs, r ++ e)) :
    readValue policy (fuel + more + 1) ('[' :: (g ++ (t ++ e))) = .ok (.list xs, r ++ e) := by
  have hinner : policy.inner.IsStrict := hstrict
  obtain ⟨t, rfl, hxs⟩ := (denotes_of_readValue fuel).2 hinner hread
  rw [List.append_assoc] at hmore
  rw [List.append_assoc, hxs.readValue_list hdepth hg, hmore]
  rfl

/-- Items are read when the text goes on, if the first of them and those behind it are. -/
theorem readItems_succ_append {fuel more : Nat} {xs : List Datum} (hstrict : policy.IsStrict)
    (h : readItems policy (fuel + 1) s = .ok (xs, r)) (e : List Char)
    (hvalue : ∀ {x u}, readValue policy fuel s = .ok (x, u) → Stops isNumberChar (u ++ e) →
      readValue policy (fuel + more) (s ++ e) = .ok (x, u ++ e))
    (hmore : ∀ {t ys}, readItems policy fuel t = .ok (ys, r) →
      readItems policy (fuel + more) (t ++ e) = .ok (ys, r ++ e)) :
    readItems policy (fuel + more + 1) (s ++ e) = .ok (xs, r ++ e) := by
  obtain ⟨x, u, g, hread, hg, ⟨rfl, rfl⟩ | ⟨g', t, ys, hg', rfl, hrest, rfl⟩⟩ :=
    exists_of_readItems h
  · have hitem := hvalue hread ((stops_gap_cons hg (by decide) r).append (by simp) e)
    rw [List.append_assoc] at hitem
    exact readItems_last hitem (skip_gap hg (stops_isSpace_cons (by decide) _))
  · have hitem := hvalue hread ((stops_gap_cons hg (by decide) (g' ++ t)).append (by simp) e)
    have hitems := hmore hrest
    obtain ⟨t, rfl, hys⟩ := (denotes_of_readValue fuel).2 hstrict hrest
    rw [List.append_assoc, List.cons_append, List.append_assoc, List.append_assoc] at hitem
    rw [List.append_assoc] at hitems
    rw [readItems_cons hitem (skip_gap hg (stops_isSpace_cons (by decide) _)),
      skip_gap hg' (hys.stops_isSpace _), hitems]
    rfl

/-- A value or items that have been read are read when the text goes on, also with more fuel. -/
theorem readValue_append (fuel more : Nat) :
    (∀ {policy : Policy} {s d r e}, policy.IsStrict → readValue policy fuel s = .ok (d, r) →
        Stops isNumberChar (r ++ e) →
        readValue policy (fuel + more) (s ++ e) = .ok (d, r ++ e))
      ∧ ∀ {policy : Policy} {s xs r}, policy.IsStrict → readItems policy fuel s = .ok (xs, r) →
        ∀ e, readItems policy (fuel + more) (s ++ e) = .ok (xs, r ++ e) := by
  induction fuel with
  | zero =>
      constructor
      · intro policy s d r e _ h
        cases h
      · intro policy s xs r _ h
        cases h
  | succ fuel ih =>
      obtain ⟨ihvalue, ihitems⟩ := ih
      rw [Nat.succ_add]
      constructor
      · intro policy s d r e hstrict h he
        cases readsValue_of_readValue hstrict h with
        | null => rfl
        | bool b => cases b <;> rfl
        | number w hread =>
            have hnumber := readNumber_append_of_ok hread he
            rw [List.append_assoc] at hnumber ⊢
            rw [readValue_number, hnumber]
        | text hspells =>
            rw [List.cons_append, List.append_assoc, List.cons_append, readValue,
              readText_spells hspells]
            rfl
        | emptyList hdepth hg =>
            rw [List.cons_append, List.append_assoc, List.cons_append]
            exact readValue_brackets hdepth _ (skip_gap hg (stops_isSpace_cons (by decide) _))
        | list hdepth hg hitems =>
            have hinner : policy.inner.IsStrict := hstrict
            rw [List.cons_append, List.append_assoc]
            exact readValue_list_append hstrict hdepth hg hitems (ihitems hinner hitems e)
      · intro policy s xs r hstrict h e
        exact readItems_succ_append hstrict h e (fun hitem => ihvalue hstrict hitem)
          fun hitems => ihitems hstrict hitems e

/-- A document with more than blanks behind it is refused. -/
theorem read_append (hstrict : policy.IsStrict) (h : read policy s = .ok d)
    (he : Stops isNumberChar e) (hsolid : ¬ IsGap e) :
    read policy (s ++ e) = .error .extraData := by
  rw [read] at h
  split at h
  · cases h
  · next x r hvalue =>
      split at h
      · next hempty =>
          have hgap : IsGap r := List.dropWhile_eq_nil_iff.mp (List.isEmpty_iff.mp hempty)
          have hmore := (readValue_append _ (2 * e.length)).1 hstrict hvalue (stops_gap hgap he)
          have hfront : skip (s ++ e) = skip s ++ e := by
            obtain ⟨t, ht, hdenotes⟩ := (denotes_of_readValue _).1 hstrict hvalue
            obtain ⟨c, u, rfl, -⟩ := hdenotes.exists_eq_cons
            rw [skip] at ht
            rw [skip, List.dropWhile_append, skip, ht]
            rfl
          have hback : skip (r ++ e) ≠ [] := fun hnil =>
            hsolid (List.forall_mem_append.mp (List.dropWhile_eq_nil_iff.mp hnil)).2
          have hfuel : 2 * (s ++ e).length + 2 = 2 * s.length + 2 + 2 * e.length := by
            rw [List.length_append]
            omega
          rw [read, hfront, hfuel, hmore]
          exact if_neg (mt List.isEmpty_iff.mp hback)
      · cases h

end DocTags.Json
