import DocTags.Proofs.Pattern.Translation
import DocTags.Proofs.Text.Lines

/-!
# Matches line by line

What stands behind a text does not matter to a pattern that cannot read its first character. So a
pattern that reads up to the end of a line and no line feed has at most one match on a line, and the
matches in a text are those on its lines.
-/

namespace DocTags.Pattern

open Text

variable {κ : Type} {p : Pattern κ} {s e line : List Char} {y : Char}

theorem text_append_append (s t e : List Char) :
    (Span.mk (s ++ e) (t ++ e)).text = (Span.mk s t).text := by
  have hlength : (s ++ e).length - (t ++ e).length = s.length - t.length := by
    rw [List.length_append, List.length_append]
    omega
  rw [Span.text, Span.text, hlength]
  exact List.take_append_of_le_length (Nat.sub_le _ _)

theorem char_follows_append {accepts : Char → Bool} (hy : accepts y = false) :
    (char accepts : Pattern κ).Follows (· ++ y :: e) := by
  intro s
  cases s with
  | nil => simp [outcomes, hy]
  | cons a s => cases h : accepts a <;> simp [outcomes, h, shown]

/-- A pattern that looks at nothing but characters does not notice what stands behind a character
that it avoids. -/
theorem follows_append (hplain : p.isPlain = true) (hy : p.avoids y = true) :
    p.Follows (· ++ y :: e) := by
  refine follows_of_isPlain (P := fun accepts => !accepts y) ?_ ?_ p hplain hy
  · intro accepts haccepts
    exact char_follows_append (by simpa using haccepts)
  · exact fun _ s t _ _ => text_append_append s t (y :: e)

theorem follows_append_of_avoids (hplain : p.isPlain = true)
    (he : ∀ c ∈ e.head?, p.avoids c = true) : p.Follows (· ++ e) := by
  cases e with
  | nil =>
      intro s
      simp [shown]
  | cons y e => exact follows_append hplain (he y rfl)

/-- The end of a line is where it is when more lines follow. -/
theorem lineEnd_follows_append : (lineEnd : Pattern κ).Follows (· ++ '\n' :: e) := by
  intro s
  cases s with
  | nil => simp [outcomes, shown]
  | cons a s => by_cases h : a = '\n' <;> simp [outcomes, h, shown]

/-- Behind a text in which nothing changes, a search goes on. -/
theorem found_append (hp : p.consumes = true)
    (h : ∀ t, t <:+ s → p.preferred (t ++ e) = p.preferred t) :
    p.found (s ++ e) = (p.found s).or (p.found e) := by
  induction s with
  | nil => rw [List.nil_append, found_nil hp, Option.none_or]
  | cons x s ih =>
      have hfront : p.preferred (x :: (s ++ e)) = p.preferred (x :: s) := h _ (List.suffix_refl _)
      rw [List.cons_append, found_cons, found_cons, hfront, Option.or_assoc,
        ih fun t ht => h t (ht.trans (List.suffix_cons x s))]

/-- The pattern is read up to the end of a line and within it, whatever lines follow. -/
structure IsLineWise (p : Pattern κ) : Prop where
  consumes : p.consumes = true
  follows : ∀ e, p.Follows (· ++ '\n' :: e)
  endsLine : ∀ s t, p.CanRead s t → t = [] ∨ ∃ r, t = '\n' :: r

namespace IsLineWise

theorem fails_cons (h : p.IsLineWise) (e : List Char) : p.Fails ('\n' :: e) :=
  ((h.follows e).fails_iff []).mpr (fails_nil_of_consumes h.consumes)

/-- A reading on a line reads it to its end. -/
theorem eq_nil_of_canRead (h : p.IsLineWise) {t : List Char} (hline : '\n' ∉ line)
    (ht : p.CanRead line t) : t = [] := by
  refine (h.endsLine line t ht).resolve_right ?_
  rintro ⟨r, rfl⟩
  exact hline (ht.suffix.mem List.mem_cons_self)

/-- At every place of a line the pattern fails or reads the rest of the line. -/
theorem fails_or_reads (h : p.IsLineWise) (hline : '\n' ∉ line) :
    p.Fails line ∨ ∃ c, p.Reads line [] c := by
  by_cases hfails : p.Fails line
  · exact .inl hfails
  · obtain ⟨t, ht⟩ := not_forall_not.mp (mt fails_iff.mpr hfails)
    obtain ⟨t, c, hreads⟩ := ht.exists_reads
    obtain rfl := h.eq_nil_of_canRead hline hreads.canRead
    exact .inr ⟨c, hreads⟩

/-- The last line has at most one match. -/
theorem foundAll_line (h : p.IsLineWise) (hline : '\n' ∉ line) :
    p.foundAll line = (p.found line).toList := by
  induction line with
  | nil => rw [foundAll_nil h.consumes, found_nil h.consumes, Option.toList_none]
  | cons x line ih =>
      have hrest : '\n' ∉ line := fun hmem => hline (List.mem_cons_of_mem x hmem)
      rcases h.fails_or_reads hline with hx | ⟨c, hreads⟩
      · rw [foundAll_cons_of_fails h.consumes hx, found_cons, preferred_of_fails hx,
          Option.none_or, ih hrest]
      · rw [foundAll_of_reads h.consumes hreads, foundAll_nil h.consumes, found_cons,
          preferred_of_reads hreads, Option.some_or, Option.toList_some]

/-- A line in front of others has at most one match, and then come the matches of the others. -/
theorem foundAll_append_cons (h : p.IsLineWise) (hline : '\n' ∉ line) (e : List Char) :
    p.foundAll (line ++ '\n' :: e) = (p.found line).toList ++ p.foundAll e := by
  have hfeed : p.foundAll ('\n' :: e) = p.foundAll e :=
    foundAll_cons_of_fails h.consumes (h.fails_cons e)
  induction line with
  | nil => rw [List.nil_append, hfeed, found_nil h.consumes, Option.toList_none, List.nil_append]
  | cons x line ih =>
      have hrest : '\n' ∉ line := fun hmem => hline (List.mem_cons_of_mem x hmem)
      rcases h.fails_or_reads hline with hx | ⟨c, hreads⟩
      · have hx' : p.Fails (x :: (line ++ '\n' :: e)) :=
          ((h.follows e).fails_iff (x :: line)).mpr hx
        rw [List.cons_append, foundAll_cons_of_fails h.consumes hx', ih hrest, found_cons,
          preferred_of_fails hx, Option.none_or]
      · obtain ⟨c', hreads', htexts⟩ := (h.follows e).reads hreads
        rw [foundAll_of_reads h.consumes hreads', htexts, List.nil_append, hfeed, found_cons,
          preferred_of_reads hreads, Option.some_or, Option.toList_some, List.singleton_append]

/-- The matches in a text are the first matches of its lines. -/
theorem foundAll_eq_filterMap (h : p.IsLineWise) (s : List Char) :
    p.foundAll s = (splitAt '\n' s).filterMap p.found := by
  by_cases hs : '\n' ∈ s
  · obtain ⟨line, rest, rfl, hline⟩ := List.eq_append_cons_of_mem hs
    have hlt : rest.length < (line ++ '\n' :: rest).length := by
      rw [List.length_append, List.length_cons]
      omega
    rw [splitAt_append_cons hline, List.filterMap_cons, h.foundAll_append_cons hline,
      foundAll_eq_filterMap h rest]
    cases p.found line <;> rfl
  · rw [splitAt_of_not_mem hs, h.foundAll_line hs, List.filterMap_cons, List.filterMap_nil]
    cases p.found s <;> rfl
termination_by s.length

end IsLineWise

end DocTags.Pattern
