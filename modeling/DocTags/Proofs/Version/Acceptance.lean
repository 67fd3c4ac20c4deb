import DocTags.Proofs.Pattern.Cutting
import DocTags.Proofs.Version.DigitLimit
import DocTags.Proofs.Version.GrammarReading

/-!
# Accepted constraints

A constraint that is read was written by the grammar: its pieces are terms and versions, what has
been cut away between them are separators and bars, and the blanks that the reader drops stand
behind the signs of operators. So the reader accepts the texts of the grammar and no others. The
grammar is wider than the documented one, which has no blanks inside an operator and nothing behind
a wildcard.
-/

namespace DocTags.Constraint

open Text Pattern

/-- A text whose pieces and gaps were written is joined from them. -/
theorem exists_joined_of_cut {κ γ ι : Type} {p : Pattern κ} {gap : γ → List Char}
    {piece : ι → List Char} (hgap : ∀ g s : List Char, p.CanRead (g ++ s) s → ∃ i, gap i = g)
    {s : List Char} {pieces : List (List Char)} (h : p.Cut s pieces)
    (hpieces : ∀ q ∈ pieces, ∃ i, piece i = q) :
    ∃ first rest, s = piece first ++ joined gap piece rest := by
  induction h with
  | last _ =>
      obtain ⟨first, rfl⟩ := hpieces _ List.mem_cons_self
      exact ⟨first, [], (List.append_nil _).symm⟩
  | more _ reads _ ih =>
      rw [List.forall_mem_cons] at hpieces
      obtain ⟨⟨first, rfl⟩, htail⟩ := hpieces
      obtain ⟨g, rfl⟩ := hgap _ _ reads.canRead
      obtain ⟨next, rest, rfl⟩ := ih htail
      exact ⟨first, (g, next) :: rest, by rw [joined_cons]⟩

theorem exists_separator_of_canRead (g s : List Char) (h : termBreak.CanRead (g ++ s) s) :
    ∃ sep : Separator, sep.text = g := by
  rcases canRead_alt.mp h with h | h
  · obtain ⟨m, hbefore, h⟩ := canRead_seq.mp h
    obtain ⟨m', hcomma, hafter⟩ := canRead_seq.mp h
    obtain ⟨before, hparts, hb⟩ := canRead_chars.mp hbefore
    obtain ⟨c, hc, rfl⟩ := canRead_char.mp hcomma
    obtain rfl : c = ',' := by simpa using hc
    obtain ⟨after, rfl, ha⟩ := canRead_chars.mp hafter
    refine ⟨.comma ⟨before, hb⟩ ⟨after, ha⟩, ?_⟩
    apply List.append_cancel_right
    rw [hparts, Separator.text, List.append_assoc, List.cons_append]
  · obtain ⟨b, hne, hparts, hb⟩ := canRead_chars1.mp h
    exact ⟨.gap ⟨⟨b, hb⟩, hne⟩, (List.append_cancel_right hparts).symm⟩

theorem exists_bar_of_canRead (g s : List Char) (h : alternativeBreak.CanRead (g ++ s) s) :
    ∃ bar : Bar, bar.text = g := by
  obtain ⟨m, hbefore, h⟩ := canRead_seq.mp h
  obtain ⟨m', hfirst, h⟩ := canRead_seq.mp h
  obtain ⟨m'', hsecond, hafter⟩ := canRead_seq.mp h
  obtain ⟨before, hparts, hb⟩ := canRead_chars.mp hbefore
  obtain ⟨c, hc, rfl⟩ := canRead_char.mp hfirst
  obtain rfl : c = '|' := by simpa using hc
  obtain ⟨after, rfl, ha⟩ := canRead_chars.mp hafter
  obtain ⟨isDouble, rfl⟩ : ∃ isDouble : Bool,
      m' = (if isDouble then ['|'] else []) ++ (after ++ s) := by
    rcases canRead_opt.mp hsecond with hbar | rfl
    · obtain ⟨c, hc, rfl⟩ := canRead_char.mp hbar
      obtain rfl : c = '|' := by simpa using hc
      exact ⟨true, rfl⟩
    · exact ⟨false, rfl⟩
  refine ⟨⟨⟨before, hb⟩, isDouble, ⟨after, ha⟩⟩, ?_⟩
  apply List.append_cancel_right
  rw [hparts, Bar.text, List.append_assoc, List.cons_append, List.append_assoc]

/-- A closed operator was written with blanks behind its signs. -/
theorem exists_operator_of_closeSigns {s a : List Char} {op : Operator}
    (h : closeSigns s = op.text ++ a) (ha : ∀ c ∈ a, isSign c = false) :
    ∃ inner behind : Blanks, s = (WrittenOperator.mk op inner behind).text ++ a := by
  rcases operator_eq op with ⟨c, -, hop⟩ | ⟨c, -, hop⟩
  · rw [hop] at h
    obtain ⟨b, u, rfl, hu, hb, -, -⟩ := exists_of_closeSigns_eq_cons h
    obtain rfl := eq_of_closeSigns_eq hu ha
    refine ⟨⟨[], List.forall_mem_nil _⟩, ⟨b, hb⟩, ?_⟩
    simp [WrittenOperator.text, hop]
  · rw [hop] at h
    obtain ⟨b, u, rfl, hu, hb, -, -⟩ := exists_of_closeSigns_eq_cons h
    obtain ⟨b', u', rfl, hu', hb', -, -⟩ := exists_of_closeSigns_eq_cons hu
    obtain rfl := eq_of_closeSigns_eq hu' ha
    refine ⟨⟨b, hb⟩, ⟨b', hb'⟩, ?_⟩
    simp [WrittenOperator.text, hop]

/-- A closed term was written as a term. -/
theorem exists_term_of_closeSigns {s : List Char} {t : WrittenTerm} (h : closeSigns s = t.closed) :
    ∃ t' : WrittenTerm, t'.text = s := by
  have hplain : ∀ c ∈ t.body, isSign c = false := fun c hc => (isPlain_body t c hc).not_isSign
  have hbare (hop : t.operator? = none) : t.text = s := by
    rw [WrittenTerm.closed, hop] at h
    rw [WrittenTerm.text, hop]
    exact (eq_of_closeSigns_eq h hplain).symm
  cases t with
  | anything letter => exact ⟨_, hbare rfl⟩
  | wildcard letter r x => exact ⟨_, hbare rfl⟩
  | version o letter r x hversion =>
      cases o with
      | none => exact ⟨_, hbare rfl⟩
      | some o =>
          obtain ⟨inner, behind, rfl⟩ := exists_operator_of_closeSigns h hplain
          exact ⟨.version (some ⟨o.operator, inner, behind⟩) letter r x hversion, rfl⟩

/-- Closed terms with separators between them were written as terms. -/
theorem exists_terms_of_closeSigns {s : List Char} {first : WrittenTerm}
    {rest : List (Separator × WrittenTerm)}
    (h : closeSigns s = first.closed ++ joined Separator.text WrittenTerm.closed rest) :
    ∃ (first' : WrittenTerm) (rest' : List (Separator × WrittenTerm)),
      s = first'.text ++ joined Separator.text WrittenTerm.text rest' := by
  induction rest generalizing s first with
  | nil =>
      rw [joined, List.flatMap_nil, List.append_nil] at h
      obtain ⟨first', rfl⟩ := exists_term_of_closeSigns h
      exact ⟨first', [], (List.append_nil _).symm⟩
  | cons t rest ih =>
      rw [joined_cons] at h
      obtain ⟨a, u, rfl, hfirst, hu⟩ := exists_of_closeSigns_eq_append h
      obtain ⟨b, w, rfl, hsep, hw⟩ := exists_of_closeSigns_eq_append hu
      obtain ⟨first', rfl⟩ := exists_term_of_closeSigns hfirst
      obtain rfl := eq_of_closeSigns_eq hsep (not_isSign_separator t.1)
      obtain ⟨next, rest', rfl⟩ := ih hw
      exact ⟨first', (t.1, next) :: rest', by rw [joined_cons]⟩

/-- Terms that are read were written as terms. -/
theorem exists_alternative_of_terms {s : List Char} {rs : List VersionRange}
    (h : (termBreak.split (attachOperators s)).mapM readTerm = .ok rs) :
    ∃ a : WrittenAlternative, a.text = s := by
  have hcut := cut_split (p := termBreak) rfl (attachOperators s)
  have hclosed : ∀ q ∈ termBreak.split (attachOperators s), ∃ t : WrittenTerm, t.closed = q := by
    intro q hq
    obtain ⟨_, hread⟩ := exists_of_mapM_eq_ok h q hq
    exact exists_term_of_readTerm hread (hcut.not_mem (not_fails_termBreak (by decide)) q hq)
  obtain ⟨first, rest, hjoined⟩ := exists_joined_of_cut exists_separator_of_canRead hcut hclosed
  rw [attachOperators_eq_closeSigns] at hjoined
  obtain ⟨first', rest', rfl⟩ := exists_terms_of_closeSigns hjoined
  exact ⟨.terms first' rest', rfl⟩

/-- No blank is at the end of the text. -/
def EndsTrimmed (s : List Char) : Prop :=
  ∀ c ∈ s.getLast?, isBlank c = false

theorem endsTrimmed_trim (s : List Char) : EndsTrimmed (trim s) := by
  intro c hc
  obtain ⟨hne, rfl⟩ := List.mem_getLast?_eq_getLast hc
  rw [Bool.eq_false_iff]
  exact List.rdropWhile_last_not isBlank (s.dropWhile isBlank) hne

theorem EndsTrimmed.of_append {s t : List Char} (h : EndsTrimmed (s ++ t)) : EndsTrimmed t := by
  intro c hc
  exact h c (List.mem_getLast?_append_of_mem_getLast? hc)

/-- An alternative that is read and does not end with a blank was written as one. -/
theorem exists_alternative_of_readAlternative {s : List Char} {r : VersionRange}
    (h : readAlternative s = .ok r) (hs : EndsTrimmed s) :
    ∃ a : WrittenAlternative, a.text = s := by
  rw [readAlternative] at h
  split at h
  · cases h
  · cases hm : hyphenRange.matchFront? s with
    | none =>
        rw [hm] at h
        obtain ⟨rs, hterms, -⟩ := exists_of_map_eq_ok h
        exact exists_alternative_of_terms hterms
    | some m =>
        rw [hm] at h
        obtain ⟨before, after, rest, hparts, hsolid, hbefore, hafter, hrest⟩ :=
          exists_parts_of_hyphenRange hm
        obtain ⟨low, hlow, h⟩ := exists_of_bind_eq_ok h
        obtain ⟨high, hhigh, -⟩ := exists_of_bind_eq_ok h
        rw [List.forall_mem_append] at hsolid
        have hnil : rest = [] := by
          refine hrest.resolve_right ?_
          rintro rfl
          have hcut :
              s = (m.groupD .lower ++ before ++ '-' :: (after ++ m.groupD .upper)) ++ ['\n'] := by
            rw [hparts]
            simp
          exact absurd ((hcut ▸ hs).of_append '\n' rfl) (by decide)
        refine ⟨.range ⟨_, hsolid.1, isVersion_of_readVersion hlow⟩ ⟨⟨before, hbefore.2⟩, hbefore.1⟩
          ⟨⟨after, hafter.2⟩, hafter.1⟩ ⟨_, hsolid.2, isVersion_of_readVersion hhigh⟩, ?_⟩
        rw [WrittenAlternative.text, hparts, hnil]
        simp

/-- The alternatives of a text that does not end with a blank do not end with one. -/
theorem endsTrimmed_of_cut {s : List Char} {pieces : List (List Char)}
    (h : alternativeBreak.Cut s pieces) (hs : EndsTrimmed s) : ∀ q ∈ pieces, EndsTrimmed q := by
  induction h with
  | last _ => exact List.forall_mem_singleton.mpr hs
  | more misses reads _ ih =>
      refine List.forall_mem_cons.mpr ⟨?_, ih (hs.of_append.of_append)⟩
      intro c hc
      rw [Bool.eq_false_iff]
      intro hblank
      obtain ⟨front, rfl⟩ := List.getLast?_eq_some_iff.mp hc
      -- Bars can be read from a blank in front of them on, so they would start inside the piece.
      obtain ⟨m, hbefore, hbars⟩ := canRead_seq.mp reads.canRead
      obtain ⟨b, hb, hbblank⟩ := canRead_chars.mp hbefore
      have hlonger : (chars isBlank : Pattern Part).CanRead (c :: (b ++ m)) m :=
        canRead_chars.mpr ⟨c :: b, rfl, List.forall_mem_cons.mpr ⟨hblank, hbblank⟩⟩
      have hfails := misses [c] (List.cons_ne_nil _ _) (List.suffix_append front [c])
      rw [hb] at hfails
      exact fails_iff.mp hfails _ (canRead_seq.mpr ⟨m, hlonger, hbars⟩)

/-- A text that is read as a constraint was written as one. -/
theorem exists_constraint_of_read {s : String} {c : Constraint} (h : read s = .ok c) :
    ∃ e : WrittenConstraint, e.text = trim s.toList := by
  rw [read] at h
  split at h
  · cases h
  · obtain ⟨ranges, hranges, -⟩ := exists_of_map_eq_ok h
    have hcut := cut_split (p := alternativeBreak) rfl (trim s.toList)
    have hwritten : ∀ q ∈ alternativeBreak.split (trim s.toList),
        ∃ a : WrittenAlternative, a.text = q := by
      intro q hq
      obtain ⟨_, hread⟩ := exists_of_mapM_eq_ok hranges q hq
      exact exists_alternative_of_readAlternative hread
        (endsTrimmed_of_cut hcut (endsTrimmed_trim _) q hq)
    obtain ⟨first, rest, hjoined⟩ := exists_joined_of_cut exists_bar_of_canRead hcut hwritten
    exact ⟨⟨first, rest⟩, hjoined.symm⟩

/-- The text is one that the grammar writes. -/
def IsWritten (s : List Char) : Prop :=
  ∃ e : WrittenConstraint, e.text = s

/-- The text is one that the documented part of the grammar writes. -/
def IsDocumented (s : List Char) : Prop :=
  ∃ e : WrittenConstraint, e.IsDocumented ∧ e.text = s

/-- A constraint is accepted exactly if the grammar writes it, and refused as no constraint exactly
if not. Only a long text can be refused for a number with too many digits. -/
theorem read_isWritten (s : String) :
    ((∃ c, read s = .ok c) ∧ IsWritten (trim s.toList))
      ∨ ((∃ f, read s = .error f ∧ ¬ f.IsTooLong) ∧ ¬ IsWritten (trim s.toList))
      ∨ (∃ n, read s = .error (.tooManyDigits n)) ∧ Decimal.maxDigits ≤ (trim s.toList).length := by
  cases hread : read s with
  | ok c => exact .inl ⟨⟨c, rfl⟩, exists_constraint_of_read hread⟩
  | error f =>
      by_cases hlong : f.IsTooLong
      · obtain ⟨n, rfl⟩ := hlong
        refine .inr (.inr ⟨⟨n, rfl⟩, Nat.le_of_not_lt fun hlength => ?_⟩)
        exact read_of_length hlength _ hread ⟨n, rfl⟩
      · refine .inr (.inl ⟨⟨f, rfl, hlong⟩, ?_⟩)
        rintro ⟨e, he⟩
        exact hlong (failsWithin_read he f hread)

/-- A documented text without blanks and marks between terms is one term. -/
theorem exists_term_of_isDocumented {s : List Char} (h : IsDocumented s)
    (hs : ∀ c ∈ s, isBlank c = false ∧ c ∉ [',', '|']) :
    ∃ t : WrittenTerm, t.IsDocumented ∧ t.text = s := by
  obtain ⟨⟨first, rest⟩, hdocumented, rfl⟩ := h
  have hrest : rest = [] := by
    cases rest with
    | nil => rfl
    | cons a rest =>
        have hbar : '|' ∈ (WrittenConstraint.mk first (a :: rest)).text := by
          simp [WrittenConstraint.text, joined, Bar.text]
        exact absurd (hs '|' hbar).2 (by decide)
  subst hrest
  simp only [WrittenConstraint.text, joined, List.flatMap_nil, List.append_nil] at hs ⊢
  cases first with
  | range lower before after upper =>
      obtain ⟨b, hb⟩ := List.exists_mem_of_ne_nil before.chars before.ne_nil
      have hblank := (hs b (by simp [WrittenAlternative.text, hb])).1
      exact absurd (before.isBlank b hb) (by simp [hblank])
  | terms first rest =>
      have hrest : rest = [] := by
        cases rest with
        | nil => rfl
        | cons t rest =>
            have hsep : ∀ c ∈ t.1.text, isBlank c = false ∧ c ∉ [',', '|'] := by
              intro c hc
              exact hs c (by simp [WrittenAlternative.text, joined, hc])
            cases hgap : t.1 with
            | gap g =>
                rw [hgap] at hsep
                obtain ⟨b, hb⟩ := List.exists_mem_of_ne_nil g.chars g.ne_nil
                exact absurd (g.isBlank b hb) (by simp [(hsep b hb).1])
            | comma before after =>
                rw [hgap] at hsep
                exact absurd (hsep ',' (by simp [Separator.text])).2 (by decide)
      subst hrest
      exact ⟨first, hdocumented.1.1, (List.append_nil _).symm⟩

/-- Nothing stands behind the star of a documented term. -/
theorem WrittenTerm.exists_text_eq_concat {t : WrittenTerm} (ht : t.IsDocumented)
    (h : '*' ∈ t.text) : ∃ a, t.text = a ++ ['*'] := by
  cases t with
  | anything letter => exact ⟨mark 'v' letter, rfl⟩
  | wildcard letter r x =>
      obtain rfl : x = none := ht
      refine ⟨mark 'v' letter ++ (r.text ++ ['.']), ?_⟩
      simp [text, operator?, body, suffixText]
  | version o letter r x hversion =>
      have halpha (c : Char) (hc : c.isAlpha = true) : c ≠ '*' := by
        rintro rfl
        exact absurd hc (by decide)
      have hdecimal (c : Char) (hc : isDecimal c = true) : c ≠ '*' := by
        rintro rfl
        exact absurd hc (by decide)
      have hne : ∀ c ∈ (version o letter r x hversion).body, c ≠ '*' :=
        forall_mem_release_append (by decide) halpha hdecimal
          (forall_mem_suffixText (by decide) (by decide) halpha hdecimal x) letter r
      rcases List.mem_append.mp h with hmem | hmem
      · cases o with
        | none => exact absurd hmem List.not_mem_nil
        | some o => exact absurd (o.isSign_or_isBlank '*' hmem) (by decide)
      · exact absurd rfl (hne '*' hmem)

/-- A blank in a contiguous operator stands behind all its signs. -/
theorem WrittenOperator.IsContiguous.text_eq {o : WrittenOperator} (ho : o.IsContiguous) :
    o.text = o.operator.text ++ o.behind.chars := by
  rw [IsContiguous] at ho
  rw [text, ho, List.nil_append, ← List.append_assoc, List.take_append_drop]

theorem isPlain_of_body_append {t : WrittenTerm} {c : Char} {s u : List Char}
    (h : t.body ++ u = c :: s) : IsPlain c := by
  obtain ⟨d, v, hv⟩ := List.exists_cons_of_ne_nil (body_ne_nil t)
  rw [hv] at h
  obtain ⟨rfl, -⟩ := List.cons.inj h
  exact isPlain_body t d (hv ▸ List.mem_cons_self)

variable {b : Char} {s u : List Char}

/-- Behind a contiguous operator and its blanks there is no other sign. -/
theorem WrittenOperator.IsContiguous.text_append_ne {o : WrittenOperator} (ho : o.IsContiguous)
    (hb : isBlank b = true) (t : WrittenTerm) : o.text ++ (t.body ++ u) ≠ '>' :: b :: '=' :: s := by
  intro h
  rw [ho.text_eq, List.append_assoc] at h
  rcases operator_eq o.operator with ⟨c, -, hop⟩ | ⟨c, -, hop⟩
  · rw [hop] at h
    obtain ⟨-, h⟩ := List.cons.inj h
    cases hbehind : o.behind.chars with
    | nil =>
        rw [hbehind] at h
        exact absurd hb (by simp [(isPlain_of_body_append h).1])
    | cons d ds =>
        rw [hbehind] at h
        obtain ⟨-, h⟩ := List.cons.inj h
        cases ds with
        | nil => exact (isPlain_of_body_append h).2 (by decide)
        | cons d' ds =>
            obtain ⟨rfl, -⟩ := List.cons.inj h
            exact absurd (o.behind.isBlank '=' (by simp [hbehind])) (by decide)
  · rw [hop] at h
    obtain ⟨rfl, -⟩ := List.cons.inj (List.cons.inj h).2
    exact absurd hb (by decide)

/-- No documented text parts the signs of an operator. -/
theorem not_isDocumented_parted (hb : isBlank b = true) :
    ¬ IsDocumented ('>' :: b :: '=' :: s) := by
  rintro ⟨⟨first, rest⟩, hdocumented, h⟩
  rw [WrittenConstraint.text] at h
  cases first with
  | range lower before after upper =>
      obtain ⟨c, v, hv⟩ := List.exists_cons_of_ne_nil lower.text_ne_nil
      have hsign : '>' ∈ lower.text := by
        rw [WrittenAlternative.text, hv] at h
        obtain ⟨rfl, -⟩ := List.cons.inj h
        exact hv ▸ List.mem_cons_self
      exact Version.not_mem_of_read (by decide) lower.isVersion hsign
  | terms first terms =>
      rw [WrittenAlternative.text, List.append_assoc, WrittenTerm.text, List.append_assoc] at h
      have hcontiguous : ∀ o ∈ first.operator?, o.IsContiguous := by
        cases first with
        | version o letter r x hversion => exact hdocumented.1.1
        | anything letter => exact fun o ho => absurd ho (Option.not_mem_none o)
        | wildcard letter r x => exact fun o ho => absurd ho (Option.not_mem_none o)
      cases hop : first.operator? with
      | none =>
          rw [hop] at h
          exact (isPlain_of_body_append h).2 (by decide)
      | some o =>
          rw [hop] at h
          exact (hcontiguous o hop).text_append_ne hb first h

/-- A suffix behind a wildcard is accepted and ignored, and so are blanks between the two signs of
an operator. Neither is documented. -/
theorem accepts_undocumented :
    ((∃ c, read "1.*a1" = .ok c) ∧ ¬ IsDocumented "1.*a1".toList)
      ∧ (∃ c, read "> =1.0" = .ok c) ∧ ¬ IsDocumented "> =1.0".toList := by
  have haccepts : ∀ s ∈ ["1.*a1", "> =1.0"], ∃ c, read s = .ok c ∧ True := by
    decide +kernel
  obtain ⟨c, hc, -⟩ := haccepts "1.*a1" (by simp)
  obtain ⟨c', hc', -⟩ := haccepts "> =1.0" (by simp)
  refine ⟨⟨⟨c, hc⟩, fun h => ?_⟩, ⟨c', hc'⟩, not_isDocumented_parted rfl⟩
  obtain ⟨t, ht, htext⟩ := exists_term_of_isDocumented h (by decide)
  obtain ⟨a, ha⟩ := t.exists_text_eq_concat ht (by rw [htext]; decide)
  have hlast := congrArg List.getLast? (htext.symm.trans ha)
  rw [List.getLast?_concat] at hlast
  exact absurd hlast (by decide)

end DocTags.Constraint
