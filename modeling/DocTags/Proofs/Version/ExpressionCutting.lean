import DocTags.Proofs.Text.Lines
import DocTags.Proofs.Version.ExpressionReading

/-!
# Cutting constraint expressions

A written expression is cut at its bars into its alternatives, and the terms of an alternative are
cut at their separators once the operators are attached. What stands inside a term is never part
of a separator.
-/

namespace DocTags.Constraint

open Text Pattern

/-- The characters that terms consist of. -/
def termChars : List Char :=
  "0123456789.*^~<>=!".toList

/-- The text starts with a character of a term. -/
def StartsTerm (s : List Char) : Prop :=
  ∃ c ∈ termChars, ∃ t, s = c :: t

/-- The text ends with a character of a term. -/
def EndsTerm (s : List Char) : Prop :=
  ∃ t, ∃ c ∈ termChars, s = t ++ [c]

theorem StartsTerm.append {s : List Char} (h : StartsTerm s) (t : List Char) :
    StartsTerm (s ++ t) := by
  obtain ⟨c, hc, u, rfl⟩ := h
  exact ⟨c, hc, u ++ t, rfl⟩

theorem EndsTerm.append {s : List Char} (h : EndsTerm s) (t : List Char) : EndsTerm (t ++ s) := by
  obtain ⟨u, c, hc, rfl⟩ := h
  exact ⟨t ++ u, c, hc, (List.append_assoc _ _ _).symm⟩

theorem StartsTerm.stops {accepts : Char → Bool} (hacc : ∀ c ∈ termChars, accepts c = false)
    {s : List Char} (h : StartsTerm s) : Stops accepts s := by
  obtain ⟨c, hc, t, rfl⟩ := h
  exact (stops_cons accepts c t).mpr (hacc c hc)

theorem not_isBlank_of_mem_termChars : ∀ c ∈ termChars, isBlank c = false := by
  decide

theorem StartsTerm.startsSolid {s : List Char} (h : StartsTerm s) : StartsSolid s := by
  obtain ⟨c, hc, t, rfl⟩ := h
  exact ⟨c, t, rfl, not_isBlank_of_mem_termChars c hc⟩

theorem EndsTerm.endsSolid {s : List Char} (h : EndsTerm s) : EndsSolid s := by
  obtain ⟨t, c, hc, rfl⟩ := h
  exact ⟨t, c, rfl, not_isBlank_of_mem_termChars c hc⟩

/-- A text of term characters, at least one, starts and ends with one. -/
theorem startsTerm_of_forall {s : List Char} (hne : s ≠ []) (h : ∀ c ∈ s, c ∈ termChars) :
    StartsTerm s := by
  obtain ⟨c, t, rfl⟩ := List.exists_cons_of_ne_nil hne
  exact ⟨c, h c (by simp), t, rfl⟩

theorem endsTerm_of_forall {s : List Char} (hne : s ≠ []) (h : ∀ c ∈ s, c ∈ termChars) :
    EndsTerm s :=
  ⟨s.dropLast, s.getLast hne, h _ (List.getLast_mem hne), (List.dropLast_concat_getLast hne).symm⟩

theorem text_ne_nil (r : Release) : r.text ≠ [] := by
  simp [Release.text, r.first.ne_nil]

theorem forall_mem_text (r : Release) : ∀ c ∈ r.text, c ∈ termChars :=
  r.forall_mem_text (by decide) (by decide)

theorem forall_mem_operator (op : Operator) : ∀ c ∈ op.text, c ∈ termChars := by
  cases op with
  | caret => decide
  | tilde => decide
  | compare sign => cases sign <;> decide

theorem forall_mem_attached (t : Term) : ∀ c ∈ t.attached, c ∈ termChars := by
  cases t with
  | operated op blanks r =>
      exact List.forall_mem_append.mpr ⟨forall_mem_operator op, forall_mem_text r⟩
  | wildcard r => exact List.forall_mem_append.mpr ⟨forall_mem_text r, by decide⟩
  | anything => exact (by decide : ∀ c ∈ ['*'], c ∈ termChars)
  | bare r => exact forall_mem_text r

theorem attached_ne_nil (t : Term) : t.attached ≠ [] := by
  cases t <;> simp [Term.attached, Term.text, text_ne_nil]

/-- The blanks behind an operator are dropped. -/
theorem closeSigns_operator (op : Operator) (blanks : Blanks) {s : List Char}
    (hs : Stops isBlank s) :
    closeSigns (op.text ++ (blanks.chars ++ s)) = op.text ++ closeSigns s := by
  have hsign {c : Char} (hc : isSign c = true) :
      closeSigns (c :: (blanks.chars ++ s)) = c :: closeSigns s :=
    closeSigns_sign hc blanks.isBlank hs
  have hequal {c : Char} (hc : isSign c = true) :
      closeSigns (c :: '=' :: (blanks.chars ++ s)) = c :: '=' :: closeSigns s := by
    have hfirst := closeSigns_sign hc (b := []) (s := '=' :: (blanks.chars ++ s))
      (List.forall_mem_nil _) ((stops_cons _ _ _).mpr (by decide))
    rw [List.nil_append] at hfirst
    rw [hfirst, hsign rfl]
  cases op with
  | caret => exact hsign rfl
  | tilde => exact hsign rfl
  | compare sign =>
      cases sign with
      | ge | le | eqEq | ne => exact hequal rfl
      | gt | lt | eq => exact hsign rfl

theorem closeSigns_text_append (r : Release) (s : List Char) :
    closeSigns (r.text ++ s) = r.text ++ closeSigns s :=
  closeSigns_append_of_forall (r.forall_mem_text (by decide) (by decide)) s

/-- The operator of a term is attached, and nothing else is changed in it. -/
theorem closeSigns_term_append (t : Term) (s : List Char) :
    closeSigns (t.text ++ s) = t.attached ++ closeSigns s := by
  cases t with
  | operated op blanks r =>
      have hstops : Stops isBlank (r.text ++ s) := stops_text (by decide) r s
      rw [Term.text, Term.attached, List.append_assoc, List.append_assoc, List.append_assoc,
        closeSigns_operator op blanks hstops, closeSigns_text_append]
  | wildcard r =>
      rw [Term.text, Term.attached, Term.text, List.append_assoc, List.append_assoc,
        closeSigns_text_append, closeSigns_append_of_forall (by decide)]
      simp
  | anything => exact closeSigns_append_of_forall (by decide) s
  | bare r => exact closeSigns_text_append r s

theorem not_mem_of_isBlank {l : List Char} (hl : ∀ x ∈ l, isBlank x = false) {c : Char}
    (hc : isBlank c = true) : c ∉ l := by
  intro hmem
  rw [hl c hmem] at hc
  exact Bool.false_ne_true hc

/-- A separator consists of blanks and perhaps a comma. -/
theorem forall_mem_separator {l : List Char} (hl : ∀ x ∈ l, isBlank x = false) (hcomma : ',' ∉ l)
    (sep : Separator) : ∀ c ∈ sep.text, c ∉ l := by
  cases sep with
  | gap g =>
      intro c hc
      exact not_mem_of_isBlank hl (g.isBlank c hc)
  | comma before after =>
      intro c hc
      rcases List.mem_append.mp hc with hc | hc
      · exact not_mem_of_isBlank hl (before.isBlank c hc)
      · rcases List.mem_cons.mp hc with rfl | hc
        · exact hcomma
        · exact not_mem_of_isBlank hl (after.isBlank c hc)

/-- A separator has no signs. -/
theorem not_isSign_separator (sep : Separator) : ∀ c ∈ sep.text, isSign c = false := by
  have hsigns : ∀ c, c ∉ "^~<>=!".toList → isSign c = false := by
    simp +contextual [isSign, isComparison]
  intro c hc
  exact hsigns c (forall_mem_separator (by decide) (by decide) sep c hc)

/-- Every operator of the terms is attached. -/
theorem closeSigns_terms (ts : List (Separator × Term)) :
    closeSigns (termsText Term.text ts) = termsText Term.attached ts := by
  induction ts with
  | nil => exact closeSigns_nil
  | cons t ts ih =>
      calc closeSigns (termsText Term.text (t :: ts))
          = closeSigns (t.1.text ++ (t.2.text ++ termsText Term.text ts)) := by
            rw [termsText, List.flatMap_cons, List.append_assoc, termsText]
        _ = t.1.text ++ (t.2.attached ++ termsText Term.attached ts) := by
            rw [closeSigns_append_of_forall (not_isSign_separator t.1), closeSigns_term_append, ih]
        _ = termsText Term.attached (t :: ts) := by
            rw [termsText, termsText, List.flatMap_cons, List.append_assoc]

theorem fails_char_of_isBlank {x : Char} (hx : isBlank x = false) {q : Pattern Part} (b : Char)
    (t : List Char) (hb : isBlank b = true) : (seq (char (· == x)) q).Fails (b :: t) := by
  apply fails_seq_left
  apply fails_char
  rw [stops_cons, beq_eq_false_iff_ne]
  rintro rfl
  exact absurd hb (by simp [hx])

/-- Without a comma behind the blanks there is no comma between terms. -/
theorem fails_comma {a s : List Char} (ha : ∀ c ∈ a, isBlank c = true) (hs : Stops isBlank s)
    (hcomma : Stops (· == ',') s) :
    (chain [chars isBlank, char (· == ','), chars isBlank] : Pattern Part).Fails (a ++ s) :=
  fails_chars_seq ha hs (fails_char_of_isBlank (by decide)) (fails_seq_left (fails_char hcomma))

/-- No separator starts in a text without blanks and commas. -/
theorem misses_termBreak {a : List Char} (ha : ∀ c ∈ a, isBlank c = false ∧ c ≠ ',')
    (s : List Char) : termBreak.Misses a s := by
  apply misses_of_forall fun c => isBlank c || c == ','
  · intro t ht
    have hstops : Stops isBlank t ∧ Stops (· == ',') t := by
      cases t <;> simp_all
    exact fails_alt (fails_comma (a := []) (by simp) hstops.1 hstops.2) (fails_chars1 hstops.1)
  · intro c hc
    simpa using ha c hc

/-- A separator starts at every blank. -/
theorem not_fails_termBreak {c : Char} (hc : isBlank c = true) (s : List Char) :
    ¬ termBreak.Fails (c :: s) := by
  intro h
  have hblank : (chars1 isBlank : Pattern Part).CanRead (c :: s) s :=
    canRead_chars1.mpr ⟨[c], List.cons_ne_nil _ _, rfl, List.forall_mem_singleton.mpr hc⟩
  exact fails_iff.mp h s (canRead_alt.mpr (.inr hblank))

/-- A separator is read whole in front of anything but a blank or a comma. -/
theorem reads_termBreak (sep : Separator) {s : List Char} (hs : Stops isBlank s)
    (hcomma : Stops (· == ',') s) : termBreak.Reads (sep.text ++ s) s [] := by
  cases sep with
  | gap g =>
      exact (reads_chars1 g.ne_nil g.isBlank hs).alt_right (fails_comma g.isBlank hs hcomma)
  | comma before after =>
      have hbefore : (chars isBlank : Pattern Part).Reads
          (before.chars ++ ',' :: (after.chars ++ s)) (',' :: (after.chars ++ s)) [] :=
        reads_chars before.isBlank (by rw [stops_cons]; decide)
      have hmark : (char (· == ',') : Pattern Part).Reads (',' :: (after.chars ++ s))
          (after.chars ++ s) [] := reads_char rfl
      have h := (hbefore.seq (hmark.seq (reads_chars after.isBlank hs))).alt_left
        (q := chars1 isBlank)
      rw [Separator.text, List.append_assoc]
      exact h

theorem startsTerm_attached (t : Term) : StartsTerm t.attached :=
  startsTerm_of_forall (attached_ne_nil t) (forall_mem_attached t)

theorem misses_attached (t : Term) (s : List Char) : termBreak.Misses t.attached s :=
  misses_termBreak (fun c hc => (by decide : ∀ c ∈ termChars, isBlank c = false ∧ c ≠ ',') c
    (forall_mem_attached t c hc)) s

/-- Terms with attached operators are cut at their separators. -/
theorem split_terms (first : Term) (rest : List (Separator × Term)) :
    termBreak.split (first.attached ++ termsText Term.attached rest)
      = first.attached :: rest.map fun t => t.2.attached :=
  split_pieces rfl (misses_attached first) (fun t _ => misses_attached t.2)
    fun t _ s => ⟨[], reads_termBreak t.1
      (((startsTerm_attached t.2).append s).stops (by decide))
      (((startsTerm_attached t.2).append s).stops (by decide))⟩

end DocTags.Constraint
