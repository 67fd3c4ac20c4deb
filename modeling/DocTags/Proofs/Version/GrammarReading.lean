import DocTags.Proofs.Version.TermReading
import Mathlib.Data.List.Chain

/-!
# Reading written constraints

A constraint of the grammar is cut at its bars and its separators into the terms that it was written
from, and all of them are accepted. Its terms are never taken for a range, because no hyphen in them
has a blank in front.
-/

namespace DocTags.Constraint

open Text Pattern

theorem mem_mark {x c : Char} {w : Bool} (h : c ∈ mark x w) : c = x := by
  cases w with
  | false => exact absurd h List.not_mem_nil
  | true => exact List.mem_singleton.mp h

section Characters

variable {P : Char → Prop} (hpoint : P '.') (hhyphen : P '-')
  (halpha : ∀ c, c.isAlpha = true → P c) (hdecimal : ∀ c, isDecimal c = true → P c)

include hpoint hhyphen halpha hdecimal

theorem forall_mem_suffixText (x : Option Suffix) : ∀ c ∈ suffixText x, P c := by
  cases x with
  | none => exact List.forall_mem_nil _
  | some x =>
      intro c hc
      simp only [suffixText, Option.elim_some, Suffix.text, List.mem_append] at hc
      rcases hc with hc | hc | hc | hc
      · exact mem_mark hc ▸ hhyphen
      · exact halpha c (x.isAlpha c hc)
      · exact mem_mark hc ▸ hpoint
      · exact hdecimal c (x.isDecimal c hc)

omit hhyphen in
/-- A letter, a release and what follows it consist of digits, letters and a few marks. -/
theorem forall_mem_release_append {a : List Char} (ha : ∀ c ∈ a, P c) (letter : Bool)
    (r : Release) : ∀ c ∈ mark 'v' letter ++ (r.text ++ a), P c := by
  have hdigit : ∀ c ∈ "0123456789".toList, P c := by
    intro c hc
    exact hdecimal c ((by decide : ∀ c ∈ "0123456789".toList, isDecimal c = true) c hc)
  refine List.forall_mem_append.mpr ⟨fun c hc => ?_, ?_⟩
  · exact mem_mark hc ▸ halpha 'v' (by decide)
  · exact List.forall_mem_append.mpr ⟨r.forall_mem_text hdigit hpoint, ha⟩

/-- What stands behind an operator consists of digits, letters and a few marks. -/
theorem forall_mem_body (hstar : P '*') (t : WrittenTerm) : ∀ c ∈ t.body, P c := by
  have hsuffix := forall_mem_suffixText hpoint hhyphen halpha hdecimal
  cases t with
  | anything letter =>
      refine List.forall_mem_append.mpr ⟨fun c hc => ?_, List.forall_mem_singleton.mpr hstar⟩
      exact mem_mark hc ▸ halpha 'v' (by decide)
  | wildcard letter r x =>
      have hwildcard : ∀ c ∈ ['.', '*'] ++ suffixText x, P c :=
        List.forall_mem_append.mpr ⟨by simp [hpoint, hstar], hsuffix x⟩
      exact forall_mem_release_append hpoint halpha hdecimal hwildcard letter r
  | version o letter r x h =>
      exact forall_mem_release_append hpoint halpha hdecimal (hsuffix x) letter r

end Characters

/-- Neither a blank nor a mark that joins or compares terms. -/
def IsPlain (c : Char) : Prop :=
  isBlank c = false ∧ c ∉ ",|^~<>=!".toList

theorem isPlain_of {p : Char → Bool} (hblank : ∀ n ∈ blankCodes, p (Char.ofNat n) = false)
    (hmark : ∀ c ∈ ",|^~<>=!".toList, p c = false) {c : Char} (h : p c = true) : IsPlain c := by
  constructor
  · rw [Bool.eq_false_iff]
    intro hc
    exact Bool.false_ne_true ((eq_false_of_isBlank hblank hc).symm.trans h)
  · intro hc
    exact Bool.false_ne_true ((hmark c hc).symm.trans h)

theorem mem_of_isSign {c : Char} (h : isSign c = true) : c ∈ "^~<>=!".toList := by
  simpa [isSign, isComparison, or_assoc, or_comm, or_left_comm] using h

theorem IsPlain.not_isSign {c : Char} (h : IsPlain c) : isSign c = false := by
  rw [Bool.eq_false_iff]
  intro hc
  exact h.2 ((by decide : ∀ c ∈ "^~<>=!".toList, c ∈ ",|^~<>=!".toList) c (mem_of_isSign hc))

theorem not_isBlank_of_isSign {c : Char} (h : isSign c = true) : isBlank c = false :=
  (by decide : ∀ c ∈ "^~<>=!".toList, isBlank c = false) c (mem_of_isSign h)

theorem isPlain_body (t : WrittenTerm) : ∀ c ∈ t.body, IsPlain c :=
  forall_mem_body (P := IsPlain) ⟨by decide, by decide⟩ ⟨by decide, by decide⟩
    (fun _ => isPlain_of (by decide) (by decide)) (fun _ => isPlain_of (by decide) (by decide))
    ⟨by decide, by decide⟩ t

theorem body_ne_nil (t : WrittenTerm) : t.body ≠ [] := by
  cases t <;> simp [WrittenTerm.body, text_ne_nil]

theorem closed_ne_nil (t : WrittenTerm) : t.closed ≠ [] := by
  simp [WrittenTerm.closed, body_ne_nil]

theorem stops_isBlank_body (t : WrittenTerm) (s : List Char) : Stops isBlank (t.body ++ s) :=
  stops_append_of_ne_nil (body_ne_nil t) (fun c hc => (isPlain_body t c hc).1) s

theorem isSign_of_mem_operator (op : Operator) : ∀ c ∈ op.text, isSign c = true := by
  cases op with
  | caret => decide
  | tilde => decide
  | compare sign => cases sign <;> decide

/-- An operator is a sign, or a sign with an equality sign behind it. -/
theorem operator_eq (op : Operator) :
    (∃ c, isSign c = true ∧ op.text = [c]) ∨ ∃ c, isSign c = true ∧ op.text = [c, '='] := by
  cases op with
  | caret => exact .inl ⟨'^', rfl, rfl⟩
  | tilde => exact .inl ⟨'~', rfl, rfl⟩
  | compare sign =>
      cases sign with
      | gt => exact .inl ⟨'>', rfl, rfl⟩
      | lt => exact .inl ⟨'<', rfl, rfl⟩
      | eq => exact .inl ⟨'=', rfl, rfl⟩
      | ge => exact .inr ⟨'>', rfl, rfl⟩
      | le => exact .inr ⟨'<', rfl, rfl⟩
      | eqEq => exact .inr ⟨'=', rfl, rfl⟩
      | ne => exact .inr ⟨'!', rfl, rfl⟩

/-- A written operator starts with a sign. -/
theorem WrittenOperator.exists_text_eq_cons (o : WrittenOperator) :
    ∃ c s, isSign c = true ∧ o.text = c :: s := by
  rcases operator_eq o.operator with ⟨c, hc, hop⟩ | ⟨c, hc, hop⟩
  · exact ⟨c, _, hc, by rw [text, hop]; rfl⟩
  · exact ⟨c, _, hc, by rw [text, hop]; rfl⟩

/-- A written operator consists of signs and blanks. -/
theorem WrittenOperator.isSign_or_isBlank (o : WrittenOperator) :
    ∀ c ∈ o.text, isSign c = true ∨ isBlank c = true := by
  intro c hc
  simp only [text, List.mem_append] at hc
  rcases hc with hc | hc | hc | hc
  · exact .inl (isSign_of_mem_operator o.operator c (List.mem_of_mem_take hc))
  · exact .inr (o.inner.isBlank c hc)
  · exact .inl (isSign_of_mem_operator o.operator c (List.mem_of_mem_drop hc))
  · exact .inr (o.behind.isBlank c hc)

theorem startsSolid_term (t : WrittenTerm) : StartsSolid t.text := by
  have hbody : StartsSolid t.body :=
    startsSolid_of_forall (body_ne_nil t) fun c hc => (isPlain_body t c hc).1
  rw [WrittenTerm.text]
  cases t.operator? with
  | none => exact hbody
  | some o =>
      obtain ⟨c, s, hc, hs⟩ := o.exists_text_eq_cons
      apply StartsSolid.append
      exact ⟨c, s, hs, not_isBlank_of_isSign hc⟩

theorem endsSolid_term (t : WrittenTerm) : EndsSolid t.text :=
  (endsSolid_of_forall (body_ne_nil t) fun c hc => (isPlain_body t c hc).1).append _

/-- A closed term has neither blanks nor commas. -/
theorem solid_closed (t : WrittenTerm) : ∀ c ∈ t.closed, isBlank c = false ∧ c ≠ ',' := by
  rw [WrittenTerm.closed, List.forall_mem_append]
  constructor
  · cases t.operator? with
    | none => exact List.forall_mem_nil _
    | some o =>
        intro c hc
        have hsign := mem_of_isSign (isSign_of_mem_operator o.operator c hc)
        exact (by decide : ∀ c ∈ "^~<>=!".toList, isBlank c = false ∧ c ≠ ',') c hsign
  · intro c hc
    have hplain := isPlain_body t c hc
    exact ⟨hplain.1, by rintro rfl; exact hplain.2 (by decide)⟩

/-- The blanks of an operator are dropped. -/
theorem closeSigns_writtenOperator (o : WrittenOperator) {s : List Char} (hs : Stops isBlank s) :
    closeSigns (o.text ++ s) = o.operator.text ++ closeSigns s := by
  rcases operator_eq o.operator with ⟨c, hc, hop⟩ | ⟨c, hc, hop⟩
  · have hblank : ∀ x ∈ o.inner.chars ++ o.behind.chars, isBlank x = true :=
      List.forall_mem_append.mpr ⟨o.inner.isBlank, o.behind.isBlank⟩
    have htext : o.text ++ s = c :: ((o.inner.chars ++ o.behind.chars) ++ s) := by
      simp [WrittenOperator.text, hop]
    rw [htext, closeSigns_sign hc hblank hs, hop, List.singleton_append]
  · have hequal : isSign '=' = true := rfl
    have htext : o.text ++ s = c :: (o.inner.chars ++ '=' :: (o.behind.chars ++ s)) := by
      simp [WrittenOperator.text, hop]
    rw [htext, closeSigns_sign hc o.inner.isBlank ((stops_cons _ _ _).mpr (by decide)),
      closeSigns_sign hequal o.behind.isBlank hs, hop]
    rfl

/-- Closing a written term drops the blanks of its operator. -/
theorem closeSigns_writtenTerm (t : WrittenTerm) (s : List Char) :
    closeSigns (t.text ++ s) = t.closed ++ closeSigns s := by
  have hplain : ∀ c ∈ t.body, isSign c = false := fun c hc => (isPlain_body t c hc).not_isSign
  rw [WrittenTerm.text, WrittenTerm.closed, List.append_assoc, List.append_assoc]
  cases t.operator? with
  | none => exact closeSigns_append_of_forall hplain s
  | some o =>
      rw [Option.elim_some, Option.elim_some, closeSigns_writtenOperator o (stops_isBlank_body t s),
        closeSigns_append_of_forall hplain]

/-- Closing joined terms drops the blanks of their operators. -/
theorem closeSigns_joined (ts : List (Separator × WrittenTerm)) :
    closeSigns (joined Separator.text WrittenTerm.text ts)
      = joined Separator.text WrittenTerm.closed ts := by
  induction ts with
  | nil => exact closeSigns_nil
  | cons t ts ih =>
      calc closeSigns (joined Separator.text WrittenTerm.text (t :: ts))
          = closeSigns (t.1.text ++ (t.2.text ++ joined Separator.text WrittenTerm.text ts)) := by
            rw [joined, List.flatMap_cons, List.append_assoc, joined]
        _ = t.1.text ++ (t.2.closed ++ joined Separator.text WrittenTerm.closed ts) := by
            rw [closeSigns_append_of_forall (not_isSign_separator t.1), closeSigns_writtenTerm, ih]
        _ = joined Separator.text WrittenTerm.closed (t :: ts) := by
            rw [joined, joined, List.flatMap_cons, List.append_assoc]

/-- Closed terms are cut at their separators. -/
theorem split_closed (first : WrittenTerm) (rest : List (Separator × WrittenTerm)) :
    termBreak.split (first.closed ++ joined Separator.text WrittenTerm.closed rest)
      = first.closed :: rest.map fun t => t.2.closed := by
  have hmisses (t : WrittenTerm) (s : List Char) : termBreak.Misses t.closed s :=
    misses_termBreak (solid_closed t) s
  refine split_pieces rfl (hmisses first) (fun t _ => hmisses t.2) fun t _ s => ⟨[], ?_⟩
  apply reads_termBreak t.1
  · exact stops_append_of_ne_nil (closed_ne_nil t.2) (fun c hc => (solid_closed t.2 c hc).1) s
  · exact stops_append_of_ne_nil (closed_ne_nil t.2)
      (fun c hc => beq_eq_false_iff_ne.mpr (solid_closed t.2 c hc).2) s

/-- No hyphen has a blank in front. -/
def HasTightHyphens (s : List Char) : Prop :=
  s.IsChain fun b c => isBlank b = true → c ≠ '-'

theorem hasTightHyphens_of_solid {s : List Char} (h : ∀ c ∈ s, isBlank c = false) :
    HasTightHyphens s := by
  apply List.Pairwise.isChain
  apply List.pairwise_of_forall_mem_list
  intro b hb c _ hblank
  exact absurd (h b hb) (by simp [hblank])

theorem hasTightHyphens_of_not_mem {s : List Char} (h : '-' ∉ s) : HasTightHyphens s := by
  apply List.Pairwise.isChain
  apply List.pairwise_of_forall_mem_list
  intro b _ c hc _
  exact ne_of_mem_of_not_mem hc h

theorem HasTightHyphens.append {s t : List Char} (hs : HasTightHyphens s)
    (ht : HasTightHyphens t) (h : Stops (· == '-') t) : HasTightHyphens (s ++ t) := by
  refine List.isChain_append.mpr ⟨hs, ht, ?_⟩
  intro b _ c hc _
  exact beq_eq_false_iff_ne.mp (h c hc)

/-- A text without blanks in front of its hyphens is no range. -/
theorem HasTightHyphens.fails_hyphenRange {s : List Char} (hs : HasTightHyphens s) :
    hyphenRange.Fails s := by
  apply fails_iff.mpr
  intro s' h
  obtain ⟨m, hlower, h⟩ := canRead_seq.mp h
  obtain ⟨m', hbefore, h⟩ := canRead_seq.mp h
  obtain ⟨t, hhyphen, -⟩ := canRead_seq.mp h
  obtain ⟨c, hc, rfl⟩ := canRead_char.mp hhyphen
  obtain rfl : c = '-' := by simpa using hc
  obtain ⟨a, rfl⟩ := hlower.suffix
  obtain ⟨b, hne, rfl, hb⟩ := canRead_chars1.mp hbefore
  obtain ⟨b, x, rfl⟩ := (List.eq_nil_or_concat b).resolve_left hne
  have hblank : isBlank x = true := hb x (by simp)
  have hcut : a ++ (b.concat x ++ '-' :: t) = (a ++ b) ++ x :: '-' :: t := by
    simp
  exact absurd rfl (List.isChain_iff_forall_rel_of_append_cons_cons.mp hs hcut hblank)

theorem joined_cons {γ ι : Type} (gap : γ → List Char) (piece : ι → List Char) (i : γ × ι)
    (is : List (γ × ι)) :
    joined gap piece (i :: is) = gap i.1 ++ (piece i.2 ++ joined gap piece is) := by
  rw [joined, List.flatMap_cons, List.append_assoc, joined]

/-- No written term starts with a hyphen. -/
theorem stops_hyphen_term (t : WrittenTerm) (s : List Char) :
    Stops (· == '-') (t.text ++ s) := by
  rw [WrittenTerm.text]
  cases t.operator? with
  | none =>
      have hbody : Stops (· == '-') t.body :=
        stops_body (by decide) (by decide) (by decide) t
      exact hbody.append (body_ne_nil t) s
  | some o =>
      obtain ⟨c, u, hc, hu⟩ := o.exists_text_eq_cons
      rw [Option.elim_some, hu]
      apply (stops_cons _ _ _).mpr
      exact (by decide : ∀ c ∈ "^~<>=!".toList, (c == '-') = false) c (mem_of_isSign hc)

theorem hasTightHyphens_term (t : WrittenTerm) : HasTightHyphens t.text := by
  have hbody : HasTightHyphens t.body :=
    hasTightHyphens_of_solid fun c hc => (isPlain_body t c hc).1
  rw [WrittenTerm.text]
  cases t.operator? with
  | none => exact hbody
  | some o =>
      have hop : '-' ∉ o.text := by
        intro h
        exact absurd (o.isSign_or_isBlank '-' h) (by decide)
      exact (hasTightHyphens_of_not_mem hop).append hbody
        (stops_body (by decide) (by decide) (by decide) t)

theorem hasTightHyphens_terms (first : WrittenTerm) (rest : List (Separator × WrittenTerm)) :
    HasTightHyphens (first.text ++ joined Separator.text WrittenTerm.text rest) := by
  induction rest generalizing first with
  | nil => exact (List.append_nil first.text).symm ▸ hasTightHyphens_term first
  | cons t rest ih =>
      have hsep : ∀ c ∈ t.1.text, c ∉ ['-'] := forall_mem_separator (by decide) (by decide) t.1
      have htail : HasTightHyphens
          (t.1.text ++ (t.2.text ++ joined Separator.text WrittenTerm.text rest)) :=
        (hasTightHyphens_of_not_mem fun h => hsep '-' h List.mem_cons_self).append (ih t.2)
          (stops_hyphen_term t.2 _)
      rw [joined_cons]
      apply (hasTightHyphens_term first).append htail
      apply stops_append _ (stops_hyphen_term t.2 _)
      intro c hc
      exact beq_eq_false_iff_ne.mpr fun h => hsep c hc (List.mem_singleton.mpr h)

theorem endsSolid_append_joined {γ ι : Type} {gap : γ → List Char} {piece : ι → List Char}
    {s : List Char} {is : List (γ × ι)} (hs : EndsSolid s) (h : ∀ i, EndsSolid (piece i)) :
    EndsSolid (s ++ joined gap piece is) := by
  induction is generalizing s with
  | nil => rwa [joined, List.flatMap_nil, List.append_nil]
  | cons i is ih =>
      rw [joined_cons, ← List.append_assoc, ← List.append_assoc]
      exact ih ((h i.2).append _)

theorem not_mem_joined {γ ι : Type} {gap : γ → List Char} {piece : ι → List Char} {c : Char}
    (hgap : ∀ g, c ∉ gap g) (hpiece : ∀ i, c ∉ piece i) (is : List (γ × ι)) :
    c ∉ joined gap piece is := by
  intro h
  obtain ⟨i, -, hc⟩ := List.mem_flatMap.mp h
  exact (List.mem_append.mp hc).elim (hgap i.1) (hpiece i.2)

theorem WrittenVersion.text_ne_nil (v : WrittenVersion) : v.text ≠ [] := by
  intro h
  exact v.isVersion (h ▸ rfl)

theorem startsSolid_alternative (a : WrittenAlternative) : StartsSolid a.text := by
  cases a with
  | range lower before after upper =>
      exact (startsSolid_of_forall lower.text_ne_nil lower.solid).append _
  | terms first rest => exact (startsSolid_term first).append _

theorem endsSolid_alternative (a : WrittenAlternative) : EndsSolid a.text := by
  cases a with
  | range lower before after upper =>
      have hupper := endsSolid_of_forall upper.text_ne_nil upper.solid
      have h := ((hupper.append after.chars).append (before.chars ++ ['-'])).append lower.text
      simpa [WrittenAlternative.text] using h
  | terms first rest => exact endsSolid_append_joined (endsSolid_term first) endsSolid_term

theorem not_mem_bar_term (t : WrittenTerm) : '|' ∉ t.text := by
  rw [WrittenTerm.text, List.mem_append, not_or]
  constructor
  · cases t.operator? with
    | none => exact List.not_mem_nil
    | some o =>
        intro h
        exact absurd (o.isSign_or_isBlank '|' h) (by decide)
  · intro h
    exact (isPlain_body t '|' h).2 (by decide)

/-- No bar stands in an alternative. -/
theorem not_mem_bar_alternative (a : WrittenAlternative) : '|' ∉ a.text := by
  cases a with
  | range lower before after upper =>
      have hversion (v : WrittenVersion) : '|' ∉ v.text :=
        Version.not_mem_of_read (by decide) v.isVersion
      have hgap (g : Gap) : '|' ∉ g.chars := fun h => absurd (g.isBlank '|' h) (by decide)
      simp [WrittenAlternative.text, hversion, hgap]
  | terms first rest =>
      have hsep (g : Separator) : '|' ∉ g.text :=
        fun h =>
          forall_mem_separator (l := ['|']) (by decide) (by decide) g '|' h List.mem_cons_self
      rw [WrittenAlternative.text, List.mem_append, not_or]
      exact ⟨not_mem_bar_term first, not_mem_joined hsep not_mem_bar_term rest⟩

/-- A written alternative is read, up to numbers with too many digits. -/
theorem failsWithin_readAlternative (a : WrittenAlternative) :
    FailsWithin Fault.IsTooLong (readAlternative a.text) := by
  cases a with
  | range lower before after upper =>
      rw [WrittenAlternative.text, ← hyphenated, readAlternative_hyphenated lower.text_ne_nil
        upper.text_ne_nil lower.solid upper.solid]
      exact failsWithin_readHyphenRange lower.isVersion upper.isVersion
  | terms first rest =>
      have hne : (WrittenAlternative.terms first rest).text.isEmpty = false := by
        obtain ⟨c, t, ht, -⟩ := startsSolid_alternative (.terms first rest)
        rw [ht]
        rfl
      have hpieces : termBreak.split (attachOperators (WrittenAlternative.terms first rest).text)
          = first.closed :: rest.map fun t => t.2.closed := by
        rw [attachOperators_eq_closeSigns, WrittenAlternative.text, closeSigns_writtenTerm,
          closeSigns_joined, split_closed]
      have hfails : hyphenRange.Fails (WrittenAlternative.terms first rest).text :=
        (hasTightHyphens_terms first rest).fails_hyphenRange
      rw [readAlternative, if_neg (Bool.eq_false_iff.mp hne), matchFront?_of_fails hfails, hpieces]
      refine FailsWithin.map (FailsWithin.mapM ?_) _
      rw [List.forall_mem_cons, List.forall_mem_map]
      exact ⟨failsWithin_readTerm first, fun t _ => failsWithin_readTerm t.2⟩

/-- A written constraint is cut at its bars. -/
theorem split_constraint (e : WrittenConstraint) :
    alternativeBreak.split e.text = e.first.text :: e.rest.map fun a => a.2.text := by
  have hmisses (a : WrittenAlternative) (s : List Char) : alternativeBreak.Misses a.text s :=
    misses_alternativeBreak (not_mem_bar_alternative a) (endsSolid_alternative a) s
  refine split_pieces rfl (hmisses e.first) (fun a _ => hmisses a.2) fun a _ s => ⟨[], ?_⟩
  obtain ⟨c, t, ht, hc⟩ := startsSolid_alternative a.2
  apply reads_alternativeBreak a.1
  · rw [ht]
    exact (stops_cons _ _ _).mpr hc
  · rw [ht]
    apply (stops_cons _ _ _).mpr
    rw [beq_eq_false_iff_ne]
    rintro rfl
    exact not_mem_bar_alternative a.2 (ht ▸ List.mem_cons_self)

/-- A written constraint is read, up to numbers with too many digits. -/
theorem failsWithin_read {s : String} {e : WrittenConstraint} (he : e.text = trim s.toList) :
    FailsWithin Fault.IsTooLong (read s) := by
  have hne : e.text.isEmpty = false := by
    obtain ⟨c, t, ht, -⟩ := startsSolid_alternative e.first
    rw [WrittenConstraint.text, ht]
    rfl
  rw [read, ← he, if_neg (Bool.eq_false_iff.mp hne), split_constraint]
  refine FailsWithin.map (FailsWithin.mapM ?_) _
  rw [List.forall_mem_cons, List.forall_mem_map]
  exact ⟨failsWithin_readAlternative e.first, fun a _ => failsWithin_readAlternative a.2⟩

end DocTags.Constraint
