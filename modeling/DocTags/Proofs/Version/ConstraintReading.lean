import DocTags.Proofs.Version.ExpressionCutting

/-!
# Reading constraints

A written expression is cut into its alternatives, and each of them reads as the bounds that it
stands for. So a constraint is read exactly if the expression is legible, and then it admits the
final releases that the expression says.
-/

namespace DocTags.Constraint

open Text Pattern
open Version (place)

theorem startsTerm_text (t : Term) : StartsTerm t.text := by
  cases t with
  | operated op blanks r =>
      have hne : op.text ≠ [] := by
        cases op with
        | caret => simp [Operator.text]
        | tilde => simp [Operator.text]
        | compare sign => cases sign <;> simp [Operator.text, Sign.text]
      exact (startsTerm_of_forall hne (forall_mem_operator op)).append _
  | wildcard r => exact startsTerm_attached (.wildcard r)
  | anything => exact startsTerm_attached .anything
  | bare r => exact startsTerm_attached (.bare r)

theorem endsTerm_release (r : Release) : EndsTerm r.text :=
  endsTerm_of_forall (text_ne_nil r) (forall_mem_text r)

theorem endsTerm_text (t : Term) : EndsTerm t.text := by
  cases t with
  | operated op blanks r => exact ((endsTerm_release r).append _).append _
  | wildcard r =>
      exact endsTerm_of_forall (attached_ne_nil (.wildcard r)) (forall_mem_attached (.wildcard r))
  | anything => exact endsTerm_of_forall (attached_ne_nil .anything) (forall_mem_attached .anything)
  | bare r => exact endsTerm_release r

/-- A text that goes on with pieces ends with the last of them. -/
theorem endsTerm_append_flatMap {ι : Type} {f : ι → List Char} {s : List Char} {l : List ι}
    (hs : EndsTerm s) (hf : ∀ i ∈ l, EndsTerm (f i)) : EndsTerm (s ++ l.flatMap f) := by
  induction l generalizing s with
  | nil => rwa [List.flatMap_nil, List.append_nil]
  | cons i l ih =>
      rw [List.forall_mem_cons] at hf
      rw [List.flatMap_cons, ← List.append_assoc]
      exact ih (hf.1.append s) hf.2

theorem startsTerm_alternative (a : Alternative) : StartsTerm a.text := by
  cases a with
  | range lower before after upper =>
      exact (startsTerm_attached (.bare lower)).append _
  | terms first rest => exact (startsTerm_text first).append _

theorem endsTerm_alternative (a : Alternative) : EndsTerm a.text := by
  cases a with
  | range lower before after upper =>
      have hsign := ((endsTerm_release upper).append after.chars).append (before.chars ++ ['-'])
      have h := hsign.append lower.text
      simpa [Alternative.text] using h
  | terms first rest =>
      exact endsTerm_append_flatMap (endsTerm_text first) fun t _ => (endsTerm_text t.2).append _

section Characters

variable {l : List Char} (hblank : ∀ x ∈ l, isBlank x = false) (hterm : ∀ x ∈ termChars, x ∉ l)

include hblank hterm

theorem not_mem_term (t : Term) : ∀ c ∈ t.text, c ∉ l := by
  cases t with
  | operated op blanks r =>
      intro c hc
      rcases List.mem_append.mp hc with hc | hc
      · exact hterm c (forall_mem_operator op c hc)
      · rcases List.mem_append.mp hc with hc | hc
        · exact not_mem_of_isBlank hblank (blanks.isBlank c hc)
        · exact hterm c (forall_mem_text r c hc)
  | wildcard r => exact fun c hc => hterm c (forall_mem_attached (.wildcard r) c hc)
  | anything => exact fun c hc => hterm c (forall_mem_attached .anything c hc)
  | bare r => exact fun c hc => hterm c (forall_mem_text r c hc)

theorem not_mem_terms (hcomma : ',' ∉ l) (first : Term) (rest : List (Separator × Term)) :
    ∀ c ∈ (Alternative.terms first rest).text, c ∉ l := by
  intro c hc
  rcases List.mem_append.mp hc with hc | hc
  · exact not_mem_term hblank hterm first c hc
  · obtain ⟨t, -, hc⟩ := List.mem_flatMap.mp hc
    rcases List.mem_append.mp hc with hc | hc
    · exact forall_mem_separator hblank hcomma t.1 c hc
    · exact not_mem_term hblank hterm t.2 c hc

theorem not_mem_alternative (hcomma : ',' ∉ l) (hhyphen : '-' ∉ l) (a : Alternative) :
    ∀ c ∈ a.text, c ∉ l := by
  cases a with
  | range lower before after upper =>
      have hgap (g : Gap) : ∀ c ∈ g.chars, c ∉ l :=
        fun c hc => not_mem_of_isBlank hblank (g.isBlank c hc)
      have hrelease (r : Release) : ∀ c ∈ r.text, c ∉ l :=
        fun c hc => hterm c (forall_mem_text r c hc)
      simp only [Alternative.text, List.forall_mem_append, List.forall_mem_cons]
      exact ⟨hrelease lower, hgap before, hhyphen, hgap after, hrelease upper⟩
  | terms first rest => exact not_mem_terms hblank hterm hcomma first rest

end Characters

theorem forall_not_isBlank_text (r : Release) : ∀ c ∈ r.text, isBlank c = false :=
  r.forall_mem_text (by decide) (by decide)

theorem stops_gap (g : Gap) (s : List Char) : Stops (fun c => !isBlank c) (g.chars ++ s) := by
  apply stops_append_of_ne_nil g.ne_nil
  intro b hb
  rw [g.isBlank b hb]
  rfl

/-- Two texts joined by a hyphen with blanks around it. -/
def hyphenated (lower : List Char) (before after : Gap) (upper : List Char) : List Char :=
  lower ++ (before.chars ++ '-' :: (after.chars ++ upper))

/-- Two texts without blanks are taken apart at the hyphen between them. -/
theorem reads_hyphenRange {lower upper : List Char} (hne : lower ≠ []) (hne' : upper ≠ [])
    (hlow : ∀ c ∈ lower, isBlank c = false) (hupp : ∀ c ∈ upper, isBlank c = false)
    (before after : Gap) :
    hyphenRange.Reads (hyphenated lower before after upper) []
      [(.upper, ⟨upper, []⟩),
        (.lower, ⟨hyphenated lower before after upper,
          before.chars ++ '-' :: (after.chars ++ upper)⟩)] := by
  have hlower : (chars1 fun c => !isBlank c : Pattern Part).Reads
      (hyphenated lower before after upper)
      (before.chars ++ '-' :: (after.chars ++ upper)) [] :=
    reads_chars1 hne (by simpa using hlow) (stops_gap before _)
  have hbefore : (chars1 isBlank : Pattern Part).Reads
      (before.chars ++ '-' :: (after.chars ++ upper)) ('-' :: (after.chars ++ upper)) [] :=
    reads_chars1 before.ne_nil before.isBlank (by rw [stops_cons]; decide)
  have hhyphen : (char (· == '-') : Pattern Part).Reads ('-' :: (after.chars ++ upper))
      (after.chars ++ upper) [] := reads_char rfl
  have hafter : (chars1 isBlank : Pattern Part).Reads (after.chars ++ upper) upper [] :=
    reads_chars1 after.ne_nil after.isBlank (by simpa using stops_append_of_ne_nil hne' hupp [])
  have hupper : (chars1 fun c => !isBlank c : Pattern Part).Reads upper [] [] := by
    simpa using reads_chars1 (κ := Part) hne' (by simpa using hupp) (stops_nil _)
  have h := (hlower.group .lower).seq (hbefore.seq (hhyphen.seq (hafter.seq
    ((hupper.group .upper).seq reads_textEnd))))
  exact h

section Hyphenated

variable {lower upper : List Char} (hne : lower ≠ []) (hne' : upper ≠ [])
  (hlow : ∀ c ∈ lower, isBlank c = false) (hupp : ∀ c ∈ upper, isBlank c = false)
  (before after : Gap)

include hne hlow in
theorem startsSolid_hyphenated : StartsSolid (hyphenated lower before after upper) :=
  (startsSolid_of_forall hne hlow).append _

include hne' hupp in
theorem endsSolid_hyphenated : EndsSolid (hyphenated lower before after upper) := by
  have hcut : hyphenated lower before after upper
      = (lower ++ before.chars ++ '-' :: after.chars) ++ upper := by
    simp [hyphenated]
  rw [hcut]
  exact (endsSolid_of_forall hne' hupp).append _

include hne hne' hlow hupp in
/-- An alternative of two texts joined by a hyphen is read as a range. -/
theorem readAlternative_hyphenated : readAlternative (hyphenated lower before after upper)
    = readHyphenRange lower upper := by
  rw [readAlternative, if_neg (by simp [hyphenated]),
    matchFront?_of_reads (reads_hyphenRange hne hne' hlow hupp before after)]
  simp [Match.groupD, Match.group?, hyphenated]

end Hyphenated

/-- A text without a hyphen is no range. -/
theorem fails_hyphenRange {s : List Char} (hs : '-' ∉ s) : hyphenRange.Fails s := by
  apply fails_iff.mpr
  intro s' h
  obtain ⟨m, hlower, h⟩ := canRead_seq.mp h
  obtain ⟨m', hbefore, h⟩ := canRead_seq.mp h
  obtain ⟨t, hhyphen, -⟩ := canRead_seq.mp h
  obtain ⟨c, hc, rfl⟩ := canRead_char.mp hhyphen
  obtain rfl : c = '-' := by simpa using hc
  exact hs (hlower.suffix.mem (hbefore.suffix.mem List.mem_cons_self))

/-- A range reads as the bounds that it stands for, if it is legible. -/
theorem readHyphenRange_text (lower upper : Release) (before after : Gap) :
    GivesIff Fault.IsTooLong (readHyphenRange lower.text upper.text)
      (Alternative.range lower before after upper).IsLegible
      (Alternative.range lower before after upper).bounds := by
  rw [Alternative.IsLegible, Alternative.bounds]
  refine (readVersion_text lower).bind fun _ => ?_
  refine (readVersion_text upper).bind_of_imp (fun hr => ?_) ?_
  · simp only
    split
    · exact (bump_ofRelease hr (length_numbers_pos upper)).map _
    · exact (GivesIff.ok _ _).congr (iff_of_true trivial hr)
  · intro h
    split at h
    · exact h.1
    · exact h

/-- The terms of an alternative, each read for itself. -/
theorem readTerms (first : Term) (rest : List (Separator × Term)) :
    GivesIff Fault.IsTooLong
      (((termBreak.split (attachOperators (Alternative.terms first rest).text)).mapM readTerm).map
        List.flatten)
      (Alternative.terms first rest).IsLegible (Alternative.terms first rest).bounds := by
  have hpieces : termBreak.split (attachOperators (Alternative.terms first rest).text)
      = (first :: rest.map (·.2)).map Term.attached := by
    rw [attachOperators_eq_closeSigns, Alternative.text, closeSigns_term_append, closeSigns_terms,
      split_terms,
      List.map_cons, List.map_map]
    rfl
  have hlegible : (∀ t ∈ first :: rest.map (·.2), t.IsLegible)
      ↔ (Alternative.terms first rest).IsLegible := by
    rw [List.forall_mem_cons, List.forall_mem_map]
    rfl
  have hbounds : ((first :: rest.map (·.2)).map Term.bounds).flatten
      = (Alternative.terms first rest).bounds := by
    simp [Alternative.bounds, List.flatMap_def, Function.comp_def]
  rw [hpieces, List.mapM_map, ← hbounds]
  exact ((GivesIff.mapM fun t _ => readTerm_attached t).map List.flatten).congr hlegible

/-- A written alternative reads as the bounds that it stands for, if it is legible. -/
theorem readAlternative_text (a : Alternative) :
    GivesIff Fault.IsTooLong (readAlternative a.text) a.IsLegible a.bounds := by
  cases a with
  | range lower before after upper =>
      rw [Alternative.text, ← hyphenated, readAlternative_hyphenated (text_ne_nil lower)
        (text_ne_nil upper) (forall_not_isBlank_text lower) (forall_not_isBlank_text upper)]
      exact readHyphenRange_text lower upper before after
  | terms first rest =>
      have hne : (Alternative.terms first rest).text.isEmpty = false := by
        obtain ⟨c, -, t, ht⟩ := startsTerm_alternative (.terms first rest)
        rw [ht]
        rfl
      have hhyphen : '-' ∉ (Alternative.terms first rest).text := by
        intro h
        exact not_mem_terms (l := ['-']) (by decide) (by decide) (by decide) first rest _ h
          List.mem_cons_self
      rw [readAlternative, hne, matchFront?_of_fails (fails_hyphenRange hhyphen)]
      exact readTerms first rest

/-- Bars are read whole in front of anything but a blank or a bar. -/
theorem reads_alternativeBreak (b : Bar) {s : List Char} (hs : Stops isBlank s)
    (hbar : Stops (· == '|') s) : alternativeBreak.Reads (b.text ++ s) s [] := by
  have hafter : (chars isBlank : Pattern Part).Reads (b.after.chars ++ s) s [] :=
    reads_chars b.after.isBlank hs
  have hbar : Stops (· == '|') (b.after.chars ++ s) := by
    apply stops_append
    · intro c hc
      rw [beq_eq_false_iff_ne]
      rintro rfl
      exact absurd (b.after.isBlank _ hc) (by decide)
    · exact hbar
  have hsecond : (opt (char (· == '|')) : Pattern Part).Reads
      ((if b.isDouble then ['|'] else []) ++ (b.after.chars ++ s)) (b.after.chars ++ s) [] := by
    cases b.isDouble with
    | true => exact (reads_char rfl).opt
    | false => exact reads_opt_of_fails (fails_char hbar)
  have hbefore : (chars isBlank : Pattern Part).Reads (b.text ++ s)
      ('|' :: ((if b.isDouble then ['|'] else []) ++ (b.after.chars ++ s))) [] := by
    rw [Bar.text, List.append_assoc, List.cons_append, List.append_assoc]
    exact reads_chars b.before.isBlank (by rw [stops_cons]; decide)
  have hfirst : (char (· == '|') : Pattern Part).Reads
      ('|' :: ((if b.isDouble then ['|'] else []) ++ (b.after.chars ++ s)))
      ((if b.isDouble then ['|'] else []) ++ (b.after.chars ++ s)) [] := reads_char rfl
  have h := hbefore.seq (hfirst.seq (hsecond.seq hafter))
  exact h

theorem exists_mem_suffix_of_endsSolid {a t : List Char} (ha : EndsSolid a) (ht : t <:+ a)
    (hne : t ≠ []) : ∃ c ∈ t, isBlank c = false := by
  obtain ⟨u, c, rfl, hc⟩ := ha
  refine ⟨c, ?_, hc⟩
  have hlast := ht.getLast hne
  rw [List.getLast_concat] at hlast
  exact hlast ▸ List.getLast_mem hne

/-- No bars start inside a text without bars that does not end with a blank. -/
theorem misses_alternativeBreak {a : List Char} (hbar : '|' ∉ a) (ha : EndsSolid a)
    (s : List Char) : alternativeBreak.Misses a s := by
  intro t hne ht
  obtain ⟨c, hc, hblank⟩ := exists_mem_suffix_of_endsSolid ha ht hne
  obtain ⟨x, hx⟩ := Option.isSome_iff_exists.mp
    ((List.find?_isSome (p := fun c => !isBlank c)).mpr ⟨c, hc, by simp [hblank]⟩)
  obtain ⟨hxblank, b, u, rfl, hb⟩ := List.find?_eq_some_iff_append.mp hx
  have hne : x ≠ '|' := by
    rintro rfl
    exact hbar (ht.mem (by simp))
  rw [List.append_assoc, List.cons_append]
  exact fails_chars_seq (by simpa using hb) (by simpa using hxblank)
    (fails_char_of_isBlank (by decide)) (fails_seq_left (fails_char (by simpa using hne)))

theorem misses_alternative (a : Alternative) (s : List Char) : alternativeBreak.Misses a.text s :=
  misses_alternativeBreak
    (fun h => not_mem_alternative (l := ['|']) (by decide) (by decide) (by decide) (by decide) a _ h
      (by simp))
    (endsTerm_alternative a).endsSolid s

/-- A written expression is cut into its alternatives. -/
theorem split_expression (e : Expression) :
    alternativeBreak.split e.text = e.alternatives.map Alternative.text := by
  rw [Expression.text, alternativesText, split_pieces rfl (misses_alternative e.first)
    (fun a _ => misses_alternative a.2)
    fun a _ s => ⟨[], reads_alternativeBreak a.1
      (((startsTerm_alternative a.2).append s).stops (by decide))
      (((startsTerm_alternative a.2).append s).stops (by decide))⟩]
  simp [Expression.alternatives]

/-- A written expression reads as the bounds of its alternatives, if it is legible. -/
theorem read_text (e : Expression) :
    GivesIff Fault.IsTooLong (read (String.ofList e.text)) e.IsLegible
      ⟨String.ofList e.text, e.alternatives.map Alternative.bounds⟩ := by
  have hstart : StartsTerm e.text := (startsTerm_alternative e.first).append _
  have hend : EndsTerm e.text :=
    endsTerm_append_flatMap (endsTerm_alternative e.first) fun a _ =>
      (endsTerm_alternative a.2).append _
  have hne : e.text.isEmpty = false := by
    obtain ⟨c, -, t, ht⟩ := hstart
    rw [ht]
    rfl
  rw [read, String.toList_ofList, trim_eq_self hstart.startsSolid hend.endsSolid, hne,
    split_expression, List.mapM_map]
  exact (GivesIff.mapM fun a _ => readAlternative_text a).map _

theorem admits_bounds (e : Expression) {v : Version} (hv : v.IsFinal) (s : String) :
    (Constraint.mk s (e.alternatives.map Alternative.bounds)).admits v = true
      ↔ e.Holds v.release := by
  simp [admits, Expression.Holds, Alternative.contains_bounds hv]

/-- A legible expression reads as a constraint that exactly those final releases comply with that
the expression is true of; any other expression has a number with too many digits. -/
theorem complies_read_text_iff (e : Expression) :
    (e.IsLegible → ∃ c, read (String.ofList e.text) = .ok c ∧
      ∀ (w : String) (v : Version), Version.read w.toList = .ok v → v.IsFinal →
        (e.Holds v.release → c.complies w = .ok true)
          ∧ (¬ e.Holds v.release → c.complies w = .ok false))
    ∧ (¬ e.IsLegible → ∃ n, read (String.ofList e.text) = .error (.tooManyDigits n)) := by
  constructor
  · intro hlegible
    refine ⟨_, (read_text e).1 hlegible, fun w v hread hfinal => ?_⟩
    have hadmits := admits_bounds e hfinal (String.ofList e.text)
    rw [complies, hread]
    constructor
    · intro hholds
      exact congrArg Except.ok (hadmits.mpr hholds)
    · intro hholds
      exact congrArg Except.ok (Bool.eq_false_iff.mpr fun h => hholds (hadmits.mp h))
  · intro hlegible
    obtain ⟨_, ⟨n, rfl⟩, hread⟩ := (read_text e).2 hlegible
    exact ⟨n, hread⟩

/-- The caret in front of a number. -/
def caretNumber (n : Numeral) : Expression :=
  ⟨.terms (.operated .caret ⟨[], fun _ h => nomatch h⟩ ⟨n, [], Nat.zero_le 3⟩) [], []⟩

theorem isLegible_caretNumber (n : Numeral) :
    (caretNumber n).IsLegible ↔ CanRaise ⟨n, [], Nat.zero_le 3⟩ (caretPlaces [n.value]) := by
  simp [caretNumber, Expression.IsLegible, Expression.alternatives, Alternative.IsLegible,
    Term.IsLegible, Release.numbers, Release.numerals]

/-- A caret in front of a one is legible, and `1.9` complies with it. -/
theorem complies_caret_one :
    (caretNumber ⟨['1'], by simp, by decide⟩).IsLegible ∧
      ∃ c, read "^1" = .ok c ∧ c.complies "1.9" = .ok true := by
  have hraised : 2 < Decimal.leastBeyond Decimal.maxDigits :=
    Nat.lt_of_lt_of_le (by decide : 2 < Decimal.leastBeyond 1) (Decimal.leastBeyond_le (by decide))
  have hlegible : (caretNumber ⟨['1'], by simp, by decide⟩).IsLegible :=
    (isLegible_caretNumber _).mpr
      ⟨by simp [Release.IsShort, Release.numerals, Numeral.IsShort, Decimal.maxDigits], hraised⟩
  obtain ⟨c, hread, hcomplies⟩ := (complies_read_text_iff _).1 hlegible
  have hversion : Version.read "1.9".toList = .ok (.ofRelease [1, 9]) := rfl
  have hagree : Version.Agree 1 [1, 9] [1] :=
    (by decide : ∀ i < 1, place [1, 9] i = place [1] i)
  have hholds : (caretNumber ⟨['1'], by simp, by decide⟩).Holds [1, 9] :=
    ⟨_, List.mem_singleton_self _, ⟨Version.not_precedes_of_agree_length hagree, hagree⟩, by simp⟩
  exact ⟨hlegible, c, hread, (hcomplies "1.9" _ hversion rfl).1 hholds⟩

/-- An expression whose numbers have too many digits is not read. -/
theorem not_forall_read_text : ¬ ∀ e : Expression, ∃ c, read (String.ofList e.text) = .ok c := by
  intro h
  have hdigits : ∀ c ∈ List.replicate (Decimal.maxDigits + 1) '1', c.isDigit = true := by
    intro c hc
    rw [List.eq_of_mem_replicate hc]
    rfl
  obtain ⟨c, hc⟩ := h (caretNumber ⟨List.replicate (Decimal.maxDigits + 1) '1', by simp, hdigits⟩)
  have hlong : ¬ (caretNumber ⟨List.replicate (Decimal.maxDigits + 1) '1', by simp,
      hdigits⟩).IsLegible := by
    rw [isLegible_caretNumber]
    intro hraise
    have hshort := hraise.1 _ List.mem_cons_self
    rw [Numeral.IsShort, List.length_replicate] at hshort
    exact Nat.not_succ_le_self Decimal.maxDigits hshort
  obtain ⟨e, -, he⟩ := (read_text _).2 hlong
  rw [he] at hc
  exact absurd hc (by simp)

end DocTags.Constraint
