import DocTags.Proofs.Pattern.Captures
import DocTags.Proofs.Version.ConstraintReading
import DocTags.Proofs.Version.ExpressionCharacters

/-!
# How a version is spelled

A version has a lead in front of its release numbers, a letter or an epoch or both, and suffixes
behind them. The reader of versions looks past the lead, but the number of written release numbers
is counted from the front of the text, so it is known only where there is no lead.
-/

namespace DocTags

open Text Pattern

section Wide

variable {c : Char}

/-- Beyond the ASCII digits, a decimal digit is no ASCII character. -/
theorem le_toNat_of_isDecimal (h : isDecimal c = true) (hc : c.isDigit = false) :
    128 ≤ c.toNat := by
  apply Nat.le_of_not_lt
  intro hlt
  simp [isDecimal, digitValue?, hlt, hc] at h

theorem not_isDecimal_of_isBlank (h : isBlank c = true) : isDecimal c = false :=
  eq_false_of_isBlank (by decide) h

theorem not_le_of_wide (h : 128 ≤ c.toNat) (n : UInt32) (hn : n.toNat < 128) : ¬ c.val ≤ n := by
  rw [UInt32.le_iff_toNat_le]
  exact Nat.not_le.mpr (Nat.lt_of_lt_of_le hn h)

theorem lower_of_wide (h : 128 ≤ c.toNat) : Version.lower c = c := by
  rw [Version.lower]
  unfold Char.toLower
  simp [not_le_of_wide h]

theorem not_isAlphanum_of_wide (h : 128 ≤ c.toNat) : c.isAlphanum = false := by
  unfold Char.isAlphanum Char.isAlpha Char.isUpper Char.isLower Char.isDigit
  simp [not_le_of_wide h]

/-- The version pattern reads nothing but ASCII characters and blanks. -/
theorem avoids_of_wide (h : 128 ≤ c.toNat) (hblank : isBlank c = false) :
    Version.pattern.avoids c = true := by
  have hne (x : Char) (hx : x.toNat < 128) : c ≠ x := by
    rintro rfl
    exact absurd hx (Nat.not_lt.mpr h)
  have hdigit : c.isDigit = false := by
    simp [Char.isDigit, not_le_of_wide h]
  simp [avoids, everyClass, Version.pattern, chain, chars, chars1, plus, opt, oneOf, Version.word,
    Version.separator, Version.digits, Version.alphanumerics, lower_of_wide h, hdigit,
    not_isAlphanum_of_wide h, hblank, hne]

end Wide

namespace Version

/-- A version has no decimal digits but the ASCII digits. -/
theorem isDigit_of_read {s : List Char} (h : read s ≠ .error .invalid) :
    ∀ c ∈ s, isDecimal c = true → c.isDigit = true := by
  intro c hc hdecimal
  by_contra hdigit
  have hblank : isBlank c = false := by
    rw [Bool.eq_false_iff]
    intro hb
    exact Bool.false_ne_true ((not_isDecimal_of_isBlank hb).symm.trans hdecimal)
  have hwide := le_toNat_of_isDecimal hdecimal (Bool.not_eq_true _ ▸ hdigit)
  exact not_mem_of_read (avoids_of_wide hwide hblank) h hc

theorem exists_dotted_of_canRead {κ : Type} {s s' : List Char}
    (h : (star .greedy (seq (char (· == '.')) (chars1 Char.isDigit)) : Pattern κ).CanRead s s') :
    ∃ ns, s = dotted ns ++ s' := by
  rcases (canRead_star rfl).mp h with rfl | ⟨m, hround, hrest⟩
  · exact ⟨[], rfl⟩
  · have hlt := hround.length_lt rfl
    obtain ⟨ns, rfl⟩ := exists_dotted_of_canRead hrest
    obtain ⟨t, hdot, hdigits⟩ := canRead_seq.mp hround
    obtain ⟨x, hx, rfl⟩ := canRead_char.mp hdot
    obtain ⟨digits, hne, rfl, hdigit⟩ := canRead_chars1.mp hdigits
    obtain rfl : x = '.' := by simpa using hx
    exact ⟨⟨digits, hne, hdigit⟩ :: ns, by simp [dotted_cons]⟩
termination_by s.length

/-- Numbers with points between them. -/
def numberRow : Pattern Part :=
  seq digits (star .greedy (seq (char (· == '.')) digits))

theorem exists_numerals_of_canRead {s s' : List Char} (h : numberRow.CanRead s s') :
    ∃ (n : Numeral) (ns : List Numeral), s = n.digits ++ dotted ns ++ s' := by
  obtain ⟨m, hfirst, hrest⟩ := canRead_seq.mp h
  obtain ⟨digits, hne, rfl, hdigit⟩ := canRead_chars1.mp hfirst
  obtain ⟨ns, rfl⟩ := exists_dotted_of_canRead hrest
  exact ⟨⟨digits, hne, hdigit⟩, ns, (List.append_assoc _ _ _).symm⟩

/-- The suffixes of a version and the blanks behind it. -/
def suffixes : Pattern Part :=
  chain
    [opt (chain
        [separator,
          group .preLetter (oneOf (word "alpha".toList)
            (["a", "beta", "b", "preview", "pre", "c", "rc"].map fun w => word w.toList)),
          separator, opt (group .preNumber digits)]),
      opt (alt
        (seq (char (· == '-')) (group .dashNumber digits))
        (chain
          [separator,
            group .postLetter (oneOf (word "post".toList) [word "rev".toList, word "r".toList]),
            separator, opt (group .postNumber digits)])),
      opt (chain
        [separator, group .devLetter (word "dev".toList), separator,
          opt (group .devNumber digits)]),
      opt (seq (char (· == '+'))
        (group .localPart
          (seq alphanumerics
            (star .greedy
              (seq (char fun c => c == '-' || c == '_' || c == '.') alphanumerics))))),
      chars isBlank]

/-- An epoch. -/
def epochPart : Pattern Part :=
  seq (group .epoch digits) (char (· == '!'))

theorem pattern_eq :
    pattern = seq (chars isBlank) (seq (opt (word ['v'])) (seq (opt epochPart)
      (seq (group .release numberRow) suffixes))) := rfl

/-- No suffix starts with a digit, or with a point and a digit. -/
theorem not_canRead_suffixes {d : Char} (hd : d.isDigit = true) (s : List Char) :
    ¬ suffixes.CanRead (d :: s) [] ∧ ¬ suffixes.CanRead ('.' :: d :: s) [] := by
  have hlower : lower d = d :=
    forall_isDigit (P := fun d => lower d = d) (by decide) hd
  have hdot : lower '.' = '.' := by decide
  have hblank : isBlank d = false ∧ isBlank '.' = false :=
    ⟨forall_isDigit (P := fun d => isBlank d = false) (by decide) hd, by decide⟩
  have hne : ∀ x ∈ "abprcd-_.+".toList, d ≠ x :=
    forall_isDigit (P := fun d => ∀ x ∈ "abprcd-_.+".toList, d ≠ x) (by decide) hd
  have hskip : suffixes.outcomes (d :: s) = [(d :: s, [])]
      ∧ suffixes.outcomes ('.' :: d :: s) = [('.' :: d :: s, [])] := by
    simp at hne
    simp [suffixes, chain, opt, separator, word, oneOf, chars, outcomes, repeatOutcomes, followedBy,
      hlower, hdot, hblank, hne]
  constructor
  · rintro ⟨c, hc⟩
    simp [hskip.1] at hc
  · rintro ⟨c, hc⟩
    simp [hskip.2] at hc

/-- The parts of a written version without blanks around it. -/
structure Spelling where
  /-- A `v` in either case. -/
  letter : Option Char
  epoch : Option Numeral
  first : Numeral
  rest : List Numeral
  suffix : List Char
  lower_letter : ∀ c ∈ letter, lower c = 'v'
  canRead_suffix : suffixes.CanRead suffix []

namespace Spelling

/-- The written epoch. -/
def epochText (p : Spelling) : List Char :=
  p.epoch.elim [] fun n => n.digits ++ ['!']

/-- The release numbers. -/
def numerals (p : Spelling) : List Numeral :=
  p.first :: p.rest

/-- The written release numbers. -/
def row (p : Spelling) : List Char :=
  p.first.digits ++ dotted p.rest

/-- The written version. -/
def text (p : Spelling) : List Char :=
  p.letter.toList ++ (p.epochText ++ (p.row ++ p.suffix))

end Spelling

/-- What the epoch part yields: a number and its group, or nothing. -/
theorem exists_epoch_of_yields {s s' : List Char} {c : Captures Part}
    (h : (opt epochPart).Yields s s' c) :
    ∃ epoch : Option Numeral, s = (epoch.elim [] fun n => n.digits ++ ['!']) ++ s'
      ∧ (Match.mk ⟨s, s'⟩ c).group? .epoch = epoch.map Numeral.digits := by
  rcases yields_opt.mp h with h | ⟨rfl, rfl⟩
  · obtain ⟨m, c', hdigits, hmark, rfl⟩ := (yields_group_seq rfl).mp h
    obtain ⟨digits, hne, rfl, hdigit⟩ := canRead_chars1.mp hdigits
    obtain ⟨x, hx, rfl⟩ := canRead_char.mp hmark.canRead
    obtain rfl := hmark.eq_nil rfl
    obtain rfl : x = '!' := by simpa using hx
    exact ⟨some ⟨digits, hne, hdigit⟩, by simp, by simp [Match.group?]⟩
  · exact ⟨none, rfl, rfl⟩

/-- What the letter part reads: a `v` in either case, or nothing. -/
theorem exists_letter_of_canRead {s s' : List Char}
    (h : (opt (word ['v'])).CanRead s s') :
    ∃ letter : Option Char, (∀ c ∈ letter, lower c = 'v') ∧ s = letter.toList ++ s' := by
  rcases canRead_opt.mp h with h | rfl
  · obtain ⟨m, hletter, hempty⟩ := canRead_seq.mp h
    obtain ⟨c, hc, rfl⟩ := canRead_char.mp hletter
    obtain rfl : s' = m := by simpa [CanRead, outcomes] using hempty
    exact ⟨some c, by simpa using hc, rfl⟩
  · exact ⟨none, by simp, rfl⟩

/-- A text without blanks that the version pattern reads has a spelling, and the groups of the match
are its parts. -/
theorem exists_spelling_of_matchWhole? {s : List Char} {m : Match Part}
    (h : pattern.matchWhole? s = some m) (hs : ∀ c ∈ s, isBlank c = false) :
    ∃ p : Spelling, s = p.text ∧ m.groupD .release = p.row
      ∧ m.group? .epoch = p.epoch.map Numeral.digits := by
  have hyields := yields_of_matchWhole? h
  rw [pattern_eq] at hyields
  obtain ⟨s₁, hblanks, hyields⟩ := (yields_seq_of_names rfl).mp hyields
  obtain ⟨s₂, hletter, hyields⟩ := (yields_seq_of_names rfl).mp hyields
  obtain ⟨s₃, c₁, c₂, hepoch, hyields, hc⟩ := yields_seq.mp hyields
  obtain ⟨s₄, c₃, hrow, hsuffix, rfl⟩ := (yields_group_seq rfl).mp hyields
  obtain ⟨letter, hlower, rfl⟩ := exists_letter_of_canRead hletter
  obtain ⟨epoch, rfl, hgroup⟩ := exists_epoch_of_yields hepoch
  obtain ⟨n, ns, rfl⟩ := exists_numerals_of_canRead hrow
  obtain ⟨blanks, rfl, hblank⟩ := canRead_chars.mp hblanks
  obtain rfl : blanks = [] := by
    apply List.eq_nil_iff_forall_not_mem.mpr
    intro b hb
    exact Bool.false_ne_true ((hs b (by simp [hb])).symm.trans (hblank b hb))
  -- The groups of the suffixes come last, so they stand in front of the captures.
  have hsuffixes {name : Part} (hname : name ∉ suffixes.names) : ∀ x ∈ c₃, x.1 ≠ name := by
    rintro x hx rfl
    exact hname (hsuffix.mem_names x hx)
  have hgroups (name : Part) : m.group? name
      = (Match.mk m.span (c₃ ++ (.release, ⟨n.digits ++ dotted ns ++ s₄, s₄⟩) :: c₁)).group?
          name := by
    rw [Match.group?, hc, List.append_assoc, Match.group?, List.singleton_append]
  refine ⟨⟨letter, epoch, n, ns, s₄, hlower, hsuffix.canRead⟩, ?_, ?_, ?_⟩
  · simp [Spelling.text, Spelling.epochText, Spelling.row]
  · rw [Match.groupD, hgroups, Match.group?_append (hsuffixes (by decide)), Span.text_append]
    rfl
  · rw [hgroups, Match.group?_append_of_ne (hsuffixes (by decide)), ← hgroup]
    simp [Match.group?]

/-- The part before the release that a match of the pattern stands for. -/
def preOf (m : Match Part) : Except Fault (Option (Stage × Nat)) :=
  match m.group? .preLetter with
  | none => pure none
  | some w => do return some (stageOf (w.map lower), ← readNatD (m.group? .preNumber))

/-- The part after the release that a match of the pattern stands for. -/
def postOf (m : Match Part) : Except Fault (Option Nat) :=
  match m.group? .dashNumber, m.group? .postLetter with
  | some s, _ => do return some (← readNat s)
  | none, some _ => do return some (← readNatD (m.group? .postNumber))
  | none, none => pure none

/-- The development part that a match of the pattern stands for. -/
def devOf (m : Match Part) : Except Fault (Option Nat) :=
  match m.group? .devLetter with
  | none => pure none
  | some _ => do return some (← readNatD (m.group? .devNumber))

/-- The local part that a match of the pattern stands for. -/
def localOf (m : Match Part) : Except Fault (List LocalSegment) :=
  match m.group? .localPart with
  | none => pure []
  | some s => (cutAt (fun c => c == '-' || c == '_' || c == '.') s).mapM readSegment

/-- The parts of a version are read one after another. -/
theorem ofMatch_eq (m : Match Part) :
    ofMatch m = do
      return ⟨← readNatD (m.group? .epoch), ← (cutAt (· == '.') (m.groupD .release)).mapM readNat,
        ← preOf m, ← postOf m, ← devOf m, ← localOf m⟩ := by
  unfold ofMatch preOf postOf devOf localOf
  cases m.group? .preLetter <;> cases m.group? .dashNumber <;> cases m.group? .postLetter <;>
    cases m.group? .devLetter <;> cases m.group? .localPart <;> simp only [bind_assoc, pure_bind]

theorem ofMatch_eq_ok {m : Match Part} {v : Version} (h : ofMatch m = .ok v) :
    readNatD (m.group? .epoch) = .ok v.epoch
      ∧ (cutAt (· == '.') (m.groupD .release)).mapM readNat = .ok v.release := by
  rw [ofMatch_eq] at h
  obtain ⟨epoch, hepoch, h⟩ := exists_of_bind_eq_ok h
  obtain ⟨release, hrelease, h⟩ := exists_of_bind_eq_ok h
  obtain ⟨pre, -, h⟩ := exists_of_bind_eq_ok h
  obtain ⟨post, -, h⟩ := exists_of_bind_eq_ok h
  obtain ⟨dev, -, h⟩ := exists_of_bind_eq_ok h
  obtain ⟨localPart, -, h⟩ := exists_of_bind_eq_ok h
  obtain rfl := Except.ok.inj h
  exact ⟨hepoch, hrelease⟩

/-- A version without blanks is written with its release numbers, and without an epoch only if it
has none. -/
theorem exists_spelling {s : List Char} {v : Version} (h : read s = .ok v)
    (hs : ∀ c ∈ s, isBlank c = false) :
    ∃ p : Spelling, s = p.text ∧ v.release = p.numerals.map Numeral.value
      ∧ (∀ n ∈ p.numerals, n.IsShort) ∧ (p.epoch = none → v.epoch = 0) := by
  rw [read] at h
  cases hm : pattern.matchWhole? s with
  | none => simp [hm] at h
  | some m =>
      rw [hm] at h
      obtain ⟨p, rfl, hrow, hgroup⟩ := exists_spelling_of_matchWhole? hm hs
      obtain ⟨hepoch, hrelease⟩ := ofMatch_eq_ok h
      have hnumbers : GivesIff Fault.IsTooLong (p.numerals.mapM fun n => readNat n.digits)
          (∀ n ∈ p.numerals, n.IsShort) (p.numerals.map Numeral.value) :=
        GivesIff.mapM fun n _ => readNat_digits n
      rw [hrow, Spelling.row, cutAt_dotted, List.mapM_map, ← Spelling.numerals] at hrelease
      have hshort : ∀ n ∈ p.numerals, n.IsShort := by
        by_contra hlong
        obtain ⟨e, -, he⟩ := hnumbers.2 hlong
        exact absurd (he.symm.trans hrelease) (by simp)
      refine ⟨p, rfl, Except.ok.inj (hrelease.symm.trans (hnumbers.1 hshort)), hshort, ?_⟩
      intro hnone
      rw [hgroup, hnone] at hepoch
      exact (Except.ok.inj hepoch).symm

/-- The text starts with a digit and names no epoch. -/
def IsBare (s : List Char) : Prop :=
  (∃ d t, s = d :: t ∧ d.isDigit = true) ∧ '!' ∉ s

namespace Spelling

theorem exists_row_eq_cons (p : Spelling) : ∃ d t, p.row = d :: t ∧ d.isDigit = true := by
  obtain ⟨d, t, hd⟩ := List.exists_cons_of_ne_nil p.first.ne_nil
  exact ⟨d, t ++ dotted p.rest, by rw [row, hd, List.cons_append],
    p.first.isDigit d (hd ▸ List.mem_cons_self)⟩

/-- A spelling is bare if nothing stands in front of its release numbers. -/
theorem isBare_text_iff (p : Spelling) : IsBare p.text ↔ p.letter = none ∧ p.epoch = none := by
  constructor
  · rintro ⟨⟨d, t, ht, hd⟩, hmark⟩
    constructor
    · rw [Option.eq_none_iff_forall_not_mem]
      intro c hc
      obtain rfl : c = d := by
        rw [text, Option.mem_def.mp hc] at ht
        exact (List.cons.inj ht).1
      have hne : lower c ≠ 'v' := forall_isDigit (P := fun c => lower c ≠ 'v') (by decide) hd
      exact hne (p.lower_letter c hc)
    · rw [Option.eq_none_iff_forall_not_mem]
      intro n hn
      exact hmark (by simp [text, epochText, Option.mem_def.mp hn])
  · rintro ⟨hletter, hepoch⟩
    obtain ⟨d, t, hrow, hd⟩ := p.exists_row_eq_cons
    have htext : p.text = p.row ++ p.suffix := by
      simp [text, epochText, hletter, hepoch]
    obtain ⟨a, ha, hsuffix⟩ := p.canRead_suffix.exists_not_mem (x := '!') (by decide)
    rw [List.append_nil] at ha
    refine ⟨⟨d, t ++ p.suffix, by rw [htext, hrow, List.cons_append], hd⟩, ?_⟩
    rw [htext, row, ha, List.mem_append, List.mem_append, not_or, not_or]
    exact ⟨⟨p.first.not_mem (by decide), fun h =>
      forall_mem_dotted (P := (· ≠ '!')) (by decide) (by decide) p.rest _ h rfl⟩, hsuffix⟩

end Spelling

end Version

namespace Constraint

open Version

theorem count_row (p : Spelling) : p.row.count '.' = p.rest.length := by
  have hfirst : p.first.digits.count '.' = 0 :=
    List.count_eq_zero.mpr (p.first.not_mem (by decide))
  rw [Spelling.row, List.count_append, hfirst, count_dotted, Nat.zero_add]

/-- Behind the release numbers no further number follows. -/
theorem stops_suffix (p : Spelling)
    (hdecimal : ∀ c ∈ p.suffix, isDecimal c = true → c.isDigit = true) : Stops isDecimal p.suffix
      ∧ (seq (char (· == '.')) (chars1 isDecimal) : Pattern Part).Fails p.suffix := by
  have hread := p.canRead_suffix
  constructor
  · cases hs : p.suffix with
    | nil => exact stops_nil _
    | cons d t =>
        rw [stops_cons, Bool.eq_false_iff]
        intro hd
        rw [hs] at hread hdecimal
        exact (not_canRead_suffixes (hdecimal d List.mem_cons_self hd) t).1 hread
  · rw [fails_iff]
    intro s' h
    obtain ⟨m, hdot, hdigits⟩ := canRead_seq.mp h
    obtain ⟨x, hx, hs⟩ := canRead_char.mp hdot
    obtain ⟨a, hne, rfl, ha⟩ := canRead_chars1.mp hdigits
    obtain ⟨d, t, rfl⟩ := List.exists_cons_of_ne_nil hne
    obtain rfl : x = '.' := by simpa using hx
    have hd : d.isDigit = true := hdecimal d (by simp [hs]) (ha d List.mem_cons_self)
    rw [hs] at hread
    exact (not_canRead_suffixes hd _).2 hread

/-- Of a spelling without letter and epoch all release numbers are counted. -/
theorem writtenNumbers_of_bare (p : Spelling)
    (hdecimal : ∀ c ∈ p.suffix, isDecimal c = true → c.isDigit = true) (hletter : p.letter = none)
    (hepoch : p.epoch = none) : writtenNumbers p.text = p.numerals.length := by
  obtain ⟨hstops, hfails⟩ := stops_suffix p hdecimal
  have htext : p.text = p.first.digits ++ (dotted p.rest ++ p.suffix) := by
    simp [Spelling.text, Spelling.epochText, Spelling.row, hletter, hepoch]
  have hreads : leadingNumbers.Reads p.text p.suffix [] := by
    rw [htext]
    exact (reads_numeral isDecimal (by decide) p.first
      (stops_dotted isDecimal (by decide) p.rest hstops)).seq
        (reads_dotted isDecimal (by decide) (by decide) p.rest hstops hfails)
  rw [writtenNumbers, matchFront?_of_reads hreads]
  simp only [htext, ← List.append_assoc, Span.text_append]
  rw [← Spelling.row, count_row]
  rfl

/-- A letter in front hides the release numbers. -/
theorem writtenNumbers_of_letter (p : Spelling)
    (hdecimal : ∀ c ∈ p.text, isDecimal c = true → c.isDigit = true) {c : Char}
    (hletter : p.letter = some c) : writtenNumbers p.text = 1 := by
  have hdigit : isDecimal c = false := by
    rw [Bool.eq_false_iff]
    intro hd
    have hne : lower c ≠ 'v' := forall_isDigit (P := fun c => lower c ≠ 'v') (by decide)
      (hdecimal c (by simp [Spelling.text, hletter]) hd)
    exact hne (p.lower_letter c hletter)
  have hfails : leadingNumbers.Fails p.text :=
    fails_seq_left (fails_chars1 (by simp [Spelling.text, hletter, hdigit]))
  rw [writtenNumbers, matchFront?_of_fails hfails]

/-- An epoch in front is counted instead of the release numbers. -/
theorem writtenNumbers_of_epoch (p : Spelling) (hletter : p.letter = none) {n : Numeral}
    (hepoch : p.epoch = some n) : writtenNumbers p.text = 1 := by
  have htext : p.text = n.digits ++ '!' :: (p.row ++ p.suffix) := by
    simp [Spelling.text, Spelling.epochText, hletter, hepoch]
  have hmark : Stops isDecimal ('!' :: (p.row ++ p.suffix)) := by
    rw [stops_cons]
    decide
  have hreads : leadingNumbers.Reads p.text ('!' :: (p.row ++ p.suffix)) [] := by
    rw [htext]
    exact (reads_numeral isDecimal (by decide) n hmark).seq
      (reads_star_of_fails rfl (fails_seq_left (fails_char (by simp))))
  have hcount : n.digits.count '.' = 0 := List.count_eq_zero.mpr (n.not_mem (by decide))
  rw [writtenNumbers, matchFront?_of_reads hreads]
  simp only [htext, Span.text_append, hcount]

/-- The count of the written release numbers is that of a bare spelling, and one for any other. -/
theorem writtenNumbers_spelling (p : Spelling)
    (hdecimal : ∀ c ∈ p.text, isDecimal c = true → c.isDigit = true) :
    (IsBare p.text → writtenNumbers p.text = p.numerals.length)
      ∧ (¬ IsBare p.text → writtenNumbers p.text = 1) := by
  rw [p.isBare_text_iff]
  constructor
  · rintro ⟨hletter, hepoch⟩
    exact writtenNumbers_of_bare p (fun c hc => hdecimal c (by simp [Spelling.text, hc])) hletter
      hepoch
  · intro hlead
    cases hletter : p.letter with
    | some c => exact writtenNumbers_of_letter p hdecimal hletter
    | none =>
        cases hepoch : p.epoch with
        | none => exact absurd ⟨hletter, hepoch⟩ hlead
        | some n => exact writtenNumbers_of_epoch p hletter hepoch

/-- A bare version has no epoch and as many release numbers as are counted; of any other version one
is counted. -/
theorem writtenNumbers_of_read {s : List Char} {v : Version} (h : Version.read s = .ok v)
    (hs : ∀ c ∈ s, isBlank c = false) :
    (IsBare s → v.epoch = 0 ∧ writtenNumbers s = v.release.length)
      ∧ (¬ IsBare s → writtenNumbers s = 1) := by
  have hdecimal : ∀ c ∈ s, isDecimal c = true → c.isDigit = true :=
    isDigit_of_read (by simp [h])
  obtain ⟨p, rfl, hrelease, -, hepoch⟩ := exists_spelling h hs
  obtain ⟨hbare, hlead⟩ := writtenNumbers_spelling p hdecimal
  refine ⟨fun hp => ⟨hepoch (p.isBare_text_iff.mp hp).2, ?_⟩, hlead⟩
  rw [hbare hp, hrelease, List.length_map]

theorem length_release_pos {s : List Char} {v : Version} (h : Version.read s = .ok v)
    (hs : ∀ c ∈ s, isBlank c = false) : 0 < v.release.length := by
  obtain ⟨p, -, hrelease, -⟩ := exists_spelling h hs
  rw [hrelease, Spelling.numerals]
  exact Nat.succ_pos _

end Constraint

end DocTags
