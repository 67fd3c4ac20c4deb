import DocTags.Proofs.Version.Grammar
import DocTags.Proofs.Version.Spelling

/-!
# Reading terms

A closed term of the grammar is read part by part, and a text that is read as a term has these
parts. So the reader of terms accepts exactly the closed terms, up to numbers with too many digits.
-/

namespace DocTags.Constraint

open Text Pattern
open Version (isDigit_of_read)

theorem failsWithin_bump (v : Version) (n : Nat) : FailsWithin Fault.IsTooLong (bump v n) := by
  rw [bump]
  split
  · exact .ok _ _
  · exact .error ⟨_, rfl⟩

theorem failsWithin_within (v : Version) (n : Nat) : FailsWithin Fault.IsTooLong (within v n) :=
  (failsWithin_bump v n).map _

theorem failsWithin_versionBounds (operator : List Char) (v : Version) (n : Nat) :
    FailsWithin Fault.IsTooLong (versionBounds operator v n) := by
  unfold versionBounds
  split
  · exact failsWithin_within v _
  · exact failsWithin_within v _
  · split
    · exact failsWithin_within v n
    · exact .ok _ _
  · split
    · exact .ok _ _
    · exact .ok _ _

theorem failsWithin_readVersion {s : List Char} (h : Version.read s ≠ .error .invalid) :
    FailsWithin Fault.IsTooLong (readVersion s) := by
  rw [readVersion]
  split
  · exact .ok _ _
  · next hs => exact absurd hs h
  · exact .error ⟨_, rfl⟩

theorem failsWithin_readHyphenRange {lower upper : List Char}
    (hlower : Version.read lower ≠ .error .invalid)
    (hupper : Version.read upper ≠ .error .invalid) :
    FailsWithin Fault.IsTooLong (readHyphenRange lower upper) := by
  apply (failsWithin_readVersion hlower).bind
  intro low _
  apply (failsWithin_readVersion hupper).bind
  intro high _
  simp only
  split
  · exact (failsWithin_bump _ _).map _
  · exact .ok _ _

theorem isVersion_of_readVersion {s : List Char} {r : Version × Nat} (h : readVersion s = .ok r) :
    Version.read s ≠ .error .invalid := by
  intro hs
  rw [readVersion, hs] at h
  exact absurd h (by simp)

theorem isVersion_text (r : Release) : Version.read r.text ≠ .error .invalid := by
  intro hinvalid
  have hread := Version.read_dotted r.first r.rest
  rw [← Release.text, hinvalid] at hread
  by_cases hshort : ∀ n ∈ r.first :: r.rest, n.IsShort
  · exact absurd (hread.1 hshort) (by simp)
  · obtain ⟨e, ⟨d, rfl⟩, he⟩ := hread.2 hshort
    exact absurd he (by simp)

theorem not_isDecimal_of_isAlpha {c : Char} (h : c.isAlpha = true) : isDecimal c = false := by
  rw [Bool.eq_false_iff]
  intro hdecimal
  cases hdigit : c.isDigit with
  | true =>
      have hne : c.isAlpha = false :=
        forall_isDigit (P := fun c => c.isAlpha = false) (by decide) hdigit
      exact Bool.false_ne_true (hne.symm.trans h)
  | false =>
      have hwide := not_isAlphanum_of_wide (le_toNat_of_isDecimal hdecimal hdigit)
      rw [Char.isAlphanum, h, Bool.true_or] at hwide
      exact absurd hwide (by decide)

theorem reads_mark {x : Char} (isWritten : Bool) {s : List Char} (hs : Stops (· == x) s) :
    (opt (char (· == x)) : Pattern Part).Reads (mark x isWritten ++ s) s [] := by
  cases isWritten with
  | true => exact (reads_char (by simp)).opt
  | false => exact reads_opt_of_fails (fails_char hs)

theorem stops_mark {accepts : Char → Bool} {x : Char} (hx : accepts x = false) (isWritten : Bool)
    {s : List Char} (hs : Stops accepts s) : Stops accepts (mark x isWritten ++ s) := by
  cases isWritten with
  | true => exact (stops_cons accepts x s).mpr hx
  | false => exact hs

theorem stops_of_forall {accepts : Char → Bool} {s : List Char} (h : ∀ c ∈ s, accepts c = false) :
    Stops accepts s :=
  fun c hc => h c (List.mem_of_mem_head? hc)

/-- A written suffix is read whole. -/
theorem reads_versionSuffix (x : Option Suffix) : versionSuffix.Reads (suffixText x) [] [] := by
  cases x with
  | none => exact reads_skip rfl
  | some x =>
      have hpoint : Stops (· == '.') x.digits := by
        apply stops_of_forall
        intro c hc
        rw [beq_eq_false_iff_ne]
        rintro rfl
        exact absurd (x.isDecimal _ hc) (by decide)
      have halpha : Stops Char.isAlpha (mark '.' x.point ++ x.digits) := by
        apply stops_mark (by decide)
        apply stops_of_forall
        intro c hc
        rw [Bool.eq_false_iff]
        intro h
        exact Bool.false_ne_true ((not_isDecimal_of_isAlpha h).symm.trans (x.isDecimal c hc))
      have hhyphen : Stops (· == '-') (x.letters ++ (mark '.' x.point ++ x.digits)) := by
        apply stops_append_of_ne_nil x.ne_nil
        intro c hc
        rw [beq_eq_false_iff_ne]
        rintro rfl
        exact absurd (x.isAlpha _ hc) (by decide)
      have hdigits : (chars isDecimal : Pattern Part).Reads x.digits [] [] := by
        simpa using reads_chars (κ := Part) x.isDecimal (stops_nil _)
      have h := ((reads_mark x.hyphen hhyphen).seq ((reads_chars1 x.ne_nil x.isAlpha halpha).seq
        ((reads_mark x.point hpoint).seq hdigits))).opt
      exact h

/-- A suffix starts with a hyphen or a letter. -/
theorem stops_suffixText {accepts : Char → Bool} (hhyphen : accepts '-' = false)
    (halpha : ∀ c, c.isAlpha = true → accepts c = false) (x : Option Suffix) :
    Stops accepts (suffixText x) := by
  cases x with
  | none => exact stops_nil _
  | some x =>
      apply stops_mark hhyphen
      exact stops_append_of_ne_nil x.ne_nil (fun c hc => halpha c (x.isAlpha c hc)) _

theorem stops_point_suffixText (x : Option Suffix) : Stops (· == '.') (suffixText x) := by
  apply stops_suffixText (by decide)
  intro c hc
  rw [beq_eq_false_iff_ne]
  rintro rfl
  exact absurd hc (by decide)

/-- What a term says of versions: a release with a suffix or a wildcard, or a wildcard alone. -/
def versionBody : Pattern Part :=
  alt
    (chain [group .release releaseNumbers, opt (group .wildcard (lit ['.', '*'])), versionSuffix])
    (char (· == '*'))

theorem reads_versionPart_of_body (letter : Bool) {s : List Char} {c : Captures Part}
    (hs : Stops (· == 'v') s) (h : versionBody.Reads s [] c) :
    versionPart.Reads (mark 'v' letter ++ s) [] ((.version, ⟨s, []⟩) :: c) := by
  have hparts := (reads_mark letter hs).seq ((h.group .version).seq reads_textEnd)
  rw [List.append_nil] at hparts
  exact hparts

/-- A release with a suffix is read whole. -/
theorem reads_versionBody (r : Release) (x : Option Suffix) :
    versionBody.Reads (r.text ++ suffixText x) []
      [(.release, ⟨r.text ++ suffixText x, suffixText x⟩)] := by
  have hnumbers := reads_releaseNumbers r
    (stops_suffixText (by decide) (fun c => not_isDecimal_of_isAlpha) x)
    (fails_seq_left (fails_char (stops_point_suffixText x)))
  have hwildcard : (opt (group .wildcard (lit ['.', '*'])) : Pattern Part).Reads (suffixText x)
      (suffixText x) [] :=
    reads_opt_of_fails (fails_group (fails_seq_left (fails_char (stops_point_suffixText x))))
  have h := (hnumbers.group .release).seq (hwildcard.seq (reads_versionSuffix x))
  exact h.alt_left

/-- A release with a wildcard is read whole, with a suffix behind it. -/
theorem reads_versionBody_wildcard (r : Release) (x : Option Suffix) :
    versionBody.Reads (r.text ++ (['.', '*'] ++ suffixText x)) []
      [(.wildcard, ⟨['.', '*'] ++ suffixText x, suffixText x⟩),
        (.release, ⟨r.text ++ (['.', '*'] ++ suffixText x), ['.', '*'] ++ suffixText x⟩)] := by
  have hnumbers : releaseNumbers.Reads (r.text ++ (['.', '*'] ++ suffixText x))
      (['.', '*'] ++ suffixText x) [] := by
    apply reads_releaseNumbers r
    · rw [List.cons_append, stops_cons]
      decide
    · rfl
  have hwildcard := ((reads_lit (κ := Part) ['.', '*'] (suffixText x)).group .wildcard).opt
  have h := (hnumbers.group .release).seq (hwildcard.seq (reads_versionSuffix x))
  exact h.alt_left

theorem reads_versionBody_star : versionBody.Reads ['*'] [] [] := rfl

theorem stops_body {accepts : Char → Bool} (hletter : accepts 'v' = false)
    (hstar : accepts '*' = false) (hdigit : ∀ c ∈ "0123456789".toList, accepts c = false)
    (t : WrittenTerm) : Stops accepts t.body := by
  cases t with
  | anything letter => exact stops_mark hletter letter ((stops_cons _ _ _).mpr hstar)
  | wildcard letter r x => exact stops_mark hletter letter (stops_text hdigit r _)
  | version o letter r x h => exact stops_mark hletter letter (stops_text hdigit r _)

/-- The operator in front of a term is read, and then what stands behind it. -/
theorem reads_termPattern (t : WrittenTerm) {c : Captures Part}
    (h : versionPart.Reads t.body [] c) :
    termPattern.Reads t.closed []
      (c ++ t.operator?.elim [] fun _ => [(.operator, ⟨t.closed, t.body⟩)]) := by
  rw [termPattern_eq]
  cases ho : t.operator? with
  | none =>
      have hclosed : t.closed = t.body := by simp [WrittenTerm.closed, ho]
      have hfails : termOperator.Fails t.body :=
        fails_termOperator (stops_body (by decide) (by decide) (by decide) t)
      rw [hclosed]
      exact (reads_opt_of_fails (fails_group hfails)).seq h
  | some o =>
      have hclosed : t.closed = o.operator.text ++ t.body := by simp [WrittenTerm.closed, ho]
      have hop : termOperator.Reads t.closed t.body [] := by
        rw [hclosed]
        exact reads_termOperator o.operator (stops_body (by decide) (by decide) (by decide) t)
      exact (hop.group .operator).opt.seq h

theorem readTerm_anything (letter : Bool) :
    readTerm (WrittenTerm.anything letter).closed = .ok [] := by
  have hbody := reads_versionPart_of_body letter (by simp) reads_versionBody_star
  rw [readTerm, matchFront?_of_reads (reads_termPattern (.anything letter) hbody)]
  rfl

theorem readTerm_wildcard (letter : Bool) (r : Release) (x : Option Suffix) :
    readTerm (WrittenTerm.wildcard letter r x).closed
      = readVersion r.text >>= fun p => within p.1 p.2 := by
  have hbody := reads_versionPart_of_body letter (stops_text (by decide) r _)
    (reads_versionBody_wildcard r x)
  have hne := text_append_ne_star r ('.' :: '*' :: suffixText x)
  rw [readTerm, matchFront?_of_reads (reads_termPattern (.wildcard letter r x) hbody)]
  simp [Match.groupD, Match.group?, WrittenTerm.operator?, hne]

theorem readTerm_version (o : Option WrittenOperator) (letter : Bool) (r : Release)
    (x : Option Suffix) (h : Version.read (r.text ++ suffixText x) ≠ .error .invalid) :
    readTerm (WrittenTerm.version o letter r x h).closed
      = readVersion (r.text ++ suffixText x) >>= fun p =>
          versionBounds (o.elim [] (·.operator.text)) p.1 p.2 := by
  have hbody := reads_versionPart_of_body letter (stops_text (by decide) r _)
    (reads_versionBody r x)
  have hne := text_append_ne_star r (suffixText x)
  rw [readTerm, matchFront?_of_reads (reads_termPattern (.version o letter r x h) hbody)]
  cases o with
  | none => simp [Match.groupD, Match.group?, WrittenTerm.operator?, hne]
  | some o =>
      simp [Match.groupD, Match.group?, WrittenTerm.operator?, WrittenTerm.closed,
        WrittenTerm.body, hne]

/-- A closed term is accepted, unless a number has too many digits. -/
theorem failsWithin_readTerm (t : WrittenTerm) :
    FailsWithin Fault.IsTooLong (readTerm t.closed) := by
  cases t with
  | anything letter =>
      rw [readTerm_anything]
      exact .ok _ _
  | wildcard letter r x =>
      rw [readTerm_wildcard]
      exact (failsWithin_readVersion (isVersion_text r)).bind fun p _ => failsWithin_within _ _
  | version o letter r x hversion =>
      rw [readTerm_version]
      exact (failsWithin_readVersion hversion).bind fun p _ => failsWithin_versionBounds _ _ _

section Parts

variable {s s' : List Char}

theorem exists_mark_of_canRead {x : Char}
    (h : (opt (char (· == x)) : Pattern Part).CanRead s s') : ∃ w, s = mark x w ++ s' := by
  rcases canRead_opt.mp h with h | rfl
  · obtain ⟨y, hy, rfl⟩ := canRead_char.mp h
    obtain rfl : y = x := by simpa using hy
    exact ⟨true, rfl⟩
  · exact ⟨false, rfl⟩

theorem exists_suffix_of_canRead (h : versionSuffix.CanRead s s') :
    ∃ x, s = suffixText x ++ s' := by
  rcases canRead_opt.mp h with h | rfl
  · obtain ⟨s₁, hhyphen, h⟩ := canRead_seq.mp h
    obtain ⟨s₂, hletters, h⟩ := canRead_seq.mp h
    obtain ⟨s₃, hpoint, hdigits⟩ := canRead_seq.mp h
    obtain ⟨hyphen, rfl⟩ := exists_mark_of_canRead hhyphen
    obtain ⟨letters, hne, rfl, halpha⟩ := canRead_chars1.mp hletters
    obtain ⟨point, rfl⟩ := exists_mark_of_canRead hpoint
    obtain ⟨digits, rfl, hdecimal⟩ := canRead_chars.mp hdigits
    exact ⟨some ⟨hyphen, letters, point, digits, hne, halpha, hdecimal⟩,
      by simp [suffixText, Suffix.text]⟩
  · exact ⟨none, rfl⟩

theorem exists_operator_of_canRead (h : termOperator.CanRead s s') :
    ∃ op : Operator, s = op.text ++ s' := by
  rcases canRead_alt.mp h with h | h
  · obtain ⟨c, hc, rfl⟩ := canRead_char.mp h
    obtain rfl : c = '^' := by simpa using hc
    exact ⟨.caret, rfl⟩
  rcases canRead_alt.mp h with h | h
  · obtain ⟨c, hc, rfl⟩ := canRead_char.mp h
    obtain rfl : c = '~' := by simpa using hc
    exact ⟨.tilde, rfl⟩
  rcases canRead_alt.mp h with h | h
  · obtain ⟨m, hfirst, hequal⟩ := canRead_seq.mp h
    obtain ⟨c, hc, rfl⟩ := canRead_char.mp hfirst
    obtain ⟨w, rfl⟩ := exists_mark_of_canRead hequal
    have hsign : c = '<' ∨ c = '>' := by simpa using hc
    rcases hsign with rfl | rfl
    · cases w with
      | false => exact ⟨.compare .lt, rfl⟩
      | true => exact ⟨.compare .le, rfl⟩
    · cases w with
      | false => exact ⟨.compare .gt, rfl⟩
      | true => exact ⟨.compare .ge, rfl⟩
  rcases canRead_alt.mp h with h | h
  · obtain ⟨m, hfirst, hequal⟩ := canRead_seq.mp h
    obtain ⟨c, hc, rfl⟩ := canRead_char.mp hfirst
    obtain ⟨w, rfl⟩ := exists_mark_of_canRead hequal
    obtain rfl : c = '=' := by simpa using hc
    cases w with
    | false => exact ⟨.compare .eq, rfl⟩
    | true => exact ⟨.compare .eqEq, rfl⟩
  · exact ⟨.compare .ne, canRead_lit.mp h⟩

/-- The text is a row of numbers in the digits of any script: it starts with a digit, and it is a
release if its digits are ASCII digits. -/
structure IsRow (a : List Char) : Prop where
  starts : ∃ d t, a = d :: t ∧ isDecimal d = true
  isRelease : (∀ c ∈ a, isDecimal c = true → c.isDigit = true) → ∃ r : Release, a = r.text

theorem IsRow.append_ne_star {a : List Char} (h : IsRow a) (s : List Char) : a ++ s ≠ ['*'] := by
  obtain ⟨d, t, rfl, hd⟩ := h.starts
  rw [List.cons_append]
  rintro he
  obtain ⟨rfl, -⟩ := List.cons.inj he
  exact absurd hd (by decide)

/-- Release numbers in the digits of any script are a release if the digits are ASCII digits. -/
theorem exists_dotted_of_canRead_upTo {k : Nat}
    (h : (upTo k (seq (char (· == '.')) (chars1 isDecimal)) : Pattern Part).CanRead s s') :
    ∃ a, s = a ++ s' ∧ ((∀ c ∈ a, isDecimal c = true → c.isDigit = true) →
      ∃ ns : List Numeral, ns.length ≤ k ∧ a = dotted ns) := by
  induction k generalizing s with
  | zero =>
      obtain rfl : s' = s := canRead_empty.mp h
      exact ⟨[], rfl, fun _ => ⟨[], Nat.le_refl _, rfl⟩⟩
  | succ k ih =>
      rcases canRead_opt.mp h with h | rfl
      · obtain ⟨m, hround, hrest⟩ := canRead_seq.mp h
        obtain ⟨t, hdot, hdigits⟩ := canRead_seq.mp hround
        obtain ⟨x, hx, rfl⟩ := canRead_char.mp hdot
        obtain ⟨digits, hne, rfl, hdecimal⟩ := canRead_chars1.mp hdigits
        obtain ⟨a, rfl, ha⟩ := ih hrest
        obtain rfl : x = '.' := by simpa using hx
        refine ⟨'.' :: (digits ++ a), by simp, fun hascii => ?_⟩
        simp only [List.forall_mem_cons, List.forall_mem_append] at hascii
        obtain ⟨ns, hlength, rfl⟩ := ha hascii.2.2
        exact ⟨⟨digits, hne, fun c hc => hascii.2.1 c hc (hdecimal c hc)⟩ :: ns,
          Nat.succ_le_succ hlength, by rw [dotted_cons]⟩
      · exact ⟨[], rfl, fun _ => ⟨[], Nat.zero_le _, rfl⟩⟩

theorem exists_row_of_canRead (h : releaseNumbers.CanRead s s') :
    ∃ a, s = a ++ s' ∧ IsRow a := by
  obtain ⟨m, hfirst, hrest⟩ := canRead_seq.mp h
  obtain ⟨digits, hne, rfl, hdecimal⟩ := canRead_chars1.mp hfirst
  obtain ⟨a, rfl, ha⟩ := exists_dotted_of_canRead_upTo hrest
  refine ⟨digits ++ a, by simp, ?_, fun hascii => ?_⟩
  · obtain ⟨d, t, rfl⟩ := List.exists_cons_of_ne_nil hne
    exact ⟨d, t ++ a, rfl, hdecimal d List.mem_cons_self⟩
  · rw [List.forall_mem_append] at hascii
    obtain ⟨ns, hlength, rfl⟩ := ha hascii.2
    exact ⟨⟨⟨digits, hne, fun c hc => hascii.1 c hc (hdecimal c hc)⟩, ns, hlength⟩, rfl⟩

/-- The three forms of a body, with what the groups read of each. -/
theorem cases_of_yields_versionBody {c : Captures Part} (h : versionBody.Yields s s' c) :
    (s = '*' :: s' ∧ c = [])
      ∨ (∃ a x, s = a ++ (suffixText x ++ s') ∧ IsRow a
          ∧ c = [(.release, ⟨s, suffixText x ++ s'⟩)])
      ∨ ∃ a x, s = a ++ (['.', '*'] ++ (suffixText x ++ s')) ∧ IsRow a
          ∧ c = [(.wildcard, ⟨['.', '*'] ++ (suffixText x ++ s'), suffixText x ++ s'⟩),
            (.release, ⟨s, ['.', '*'] ++ (suffixText x ++ s')⟩)] := by
  rcases yields_alt.mp h with h | h
  · obtain ⟨s₁, c₁, hrow, hrest, rfl⟩ := (yields_group_seq rfl).mp h
    obtain ⟨s₂, c₂, c₃, hwildcard, hsuffix, rfl⟩ := yields_seq.mp hrest
    obtain rfl := hsuffix.eq_nil rfl
    obtain ⟨x, rfl⟩ := exists_suffix_of_canRead hsuffix.canRead
    obtain ⟨a, rfl, ha⟩ := exists_row_of_canRead hrow
    rcases yields_opt.mp hwildcard with hwildcard | ⟨rfl, rfl⟩
    · obtain ⟨c₄, hlit, rfl⟩ := yields_group.mp hwildcard
      obtain rfl := hlit.eq_nil rfl
      obtain rfl := canRead_lit.mp hlit.canRead
      exact .inr (.inr ⟨a, x, rfl, ha, rfl⟩)
    · exact .inr (.inl ⟨a, x, rfl, ha, rfl⟩)
  · obtain rfl := h.eq_nil rfl
    obtain ⟨y, hy, rfl⟩ := canRead_char.mp h.canRead
    obtain rfl : y = '*' := by simpa using hy
    exact .inl ⟨rfl, rfl⟩

end Parts

/-- What the operator part yields: an operator and its group, or nothing. -/
theorem exists_operator_of_yields {s s' : List Char} {c : Captures Part}
    (h : (opt (group .operator termOperator)).Yields s s' c) :
    ∃ o : Option Operator, s = o.elim [] Operator.text ++ s'
      ∧ c = o.elim [] fun _ => [(.operator, ⟨s, s'⟩)] := by
  rcases yields_opt.mp h with h | ⟨rfl, rfl⟩
  · obtain ⟨c', hop, rfl⟩ := yields_group.mp h
    obtain rfl := hop.eq_nil rfl
    obtain ⟨op, rfl⟩ := exists_operator_of_canRead hop.canRead
    exact ⟨some op, rfl, rfl⟩
  · exact ⟨none, rfl, rfl⟩

/-- What the term pattern reads of a text without a line feed is an operator, a letter and a
body. -/
theorem exists_parts_of_matchFront? {s : List Char} {m : Match Part}
    (h : termPattern.matchFront? s = some m) (hs : '\n' ∉ s) :
    ∃ (o : Option Operator) (letter : Bool) (b : List Char) (c : Captures Part),
      s = o.elim [] Operator.text ++ (mark 'v' letter ++ b) ∧ versionBody.Yields b [] c
        ∧ m.captures
          = (.version, ⟨b, []⟩)
            :: (c ++ o.elim [] fun _ => [(.operator, ⟨s, mark 'v' letter ++ b⟩)]) := by
  obtain ⟨-, hreads⟩ := reads_of_matchFront? h
  obtain ⟨s₁, c₁, c₂, hop, hpart, hc⟩ := yields_seq.mp (termPattern_eq ▸ hreads.yields)
  obtain ⟨b, hletter, hrest⟩ := (yields_seq_of_names rfl).mp hpart
  obtain ⟨s₃, c₃, c₄, hversion, hend, rfl⟩ := yields_seq.mp hrest
  obtain ⟨c, hbody, rfl⟩ := yields_group.mp hversion
  obtain rfl := hend.eq_nil rfl
  obtain ⟨o, rfl, rfl⟩ := exists_operator_of_yields hop
  obtain ⟨letter, rfl⟩ := exists_mark_of_canRead hletter
  obtain ⟨-, hlast⟩ := canRead_textEnd.mp hend.canRead
  obtain rfl : s₃ = [] := by
    refine hlast.resolve_right ?_
    rintro rfl
    have hmem : '\n' ∈ b := hbody.canRead.suffix.mem List.mem_cons_self
    exact hs (by simp [hmem])
  exact ⟨o, letter, b, c, rfl, hbody, hc⟩

/-- An operator as it is written, without blanks. -/
def WrittenOperator.closed (op : Operator) : WrittenOperator :=
  ⟨op, ⟨[], isBlank_of_mem_nil⟩, ⟨[], isBlank_of_mem_nil⟩⟩

theorem Operator.text_ne_nil (op : Operator) : op.text ≠ [] := by
  cases op with
  | caret => exact List.cons_ne_nil _ _
  | tilde => exact List.cons_ne_nil _ _
  | compare sign => cases sign <;> exact List.cons_ne_nil _ _

/-- A text without a line feed that is read as a term is a closed term. -/
theorem exists_term_of_readTerm {s : List Char} {r : VersionRange} (h : readTerm s = .ok r)
    (hs : '\n' ∉ s) : ∃ t : WrittenTerm, t.closed = s := by
  rw [readTerm] at h
  cases hm : termPattern.matchFront? s with
  | none => simp [hm] at h
  | some m =>
      obtain ⟨o, letter, b, c, hparts, hbody, hc⟩ := exists_parts_of_matchFront? hm hs
      have hversion : m.groupD .version = b := by
        simp [Match.groupD, Match.group?, hc]
      simp only [hm, hversion] at h
      rcases cases_of_yields_versionBody hbody with
        ⟨rfl, rfl⟩ | ⟨a, x, rfl, ha, rfl⟩ | ⟨a, x, rfl, ha, rfl⟩
      · -- A wildcard alone is read without an operator only.
        have hop : m.groupD .operator = o.elim [] Operator.text := by
          cases o <;> simp [Match.groupD, Match.group?, hc, hparts]
        cases o with
        | some op => simp [hop, op.text_ne_nil] at h
        | none => exact ⟨.anything letter, hparts.symm⟩
      · have hwildcard : m.group? .wildcard = none := by
          cases o <;> simp [Match.group?, hc]
        rw [List.append_nil] at hparts h
        rw [if_neg (by simp [hwildcard, ha.append_ne_star])] at h
        obtain ⟨v, hv, -⟩ := exists_of_bind_eq_ok h
        have hread := isVersion_of_readVersion hv
        obtain ⟨r, rfl⟩ := ha.isRelease fun c hc => isDigit_of_read hread c (by simp [hc])
        refine ⟨.version (o.map .closed) letter r x hread, ?_⟩
        rw [hparts]
        cases o <;> rfl
      · have hop : m.groupD .operator = o.elim [] Operator.text := by
          cases o <;> simp [Match.groupD, Match.group?, hc, hparts]
        have hwildcard : (m.group? .wildcard).isSome = true := by
          simp [Match.group?, hc]
        have hrelease : m.groupD .release = a := by
          simp [Match.groupD, Match.group?, hc]
        rw [List.append_nil] at hparts h
        rw [if_pos (.inr hwildcard), if_neg (ha.append_ne_star _), hop, hrelease] at h
        cases o with
        | some op => simp [op.text_ne_nil] at h
        | none =>
            obtain ⟨v, hv, -⟩ := exists_of_bind_eq_ok h
            have hread := isVersion_of_readVersion hv
            obtain ⟨r, rfl⟩ := ha.isRelease (isDigit_of_read hread)
            exact ⟨.wildcard letter r x, hparts.symm⟩

end DocTags.Constraint
