import DocTags.Proofs.Version.Expression
import DocTags.Proofs.Version.Signs

/-!
# Reading constraint expressions

The reader takes a written expression apart at its bars, attaches the operators, takes the terms
apart and reads each of them. Every step gives back what the expression was written from, so a
constraint is read if the expression is legible, and then it admits what the expression says.
-/

namespace DocTags.Constraint

open Text Pattern
open Version (place)

theorem place_lt {ns : List Numeral} {k : Nat} (h : ∀ n ∈ ns, n.digits.length ≤ k) (i : Nat) :
    place (ns.map Numeral.value) i < Decimal.leastBeyond k := by
  rw [place, List.getD_eq_getElem?_getD]
  cases hi : (ns.map Numeral.value)[i]? with
  | none => exact Decimal.one_le_leastBeyond _
  | some a =>
      obtain ⟨n, hn, rfl⟩ := List.mem_map.mp (List.mem_of_getElem? hi)
      exact Numeral.value_lt (h n hn)

/-- All numbers of a raised row are below a limit if those before the raised one are and the raised
one stays below it. -/
theorem forall_mem_raised_lt (r : List Nat) (n limit : Nat) :
    (∀ m ∈ raised r (n + 1), m < limit)
      ↔ (∀ i < n, place r i < limit) ∧ place r n + 1 < limit := by
  induction n generalizing r with
  | zero =>
      simp only [Nat.zero_add, raised, List.mem_singleton, forall_eq, Version.headD_eq_place,
        Nat.not_lt_zero, false_implies, implies_true, true_and]
  | succ n ih =>
      rw [raised, List.forall_mem_cons, ih, Nat.forall_lt_succ_left, and_assoc]
      · simp only [Version.headD_eq_place, Version.place_tail]
      · exact Nat.succ_ne_zero n

/-- The next release at one of the first `n` places, if the last of them can be raised and still be
written. -/
theorem bump_of_place_lt {v : Version}
    (hv : ∀ i, place v.release i < Decimal.leastBeyond Decimal.maxDigits) {n : Nat} (hn : 0 < n) :
    GivesIff Fault.IsTooLong (bump v n)
      (place v.release (n - 1) + 1 < Decimal.leastBeyond Decimal.maxDigits)
      (.ofRelease (raised v.release n)) := by
  obtain ⟨k, rfl⟩ := Nat.exists_eq_succ_of_ne_zero (Nat.ne_of_gt hn)
  have hall : ((raised v.release (k + 1)).all fun m =>
      (Decimal.natText m).length ≤ Decimal.maxDigits) = true
        ↔ place v.release k + 1 < Decimal.leastBeyond Decimal.maxDigits := by
    have hlength (m : Nat) : (Decimal.natText m).length ≤ Decimal.maxDigits
        ↔ m < Decimal.leastBeyond Decimal.maxDigits :=
      Decimal.length_natText_le_iff m (by decide)
    simp only [List.all_eq_true, decide_eq_true_eq, hlength, forall_mem_raised_lt]
    constructor
    · intro h
      exact h.2
    · intro h
      exact ⟨fun i _ => hv i, h⟩
  constructor
  · intro h
    exact if_pos (hall.mpr h)
  · intro h
    exact ⟨_, ⟨none, rfl⟩, if_neg fun hn => h (hall.mp hn)⟩

/-- The next release at one of the first `n` places, if the numbers can be read. -/
theorem bump_ofRelease {r : Release} (hr : r.IsShort) {n : Nat} (hn : 0 < n) :
    GivesIff Fault.IsTooLong (bump (.ofRelease r.numbers) n) (CanRaise r n)
      (.ofRelease (raised r.numbers n)) :=
  (bump_of_place_lt (v := .ofRelease r.numbers) (place_lt hr) hn).congr
    (and_iff_right hr).symm

/-- The range within `n` places of a release whose numbers can be read. -/
theorem within_ofRelease {r : Release} (hr : r.IsShort) {n : Nat} (hn : 0 < n) :
    GivesIff Fault.IsTooLong (within (.ofRelease r.numbers) n) (CanRaise r n)
      (boundsWithin r n) :=
  (bump_ofRelease hr hn).map _

/-- A written release starts with a digit. -/
theorem stops_text {accepts : Char → Bool} (h : ∀ c ∈ "0123456789".toList, accepts c = false)
    (r : Release) (s : List Char) : Stops accepts (r.text ++ s) := by
  rw [Release.text, List.append_assoc]
  exact r.first.stops h _

/-- At most `k` times a point and a number. -/
theorem reads_upTo {k : Nat} {ns : List Numeral} (hk : ns.length ≤ k) {s : List Char}
    (hs : Stops isDecimal s)
    (hf : (seq (char (· == '.')) (chars1 isDecimal) : Pattern Part).Fails s) :
    (upTo k (seq (char (· == '.')) (chars1 isDecimal)) : Pattern Part).Reads
      (dotted ns ++ s) s [] := by
  induction k generalizing ns with
  | zero =>
      obtain rfl : ns = [] := List.length_eq_zero_iff.mp (Nat.le_zero.mp hk)
      exact reads_empty
  | succ k ih =>
      cases ns with
      | nil => exact reads_opt_of_fails (fails_seq_left hf)
      | cons n ns =>
          have hround : (seq (char (· == '.')) (chars1 isDecimal) : Pattern Part).Reads
              (dotted (n :: ns) ++ s) (dotted ns ++ s) [] := by
            rw [dotted_cons, List.cons_append, List.append_assoc]
            exact (reads_char (by simp)).seq
              (reads_numeral isDecimal (by decide) n (stops_dotted isDecimal (by decide) ns hs))
          exact (hround.seq (ih (Nat.le_of_succ_le_succ hk))).opt

theorem reads_releaseNumbers (r : Release) {s : List Char} (hs : Stops isDecimal s)
    (hf : (seq (char (· == '.')) (chars1 isDecimal) : Pattern Part).Fails s) :
    releaseNumbers.Reads (r.text ++ s) s [] := by
  rw [Release.text, List.append_assoc]
  exact (reads_numeral isDecimal (by decide) r.first
    (stops_dotted isDecimal (by decide) r.rest hs)).seq (reads_upTo r.length_rest_le hs hf)

/-- A written operator is read whole in front of anything but an equality sign. -/
theorem reads_termOperator (op : Operator) {s : List Char} (hs : Stops (· == '=') s) :
    termOperator.Reads (op.text ++ s) s [] := by
  cases op with
  | caret => simp [Reads, termOperator, oneOf, outcomes, Operator.text]
  | tilde => simp [Reads, termOperator, oneOf, outcomes, Operator.text]
  | compare sign =>
      cases s with
      | nil => cases sign <;> rfl
      | cons d s =>
          have hd : d ≠ '=' := by simpa using hs
          cases sign <;>
            simp [Reads, termOperator, oneOf, outcomes, opt, lit, followedBy, Operator.text,
              Sign.text, hd]

/-- An operator starts with a sign. -/
theorem fails_termOperator {s : List Char} (hs : Stops isSign s) : termOperator.Fails s := by
  cases s with
  | nil => rfl
  | cons d s =>
      have hd : ((((d ≠ '<' ∧ d ≠ '>') ∧ d ≠ '!') ∧ d ≠ '=') ∧ d ≠ '^' ∧ d ≠ '~') := by
        simpa [isSign, isComparison] using hs
      simp [Fails, termOperator, oneOf, outcomes, lit, followedBy, hd]

/-- A written release has a first digit. -/
theorem exists_text_eq_cons (r : Release) :
    ∃ d s, r.text = d :: s ∧ d ∈ "0123456789".toList := by
  obtain ⟨d, ds, hd⟩ := List.exists_cons_of_ne_nil r.first.ne_nil
  exact ⟨d, ds ++ dotted r.rest, by rw [Release.text, hd, List.cons_append],
    r.first.forall_mem (fun _ h => h) d (by simp [hd])⟩

theorem text_append_ne_star (r : Release) (s : List Char) : r.text ++ s ≠ ['*'] := by
  obtain ⟨d, t, hr, hd⟩ := exists_text_eq_cons r
  rw [hr, List.cons_append]
  rintro h
  obtain ⟨rfl, -⟩ := List.cons.inj h
  exact absurd hd (by decide)

theorem text_ne_star (r : Release) : r.text ≠ ['*'] := by
  simpa using text_append_ne_star r []

/-- What may stand between the release and the end of a term. -/
def versionSuffix : Pattern Part :=
  opt (chain [opt (char (· == '-')), chars1 Char.isAlpha, opt (char (· == '.')), chars isDecimal])

/-- The parts of a term behind its operator. -/
def versionPart : Pattern Part :=
  chain
    [opt (char (· == 'v')),
      group .version
        (alt
          (chain [group .release releaseNumbers, opt (group .wildcard (lit ['.', '*'])),
            versionSuffix])
          (char (· == '*'))),
      textEnd]

theorem termPattern_eq : termPattern = seq (opt (group .operator termOperator)) versionPart := rfl

theorem reads_skip {p : Pattern Part} (hp : p.consumes = true) : (opt p).Reads [] [] [] :=
  reads_opt_of_fails (fails_nil_of_consumes hp)

/-- The version part reads a release up to the end of a term. -/
theorem reads_versionPart (r : Release) :
    versionPart.Reads r.text [] [(.version, ⟨r.text, []⟩), (.release, ⟨r.text, []⟩)] := by
  have hv : (opt (char (· == 'v')) : Pattern Part).Reads r.text r.text [] :=
    reads_opt_of_fails (fails_char (by simpa using stops_text (by decide) r []))
  have hnumbers : releaseNumbers.Reads r.text [] [] := by
    simpa using reads_releaseNumbers r (stops_nil _) (fails_nil_of_consumes rfl)
  have hsuffix : versionSuffix.Reads [] [] [] := reads_skip rfl
  have hwildcard : (opt (group Part.wildcard (lit ['.', '*']))).Reads [] [] [] := reads_skip rfl
  have h := hv.seq ((((hnumbers.group .release).seq (hwildcard.seq
    hsuffix)).alt_left (q := char (· == '*')) |>.group .version).seq reads_textEnd)
  exact h

/-- The version part reads a release with a wildcard up to the end of a term. -/
theorem reads_versionPart_wildcard (r : Release) :
    versionPart.Reads (r.text ++ ['.', '*']) []
      [(.version, ⟨r.text ++ ['.', '*'], []⟩), (.wildcard, ⟨['.', '*'], []⟩),
        (.release, ⟨r.text ++ ['.', '*'], ['.', '*']⟩)] := by
  have hv : (opt (char (· == 'v')) : Pattern Part).Reads (r.text ++ ['.', '*'])
      (r.text ++ ['.', '*']) [] :=
    reads_opt_of_fails (fails_char (stops_text (by decide) r _))
  have hnumbers : releaseNumbers.Reads (r.text ++ ['.', '*']) ['.', '*'] [] :=
    reads_releaseNumbers r (by rw [stops_cons]; decide) (by rfl)
  have hwildcard : (opt (group Part.wildcard (lit ['.', '*']))).Reads ['.', '*'] []
      [(.wildcard, ⟨['.', '*'], []⟩)] := by
    have h := ((reads_lit (κ := Part) ['.', '*'] []).group .wildcard).opt
    exact h
  have hsuffix : versionSuffix.Reads [] [] [] := reads_skip rfl
  have h := hv.seq ((((hnumbers.group .release).seq (hwildcard.seq
    hsuffix)).alt_left (q := char (· == '*')) |>.group .version).seq reads_textEnd)
  exact h

theorem reads_termPattern_operated (op : Operator) (r : Release) :
    termPattern.Reads (op.text ++ r.text) []
      [(.version, ⟨r.text, []⟩), (.release, ⟨r.text, []⟩),
        (.operator, ⟨op.text ++ r.text, r.text⟩)] := by
  have hop : termOperator.Reads (op.text ++ r.text) r.text [] :=
    reads_termOperator op (by simpa using stops_text (by decide) r [])
  rw [termPattern_eq]
  exact (hop.group .operator).opt.seq (reads_versionPart r)

theorem reads_termPattern_wildcard (r : Release) :
    termPattern.Reads (r.text ++ ['.', '*']) []
      [(.version, ⟨r.text ++ ['.', '*'], []⟩), (.wildcard, ⟨['.', '*'], []⟩),
        (.release, ⟨r.text ++ ['.', '*'], ['.', '*']⟩)] := by
  rw [termPattern_eq]
  exact (reads_opt_of_fails (fails_group (fails_termOperator (stops_text (by decide) r _)))).seq
    (reads_versionPart_wildcard r)

theorem reads_termPattern_bare (r : Release) :
    termPattern.Reads r.text [] [(.version, ⟨r.text, []⟩), (.release, ⟨r.text, []⟩)] := by
  have hop : termOperator.Fails r.text :=
    fails_termOperator (by simpa using stops_text (by decide) r [])
  rw [termPattern_eq]
  exact (reads_opt_of_fails (fails_group hop)).seq (reads_versionPart r)

theorem reads_termPattern_anything :
    termPattern.Reads ['*'] [] [(.version, ⟨['*'], []⟩)] := rfl

theorem caretPosition_ofRelease (r : List Nat) :
    caretPosition (.ofRelease r) r.length = caretPlaces r := by
  simp only [caretPosition, caretPlaces, Version.ofRelease, Version.headD_eq_place,
    Version.place_tail]

/-- The bounds of a release with an operator, read from the release's text. -/
theorem versionBounds_operated (op : Operator) (blanks : Blanks) {r : Release} (hr : r.IsShort) :
    GivesIff Fault.IsTooLong (versionBounds op.text (.ofRelease r.numbers) r.numbers.length)
      (Term.operated op blanks r).IsLegible (Term.operated op blanks r).bounds := by
  cases op with
  | caret =>
      rw [Operator.text, versionBounds, caretPosition_ofRelease]
      exact within_ofRelease hr (caretPlaces_pos _)
  | tilde =>
      rw [Operator.text, versionBounds]
      exact within_ofRelease hr (tildePlaces_pos _)
  | compare sign =>
      have hbounds : versionBounds sign.text (.ofRelease r.numbers) r.numbers.length
          = .ok [⟨sign.comparison, .ofRelease r.numbers⟩] := by
        cases sign <;> rfl
      rw [Operator.text, hbounds]
      exact (GivesIff.ok _ _).congr (iff_of_true trivial hr)

theorem versionBounds_bare {r : Release} (hr : r.IsShort) :
    GivesIff Fault.IsTooLong (versionBounds [] (.ofRelease r.numbers) r.numbers.length)
      (Term.bare r).IsLegible (Term.bare r).bounds := by
  rw [versionBounds, Term.IsLegible, Term.bounds]
  split
  · exact within_ofRelease hr (length_numbers_pos r)
  · exact (GivesIff.ok _ _).congr (iff_of_true trivial hr)

/-- Whatever makes a term legible, the numbers in it can be read. -/
theorem isShort_of_isLegible_operated {op : Operator} {blanks : Blanks} {r : Release}
    (h : (Term.operated op blanks r).IsLegible) : r.IsShort := by
  cases op with
  | caret => exact h.1
  | tilde => exact h.1
  | compare sign => exact h

theorem isShort_of_isLegible_bare {r : Release} (h : (Term.bare r).IsLegible) : r.IsShort := by
  rw [Term.IsLegible] at h
  split at h
  · exact h.1
  · exact h

/-- A written term reads as the bounds that it stands for, if it is legible. -/
theorem readTerm_attached (t : Term) :
    GivesIff Fault.IsTooLong (readTerm t.attached) t.IsLegible t.bounds := by
  cases t with
  | operated op blanks r =>
      have hread : readTerm (op.text ++ r.text) = readVersion r.text >>= fun p =>
          versionBounds op.text p.1 p.2 := by
        rw [readTerm, matchFront?_of_reads (reads_termPattern_operated op r)]
        simp [Match.groupD, Match.group?, text_ne_star]
      rw [Term.attached, hread]
      exact (readVersion_text r).bind_of_imp (fun hr => versionBounds_operated op blanks hr)
        isShort_of_isLegible_operated
  | wildcard r =>
      have hread : readTerm (r.text ++ ['.', '*']) = readVersion r.text >>= fun p =>
          within p.1 p.2 := by
        have hne : r.text ++ ['.', '*'] ≠ ['*'] := by
          intro h
          simpa using congrArg List.length h
        rw [readTerm, matchFront?_of_reads (reads_termPattern_wildcard r)]
        simp [Match.groupD, Match.group?, hne]
      rw [Term.attached, Term.text, hread]
      · exact (readVersion_text r).bind_of_imp
          (fun hr => within_ofRelease hr (length_numbers_pos r)) fun h => h.1
      · simp
  | anything =>
      rw [Term.attached, Term.text, readTerm, matchFront?_of_reads reads_termPattern_anything]
      · exact GivesIff.ok _ _
      · simp
  | bare r =>
      have hread : readTerm r.text = readVersion r.text >>= fun p =>
          versionBounds [] p.1 p.2 := by
        rw [readTerm, matchFront?_of_reads (reads_termPattern_bare r)]
        simp [Match.groupD, Match.group?, text_ne_star]
      rw [Term.attached, Term.text, hread]
      · exact (readVersion_text r).bind_of_imp (fun hr => versionBounds_bare hr)
          isShort_of_isLegible_bare
      · simp

end DocTags.Constraint
