import DocTags.Proofs.Requirements.TrailingGaps
import DocTags.Proofs.Tag.CommentLines

/-!
# A return at the end of a line

A line and the same line with a return behind it have the same tags of almost every kind: the return
is left out where the line ends, read by blanks with nothing behind them, or stops the characters in
front of it. It is noticed in three kinds of tag, and only if the first of the kind breaks off. The
word that opens literal rows has to have a blank behind it, and the return is one. Where nothing but
blanks stands behind the name of an operating system or of a setting, the return is read as what is
required.
-/

namespace DocTags

open Pattern Text Requirements

namespace Dialect

/-- On a line the pattern prefers the same reading in front of a return. -/
def IgnoresReturn {κ : Type} (p : Pattern κ) : Prop :=
  p.Agrees (· ++ ['\r']) fun c => c ≠ '\n' ∧ c ≠ '\r'

section Patterns

variable {κ : Type} {p q : Pattern κ}

theorem IgnoresReturn.agrees_suffix (hq : IgnoresReturn q) :
    ∀ e, e <:+ ['\r'] → q.Agrees (· ++ e) fun c => c ≠ '\n' ∧ c ≠ '\r' := by
  intro e he
  rcases List.suffix_cons_iff.mp he with rfl | he
  · exact hq
  · obtain rfl := List.suffix_nil.mp he
    intro s _
    simp

theorem IgnoresReturn.chars_seq (hq : IgnoresReturn q) (accepts : Char → Bool) :
    IgnoresReturn (seq (chars accepts) q) :=
  agrees_chars_seq hq.agrees_suffix accepts

theorem IgnoresReturn.chars1_seq (hq : IgnoresReturn q) (accepts : Char → Bool)
    (hnil : q.Fails []) : IgnoresReturn (seq (chars1 accepts) q) :=
  agrees_chars1_seq hq.agrees_suffix accepts hnil

theorem ignoresReturn_of_follows (hp : p.Follows (· ++ ['\r'])) : IgnoresReturn p := by
  intro s _
  have hhead := congrArg (fun rs => rs.head?.map Prod.snd) (hp s)
  simp only [List.head?_map, Option.map_map] at hhead
  rw [preferred, preferred]
  exact hhead

theorem ignoresReturn_lineTail : IgnoresReturn (lineTail : Pattern κ) :=
  agrees_of_names_eq_nil rfl fails_lineTail_append_return

end Patterns

theorem ignoresReturn_version : IgnoresReturn versionPattern := by
  have hversion : (group Field.version
      (seq (chars1 isVersionChar) (opt (alt (lit "dev".toList)
        (seq (oneOf (lit "RC".toList) [lit "alpha".toList, lit "beta".toList])
          (char fun c => isDecimal c || c == '.')))))).Follows (· ++ ['\r']) :=
    follows_append rfl rfl
  have hcomparison : comparison.Follows (· ++ ['\r']) := follows_append rfl rfl
  have hplatform : platform.Follows (· ++ ['\r']) := follows_append rfl rfl
  have hword : (lit "@requires".toList : Pattern Field).Follows (· ++ ['\r']) :=
    follows_append rfl rfl
  have hnumber : IgnoresReturn _ := hversion.seq_agrees ignoresReturn_lineTail
  have hcompared : IgnoresReturn _ := hcomparison.seq_agrees (hnumber.chars_seq isBlank)
  have hnamed : IgnoresReturn _ :=
    hplatform.seq_agrees (hcompared.chars1_seq isBlank (fails_nil_of_consumes rfl))
  exact (hword.seq_agrees (hnamed.chars1_seq isBlank (fails_nil_of_consumes rfl))).seq_assoc

theorem ignoresReturn_versionConstraint : IgnoresReturn versionConstraintPattern := by
  have hconstraint : (group Field.constraint (chars1 isConstraintChar)).Follows (· ++ ['\r']) :=
    follows_append rfl rfl
  have hplatform : platform.Follows (· ++ ['\r']) := follows_append rfl rfl
  have hword : (lit "@requires".toList : Pattern Field).Follows (· ++ ['\r']) :=
    follows_append rfl rfl
  have hrequired : IgnoresReturn _ := hconstraint.seq_agrees ignoresReturn_lineTail
  have hnamed : IgnoresReturn _ :=
    hplatform.seq_agrees (hrequired.chars1_seq isBlank (fails_nil_of_consumes rfl))
  exact (hword.seq_agrees (hnamed.chars1_seq isBlank (fails_nil_of_consumes rfl))).seq_assoc

theorem ignoresReturn_prerequisite : IgnoresReturn prerequisitePattern := by
  have hversion : (group Field.version
      (seq (chars1 isVersionChar) (opt (char fun c => isDecimal c || c == '.')))).Follows
        (· ++ ['\r']) := follows_append rfl rfl
  have hcomparison : comparison.Follows (· ++ ['\r']) := follows_append rfl rfl
  have hvalue : (group Field.value (chars1 fun c => !isBlank c && !isSign c)).Follows
      (· ++ ['\r']) := follows_append rfl rfl
  have hname : (group Field.name
      (alt (lit "function".toList) (lit "extension".toList))).Follows (· ++ ['\r']) :=
    follows_append rfl rfl
  have hword : (lit "@requires".toList : Pattern Field).Follows (· ++ ['\r']) :=
    follows_append rfl rfl
  have hnumber : IgnoresReturn _ :=
    (hversion.seq_agrees ignoresReturn_lineTail).opt_seq ignoresReturn_lineTail
  have hcompared : IgnoresReturn _ := hcomparison.seq_agrees (hnumber.chars_seq isBlank)
  have hvalued : IgnoresReturn _ := hvalue.seq_agrees (hcompared.chars_seq isBlank)
  have hnamed : IgnoresReturn _ :=
    hname.seq_agrees (hvalued.chars1_seq isBlank (fails_nil_of_consumes rfl))
  exact (hword.seq_agrees (hnamed.chars1_seq isBlank (fails_nil_of_consumes rfl))).seq_assoc

theorem ignoresReturn_dataProvider : IgnoresReturn dataProviderPattern := by
  have hvalue : (group Field.value (chars1 isReferenceChar)).Follows (· ++ ['\r']) :=
    follows_append rfl rfl
  have hword : (lit "@dataProvider".toList : Pattern Field).Follows (· ++ ['\r']) :=
    follows_append rfl rfl
  have hblanks : (seq blanks1 (group Field.value (chars1 isReferenceChar))).Follows (· ++ ['\r']) :=
    hvalue.chars1_seq (fails_nil_of_consumes rfl)
  exact ignoresReturn_of_follows (hword.seq hblanks)

theorem ignoresReturn_expectedException : IgnoresReturn expectedExceptionPattern := by
  have hgaps : (chars1 isGap : Pattern Field).Follows (· ++ ['\r']) := follows_append rfl rfl
  have hword : (chars fun c => !isBlank c : Pattern Field).Follows (· ++ ['\r']) :=
    follows_append rfl rfl
  have hname : (group Field.name (chars1 isTypeChar)).Follows (· ++ ['\r']) :=
    follows_append rfl rfl
  have hmessage : (group Field.message (alt quotedPattern (chars fun c => !isBlank c))).Follows
      (· ++ ['\r']) :=
    ((quotedPattern_follows_append (by decide)).alt hword).group .message
      fun s t _ => text_append_append s t ['\r']
  have hcode : (opt (seq (chars1 isGap) (group Field.code (chars fun c => !isBlank c)))).Follows
      (· ++ ['\r']) := follows_append rfl rfl
  have hopening : (lit "@expectedException".toList : Pattern Field).Follows (· ++ ['\r']) :=
    follows_append rfl rfl
  have hend : IgnoresReturn (seq blanks lineEnd : Pattern Field) :=
    blanks_lineEnd_agrees (by decide)
  have hparts : IgnoresReturn exceptionParts :=
    hname.seq_agrees ((hgaps.seq hmessage).opt.seq_agrees (hcode.seq_agrees hend))
  exact hopening.seq_agrees (hparts.chars1_seq isBlank (fails_nil_of_consumes rfl))

/-- A requirement of which nothing but blanks stands behind the name. -/
def BreaksOff (names : List (List Char)) (s : List Char) : Prop :=
  ∃ gap name after, s = "@requires".toList ++ (gap ++ (name ++ after))
    ∧ gap ≠ [] ∧ (∀ c ∈ gap, isBlank c = true) ∧ name ∈ names
    ∧ after ≠ [] ∧ ∀ c ∈ after, isBlank c = true

/-- The text is a tag that breaks off: behind the name of an operating system or of a setting stand
blanks, behind the word that opens literal rows nothing at all. -/
def IsBare : Dialect → List Char → Prop
  | os, s => BreaksOff ["OS".toList, "OSFAMILY".toList] s
  | setting, s => BreaksOff ["setting".toList] s
  | testWith, s => s = "@testWith".toList
  | _, _ => False

/-- The line ends with a tag of the kind that breaks off, and no other of the kind comes before. -/
def EndsBare (d : Dialect) (line : List Char) : Prop :=
  ∃ front s, line = front ++ s ∧ d.IsBare s ∧ d.pattern.Misses front s

variable {line s t : List Char} {names : List (List Char)} {name rest : Pattern Field}

theorem preferred_eq_none_iff {κ : Type} {p : Pattern κ} : p.preferred s = none ↔ p.Fails s := by
  rw [preferred, Option.map_eq_none_iff, List.head?_eq_none_iff, Fails]

/-- A requirement that does not break off is read the same in front of a return. -/
theorem preferred_requirement_append_return
    (hname : ∀ s u, name.CanRead s u → ∃ w ∈ names, s = w ++ u)
    (hfollows : (group Field.name name).Follows (· ++ ['\r'])) (hnil : name.Fails [])
    (hend : rest.Fails [])
    (hrest : ∀ u, IsLine u → u ≠ [] → rest.preferred (u ++ ['\r']) = rest.preferred u)
    (hs : IsLine s) (hbare : ¬ BreaksOff names s) :
    (seq requires (seq (group .name name) (seq blanks1 rest))).preferred (s ++ ['\r'])
      = (seq requires (seq (group .name name) (seq blanks1 rest))).preferred s := by
  have hword : (lit "@requires".toList : Pattern Field).Follows (· ++ ['\r']) :=
    follows_append rfl rfl
  have hblanks : (seq (chars isBlank) (group Field.name name)).Fails [] := by
    rw [Fails, outcomes_chars_seq_nil]
    exact fails_group hnil
  have hopening : (opening name).Follows (· ++ ['\r']) := hword.seq (hfollows.chars1_seq hblanks)
  rw [preferred_opening, preferred_opening]
  refine (eq_of_rel (hopening.rel_seq fun r hr => ?_)).symm
  have hafter : IsLine r.1 := hs.of_suffix (suffix_of_mem_outcomes _ s r hr)
  by_cases hstop : ∃ c ∈ r.1, isBlank c = false
  · refine rel_chars1_seq hstop fun u hu hne => ?_
    refine rel_of_eq (fun _ => ?_) (hrest u (hafter.of_suffix hu) hne)
    rfl
  · have hempty : r.1 = [] := by
      by_contra hne
      obtain ⟨gap, w, hw, hsplit, hgapne, hgap⟩ := exists_eq_append_of_opening hname hr
      exact hbare ⟨gap, w, r.1, hsplit, hgapne, hgap, hw, hne, by simpa using hstop⟩
    have hnone : (seq blanks1 rest).preferred [] = none :=
      preferred_blanks1_seq_of_length_lt hend Nat.zero_lt_two
    have hnone' : (seq blanks1 rest).preferred ['\r'] = none :=
      preferred_blanks1_seq_of_length_lt hend Nat.one_lt_two
    rw [hempty, List.nil_append, hnone, hnone']
    exact .none

theorem preferred_os_append_return (hs : IsLine s) (hbare : ¬ os.IsBare s) :
    osPattern.preferred (s ++ ['\r']) = osPattern.preferred s := by
  refine preferred_requirement_append_return
    (fun s u h => mem_words_of_canRead (by decide) (by decide) h) (follows_append rfl rfl)
    (fails_nil_of_consumes rfl) (fails_nil_of_consumes rfl) (fun u hu hne => ?_) hs hbare
  exact preferred_group_plus_lazy_append ignoresReturn_lineTail rfl inLine Field.value hu hne

theorem preferred_setting_append_return (hs : IsLine s) (hbare : ¬ setting.IsBare s) :
    settingPattern.preferred (s ++ ['\r']) = settingPattern.preferred s := by
  have hvalue : (group Field.value
      (seq (chars1 isSettingChar) (opt (char fun c => isWord c || c == '.')))).Follows
        (· ++ ['\r']) := follows_append rfl rfl
  have hoptional : IgnoresReturn _ :=
    (hvalue.seq_agrees ignoresReturn_lineTail).opt_seq ignoresReturn_lineTail
  refine preferred_requirement_append_return
    (fun s u h => ⟨_, by decide, canRead_lit.mp h⟩) (follows_append rfl rfl)
    (fails_nil_of_consumes rfl) (fails_nil_of_consumes rfl) (fun u hu hne => ?_) hs hbare
  exact preferred_group_plus_lazy_append (hoptional.chars_seq isBlank) rfl (· != ' ')
    Field.setting hu hne

theorem preferred_testWith_append_return (hbare : ¬ testWith.IsBare s) :
    testWithPattern.preferred (s ++ ['\r']) = testWithPattern.preferred s := by
  have hword : (lit "@testWith".toList : Pattern Field).Follows (· ++ ['\r']) :=
    follows_append rfl rfl
  refine (eq_of_rel (hword.rel_seq fun r hr => ?_)).symm
  obtain rfl := canRead_lit.mp (⟨r.2, hr⟩ : (lit "@testWith".toList : Pattern Field).CanRead s r.1)
  cases hafter : r.1 with
  | nil => exact absurd (by rw [hafter, List.append_nil]; rfl) hbare
  | cons x u =>
      have hfails : (blanks1 : Pattern Field).Fails (x :: (u ++ ['\r']))
          ↔ (blanks1 : Pattern Field).Fails (x :: u) :=
        fails_chars1_cons.trans fails_chars1_cons.symm
      refine rel_of_eq (fun _ => ?_) (preferred_congr_of_names_eq_nil rfl hfails)
      rfl

/-- A text that is no bare tag is read the same in front of a return. -/
theorem preferred_append_return (d : Dialect) (hs : IsLine s) (hbare : ¬ d.IsBare s) :
    d.pattern.preferred (s ++ ['\r']) = d.pattern.preferred s := by
  cases d with
  | version => exact ignoresReturn_version s hs
  | versionConstraint => exact ignoresReturn_versionConstraint s hs
  | os => exact preferred_os_append_return hs hbare
  | setting => exact preferred_setting_append_return hs hbare
  | prerequisite => exact ignoresReturn_prerequisite s hs
  | dataProvider => exact ignoresReturn_dataProvider s hs
  | testWith => exact preferred_testWith_append_return hbare
  | expectedException => exact ignoresReturn_expectedException s hs
  | generic => exact genericPattern_agrees_return s hs

/-- A line that does not end with a bare tag has the same tag in front of a return. -/
theorem found_append_return_of_not_endsBare (d : Dialect) (hline : IsLine line)
    (hbare : ¬ d.EndsBare line) : d.pattern.found (line ++ ['\r']) = d.pattern.found line := by
  have hend : d.pattern.found ['\r'] = none := by
    rw [found, search?_eq_none_of_mark (fun _ => d.fails_of_stops) (by decide), Option.map_none]
  induction line with
  | nil =>
      have hnil : d.pattern.found [] = none := by
        rw [found, search?_eq_none_of_mark (fun _ => d.fails_of_stops) List.not_mem_nil,
          Option.map_none]
      rw [List.nil_append, hend, hnil]
  | cons x line ih =>
      have hfirst : d.pattern.preferred (x :: (line ++ ['\r'])) = d.pattern.preferred (x :: line) :=
        d.preferred_append_return hline fun h => hbare ⟨[], x :: line, rfl, h, misses_nil⟩
      rw [List.cons_append, found_cons, found_cons, hfirst]
      cases hread : d.pattern.preferred (x :: line) with
      | some read => rfl
      | none =>
          rw [Option.none_or, Option.none_or]
          refine ih (isLine_cons.mp hline).2 ?_
          rintro ⟨front, s, rfl, hs, hmisses⟩
          exact hbare ⟨x :: front, s, rfl, hs,
            misses_cons.mpr ⟨preferred_eq_none_iff.mp hread, hmisses⟩⟩

theorem not_mem_of_isBlank {gap : List Char} (hgap : ∀ c ∈ gap, isBlank c = true) : '@' ∉ gap :=
  fun hmem => absurd (hgap _ hmem) (by decide)

/-- A bare tag holds one at sign, its first character. -/
theorem exists_eq_cons_of_isBare {d : Dialect} (h : d.IsBare s) : ∃ t, s = '@' :: t ∧ '@' ∉ t := by
  have hrequirement : ∀ names : List (List Char), (∀ name ∈ names, '@' ∉ name) →
      BreaksOff names s → ∃ t, s = '@' :: t ∧ '@' ∉ t := by
    rintro names hnames ⟨gap, name, after, rfl, -, hgap, hname, -, hafter⟩
    refine ⟨"requires".toList ++ (gap ++ (name ++ after)), rfl, ?_⟩
    simp only [List.mem_append, not_or]
    exact ⟨by decide, not_mem_of_isBlank hgap, hnames name hname, not_mem_of_isBlank hafter⟩
  cases d with
  | os => exact hrequirement _ (by decide) h
  | setting => exact hrequirement _ (by decide) h
  | testWith => exact ⟨"testWith".toList, h, by decide⟩
  | version | versionConstraint | prerequisite | dataProvider | expectedException | generic =>
      exact h.elim

/-- Behind a text that the pattern misses in front of a bare tag it misses it in front of a return
as well. -/
theorem misses_append_return {d : Dialect} {front : List Char} (hline : IsLine (front ++ s))
    (hs : d.IsBare s) (hmisses : d.pattern.Misses front s) :
    d.pattern.Misses front (s ++ ['\r']) := by
  intro t hne ht
  have hfails : d.pattern.Fails (t ++ s) := hmisses t hne ht
  have hbare : ¬ d.IsBare (t ++ s) := by
    intro h
    obtain ⟨u, rfl, -⟩ := exists_eq_cons_of_isBare hs
    obtain ⟨v, hv, hmem⟩ := exists_eq_cons_of_isBare h
    cases t with
    | nil => exact hne rfl
    | cons x t =>
        rw [List.cons_append, List.cons.injEq] at hv
        exact hmem (hv.2 ▸ List.mem_append_right t List.mem_cons_self)
  obtain ⟨u, rfl⟩ := ht
  rw [List.append_assoc] at hline
  have hsame := d.preferred_append_return (hline.of_suffix (List.suffix_append u _)) hbare
  rw [preferred_of_fails hfails, List.append_assoc] at hsame
  exact preferred_eq_none_iff.mp hsame

theorem preferred_blanks1_seq_return {after : List Char} {read : List (Field × List Char)}
    (hne : after ≠ []) (hafter : ∀ c ∈ after, isBlank c = true) (hnil : rest.Fails [])
    (hread : rest.preferred ['\r'] = some read) :
    (seq blanks1 rest).preferred (after ++ ['\r']) = some read := by
  have hblanks : ∀ u : List Char, (∀ c ∈ u, isBlank c = true) →
      (seq (chars isBlank) rest).preferred (u ++ ['\r']) = some read := by
    intro u hu
    induction u with
    | nil =>
        rw [List.nil_append, preferred_chars_seq_cons, preferred_chars_seq_nil,
          preferred_of_fails hnil, ite_self, Option.none_or, hread]
    | cons x u ih =>
        rw [List.forall_mem_cons] at hu
        rw [List.cons_append, preferred_chars_seq_cons, if_pos hu.1, ih hu.2, Option.some_or]
  cases after with
  | nil => exact absurd rfl hne
  | cons x u =>
      rw [List.forall_mem_cons] at hafter
      rw [List.cons_append, blanks1, preferred_chars1_seq_cons, if_pos hafter.1,
        hblanks u hafter.2]

/-- A line has no return in the parts of its tags. -/
theorem getD_tag?_ne_return {d : Dialect} {t : Tag} (hs : IsLine s) (ht : d.tag? s = some t)
    {f : Field} (hf : f ∈ d.fields) : t.getD f ≠ String.ofList ['\r'] := by
  intro heq
  obtain ⟨m, hm, rfl⟩ := Option.map_eq_some_iff.mp ht
  obtain ⟨hstart, hreads⟩ := reads_of_search? hm
  have hstretch : m.groupD f <:+: m.span.start := m.infix_groupD hreads.yields f
  rw [Tag.getD_ofMatch hf, String.ofList_inj] at heq
  have hmem : '\r' ∈ m.groupD f := heq ▸ List.mem_singleton_self '\r'
  exact hs.not_mem.2 (hstart.mem (hstretch.mem hmem))

/-- Each of the names is read as a whole in front of a blank. -/
def ReadsNames (name : Pattern Field) (names : List (List Char)) : Prop :=
  ∀ w ∈ names, ∀ u, Stops (fun c => !isBlank c) u → name.Reads (w ++ u) u []

/-- The return behind a requirement that breaks off is read as what is required. -/
theorem preferred_requirement_return {read : List (Field × List Char)}
    (hname : ReadsNames name names) (hwords : ∀ w ∈ names, w ≠ [] ∧ ∀ c ∈ w, isBlank c = false)
    (hnil : rest.Fails []) (hread : rest.preferred ['\r'] = some read)
    (hbare : BreaksOff names s) :
    ∃ w, (seq requires (seq (group .name name) (seq blanks1 rest))).preferred (s ++ ['\r'])
      = some (read ++ [(.name, w)]) := by
  obtain ⟨gap, w, after, rfl, hgapne, hgap, hw, hafterne, hafter⟩ := hbare
  have hstop : Stops (fun c => !isBlank c) (after ++ ['\r']) :=
    stops_append_of_ne_nil hafterne (fun c hc => by simp [hafter c hc]) _
  have hstart : Stops isBlank (w ++ (after ++ ['\r'])) :=
    stops_append_of_ne_nil (hwords w hw).1 (hwords w hw).2 _
  have hnamed := (hname w hw _ hstop).group Field.name
  have hgapped := (reads_chars1 hgapne hgap hstart).seq hnamed
  have hopening := (reads_lit "@requires".toList _).seq hgapped
  refine ⟨w, ?_⟩
  rw [preferred_opening, List.append_assoc, List.append_assoc, List.append_assoc]
  have hrest := preferred_blanks1_seq_return hafterne hafter hnil hread
  have hall := preferred_seq_of_reads hopening hrest
  have htexts : texts [(Field.name, Span.mk (w ++ (after ++ ['\r'])) (after ++ ['\r']))]
      = [(.name, w)] := by
    rw [texts, List.map_singleton, Span.text_append]
  exact hall.trans (congrArg (fun u => some (read ++ u)) htexts)

theorem exists_tag?_requirement_append_return {d : Dialect} {f : Field}
    (hd : d.pattern = seq requires (seq (group .name name) (seq blanks1 rest)))
    (hname : ReadsNames name names) (hwords : ∀ w ∈ names, w ≠ [] ∧ ∀ c ∈ w, isBlank c = false)
    (hnil : rest.Fails []) (hread : rest.preferred ['\r'] = some [(f, ['\r'])])
    (hf : f ∈ d.fields) (hs : IsLine s) (hbare : BreaksOff names s) :
    ∃ t, d.tag? (s ++ ['\r']) = some t ∧ d.tag? s ≠ some t := by
  obtain ⟨w, hpreferred⟩ := preferred_requirement_return hname hwords hnil hread hbare
  rw [← hd] at hpreferred
  refine ⟨tagOf d ([(f, ['\r'])] ++ [(.name, w)]), ?_, fun hsame => ?_⟩
  · rw [tag?_eq_map_found, found_of_preferred hpreferred, Option.map_some]
  · apply getD_tag?_ne_return hs hsame hf
    rw [getD_tagOf hf, partOf, List.singleton_append, List.find?_cons_of_pos (by simp)]
    rfl

theorem readsNames_os : ReadsNames (seq (lit "OS".toList) (opt (lit "FAMILY".toList)))
    ["OS".toList, "OSFAMILY".toList] := by
  simp only [ReadsNames, List.forall_mem_cons]
  refine ⟨fun u hu => ?_, fun u _ => ?_, List.forall_mem_nil _⟩
  · have hfails : (lit "FAMILY".toList : Pattern Field).Fails u :=
      fails_seq_left (fails_char (hu.mono fun c hc => by simp [beq_iff_eq.mp hc]; decide))
    exact (reads_lit "OS".toList u).seq (reads_opt_of_fails hfails)
  · exact (reads_lit "OS".toList ("FAMILY".toList ++ u)).seq (reads_lit "FAMILY".toList u).opt

/-- Behind a bare tag the return makes another tag. -/
theorem exists_tag?_append_return_of_isBare {d : Dialect} (hs : IsLine s) (hbare : d.IsBare s) :
    ∃ t, d.tag? (s ++ ['\r']) = some t ∧ d.tag? s ≠ some t := by
  cases d with
  | os =>
      exact exists_tag?_requirement_append_return rfl readsNames_os (by decide)
        (fails_nil_of_consumes rfl) (f := .value) rfl (by decide) hs hbare
  | setting =>
      have hname : ReadsNames (lit "setting".toList) ["setting".toList] := by
        simp only [ReadsNames, List.forall_mem_singleton]
        exact fun u _ => reads_lit _ u
      exact exists_tag?_requirement_append_return rfl hname (by decide)
        (fails_nil_of_consumes rfl) (f := .setting) rfl (by decide) hs hbare
  | testWith =>
      obtain rfl : s = "@testWith".toList := hbare
      exact ⟨⟨testWith, []⟩, by decide, by decide⟩
  | version | versionConstraint | prerequisite | dataProvider | expectedException | generic =>
      exact hbare.elim

theorem exists_tag?_append_return {d : Dialect} (hline : IsLine line) (hbare : d.EndsBare line) :
    ∃ t, d.tag? (line ++ ['\r']) = some t ∧ d.tag? line ≠ some t := by
  obtain ⟨front, s, rfl, hs, hmisses⟩ := hbare
  have hmisses' := misses_append_return hline hs hmisses
  rw [List.append_assoc, tag?, tag?, search?_append_of_misses hmisses,
    search?_append_of_misses hmisses']
  exact exists_tag?_append_return_of_isBare (hline.of_suffix (List.suffix_append front s)) hs

/-- The return is noticed by the dialects whose first tag on the line breaks off at its end. -/
theorem tag?_append_return_eq_iff (d : Dialect) (hline : IsLine line) :
    d.tag? (line ++ ['\r']) = d.tag? line ↔ ¬ d.EndsBare line := by
  constructor
  · intro hsame hbare
    obtain ⟨t, ht, hne⟩ := exists_tag?_append_return hline hbare
    exact hne (hsame.symm.trans ht)
  · intro hbare
    rw [tag?_eq_map_found, tag?_eq_map_found, d.found_append_return_of_not_endsBare hline hbare]

/-- A line that ends with a bare tag ends with a blank or with the word that opens literal rows. -/
theorem isBlank_or_eq_of_endsBare {d : Dialect} {c : Char} (h : d.EndsBare (line ++ [c])) :
    isBlank c = true ∨ c = 'h' := by
  obtain ⟨front, s, hsplit, hs, -⟩ := h
  obtain ⟨t, ht, -⟩ := exists_eq_cons_of_isBare hs
  have hne : s ≠ [] := ht ▸ List.cons_ne_nil _ t
  have hlast : s.getLast? = some c := by
    rw [← List.getLast?_append_of_ne_nil front hne, ← hsplit, List.getLast?_concat]
  have hrequirement : ∀ names, BreaksOff names s → isBlank c = true := by
    rintro names ⟨gap, name, after, rfl, -, -, -, hafterne, hafter⟩
    simp only [← List.append_assoc] at hlast
    rw [List.getLast?_append_of_ne_nil _ hafterne] at hlast
    exact hafter c (List.mem_of_getLast? hlast)
  cases d with
  | os => exact .inl (hrequirement _ hs)
  | setting => exact .inl (hrequirement _ hs)
  | testWith =>
      obtain rfl : s = "@testWith".toList := hs
      exact .inr (Option.some.inj hlast).symm
  | version | versionConstraint | prerequisite | dataProvider | expectedException | generic =>
      exact hs.elim

theorem dialect_of_tag?_eq_some {d : Dialect} {t : Tag} (h : d.tag? line = some t) :
    t.dialect = d := by
  obtain ⟨m, -, rfl⟩ := Option.map_eq_some_iff.mp h
  rfl

theorem mem_all (d : Dialect) : d ∈ all := by
  cases d <;> decide

/-- A dialect that stands before another is tried first. -/
def Precedes (d d' : Dialect) : Prop :=
  [d, d'].Sublist all

end Dialect

/-- Two searches that each find something of their own at a key find the same if every key at which
they differ stands behind one with something to find. -/
theorem findSome?_eq_findSome?_iff {α β : Type} {key : β → α} {f g : α → Option β} {l : List α}
    (hf : ∀ a b, f a = some b → key b = a) (hg : ∀ a b, g a = some b → key b = a)
    (hsome : ∀ a, f a ≠ g a → (f a).isSome = true) (hl : l.Nodup) :
    l.findSome? f = l.findSome? g
      ↔ ∀ a ∈ l, f a ≠ g a → ∃ a', [a', a].Sublist l ∧ (g a').isSome = true := by
  induction l with
  | nil => exact iff_of_true rfl (List.forall_mem_nil _)
  | cons x l ih =>
      obtain ⟨hx, hl⟩ := List.nodup_cons.mp hl
      by_cases hsame : f x = g x
      · rw [List.forall_mem_cons, and_iff_right fun hne => absurd hsame hne, List.findSome?_cons,
          List.findSome?_cons, hsame]
        cases hgx : g x with
        | some b =>
            have hfirst : (g x).isSome = true := by rw [hgx, Option.isSome_some]
            exact iff_of_true rfl fun a ha _ =>
              ⟨x, (List.singleton_sublist.mpr ha).cons_cons x, hfirst⟩
        | none =>
            refine (ih hl).trans (forall₂_congr fun a _ => imp_congr_right fun _ =>
              exists_congr fun a' => and_congr_left fun ha' => ?_)
            have hne : a' ≠ x := by
              rintro rfl
              rw [hgx] at ha'
              exact Bool.false_ne_true ha'
            rw [List.sublist_cons_iff, or_iff_left]
            rintro ⟨r, hr, -⟩
            exact hne (List.cons.inj hr).1
      · refine iff_of_false (fun hfound => ?_) fun h => ?_
        · obtain ⟨b, hb⟩ := Option.isSome_iff_exists.mp (hsome x hsame)
          rw [List.findSome?_cons, hb] at hfound
          obtain ⟨a, -, ha⟩ := List.exists_of_findSome?_eq_some hfound.symm
          obtain rfl : x = a := (hf x b hb).symm.trans (hg a b ha)
          exact hsame (hb.trans ha.symm)
        · obtain ⟨a', hbefore, -⟩ := h x List.mem_cons_self hsame
          rcases List.sublist_cons_iff.mp hbefore with hbefore | ⟨r, hr, hbefore⟩
          · exact hx (hbefore.mem (List.mem_cons_of_mem a' List.mem_cons_self))
          · rw [List.cons.injEq] at hr
            exact hx (hbefore.mem (hr.2 ▸ List.mem_cons_self))

namespace Tag

open Dialect

variable {line : List Char}

theorem mem_scanAll {t : Tag} : t ∈ scanAll line ↔ t.dialect.tag? line = some t := by
  rw [scanAll, List.mem_filterMap]
  constructor
  · rintro ⟨d, -, h⟩
    rwa [dialect_of_tag?_eq_some h]
  · intro h
    exact ⟨t.dialect, t.dialect.mem_all, h⟩

theorem tag?_eq_some_iff {d : Dialect} {t : Tag} :
    d.tag? line = some t ↔ t ∈ scanAll line ∧ t.dialect = d := by
  rw [mem_scanAll]
  constructor
  · intro h
    obtain rfl := dialect_of_tag?_eq_some h
    exact ⟨h, rfl⟩
  · rintro ⟨h, rfl⟩
    exact h

/-- All tags of two lines are the same if those of each dialect are. -/
theorem scanAll_eq_iff {line' : List Char} :
    scanAll line' = scanAll line ↔ ∀ d, Dialect.tag? d line' = d.tag? line := by
  constructor
  · intro h d
    apply Option.ext
    intro t
    rw [tag?_eq_some_iff, tag?_eq_some_iff, h]
  · intro h
    exact List.filterMap_congr fun d _ => h d

/-- A return behind a line changes its tag of a dialect if and only if the line ends with the first
tag of the dialect and this breaks off. All tags of the line stay the same if there is no such
dialect, and the most specific tag if each of these dialects stands behind one that has a tag on the
line. -/
theorem scan_append_return (hline : IsLine line) :
    (∀ d, Dialect.tag? d (line ++ ['\r']) = d.tag? line ↔ ¬ d.EndsBare line)
    ∧ (scanAll (line ++ ['\r']) = scanAll line ↔ ∀ d, ¬ EndsBare d line)
    ∧ (scan? (line ++ ['\r']) = scan? line
      ↔ ∀ d, EndsBare d line → ∃ d', Precedes d' d ∧ (Dialect.tag? d' line).isSome = true) := by
  have hsame : ∀ d, Dialect.tag? d (line ++ ['\r']) = d.tag? line ↔ ¬ d.EndsBare line :=
    fun d => d.tag?_append_return_eq_iff hline
  refine ⟨hsame, ?_, ?_⟩
  · rw [scanAll_eq_iff]
    exact forall_congr' hsame
  · have hkey : ∀ (s : List Char) (d : Dialect) (t : Tag), d.tag? s = some t → t.dialect = d :=
      fun _ _ _ => dialect_of_tag?_eq_some
    have hsome : ∀ d, Dialect.tag? d (line ++ ['\r']) ≠ d.tag? line →
        (Dialect.tag? d (line ++ ['\r'])).isSome = true := by
      intro d hne
      rw [ne_eq, hsame, not_not] at hne
      obtain ⟨t, ht, -⟩ := exists_tag?_append_return hline hne
      rw [ht, Option.isSome_some]
    rw [scan?, scan?, findSome?_eq_findSome?_iff (hkey _) (hkey line) hsome (by decide)]
    refine forall_congr' fun d => ?_
    rw [forall_prop_of_true d.mem_all, ne_eq, hsame, not_not]
    rfl

/-- A line on which an operating system is required. -/
def finishedLine : List Char :=
  " * @requires OS Linu".toList ++ ['x']

/-- A line on which the operating system that is required is missing. -/
def bareLine : List Char :=
  " * @requires OS".toList ++ [' ']

theorem scan_append_return_finished :
    IsLine finishedLine ∧ scanAll (finishedLine ++ ['\r']) = scanAll finishedLine
    ∧ IsLine bareLine
    ∧ Dialect.tag? .os (bareLine ++ ['\r']) ≠ Dialect.tag? .os bareLine := by
  have hfinished : IsLine finishedLine := by unfold IsLine; decide
  have hbare : IsLine bareLine := by unfold IsLine; decide
  refine ⟨hfinished, ?_, hbare, ?_⟩
  · apply (scan_append_return hfinished).2.1.mpr
    intro d h
    exact absurd (isBlank_or_eq_of_endsBare h) (by decide)
  · rw [ne_eq, (scan_append_return hbare).1, not_not]
    refine ⟨" * ".toList, "@requires OS ".toList, rfl, ?_, misses_of_not_mem .os (by decide) _⟩
    exact ⟨[' '], "OS".toList, [' '], rfl, by decide, by decide, by decide, by decide, by decide⟩

/-- Where nothing but a space stands behind the name of an operating system, the return is read as
the system that is required. -/
theorem not_forall_scan_append_return :
    ¬ ∀ line, IsLine line → scanAll (line ++ ['\r']) = scanAll line
      ∧ scan? (line ++ ['\r']) = scan? line := by
  intro h
  have hline : IsLine "@requires OS ".toList := by unfold IsLine; decide
  have hsame := (h "@requires OS ".toList hline).2
  have hreturn : scan? ("@requires OS ".toList ++ ['\r'])
      = some ⟨.os, [(.name, some "OS"), (.value, some "\r")]⟩ := by decide +kernel
  have hplain : scan? "@requires OS ".toList
      = some ⟨.generic, [(.name, some "requires"), (.value, some "OS")]⟩ := by decide +kernel
  rw [hreturn, hplain] at hsame
  cases hsame

end Tag

end DocTags
