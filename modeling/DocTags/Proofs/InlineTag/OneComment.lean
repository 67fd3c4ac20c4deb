import DocTags.Proofs.InlineTag.LineRange
import DocTags.Proofs.InlineTag.LineSources
import Mathlib.Data.List.DropRight
import Mathlib.Data.List.Infix

/-!
# The comment that an annotation is read from

An annotation is read from the first place on its line where a comment opens with a tag and from
which the line goes on to a closing mark at its end. What stands between the name of the tag and
this mark is its value, also if the comment is closed before: then the value runs over the closing
mark, and over whatever stands behind it, to the last comment of the line.
-/

namespace DocTags

open Pattern Text Dialect

namespace InlineTag

/-- The mark that closes a comment. -/
def closing : List Char :=
  "*/".toList

/-- How often a closing mark stands in a text. -/
def countClosings (s : List Char) : Nat :=
  s.tails.countP closing.isPrefixOf

variable {s t u a e : List Char} {x : Char}

theorem isPrefixOf_closing (x y : Char) (s : List Char) :
    closing.isPrefixOf (x :: y :: s) = ('*' == x && '/' == y) := by
  simp [closing, List.isPrefixOf]

theorem countClosings_cons (x : Char) (s : List Char) :
    countClosings (x :: s)
      = countClosings s + if closing.isPrefixOf (x :: s) then 1 else 0 := by
  rw [countClosings, List.tails_cons, List.countP_cons, countClosings]

theorem countClosings_cons_of_ne (hx : x ≠ '*') (s : List Char) :
    countClosings (x :: s) = countClosings s := by
  have hfront : closing.isPrefixOf (x :: s) = false := by
    simp [closing, List.isPrefixOf, Ne.symm hx]
  rw [countClosings_cons, hfront, if_neg Bool.false_ne_true, Nat.add_zero]

theorem countClosings_append_of_not_mem (ha : '*' ∉ a) (s : List Char) :
    countClosings (a ++ s) = countClosings s := by
  induction a with
  | nil => rfl
  | cons x a ih =>
      rw [List.mem_cons, not_or] at ha
      rw [List.cons_append, countClosings_cons_of_ne (Ne.symm ha.1), ih ha.2]

/-- Behind a text that does not go on with a slash, a closing mark in front stays one. -/
theorem countClosings_append (s : List Char) (ht : Stops (· == '/') t) :
    countClosings (s ++ t) = countClosings s + countClosings t := by
  induction s with
  | nil => rw [List.nil_append, Nat.add_comm]; rfl
  | cons x s ih =>
      have hfront : closing.isPrefixOf (x :: (s ++ t)) = closing.isPrefixOf (x :: s) := by
        cases s with
        | cons y s => rw [List.cons_append, isPrefixOf_closing, isPrefixOf_closing]
        | nil =>
            cases t with
            | nil => rfl
            | cons y t =>
                have hy : y ≠ '/' := by simpa using ht
                simp [closing, List.isPrefixOf, Ne.symm hy]
      rw [List.cons_append, countClosings_cons, countClosings_cons, hfront, ih]
      omega

theorem countClosings_of_not_mem (hs : '*' ∉ s) : countClosings s = 0 := by
  have h := countClosings_append_of_not_mem hs []
  rwa [List.append_nil] at h

theorem countClosings_append_closing (s : List Char) :
    countClosings (s ++ closing) = countClosings s + 1 :=
  countClosings_append s ((stops_cons ..).mpr rfl)

/-- A closing mark stands in a text exactly if it is counted there. -/
theorem countClosings_eq_zero_iff : countClosings s = 0 ↔ ¬ closing <:+: s := by
  rw [countClosings, List.countP_eq_zero, List.infix_iff_prefix_suffix]
  simp only [List.mem_tails, List.isPrefixOf_iff_prefix, not_exists, not_and]
  exact ⟨fun h t hprefix hsuffix => h t hsuffix hprefix, fun h t hsuffix hprefix =>
    h t hprefix hsuffix⟩

/-- Nothing or a return. -/
def returns : List (List Char) :=
  [[], ['\r']]

/-- Gaps and perhaps a return: what can stand in front of a closing mark without being read. -/
def IsTrail (s : List Char) : Prop :=
  ∃ gaps, ∃ r ∈ returns, s = gaps ++ r ∧ ∀ c ∈ gaps, isGap c = true

/-- The line ends here, perhaps behind a return. -/
def EndsLine (s : List Char) : Prop :=
  ∃ r ∈ returns, ∃ after, s = r ++ after ∧ Stops inLine after

theorem canRead_return {κ : Type} :
    (opt (char (· == '\r')) : Pattern κ).CanRead s t ↔ ∃ r ∈ returns, s = r ++ t := by
  simp only [canRead_opt, canRead_char, returns, List.mem_cons, List.not_mem_nil, or_false,
    exists_eq_or_imp, exists_eq_left, beq_iff_eq, List.nil_append, List.singleton_append]
  rw [or_comm, eq_comm]

theorem canRead_lineEnd_iff {κ : Type} :
    (lineEnd : Pattern κ).CanRead s t ↔ t = s ∧ Stops inLine s := by
  rw [canRead_lineEnd]
  refine and_congr_right fun _ => ?_
  cases s with
  | nil => simp
  | cons c s => simp [inLine]

/-- What the end of a comment reads. -/
theorem exists_canRead_commentEnd :
    (∃ u, commentEnd.CanRead s u) ↔ ∃ t e, s = t ++ (closing ++ e) ∧ IsTrail t ∧ EndsLine e := by
  constructor
  · rintro ⟨u, h⟩
    obtain ⟨m, hgaps, h⟩ := canRead_seq.mp h
    obtain ⟨m', hinner, h⟩ := canRead_seq.mp h
    obtain ⟨e, hmark, h⟩ := canRead_seq.mp h
    obtain ⟨after, houter, hend⟩ := canRead_seq.mp h
    obtain ⟨gaps, rfl, hall⟩ := canRead_chars.mp hgaps
    obtain ⟨r, hr, rfl⟩ := canRead_return.mp hinner
    obtain rfl := canRead_lit.mp hmark
    obtain ⟨r', hr', rfl⟩ := canRead_return.mp houter
    obtain ⟨rfl, hstops⟩ := canRead_lineEnd_iff.mp hend
    exact ⟨gaps ++ r, _, (List.append_assoc ..).symm, ⟨gaps, r, hr, rfl, hall⟩,
      r', hr', _, rfl, hstops⟩
  · rintro ⟨_, _, rfl, ⟨gaps, r, hr, rfl, hgaps⟩, r', hr', after, rfl, hstops⟩
    refine ⟨after, canRead_seq.mpr ⟨r ++ (closing ++ (r' ++ after)), ?_, ?_⟩⟩
    · exact canRead_chars.mpr ⟨gaps, List.append_assoc .., hgaps⟩
    · refine canRead_seq.mpr ⟨_, canRead_return.mpr ⟨r, hr, rfl⟩, ?_⟩
      refine canRead_seq.mpr ⟨_, canRead_lit.mpr rfl, ?_⟩
      refine canRead_seq.mpr ⟨_, canRead_return.mpr ⟨r', hr', rfl⟩, ?_⟩
      exact canRead_lineEnd_iff.mpr ⟨rfl, hstops⟩

/-- Up to its end a line can be cut at a closing mark at its end in one way only. -/
theorem eq_of_append_closing {t' e' : List Char} (ht : '\n' ∉ t) (ht' : '\n' ∉ t')
    (he : EndsLine e) (he' : EndsLine e') (h : t ++ (closing ++ e) = t' ++ (closing ++ e')) :
    t = t' := by
  obtain ⟨r, hr, after, rfl, hafter⟩ := he
  obtain ⟨r', hr', after', rfl, hafter'⟩ := he'
  have hline : ∀ {t r}, '\n' ∉ t → r ∈ returns → ∀ c ∈ t ++ (closing ++ r), inLine c = true := by
    intro t r ht hr c hc
    have hends : ∀ r ∈ returns, '\n' ∉ closing ++ r := by decide
    rcases List.mem_append.mp hc with hc | hc
    · exact bne_iff_ne.mpr fun hfeed => ht (hfeed ▸ hc)
    · exact bne_iff_ne.mpr fun hfeed => hends r hr (hfeed ▸ hc)
  have hcut : t ++ (closing ++ r) ++ after = t' ++ (closing ++ r') ++ after' := by
    simpa only [List.append_assoc] using h
  obtain ⟨hfront, -⟩ := append_inj_of_stops hafter hafter' (hline ht hr) (hline ht' hr') hcut
  have hlast := congrArg List.getLast? hfront
  simp only [returns, List.mem_cons, List.not_mem_nil, or_false] at hr hr'
  rcases hr with rfl | rfl <;> rcases hr' with rfl | rfl
  · exact List.append_cancel_right hfront
  · simp [closing] at hlast
  · simp [closing] at hlast
  · exact List.append_cancel_right hfront

theorem IsTrail.not_mem (h : IsTrail t) : '\n' ∉ t := by
  obtain ⟨gaps, r, hr, rfl, hgaps⟩ := h
  have hends : ∀ r ∈ returns, '\n' ∉ r := by decide
  rw [List.mem_append, not_or]
  refine ⟨fun hmem => ?_, hends r hr⟩
  exact absurd (hgaps _ hmem) (by decide)

/-- In front of the closing mark at the end of a line only gaps and a return are not read. -/
theorem fails_commentEnd (ht : '\n' ∉ t) (he : EndsLine e) (h : ¬ IsTrail t) :
    commentEnd.Fails (t ++ (closing ++ e)) := by
  refine fails_iff.mpr fun u hu => h ?_
  obtain ⟨t', e', heq, htrail, he'⟩ := exists_canRead_commentEnd.mp ⟨u, hu⟩
  exact eq_of_append_closing ht htrail.not_mem he he' heq ▸ htrail

theorem preferred_commentEnd (he : EndsLine e) (h : IsTrail t) :
    commentEnd.preferred (t ++ (closing ++ e)) = some [] := by
  obtain ⟨u, hu⟩ := exists_canRead_commentEnd.mpr ⟨t, e, rfl, h, he⟩
  obtain ⟨v, c, hreads⟩ := hu.exists_reads
  rw [preferred_of_reads hreads, hreads.yields.eq_nil rfl, texts_nil]

/-- A text without the return at its end, if there is one. -/
def withoutReturn (s : List Char) : List Char :=
  if s.getLast? = some '\r' then s.dropLast else s

/-- What is read of the text between a name and the closing mark: everything but the gaps around it
and a return in front of the mark. -/
def valueOf (rest : List Char) : List Char :=
  (withoutReturn (rest.dropWhile isGap)).rdropWhile isGap

theorem exists_eq_withoutReturn (s : List Char) : ∃ r ∈ returns, s = withoutReturn s ++ r
    ∧ (r = [] → s.getLast? ≠ some '\r') := by
  by_cases h : s.getLast? = some '\r'
  · refine ⟨['\r'], by decide, ?_, fun hnil => absurd hnil (List.cons_ne_nil _ _)⟩
    rw [withoutReturn, if_pos h, List.dropLast_append_getLast? _ h]
  · refine ⟨[], by decide, ?_, fun _ => h⟩
    rw [withoutReturn, if_neg h, List.append_nil]

/-- The value is followed by what is not read, and it could not end before. -/
theorem exists_trail (rest : List Char) : ∃ trail, IsTrail trail
    ∧ rest.dropWhile isGap = valueOf rest ++ trail
    ∧ ∀ v, v ≠ [] → v <:+ valueOf rest → ¬ IsTrail (v ++ trail) := by
  generalize hs : rest.dropWhile isGap = s
  obtain ⟨r, hr, hsr, hlast⟩ := exists_eq_withoutReturn s
  have hgaps : ∀ c ∈ (withoutReturn s).rtakeWhile isGap, isGap c = true :=
    fun c => List.mem_rtakeWhile_imp
  have hvalue : valueOf rest = (withoutReturn s).rdropWhile isGap := by rw [valueOf, hs]
  have hcut : s = valueOf rest ++ ((withoutReturn s).rtakeWhile isGap ++ r) := by
    rw [hvalue, ← List.append_assoc, List.rdropWhile_append_rtakeWhile, ← hsr]
  refine ⟨(withoutReturn s).rtakeWhile isGap ++ r, ⟨_, r, hr, rfl, hgaps⟩, hcut, ?_⟩
  rintro v hne hv ⟨gaps', r', hr', heq, hothers⟩
  -- The last character of the value is no gap, and so it cannot belong to the gaps.
  have hsolid : isGap (v.getLast hne) = false := by
    obtain ⟨front, hfront⟩ := hv
    have hne' : (withoutReturn s).rdropWhile isGap ≠ [] := by
      rw [← hvalue, ← hfront]
      exact List.append_ne_nil_of_right_ne_nil front hne
    have hnot := List.rdropWhile_last_not isGap _ hne'
    simp only [← hvalue, ← hfront, List.getLast_append_of_ne_nil _ hne] at hnot
    exact Bool.eq_false_iff.mpr hnot
  have hsame : r = r' := by
    have hends := congrArg List.getLast? heq
    simp only [returns, List.mem_cons, List.not_mem_nil, or_false] at hr hr'
    rcases hr with rfl | rfl <;> rcases hr' with rfl | rfl
    · rfl
    · refine absurd ?_ (hlast rfl)
      rw [List.append_nil, List.getLast?_concat] at hends
      obtain ⟨front, hfront⟩ := hv
      rw [hcut, ← hfront, List.append_nil, List.append_assoc,
        List.getLast?_append_of_ne_nil _ (List.append_ne_nil_of_left_ne_nil hne _)]
      exact hends
    · rw [← List.append_assoc, List.getLast?_concat, List.append_nil] at hends
      exact absurd (hothers '\r' (List.mem_of_getLast? hends.symm)) (by decide)
    · rfl
  subst hsame
  have hfront : v ++ (withoutReturn s).rtakeWhile isGap = gaps' := by
    rw [← List.append_assoc] at heq
    exact List.append_cancel_right heq
  have hgap := hothers (v.getLast hne) (hfront ▸ List.mem_append_left _ (List.getLast_mem hne))
  exact Bool.false_ne_true (hsolid.symm.trans hgap)

/-- The text opens a comment, with blanks behind the mark. -/
def IsOpening (s : List Char) : Prop :=
  ∃ star ∈ [[], ['*']], ∃ gap, s = "/*".toList ++ (star ++ gap) ∧ ∀ c ∈ gap, isBlank c = true

/-- The text sets itself off from a name in front of it, or is not read at all. -/
def StartsApart (s : List Char) : Prop :=
  IsTrail s ∨ ∃ gap t, s = gap :: t ∧ isGap gap = true

/-- A stretch of text that opens a comment with a tag and goes on to a closing mark at the end of
the line. -/
structure TagComment where
  opening : List Char
  name : List Char
  /-- What stands between the name and the closing mark at the end of the line. -/
  rest : List Char
  /-- What stands behind this mark. -/
  ending : List Char
  isOpening : IsOpening opening
  name_ne_nil : name ≠ []
  isTagChar : ∀ c ∈ name, isTagChar c = true
  startsApart : StartsApart rest
  not_mem_feed : '\n' ∉ rest
  endsLine : EndsLine ending

namespace TagComment

/-- The comment, and what stands behind it. -/
def text (c : TagComment) : List Char :=
  c.opening ++ '@' :: (c.name ++ (c.rest ++ (closing ++ c.ending)))

/-- The line from the at sign to the closing mark at its end. -/
def line (c : TagComment) : List Char :=
  '@' :: (c.name ++ (c.rest ++ closing))

/-- The value that is read. -/
def value (c : TagComment) : List Char :=
  valueOf c.rest

/-- What the pattern reads is such a stretch. -/
theorem exists_eq_text (h : inlinePattern.CanRead s u) : ∃ c : TagComment, s = c.text := by
  obtain ⟨m, hslash, h⟩ := canRead_seq.mp h
  obtain ⟨m', hsecond, h⟩ := canRead_seq.mp h
  obtain ⟨tag, hblanks, h⟩ := canRead_seq.mp h
  obtain ⟨behind, htag, hend⟩ := canRead_seq.mp h
  obtain ⟨m'', hsign, htag⟩ := canRead_seq.mp htag
  obtain ⟨apart, hname, hpart⟩ := canRead_seq.mp htag
  obtain rfl := canRead_lit.mp hslash
  obtain ⟨star, hstar, rfl⟩ : ∃ star ∈ [[], ['*']], m = star ++ m' := by
    rcases canRead_opt.mp hsecond with hsecond | rfl
    · obtain ⟨c, hc, rfl⟩ := canRead_char.mp hsecond
      exact ⟨['*'], by decide, by rw [beq_iff_eq.mp hc]; rfl⟩
    · exact ⟨[], by decide, rfl⟩
  obtain ⟨gap, rfl, hgap⟩ := canRead_chars.mp hblanks
  obtain ⟨sign, hat, rfl⟩ := canRead_char.mp hsign
  obtain rfl : sign = '@' := beq_iff_eq.mp hat
  obtain ⟨name, hne, rfl, hletters⟩ := canRead_chars1.mp (canRead_group.mp hname)
  obtain ⟨t, e, rfl, htrail, he⟩ := exists_canRead_commentEnd.mp ⟨u, hend⟩
  have hopening : IsOpening ("/*".toList ++ (star ++ gap)) := ⟨star, hstar, gap, rfl, hgap⟩
  rcases canRead_opt.mp hpart with hpart | rfl
  · obtain ⟨inner, hapart, hvalue⟩ := canRead_seq.mp hpart
    obtain ⟨lead, hlead, rfl, hgaps⟩ := canRead_chars1.mp hapart
    obtain ⟨v, rfl, hv⟩ := canRead_star_char.mp (canRead_group.mp hvalue)
    obtain ⟨g, lead, rfl⟩ := List.exists_cons_of_ne_nil hlead
    refine ⟨⟨"/*".toList ++ (star ++ gap), name, g :: lead ++ (v ++ t), e, hopening, hne, hletters,
      .inr ⟨g, lead ++ (v ++ t), rfl, hgaps g List.mem_cons_self⟩, ?_, he⟩, ?_⟩
    · rw [List.mem_append, List.mem_append, not_or, not_or]
      refine ⟨fun hmem => ?_, fun hmem => ?_, htrail.not_mem⟩
      · exact absurd (hgaps _ hmem) (by decide)
      · exact absurd (hv _ hmem) (by decide)
    · simp only [text, List.append_assoc]
  · refine ⟨⟨"/*".toList ++ (star ++ gap), name, t, e, hopening, hne, hletters, .inl htrail,
      htrail.not_mem, he⟩, ?_⟩
    simp only [text, List.append_assoc]

variable (c : TagComment)

/-- In front of the closing mark stands nothing, or a gap, or a return alone. -/
theorem startsApart_cons (h : StartsApart (x :: s)) : isGap x = true ∨ x = '\r' ∧ s = [] := by
  rcases h with ⟨gaps, r, hr, heq, hgaps⟩ | ⟨gap, t, heq, hgap⟩
  · cases gaps with
    | nil =>
        simp only [returns, List.mem_cons, List.not_mem_nil, or_false] at hr
        rcases hr with rfl | rfl
        · cases heq
        · exact .inr (List.cons.inj heq)
    | cons g gaps => exact .inl ((List.cons.inj heq).1 ▸ hgaps g List.mem_cons_self)
  · exact .inl ((List.cons.inj heq).1 ▸ hgap)

theorem stops_rest (h : StartsApart s) : Stops Dialect.isTagChar (s ++ (closing ++ t)) := by
  cases s with
  | nil => exact (stops_cons ..).mpr (by decide)
  | cons x s =>
      refine (stops_cons ..).mpr ?_
      rcases startsApart_cons h with hgap | ⟨rfl, -⟩
      · rcases eq_of_isGap hgap with rfl | rfl <;> decide
      · decide

/-- The value behind a gap is read as far as the gaps in front of the closing mark. -/
theorem preferred_value (hfeed : '\n' ∉ s) (he : EndsLine e) (hx : isGap x = true) :
    (seq (chars1 isGap) (seq (group Field.value (star .lazy (char inLine))) commentEnd)).preferred
      (x :: s ++ (closing ++ e)) = some [(.value, valueOf (x :: s))] := by
  obtain ⟨trail, htrail, hcut, hleast⟩ := exists_trail (x :: s)
  have hline : ∀ c ∈ valueOf (x :: s), inLine c = true := by
    intro c hc
    have hmem : c ∈ x :: s :=
      (List.dropWhile_suffix isGap).mem (hcut ▸ List.mem_append_left trail hc)
    rcases List.mem_cons.mp hmem with rfl | hmem
    · rcases eq_of_isGap hx with rfl | rfl <;> rfl
    · exact bne_iff_ne.mpr fun hc => hfeed (hc ▸ hmem)
  have hmisses : commentEnd.Misses (valueOf (x :: s)) (trail ++ (closing ++ e)) := by
    intro v hne hv
    have hvline : '\n' ∉ v ++ trail := by
      rw [List.mem_append, not_or]
      exact ⟨fun hmem => absurd (hline _ (hv.mem hmem)) (by decide), htrail.not_mem⟩
    rw [← List.append_assoc]
    exact fails_commentEnd hvline he (hleast v hne hv)
  have hlazy := lazyFrom_append_of_misses Field.value hmisses hline
    (preferred_commentEnd he htrail) []
  have htext : x :: s ++ (closing ++ e)
      = (x :: s).takeWhile isGap ++ (valueOf (x :: s) ++ (trail ++ (closing ++ e))) := by
    calc x :: s ++ (closing ++ e)
      _ = (x :: s).takeWhile isGap ++ (x :: s).dropWhile isGap ++ (closing ++ e) := by
          rw [List.takeWhile_append_dropWhile]
      _ = (x :: s).takeWhile isGap ++ (valueOf (x :: s) ++ (trail ++ (closing ++ e))) := by
          rw [hcut, List.append_assoc, List.append_assoc]
  have hstops : Stops isGap (valueOf (x :: s) ++ (trail ++ (closing ++ e))) := by
    have hstop := stops_dropWhile isGap (x :: s)
    rw [← List.append_assoc, ← hcut]
    cases hdrop : (x :: s).dropWhile isGap with
    | nil => exact (stops_cons ..).mpr (by decide)
    | cons y t =>
        rw [hdrop] at hstop
        exact (stops_cons ..).mpr ((stops_cons ..).mp hstop)
  have hgaps : (chars1 isGap : Pattern Field).Reads
      ((x :: s).takeWhile isGap ++ (valueOf (x :: s) ++ (trail ++ (closing ++ e))))
      (valueOf (x :: s) ++ (trail ++ (closing ++ e))) [] := by
    refine reads_chars1 ?_ (fun c => List.mem_takeWhile_imp) hstops
    rw [List.takeWhile_cons_of_pos hx]
    exact List.cons_ne_nil _ _
  rw [htext, preferred_seq_of_reads hgaps ((preferred_group_star_lazy ..).trans hlazy)]
  rfl

/-- What is read behind the name: the value, or nothing if there is no gap. -/
theorem exists_preferred_rest : ∃ parts,
    (seq (opt (seq (chars1 isGap) (group Field.value (star .lazy (char inLine)))))
      commentEnd).preferred (c.rest ++ (closing ++ c.ending)) = some parts
    ∧ (parts = [(.value, c.value)] ∨ parts = [] ∧ c.value = []) := by
  by_cases hgap : ∃ x s, c.rest = x :: s ∧ isGap x = true
  · obtain ⟨x, s, hrest, hx⟩ := hgap
    have hfeed := c.not_mem_feed
    rw [hrest, List.mem_cons, not_or] at hfeed
    refine ⟨[(.value, c.value)], ?_, .inl rfl⟩
    apply preferred_opt_seq
    rw [preferred_seq_assoc, value, hrest]
    exact preferred_value hfeed.2 c.endsLine hx
  · have hrest : c.rest = [] ∨ c.rest = ['\r'] := by
      cases h : c.rest with
      | nil => exact .inl rfl
      | cons x s =>
          refine .inr ?_
          obtain hx | ⟨rfl, rfl⟩ := startsApart_cons (h ▸ c.startsApart)
          · exact absurd ⟨x, s, h, hx⟩ hgap
          · rfl
    have htrail : IsTrail c.rest ∧ c.value = [] := by
      rw [value]
      rcases hrest with h | h
      · rw [h]; exact ⟨⟨[], [], by decide, rfl, by decide⟩, by decide⟩
      · rw [h]; exact ⟨⟨[], ['\r'], by decide, rfl, by decide⟩, by decide⟩
    have hstops : Stops isGap (c.rest ++ (closing ++ c.ending)) := by
      rcases hrest with h | h <;> rw [h] <;> exact (stops_cons ..).mpr (by decide)
    refine ⟨[], ?_, .inr ⟨rfl, htrail.2⟩⟩
    rw [preferred_opt_seq_eq,
      preferred_of_fails (fails_seq_left (fails_seq_left (fails_chars1 hstops))), Option.none_or,
      preferred_commentEnd c.endsLine htrail.1]

/-- A second star behind the opening is read, and no other. -/
theorem reads_second {star : List Char} (hstar : star ∈ [[], ['*']])
    (ht : Stops (· == '*') t) :
    (opt (char (· == '*')) : Pattern Field).Reads (star ++ t) t [] := by
  simp only [List.mem_cons, List.not_mem_nil, or_false] at hstar
  rcases hstar with rfl | rfl
  · exact reads_opt_of_fails (fails_char ht)
  · exact (reads_char rfl).opt

/-- The pattern reads the name and the value of the comment. -/
theorem exists_preferred_text : ∃ read, inlinePattern.preferred c.text = some read
    ∧ partOf read .name = c.name ∧ partOf read .value = c.value := by
  obtain ⟨parts, hparts, hvalue⟩ := c.exists_preferred_rest
  obtain ⟨star, hstar, gap, hopening, hgap⟩ := c.isOpening
  have hletters := (reads_chars1 (κ := Field) c.name_ne_nil c.isTagChar
    (stops_rest (t := c.ending) c.startsApart)).group Field.name
  have hnamed := preferred_seq_of_reads hletters hparts
  rw [← preferred_seq_assoc] at hnamed
  have hsign : (char (· == '@') : Pattern Field).Reads
      ('@' :: (c.name ++ (c.rest ++ (closing ++ c.ending)))) _ [] := reads_char rfl
  have hsigned := preferred_seq_of_reads hsign hnamed
  rw [← preferred_seq_assoc] at hsigned
  have hblanks : (blanks : Pattern Field).Reads
      (gap ++ '@' :: (c.name ++ (c.rest ++ (closing ++ c.ending)))) _ [] :=
    reads_chars hgap ((stops_cons ..).mpr (by decide))
  have hstops : Stops (· == '*')
      (gap ++ '@' :: (c.name ++ (c.rest ++ (closing ++ c.ending)))) := by
    refine stops_append (fun x hx => beq_eq_false_iff_ne.mpr ?_) ((stops_cons ..).mpr rfl)
    rintro rfl
    exact absurd (hgap _ hx) (by decide)
  have hopened := preferred_seq_of_reads (reads_second hstar hstops)
    (preferred_seq_of_reads hblanks hsigned)
  have hread := preferred_seq_of_reads (reads_lit "/*".toList _) hopened
  have htext : c.text = "/*".toList
      ++ (star ++ (gap ++ '@' :: (c.name ++ (c.rest ++ (closing ++ c.ending))))) := by
    rw [text, hopening, List.append_assoc, List.append_assoc]
  rw [← htext] at hread
  refine ⟨_, hread, ?_⟩
  rcases hvalue with rfl | ⟨rfl, hnil⟩
  · simp [partOf, texts]
  · simp [partOf, texts, hnil]

/-- The comment is the first on the text that opens with a tag and goes on to a closing mark at the
end of its line. -/
def IsFirstIn (c : TagComment) (text : List Char) : Prop :=
  ∃ front, text = front ++ c.text
    ∧ ∀ front' (c' : TagComment), text = front' ++ c'.text → front.length ≤ front'.length

theorem not_fails_text : ¬ inlinePattern.Fails c.text := by
  obtain ⟨read, hread, -⟩ := c.exists_preferred_text
  intro hfails
  rw [preferred_of_fails hfails] at hread
  cases hread

/-- In front of a comment that stands first no other is found. -/
theorem misses_iff {front : List Char} : inlinePattern.Misses front c.text
    ↔ ∀ front' (c' : TagComment), front ++ c.text = front' ++ c'.text
      → front.length ≤ front'.length := by
  constructor
  · intro h front' c' heq
    by_contra hlt
    obtain ⟨t, rfl, htext⟩ : ∃ t, front = front' ++ t ∧ c'.text = t ++ c.text := by
      rcases List.append_eq_append_iff.mp heq with ⟨t, rfl, -⟩ | ⟨t, rfl, htext⟩
      · exact absurd (by simp) hlt
      · exact ⟨t, rfl, htext⟩
    have hne : t ≠ [] := by
      rintro rfl
      exact hlt (by simp)
    exact c'.not_fails_text (htext ▸ h t hne (List.suffix_append front' t))
  · rintro h t hne ⟨front', rfl⟩
    refine fails_iff.mpr fun u hu => ?_
    obtain ⟨c', hc'⟩ := exists_eq_text hu
    have hle := h front' c' (by rw [List.append_assoc, hc'])
    rw [List.length_append] at hle
    exact hne (List.length_eq_zero_iff.mp (by omega))

theorem countClosings_value : countClosings c.value = countClosings c.rest := by
  obtain ⟨trail, ⟨gaps, r, hr, rfl, hgaps⟩, hcut, -⟩ := exists_trail c.rest
  have hlead : '*' ∉ c.rest.takeWhile isGap :=
    fun hmem => absurd (List.mem_takeWhile_imp hmem) (by decide)
  have hmarks : ∀ x ∈ gaps ++ r, x ≠ '*' ∧ x ≠ '/' := by
    have hends : ∀ r ∈ returns, ∀ x ∈ r, x ≠ '*' ∧ x ≠ '/' := by decide
    intro x hx
    rcases List.mem_append.mp hx with hx | hx
    · rcases eq_of_isGap (hgaps x hx) with rfl | rfl <;> decide
    · exact hends r hr x hx
  have hstops : Stops (· == '/') (gaps ++ r) :=
    fun x hx => beq_eq_false_iff_ne.mpr (hmarks x (List.mem_of_mem_head? hx)).2
  calc countClosings c.value
    _ = countClosings c.value + countClosings (gaps ++ r) := by
        rw [countClosings_of_not_mem fun hmem => (hmarks '*' hmem).1 rfl, Nat.add_zero]
    _ = countClosings (c.rest.takeWhile isGap ++ c.rest.dropWhile isGap) := by
        rw [countClosings_append_of_not_mem hlead, hcut, countClosings_append _ hstops, value]
    _ = countClosings c.rest := by rw [List.takeWhile_append_dropWhile]

theorem countClosings_line : countClosings c.line = countClosings c.rest + 1 := by
  have hname : '*' ∉ c.name := fun hmem => absurd (c.isTagChar _ hmem) (by decide)
  rw [line, countClosings_cons_of_ne (by decide), countClosings_append_of_not_mem hname,
    countClosings_append_closing]

/-- What stands behind the name holds a closing mark exactly if the value does. -/
theorem closing_infix_value : closing <:+: c.value ↔ closing <:+: c.rest := by
  rw [← not_iff_not, ← countClosings_eq_zero_iff, ← countClosings_eq_zero_iff,
    countClosings_value]

/-- The closing mark at the end of the line is the only one if no other stands behind the name. -/
theorem countClosings_line_eq_one_iff : countClosings c.line = 1 ↔ ¬ closing <:+: c.rest := by
  rw [← countClosings_eq_zero_iff, countClosings_line]
  exact Nat.succ_inj

end TagComment

variable {name : String} {tag : InlineTag}

theorem ofLine?_eq_some_iff_isFirstIn {number : Nat} {text : String} :
    ofLine? number text = some (name, tag) ↔ tag.line = number
      ∧ ∃ c : TagComment, c.IsFirstIn text.toList
        ∧ name = TagTable.lowerName c.name ∧ tag.value = String.ofList c.value := by
  obtain ⟨k, v⟩ := tag
  simp only [ofLine?_eq_map_found, found, Option.map_map, Option.map_eq_some_iff,
    Function.comp_apply, search?_eq_some_iff, Prod.mk.injEq, InlineTag.mk.injEq]
  constructor
  · rintro ⟨m, ⟨front, htext, hmisses, hreads⟩, rfl, rfl, rfl⟩
    obtain ⟨c, hc⟩ := TagComment.exists_eq_text hreads.canRead
    obtain ⟨read, hread, hname, hvalue⟩ := c.exists_preferred_text
    rw [hc] at htext hmisses hreads
    obtain rfl := Option.some.inj ((preferred_of_reads hreads).symm.trans hread)
    refine ⟨rfl, c, ⟨front, htext, ?_⟩, congrArg _ hname, congrArg _ hvalue⟩
    rw [htext]
    exact c.misses_iff.mp hmisses
  · rintro ⟨rfl, c, ⟨front, htext, hfirst⟩, rfl, rfl⟩
    obtain ⟨u, hu⟩ := not_forall_not.mp (mt fails_iff.mpr c.not_fails_text)
    obtain ⟨stop, captures, hreads⟩ := hu.exists_reads
    obtain ⟨read, hread, hname, hvalue⟩ := c.exists_preferred_text
    obtain rfl := Option.some.inj ((preferred_of_reads hreads).symm.trans hread)
    have hmisses := c.misses_iff.mpr (htext ▸ hfirst)
    exact ⟨⟨⟨c.text, stop⟩, captures⟩, ⟨front, htext, hmisses, hreads⟩, congrArg _ hname, rfl,
      congrArg _ hvalue⟩

/-- The annotation with its name is read from the comment, which is the first of its kind on the
line of the annotation. -/
def IsReadFrom (lines : List String) (e : String × InlineTag) (c : TagComment) : Prop :=
  1 ≤ e.2.line ∧ ∃ line, lines[e.2.line - 1]? = some line ∧ c.IsFirstIn line.toList
    ∧ e.1 = TagTable.lowerName c.name ∧ e.2.value = String.ofList c.value

/-- The annotation is read from one comment: its value holds no closing mark, and the line has only
one behind the at sign, at its end. -/
def IsFromOneComment (lines : List String) (e : String × InlineTag) : Prop :=
  ∃ c, IsReadFrom lines e c ∧ ¬ closing <:+: e.2.value.toList ∧ countClosings c.line = 1

theorem mem_tagsOf_iff_isReadFrom {start stop : Int} {lines : List String}
    {e : String × InlineTag} : e ∈ tagsOf start stop lines
      ↔ start ≤ e.2.line ∧ e.2.line ≤ stop ∧ ∃ c, IsReadFrom lines e c := by
  obtain ⟨name, tag⟩ := e
  simp only [mem_tagsOf_iff_ofLine?, ofLine?_eq_some_iff_isFirstIn, true_and, IsReadFrom]
  constructor
  · rintro ⟨hstart, hstop, hone, line, hline, c, hc⟩
    exact ⟨hstart, hstop, c, hone, line, hline, hc⟩
  · rintro ⟨hstart, hstop, c, hone, line, hline, hc⟩
    exact ⟨hstart, hstop, hone, line, hline, c, hc⟩

theorem IsReadFrom.toList_value {lines : List String} {e : String × InlineTag} {c : TagComment}
    (h : IsReadFrom lines e c) : e.2.value.toList = c.value := by
  obtain ⟨-, -, -, -, -, hvalue⟩ := h
  rw [hvalue, String.toList_ofList]

/-- The annotations of a symbol are read, line by line in its range, from the first comment on the
line that opens with a tag and from which the line goes on to a closing mark at its end; the last
one counts under every name. An annotation is read from one comment exactly if the comment is not
closed behind the name already: otherwise its value runs over the closing mark. -/
theorem ofSymbol_tagComments (disk : Disk) (s : Symbol) (lines : List String) :
    ofSymbol disk { s with sourceLines := some lines }
        = .ok ((tagsOf s.startLine s.endLine lines).foldl (fun t e => t.insert e.1 e.2) [])
      ∧ (∀ e, e ∈ tagsOf s.startLine s.endLine lines
        ↔ s.startLine ≤ e.2.line ∧ e.2.line ≤ s.endLine ∧ ∃ c, IsReadFrom lines e c)
      ∧ ∀ e ∈ tagsOf s.startLine s.endLine lines,
        IsFromOneComment lines e ↔ ∀ c, IsReadFrom lines e c → ¬ closing <:+: c.rest := by
  refine ⟨rfl, fun _ => mem_tagsOf_iff_isReadFrom, fun e he => ?_⟩
  constructor
  · rintro ⟨_, -, hvalue, -⟩ c hc
    rwa [hc.toList_value, c.closing_infix_value] at hvalue
  · intro h
    obtain ⟨-, -, c, hc⟩ := mem_tagsOf_iff_isReadFrom.mp he
    have hrest := h c hc
    refine ⟨c, hc, ?_, c.countClosings_line_eq_one_iff.mpr hrest⟩
    rwa [hc.toList_value, c.closing_infix_value]

/-- A symbol of one line with two comments. -/
def twiceCommented : Symbol :=
  { docComment := "", filePath := "", startLine := 1, endLine := 1, declaringType := .null,
    member := .null, traitComments := [], isTypeLevel := false,
    sourceLines := some ["total = 1  /* @a x */ /* @b y */"] }

/-- The annotation that is read from both of them. -/
def twiceCommentedTag : String × InlineTag :=
  ("a", ⟨1, "x */ /* @b y"⟩)

theorem tagsOf_twiceCommented :
    tagsOf 1 1 ["total = 1  /* @a x */ /* @b y */"] = [twiceCommentedTag] := by
  rfl

theorem ofSymbol_twiceCommented (disk : Disk) :
    ofSymbol disk twiceCommented = .ok [twiceCommentedTag] := by
  rfl

theorem ofSymbol_tagComments_twiceCommented :
    ofSymbol {} twiceCommented = .ok [twiceCommentedTag]
      ∧ twiceCommentedTag ∈ tagsOf 1 1 ["total = 1  /* @a x */ /* @b y */"]
      ∧ (∃ c, IsReadFrom ["total = 1  /* @a x */ /* @b y */"] twiceCommentedTag c
        ∧ closing <:+: c.rest)
      ∧ ¬ IsFromOneComment ["total = 1  /* @a x */ /* @b y */"] twiceCommentedTag := by
  obtain ⟨htable, hmem, hone⟩ :=
    ofSymbol_tagComments {} twiceCommented ["total = 1  /* @a x */ /* @b y */"]
  have htag : twiceCommentedTag ∈ tagsOf 1 1 ["total = 1  /* @a x */ /* @b y */"] := by
    rw [tagsOf_twiceCommented]
    exact List.mem_singleton_self _
  obtain ⟨-, -, c, hc⟩ := (hmem twiceCommentedTag).mp htag
  have hrest : closing <:+: c.rest := by
    rw [← c.closing_infix_value, ← hc.toList_value]
    decide
  refine ⟨htable, htag, ⟨c, hc, hrest⟩, fun h => ?_⟩
  exact (hone twiceCommentedTag htag).mp h c hc hrest

theorem not_forall_isFromOneComment :
    ¬ ∀ (disk : Disk) (s : Symbol) (found : Table String InlineTag), ofSymbol disk s = .ok found →
      ∀ name tag, found.get? name = some tag → ¬ closing <:+: tag.value.toList := by
  intro h
  refine h {} twiceCommented _ (ofSymbol_twiceCommented {}) "a" ⟨1, "x */ /* @b y"⟩ rfl ?_
  decide

end InlineTag

end DocTags
