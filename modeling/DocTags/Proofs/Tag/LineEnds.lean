import DocTags.Proofs.Pattern.LineEnds
import DocTags.Proofs.Tag.LineTags
import Mathlib.Data.List.Infix

/-!
# Tags on lines with carriage returns

Where carriage returns stand in front of the line feeds, references to providers and expected
exceptions read the same, although blanks are read across lines in them and a quoted text can read
the return at the end of its line. A general tag leaves out the return at the end of its line, and
its value is the same as well.
-/

namespace DocTags

open Pattern Text

namespace Dialect

theorem fails_cons_of_ne (d : Dialect) {c : Char} (hc : c ≠ '@') (s : List Char) :
    d.pattern.Fails (c :: s) :=
  d.fails_of_stops ((stops_cons _ c s).mpr (beq_eq_false_iff_ne.mpr hc))

/-- No tag starts at the end of a line. -/
theorem fails_at_lineEnd (d : Dialect) (c : Char) (s : List Char) (hc : c = '\n' ∨ c = '\r') :
    d.pattern.Fails (c :: s) := by
  rcases hc with rfl | rfl
  · exact d.fails_cons_of_ne (by decide) s
  · exact d.fails_cons_of_ne (by decide) s

theorem dataProviderPattern_follows : dataProviderPattern.Follows addReturns := by
  have hword : (lit "@dataProvider".toList : Pattern Field).Follows addReturns :=
    follows_addReturns rfl rfl rfl
  have hvalue : (group Field.value (chars1 isReferenceChar)).Follows addReturns :=
    follows_addReturns rfl rfl rfl
  have hfeed : ∀ u, (group Field.value (chars1 isReferenceChar)).Fails ('\n' :: u) :=
    fun u => fails_group (fails_chars1 ((stops_cons _ _ u).mpr rfl))
  have hblanks : (blanks1 : Pattern Field).FollowsReturns := followsReturns_chars1 rfl rfl
  exact hword.seq (hblanks.seq_follows hvalue hfeed)

/-- The end of a line behind blanks, perhaps across lines. -/
theorem fails_blanks_lineEnd_addReturns {κ : Type} (s : List Char) :
    (seq blanks lineEnd : Pattern κ).Fails (addReturns s)
      ↔ (seq blanks lineEnd : Pattern κ).Fails s := by
  have hend : ∀ c u, (lineEnd : Pattern κ).Fails (c :: u) ↔ c ≠ '\n' := by
    intro c u
    by_cases hc : c = '\n' <;> simp [Fails, outcomes, hc]
  induction s with
  | nil => rfl
  | cons c s ih =>
      by_cases hc : c = '\n'
      · subst hc
        have hfeed : ∀ u, ¬ (seq blanks lineEnd : Pattern κ).Fails ('\n' :: u) :=
          fun u h => (hend '\n' u).mp (fails_chars_seq_cons.mp h).1 rfl
        rw [addReturns_feed]
        exact iff_of_false (fun h => hfeed _ ((fails_chars_seq_cons.mp h).2 rfl)) (hfeed s)
      · rw [addReturns_cons hc]
        exact fails_chars_seq_cons.trans (Iff.trans
          (and_congr ((hend c _).trans (hend c s).symm) (imp_congr_right fun _ => ih))
          fails_chars_seq_cons.symm)

theorem quotedPattern_follows : quotedPattern.Follows addReturns := by
  have hquote : (char (· == '"') : Pattern Field).Follows addReturns :=
    follows_addReturns rfl rfl rfl
  have hfeed : ∀ u, (char (· == '"') : Pattern Field).Fails ('\n' :: u) :=
    fun u => fails_char ((stops_cons _ _ u).mpr rfl)
  exact hquote.seq ((followsReturns_of_isPlain _ rfl rfl).seq_follows hquote hfeed)

theorem expectedExceptionPattern_agrees :
    expectedExceptionPattern.Agrees addReturns fun _ => True := by
  have hopening : (lit "@expectedException".toList : Pattern Field).Follows addReturns :=
    follows_addReturns rfl rfl rfl
  have hblanks : (blanks1 : Pattern Field).FollowsReturns := followsReturns_chars1 rfl rfl
  have hname : (group Field.name (chars1 isTypeChar)).Follows addReturns :=
    follows_addReturns rfl rfl rfl
  have hgaps : (chars1 isGap : Pattern Field).Follows addReturns := follows_addReturns rfl rfl rfl
  have hword : (chars fun c => !isBlank c : Pattern Field).Follows addReturns :=
    follows_addReturns rfl rfl rfl
  have hmessage : (group Field.message (alt quotedPattern (chars fun c => !isBlank c))).Follows
      addReturns :=
    (quotedPattern_follows.alt hword).group .message fun _ _ h => h.text_addReturns rfl
  have hcode : (opt (seq (chars1 isGap) (group Field.code (chars fun c => !isBlank c)))).Follows
      addReturns :=
    follows_addReturns rfl rfl rfl
  have hend : (seq blanks lineEnd : Pattern Field).Agrees addReturns fun _ => True :=
    agrees_of_names_eq_nil rfl fun s _ => fails_blanks_lineEnd_addReturns s
  have hrest := hname.seq_agrees ((hgaps.seq hmessage).opt.seq_agrees (hcode.seq_agrees hend))
  refine hopening.seq_agrees (hblanks.seq_agrees hrest fun u => ?_)
  exact fails_seq_left (fails_group (fails_chars1 ((stops_cons _ _ u).mpr rfl)))

/-- A return at the end of a line does not count for the end of a tag. -/
theorem fails_lineTail_append_return {κ : Type} (s : List Char)
    (hs : ∀ c ∈ s, c ≠ '\n' ∧ c ≠ '\r') :
    (lineTail : Pattern κ).Fails (s ++ ['\r']) ↔ (lineTail : Pattern κ).Fails s := by
  have hcons : ∀ c t, c ≠ '\n' ∧ c ≠ '\r' →
      ((lineTail : Pattern κ).Fails (c :: t)
        ↔ (isGap c = true → (lineTail : Pattern κ).Fails t)) := by
    rintro c t ⟨hfeed, hreturn⟩
    have hend : (seq (opt (char (· == '\r'))) lineEnd : Pattern κ).Fails (c :: t) := by
      simp [Fails, opt, outcomes, hfeed, hreturn]
    exact fails_chars_seq_cons.trans (and_iff_right hend)
  induction s with
  | nil => exact iff_of_false (fun h => List.cons_ne_nil _ _ h) fun h => List.cons_ne_nil _ _ h
  | cons c s ih =>
      rw [List.forall_mem_cons] at hs
      exact (hcons c _ hs.1).trans ((imp_congr_right fun _ => ih hs.2).trans (hcons c s hs.1).symm)

/-- A lazy repetition on accepted characters stops at every tail in turn. -/
theorem outcomes_star_lazy_char {κ : Type} {accepts : Char → Bool} {s : List Char}
    (hs : ∀ c ∈ s, accepts c = true) :
    (star .lazy (char accepts) : Pattern κ).outcomes s = s.tails.map fun t => (t, []) := by
  induction s with
  | nil => rfl
  | cons c s ih =>
      rw [List.forall_mem_cons] at hs
      have hfront : (char accepts : Pattern κ).outcomes (c :: s) = [(s, [])] := by
        simp [outcomes, hs.1]
      rw [outcomes_star_lazy rfl, hfront, followedBy_singleton, ih hs.2, List.tails_cons,
        List.map_cons]

/-- The value of a tag ends at the first place from which the line has an end. -/
theorem preferred_lazy_seq {κ : Type} {accepts : Char → Bool} {s : List Char}
    (hs : ∀ c ∈ s, accepts c = true) (name : κ) (q : Pattern κ) :
    (seq (group name (star .lazy (char accepts))) q).preferred s
      = s.tails.findSome? fun t =>
        (q.preferred t).map fun u => u ++ [(name, (Span.mk s t).text)] := by
  rw [preferred, outcomes, head?_followedBy_texts, outcomes, outcomes_star_lazy_char hs,
    List.map_map, List.findSome?_map]
  rfl

/-- The value of a tag, to the end of its line, does not take in a return there. -/
theorem value_agrees : (seq (group Field.value (star .lazy (char inLine))) lineTail).Agrees
    (· ++ ['\r']) fun c => c ≠ '\n' ∧ c ≠ '\r' := by
  have htail : (lineTail : Pattern Field).Agrees (· ++ ['\r']) fun c => c ≠ '\n' ∧ c ≠ '\r' :=
    agrees_of_names_eq_nil rfl fails_lineTail_append_return
  intro s hs
  have hline : ∀ c ∈ s, inLine c = true := fun c hc => bne_iff_ne.mpr (hs c hc).1
  have hline' : ∀ c ∈ s ++ ['\r'], inLine c = true := by
    simpa only [List.forall_mem_append, List.forall_mem_singleton] using ⟨hline, rfl⟩
  have hfirst : ((s.tails.map (· ++ ['\r'])).findSome? fun t =>
      ((lineTail : Pattern Field).preferred t).map
        fun u => u ++ [(Field.value, (Span.mk (s ++ ['\r']) t).text)])
        = s.tails.findSome? fun t => ((lineTail : Pattern Field).preferred t).map
          fun u => u ++ [(Field.value, (Span.mk s t).text)] := by
    rw [List.findSome?_map, ← List.head?_filterMap, ← List.head?_filterMap]
    congr 1
    apply List.filterMap_congr
    intro t ht
    have hagrees := htail t fun c hc => hs c (((List.mem_tails t s).mp ht).mem hc)
    simp only [Function.comp_def, text_append_append, hagrees]
  -- The whole line is a value if nothing shorter is, so the place behind the return is not tried.
  have hsome : (s.tails.findSome? fun t => ((lineTail : Pattern Field).preferred t).map
      fun u => u ++ [(Field.value, (Span.mk s t).text)]).isSome = true := by
    rw [List.findSome?_isSome_iff]
    exact ⟨[], (List.mem_tails [] s).mpr List.nil_suffix, rfl⟩
  rw [preferred_lazy_seq hline, preferred_lazy_seq hline', List.tails_append,
    List.findSome?_append, hfirst, Option.or_of_isSome hsome]

theorem genericPattern_agrees_return :
    genericPattern.Agrees (· ++ ['\r']) fun c => c ≠ '\n' ∧ c ≠ '\r' := by
  have hsign : (char (· == '@') : Pattern Field).Follows (· ++ ['\r']) := follows_append rfl rfl
  have hname : (group Field.name (chars1 isTagChar)).Follows (· ++ ['\r']) :=
    follows_append rfl rfl
  have hgaps : (chars1 isGap : Pattern Field).Follows (· ++ ['\r']) := follows_append rfl rfl
  have htail : (lineTail : Pattern Field).Agrees (· ++ ['\r']) fun c => c ≠ '\n' ∧ c ≠ '\r' :=
    agrees_of_names_eq_nil rfl fails_lineTail_append_return
  have hvalue := (hgaps.seq_agrees value_agrees).seq_assoc.opt_seq htail
  exact (hsign.seq_agrees (hname.seq_agrees hvalue).seq_assoc).seq_assoc

/-- Without the return at its end, a line has the same tag. -/
theorem found_append_return {line : List Char} (hfeed : '\n' ∉ line) (hreturn : '\r' ∉ line) :
    genericPattern.found (line ++ ['\r']) = genericPattern.found line := by
  have hend : genericPattern.found ['\r'] = none := by
    have hfails : genericPattern.Fails ['\r'] := fails_at_lineEnd .generic _ _ (.inr rfl)
    rw [found_cons, preferred_of_fails hfails, found_nil rfl]
    rfl
  have hline : ∀ c ∈ line, c ≠ '\n' ∧ c ≠ '\r' :=
    fun c hc => ⟨fun h => hfeed (h ▸ hc), fun h => hreturn (h ▸ hc)⟩
  rw [found_append rfl, hend, Option.or_none]
  intro t ht
  exact genericPattern_agrees_return t fun c hc => hline c (ht.mem hc)

end Dialect

end DocTags
