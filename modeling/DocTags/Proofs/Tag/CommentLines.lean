import DocTags.Proofs.DataSet.CommentLines
import DocTags.Proofs.Pattern.NextLine
import DocTags.Proofs.Tag.LineEnds

/-!
# Tags in a comment of several lines

In a comment whose lines stand behind stars, every line has its own tags: the general tags, the
references to providers and the expected exception of the comment are those of its lines. Blanks in
a tag are read across the end of a line, but the star of the next line stops them.
-/

namespace DocTags

open Pattern Text

namespace LiteralRows

theorem stripDelimiters_lineBlock (ls : List (List Char)) :
    stripDelimiters (lineBlock ls) = behindStars ls ++ "\n ".toList := by
  have hblock : lineBlock ls
      = "/**".toList ++ ((behindStars ls ++ "\n ".toList) ++ "*/".toList) := by
    rw [lineBlock, List.append_assoc]
    rfl
  rw [hblock, stripDelimiters_append]

/-- The body of a comment is cut into its lines, with their stars. -/
theorem splitAt_behindStars {ls : List (List Char)} (h : ∀ line ∈ ls, '\n' ∉ line) :
    splitAt '\n' (behindStars ls ++ "\n ".toList)
      = [] :: (ls.map (" * ".toList ++ ·) ++ [" ".toList]) := by
  have hbody : behindStars ls ++ "\n ".toList
      = [] ++ (ls.map (" * ".toList ++ ·) ++ [" ".toList]).flatMap
        fun piece => '\n' :: id piece := by
    rw [List.nil_append, List.flatMap_append, List.flatMap_map]
    rfl
  rw [hbody, splitAt_pieces List.not_mem_nil, List.map_id]
  simp only [List.forall_mem_append, List.forall_mem_map, List.forall_mem_singleton, id]
  refine ⟨fun line hline hmem => ?_, by decide⟩
  exact (List.mem_append.mp hmem).elim (by decide) (h line hline)

/-- The physical lines of a comment are its lines with their stars between its two delimiters. -/
theorem lines_lineBlock {ls : List (List Char)} (h : ∀ line ∈ ls, '\n' ∉ line ∧ '\r' ∉ line) :
    lines (lineBlock ls) = "/**".toList :: (ls.map (" * ".toList ++ ·) ++ [" */".toList]) := by
  have hblock : lineBlock ls
      = join ['\n'] ("/**".toList :: (ls.map (" * ".toList ++ ·) ++ [" */".toList])) := by
    rw [join_cons_eq_flatMap, List.flatMap_append, List.flatMap_map]
    rfl
  rw [hblock, lines_join (List.cons_ne_nil _ _)]
  rw [List.forall_mem_cons, List.forall_mem_append, List.forall_mem_map, List.forall_mem_singleton]
  refine ⟨by decide, fun line hline => ?_, by decide⟩
  rw [List.mem_append, List.mem_append, not_or, not_or]
  exact ⟨⟨by decide, (h line hline).1⟩, by decide, (h line hline).2⟩

/-- Behind a line of a comment stands a blank on the next line, and then a star or nothing. -/
theorem exists_behindStars_append (ls : List (List Char)) {rest : List Char}
    (hrest : Stops (· != '*') rest) : ∃ rest', Stops (· != '*') rest'
      ∧ behindStars ls ++ '\n' :: ' ' :: rest = '\n' :: ' ' :: rest' := by
  cases ls with
  | nil => exact ⟨rest, hrest, rfl⟩
  | cons line ls =>
      rw [behindStars_cons_append]
      exact ⟨_, (stops_cons ..).mpr rfl, rfl⟩

end LiteralRows

namespace Dialect

open LiteralRows

variable {rest : List Char}

/-- Where no tag starts, no tag is found. -/
theorem misses_of_not_mem (d : Dialect) {lead : List Char} (h : '@' ∉ lead) (s : List Char) :
    d.pattern.Misses lead s :=
  misses_of_forall (· == '@') (fun _ => d.fails_of_stops)
    fun _ hx => beq_eq_false_iff_ne.mpr fun hat => h (hat ▸ hx)

/-- What stands in front of the first at sign of a line does not matter. -/
theorem tag?_append_of_not_mem (d : Dialect) {lead : List Char} (h : '@' ∉ lead)
    (line : List Char) : d.tag? (lead ++ line) = d.tag? line := by
  rw [tag?, search?_append_of_misses (d.misses_of_not_mem h line), tag?]

/-- A lazy reading that fails everywhere inside a text stops at its end. -/
theorem findSome?_tails {α : Type} {f : List Char → Option α} {s : List Char}
    (h : ∀ t, t <:+ s → t ≠ [] → f t = none) : s.tails.findSome? f = f [] := by
  induction s with
  | nil =>
      rw [List.tails, List.findSome?_singleton]
  | cons c s ih =>
      rw [List.tails_cons, List.findSome?_cons, h _ (List.suffix_refl _) (List.cons_ne_nil c s)]
      exact ih fun t ht => h t (ht.trans (List.suffix_cons c s))

/-- A value that does not end with a gap goes to the end of its line. -/
theorem preferred_value {value : List Char} (hline : ∀ c ∈ value, c ≠ '\n' ∧ c ≠ '\r')
    (hlast : ∀ c ∈ value.getLast?, isGap c = false) :
    (seq (group Field.value (star .lazy (char inLine))) lineTail).preferred value
      = some [(.value, value)] := by
  have hfails : ∀ t, t <:+ value → t ≠ [] → (lineTail : Pattern Field).Fails t := by
    intro t ht hne
    apply fails_iff.mpr
    intro u hu
    obtain ⟨-, hgaps⟩ := (canRead_lineTail (fun hmem => (hline _ (ht.mem hmem)).1 rfl)
      fun hmem => (hline _ (ht.mem hmem)).2 rfl).mp hu
    have hgap : isGap (t.getLast hne) = true := hgaps _ (List.getLast_mem hne)
    obtain ⟨front, rfl⟩ := ht
    rw [List.getLast?_append_of_ne_nil front hne, List.getLast?_eq_some_getLast hne] at hlast
    exact Bool.false_ne_true ((hlast _ rfl).symm.trans hgap)
  have hinLine : ∀ c ∈ value, inLine c = true := fun c hc => bne_iff_ne.mpr (hline c hc).1
  rw [preferred_lazy_seq hinLine, findSome?_tails]
  · rw [Span.text_nil]
    rfl
  · intro t ht hne
    rw [preferred_of_fails (hfails t ht hne), Option.map_none]

/-- A line that starts with a name and a value has the tag with this name and value. -/
theorem tagOn?_named {name value : List Char} (hne : name ≠ [])
    (hname : ∀ c ∈ name, isTagChar c = true) (hstart : Stops isGap value)
    (hline : ∀ c ∈ value, c ≠ '\n' ∧ c ≠ '\r')
    (hlast : ∀ c ∈ value.getLast?, isGap c = false) :
    TagTable.tagOn? ('@' :: (name ++ ' ' :: value))
      = some (TagTable.lowerName name, String.ofList value) := by
  have hsign : (char (· == '@') : Pattern Field).Reads ('@' :: (name ++ ' ' :: value))
      (name ++ ' ' :: value) [] := reads_char rfl
  have hletters : (group Field.name (chars1 isTagChar)).Reads (name ++ ' ' :: value)
      (' ' :: value) [(.name, ⟨name ++ ' ' :: value, ' ' :: value⟩)] :=
    (reads_chars1 hne hname ((stops_cons ..).mpr rfl)).group Field.name
  have hgap : (chars1 isGap : Pattern Field).Reads (' ' :: value) value [] :=
    reads_chars1 (a := [' ']) (by decide) (by decide) hstart
  have hvalue := preferred_seq_of_reads hgap (preferred_value hline hlast)
  rw [← preferred_seq_assoc] at hvalue
  have hnamed := preferred_seq_of_reads hletters (preferred_opt_seq hvalue)
  rw [← preferred_seq_assoc] at hnamed
  have hsigned := preferred_seq_of_reads hsign hnamed
  rw [← preferred_seq_assoc] at hsigned
  have htag : genericPattern.preferred ('@' :: (name ++ ' ' :: value))
      = some [(.value, value), (.name, name)] := hsigned.trans (by simp [texts])
  have hfound : genericPattern.found ('@' :: (name ++ ' ' :: value))
      = some [(.value, value), (.name, name)] := by
    rw [found_cons, htag, Option.some_or]
  rw [TagTable.tagOn?_eq_map_found, hfound]
  rfl

/-- What cannot start with a blank or a star is not read on the next line. -/
theorem fails_blanks_nextLine {κ : Type} {q : Pattern κ} (accepts : Char → Bool)
    (hq : ∀ t, Stops accepts t → q.Fails t) (hblank : accepts ' ' = false)
    (hstar : accepts '*' = false) (hrest : Stops (· != '*') rest) :
    (seq (chars isBlank) q).Fails (' ' :: rest) := by
  refine fails_chars_seq_cons.mpr ⟨hq _ ((stops_cons ..).mpr hblank), fun _ => ?_⟩
  cases rest with
  | nil =>
      rw [Fails, outcomes_chars_seq_nil]
      exact hq [] (stops_nil _)
  | cons c rest =>
      obtain rfl : c = '*' := by simpa using hrest
      refine fails_chars_seq_cons.mpr ⟨hq _ ((stops_cons ..).mpr hstar), fun h => ?_⟩
      exact absurd h (by decide)

theorem dataProviderPattern_follows_nextLine (hrest : Stops (· != '*') rest) :
    dataProviderPattern.Follows (· ++ '\n' :: ' ' :: rest) := by
  have hword : (lit "@dataProvider".toList : Pattern Field).Follows (· ++ '\n' :: ' ' :: rest) :=
    follows_append rfl rfl
  have hvalue : (group Field.value (chars1 isReferenceChar)).Follows (· ++ '\n' :: ' ' :: rest) :=
    follows_append rfl rfl
  refine hword.seq (hvalue.chars1_seq (fails_blanks_nextLine isReferenceChar ?_
    (by decide +kernel) (by decide +kernel) hrest))
  intro t ht
  exact fails_group (fails_chars1 ht)

/-- The end of a line behind blanks is where it is when more lines follow. -/
theorem fails_blanks_lineEnd_append {κ : Type} (e : List Char) (s : List Char)
    (hs : ∀ c ∈ s, c ≠ '\n') :
    (seq blanks lineEnd : Pattern κ).Fails (s ++ '\n' :: e)
      ↔ (seq blanks lineEnd : Pattern κ).Fails s := by
  have hend : ∀ c u, (lineEnd : Pattern κ).Fails (c :: u) ↔ c ≠ '\n' := by
    intro c u
    by_cases hc : c = '\n' <;> simp [Fails, outcomes, hc]
  induction s with
  | nil =>
      refine iff_of_false (fun h => ?_) fun h => List.cons_ne_nil _ _ h
      exact (hend '\n' e).mp (fails_chars_seq_cons.mp h).1 rfl
  | cons c s ih =>
      rw [List.forall_mem_cons] at hs
      exact fails_chars_seq_cons.trans (Iff.trans
        (and_congr ((hend c _).trans (hend c s).symm) (imp_congr_right fun _ => ih hs.2))
        fails_chars_seq_cons.symm)

/-- What an expected exception reads behind the word that opens it. -/
def exceptionParts : Pattern Field :=
  chain
    [group .name (chars1 isTypeChar),
      opt (seq (chars1 isGap) (group .message (alt quotedPattern (chars fun c => !isBlank c)))),
      opt (seq (chars1 isGap) (group .code (chars fun c => !isBlank c))), blanks, lineEnd]

/-- The parts of an expected exception do not notice the next line. -/
theorem exceptionParts_agrees_append (e : List Char) :
    exceptionParts.Agrees (· ++ '\n' :: e) (· ≠ '\n') := by
  have hname : (group Field.name (chars1 isTypeChar)).Follows (· ++ '\n' :: e) :=
    follows_append rfl rfl
  have hmessage : (opt (seq (chars1 isGap)
      (group Field.message (alt quotedPattern (chars fun c => !isBlank c))))).Follows
        (· ++ '\n' :: e) := follows_append rfl rfl
  have hcode : (opt (seq (chars1 isGap) (group Field.code (chars fun c => !isBlank c)))).Follows
      (· ++ '\n' :: e) := follows_append rfl rfl
  have hend : (seq blanks lineEnd : Pattern Field).Agrees (· ++ '\n' :: e) (· ≠ '\n') :=
    agrees_of_names_eq_nil rfl (fails_blanks_lineEnd_append _)
  exact hname.seq_agrees (hmessage.seq_agrees (hcode.seq_agrees hend))

theorem expectedExceptionPattern_agrees_nextLine (hrest : Stops (· != '*') rest) :
    expectedExceptionPattern.Agrees (· ++ '\n' :: ' ' :: rest) (· ≠ '\n') := by
  have hopening : (lit "@expectedException".toList : Pattern Field).Follows
      (· ++ '\n' :: ' ' :: rest) := follows_append rfl rfl
  refine hopening.seq_agrees ((exceptionParts_agrees_append _).chars1_seq
    (fails_blanks_nextLine isTypeChar ?_ (by decide +kernel) (by decide +kernel) hrest))
  intro t ht
  exact fails_seq_left (fails_group (fails_chars1 ht))

/-- The references to providers behind the stars are those of the lines. -/
theorem foundAll_dataProvider_behindStars (hrest : Stops (· != '*') rest)
    (ls : List (List Char)) :
    dataProviderPattern.foundAll (behindStars ls ++ '\n' :: ' ' :: rest)
      = ls.flatMap dataProviderPattern.foundAll
        ++ dataProviderPattern.foundAll ('\n' :: ' ' :: rest) := by
  induction ls with
  | nil => rfl
  | cons line ls ih =>
      obtain ⟨rest', hrest', hnext⟩ := exists_behindStars_append ls hrest
      have hlead : dataProviderPattern.Misses "\n * ".toList (line ++ '\n' :: ' ' :: rest') :=
        dataProvider.misses_of_not_mem (by decide) _
      rw [behindStars_cons_append, hnext, foundAll_append_of_misses rfl hlead,
        foundAll_append rfl (dataProviderPattern_follows_nextLine hrest'), ← hnext, ih,
        List.flatMap_cons, List.append_assoc]

/-- The first expected exception behind the stars is that of the first line that has one. -/
theorem found_expectedException_behindStars (hrest : Stops (· != '*') rest)
    {ls : List (List Char)} (h : ∀ line ∈ ls, '\n' ∉ line) :
    expectedExceptionPattern.found (behindStars ls ++ '\n' :: ' ' :: rest)
      = (ls.findSome? expectedExceptionPattern.found).or
        (expectedExceptionPattern.found ('\n' :: ' ' :: rest)) := by
  induction ls with
  | nil => rfl
  | cons line ls ih =>
      rw [List.forall_mem_cons] at h
      obtain ⟨rest', hrest', hnext⟩ := exists_behindStars_append ls hrest
      have hlead : expectedExceptionPattern.Misses "\n * ".toList (line ++ '\n' :: ' ' :: rest') :=
        expectedException.misses_of_not_mem (by decide) _
      have hline : ∀ t, t <:+ line →
          expectedExceptionPattern.preferred (t ++ '\n' :: ' ' :: rest')
            = expectedExceptionPattern.preferred t := by
        intro t ht
        apply expectedExceptionPattern_agrees_nextLine hrest'
        exact fun c hc hfeed => h.1 (hfeed ▸ ht.mem hc)
      rw [behindStars_cons_append, hnext, found_append_of_misses hlead, found_append rfl hline,
        ← hnext, ih h.2, ← Option.or_assoc, List.findSome?_cons]
      cases expectedExceptionPattern.found line <;> rfl

end Dialect

open LiteralRows

variable {ls : List (List Char)}

/-- The symbol with a comment of the given lines, each behind its star. -/
def Symbol.commented (s : Symbol) (ls : List (List Char)) : Symbol :=
  { s with docComment := String.ofList (lineBlock ls) }

theorem Symbol.toList_docComment_commented (s : Symbol) (ls : List (List Char)) :
    (s.commented ls).docComment.toList = lineBlock ls :=
  String.toList_ofList

theorem Dialect.foundAll_dataProvider_lineBlock (ls : List (List Char)) :
    dataProviderPattern.foundAll (lineBlock ls) = ls.flatMap dataProviderPattern.foundAll := by
  have hstart : dataProviderPattern.Misses "/**".toList (behindStars ls ++ "\n */".toList) :=
    dataProvider.misses_of_not_mem (by decide) _
  have hclosing : dataProviderPattern.Misses "\n */".toList [] :=
    dataProvider.misses_of_not_mem (by decide) _
  have hend : dataProviderPattern.foundAll "\n */".toList = [] := by
    rw [← List.append_nil "\n */".toList, foundAll_append_of_misses rfl hclosing, foundAll_nil rfl]
  have hbody : "\n */".toList = '\n' :: ' ' :: "*/".toList := rfl
  have hrest : Stops (· != '*') "*/".toList := (stops_cons ..).mpr rfl
  rw [lineBlock, foundAll_append_of_misses rfl hstart, hbody,
    foundAll_dataProvider_behindStars hrest ls, ← hbody, hend, List.append_nil]

/-- A comment expects what the first of its lines that expects something does. -/
theorem Dialect.found_expectedException_lineBlock (h : ∀ line ∈ ls, '\n' ∉ line) :
    expectedExceptionPattern.found (stripDelimiters (lineBlock ls))
      = ls.findSome? expectedExceptionPattern.found := by
  have hclosing : expectedExceptionPattern.Misses "\n ".toList [] :=
    expectedException.misses_of_not_mem (by decide) _
  have hend : expectedExceptionPattern.found "\n ".toList = none := by
    rw [← List.append_nil "\n ".toList, found_append_of_misses hclosing, found_nil rfl]
  have hbody : "\n ".toList = '\n' :: ' ' :: [] := rfl
  rw [stripDelimiters_lineBlock, hbody, found_expectedException_behindStars (stops_nil _) h,
    ← hbody, hend, Option.or_none]

/-- The general tags of a comment are those of its lines. -/
theorem TagTable.tagsIn_lineBlock {comment : String} (hcomment : comment.toList = lineBlock ls)
    (h : ∀ line ∈ ls, '\n' ∉ line) : tagsIn comment = ls.filterMap tagOn? := by
  have hline : ∀ line, tagOn? (" * ".toList ++ line) = tagOn? line := by
    intro line
    rw [tagOn?, Dialect.tag?_append_of_not_mem _ (by decide), tagOn?]
  have hnone : ∀ blank : List Char, '@' ∉ blank → tagOn? blank = none := by
    intro blank hblank
    rw [tagOn?, Dialect.tag?_eq_none _ hblank, Option.map_none]
  rw [tagsIn, hcomment, stripDelimiters_lineBlock, splitAt_behindStars h, List.filterMap_cons,
    hnone [] (by decide), List.filterMap_append, List.filterMap_map, List.filterMap_cons,
    hnone " ".toList (by decide), List.filterMap_nil, List.append_nil]
  exact List.filterMap_congr fun line _ => hline line

end DocTags
