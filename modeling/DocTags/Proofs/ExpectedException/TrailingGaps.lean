import DocTags.Proofs.ExpectedException.Spellings
import DocTags.Proofs.Query.LineEnds
import DocTags.Proofs.Tag.PaddedComments

/-!
# Expected exceptions and gaps at the ends of lines

A line that names an exception may leave its message and its code to tags of their own. Gaps behind
such a line are read as the next part that it leaves open, with an empty text, and the empty text
comes before the tag. Apart from that, gaps in front of the line feeds of a comment do not change
what a symbol expects.
-/

namespace DocTags

open Text Pattern Dialect TagTable

namespace ExpectedException

variable {gaps last s t : List Char}

/-- No code is read, and no empty message. -/
def LeavesOpen (read : List (Field × List Char)) : Prop :=
  ∀ x ∈ read, x.1 ≠ .code ∧ x ≠ (.message, [])

/-- The next part to be read: the message, and behind a message the code. -/
def openPart (read : List (Field × List Char)) : Field :=
  if read.any (·.1 = .message) then .code else .message

/-- The same is read, or the open part is read besides, with an empty text. -/
def Widens (read read' : List (Field × List Char)) : Prop :=
  read' = read ∨ LeavesOpen read ∧ read' = (openPart read, []) :: read

theorem widens_refl (read : List (Field × List Char)) : Widens read read :=
  .inl rfl

theorem widens_nil : Widens [] [(.message, [])] :=
  .inr ⟨List.forall_mem_nil _, rfl⟩

theorem widens_message {text : List Char} (hne : text ≠ []) :
    Widens [(.message, text)] [(.code, []), (.message, text)] := by
  refine .inr ⟨?_, rfl⟩
  intro x hx
  obtain rfl := List.mem_singleton.mp hx
  simpa using hne

/-- What else is read does not matter if it is neither message nor code. -/
theorem Widens.append {read read' other : List (Field × List Char)} (h : Widens read read')
    (hother : ∀ x ∈ other, x.1 = .name) : Widens (read ++ other) (read' ++ other) := by
  rcases h with rfl | ⟨hopen, rfl⟩
  · exact .inl rfl
  · have hnone : other.any (·.1 = .message) = false := by
      rw [List.any_eq_false]
      intro x hx
      simp [hother x hx]
    refine .inr ⟨List.forall_mem_append.mpr ⟨hopen, fun x hx => ?_⟩, ?_⟩
    · constructor
      · rw [hother x hx]
        decide
      · rintro rfl
        exact absurd (hother _ hx) (by decide)
    · rw [openPart, openPart, List.any_append, hnone, Bool.or_false, List.cons_append]

/-- The code and the end of the line. -/
def codeAndEnd : Pattern Field :=
  seq (opt (seq (chars1 isGap) (group .code (chars fun c => !isBlank c)))) (seq blanks lineEnd)

/-- The message, in quotes or as a word. -/
def messageText : Pattern Field :=
  group .message (alt quotedPattern (chars fun c => !isBlank c))

/-- What stands on the line behind the type. -/
def behindType : Pattern Field :=
  seq (opt (seq (chars1 isGap) messageText)) codeAndEnd

theorem rel_codeAndEnd (hgaps : AreGaps gaps) (hs : IsLine s) :
    Option.Rel (fun a b => b = a ∨ s = [] ∧ a = [] ∧ b = [(.code, [])])
      (codeAndEnd.preferred s) (codeAndEnd.preferred (s ++ gaps)) := by
  have hcode : FollowsGaps (group Field.code (chars fun c => !isBlank c)) :=
    followsGaps_of_isPlain rfl rfl rfl
  exact rel_opt_gaps (hcode.seq_ignores ignoresGaps_blanks_lineEnd) ignoresGaps_blanks_lineEnd
    rfl rfl hgaps hs

theorem followsGaps_messageText : FollowsGaps messageText := by
  have hword : FollowsGaps (chars fun c => !isBlank c : Pattern Field) :=
    followsGaps_of_isPlain rfl rfl rfl
  exact (followsGaps_quotedPattern.alt hword).group .message

theorem texts_of_messageText {c : Captures Field} (h : messageText.Yields s [] c) :
    texts c = [(.message, s)] := by
  obtain ⟨c', hread, rfl⟩ := yields_group.mp h
  obtain rfl := hread.eq_nil rfl
  rw [texts, List.map_cons, Span.text_nil]
  rfl

/-- Behind a message that ends its line, gaps are read as an empty code. -/
theorem rel_message (hgaps : AreGaps gaps) (hs : IsLine s) :
    Option.Rel (fun a b => b = a ∨ a = [(.message, s)] ∧ b = [(.code, []), (.message, s)])
      ((seq messageText codeAndEnd).preferred s)
      ((seq messageText codeAndEnd).preferred (s ++ gaps)) := by
  refine (followsGaps_messageText gaps hgaps).rel_seq fun r hr => ?_
  have hrest : IsLine r.1 := hs.of_suffix (suffix_of_mem_outcomes _ s r hr)
  refine rel_mono ?_ (rel_codeAndEnd hgaps hrest)
  rintro a b (rfl | ⟨hnil, rfl, rfl⟩)
  · exact .inl rfl
  · have hread : messageText.Yields s [] r.2 := hnil ▸ hr
    rw [texts_of_messageText hread]
    exact .inr ⟨rfl, rfl⟩

/-- Gaps alone are read as an empty message. -/
theorem preferred_gaps_message (h : AreGaps gaps) :
    (seq (chars isGap) (seq messageText codeAndEnd)).preferred gaps = some [(.message, [])] := by
  induction gaps with
  | nil =>
      rw [preferred_chars_seq_nil]
      rfl
  | cons y gaps ih =>
      obtain ⟨hy, hgaps⟩ := areGaps_cons.mp h
      rw [preferred_chars_seq_cons, if_pos hy, ih hgaps, Option.some_or]

theorem rel_gaps_message (hgaps : AreGaps gaps) (hs : IsLine s) :
    Option.Rel Widens ((seq (chars isGap) (seq messageText codeAndEnd)).preferred s)
      ((seq (chars isGap) (seq messageText codeAndEnd)).preferred (s ++ gaps)) := by
  induction s with
  | nil =>
      rw [List.nil_append, preferred_gaps_message hgaps,
        preferred_gaps_message (List.forall_mem_nil _)]
      exact .some (widens_refl _)
  | cons x s ih =>
      rw [List.cons_append, preferred_chars_seq_cons, preferred_chars_seq_cons]
      refine rel_or ?_ (rel_mono ?_ (rel_message hgaps hs))
      · cases isGap x with
        | false => exact .none
        | true => exact ih (isLine_cons.mp hs).2
      · rintro a b (rfl | ⟨rfl, rfl⟩)
        · exact widens_refl _
        · exact widens_message (List.cons_ne_nil x s)

/-- Gaps at the end of the line widen what is read behind the type. -/
theorem rel_behindType (hgaps : AreGaps gaps) (hs : IsLine s) :
    Option.Rel Widens (behindType.preferred s) (behindType.preferred (s ++ gaps)) := by
  rw [behindType, preferred_opt_seq_eq, preferred_opt_seq_eq, preferred_seq_assoc,
    preferred_seq_assoc]
  cases s with
  | nil =>
      have hnone : (seq (chars1 isGap) (seq messageText codeAndEnd)).preferred [] = none := rfl
      have hend : codeAndEnd.preferred [] = some [] := rfl
      rw [List.nil_append, hnone, hend, Option.none_or]
      cases gaps with
      | nil => exact .some (widens_refl _)
      | cons y gaps =>
          obtain ⟨hy, hgaps⟩ := areGaps_cons.mp hgaps
          rw [preferred_chars1_seq_cons, if_pos hy, preferred_gaps_message hgaps, Option.some_or]
          exact .some widens_nil
  | cons x s =>
      rw [List.cons_append, preferred_chars1_seq_cons, preferred_chars1_seq_cons]
      refine rel_or ?_ (rel_mono ?_ (rel_codeAndEnd hgaps hs))
      · cases isGap x with
        | false => exact .none
        | true => exact rel_gaps_message hgaps (isLine_cons.mp hs).2
      · rintro a b (rfl | ⟨hnil, -⟩)
        · exact widens_refl _
        · exact absurd hnil (List.cons_ne_nil x s)

/-- The type itself does not notice the gaps. -/
theorem rel_exceptionParts_line (hgaps : AreGaps gaps) (hs : IsLine s) :
    Option.Rel Widens (exceptionParts.preferred s) (exceptionParts.preferred (s ++ gaps)) := by
  have htype : FollowsGaps (group Field.name (chars1 isTypeChar)) :=
    followsGaps_of_isPlain rfl rfl rfl
  have hparts : exceptionParts = seq (group .name (chars1 isTypeChar)) behindType := rfl
  rw [hparts]
  refine (htype gaps hgaps).rel_seq fun r hr => ?_
  have hrest : IsLine r.1 := hs.of_suffix (suffix_of_mem_outcomes _ s r hr)
  have hname : ∀ x ∈ texts r.2, x.1 = .name := eq_of_mem_texts rfl hr
  exact rel_mono (fun a b h => h.append hname) (rel_behindType hgaps hrest)

theorem rel_exceptionParts (h : Padded last s t) (hlast : AreGaps last) (hreturn : '\r' ∉ s) :
    Option.Rel Widens (exceptionParts.preferred s) (exceptionParts.preferred t) := by
  obtain ⟨line, hfeed, hends⟩ := h.exists_line
  have hline : ∀ e, s = line ++ e → IsLine line := by
    rintro e rfl c hc
    exact ⟨fun h => hfeed (h ▸ hc), fun h => hreturn (List.mem_append_left e (h ▸ hc))⟩
  rcases hends with ⟨rfl, rfl⟩ | ⟨gaps, s', t', hgaps, -, rfl, rfl⟩
  · exact rel_exceptionParts_line hlast (hline [] (List.append_nil _).symm)
  · -- neither text is read beyond its first line
    have hs := hline _ rfl
    have hgapped := hs.append hgaps.isLine
    have hleft := exceptionParts_agrees_append s' line fun c hc => (hs c hc).1
    have hright := exceptionParts_agrees_append t' (line ++ gaps) fun c hc => (hgapped c hc).1
    rw [← List.append_assoc, hleft, hright]
    exact rel_exceptionParts_line hgaps hs

/-- In a padded text the first expected exception is read the same, or an empty text is read for the
part that it leaves open. -/
theorem rel_found_expectedException (h : Padded last s t) (hlast : AreGaps last)
    (hreturn : '\r' ∉ s) :
    Option.Rel Widens (expectedExceptionPattern.found s) (expectedExceptionPattern.found t) := by
  have hstart : ∀ u, Stops (fun c => !isBlank c) u → exceptionParts.Fails u := by
    intro u hu
    refine fails_seq_left (fails_group (fails_chars1 (hu.mono fun c hc => ?_)))
    rw [isBlank_of_isTypeChar hc]
    rfl
  have havoids : ∀ c, isGap c = true ∨ c = '\n' →
      (lit "@expectedException".toList : Pattern Field).avoids c = true := by
    rintro c (hc | rfl)
    · rcases eq_of_isGap hc with rfl | rfl <;> rfl
    · rfl
  refine h.rel_found hlast .expectedException fun s₁ t₁ hs₁ h₁ => ?_
  refine h₁.rel_seq hlast rfl rfl havoids fun s₂ t₂ hs₂ h₂ => ?_
  refine h₂.rel_blanks1_seq hlast hstart fun s₃ t₃ hs₃ h₃ => ?_
  exact rel_exceptionParts h₃ hlast fun hmem => hreturn (hs₁.mem (hs₂.mem (hs₃.mem hmem)))

/-- The exception that a declaration of the symbol gives, with its note in the log. -/
def reported (s : Symbol) (constants : Option ConstantLookup) (m : Match Field) :
    Run (Option ExpectedException) := do
  let expected ← Run.ofExcept (ofMatch s constants m)
  Run.note .debug "expected_exception_extracted"
    [("symbol", s.qualifiedName), ("type", .text expected.type)]
  return some expected

theorem ofSymbol_of_declaration? {s : Symbol} {m : Match Field} (hm : declaration? s = some m)
    (constants : Option ConstantLookup) : ofSymbol s constants = reported s constants m := by
  rw [ofSymbol, ← declaration?, hm]
  rfl

/-- The declaration with an empty text for the part that it leaves open. -/
def withEmpty (m : Match Field) : Match Field :=
  { m with captures := (openPart (texts m.captures), ⟨[], []⟩) :: m.captures }

theorem texts_withEmpty (m : Match Field) :
    texts (withEmpty m).captures = (openPart (texts m.captures), []) :: texts m.captures :=
  rfl

/-- Spaces and tabs in front of the line feeds of its comment do not change what a symbol expects,
unless the line that names the exception leaves a part of it open: then that part can be read as an
empty text, which comes before the tags. -/
theorem ofSymbol_padsComment {s : Symbol} {comment : String}
    (h : PadsComment s.docComment comment) (constants : Option ConstantLookup) :
    ofSymbol { s with docComment := comment } constants = ofSymbol s constants
    ∨ ∃ m, declaration? s = some m ∧ LeavesOpen (texts m.captures)
      ∧ ofSymbol { s with docComment := comment } constants
        = reported s constants (withEmpty m) := by
  have hown : TagTable.ofComment comment = TagTable.ofComment s.docComment := ofComment_padded h
  have htags : TagTable.ofSymbol { s with docComment := comment } = TagTable.ofSymbol s :=
    TagTable.ofSymbol_padded h
  have hname : ({ s with docComment := comment } : Symbol).qualifiedName = s.qualifiedName := rfl
  obtain ⟨last, hlast, hbody⟩ := h.exists_stripDelimiters
  have hfound := rel_found_expectedException hbody hlast h.not_mem_stripDelimiters
  generalize hread : expectedExceptionPattern.found (stripDelimiters s.docComment.toList) = read
    at hfound
  generalize hread' : expectedExceptionPattern.found (stripDelimiters comment.toList) = read'
    at hfound
  have hsame : read' = read →
      ofSymbol { s with docComment := comment } constants = ofSymbol s constants := by
    intro heq
    exact ofSymbol_congr hname hown htags (hread'.trans (heq.trans hread.symm)) constants
  cases hfound with
  | none => exact .inl (hsame rfl)
  | @some u v hwidens =>
      rcases hwidens with rfl | ⟨hopen, rfl⟩
      · exact .inl (hsame rfl)
      · rw [found, Option.map_eq_some_iff] at hread hread'
        obtain ⟨m, hm, rfl⟩ := hread
        obtain ⟨m', hm', htexts⟩ := hread'
        refine .inr ⟨m, hm, hopen, ?_⟩
        have hempty : texts m'.captures = texts (withEmpty m).captures :=
          htexts.trans (texts_withEmpty m).symm
        have hmatch : ofMatch { s with docComment := comment } constants m'
            = ofMatch s constants (withEmpty m) :=
          ofMatch_congr (s := { s with docComment := comment }) hown htags hempty constants
        have hreported : ofSymbol { s with docComment := comment } constants
            = reported { s with docComment := comment } constants m' :=
          ofSymbol_of_declaration? (s := { s with docComment := comment }) hm' constants
        rw [hreported, reported, hmatch]
        rfl

/-- A symbol whose line gives every part of the exception. -/
def fullSymbol : Symbol :=
  ⟨"/**\n * @expectedException Odd \"a b\" 7\n */", "", 20, 25, .null, .null, [], false, none⟩

/-- Its comment with gaps in front of the line feeds. -/
def paddedComment : String :=
  "/** \n * @expectedException Odd \"a b\" 7\t \n */"

theorem padsComment_fullSymbol : PadsComment fullSymbol.docComment paddedComment where
  padded := by
    have hplain : fullSymbol.docComment.toList = "/**".toList ++ '\n' ::
        (" * @expectedException Odd \"a b\" 7".toList ++ '\n' :: (" */".toList ++ [])) := by
      decide +kernel
    have hpadded : paddedComment.toList = "/**".toList ++ ([' '] ++ '\n' ::
        (" * @expectedException Odd \"a b\" 7".toList ++ (['\t', ' '] ++ '\n' ::
          (" */".toList ++ [])))) := by
      decide +kernel
    rw [hplain, hpadded]
    exact (Padded.feed (by decide) ((Padded.feed (by decide) (Padded.nil.append (by decide))).append
      (by decide))).append (by decide)
  not_mem := by decide +kernel
  opens := by decide +kernel
  closes := by decide +kernel

/-- It expects the same with the gaps. -/
theorem ofSymbol_padsComment_full : PadsComment fullSymbol.docComment paddedComment
    ∧ paddedComment ≠ fullSymbol.docComment
    ∧ ofSymbol { fullSymbol with docComment := paddedComment } none = ofSymbol fullSymbol none := by
  refine ⟨padsComment_fullSymbol, by decide, ?_⟩
  have hline : (declaration? fullSymbol).map (fun m => texts m.captures)
      = some [(.code, ['7']), (.message, "\"a b\"".toList), (.name, "Odd".toList)] := by
    decide +kernel
  rcases ofSymbol_padsComment padsComment_fullSymbol none with hsame | ⟨m, hm, hopen, -⟩
  · exact hsame
  · have hread : texts m.captures
        = [(.code, ['7']), (.message, "\"a b\"".toList), (.name, "Odd".toList)] := by
      rw [hm] at hline
      exact Option.some.inj hline
    rw [hread] at hopen
    exact absurd rfl (hopen _ List.mem_cons_self).1

/-- A symbol that expects a code which a tag of its own gives. -/
def splitSymbol : Symbol :=
  ⟨"/**\n * @expectedException Odd oops\n * @expectedExceptionCode 5\n */", "", 20, 25, .null,
    .null, [], false, none⟩

/-- A space behind the message hides the code. -/
theorem not_forall_ofSymbol_padsComment :
    ¬ ∀ (s : Symbol) (comment : String) (constants : Option ConstantLookup),
      PadsComment s.docComment comment →
      (ofSymbol { s with docComment := comment } constants).result
        = (ofSymbol s constants).result := by
  intro h
  let comment : String := "/**\n * @expectedException Odd oops \n * @expectedExceptionCode 5\n */"
  have hplain : splitSymbol.docComment.toList = "/**".toList ++ '\n' ::
      (" * @expectedException Odd oops".toList ++ '\n' ::
        (" * @expectedExceptionCode 5".toList ++ '\n' :: (" */".toList ++ []))) := by
    decide +kernel
  have hpadded : comment.toList = "/**".toList ++ ([] ++ '\n' ::
      (" * @expectedException Odd oops".toList ++ ([' '] ++ '\n' ::
        (" * @expectedExceptionCode 5".toList ++ ([] ++ '\n' :: (" */".toList ++ [])))))) := by
    decide +kernel
  have hpads : PadsComment splitSymbol.docComment comment := by
    refine ⟨?_, by decide +kernel, by decide +kernel, by decide +kernel⟩
    rw [hplain, hpadded]
    exact (Padded.feed (by decide) ((Padded.feed (by decide) ((Padded.feed (by decide)
      (Padded.nil.append (by decide))).append (by decide))).append (by decide))).append (by decide)
  let padded : Symbol := { splitSymbol with docComment := comment }
  have hline : (declaration? splitSymbol).map (fun m => m.group? .code) = some none := by
    decide +kernel
  have hline' : (declaration? padded).map (fun m => m.group? .code) = some (some []) := by
    decide +kernel
  obtain ⟨m, hm, hcode⟩ := Option.map_eq_some_iff.mp hline
  obtain ⟨m', hm', hcode'⟩ := Option.map_eq_some_iff.mp hline'
  have htag : firstValue splitSymbol "expectedexceptioncode" = some "5" := by decide +kernel
  have hplainCode : givenCode splitSymbol none m = .text "5" := by
    rw [givenCode, inlineCode?, hcode, given?, htag]
    rfl
  have hpaddedCode : givenCode padded none m' = .text "" := by
    rw [givenCode, inlineCode?, hcode']
    rfl
  have hleft : (ofSymbol padded (lookup none)).result
      = .ok (some (given padded none m' (.text ""))) := by
    rw [ofSymbol_lookup, hm']
    simp only [hpaddedCode]
    rfl
  have hright : (ofSymbol splitSymbol (lookup none)).result
      = .ok (some (given splitSymbol none m (.int 5))) := by
    rw [ofSymbol_lookup, hm]
    simp only [hplainCode]
    rfl
  have hresult := hleft.symm.trans ((h splitSymbol comment none hpads).trans hright)
  have hcodes := congrArg ExpectedException.code (Option.some.inj (Except.ok.inj hresult))
  cases hcodes

end ExpectedException

end DocTags
