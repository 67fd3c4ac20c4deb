import DocTags.InlineTag
import DocTags.Proofs.Pattern.NextLine
import DocTags.Proofs.Tag.TrailingGaps
import DocTags.Proofs.Text.Surrogate
import DocTags.Proofs.Text.Utf8

/-!
# Inline annotations and where the lines come from

The lines of a symbol come with it or from its file. In a file every line is followed by a line end,
and lines that come with a symbol may still have theirs. The annotations are the same: the text of a
file is cut where its lines end and nowhere else, and a tag at the end of a line is found in front
of a line end as well.
-/

namespace DocTags

open Text

namespace Text

/-- The text that holds the characters. -/
def heldText (s : List Char) : String :=
  String.ofList (hold s)

theorem hold_append (s t : List Char) : hold (s ++ t) = hold s ++ hold t :=
  List.flatMap_append

/-- What holds characters has the same line ends as they have. -/
theorem mem_hold {c : Char} (hc : c.toNat ≠ guardPoint) {s : List Char} (h : c ∈ hold s) :
    c ∈ s := by
  obtain ⟨x, hx, hmem⟩ := List.mem_flatMap.mp h
  rw [charsOf_toNat] at hmem
  split at hmem
  · rcases List.mem_cons.mp hmem with rfl | hmem
    · exact absurd toNat_guard hc
    · exact List.mem_singleton.mp hmem ▸ hx
  · exact List.mem_singleton.mp hmem ▸ hx

/-- The ways to end a line. -/
def lineEnds : List (List Char) :=
  [['\n'], ['\r', '\n'], ['\r']]

theorem unifyLineEnds_append {a : List Char} (ha : '\r' ∉ a) (s : List Char) :
    unifyLineEnds (a ++ s) = a ++ unifyLineEnds s := by
  induction a with
  | nil => rfl
  | cons c a ih =>
      rw [List.mem_cons, not_or] at ha
      rw [List.cons_append, unifyLineEnds, ih ha.2, List.cons_append]
      · rintro t rfl
        exact absurd rfl ha.1
      · exact fun h => ha.1 h.symm

/-- A line end becomes a line feed. A return alone does so in front of anything but a line feed. -/
theorem unifyLineEnds_lineEnd {e : List Char} (he : e ∈ lineEnds) {s : List Char}
    (hs : e = ['\r'] → s.head? ≠ some '\n') : unifyLineEnds (e ++ s) = '\n' :: unifyLineEnds s := by
  simp only [lineEnds, List.mem_cons, List.not_mem_nil, or_false] at he
  rcases he with rfl | rfl | rfl
  · rfl
  · rfl
  · rw [List.singleton_append, unifyLineEnds]
    rintro t rfl
    exact hs rfl rfl

/-- Lines with their ends, whatever these are, are the lines with line feeds. -/
theorem unifyLineEnds_flatMap {e : List Char} (he : e ∈ lineEnds) {ls : List (List Char)}
    (hls : ∀ line ∈ ls, '\n' ∉ line ∧ '\r' ∉ line) :
    unifyLineEnds (ls.flatMap (· ++ e)) = ls.flatMap (· ++ ['\n']) := by
  induction ls with
  | nil => rfl
  | cons line ls ih =>
      rw [List.forall_mem_cons] at hls
      have hhead : e = ['\r'] → (ls.flatMap (· ++ e)).head? ≠ some '\n' := by
        rintro rfl
        cases ls with
        | nil => exact nofun
        | cons next ls =>
            have hnext : '\n' ∉ next := (hls.2 next List.mem_cons_self).1
            cases next with
            | nil => exact fun h => absurd (Option.some.inj h) (by decide)
            | cons c next => exact fun h => hnext (Option.some.inj h ▸ List.mem_cons_self)
      rw [List.flatMap_cons, List.flatMap_cons, List.append_assoc, unifyLineEnds_append hls.1.2,
        unifyLineEnds_lineEnd he hhead, ih hls.2, List.append_assoc, List.singleton_append]

/-- Lines with line feeds are joined lines with one more line feed. -/
theorem flatMap_feed_eq_join {ls : List (List Char)} (hne : ls ≠ []) :
    ls.flatMap (· ++ ['\n']) = join ['\n'] ls ++ ['\n'] := by
  obtain ⟨first, rest, rfl⟩ := List.exists_cons_of_ne_nil hne
  induction rest generalizing first with
  | nil => simp [join]
  | cons second rest ih =>
      have hrest := ih second (List.cons_ne_nil second rest)
      rw [List.flatMap_cons, hrest, join_cons_eq_flatMap, join_cons_eq_flatMap, List.flatMap_cons]
      simp only [List.append_assoc, List.cons_append, List.nil_append]

end Text

open Text

namespace InlineTag

/-- The lines of a file are found again, whatever ends them. -/
theorem linesOf_flatMap {ls : List (List Char)} (hne : ls ≠ []) (hls : ∀ line ∈ ls, '\n' ∉ line) :
    linesOf (ls.flatMap (· ++ ['\n'])) = ls := by
  rw [linesOf, flatMap_feed_eq_join hne, List.getLast?_concat, if_pos rfl, List.dropLast_concat,
    splitAt_join hne hls]

theorem mem_hold_lines {ls : List (List Char)} (hls : ∀ line ∈ ls, '\n' ∉ line ∧ '\r' ∉ line) :
    ∀ line ∈ ls.map hold, '\n' ∉ line ∧ '\r' ∉ line := by
  rintro _ hline
  obtain ⟨line, hmem, rfl⟩ := List.mem_map.mp hline
  exact ⟨fun h => (hls line hmem).1 (mem_hold (by decide) h),
    fun h => (hls line hmem).2 (mem_hold (by decide) h)⟩

/-- The text of a file of lines that all end in the same way. -/
theorem readText_lines {disk : Disk} {path : String} {ls : List (List Char)} {e : List Char}
    (he : e ∈ lineEnds) (hls : ∀ line ∈ ls, '\n' ∉ line ∧ '\r' ∉ line)
    (hread : disk.read path = .ok ((ls.flatMap (· ++ e)).flatMap String.utf8EncodeChar)) :
    disk.readText path = .ok ((ls.map hold).flatMap (· ++ ['\n'])) := by
  have hhold : hold (ls.flatMap (· ++ e)) = (ls.map hold).flatMap (· ++ e) := by
    have hend : hold e = e := by
      simp only [lineEnds, List.mem_cons, List.not_mem_nil, or_false] at he
      rcases he with rfl | rfl | rfl <;> decide
    rw [hold, List.flatMap_assoc, List.flatMap_map]
    congr 1
    funext line
    rw [← hold, hold_append, hend]
  have hdecoded := Utf8.decode_encode (ls.flatMap (· ++ e))
  simp only [Disk.readText, hread, bind, Except.bind, hdecoded]
  rw [hhold, unifyLineEnds_flatMap he (mem_hold_lines hls)]

end InlineTag

namespace Dialect

open Pattern

/-- The line ends that start with a return. -/
def returnEnds : List (List Char) :=
  [['\r'], ['\r', '\n']]

/-- The end of a comment and then that of the line. -/
def commentEnd : Pattern Field :=
  chain [chars isGap, opt (char (· == '\r')), lit "*/".toList, opt (char (· == '\r')), lineEnd]

/-- A character of a line. -/
def IsLineChar (c : Char) : Prop :=
  c ≠ '\n' ∧ c ≠ '\r'

variable {e : List Char}

theorem exists_eq_cons_of_returnEnds (he : e ∈ returnEnds) :
    ∃ t, e = '\r' :: t ∧ ∀ c ∈ t, c = '\n' := by
  simp only [returnEnds, List.mem_cons, List.not_mem_nil, or_false] at he
  rcases he with rfl | rfl
  · exact ⟨[], rfl, by simp⟩
  · exact ⟨['\n'], rfl, by simp⟩

/-- A pattern that looks at nothing but characters and reads no return does not notice a line end
with one. -/
theorem follows_returnEnd {p : Pattern Field} (he : e ∈ returnEnds) (hplain : p.isPlain = true)
    (hp : p.avoids '\r' = true) : p.Follows (· ++ e) := by
  obtain ⟨t, rfl, -⟩ := exists_eq_cons_of_returnEnds he
  exact follows_append hplain hp

theorem commentEnd_agrees (he : e ∈ returnEnds) : commentEnd.Agrees (· ++ e) IsLineChar := by
  -- Behind the comment there is nothing but the line end.
  have hline : (seq (opt (char (· == '\r'))) lineEnd : Pattern Field).Agrees (· ++ e)
      IsLineChar := by
    refine agrees_of_names_eq_nil rfl fun s hs => ?_
    cases s with
    | nil =>
        simp only [returnEnds, List.mem_cons, List.not_mem_nil, or_false] at he
        rcases he with rfl | rfl <;> simp [Fails, opt, outcomes, followedBy]
    | cons c s =>
        obtain ⟨hfeed, hreturn⟩ := hs c List.mem_cons_self
        simp [Fails, opt, outcomes, hfeed, hreturn]
  have hmark : (lit "*/".toList : Pattern Field).Follows (· ++ e) := follows_returnEnd he rfl rfl
  have hclosing := hmark.seq_agrees hline
  -- A return in front of the end of the comment stands behind no line.
  have hreturn : (seq (char (· == '\r')) (seq (lit "*/".toList)
      (seq (opt (char (· == '\r'))) lineEnd)) : Pattern Field).Agrees (· ++ e) IsLineChar := by
    refine agrees_of_names_eq_nil rfl fun s hs => ?_
    cases s with
    | nil =>
        simp only [returnEnds, List.mem_cons, List.not_mem_nil, or_false] at he
        rcases he with rfl | rfl <;> simp [Fails, lit, outcomes]
    | cons c s => simp [Fails, outcomes, (hs c List.mem_cons_self).2]
  have hgaps : (chars isGap : Pattern Field).Follows (· ++ e) := follows_returnEnd he rfl rfl
  exact hgaps.seq_agrees (hreturn.opt_seq hclosing)

/-- The value of a tag, up to the end of its comment, takes in nothing of the line end. -/
theorem lazyFrom_returnEnd (he : e ∈ returnEnds) {s : List Char} (hs : ∀ c ∈ s, IsLineChar c)
    (start : List Char) : lazyFrom inLine Field.value commentEnd (start ++ e) (s ++ e)
      = lazyFrom inLine Field.value commentEnd start s := by
  induction s with
  | nil =>
      simp only [returnEnds, List.mem_cons, List.not_mem_nil, or_false] at he
      rcases he with rfl | rfl <;> rfl
  | cons x s ih =>
      have hself := commentEnd_agrees he (x :: s) hs
      have htext := text_append_append start (x :: s) e
      simp only [List.cons_append] at hself htext ⊢
      rw [lazyFrom_cons, lazyFrom_cons, hself, htext, ih (List.forall_mem_cons.mp hs).2]

theorem value_commentEnd_agrees (he : e ∈ returnEnds) :
    (seq (group Field.value (star .lazy (char inLine))) commentEnd).Agrees (· ++ e)
      IsLineChar := by
  intro s hs
  rw [preferred_group_star_lazy, preferred_group_star_lazy, lazyFrom_returnEnd he hs s]

theorem inlinePattern_agrees (he : e ∈ returnEnds) :
    inlinePattern.Agrees (· ++ e) IsLineChar := by
  have hopening : (lit "/*".toList : Pattern Field).Follows (· ++ e) :=
    follows_returnEnd he rfl rfl
  have hstar : (opt (char (· == '*')) : Pattern Field).Follows (· ++ e) :=
    follows_returnEnd he rfl rfl
  have hsign : (char (· == '@') : Pattern Field).Follows (· ++ e) := follows_returnEnd he rfl rfl
  have hname : (group Field.name (chars1 isTagChar)).Follows (· ++ e) :=
    follows_returnEnd he rfl rfl
  have hgaps : (chars1 isGap : Pattern Field).Follows (· ++ e) := follows_returnEnd he rfl rfl
  have hvalue := (hgaps.seq_agrees (value_commentEnd_agrees he)).seq_assoc.opt_seq
    (commentEnd_agrees he)
  have htag : (seq namedValue commentEnd).Agrees (· ++ e) IsLineChar :=
    (hsign.seq_agrees (hname.seq_agrees hvalue).seq_assoc).seq_assoc
  -- Blanks can be read across the line end, but no tag stands behind it.
  have hblanks : (seq blanks (seq namedValue commentEnd)).Agrees (· ++ e) IsLineChar := by
    simp only [returnEnds, List.mem_cons, List.not_mem_nil, or_false] at he
    rcases he with rfl | rfl
    · exact htag.chars_seq rfl
    · exact htag.chars_seq rfl
  exact hopening.seq_agrees (hstar.seq_agrees hblanks)

/-- With its end, a line has the same tag as without it. -/
theorem found_append_returnEnd (he : e ∈ returnEnds) {line : List Char}
    (hline : ∀ c ∈ line, IsLineChar c) :
    inlinePattern.found (line ++ e) = inlinePattern.found line := by
  have hmark : '/' ∉ e := by
    simp only [returnEnds, List.mem_cons, List.not_mem_nil, or_false] at he
    rcases he with rfl | rfl <;> decide
  have hstart : ∀ t, Stops (· == '/') t → inlinePattern.Fails t :=
    fun t ht => fails_seq_left (fails_seq_left (fails_char ht))
  have hend : inlinePattern.found e = none := by
    rw [found, search?_eq_none_of_mark hstart hmark, Option.map_none]
  rw [found_append rfl, hend, Option.or_none]
  exact fun t ht => inlinePattern_agrees he t fun c hc => hline c (ht.mem hc)

end Dialect

namespace InlineTag

open Dialect Pattern

variable {ls : List (List Char)} {e : List Char}

theorem ofLine?_eq_map_found (number : Nat) (text : String) :
    ofLine? number text = (inlinePattern.found text.toList).map fun read =>
      (TagTable.lowerName (partOf read .name), ⟨number, String.ofList (partOf read .value)⟩) := by
  rw [ofLine?, found, Option.map_map]
  simp only [Function.comp_def, Match.groupD_eq_partOf]

/-- Lines that read the same have the same annotations. -/
theorem ofLines_map_congr {ι : Type} {line line' : ι → String} {is : List ι}
    (h : ∀ i ∈ is, ∀ number, ofLine? number (line i) = ofLine? number (line' i))
    (start stop : Int) : ofLines start stop (is.map line) = ofLines start stop (is.map line') := by
  rw [ofLines, ofLines, List.zipIdx_map, List.zipIdx_map, List.filter_map, List.filter_map,
    List.filterMap_map, List.filterMap_map]
  congr 1
  apply List.filterMap_congr
  intro l hl
  exact h l.1 (List.fst_mem_of_mem_zipIdx (List.mem_filter.mp hl).1) l.2

/-- Lines that still have their returns have the same annotations. -/
theorem ofLines_returnEnds (he : e ∈ returnEnds) (hls : ∀ line ∈ ls, '\n' ∉ line ∧ '\r' ∉ line)
    (start stop : Int) :
    ofLines start stop (ls.map fun line => heldText (line ++ e))
      = ofLines start stop (ls.map heldText) := by
  refine ofLines_map_congr (fun line hline number => ?_) start stop
  have hend : hold e = e := by
    simp only [returnEnds, List.mem_cons, List.not_mem_nil, or_false] at he
    rcases he with rfl | rfl <;> decide
  have hchars : ∀ c ∈ hold line, IsLineChar c := by
    intro c hc
    have hmem := mem_hold_lines hls (hold line) (List.mem_map_of_mem hline)
    exact ⟨fun h => hmem.1 (h ▸ hc), fun h => hmem.2 (h ▸ hc)⟩
  rw [ofLine?_eq_map_found, ofLine?_eq_map_found, heldText, heldText, String.toList_ofList,
    String.toList_ofList, hold_append, hend, found_append_returnEnd he hchars]

/-- The annotations of a symbol whose lines are in a file, whatever line end they have there, are
those of the same lines given with the symbol, with or without a return or a return and a line feed
at the end of each. -/
theorem ofSymbol_lineSources (disk : Disk) (s : Symbol) (hne : ls ≠ [])
    (hls : ∀ line ∈ ls, '\n' ∉ line ∧ '\r' ∉ line) (he : e ∈ lineEnds)
    (hread : disk.read s.filePath = .ok ((ls.flatMap (· ++ e)).flatMap String.utf8EncodeChar)) :
    ∃ found, ofSymbol disk { s with sourceLines := none } = .ok found
      ∧ ofSymbol disk { s with sourceLines := some (ls.map heldText) } = .ok found
      ∧ ∀ kept ∈ returnEnds,
        ofSymbol disk { s with sourceLines := some (ls.map fun line => heldText (line ++ kept)) }
          = .ok found := by
  have hheld := mem_hold_lines hls
  have hlines : linesOf ((ls.map hold).flatMap (· ++ ['\n'])) = ls.map hold :=
    linesOf_flatMap (mt List.map_eq_nil_iff.mp hne) fun line hline => (hheld line hline).1
  have hsource : sourceLines disk { s with sourceLines := none } = .ok (ls.map heldText) := by
    change (disk.readText s.filePath).map (fun text => (linesOf text).map String.ofList) = _
    rw [readText_lines he hls hread]
    change Except.ok ((linesOf _).map String.ofList) = _
    rw [hlines, List.map_map]
    rfl
  refine ⟨ofLines s.startLine s.endLine (ls.map heldText), ?_, rfl, fun kept hkept => ?_⟩
  · rw [ofSymbol, hsource]
    rfl
  · exact congrArg Except.ok (ofLines_returnEnds hkept hls s.startLine s.endLine)

/-- Two lines, the first of which holds a character at which other texts are cut into lines. -/
def sizedLines : List (List Char) :=
  ["$sum = 0;\u2028".toList, "$sum += 1; /** @Size big */".toList]

/-- The lines in a file, with a return at the end of each. -/
def sizedDisk : Disk :=
  { files := [("/cart.php", (sizedLines.flatMap (· ++ ['\r'])).flatMap String.utf8EncodeChar)] }

/-- The symbol in these lines. -/
def sizedSymbol : Symbol :=
  { docComment := "", filePath := "/cart.php", startLine := 1, endLine := 2,
    declaringType := .null, member := .null, traitComments := [], isTypeLevel := false,
    sourceLines := none }

/-- The size is found on the second line, wherever the lines come from. -/
theorem ofSymbol_sized : sizedLines ≠ [] ∧ (∀ line ∈ sizedLines, '\n' ∉ line ∧ '\r' ∉ line)
    ∧ ['\r'] ∈ lineEnds
    ∧ sizedDisk.read sizedSymbol.filePath
      = .ok ((sizedLines.flatMap (· ++ ['\r'])).flatMap String.utf8EncodeChar)
    ∧ ofSymbol sizedDisk sizedSymbol = .ok [("size", ⟨2, "big"⟩)]
    ∧ ∀ kept ∈ returnEnds, ofSymbol sizedDisk
      { sizedSymbol with sourceLines := some (sizedLines.map fun line => heldText (line ++ kept)) }
        = .ok [("size", ⟨2, "big"⟩)] := by
  have hne : sizedLines ≠ [] := by decide
  have hls : ∀ line ∈ sizedLines, '\n' ∉ line ∧ '\r' ∉ line := by decide
  have he : ['\r'] ∈ lineEnds := by decide
  have hread : sizedDisk.read sizedSymbol.filePath
      = .ok ((sizedLines.flatMap (· ++ ['\r'])).flatMap String.utf8EncodeChar) := by decide
  obtain ⟨found, hfile, hgiven, hkept⟩ :=
    ofSymbol_lineSources sizedDisk sizedSymbol hne hls he hread
  have hfound :
      ofSymbol sizedDisk { sizedSymbol with sourceLines := some (sizedLines.map heldText) }
        = .ok [("size", ⟨2, "big"⟩)] := by rfl
  obtain rfl := Except.ok.inj (hgiven.symm.trans hfound)
  exact ⟨hne, hls, he, hread, hfile, hkept⟩

end InlineTag

end DocTags
