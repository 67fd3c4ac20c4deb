import DocTags.Proofs.DataSet.RowScan
import DocTags.Proofs.Json.Continuation
import DocTags.Proofs.Query.LineEnds
import DocTags.Proofs.Tag.CommentLines

/-!
# The mark that closes a comment

Of the two characters that close a comment only the last one is taken off. On a line of its own the
star in front of it goes with the decoration of that line. Behind a row it stays, and a row with a
star behind it is no list. So rows that can be read where the comment closes below them are refused
where it closes behind the last of them.
-/

namespace DocTags

namespace LiteralRows

open Text Pattern

/-- Blanks within a line. -/
def IsLineGap (gap : List Char) : Prop :=
  ∀ c ∈ gap, isBlank c = true ∧ c ≠ '\n' ∧ c ≠ '\r'

/-- The comment closes on a line of its own. -/
def closedBelow (lead text : List Char) : List Char :=
  text ++ '\n' :: (lead ++ "*/".toList)

/-- The comment closes on the line on which its text ends. -/
def closedBehind (gap text : List Char) : List Char :=
  text ++ (gap ++ "*/".toList)

variable {lead gap text front after : List Char} {rows : List (List Char)}

theorem IsLineGap.isBlank (h : IsLineGap gap) : ∀ c ∈ gap, isBlank c = true :=
  fun c hc => (h c hc).1

theorem IsLineGap.not_mem_feed (h : IsLineGap gap) : '\n' ∉ gap :=
  fun hmem => (h '\n' hmem).2.1 rfl

theorem IsLineGap.not_mem_return (h : IsLineGap gap) : '\r' ∉ gap :=
  fun hmem => (h '\r' hmem).2.2 rfl

theorem IsLineGap.not_mem_at (h : IsLineGap gap) : '@' ∉ gap :=
  fun hmem => absurd (h.isBlank '@' hmem) (by decide)

/-- The lines of a text without the returns at their ends and without decoration. -/
def plain (text : List Char) : List Char :=
  undecorated (dropReturns text)

theorem plain_append (front e : List Char) :
    plain (front ++ ']' :: e) = plain front ++ ']' :: plain e := by
  have hfollows : decoration.Follows (· ++ ']' :: dropReturns e) := follows_append rfl rfl
  have hbracket : undecorated (']' :: dropReturns e) = ']' :: undecorated (dropReturns e) :=
    undecorated_append (a := [']']) (by decide) _
  rw [plain, dropReturns_append_cons (by decide) (by decide), undecorated,
    replace_append rfl hfollows, ← undecorated, ← undecorated, hbracket, plain, plain]

theorem plain_closingLine (hlead : IsLineGap lead) :
    plain ('\n' :: (lead ++ "*/".toList)) = "\n/".toList := by
  have hmark : dropReturns "*/".toList = "*/".toList := rfl
  rw [plain, dropReturns_cons (.inl (by decide)), dropReturns_append hlead.not_mem_return, hmark,
    undecorated_closingLine hlead.isBlank]

theorem plain_gap (hgap : IsLineGap gap) : plain (gap ++ "*/".toList) = gap ++ "*/".toList := by
  have hmark : dropReturns "*/".toList = "*/".toList := rfl
  rw [plain, dropReturns_append hgap.not_mem_return, hmark, undecorated_of_not_mem]
  simpa using hgap.not_mem_feed

theorem clean_closedBelow (hlead : IsLineGap lead) :
    clean (closedBelow lead (front ++ [']'])) = plain front ++ [']'] := by
  have hplain : plain (closedBelow lead (front ++ [']']))
      = plain front ++ [']'] ++ ['\n'] ++ ['/'] := by
    rw [closedBelow, List.append_assoc, List.singleton_append, plain_append,
      plain_closingLine hlead, List.append_assoc, List.append_assoc]
    rfl
  rw [clean, ← undecorated, ← plain, hplain, List.dropLast_concat,
    dropEndWhile_append (by decide), dropEndWhile_eq_rdropWhile]
  exact List.rdropWhile_concat_neg _ _ _ (by decide)

theorem clean_closedBehind (hgap : IsLineGap gap) :
    clean (closedBehind gap (front ++ [']'])) = plain front ++ [']'] ++ (gap ++ ['*']) := by
  have hplain : plain (closedBehind gap (front ++ [']']))
      = plain front ++ [']'] ++ gap ++ ['*'] ++ ['/'] := by
    rw [closedBehind, List.append_assoc, List.singleton_append, plain_append, plain_gap hgap]
    simp
  rw [clean, ← undecorated, ← plain, hplain, List.dropLast_concat, dropEndWhile_eq_rdropWhile,
    List.rdropWhile_concat_neg _ _ _ (by decide), List.append_assoc]

/-- Behind a bracket only a tag of its own refers to a provider. -/
theorem references_append {e : List Char} (he : '@' ∉ e) :
    ProvidedData.references (front ++ ']' :: e) = ProvidedData.references front := by
  have hmisses : Dialect.dataProviderPattern.Misses (']' :: e) [] :=
    Dialect.dataProvider.misses_of_not_mem (by simpa using he) []
  have hnone := foundAll_append_of_misses rfl hmisses
  rw [List.append_nil, foundAll_nil rfl] at hnone
  rw [ProvidedData.references_eq_map_foundAll, foundAll_append rfl (follows_append rfl rfl), hnone,
    List.append_nil, ProvidedData.references_eq_map_foundAll]

/-- A row that can be read is refused with more than blanks behind it. -/
theorem readRow_append {depth : Nat} {row e : List Char} {d : Datum} (h : readRow depth row = .ok d)
    (he : Stops Json.isNumberChar e) (hsolid : ¬ Json.IsGap e) :
    readRow depth (row ++ e) = .error (.problem (.unreadableRow (String.ofList (row ++ e))
      Json.Fault.extraData.message)) := by
  rw [readRow, Json.read_append (Json.Policy.isStrict_literals depth) (readRow_eq_ok_iff.mp h) he
    hsolid]
  rfl

theorem readRow_star {depth : Nat} {row : List Char} {d : Datum} (hgap : IsLineGap gap)
    (h : readRow depth row = .ok d) :
    readRow depth (row ++ (gap ++ ['*'])) = .error (.problem (.unreadableRow
      (String.ofList (row ++ (gap ++ ['*']))) Json.Fault.extraData.message)) := by
  refine readRow_append h (stops_append (fun c hc => ?_) ((stops_cons ..).mpr (by decide))) ?_
  · exact eq_false_of_isBlank (by decide +kernel) (hgap.isBlank c hc)
  · exact fun hall => absurd (hall '*' (by simp)) (by decide)

/-- The text of a comment ends with literal rows: behind the word every line holds one, and the
bracket of the last one is the last character. -/
structure EndsWithRows (lead text : List Char) (rows : List (List Char)) : Prop where
  getLast? : text.getLast? = some ']'
  references : ProvidedData.references text = []
  lines : ∃ after, IsBehindWord (clean (closedBelow lead text)) after
    ∧ (splitAt '\n' after).map trim = rows
  head? : ∀ row ∈ rows, row.head? = some '['

/-- All lines behind the word are rows where the comment closes below them. -/
theorem EndsWithRows.areRowsOf_below (h : EndsWithRows lead text rows) :
    ∃ after, IsBehindWord (clean (closedBelow lead text)) after ∧ AreRowsOf after rows := by
  obtain ⟨after, hword, hlines⟩ := h.lines
  exact ⟨after, hword, [], by rw [hlines, List.append_nil], h.head?, by simp⟩

/-- Where the comment closes behind them, the last row has a star behind it. -/
theorem EndsWithRows.areRowsOf_behind (h : EndsWithRows lead text rows) (hlead : IsLineGap lead)
    (hgap : IsLineGap gap) :
    ∃ before row after, rows = before ++ [row]
      ∧ IsBehindWord (clean (closedBehind gap text)) after
      ∧ AreRowsOf after (before ++ [row ++ (gap ++ ['*'])]) := by
  obtain ⟨front, rfl⟩ := List.getLast?_eq_some_iff.mp h.getLast?
  obtain ⟨after, hword, hlines⟩ := h.lines
  have hfeed : '\n' ∉ gap ++ ['*'] := by simpa using hgap.not_mem_feed
  obtain ⟨before, last, hsplit, hmore, hlast, -⟩ := exists_splitAt_append after hfeed
  rw [hsplit, List.map_append, List.map_singleton] at hlines
  have hhead := h.head?
  rw [← hlines, List.forall_mem_append, List.forall_mem_singleton] at hhead
  have hne : last ≠ [] := by
    rintro rfl
    cases hhead.2
  have hsolid : EndsSolid last := by
    have hsuffix := hlast.trans hword.suffix
    rw [clean_closedBelow hlead] at hsuffix
    exact EndsSolid.of_suffix ⟨plain front, ']', rfl, by decide⟩ hsuffix hne
  have htrim : trim (last ++ (gap ++ ['*'])) = trim last ++ (gap ++ ['*']) :=
    hsolid.trim_append ⟨gap, '*', rfl, by decide⟩
  refine ⟨before.map trim, trim last, after ++ (gap ++ ['*']), hlines.symm, ?_, [], ?_, ?_,
    by simp⟩
  · have hafter : after ≠ [] := fun hnil => hne (List.suffix_nil.mp (hnil ▸ hlast))
    rw [clean_closedBehind hgap, ← clean_closedBelow hlead]
    exact hword.append hafter _
  · rw [hmore, List.map_append, List.map_singleton, htrim, List.append_nil]
  · refine List.forall_mem_append.mpr ⟨hhead.1, List.forall_mem_singleton.mpr ?_⟩
    rw [List.head?_append, hhead.2]
    rfl

end LiteralRows

/-- The symbol with another comment. -/
def Symbol.withDocComment (s : Symbol) (comment : List Char) : Symbol :=
  { s with docComment := String.ofList comment }

@[simp] theorem Symbol.toList_withDocComment (s : Symbol) (comment : List Char) :
    (s.withDocComment comment).docComment.toList = comment :=
  String.toList_ofList

namespace ProvidedData

open LiteralRows Text

variable {lead gap text : List Char} {rows : List (List Char)}

theorem references_eq_nil (hrows : EndsWithRows lead text rows) {e : List Char} (he : '@' ∉ e) :
    references (text ++ e) = [] := by
  obtain ⟨front, rfl⟩ := List.getLast?_eq_some_iff.mp hrows.getLast?
  rw [List.append_assoc, List.singleton_append, references_append he,
    ← references_append List.not_mem_nil, hrows.references]

theorem result_ofSymbol_closedBelow (r : Resolver) (s : Symbol) (hlead : IsLineGap lead)
    (hrows : EndsWithRows lead text rows) :
    (ofSymbol r (s.withDocComment (closedBelow lead text))).result
      = (rows.mapM (readRow r.rowDepth)).bind fun ds =>
        if ds = [] then .error (.problem .noLiteralRows) else .ok (some (number ds)) := by
  have hrefs : references (closedBelow lead text) = [] :=
    references_eq_nil hrows (by simpa using hlead.not_mem_at)
  obtain ⟨after, hword, hlines⟩ := hrows.areRowsOf_below
  rw [← s.toList_withDocComment (closedBelow lead text)] at hrefs hword
  exact result_ofSymbol_of_rows r hrefs hword hlines

theorem exists_result_ofSymbol_closedBehind (r : Resolver) (s : Symbol) (hlead : IsLineGap lead)
    (hgap : IsLineGap gap) (hrows : EndsWithRows lead text rows) :
    ∃ before row, rows = before ++ [row]
      ∧ (ofSymbol r (s.withDocComment (closedBehind gap text))).result
        = ((before ++ [row ++ (gap ++ ['*'])]).mapM (readRow r.rowDepth)).bind fun ds =>
          if ds = [] then .error (.problem .noLiteralRows) else .ok (some (number ds)) := by
  have hrefs : references (closedBehind gap text) = [] :=
    references_eq_nil hrows (by simpa using hgap.not_mem_at)
  obtain ⟨before, row, after, hlast, hword, hlines⟩ := hrows.areRowsOf_behind hlead hgap
  rw [← s.toList_withDocComment (closedBehind gap text)] at hrefs hword
  exact ⟨before, row, hlast, result_ofSymbol_of_rows r hrefs hword hlines⟩

/-- Literal rows that are read where the comment closes on a line of its own are never read where
it closes behind the last of them: the star of the closing mark is taken for a part of this row,
which is refused. -/
theorem ofSymbol_closedBehind (r : Resolver) (s : Symbol) (hlead : IsLineGap lead)
    (hgap : IsLineGap gap) (hrows : EndsWithRows lead text rows) {sets : List DataSet}
    (hsets : (ofSymbol r (s.withDocComment (closedBelow lead text))).result = .ok (some sets)) :
    ∃ row, rows.getLast? = some row
      ∧ (ofSymbol r (s.withDocComment (closedBehind gap text))).result
        = .error (.problem (.unreadableRow (String.ofList (row ++ (gap ++ ['*'])))
          Json.Fault.extraData.message)) := by
  rw [result_ofSymbol_closedBelow r s hlead hrows] at hsets
  obtain ⟨ds, hread, -⟩ := exists_of_bind_eq_ok hsets
  obtain ⟨before, row, rfl, hresult⟩ :=
    exists_result_ofSymbol_closedBehind r s hlead hgap hrows
  have hall := exists_of_mapM_eq_ok hread
  rw [List.forall_mem_append, List.forall_mem_singleton] at hall
  obtain ⟨hbefore, d, hrow⟩ := hall
  have hrefused := mapM_eq_error_iff.mpr ⟨before, _, [], rfl, hbefore, readRow_star hgap hrow⟩
  refine ⟨row, List.getLast?_concat, ?_⟩
  rw [hresult, hrefused]
  rfl

/-- A comment on one line with one row, up to its last row. -/
def oneLine : List Char :=
  "/** @testWith [1]".toList

theorem endsWithRows_oneLine : EndsWithRows [' '] oneLine ["[1]".toList] where
  getLast? := rfl
  references := by decide +kernel
  lines := ⟨"[1]".toList, isBehindWord_iff.mpr (by decide +kernel), by decide⟩
  head? := by decide

theorem isLineGap_space : IsLineGap [' '] := by
  simp [IsLineGap, show isBlank ' ' = true from rfl]

theorem ofSymbol_oneLine_below :
    (ofSymbol { world := {} } (bareSymbol.withDocComment (closedBelow [' '] oneLine))).result
      = .ok (some [⟨.index 0, .list [.int 1]⟩]) :=
  result_ofSymbol_closedBelow _ _ isLineGap_space endsWithRows_oneLine

/-- The row of a comment on one line is refused. -/
theorem ofSymbol_oneLine :
    EndsWithRows [' '] oneLine ["[1]".toList]
      ∧ (ofSymbol { world := {} } (bareSymbol.withDocComment (closedBelow [' '] oneLine))).result
        = .ok (some [⟨.index 0, .list [.int 1]⟩])
      ∧ (ofSymbol { world := {} } (bareSymbol.withDocComment "/** @testWith [1] */".toList)).result
        = .error (.problem (.unreadableRow "[1] *" "Extra data")) := by
  obtain ⟨row, hrow, hrefused⟩ := ofSymbol_closedBehind { world := {} } bareSymbol isLineGap_space
    isLineGap_space endsWithRows_oneLine ofSymbol_oneLine_below
  obtain rfl := Option.some.inj hrow
  exact ⟨endsWithRows_oneLine, ofSymbol_oneLine_below, hrefused⟩

/-- Not all rows that are read where the comment closes below them are read where it closes behind
the last of them. -/
theorem not_forall_ofSymbol_closedBehind :
    ¬ ∀ (r : Resolver) (s : Symbol) (lead gap text : List Char) (rows : List (List Char))
        (sets : List DataSet), IsLineGap lead → IsLineGap gap → EndsWithRows lead text rows →
      (ofSymbol r (s.withDocComment (closedBelow lead text))).result = .ok (some sets) →
      (ofSymbol r (s.withDocComment (closedBehind gap text))).result = .ok (some sets) := by
  intro h
  have hsame := h _ _ _ [' '] _ _ _ isLineGap_space isLineGap_space endsWithRows_oneLine
    ofSymbol_oneLine_below
  obtain ⟨before, row, hlast, hresult⟩ := exists_result_ofSymbol_closedBehind { world := {} }
    bareSymbol isLineGap_space isLineGap_space endsWithRows_oneLine
  have hrows : before ++ [row] = [] ++ ["[1]".toList] := hlast.symm
  obtain ⟨rfl, hrow⟩ := List.append_inj' hrows rfl
  obtain rfl := (List.cons.inj hrow).1
  cases hsame.symm.trans hresult

end ProvidedData

end DocTags
