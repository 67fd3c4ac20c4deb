import Mathlib.Data.List.Forall2
import Mathlib.Data.Nat.Find
import DocTags.Proofs.DataSet.OpeningWord
import DocTags.Proofs.Json.Soundness

/-!
# Where literal rows end

The rows are the trimmed lines behind the word, up to the first that does not start with a bracket.
No row at all is a problem, and so is the first row that is not a list by the grammar of JSON. If
all are, their values are the data sets. What is behind the rows does not matter.
-/

namespace DocTags

namespace LiteralRows

open Text Pattern

variable {text after : List Char}

/-- The word stands behind the front part and before a blank. -/
def StandsBehind (text front : List Char) : Prop :=
  ∃ c rest, text = front ++ (openingWord ++ c :: rest) ∧ isBlank c = true

/-- The text behind the first word that stands before a blank, and behind all blanks there. -/
def IsBehindWord (text after : List Char) : Prop :=
  ∃ front gap, text = front ++ (openingWord ++ (gap ++ after)) ∧ gap ≠ []
    ∧ (∀ c ∈ gap, isBlank c = true) ∧ Stops isBlank after
    ∧ ∀ front', StandsBehind text front' → front.length ≤ front'.length

/-- Where the word stands before a blank, there is a text behind it. -/
theorem exists_isBehindWord (h : ∃ front, StandsBehind text front) :
    ∃ after, IsBehindWord text after := by
  classical
  have hlength : ∃ n front, StandsBehind text front ∧ front.length = n := by
    obtain ⟨front, hfront⟩ := h
    exact ⟨_, front, hfront, rfl⟩
  obtain ⟨front, ⟨c, rest, htext, hc⟩, hmin⟩ := Nat.find_spec hlength
  refine ⟨rest.dropWhile isBlank, front, c :: rest.takeWhile isBlank, ?_, List.cons_ne_nil _ _,
    ?_, stops_dropWhile isBlank rest, ?_⟩
  · rw [htext, List.cons_append, List.takeWhile_append_dropWhile]
  · exact List.forall_mem_cons.mpr ⟨hc, fun b hb => List.mem_takeWhile_imp hb⟩
  · intro front' hfront'
    rw [hmin]
    exact Nat.find_min' hlength ⟨front', hfront', rfl⟩

theorem IsBehindWord.suffix (h : IsBehindWord text after) : after <:+ text := by
  obtain ⟨front, gap, rfl, -⟩ := h
  exact (List.suffix_append gap after).trans
    ((List.suffix_append openingWord _).trans (List.suffix_append front _))

/-- The first word that stands before a blank is the same when the text behind it goes on. -/
theorem IsBehindWord.append (h : IsBehindWord text after) (hne : after ≠ []) (e : List Char) :
    IsBehindWord (text ++ e) (after ++ e) := by
  obtain ⟨front, gap, rfl, hgap, hblank, hafter, hfirst⟩ := h
  refine ⟨front, gap, by simp only [List.append_assoc], hgap, hblank, hafter.append hne e, ?_⟩
  rintro front' ⟨c, rest, htext, hc⟩
  by_contra hlt
  rw [Nat.not_le] at hlt
  have hfront : front' ++ (openingWord ++ [c])
      <+: front ++ (openingWord ++ (gap ++ after)) ++ e :=
    ⟨rest, by rw [htext, List.append_assoc, List.append_assoc, List.singleton_append]⟩
  have hlength : (front' ++ (openingWord ++ [c])).length
      ≤ (front ++ (openingWord ++ (gap ++ after))).length := by
    have hpos := List.length_pos_iff.mpr hgap
    simp only [List.length_append, List.length_singleton]
    omega
  -- The word at an earlier place ends within the text, so it stands there without what follows.
  obtain ⟨rest', hrest'⟩ :=
    List.prefix_of_prefix_length_le hfront (List.prefix_append _ e) hlength
  refine absurd (hfirst front' ⟨c, rest', ?_, hc⟩) (Nat.not_le.mpr hlt)
  rw [← hrest', List.append_assoc, List.append_assoc, List.singleton_append]

/-- The word is found at its first place before a blank, and the search takes the blanks. -/
theorem IsBehindWord.search? (h : IsBehindWord text after) :
    (Dialect.testWithPattern.search? text).map (·.span.stop) = some after := by
  obtain ⟨front, gap, rfl, hne, hgap, hafter, hfirst⟩ := h
  have hmisses : Dialect.testWithPattern.Misses front (openingWord ++ (gap ++ after)) := by
    intro t ht hsuffix
    obtain ⟨pre, rfl⟩ := hsuffix
    rw [fails_testWithPattern_iff]
    intro u hu x hx
    obtain ⟨v, rfl⟩ := List.head?_eq_some_iff.mp (Option.mem_def.mp hx)
    rw [Bool.eq_false_iff]
    intro hblank
    have hlength := hfirst pre ⟨x, v, by rw [List.append_assoc, hu], hblank⟩
    have hpos := List.length_pos_iff.mpr ht
    rw [List.length_append] at hlength
    omega
  have hreads : Dialect.testWithPattern.Reads (openingWord ++ (gap ++ after)) after [] :=
    (reads_lit openingWord (gap ++ after)).seq (reads_chars1 hne hgap hafter)
  rw [search?_append_of_misses hmisses, search?_of_reads hreads]
  rfl

/-- What the search leaves is the text behind the word. -/
theorem isBehindWord_iff : IsBehindWord text after
    ↔ (Dialect.testWithPattern.search? text).map (·.span.stop) = some after := by
  constructor
  · exact IsBehindWord.search?
  · intro h
    obtain ⟨m, hm, rfl⟩ := Option.map_eq_some_iff.mp h
    obtain ⟨⟨front, hfront⟩, hreads⟩ := reads_of_search? hm
    obtain ⟨u, hword, hgap⟩ := canRead_seq.mp hreads.canRead
    obtain ⟨gap, hne, rfl, hblank⟩ := canRead_chars1.mp hgap
    obtain ⟨c, gap, rfl⟩ := List.exists_cons_of_ne_nil hne
    have hstands : StandsBehind text front := by
      refine ⟨c, gap ++ m.span.stop, ?_, hblank c List.mem_cons_self⟩
      rw [← hfront, canRead_lit.mp hword]
      rfl
    obtain ⟨after, hafter⟩ := exists_isBehindWord ⟨front, hstands⟩
    have hsame := hafter.search?
    rw [h] at hsame
    rwa [Option.some.inj hsame]

/-- The rows are the longest front part of the trimmed lines that all start with a bracket. -/
def AreRowsOf (after : List Char) (rows : List (List Char)) : Prop :=
  ∃ others, (splitAt '\n' after).map trim = rows ++ others
    ∧ (∀ line ∈ rows, line.head? = some '[')
    ∧ ∀ line, others.head? = some line → line.head? ≠ some '['

variable {depth : Nat} {rows : List (List Char)} {comment line : List Char}

theorem AreRowsOf.rowLines (h : AreRowsOf after rows) : rowLines after = rows := by
  obtain ⟨others, hlines, hrows, hothers⟩ := h
  have hstop : others.takeWhile (fun l => decide (l.head? = some '[')) = [] := by
    cases others with
    | nil => rfl
    | cons line others => simpa using hothers line rfl
  rw [LiteralRows.rowLines, hlines,
    List.takeWhile_append_of_pos fun l hl => decide_eq_true (hrows l hl), hstop, List.append_nil]

theorem AreRowsOf.head?_eq (h : AreRowsOf after rows) : ∀ l ∈ rows, l.head? = some '[' := by
  obtain ⟨others, -, hrows, -⟩ := h
  exact hrows

/-- The line is a list by the grammar of JSON without objects. -/
def IsRow (line : List Char) : Prop :=
  ∃ xs, Json.IsDocument line (.list xs)

/-- The line is the first of the rows that is no list. -/
def IsFirstNoRow (rows : List (List Char)) (line : List Char) : Prop :=
  ∃ before after, rows = before ++ line :: after ∧ (∀ l ∈ before, IsRow l) ∧ ¬ IsRow line

theorem readRow_eq_ok_iff_isDocument (hlimit : ¬ Json.HitsLimit (.literals depth) line)
    {d : Datum} : readRow depth line = .ok d ↔ Json.IsDocument line d := by
  rw [readRow_eq_ok_iff, Json.read_eq_ok_iff (Json.Policy.isStrict_literals _) hlimit]

theorem exists_readRow_iff (hlimit : ¬ Json.HitsLimit (.literals depth) line)
    (hbracket : line.head? = some '[') : (∃ d, readRow depth line = .ok d) ↔ IsRow line := by
  constructor
  · rintro ⟨d, hd⟩
    obtain ⟨xs, rfl⟩ := exists_list_of_read hbracket (readRow_eq_ok_iff.mp hd)
    exact ⟨xs, (readRow_eq_ok_iff_isDocument hlimit).mp hd⟩
  · rintro ⟨xs, hxs⟩
    exact ⟨_, (readRow_eq_ok_iff_isDocument hlimit).mpr hxs⟩

/-- The results of a list of computations are those of its members. -/
theorem forall₂_of_mapM_eq_ok {α β ε : Type} {f : α → Except ε β} {l : List α} {bs : List β}
    (h : l.mapM f = .ok bs) : List.Forall₂ (fun a b => f a = .ok b) l bs := by
  induction l generalizing bs with
  | nil =>
      obtain rfl := Except.ok.inj h
      exact .nil
  | cons a l ih =>
      obtain ⟨b, cs, hb, hcs, rfl⟩ := exists_of_mapM_cons_eq_ok h
      exact .cons hb (ih hcs)

/-- There is only one first row that is no list. -/
theorem IsFirstNoRow.unique {line' : List Char} (h : IsFirstNoRow rows line)
    (h' : IsFirstNoRow rows line') : line = line' := by
  obtain ⟨before, after, hrows, hbefore, hline⟩ := h
  obtain ⟨before', after', hrows', hbefore', hline'⟩ := h'
  rcases List.append_eq_append_iff.mp (hrows.symm.trans hrows') with
    ⟨u, rfl, hu⟩ | ⟨u, rfl, hu⟩
  · cases u with
    | nil => exact (List.cons.inj hu).1
    | cons x u =>
        obtain ⟨rfl, -⟩ := List.cons.inj hu
        exact absurd (hbefore' line (by simp)) hline
  · cases u with
    | nil => exact (List.cons.inj hu).1.symm
    | cons x u =>
        obtain ⟨rfl, -⟩ := List.cons.inj hu
        exact absurd (hbefore line' (by simp)) hline'

theorem IsFirstNoRow.not_forall (h : IsFirstNoRow rows line) : ¬ ∀ l ∈ rows, IsRow l := by
  obtain ⟨before, after, rfl, -, hline⟩ := h
  exact fun hall => hline (hall line (by simp))

/-- The rows have values, or the first that is no list is the problem. -/
theorem mapM_readRow_cases (hbracket : ∀ l ∈ rows, l.head? = some '[')
    (hlimits : ∀ l ∈ rows, ¬ Json.HitsLimit (.literals depth) l) :
    (∃ ds, rows.mapM (readRow depth) = .ok ds ∧ (∀ l ∈ rows, IsRow l)
        ∧ List.Forall₂ Json.IsDocument rows ds)
      ∨ ∃ line reason, IsFirstNoRow rows line
        ∧ rows.mapM (readRow depth)
          = .error (.problem (.unreadableRow (String.ofList line) reason)) := by
  have hrow (l : List Char) (hl : l ∈ rows) : (∃ d, readRow depth l = .ok d) ↔ IsRow l :=
    exists_readRow_iff (hlimits l hl) (hbracket l hl)
  cases hread : rows.mapM (readRow depth) with
  | ok ds =>
      refine .inl ⟨ds, rfl, fun l hl => (hrow l hl).mp (exists_of_mapM_eq_ok hread l hl), ?_⟩
      refine (forall₂_of_mapM_eq_ok hread).imp fun l d hd => ?_
      exact Json.isDocument_of_read (Json.Policy.isStrict_literals depth) (readRow_eq_ok_iff.mp hd)
  | error e =>
      obtain ⟨before, line, after, rfl, hbefore, hline⟩ := mapM_eq_error_iff.mp hread
      have hmem : line ∈ before ++ line :: after := by simp
      have hfirst : IsFirstNoRow (before ++ line :: after) line := by
        refine ⟨before, after, rfl, fun l hl => ?_, fun hisRow => ?_⟩
        · exact (hrow l (List.mem_append_left _ hl)).mp (hbefore l hl)
        · obtain ⟨d, hd⟩ := (hrow line hmem).mpr hisRow
          rw [hd] at hline
          cases hline
      rcases readRow_eq_error hline with ⟨reason, rfl⟩ | ⟨-, hdeep⟩
      · exact .inr ⟨line, reason, hfirst, rfl⟩
      · exact absurd ⟨_, hdeep, trivial⟩ (hlimits line hmem)

end LiteralRows

namespace ProvidedData

open LiteralRows

variable {s : Symbol} {after : List Char} {rows : List (List Char)}

/-- Without references to providers the data of a symbol are what its rows give. -/
theorem result_ofSymbol_of_rows (r : Resolver) (hrefs : references s.docComment.toList = [])
    (hword : IsBehindWord (clean s.docComment.toList) after) (hrows : AreRowsOf after rows) :
    (ofSymbol r s).result = (rows.mapM (readRow r.rowDepth)).bind fun ds =>
      if ds = [] then .error (.problem .noLiteralRows) else .ok (some (number ds)) := by
  obtain ⟨m, hm, rfl⟩ := Option.map_eq_some_iff.mp hword.search?
  have hrowsOf : rowsOf s.docComment.toList = rows := by
    rw [rowsOf, hm]
    exact hrows.rowLines
  rw [result_ofSymbol hrefs, result_ofComment hm, hrowsOf]
  cases hread : rows.mapM (readRow r.rowDepth) with
  | error e => rfl
  | ok ds =>
      simp only [Except.bind]
      by_cases hne : ds = []
      · rw [if_pos hne]
      · have hlists : ∀ d ∈ ds, ∃ xs, d = .list xs := by
          intro d hd
          obtain ⟨l, hl, hd⟩ := exists_mem_of_mapM_eq_ok hread d hd
          exact exists_list_of_read (hrows.head?_eq l hl) (readRow_eq_ok_iff.mp hd)
        rw [if_neg hne]
        simp only [(check_number hne hlists).2]
        rfl

/-- There are no rows, or all of them have values, or the first that is no list is the problem. -/
theorem result_ofSymbol_cases (r : Resolver) (hrefs : references s.docComment.toList = [])
    (hword : IsBehindWord (clean s.docComment.toList) after) (hrows : AreRowsOf after rows)
    (hlimits : ∀ l ∈ rows, ¬ Json.HitsLimit (.literals r.rowDepth) l) :
    (rows = [] ∧ (ofSymbol r s).result = .error (.problem .noLiteralRows))
      ∨ (rows ≠ [] ∧ (∀ l ∈ rows, IsRow l) ∧ ∃ ds, List.Forall₂ Json.IsDocument rows ds
        ∧ (ofSymbol r s).result = .ok (some (number ds)))
      ∨ ∃ line reason, IsFirstNoRow rows line
        ∧ (ofSymbol r s).result
          = .error (.problem (.unreadableRow (String.ofList line) reason)) := by
  rw [result_ofSymbol_of_rows r hrefs hword hrows]
  rcases mapM_readRow_cases hrows.head?_eq hlimits with
    ⟨ds, hread, hall, hvalues⟩ | ⟨line, reason, hfirst, hread⟩
  · rw [hread]
    by_cases hempty : rows = []
    · subst hempty
      obtain rfl := List.forall₂_nil_left_iff.mp hvalues
      exact .inl ⟨rfl, rfl⟩
    · have hne : ds ≠ [] := by
        rintro rfl
        exact hempty (List.forall₂_nil_right_iff.mp hvalues)
      exact .inr (.inl ⟨hempty, hall, ds, hvalues, if_neg hne⟩)
  · rw [hread]
    exact .inr (.inr ⟨line, reason, hfirst, rfl⟩)

/-- A symbol without references to providers whose comment has the word before a blank. Without
rows behind it there is the problem that says so. Otherwise the first row that is no list is the
problem, or the values of the rows are the data sets. The rows alone count. -/
theorem ofSymbol_behindWord (r : Resolver) (hrefs : references s.docComment.toList = [])
    (hword : IsBehindWord (clean s.docComment.toList) after) (hrows : AreRowsOf after rows)
    (hlimits : ∀ l ∈ rows, ¬ Json.HitsLimit (.literals r.rowDepth) l) :
    ((ofSymbol r s).result = .error (.problem .noLiteralRows) ↔ rows = [])
      ∧ (∀ row, (∃ reason, (ofSymbol r s).result = .error (.problem (.unreadableRow row reason)))
        ↔ ∃ line, IsFirstNoRow rows line ∧ row = String.ofList line)
      ∧ ((∃ sets, (ofSymbol r s).result = .ok (some sets))
        ↔ rows ≠ [] ∧ ∀ l ∈ rows, IsRow l)
      ∧ (∀ sets, (ofSymbol r s).result = .ok (some sets) →
        List.Forall₂ Json.IsDocument rows (sets.map (·.arguments))
          ∧ sets.map (·.key) = (List.range rows.length).map .index)
      ∧ ∀ (r' : Resolver) (s' : Symbol) (after' : List Char), r'.rowDepth = r.rowDepth →
        references s'.docComment.toList = [] → IsBehindWord (clean s'.docComment.toList) after' →
        AreRowsOf after' rows → (ofSymbol r' s').result = (ofSymbol r s).result := by
  have halone (r' : Resolver) (s' : Symbol) (after' : List Char) (hdepth : r'.rowDepth = r.rowDepth)
      (hrefs' : references s'.docComment.toList = [])
      (hword' : IsBehindWord (clean s'.docComment.toList) after') (hrows' : AreRowsOf after' rows) :
      (ofSymbol r' s').result = (ofSymbol r s).result := by
    rw [result_ofSymbol_of_rows r hrefs hword hrows,
      result_ofSymbol_of_rows r' hrefs' hword' hrows', hdepth]
  have hnone (hall : ∀ l ∈ rows, IsRow l) : ¬ ∃ line, IsFirstNoRow rows line :=
    fun ⟨_, hfirst⟩ => hfirst.not_forall hall
  rcases result_ofSymbol_cases r hrefs hword hrows hlimits with
    ⟨hempty, hresult⟩ | ⟨hne, hall, ds, hvalues, hresult⟩ | ⟨line, reason, hfirst, hresult⟩
  · have hall : ∀ l ∈ rows, IsRow l := by simp [hempty]
    refine ⟨by simp [hresult, hempty], fun row => ?_, by simp [hresult, hempty],
      by simp [hresult], halone⟩
    have hfirst := hnone hall
    simp only [hresult, Except.error.injEq, Failure.problem.injEq, reduceCtorEq, exists_false,
      false_iff]
    exact fun ⟨line, hline, _⟩ => hfirst ⟨line, hline⟩
  · refine ⟨by simp [hresult, hne], fun row => ?_, ?_, fun sets hsets => ?_, halone⟩
    · simp only [hresult, reduceCtorEq, exists_false, false_iff]
      exact fun ⟨line, hline, _⟩ => hnone hall ⟨line, hline⟩
    · exact iff_of_true ⟨_, hresult⟩ ⟨hne, hall⟩
    · rw [hresult] at hsets
      cases hsets
      rw [arguments_number, key_number, hvalues.length_eq]
      exact ⟨hvalues, rfl⟩
  · have hne : rows ≠ [] := by
      rintro rfl
      exact hfirst.not_forall (by simp)
    refine ⟨by simp [hresult, hne], fun row => ?_, ?_, by simp [hresult], halone⟩
    · constructor
      · rintro ⟨reason', hrow⟩
        rw [hresult] at hrow
        cases hrow
        exact ⟨line, hfirst, rfl⟩
      · rintro ⟨line', hfirst', rfl⟩
        rw [hfirst'.unique hfirst]
        exact ⟨reason, hresult⟩
    · refine iff_of_false (by simp [hresult]) fun h => hfirst.not_forall h.2

/-- A symbol with two rows of which the second is no list, and a line behind them. -/
def unevenSymbol : Symbol :=
  ⟨"/**\n * @testWith [1]\n *   [NaN]\n * Both rows.\n */", "", 20, 25, .null, .null, [], false,
    none⟩

theorem isBehindWord_unevenSymbol : IsBehindWord (clean unevenSymbol.docComment.toList)
    "[1]\n  [NaN]\nBoth rows.".toList := by
  rw [isBehindWord_iff]
  cbv

theorem areRowsOf_unevenSymbol :
    AreRowsOf "[1]\n  [NaN]\nBoth rows.".toList ["[1]".toList, "[NaN]".toList] :=
  ⟨["Both rows.".toList], by cbv, by decide, by simp⟩

/-- Its second row is the problem. -/
theorem ofSymbol_behindWord_uneven :
    references unevenSymbol.docComment.toList = []
      ∧ IsFirstNoRow ["[1]".toList, "[NaN]".toList] "[NaN]".toList
      ∧ ∃ reason, (ofSymbol { world := {} } unevenSymbol).result
        = .error (.problem (.unreadableRow "[NaN]" reason)) := by
  have hrefs : references unevenSymbol.docComment.toList = [] := by decide +kernel
  let depth := RowLimits.decoded {}
  have hfront : Json.read (.literals depth) "[1]".toList = .ok (.list [.int 1]) := rfl
  have hback : Json.read (.literals depth) "[NaN]".toList = .error (.nonFiniteLiteral "NaN") := rfl
  have hlimits : ∀ l ∈ ["[1]".toList, "[NaN]".toList], ¬ Json.HitsLimit (.literals depth) l := by
    simp only [List.forall_mem_cons, Json.HitsLimit, hfront, hback]
    refine ⟨?_, ?_, by simp⟩
    · rintro ⟨e, he, -⟩
      cases he
    · rintro ⟨e, he, hlimit⟩
      cases he
      exact hlimit
  have hfirst : IsFirstNoRow ["[1]".toList, "[NaN]".toList] "[NaN]".toList := by
    have hrow : IsRow "[1]".toList :=
      ⟨_, Json.isDocument_of_read (Json.Policy.isStrict_literals depth) hfront⟩
    refine ⟨["[1]".toList], [], rfl, List.forall_mem_singleton.mpr hrow, ?_⟩
    rintro ⟨xs, hxs⟩
    have hlimit := hlimits "[NaN]".toList (by simp)
    have hread := (Json.read_eq_ok_iff (Json.Policy.isStrict_literals _) hlimit).mpr hxs
    rw [hback] at hread
    cases hread
  obtain ⟨-, hproblem, -⟩ := ofSymbol_behindWord { world := {} } hrefs isBehindWord_unevenSymbol
    areRowsOf_unevenSymbol hlimits
  exact ⟨hrefs, hfirst, (hproblem _).mpr ⟨_, hfirst, by decide⟩⟩

end ProvidedData

end DocTags
