import DocTags.DataSet.Provided
import DocTags.Proofs.DataSet.CommentLines
import DocTags.Proofs.Fallible
import DocTags.Proofs.Json.Representation

/-!
# Literal rows in a comment

Rows are written in a comment one on a line, each line behind the decoration of the comment. Taking
the decoration off, cutting at the line feeds and trimming give every row back, and each of them is
read as the list that is written.
-/

namespace DocTags

namespace LiteralRows

open Text Pattern
open Json (Literal IsLineChar)

/-- A row as it is written: a list that can be read where lists are no deeper than given. -/
structure WrittenRow (depth : Nat) where
  literal : Literal
  items : List Datum
  value_eq : literal.value = .list items
  isShort : literal.IsShort
  depth_le : literal.depth ≤ depth

/-- A row behind further blanks. -/
structure IndentedRow (depth : Nat) extends WrittenRow depth where
  lead : List Char
  isBlank : ∀ c ∈ lead, isBlank c = true
  not_mem : '\n' ∉ lead

variable {depth : Nat}

namespace WrittenRow

/-- The written row. -/
def chars (r : WrittenRow depth) : List Char :=
  r.literal.chars

theorem forall_isLineChar (r : WrittenRow depth) : ∀ c ∈ r.chars, IsLineChar c :=
  r.literal.forall_isLineChar

theorem not_mem_of_not_isLineChar {c : Char} (hc : ¬ IsLineChar c) (r : WrittenRow depth) :
    c ∉ r.chars :=
  fun h => hc (r.forall_isLineChar c h)

theorem exists_chars_brackets (r : WrittenRow depth) : ∃ s, r.chars = '[' :: (s ++ [']']) :=
  Json.Literal.exists_chars_brackets r.value_eq

/-- A written row is read as the list that is written. -/
theorem readRow_chars (r : WrittenRow depth) : readRow depth r.chars = .ok (.list r.items) := by
  rw [readRow, chars, Json.read_chars r.literal r.depth_le r.isShort, r.value_eq]
  rfl

/-- Every row that JSON can represent without objects can be written. -/
theorem exists_of_isRepresentable {items : List Datum}
    (h : Json.IsRepresentable depth (.list items)) :
    ∃ r : WrittenRow depth, r.items = items := by
  obtain ⟨l, hvalue, hdepth, hshort⟩ := h.exists_literal
  exact ⟨⟨l, items, hvalue, hshort, hdepth⟩, rfl⟩

end WrittenRow

/-- The further rows, each on a line of its own behind the decoration. -/
def decorated (rest : List (IndentedRow depth)) : List Char :=
  rest.flatMap fun r => "\n * ".toList ++ (r.lead ++ r.chars)

/-- A comment with rows: the first one behind the word that opens them, the others on lines of
their own. -/
def docBlock (first : WrittenRow depth) (rest : List (IndentedRow depth)) : List Char :=
  "/**".toList ++ ("\n * ".toList ++ ("@testWith ".toList ++ (first.chars
    ++ (decorated rest ++ "\n */".toList))))

/-- The comment with plain lines, up to its last one. -/
def plainBlock (first : WrittenRow depth) (rest : List (IndentedRow depth)) : List Char :=
  "/**\n".toList ++ ("@testWith ".toList ++ (first.chars
    ++ rest.flatMap fun r => '\n' :: (r.lead ++ r.chars)))

/-- No line feed stands in an indented row. -/
theorem IndentedRow.not_mem_append (r : IndentedRow depth) : '\n' ∉ r.lead ++ r.chars := by
  rw [List.mem_append, not_or]
  exact ⟨r.not_mem, r.not_mem_of_not_isLineChar (by decide)⟩

theorem decorated_eq_behindStars (rest : List (IndentedRow depth)) :
    decorated rest = behindStars (rest.map fun r => r.lead ++ r.chars) := by
  rw [behindStars, List.flatMap_map]
  rfl

theorem undecorated_decorated (rest : List (IndentedRow depth)) (s : List Char) :
    undecorated (decorated rest ++ s)
      = (rest.flatMap fun r => '\n' :: (r.lead ++ r.chars)) ++ undecorated s := by
  have hfeed : ∀ line ∈ rest.map fun r => r.lead ++ r.chars, '\n' ∉ line :=
    List.forall_mem_map.mpr fun r _ => r.not_mem_append
  rw [decorated_eq_behindStars, undecorated_behindStars hfeed, List.flatMap_map]

theorem dropReturns_decorated (rest : List (IndentedRow depth)) (s : List Char) :
    dropReturns (decorated rest ++ s) = decorated rest ++ dropReturns s := by
  induction rest with
  | nil => rfl
  | cons r rest ih =>
      obtain ⟨t, ht⟩ := r.exists_chars_brackets
      have hhead : (r.chars ++ (decorated rest ++ s)).head? ≠ some '\n' := by
        rw [ht]
        exact fun h => absurd (Option.some.inj h) (by decide)
      rw [decorated, List.flatMap_cons, ← decorated]
      simp only [List.append_assoc]
      rw [dropReturns_append (by decide), dropReturns_append_of_ne r.not_mem hhead,
        dropReturns_append (r.not_mem_of_not_isLineChar (by decide)), ih]

theorem dropReturns_docBlock (first : WrittenRow depth) (rest : List (IndentedRow depth)) :
    dropReturns (docBlock first rest) = docBlock first rest := by
  have hclosing : dropReturns "\n */".toList = "\n */".toList := rfl
  unfold docBlock
  rw [dropReturns_append (by decide), dropReturns_append (by decide),
    dropReturns_append (by decide),
    dropReturns_append (first.not_mem_of_not_isLineChar (by decide)), dropReturns_decorated,
    hclosing]

/-- The last row ends with its bracket. -/
theorem exists_rows_concat (first : WrittenRow depth) (rest : List (IndentedRow depth)) :
    ∃ s, (first.chars ++ rest.flatMap fun r => '\n' :: (r.lead ++ r.chars)) = s ++ [']'] := by
  induction rest generalizing first with
  | nil =>
      obtain ⟨s, hs⟩ := first.exists_chars_brackets
      exact ⟨'[' :: s, by rw [hs, List.flatMap_nil, List.append_nil, List.cons_append]⟩
  | cons r rest ih =>
      obtain ⟨s, hs⟩ := ih r.toWrittenRow
      refine ⟨first.chars ++ '\n' :: (r.lead ++ s), ?_⟩
      rw [List.flatMap_cons, List.cons_append, List.append_assoc r.lead, hs, List.append_assoc,
        List.cons_append, List.append_assoc]

theorem clean_docBlock (first : WrittenRow depth) (rest : List (IndentedRow depth)) :
    clean (docBlock first rest) = plainBlock first rest := by
  have hundecorated : undecorated (docBlock first rest)
      = plainBlock first rest ++ "\n/".toList := by
    unfold docBlock plainBlock
    rw [undecorated_append (by decide), undecorated_line, undecorated_append (by decide),
      undecorated_append (first.not_mem_of_not_isLineChar (by decide)), undecorated_decorated,
      undecorated_closing]
    simp only [List.append_assoc]
    rfl
  have hlast : (plainBlock first rest ++ "\n/".toList).dropLast
      = plainBlock first rest ++ ['\n'] :=
    List.dropLast_append_of_ne_nil (by decide)
  obtain ⟨s, hs⟩ := exists_rows_concat first rest
  rw [clean, dropReturns_docBlock, ← undecorated, hundecorated, hlast,
    dropEndWhile_eq_rdropWhile, List.rdropWhile_concat_pos _ _ _ (by decide)]
  unfold plainBlock
  rw [hs]
  simp only [← List.append_assoc]
  exact List.rdropWhile_concat_neg _ _ _ (by decide)

/-- The search for the opening word ends at the first row. -/
theorem search?_plainBlock (first : WrittenRow depth) (rest : List (IndentedRow depth)) :
    ∃ m, Dialect.testWithPattern.search? (plainBlock first rest) = some m
      ∧ m.span.stop = first.chars ++ rest.flatMap fun r => '\n' :: (r.lead ++ r.chars) := by
  have hstops : Stops isBlank
      (first.chars ++ rest.flatMap fun r => '\n' :: (r.lead ++ r.chars)) := by
    obtain ⟨t, ht⟩ := first.exists_chars_brackets
    rw [ht]
    exact (stops_cons ..).mpr (by decide)
  have hblank := reads_chars1 (κ := Field) (a := [' ']) (by simp) (by decide) hstops
  have hword := (reads_lit "@testWith".toList _).seq hblank
  have hmisses : Dialect.testWithPattern.Misses "/**\n".toList ("@testWith".toList
      ++ ([' '] ++ (first.chars ++ rest.flatMap fun r => '\n' :: (r.lead ++ r.chars)))) := by
    refine misses_of_forall (· == '@') (fun t ht => ?_) (by decide)
    exact fails_seq_left (fails_seq_left (fails_char ht))
  have hopening : "@testWith ".toList = "@testWith".toList ++ [' '] := rfl
  unfold plainBlock
  rw [hopening, List.append_assoc]
  exact ⟨_, (search?_append_of_misses hmisses).trans (search?_of_reads hword), rfl⟩

/-- The lines behind the opening word are the written rows. -/
theorem rowLines_rows (first : WrittenRow depth) (rest : List (IndentedRow depth)) :
    rowLines (first.chars ++ rest.flatMap fun r => '\n' :: (r.lead ++ r.chars))
      = (first :: rest.map (·.toWrittenRow)).map WrittenRow.chars := by
  have htrim : ∀ (r : WrittenRow depth) (lead : List Char), (∀ c ∈ lead, isBlank c = true) →
      trim (lead ++ r.chars) = r.chars := by
    intro r lead hlead
    obtain ⟨t, ht⟩ := r.exists_chars_brackets
    rw [ht]
    exact trim_append hlead (by decide) (by decide)
  have hrest : (rest.map fun r => r.lead ++ r.chars).map trim
      = (rest.map (·.toWrittenRow)).map WrittenRow.chars := by
    rw [List.map_map, List.map_map]
    exact List.map_congr_left fun r _ => htrim r.toWrittenRow r.lead r.isBlank
  have hfirst : trim first.chars = first.chars := htrim first [] (by simp)
  have hlines : (splitAt '\n' (first.chars
      ++ rest.flatMap fun r => '\n' :: (r.lead ++ r.chars))).map trim
        = (first :: rest.map (·.toWrittenRow)).map WrittenRow.chars := by
    rw [splitAt_pieces (first.not_mem_of_not_isLineChar (by decide)) fun r _ => r.not_mem_append,
      List.map_cons, hfirst, hrest, List.map_cons]
  rw [rowLines, hlines, List.takeWhile_eq_self_iff]
  intro l hl
  obtain ⟨r, -, rfl⟩ := List.mem_map.mp hl
  obtain ⟨t, ht⟩ := r.exists_chars_brackets
  simp [ht]

/-- Written rows are read as the lists that are written. -/
theorem ofComment_docBlock (first : WrittenRow depth) (rest : List (IndentedRow depth)) :
    (ofComment depth (docBlock first rest)).result
      = .ok (some (number ((first :: rest.map (·.toWrittenRow)).map fun r => .list r.items))) := by
  obtain ⟨m, hm, hstop⟩ := search?_plainBlock first rest
  have hrows : (rowLines m.span.stop).mapM (readRow depth)
      = .ok ((first :: rest.map (·.toWrittenRow)).map fun r => .list r.items) := by
    rw [hstop, rowLines_rows, List.mapM_map]
    exact mapM_eq_ok fun r _ => r.readRow_chars
  rw [ofComment, clean_docBlock, hm]
  simp only [hrows, Run.bind_result, Run.ofExcept_result]
  rfl

theorem arguments_number (rows : List Datum) : (number rows).map DataSet.arguments = rows := by
  rw [number, List.map_map]
  exact List.zipIdx_map_fst 0 rows

theorem key_number (rows : List Datum) :
    (number rows).map DataSet.key = (List.range rows.length).map .index := by
  rw [number, List.map_map, List.range_eq_range', ← List.zipIdx_map_snd, List.map_map]
  rfl

end LiteralRows

namespace ProvidedData

open LiteralRows

variable {r : Resolver} {s : Symbol} {first : WrittenRow r.rowDepth}
  {rest : List (IndentedRow r.rowDepth)}

/-- Data sets with structured rows, at least one, are fit for a test. -/
theorem check_of_forall {sets : List DataSet} (hne : sets ≠ [])
    (hrows : ∀ d ∈ sets, d.arguments.isStructured = true) (providers : List String) :
    check providers sets = .ok sets := by
  have hfind : (sets.find? fun d => !d.arguments.isStructured) = none := by
    rw [List.find?_eq_none]
    intro d hd
    simp [hrows d hd]
  rw [check, if_neg (by simp [hne]), hfind]

/-- The rows that are written in a comment without references to providers are the data sets of its
symbol, in order and numbered from zero. -/
theorem ofSymbol_writtenRows (hdoc : s.docComment.toList = docBlock first rest)
    (hrefs : references s.docComment.toList = []) :
    ∃ sets, (ofSymbol r s).result = .ok (some sets)
      ∧ sets.map DataSet.arguments = .list first.items :: rest.map (fun row => .list row.items)
      ∧ sets.map DataSet.key = (List.range (rest.length + 1)).map .index := by
  obtain ⟨sets, hsets⟩ :
      ∃ sets, sets = number ((first :: rest.map (·.toWrittenRow)).map fun row => .list row.items) :=
    ⟨_, rfl⟩
  have harguments : sets.map DataSet.arguments
      = .list first.items :: rest.map fun row => .list row.items := by
    rw [hsets, arguments_number, List.map_cons, List.map_map]
    rfl
  have hproviders : (ofProviders r s).result = .ok none := by
    rw [ofProviders, hrefs]
    rfl
  have hcheck : check ((references s.docComment.toList).map String.ofList) sets = .ok sets := by
    apply check_of_forall
    · rintro rfl
      exact absurd harguments (by simp)
    · intro d hd
      have hmem : d.arguments ∈ sets.map DataSet.arguments := List.mem_map_of_mem hd
      rw [harguments, List.mem_cons, List.mem_map] at hmem
      rcases hmem with h | ⟨row, -, h⟩
      · rw [h]
        rfl
      · rw [← h]
        rfl
  refine ⟨sets, ?_, harguments, ?_⟩
  · rw [hdoc] at hcheck
    simp only [ofSymbol, Run.bind_result, Run.ofExcept_result, hproviders, Except.bind, hdoc,
      ofComment_docBlock, ← hsets, hcheck, mapError_ok, Run.pure_result]
  · rw [hsets, key_number, List.length_map, List.length_cons, List.length_map]

/-- A row with a text. -/
def textRow : WrittenRow (RowLimits.decoded {}) where
  literal :=
    .list Json.noSpace (.last (.text ['\\', 'n'] ['\n'] (.letter 'n' rfl .nil)) Json.noSpace)
  items := [.text "\n"]
  value_eq := rfl
  isShort := trivial
  depth_le := by decide

/-- A row with a truth value behind two blanks. -/
def truthRow : IndentedRow (RowLimits.decoded {}) where
  literal := .list Json.noSpace (.last (.bool true) Json.noSpace)
  items := [.bool true]
  value_eq := rfl
  isShort := trivial
  depth_le := by decide
  lead := [' ', '\t']
  isBlank := by decide
  not_mem := by decide

/-- A symbol with these two rows in its comment. -/
def rowsSymbol : Symbol :=
  ⟨"/**\n * @testWith [\"\\n\"]\n *  \t[true]\n */", "", 1, 1, .null, .null, [], false, none⟩

/-- The two rows in the comment make two data sets. -/
theorem ofSymbol_writtenRows_two :
    ∃ sets, (ofSymbol { world := {} } rowsSymbol).result = .ok (some sets)
      ∧ sets.map DataSet.arguments = [.list [.text "\n"], .list [.bool true]]
      ∧ sets.map DataSet.key = [.index 0, .index 1] := by
  have hdoc : rowsSymbol.docComment.toList = docBlock textRow [truthRow] := by decide +kernel
  have hrefs : references rowsSymbol.docComment.toList = [] := by decide +kernel
  exact ofSymbol_writtenRows (r := { world := {} }) hdoc hrefs

end ProvidedData

end DocTags
