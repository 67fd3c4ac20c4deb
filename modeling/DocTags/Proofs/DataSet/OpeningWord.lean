import DocTags.Proofs.DataSet.WrittenRows

/-!
# The word that opens literal rows

The word opens rows where a blank follows it, and the line feed at the end of its line is one. But
the line feeds at the end of a comment are taken off before the word is looked for. So a comment in
which the word starts a line has rows or a problem with them, unless the word is the last thing in
the comment and stands nowhere else at the end of a line or in front of a blank; then the symbol
takes no data.
-/

namespace DocTags

namespace LiteralRows

open Text Pattern

variable {line rest : List Char} {ls : List (List Char)}

/-- The word that opens rows. -/
def openingWord : List Char :=
  "@testWith".toList

/-- The word stands in the line, at its end or in front of a blank. -/
def Opens (line : List Char) : Prop :=
  ∃ front after, line = front ++ (openingWord ++ after) ∧ Stops (fun c => !isBlank c) after

/-- The word is the first one in the line. -/
def IsMarked (line : List Char) : Prop :=
  ∃ lead after, line = lead ++ (openingWord ++ after) ∧ (∀ c ∈ lead, isBlank c = true)
    ∧ Stops (fun c => !isBlank c) after

/-- What is left of the lines ends with the word alone on its line, and no line before opens
rows. -/
def EndsBare (ls : List (List Char)) : Prop :=
  ∃ before lead, content ls = before ++ [lead ++ openingWord] ∧ (∀ c ∈ lead, isBlank c = true)
    ∧ ∀ line ∈ before, ¬ Opens line

theorem openingWord_ne_nil : openingWord ≠ [] := by decide

theorem IsMarked.opens (h : IsMarked line) : Opens line := by
  obtain ⟨lead, after, hline, -, hafter⟩ := h
  exact ⟨lead, after, hline, hafter⟩

theorem fails_testWithPattern_iff {s : List Char} :
    Dialect.testWithPattern.Fails s ↔ ∀ after, s = openingWord ++ after → Stops isBlank after := by
  rw [fails_iff]
  constructor
  · rintro h after rfl x hx
    obtain ⟨t, rfl⟩ := List.head?_eq_some_iff.mp (Option.mem_def.mp hx)
    rw [Bool.eq_false_iff]
    intro hblank
    refine h t (canRead_seq.mpr ⟨x :: t, canRead_lit.mpr rfl, canRead_chars1.mpr ?_⟩)
    exact ⟨[x], by simp, rfl, by simpa using hblank⟩
  · intro h t ht
    obtain ⟨m, hm, ht⟩ := canRead_seq.mp ht
    obtain ⟨a, hne, rfl, ha⟩ := canRead_chars1.mp ht
    obtain ⟨x, a, rfl⟩ := List.exists_cons_of_ne_nil hne
    have hstops := h _ (canRead_lit.mp hm)
    rw [List.cons_append, stops_cons] at hstops
    exact Bool.false_ne_true (hstops.symm.trans (ha x List.mem_cons_self))

/-- In front of further lines, the word opens rows at the end of a line as well. -/
theorem fails_testWithPattern_line (h : '\n' ∉ line) (rest : List Char) :
    Dialect.testWithPattern.Fails (line ++ '\n' :: rest)
      ↔ ∀ after, line = openingWord ++ after → ¬ Stops (fun c => !isBlank c) after := by
  rw [fails_testWithPattern_iff]
  constructor
  · rintro h after rfl hafter
    have hstops := h (after ++ '\n' :: rest) (List.append_assoc _ _ _)
    cases after with
    | nil => exact absurd hstops (by simp [show isBlank '\n' = true from rfl])
    | cons x after =>
        rw [List.cons_append, stops_cons] at hstops
        rw [stops_cons, hstops] at hafter
        cases hafter
  · intro hline after hafter
    rcases List.append_eq_append_iff.mp hafter with ⟨b, hword, hb⟩ | ⟨b, hword, hb⟩
    · cases b with
      | nil =>
          rw [List.append_nil] at hword
          exact absurd (stops_nil _) (hline [] (by rw [List.append_nil, hword]))
      | cons x b =>
          obtain ⟨rfl, -⟩ := List.cons.inj hb
          have hmem : '\n' ∈ openingWord := hword ▸ List.mem_append_right line List.mem_cons_self
          exact absurd hmem (by decide)
    · cases b with
      | nil => exact absurd (stops_nil _) (hline [] hword)
      | cons x b =>
          have hx := hline (x :: b) hword
          rw [stops_cons] at hx
          rw [hb, List.cons_append, stops_cons]
          simpa using hx

theorem not_opens_nil : ¬ Opens [] := by
  rintro ⟨front, after, h, -⟩
  exact openingWord_ne_nil (List.append_eq_nil_iff.mp (List.append_eq_nil_iff.mp h.symm).2).1

theorem opens_cons {c : Char} : Opens (c :: line)
    ↔ (∃ after, c :: line = openingWord ++ after ∧ Stops (fun c => !isBlank c) after)
      ∨ Opens line := by
  constructor
  · rintro ⟨front, after, h, hafter⟩
    cases front with
    | nil => exact .inl ⟨after, h, hafter⟩
    | cons x front => exact .inr ⟨front, after, (List.cons.inj h).2, hafter⟩
  · rintro (⟨after, h, hafter⟩ | ⟨front, after, rfl, hafter⟩)
    · exact ⟨[], after, h, hafter⟩
    · exact ⟨c :: front, after, rfl, hafter⟩

/-- A line in front of others is passed over if it does not open rows. -/
theorem search?_line (h : '\n' ∉ line) (rest : List Char) :
    Dialect.testWithPattern.search? (line ++ '\n' :: rest) = none
      ↔ ¬ Opens line ∧ Dialect.testWithPattern.search? rest = none := by
  induction line with
  | nil =>
      have hfails : Dialect.testWithPattern.Fails ('\n' :: rest) :=
        (fails_testWithPattern_line h rest).mpr fun after hafter =>
          absurd (List.append_eq_nil_iff.mp hafter.symm).1 openingWord_ne_nil
      rw [List.nil_append, search?_cons_of_fails hfails, and_iff_right not_opens_nil]
  | cons c line ih =>
      have hline : '\n' ∉ line := fun hmem => h (List.mem_cons_of_mem c hmem)
      have hfront := fails_testWithPattern_line h rest
      rw [List.cons_append] at hfront
      rw [List.cons_append, search?_cons_eq_none_iff, hfront, ih hline, opens_cons, not_or,
        not_exists, and_assoc]
      simp only [not_and]

/-- Lines in front of the last one are passed over if they do not open rows. -/
theorem search?_lines {before : List (List Char)} (h : ∀ line ∈ before, '\n' ∉ line)
    (last : List Char) :
    Dialect.testWithPattern.search? (join ['\n'] (before ++ [last])) = none
      ↔ (∀ line ∈ before, ¬ Opens line) ∧ Dialect.testWithPattern.search? last = none := by
  induction before with
  | nil => simp [join]
  | cons line before ih =>
      rw [List.forall_mem_cons] at h
      have hjoin : join ['\n'] (line :: before ++ [last])
          = line ++ '\n' :: join ['\n'] (before ++ [last]) := by
        cases before <;> rfl
      rw [hjoin, search?_line h.1, ih h.2, List.forall_mem_cons, and_assoc]

theorem IsMarked.chomp (h : IsMarked line) : IsMarked (LiteralRows.chomp line) := by
  obtain ⟨lead, after, rfl, hlead, hafter⟩ := h
  refine ⟨lead, LiteralRows.chomp after, ?_, hlead, ?_⟩
  · rw [chomp_append (List.append_ne_nil_of_left_ne_nil openingWord_ne_nil after)]
    cases after with
    | nil => rfl
    | cons x after => rw [chomp_append (List.cons_ne_nil x after)]
  · obtain ⟨t, ht⟩ := isPrefix_chomp after
    intro x hx
    apply hafter
    rw [← ht, List.head?_append, Option.mem_def.mp hx]
    rfl

theorem IsMarked.ne_nil (h : IsMarked line) : line ≠ [] := by
  rintro rfl
  exact not_opens_nil h.opens

theorem not_mem_of_mem_content (h : ∀ line ∈ ls, '\n' ∉ line) :
    ∀ line ∈ content ls, '\n' ∉ line := by
  intro line hline
  obtain ⟨original, horiginal, rfl⟩ := List.mem_map.mp ((List.rdropWhile_prefix _ _).mem hline)
  exact fun hmem => h original horiginal ((isPrefix_chomp original).mem hmem)

/-- A line that holds something is left. -/
theorem mem_content (hmem : line ∈ ls) (hne : chomp line ≠ []) : chomp line ∈ content ls := by
  have hmap : chomp line ∈ (ls.map chomp).reverse := List.mem_reverse.mpr (List.mem_map_of_mem hmem)
  rw [← List.takeWhile_append_dropWhile (p := List.isEmpty) (l := (ls.map chomp).reverse),
    List.mem_append] at hmap
  refine List.mem_reverse.mpr (hmap.resolve_left fun htaken => hne ?_)
  exact List.isEmpty_iff.mp (List.mem_takeWhile_imp htaken)

theorem not_opens_commentStart : ¬ Opens "/**".toList := by
  rintro ⟨front, after, hword, -⟩
  have hmem : '@' ∈ "/**".toList := by
    rw [hword]
    exact List.mem_append_right front (List.mem_append_left after (by decide))
  exact absurd hmem (by decide)

/-- The cleaned comment is searched line by line. -/
theorem search?_clean_of_content (h : ∀ line ∈ ls, '\n' ∉ line) {before : List (List Char)}
    {last : List Char} (hlast : content ls = before ++ [last]) :
    Dialect.testWithPattern.search? (clean (lineBlock ls)) = none
      ↔ (∀ line ∈ before, ¬ Opens line) ∧ Dialect.testWithPattern.search? last = none := by
  have hcontent := not_mem_of_mem_content h
  rw [hlast, List.forall_mem_append] at hcontent
  rw [clean_lineBlock h, hlast, ← List.cons_append,
    search?_lines (List.forall_mem_cons.mpr ⟨by decide, hcontent.1⟩), List.forall_mem_cons,
    and_iff_right not_opens_commentStart]

/-- On the last line the word has to stand in front of a blank. -/
theorem eq_nil_of_search?_eq_none {lead after : List Char}
    (hafter : Stops (fun c => !isBlank c) after)
    (h : Dialect.testWithPattern.search? (lead ++ (openingWord ++ after)) = none) :
    after = [] := by
  have hfails : Dialect.testWithPattern.Fails (openingWord ++ after) :=
    search?_eq_none_iff.mp h _ (List.suffix_append lead _)
  have hstops : Stops isBlank after := fails_testWithPattern_iff.mp hfails after rfl
  cases after with
  | nil => rfl
  | cons x after =>
      rw [stops_cons] at hstops hafter
      rw [hstops] at hafter
      cases hafter

theorem search?_lead {lead : List Char} (hlead : ∀ c ∈ lead, isBlank c = true) :
    Dialect.testWithPattern.search? (lead ++ openingWord) = none := by
  have hsign : ∀ c ∈ lead, (c == '@') = false := by
    intro c hc
    rw [beq_eq_false_iff_ne]
    rintro rfl
    exact absurd (hlead '@' hc) (by decide)
  have hmisses : Dialect.testWithPattern.Misses lead openingWord :=
    misses_of_forall (· == '@')
      (fun t ht => fails_seq_left (fails_seq_left (fails_char ht))) hsign
  rw [search?_append_of_misses hmisses]
  rfl

/-- The word is not found if and only if the comment ends with it alone. -/
theorem search?_clean_lineBlock (h : ∀ line ∈ ls, '\n' ∉ line)
    (hmarked : ∃ line ∈ ls, IsMarked line) :
    Dialect.testWithPattern.search? (clean (lineBlock ls)) = none ↔ EndsBare ls := by
  constructor
  · intro hnone
    obtain ⟨line, hline, hmarked⟩ := hmarked
    have hmem : chomp line ∈ content ls := mem_content hline hmarked.chomp.ne_nil
    rcases List.eq_nil_or_concat' (content ls) with hnil | ⟨before, last, hlast⟩
    · exact absurd (hnil ▸ hmem) List.not_mem_nil
    · obtain ⟨hbefore, hnone⟩ := (search?_clean_of_content h hlast).mp hnone
      rw [hlast, List.mem_append, List.mem_singleton] at hmem
      -- The line with the word is the last one, since lines before it do not open rows.
      have hmem : chomp line = last :=
        hmem.resolve_left fun hfront => hbefore _ hfront hmarked.chomp.opens
      obtain ⟨lead, after, hword, hlead, hafter⟩ := hmarked.chomp
      rw [← hmem, hword] at hnone
      obtain rfl := eq_nil_of_search?_eq_none hafter hnone
      exact ⟨before, lead, by rw [hlast, ← hmem, hword, List.append_nil], hlead, hbefore⟩
  · rintro ⟨before, lead, hlast, hlead, hbefore⟩
    exact (search?_clean_of_content h hlast).mpr ⟨hbefore, search?_lead hlead⟩

/-- The lines of a comment that are read as rows. -/
def rowsOf (comment : List Char) : List (List Char) :=
  ((Dialect.testWithPattern.search? (clean comment)).map fun m => rowLines m.span.stop).getD []

/-- The first line that cannot be read is nested deeper than lists may be. -/
def IsTooDeep (depth : Nat) (lines : List (List Char)) : Prop :=
  ∃ before line after, lines = before ++ line :: after
    ∧ (∀ l ∈ before, ∃ d, Json.read (.literals depth) l = .ok d)
    ∧ Json.read (.literals depth) line = .error .tooDeep

/-- A line that is read as a row stands behind the word. -/
theorem exists_of_mem_rowsOf {comment : List Char} (h : line ∈ rowsOf comment) :
    ∃ m, Dialect.testWithPattern.search? (clean comment) = some m
      ∧ line ∈ rowLines m.span.stop := by
  rw [rowsOf] at h
  cases hm : Dialect.testWithPattern.search? (clean comment) with
  | none => simp [hm] at h
  | some m => exact ⟨m, rfl, by simpa [hm] using h⟩

theorem head?_of_mem_rowsOf {comment : List Char} (h : line ∈ rowsOf comment) :
    line.head? = some '[' := by
  obtain ⟨m, -, hline⟩ := exists_of_mem_rowsOf h
  have htaken := List.mem_takeWhile_imp hline
  exact of_decide_eq_true htaken

theorem exists_list_of_readValue {policy : Json.Policy} {fuel : Nat} {s r : List Char} {d : Datum}
    (h : Json.readValue policy (fuel + 1) ('[' :: s) = .ok (d, r)) : ∃ xs, d = .list xs := by
  rw [Json.readValue] at h
  split at h
  · cases h
  · split at h
    · cases h
      exact ⟨[], rfl⟩
    · obtain ⟨⟨xs, rest⟩, -, hvalue⟩ := exists_of_map_eq_ok h
      cases hvalue
      exact ⟨xs, rfl⟩

/-- What is read off a bracket is a list. -/
theorem exists_list_of_read {policy : Json.Policy} {s : List Char} {d : Datum}
    (hs : s.head? = some '[') (h : Json.read policy s = .ok d) : ∃ xs, d = .list xs := by
  obtain ⟨t, rfl⟩ := List.head?_eq_some_iff.mp hs
  have hskip : Json.skip ('[' :: t) = '[' :: t := rfl
  rw [Json.read, hskip] at h
  split at h
  · cases h
  · next x r hvalue =>
      split at h
      · obtain rfl := Except.ok.inj h
        exact exists_list_of_readValue hvalue
      · cases h

variable {depth : Nat}

theorem readRow_eq_ok_iff {d : Datum} :
    readRow depth line = .ok d ↔ Json.read (.literals depth) line = .ok d := by
  rw [readRow]
  cases Json.read (.literals depth) line <;> simp

/-- A line is no row for a reason that is told, or since it is nested too deep. -/
theorem readRow_eq_error {e : Failure} (h : readRow depth line = .error e) :
    (∃ reason, e = .problem (.unreadableRow (String.ofList line) reason))
      ∨ e = .fault .tooDeep ∧ Json.read (.literals depth) line = .error .tooDeep := by
  rw [readRow] at h
  cases hread : Json.read (.literals depth) line with
  | ok d => simp [hread] at h
  | error f =>
      rw [hread, mapError_error] at h
      obtain rfl := Except.error.inj h
      cases f with
      | tooDeep => exact .inr ⟨rfl, rfl⟩
      | _ => exact .inl ⟨_, rfl⟩

/-- The rows are read as declared: there is at least one, or a data set problem says what is wrong
with them. -/
def Decodes (result : Except Failure (Option (List DataSet))) : Prop :=
  (∃ sets, sets ≠ [] ∧ result = .ok (some sets))
    ∨ result = .error (.problem .noLiteralRows)
    ∨ ∃ row reason, result = .error (.problem (.unreadableRow row reason))

theorem not_decodes_none : ¬ Decodes (.ok none) := by
  rintro (⟨sets, -, h⟩ | h | ⟨row, reason, h⟩) <;> cases h

theorem not_decodes_fault (f : Fault) : ¬ Decodes (.error (.fault f)) := by
  rintro (⟨sets, -, h⟩ | h | ⟨row, reason, h⟩) <;> cases h

theorem Decodes.ne_none {result : Except Failure (Option (List DataSet))} (h : Decodes result) :
    result ≠ .ok none := by
  rintro rfl
  exact not_decodes_none h

theorem result_ofComment {comment : List Char} {m : Match Field}
    (hm : Dialect.testWithPattern.search? (clean comment) = some m) :
    (ofComment depth comment).result = ((rowsOf comment).mapM (readRow depth)).bind fun rows =>
      if rows = [] then .error (.problem .noLiteralRows) else .ok (some (number rows)) := by
  rw [ofComment, rowsOf, hm]
  simp only [Run.bind_result, Run.ofExcept_result, Option.map_some, Option.getD_some]
  congr 1
  funext rows
  cases rows <;> rfl

theorem result_ofComment_of_isTooDeep {comment : List Char} (h : IsTooDeep depth (rowsOf comment)) :
    (ofComment depth comment).result = .error (.fault .tooDeep) := by
  obtain ⟨before, line, after, hrows, hbefore, hline⟩ := h
  have hread : (rowsOf comment).mapM (readRow depth) = .error (.fault .tooDeep) := by
    refine mapM_eq_error_iff.mpr ⟨before, line, after, hrows, ?_, by rw [readRow, hline]; rfl⟩
    intro l hl
    obtain ⟨d, hd⟩ := hbefore l hl
    exact ⟨d, readRow_eq_ok_iff.mpr hd⟩
  cases hm : Dialect.testWithPattern.search? (clean comment) with
  | none => simp [rowsOf, hm] at hrows
  | some m =>
      rw [result_ofComment hm, hread]
      rfl

/-- Behind the word there is a problem, or there are rows and each of them is a list. -/
theorem result_ofComment_cases {comment : List Char} {m : Match Field}
    (hm : Dialect.testWithPattern.search? (clean comment) = some m)
    (hdeep : ¬ IsTooDeep depth (rowsOf comment)) :
    (∃ rows, rows ≠ [] ∧ (∀ d ∈ rows, ∃ xs, d = .list xs)
        ∧ (ofComment depth comment).result = .ok (some (number rows)))
      ∨ (ofComment depth comment).result = .error (.problem .noLiteralRows)
      ∨ ∃ row reason,
        (ofComment depth comment).result = .error (.problem (.unreadableRow row reason)) := by
  rw [result_ofComment hm]
  cases hrows : (rowsOf comment).mapM (readRow depth) with
  | error e =>
      obtain ⟨before, line, after, hsplit, hbefore, hline⟩ := mapM_eq_error_iff.mp hrows
      rcases readRow_eq_error hline with ⟨reason, rfl⟩ | ⟨-, htooDeep⟩
      · exact .inr (.inr ⟨_, reason, rfl⟩)
      · refine absurd ⟨before, line, after, hsplit, fun l hl => ?_, htooDeep⟩ hdeep
        obtain ⟨d, hd⟩ := hbefore l hl
        exact ⟨d, readRow_eq_ok_iff.mp hd⟩
  | ok rows =>
      by_cases hne : rows = []
      · exact .inr (.inl (if_pos hne))
      · refine .inl ⟨rows, hne, fun d hd => ?_, if_neg hne⟩
        obtain ⟨line, hline, hread⟩ := exists_mem_of_mapM_eq_ok hrows d hd
        exact exists_list_of_read (head?_of_mem_rowsOf hline) (readRow_eq_ok_iff.mp hread)

end LiteralRows

namespace ProvidedData

open LiteralRows

variable {r : Resolver} {s : Symbol} {ls : List (List Char)}

/-- Without references to providers, the data of a symbol are its rows, if they are structured. -/
theorem result_ofSymbol (hrefs : references s.docComment.toList = []) :
    (ofSymbol r s).result
      = (LiteralRows.ofComment r.rowDepth s.docComment.toList).result.bind fun sets? =>
        match sets? with
        | none => .ok none
        | some sets => ((check [] sets).mapError .problem).map some := by
  have hproviders : (ofProviders r s).result = .ok none := by
    rw [ofProviders, hrefs]
    rfl
  simp only [ofSymbol, Run.bind_result, hproviders, Except.bind, hrefs, List.map_nil]
  cases (LiteralRows.ofComment r.rowDepth s.docComment.toList).result with
  | error e => rfl
  | ok sets? =>
      cases sets? with
      | none => rfl
      | some sets =>
          simp only [Run.bind_result, Run.ofExcept_result]
          cases check [] sets <;> rfl

/-- Where the word is not found, the symbol takes no data. -/
theorem result_ofSymbol_of_search?_eq_none (hrefs : references s.docComment.toList = [])
    (hm : Dialect.testWithPattern.search? (clean s.docComment.toList) = none) :
    (ofSymbol r s).result = .ok none := by
  rw [result_ofSymbol hrefs, LiteralRows.ofComment, hm]
  rfl

/-- Lists, at least one, are fit for a test. -/
theorem check_number {rows : List Datum} (hne : rows ≠ [])
    (hlists : ∀ d ∈ rows, ∃ xs, d = .list xs) :
    number rows ≠ [] ∧ check [] (number rows) = .ok (number rows) := by
  have hsets : number rows ≠ [] := by
    intro h
    have harguments := arguments_number rows
    rw [h] at harguments
    exact hne harguments.symm
  refine ⟨hsets, check_of_forall hsets (fun d hd => ?_) []⟩
  have hmem : d.arguments ∈ rows := arguments_number rows ▸ List.mem_map_of_mem hd
  obtain ⟨xs, hxs⟩ := hlists _ hmem
  rw [hxs]
  rfl

/-- Where the word is found, the rows are read as declared if none is nested too deep. -/
theorem decodes_ofSymbol (hrefs : references s.docComment.toList = []) {m : Match Field}
    (hm : Dialect.testWithPattern.search? (clean s.docComment.toList) = some m)
    (hdeep : ¬ IsTooDeep r.rowDepth (rowsOf s.docComment.toList)) :
    Decodes (ofSymbol r s).result := by
  rw [result_ofSymbol hrefs]
  rcases result_ofComment_cases hm hdeep with
    ⟨rows, hne, hlists, hresult⟩ | hresult | ⟨row, reason, hresult⟩
  · obtain ⟨hsets, hcheck⟩ := check_number hne hlists
    rw [hresult]
    exact .inl ⟨number rows, hsets, by simp only [Except.bind, hcheck]; rfl⟩
  · rw [hresult]
    exact .inr (.inl rfl)
  · rw [hresult]
    exact .inr (.inr ⟨row, reason, rfl⟩)

/-- A symbol without references to providers whose comment has the word at the start of a line: its
rows are read as declared if and only if the comment does not end with the word alone and no row is
nested too deep. In the first case the symbol takes no data, and the second is a fault. -/
theorem ofSymbol_marked_iff (hdoc : s.docComment.toList = lineBlock ls)
    (hfeed : ∀ line ∈ ls, '\n' ∉ line) (hrefs : references s.docComment.toList = [])
    (hmarked : ∃ line ∈ ls, IsMarked line) :
    (Decodes (ofSymbol r s).result
        ↔ ¬ EndsBare ls ∧ ¬ IsTooDeep r.rowDepth (rowsOf s.docComment.toList))
      ∧ ((ofSymbol r s).result = .ok none ↔ EndsBare ls)
      ∧ (IsTooDeep r.rowDepth (rowsOf s.docComment.toList) →
        (ofSymbol r s).result = .error (.fault .tooDeep)) := by
  have hsearch := search?_clean_lineBlock hfeed hmarked
  rw [← hdoc] at hsearch
  have hdeep : IsTooDeep r.rowDepth (rowsOf s.docComment.toList) →
      (ofSymbol r s).result = .error (.fault .tooDeep) := by
    intro h
    rw [result_ofSymbol hrefs, result_ofComment_of_isTooDeep h]
    rfl
  cases hm : Dialect.testWithPattern.search? (clean s.docComment.toList) with
  | none =>
      have hbare : EndsBare ls := hsearch.mp hm
      have hnone : (ofSymbol r s).result = .ok none :=
        result_ofSymbol_of_search?_eq_none hrefs hm
      refine ⟨iff_of_false ?_ fun h => h.1 hbare, iff_of_true hnone hbare, hdeep⟩
      exact fun h => h.ne_none hnone
  | some m =>
      have hbare : ¬ EndsBare ls := by
        rw [← hsearch, hm]
        exact Option.some_ne_none m
      by_cases htooDeep : IsTooDeep r.rowDepth (rowsOf s.docComment.toList)
      · have hfault := hdeep htooDeep
        rw [hfault]
        exact ⟨iff_of_false (not_decodes_fault _) fun h => h.2 htooDeep,
          iff_of_false (fun h => nomatch h) hbare, fun _ => rfl⟩
      · have hdecodes : Decodes (ofSymbol r s).result := decodes_ofSymbol hrefs hm htooDeep
        exact ⟨iff_of_true hdecodes ⟨hbare, htooDeep⟩, iff_of_false hdecodes.ne_none hbare, hdeep⟩

/-- A symbol whose comment has nothing but the word. -/
def bareSymbol : Symbol :=
  ⟨"/**\n * @testWith\n */", "", 20, 25, .null, .null, [], false, none⟩

theorem docComment_bareSymbol : bareSymbol.docComment.toList = lineBlock [openingWord] := by
  cbv

theorem references_bareSymbol : references bareSymbol.docComment.toList = [] := by
  cbv

theorem not_mem_of_mem_singleton : ∀ line ∈ [openingWord], '\n' ∉ line := by
  decide

theorem isMarked_openingWord : IsMarked openingWord :=
  ⟨[], [], (List.append_nil _).symm, by simp, Pattern.stops_nil _⟩

theorem endsBare_openingWord : EndsBare [openingWord] :=
  ⟨[], [], by decide, by simp, by simp⟩

/-- It takes no data. -/
theorem ofSymbol_marked_iff_bare :
    bareSymbol.docComment.toList = lineBlock [openingWord]
    ∧ (∀ line ∈ [openingWord], '\n' ∉ line)
    ∧ references bareSymbol.docComment.toList = []
    ∧ IsMarked openingWord
    ∧ (ofSymbol { world := {} } bareSymbol).result = .ok none
    ∧ ¬ Decodes (ofSymbol { world := {} } bareSymbol).result := by
  obtain ⟨hdecodes, hnone, -⟩ := ofSymbol_marked_iff (r := { world := {} }) docComment_bareSymbol
    not_mem_of_mem_singleton references_bareSymbol ⟨_, List.mem_cons_self, isMarked_openingWord⟩
  exact ⟨docComment_bareSymbol, not_mem_of_mem_singleton, references_bareSymbol,
    isMarked_openingWord, hnone.mpr endsBare_openingWord,
    fun h => (hdecodes.mp h).1 endsBare_openingWord⟩

/-- Not every comment in which the word starts a line has rows or a problem with them. -/
theorem not_forall_decodes :
    ¬ ∀ (r : Resolver) (s : Symbol) (ls : List (List Char)),
      s.docComment.toList = lineBlock ls → (∀ line ∈ ls, '\n' ∉ line) →
      references s.docComment.toList = [] → (∃ line ∈ ls, IsMarked line) →
      Decodes (ofSymbol r s).result := by
  intro h
  have hmarked : ∃ line ∈ [openingWord], IsMarked line :=
    ⟨_, List.mem_cons_self, isMarked_openingWord⟩
  have hsearch : Dialect.testWithPattern.search? (clean bareSymbol.docComment.toList) = none := by
    rw [docComment_bareSymbol, search?_clean_lineBlock not_mem_of_mem_singleton hmarked]
    exact endsBare_openingWord
  have hdecodes := h { world := {} } bareSymbol _ docComment_bareSymbol not_mem_of_mem_singleton
    references_bareSymbol hmarked
  exact hdecodes.ne_none (result_ofSymbol_of_search?_eq_none references_bareSymbol hsearch)

end ProvidedData

end DocTags
