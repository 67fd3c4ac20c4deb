import DocTags.Proofs.DataSet.CommentLines

/-!
# Empty lines of a comment

A line without text has nothing behind its star, not even a space. The decoration that is taken off
such a line ends with the blank behind the star, and this blank is the line feed that the next line
starts with. The two lines become one, and the second keeps its decoration.
-/

namespace DocTags.LiteralRows

open Text Pattern

/-- A line of a comment as it is written by hand: an empty one ends with its star. -/
def starred : List Char → List Char
  | [] => " *".toList
  | c :: line => " * ".toList ++ c :: line

/-- The lines of a comment, each on a line of its own. -/
def starredLines (ls : List (List Char)) : List Char :=
  ls.flatMap fun line => '\n' :: starred line

/-- A comment with lines of its own, as it is written by hand. -/
def starredBlock (ls : List (List Char)) : List Char :=
  "/**".toList ++ (starredLines ls ++ "\n */".toList)

/-- The lines that are left: an empty line takes the line feed of the next one, which keeps its
decoration; at the end it takes the line feed of the closing line. -/
def leftLines : List (List Char) → List (List Char)
  | [] => []
  | [[]] => [" *".toList]
  | [] :: next :: ls => starred next :: leftLines ls
  | (c :: line) :: ls => (c :: line) :: leftLines ls

theorem starredLines_cons_append (line : List Char) (ls : List (List Char)) (s : List Char) :
    starredLines (line :: ls) ++ s = '\n' :: (starred line ++ (starredLines ls ++ s)) := by
  rw [starredLines, List.flatMap_cons, List.append_assoc, starredLines, List.cons_append]

theorem not_mem_starred {c : Char} {line : List Char} (hc : c ∉ " * ".toList) (h : c ∉ line) :
    c ∉ starred line := by
  cases line with
  | nil => exact fun hmem => hc (List.mem_append_left [' '] hmem)
  | cons x line =>
      rw [starred, List.mem_append, not_or]
      exact ⟨hc, h⟩

theorem starred_ne_nil (line : List Char) : starred line ≠ [] := by
  cases line <;> simp [starred]

theorem ne_nil_of_mem_leftLines (ls : List (List Char)) : ∀ line ∈ leftLines ls, line ≠ [] := by
  induction ls using leftLines.induct with
  | case1 => simp [leftLines]
  | case2 => simp [leftLines]
  | case3 next ls ih => exact List.forall_mem_cons.mpr ⟨starred_ne_nil next, ih⟩
  | case4 c line ls ih => exact List.forall_mem_cons.mpr ⟨List.cons_ne_nil c line, ih⟩

theorem not_mem_of_mem_leftLines {c : Char} (hc : c ∉ " * ".toList) {ls : List (List Char)}
    (h : ∀ line ∈ ls, c ∉ line) : ∀ line ∈ leftLines ls, c ∉ line := by
  induction ls using leftLines.induct with
  | case1 => simp [leftLines]
  | case2 =>
      exact List.forall_mem_singleton.mpr fun hmem => hc (List.mem_append_left [' '] hmem)
  | case3 next ls ih =>
      rw [List.forall_mem_cons, List.forall_mem_cons] at h
      exact List.forall_mem_cons.mpr ⟨not_mem_starred hc h.2.1, ih h.2.2⟩
  | case4 c line ls ih =>
      rw [List.forall_mem_cons] at h
      exact List.forall_mem_cons.mpr ⟨h.1, ih h.2⟩

theorem leftLines_eq_nil_iff {ls : List (List Char)} : leftLines ls = [] ↔ ls = [] := by
  cases ls using leftLines.fun_cases <;> simp [leftLines]

/-- Lines with text in front of others are left as they are. -/
theorem leftLines_append {front : List (List Char)} (h : ∀ line ∈ front, line ≠ [])
    (ls : List (List Char)) : leftLines (front ++ ls) = front ++ leftLines ls := by
  induction front with
  | nil => rfl
  | cons line front ih =>
      rw [List.forall_mem_cons] at h
      obtain ⟨c, line, rfl⟩ := List.exists_cons_of_ne_nil h.1
      rw [List.cons_append, leftLines, ih h.2, List.cons_append]

/-- The lines are left as they are, without the empty ones at the end, if and only if none of them
is empty. -/
theorem leftLines_eq_rdropWhile_iff {ls : List (List Char)} :
    leftLines ls = ls.rdropWhile List.isEmpty ↔ ∀ line ∈ ls, line ≠ [] := by
  constructor
  · intro heq
    have hkept : ∀ line ∈ ls.rdropWhile List.isEmpty, line ≠ [] :=
      heq ▸ ne_nil_of_mem_leftLines ls
    obtain ⟨dropped, hls⟩ := List.rdropWhile_prefix (p := List.isEmpty) ls
    have hdropped : dropped = [] := by
      rw [← leftLines_eq_nil_iff, ← List.append_right_eq_self, ← leftLines_append hkept, hls, heq]
    rw [hdropped, List.append_nil] at hls
    exact hls ▸ hkept
  · intro h
    have hleft : leftLines ls = ls := by
      simpa [leftLines] using leftLines_append h []
    rw [hleft, eq_comm, List.rdropWhile_eq_self_iff]
    intro hne
    simpa using h _ (List.getLast_mem hne)

theorem undecorated_empty (s : List Char) :
    undecorated ("\n *".toList ++ '\n' :: s) = '\n' :: undecorated s :=
  replace_of_reads rfl (reads_decoration_blank (by decide) s)

/-- The decoration is taken off a block up to its last character, with at most a line feed in front
of that. -/
theorem exists_undecorated_starredLines {ls : List (List Char)} (h : ∀ line ∈ ls, '\n' ∉ line) :
    ∃ feeds : List Char, (∀ c ∈ feeds, c = '\n') ∧
      undecorated (starredLines ls ++ "\n */".toList)
        = ((leftLines ls).flatMap fun line => '\n' :: line) ++ (feeds ++ ['/']) := by
  induction ls using leftLines.induct with
  | case1 => exact ⟨['\n'], by simp, undecorated_closing⟩
  | case2 =>
      have hstar : undecorated " */".toList = " */".toList := undecorated_of_not_mem (by decide)
      refine ⟨[], by simp, ?_⟩
      rw [starredLines_cons_append]
      exact (undecorated_empty " */".toList).trans (congrArg _ hstar)
  | case3 next ls ih =>
      rw [List.forall_mem_cons, List.forall_mem_cons] at h
      obtain ⟨feeds, hfeeds, heq⟩ := ih h.2.2
      refine ⟨feeds, hfeeds, ?_⟩
      rw [starredLines_cons_append, starredLines_cons_append]
      refine (undecorated_empty _).trans ?_
      rw [undecorated_append (not_mem_starred (by decide) h.2.1), heq, leftLines,
        List.flatMap_cons, List.append_assoc (_ :: _), List.cons_append]
  | case4 c line ls ih =>
      rw [List.forall_mem_cons] at h
      obtain ⟨feeds, hfeeds, heq⟩ := ih h.2
      refine ⟨feeds, hfeeds, ?_⟩
      rw [starredLines_cons_append]
      refine (undecorated_line ((c :: line) ++ _)).trans ?_
      rw [undecorated_append h.1, heq, leftLines, List.flatMap_cons, List.append_assoc (_ :: _)]
      rfl

theorem not_mem_starredBlock {ls : List (List Char)} (h : ∀ line ∈ ls, '\r' ∉ line) :
    '\r' ∉ starredBlock ls := by
  have hlines : '\r' ∉ starredLines ls := by
    simp only [starredLines, List.mem_flatMap, not_exists, not_and]
    intro line hline
    rw [List.mem_cons, not_or]
    exact ⟨by decide, not_mem_starred (by decide) (h line hline)⟩
  simp only [starredBlock, List.mem_append, not_or]
  exact ⟨by decide, hlines, by decide⟩

/-- The cleaned comment has the lines that are left, below the characters that open it. -/
theorem clean_starredBlock {ls : List (List Char)} (h : ∀ line ∈ ls, '\n' ∉ line ∧ '\r' ∉ line) :
    clean (starredBlock ls) = join ['\n'] ("/**".toList :: leftLines ls) := by
  have hfeeds : ∀ line ∈ ls, '\n' ∉ line := fun line hline => (h line hline).1
  have hreturns : dropReturns (starredBlock ls) = starredBlock ls := by
    have hnot := not_mem_starredBlock fun line hline => (h line hline).2
    simpa [dropReturns] using dropReturns_append hnot []
  obtain ⟨feeds, hall, heq⟩ := exists_undecorated_starredLines hfeeds
  have hleft : ∀ line ∈ leftLines ls, '\n' ∉ line := not_mem_of_mem_leftLines (by decide) hfeeds
  have hkept : (leftLines ls).rdropWhile List.isEmpty = leftLines ls := by
    rw [List.rdropWhile_eq_self_iff]
    intro hne
    simpa using ne_nil_of_mem_leftLines ls _ (List.getLast_mem hne)
  rw [clean, hreturns, ← undecorated, starredBlock, undecorated_append (by decide), heq,
    ← List.append_assoc, ← List.append_assoc, List.dropLast_concat,
    dropEndWhile_append fun c hc => beq_iff_eq.mpr (hall c hc), dropEndWhile_eq_rdropWhile,
    join_cons_eq_flatMap]
  exact (rdropWhile_lines "/*".toList (c := '*') (by decide) hleft).trans (by rw [hkept]; rfl)

theorem dropEndWhile_join {ls : List (List Char)} (h : ∀ line ∈ ls, '\n' ∉ line) :
    dropEndWhile (· == '\n') (join ['\n'] ("/**".toList :: ls))
      = join ['\n'] ("/**".toList :: ls.rdropWhile List.isEmpty) := by
  rw [dropEndWhile_eq_rdropWhile, join_cons_eq_flatMap, join_cons_eq_flatMap]
  exact rdropWhile_lines "/*".toList (c := '*') (by decide) h

/-- What is left of a comment with lines of its own: without empty lines it is the plain text of
the lines, and the first empty line already puts a decoration into it. -/
theorem clean_starredBlock_iff {ls : List (List Char)}
    (h : ∀ line ∈ ls, '\n' ∉ line ∧ '\r' ∉ line) :
    clean (starredBlock ls) = join ['\n'] ("/**".toList :: leftLines ls)
      ∧ (clean (starredBlock ls)
          = dropEndWhile (· == '\n') (join ['\n'] ("/**".toList :: ls))
        ↔ ∀ line ∈ ls, line ≠ []) := by
  refine ⟨clean_starredBlock h, ?_⟩
  have hkept : ∀ line ∈ ls.rdropWhile List.isEmpty, '\n' ∉ line ∧ '\r' ∉ line :=
    fun line hline => h line ((List.rdropWhile_prefix _ ls).mem hline)
  have hleft : ∀ line ∈ leftLines ls, '\n' ∉ line ∧ '\r' ∉ line := fun line hline =>
    ⟨not_mem_of_mem_leftLines (by decide) (fun line hline => (h line hline).1) line hline,
      not_mem_of_mem_leftLines (by decide) (fun line hline => (h line hline).2) line hline⟩
  rw [clean_starredBlock h, dropEndWhile_join fun line hline => (h line hline).1,
    ← leftLines_eq_rdropWhile_iff]
  constructor
  · intro heq
    have hlines := congrArg lines heq
    rw [lines_join (by simp) (List.forall_mem_cons.mpr ⟨by decide, hleft⟩),
      lines_join (by simp) (List.forall_mem_cons.mpr ⟨by decide, hkept⟩)] at hlines
    exact (List.cons.inj hlines).2
  · exact fun heq => by rw [heq]

/-- An empty line below the word that opens the rows takes the row's line feed. -/
theorem clean_starredBlock_opened :
    (∀ line ∈ ["@testWith".toList, [], "[1]".toList], '\n' ∉ line ∧ '\r' ∉ line)
      ∧ clean (starredBlock ["@testWith".toList, [], "[1]".toList])
        = "/**\n@testWith\n * [1]".toList :=
  ⟨by decide, (clean_starredBlock_iff (by decide)).1⟩

/-- Not every comment with lines of its own is cleaned to the plain text of its lines. -/
theorem not_forall_clean_starredBlock :
    ¬ ∀ ls : List (List Char), (∀ line ∈ ls, '\n' ∉ line ∧ '\r' ∉ line) →
      clean (starredBlock ls)
        = dropEndWhile (· == '\n') (join ['\n'] ("/**".toList :: ls)) := by
  intro h
  have hrow := h ["@testWith".toList, [], "[1]".toList] (by decide)
  rw [clean_starredBlock (by decide)] at hrow
  exact absurd hrow (by decide)

end DocTags.LiteralRows
