import DocTags.DataSet.LiteralRows
import DocTags.Proofs.Pattern.Search
import DocTags.Proofs.Text.Lines

/-!
# The lines of a comment

In a comment that is written over several lines, each line stands behind a star. Taking this
decoration off gives the lines back, without the carriage returns at their ends and without the
empty lines at the end of the comment.
-/

namespace DocTags.LiteralRows

open Text Pattern

/-- Lines of a comment, each behind its star. -/
def behindStars (ls : List (List Char)) : List Char :=
  ls.flatMap fun line => "\n * ".toList ++ line

/-- A comment with lines of its own. -/
def lineBlock (ls : List (List Char)) : List Char :=
  "/**".toList ++ (behindStars ls ++ "\n */".toList)

/-- A line without the carriage return at its end. -/
def chomp (line : List Char) : List Char :=
  if line.getLast? = some '\r' then line.dropLast else line

/-- What is left of the lines: no carriage returns at their ends, no empty lines at the end. -/
def content (ls : List (List Char)) : List (List Char) :=
  (ls.map chomp).rdropWhile List.isEmpty

theorem behindStars_cons_append (line : List Char) (ls : List (List Char)) (s : List Char) :
    behindStars (line :: ls) ++ s = "\n * ".toList ++ (line ++ (behindStars ls ++ s)) := by
  rw [behindStars, List.flatMap_cons, List.append_assoc, List.append_assoc, behindStars]

/-- The decoration takes the character behind the star with it if that is blank. -/
theorem reads_decoration_blank {c : Char} (hc : isBlank c = true) (s : List Char) :
    decoration.Reads ("\n *".toList ++ c :: s) s [] := by
  have hblanks : (chars isBlank : Pattern Unit).Reads (" *".toList ++ c :: s) ('*' :: c :: s) [] :=
    reads_chars (a := [' ']) (by decide) ((stops_cons ..).mpr (by decide))
  have hlast : (opt (char isBlank) : Pattern Unit).Reads (c :: s) s [] := (reads_char hc).opt
  exact (reads_char (by decide)).seq (hblanks.seq ((reads_char (by decide)).seq hlast))

theorem reads_decoration (s : List Char) : decoration.Reads ("\n * ".toList ++ s) s [] :=
  reads_decoration_blank (by decide) s

/-- The decoration ends with the star if no blank is behind it. -/
theorem reads_decoration_star {lead s : List Char} (hlead : ∀ c ∈ lead, isBlank c = true)
    (hs : Stops isBlank s) : decoration.Reads ('\n' :: (lead ++ '*' :: s)) s [] := by
  have hblanks : (chars isBlank : Pattern Unit).Reads (lead ++ '*' :: s) ('*' :: s) [] :=
    reads_chars hlead ((stops_cons ..).mpr (by decide))
  have hlast : (opt (char isBlank) : Pattern Unit).Reads s s [] :=
    reads_opt_of_fails (fails_char hs)
  exact (reads_char (by decide)).seq (hblanks.seq ((reads_char (by decide)).seq hlast))

theorem misses_decoration {a : List Char} (ha : '\n' ∉ a) (s : List Char) :
    decoration.Misses a s := by
  refine misses_of_forall (· == '\n') (fun t ht => fails_seq_left (fails_char ht)) ?_
  intro x hx
  simpa using fun h : x = '\n' => ha (h ▸ hx)

/-- Writes a line feed for a line feed with a decoration. -/
def undecorated (s : List Char) : List Char :=
  decoration.replace (fun _ => ['\n']) s

theorem undecorated_append {a : List Char} (ha : '\n' ∉ a) (s : List Char) :
    undecorated (a ++ s) = a ++ undecorated s :=
  replace_append_of_misses rfl (misses_decoration ha s)

theorem undecorated_line (s : List Char) :
    undecorated ("\n * ".toList ++ s) = '\n' :: undecorated s :=
  replace_of_reads rfl (reads_decoration s)

theorem undecorated_of_not_mem {a : List Char} (ha : '\n' ∉ a) : undecorated a = a := by
  rw [← List.append_nil a, undecorated_append ha, undecorated, replace_nil rfl]

/-- The last line of a comment loses its decoration up to the character that closes the comment. -/
theorem undecorated_closingLine {lead : List Char} (hlead : ∀ c ∈ lead, isBlank c = true) :
    undecorated ('\n' :: (lead ++ "*/".toList)) = "\n/".toList := by
  have hreads : decoration.Reads ('\n' :: (lead ++ "*/".toList)) "/".toList [] :=
    reads_decoration_star hlead ((stops_cons ..).mpr (by decide))
  rw [undecorated, replace_of_reads rfl hreads, ← undecorated,
    undecorated_of_not_mem (by decide)]
  rfl

theorem undecorated_closing : undecorated "\n */".toList = "\n/".toList :=
  undecorated_closingLine (List.forall_mem_singleton.mpr (by decide : isBlank ' ' = true))

theorem undecorated_behindStars {ls : List (List Char)} (h : ∀ line ∈ ls, '\n' ∉ line)
    (s : List Char) :
    undecorated (behindStars ls ++ s) = (ls.flatMap fun line => '\n' :: line) ++ undecorated s := by
  induction ls with
  | nil => rfl
  | cons line ls ih =>
      rw [List.forall_mem_cons] at h
      rw [behindStars_cons_append, undecorated_line, undecorated_append h.1, ih h.2,
        List.flatMap_cons, List.append_assoc (_ :: _), List.cons_append]

theorem chomp_concat_return (line : List Char) : chomp (line ++ ['\r']) = line := by
  rw [chomp, List.getLast?_concat, if_pos rfl, List.dropLast_concat]

theorem chomp_of_ne {line : List Char} (h : line.getLast? ≠ some '\r') : chomp line = line := by
  rw [chomp, if_neg h]

theorem chomp_append {b : List Char} (hb : b ≠ []) (a : List Char) :
    chomp (a ++ b) = a ++ chomp b := by
  rw [chomp, chomp, List.getLast?_append_of_ne_nil a hb, List.dropLast_append_of_ne_nil hb]
  split <;> rfl

theorem isPrefix_chomp (line : List Char) : chomp line <+: line := by
  rw [chomp]
  split
  · exact List.dropLast_prefix line
  · exact List.prefix_refl line

/-- A return counts for the line feed behind it, and no other return of a line is dropped. -/
theorem dropReturns_line {line : List Char} (h : '\n' ∉ line) {s : List Char}
    (hs : s.head? = some '\n') : dropReturns (line ++ s) = chomp line ++ dropReturns s := by
  obtain ⟨u, rfl⟩ := List.head?_eq_some_iff.mp hs
  have hfeed : dropReturns ('\n' :: u) = '\n' :: dropReturns u :=
    dropReturns_cons (.inl (by decide))
  rcases List.eq_nil_or_concat' line with rfl | ⟨front, c, rfl⟩
  · rfl
  · rw [List.mem_append, not_or, List.mem_singleton] at h
    rw [List.append_assoc, List.singleton_append,
      dropReturns_append_of_ne h.1 (by simpa using Ne.symm h.2), hfeed]
    by_cases hc : c = '\r'
    · subst hc
      rw [chomp_concat_return, dropReturns]
    · rw [chomp_of_ne (by simpa using hc), dropReturns_cons (.inl hc), hfeed, List.append_assoc,
        List.singleton_append]

theorem dropReturns_behindStars {ls : List (List Char)} (h : ∀ line ∈ ls, '\n' ∉ line)
    {s : List Char} (hs : s.head? = some '\n') :
    dropReturns (behindStars ls ++ s) = behindStars (ls.map chomp) ++ dropReturns s := by
  induction ls with
  | nil => rfl
  | cons line ls ih =>
      rw [List.forall_mem_cons] at h
      have hnext : (behindStars ls ++ s).head? = some '\n' := by
        cases ls with
        | nil => exact hs
        | cons => rfl
      rw [behindStars_cons_append, dropReturns_append (by decide), dropReturns_line h.1 hnext,
        ih h.2, List.map_cons, behindStars_cons_append]

/-- Line feeds at the end of a text of lines are those of the empty lines at its end. -/
theorem rdropWhile_lines (first : List Char) {c : Char} (hc : c ≠ '\n')
    {ls : List (List Char)} (h : ∀ line ∈ ls, '\n' ∉ line) :
    (first ++ c :: ls.flatMap fun line => '\n' :: line).rdropWhile (· == '\n')
      = first ++ c :: (ls.rdropWhile List.isEmpty).flatMap fun line => '\n' :: line := by
  induction ls using List.reverseRecOn with
  | nil => exact List.rdropWhile_concat_neg _ first c (by simpa using hc)
  | append_singleton ls line ih =>
      rw [List.forall_mem_append, List.forall_mem_singleton] at h
      rw [List.flatMap_append, List.flatMap_singleton]
      rcases List.eq_nil_or_concat' line with rfl | ⟨front, x, rfl⟩
      · rw [List.rdropWhile_concat_pos _ _ _ rfl, ← ih h.1, ← List.cons_append,
          ← List.append_assoc, List.rdropWhile_concat_pos _ _ _ rfl]
      · have hx : x ≠ '\n' := fun hx => h.2 (by simp [hx])
        rw [List.rdropWhile_concat_neg _ ls _ (by simp), List.flatMap_append,
          List.flatMap_singleton, ← List.cons_append, ← List.cons_append, ← List.append_assoc,
          ← List.append_assoc]
        exact List.rdropWhile_concat_neg _ _ _ (by simpa using hx)

/-- The cleaned comment has the lines that are left of the comment's. -/
theorem clean_lineBlock {ls : List (List Char)} (h : ∀ line ∈ ls, '\n' ∉ line) :
    clean (lineBlock ls) = join ['\n'] ("/**".toList :: content ls) := by
  have hchomped : ∀ line ∈ ls.map chomp, '\n' ∉ line :=
    List.forall_mem_map.mpr fun line hline hmem => h line hline ((isPrefix_chomp line).mem hmem)
  have hreturns : dropReturns (lineBlock ls) = lineBlock (ls.map chomp) := by
    rw [lineBlock, dropReturns_append (by decide), dropReturns_behindStars h rfl, lineBlock]
    rfl
  have hstars : undecorated (lineBlock (ls.map chomp))
      = ("/**".toList ++ (ls.map chomp).flatMap fun line => '\n' :: line) ++ "\n/".toList := by
    rw [lineBlock, undecorated_append (by decide), undecorated_behindStars hchomped,
      undecorated_closing, List.append_assoc]
  rw [clean, hreturns, ← undecorated, hstars, List.dropLast_append_of_ne_nil (by decide),
    dropEndWhile_eq_rdropWhile, join_cons_eq_flatMap]
  have hlast : "\n/".toList.dropLast = ['\n'] := rfl
  rw [hlast, List.rdropWhile_concat_pos _ _ _ rfl]
  exact rdropWhile_lines "/*".toList (c := '*') (by decide) hchomped

end DocTags.LiteralRows
