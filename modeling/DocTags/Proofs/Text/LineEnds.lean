import DocTags.Proofs.Text.Lines
import DocTags.Pattern.Basic

/-!
# Line feeds with carriage returns

A text in which line feeds end the lines can be written with a carriage return in front of each of
them. Where there were no carriage returns before, unifying the line ends and dropping the returns
give the text back, and its lines are the old ones with a return at their end, the last one apart.
-/

namespace DocTags.Text

variable {s t a : List Char} {c : Char}

/-- Writes a carriage return in front of every line feed. -/
def addReturns : List Char → List Char
  | [] => []
  | c :: s => if c = '\n' then '\r' :: '\n' :: addReturns s else c :: addReturns s

@[simp] theorem addReturns_nil : addReturns [] = [] := rfl

@[simp] theorem addReturns_feed (s : List Char) :
    addReturns ('\n' :: s) = '\r' :: '\n' :: addReturns s := by
  rw [addReturns, if_pos rfl]

theorem addReturns_cons (h : c ≠ '\n') (s : List Char) :
    addReturns (c :: s) = c :: addReturns s := by
  rw [addReturns, if_neg h]

theorem addReturns_append (s t : List Char) :
    addReturns (s ++ t) = addReturns s ++ addReturns t := by
  induction s with
  | nil => rfl
  | cons c s ih =>
      by_cases hc : c = '\n'
      · subst hc
        rw [List.cons_append, addReturns_feed, addReturns_feed, ih, List.cons_append,
          List.cons_append]
      · rw [List.cons_append, addReturns_cons hc, addReturns_cons hc, ih, List.cons_append]

theorem addReturns_of_not_mem (h : '\n' ∉ s) : addReturns s = s := by
  induction s with
  | nil => rfl
  | cons c s ih =>
      rw [List.mem_cons, not_or] at h
      rw [addReturns_cons (Ne.symm h.1), ih h.2]

/-- A text with returns does not start with a line feed. -/
theorem head?_addReturns_ne (s : List Char) : (addReturns s).head? ≠ some '\n' := by
  cases s with
  | nil => simp
  | cons c s =>
      by_cases hc : c = '\n'
      · subst hc
        simp
      · simp [addReturns_cons hc, hc]

/-- What stands in front of a line feed in a text with returns holds a return. -/
theorem mem_of_addReturns_eq (h : addReturns s = a ++ '\n' :: t) : '\r' ∈ a := by
  induction s generalizing a with
  | nil => simp at h
  | cons c s ih =>
      cases a with
      | nil => exact absurd (congrArg List.head? h) (head?_addReturns_ne (c :: s))
      | cons x a =>
          by_cases hc : c = '\n'
          · subst hc
            rw [addReturns_feed, List.cons_append] at h
            exact List.mem_cons.mpr (.inl (List.cons.inj h).1)
          · rw [addReturns_cons hc, List.cons_append] at h
            exact List.mem_cons_of_mem x (ih (List.cons.inj h).2)

/-- A stretch of a line is the same stretch of the text with returns. -/
theorem text_addReturns (ha : '\n' ∉ a) (t : List Char) :
    (Span.mk (addReturns (a ++ t)) (addReturns t)).text = (Span.mk (a ++ t) t).text := by
  rw [addReturns_append, addReturns_of_not_mem ha, Span.text_append, Span.text_append]

theorem unifyLineEnds_addReturns (h : '\r' ∉ s) : unifyLineEnds (addReturns s) = s := by
  induction s with
  | nil => rfl
  | cons c s ih =>
      rw [List.mem_cons, not_or] at h
      by_cases hc : c = '\n'
      · subst hc
        rw [addReturns_feed, unifyLineEnds, ih h.2]
      · have hreturn : c ≠ '\r' := Ne.symm h.1
        rw [addReturns_cons hc, unifyLineEnds, ih h.2]
        · exact fun _ hr => absurd hr hreturn
        · exact hreturn

theorem dropReturns_addReturns (h : '\r' ∉ s) : dropReturns (addReturns s) = s := by
  induction s with
  | nil => rfl
  | cons c s ih =>
      rw [List.mem_cons, not_or] at h
      by_cases hc : c = '\n'
      · subst hc
        rw [addReturns_feed, dropReturns, ih h.2]
      · rw [addReturns_cons hc, dropReturns_cons (.inl (Ne.symm h.1)), ih h.2]

/-- The physical lines are the same. -/
theorem lines_addReturns (h : '\r' ∉ s) : lines (addReturns s) = lines s := by
  rw [lines, lines, unifyLineEnds_addReturns h, unifyLineEnds_of_not_mem h]

/-- What is taken from the lines is the same if a return at the end of a line does not count. -/
theorem filterMap_splitAt_addReturns {β : Type} {f : List Char → Option β}
    (hf : ∀ line, '\n' ∉ line → '\r' ∉ line → f (line ++ ['\r']) = f line) (s : List Char)
    (hs : '\r' ∉ s) :
    (splitAt '\n' (addReturns s)).filterMap f = (splitAt '\n' s).filterMap f := by
  by_cases hfeed : '\n' ∈ s
  · obtain ⟨line, rest, rfl, hline⟩ := List.eq_append_cons_of_mem hfeed
    simp only [List.mem_append, List.mem_cons, not_or] at hs
    obtain ⟨hreturn, -, hrest⟩ := hs
    have hlt : rest.length < (line ++ '\n' :: rest).length := by
      rw [List.length_append, List.length_cons]
      omega
    have hcut :
        addReturns (line ++ '\n' :: rest) = (line ++ ['\r']) ++ '\n' :: addReturns rest := by
      rw [addReturns_append, addReturns_of_not_mem hline, addReturns_feed, List.append_assoc,
        List.singleton_append]
    have hline' : '\n' ∉ line ++ ['\r'] := by simp [hline]
    rw [hcut, splitAt_append_cons hline', splitAt_append_cons hline, List.filterMap_cons,
      List.filterMap_cons, hf line hline hreturn, filterMap_splitAt_addReturns hf rest hrest]
  · rw [addReturns_of_not_mem hfeed]
termination_by s.length

/-- The text is a comment with its delimiters, and line feeds alone end its lines. -/
structure IsComment (s : List Char) : Prop where
  opens : "/**".toList <+: s
  closes : "*/".toList <:+ s
  not_mem : '\r' ∉ s

instance : Decidable (IsComment s) :=
  decidable_of_iff ("/**".toList <+: s ∧ "*/".toList <:+ s ∧ '\r' ∉ s)
    ⟨fun ⟨h, h', h''⟩ => ⟨h, h', h''⟩, fun ⟨h, h', h''⟩ => ⟨h, h', h''⟩⟩

/-- A comment has its delimiters around a body, or it is the shortest one. -/
theorem IsComment.cases (h : IsComment s) :
    s = "/**/".toList ∨ ∃ body, s = "/**".toList ++ (body ++ "*/".toList) := by
  obtain ⟨t, rfl⟩ := h.opens
  obtain ⟨u, hu⟩ := h.closes
  match u with
  | [] | [_] => cases t <;> simp at hu
  | ['/', '*'] => exact .inl hu.symm
  | a :: b :: c :: body =>
      have hcut : [a, b, c] ++ (body ++ "*/".toList) = "/**".toList ++ t := hu
      have ht : body ++ "*/".toList = t := List.append_inj_right hcut rfl
      exact .inr ⟨body, by rw [ht]⟩
  | [_, _] => simp_all

theorem stripDelimiters_append (body : List Char) :
    stripDelimiters ("/**".toList ++ (body ++ "*/".toList)) = body := by
  have hlength : ("/**".toList ++ (body ++ "*/".toList)).length - 2
      = ("/**".toList ++ body).length := by
    simp only [List.length_append]
    rfl
  rw [stripDelimiters, hlength, ← List.append_assoc, List.take_left]
  rfl

/-- Returns come into the body of a comment only. -/
theorem IsComment.stripDelimiters_addReturns (h : IsComment s) :
    stripDelimiters (addReturns s) = addReturns (stripDelimiters s) := by
  rcases h.cases with rfl | ⟨body, rfl⟩
  · rfl
  · have hopen : addReturns "/**".toList = "/**".toList := rfl
    have hclose : addReturns "*/".toList = "*/".toList := rfl
    rw [addReturns_append, addReturns_append, hopen, hclose, stripDelimiters_append,
      stripDelimiters_append]

theorem IsComment.not_mem_stripDelimiters (h : IsComment s) : '\r' ∉ stripDelimiters s :=
  fun hmem => h.not_mem (List.mem_of_mem_take (List.mem_of_mem_drop hmem))

end DocTags.Text
