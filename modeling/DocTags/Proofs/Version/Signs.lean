import DocTags.Proofs.Pattern.Search
import DocTags.Proofs.Text.Lines
import DocTags.Version.Constraint

/-!
# Blanks behind signs

Attaching the operators of an alternative drops the blanks behind every sign that an operator can
consist of, one by one. So it joins the two signs of an operator as well, and it says nothing else
about the text: whatever is written in the closed text was written in the text itself, with blanks
behind its signs.
-/

namespace DocTags.Constraint

open Text Pattern

/-- The signs that may be followed by an equality sign. -/
def isComparison (c : Char) : Bool :=
  c == '<' || c == '>' || c == '!' || c == '='

/-- The signs that operators consist of. -/
def isSign (c : Char) : Bool :=
  isComparison c || (c == '^' || c == '~')

/-- The text without the blanks behind its signs. -/
def closeSigns : List Char → List Char
  | [] => []
  | c :: s => c :: closeSigns (if isSign c then s.dropWhile isBlank else s)
termination_by s => s.length
decreasing_by
  split
  · exact Nat.lt_succ_of_le (List.dropWhile_suffix isBlank).length_le
  · exact Nat.lt_succ_self _

@[simp] theorem closeSigns_nil : closeSigns [] = [] := by
  rw [closeSigns]

theorem closeSigns_cons_of_not {c : Char} (hc : isSign c = false) (s : List Char) :
    closeSigns (c :: s) = c :: closeSigns s := by
  rw [closeSigns, hc]
  rfl

/-- The blanks behind a sign are dropped. -/
theorem closeSigns_sign {c : Char} (hc : isSign c = true) {b s : List Char}
    (hb : ∀ x ∈ b, isBlank x = true) (hs : Stops isBlank s) :
    closeSigns (c :: (b ++ s)) = c :: closeSigns s := by
  rw [closeSigns, if_pos hc, dropWhile_append_of_stops hb hs]

/-- A text without signs stays as it is. -/
theorem closeSigns_append_of_forall {a : List Char} (ha : ∀ c ∈ a, isSign c = false)
    (s : List Char) : closeSigns (a ++ s) = a ++ closeSigns s := by
  induction a with
  | nil => rfl
  | cons c a ih =>
      rw [List.forall_mem_cons] at ha
      rw [List.cons_append, closeSigns_cons_of_not ha.1, ih ha.2, List.cons_append]

theorem length_closeSigns_le (s : List Char) : (closeSigns s).length ≤ s.length := by
  induction s using closeSigns.induct with
  | case1 => exact Nat.le_of_eq (congrArg List.length closeSigns_nil)
  | case2 c s ih =>
      rw [closeSigns]
      refine Nat.succ_le_succ (ih.trans ?_)
      split
      · exact (List.dropWhile_suffix isBlank).length_le
      · exact Nat.le_refl _

section Detached

variable {c : Char} {b s : List Char}

/-- A sign is detached from what follows if it has blanks behind it. -/
theorem reads_detachedOperator_sign (hc : isSign c = true) (hne : b ≠ [])
    (hb : ∀ x ∈ b, isBlank x = true) (hs : Stops isBlank s) :
    detachedOperator.Reads (c :: (b ++ s)) s [(.operator, ⟨c :: (b ++ s), b ++ s⟩)] := by
  have hequal : Stops (· == '=') (b ++ s) := by
    apply stops_append_of_ne_nil hne
    intro x hx
    exact beq_eq_false_iff_ne.mpr fun h => absurd (h ▸ hb x hx) (by decide)
  have hop : (alt (seq (char isComparison) (opt (char (· == '='))))
      (char fun c => c == '^' || c == '~') : Pattern Part).Reads (c :: (b ++ s)) (b ++ s) [] := by
    by_cases hcomparison : isComparison c = true
    · exact ((reads_char hcomparison).seq (reads_opt_of_fails (fails_char hequal))).alt_left
    · have hother : (c == '^' || c == '~') = true := by
        rw [isSign, Bool.or_eq_true] at hc
        exact hc.resolve_left hcomparison
      refine (reads_char hother).alt_right (fails_seq_left (fails_char ?_))
      simpa using hcomparison
  have h := (hop.group .operator).seq (reads_chars1 hne hb hs)
  exact h

/-- A comparison with an equality sign is detached if it has blanks behind it. -/
theorem reads_detachedOperator_equal (hc : isComparison c = true) (hne : b ≠ [])
    (hb : ∀ x ∈ b, isBlank x = true) (hs : Stops isBlank s) :
    detachedOperator.Reads (c :: '=' :: (b ++ s)) s
      [(.operator, ⟨c :: '=' :: (b ++ s), b ++ s⟩)] := by
  have hop : (alt (seq (char isComparison) (opt (char (· == '='))))
      (char fun c => c == '^' || c == '~') : Pattern Part).Reads (c :: '=' :: (b ++ s)) (b ++ s)
        [] :=
    ((reads_char hc).seq (reads_char rfl).opt).alt_left
  have h := (hop.group .operator).seq (reads_chars1 hne hb hs)
  exact h

/-- A detached operator is a sign with blanks behind it, perhaps with an equality sign between. -/
theorem exists_of_canRead_detachedOperator {s' : List Char}
    (h : detachedOperator.CanRead (c :: s) s') :
    isSign c = true ∧ (¬ Stops isBlank s
      ∨ isComparison c = true ∧ ∃ t, s = '=' :: t ∧ ¬ Stops isBlank t) := by
  obtain ⟨m, hop, hblanks⟩ := canRead_seq.mp h
  have hm : ¬ Stops isBlank m := by
    obtain ⟨b, hne, rfl, hb⟩ := canRead_chars1.mp hblanks
    obtain ⟨x, b, rfl⟩ := List.exists_cons_of_ne_nil hne
    simp [hb x]
  rcases canRead_alt.mp (canRead_group.mp hop) with hcompare | hother
  · obtain ⟨t, hfirst, hequal⟩ := canRead_seq.mp hcompare
    obtain ⟨d, hd, he⟩ := canRead_char.mp hfirst
    obtain ⟨rfl, rfl⟩ := List.cons.inj he
    have hcompares : isComparison c = true := hd
    refine ⟨by rw [isSign, hcompares, Bool.true_or], ?_⟩
    rcases canRead_opt.mp hequal with hequal | rfl
    · obtain ⟨e, hequals, rfl⟩ := canRead_char.mp hequal
      obtain rfl : e = '=' := by simpa using hequals
      exact .inr ⟨hcompares, m, rfl, hm⟩
    · exact .inl hm
  · obtain ⟨d, hd, he⟩ := canRead_char.mp hother
    obtain ⟨rfl, rfl⟩ := List.cons.inj he
    exact ⟨by rw [isSign, hd, Bool.or_true], .inl hm⟩

end Detached

/-- Blanks at the front of a text, and what follows them. -/
theorem exists_blanks_append (s : List Char) :
    ∃ b u, s = b ++ u ∧ (∀ x ∈ b, isBlank x = true) ∧ Stops isBlank u :=
  ⟨s.takeWhile isBlank, s.dropWhile isBlank, List.takeWhile_append_dropWhile.symm,
    fun _ => List.mem_takeWhile_imp, stops_dropWhile isBlank s⟩

/-- Attaching the operators drops the blanks behind signs. -/
theorem attachOperators_eq_closeSigns (s : List Char) : attachOperators s = closeSigns s := by
  match s with
  | [] => rw [attachOperators, replace_nil rfl, closeSigns_nil]
  | c :: t =>
    obtain ⟨b, u, rfl, hb, hu⟩ := exists_blanks_append t
    by_cases hfails : detachedOperator.Fails (c :: (b ++ u))
    · have hkeep : closeSigns (c :: (b ++ u)) = c :: closeSigns (b ++ u) := by
        cases hc : isSign c with
        | false => exact closeSigns_cons_of_not hc _
        | true =>
            have hnil : b = [] := by
              by_contra hne
              exact fails_iff.mp hfails u (reads_detachedOperator_sign hc hne hb hu).canRead
            rw [closeSigns_sign hc hb hu, hnil, List.nil_append]
      rw [attachOperators, replace_cons_of_fails rfl hfails, ← attachOperators,
        attachOperators_eq_closeSigns (b ++ u), hkeep]
    · obtain ⟨s', hread⟩ : ∃ s', detachedOperator.CanRead (c :: (b ++ u)) s' := by
        simpa [fails_iff] using hfails
      obtain ⟨hc, hdetached⟩ := exists_of_canRead_detachedOperator hread
      by_cases hne : b = []
      · -- No blanks stand behind the sign, so an equality sign with blanks behind it does.
        rw [hne, List.nil_append] at hdetached ⊢
        obtain ⟨hcomparison, w, rfl, hblank⟩ := hdetached.resolve_left fun h => h hu
        obtain ⟨b', v, rfl, hb', hv⟩ := exists_blanks_append w
        have hne' : b' ≠ [] := by
          rintro rfl
          exact hblank hv
        have hlt : v.length < (c :: (b ++ '=' :: (b' ++ v))).length := by
          simp only [List.length_cons, List.length_append]
          omega
        have hequal : closeSigns (c :: '=' :: (b' ++ v)) = c :: '=' :: closeSigns v := by
          have hsign := closeSigns_sign hc (b := []) (List.forall_mem_nil _) hu
          rw [List.nil_append] at hsign
          rw [hsign, closeSigns_sign rfl hb' hv]
        rw [attachOperators,
          replace_of_reads rfl (reads_detachedOperator_equal hcomparison hne' hb' hv),
          ← attachOperators, attachOperators_eq_closeSigns v, hequal]
        have htext : (Span.mk (c :: '=' :: (b' ++ v)) (b' ++ v)).text = [c, '='] :=
          Span.text_append [c, '='] (b' ++ v)
        simp [Match.groupD, Match.group?, htext]
      · have hlt : u.length < (c :: (b ++ u)).length := by
          simp only [List.length_cons, List.length_append]
          omega
        rw [attachOperators, replace_of_reads rfl (reads_detachedOperator_sign hc hne hb hu),
          ← attachOperators, attachOperators_eq_closeSigns u, closeSigns_sign hc hb hu]
        have htext : (Span.mk (c :: (b ++ u)) (b ++ u)).text = [c] := Span.text_append [c] (b ++ u)
        simp [Match.groupD, Match.group?, htext]
termination_by s.length

theorem eq_nil_of_closeSigns_eq_nil {s : List Char} (h : closeSigns s = []) : s = [] := by
  cases s with
  | nil => rfl
  | cons c s =>
      rw [closeSigns] at h
      exact absurd h (List.cons_ne_nil _ _)

/-- A closed text starts as the text that it was written from, and behind a sign there were blanks.
-/
theorem exists_of_closeSigns_eq_cons {s a : List Char} {c : Char} (h : closeSigns s = c :: a) :
    ∃ b u, s = c :: (b ++ u) ∧ closeSigns u = a ∧ (∀ x ∈ b, isBlank x = true)
      ∧ (isSign c = true → Stops isBlank u) ∧ (isSign c = false → b = []) := by
  cases s with
  | nil => simp at h
  | cons d s =>
      cases hd : isSign d with
      | false =>
          rw [closeSigns_cons_of_not hd] at h
          obtain ⟨rfl, rfl⟩ := List.cons.inj h
          exact ⟨[], s, rfl, rfl, List.forall_mem_nil _, by simp [hd], fun _ => rfl⟩
      | true =>
          obtain ⟨b, u, rfl, hb, hu⟩ := exists_blanks_append s
          rw [closeSigns_sign hd hb hu] at h
          obtain ⟨rfl, rfl⟩ := List.cons.inj h
          exact ⟨b, u, rfl, rfl, hb, fun _ => hu, by simp [hd]⟩

/-- A front of a closed text was written as a front of the text. -/
theorem exists_of_closeSigns_eq_append {s a r : List Char} (h : closeSigns s = a ++ r) :
    ∃ t u, s = t ++ u ∧ closeSigns t = a ∧ closeSigns u = r := by
  induction a generalizing s with
  | nil => exact ⟨[], s, rfl, closeSigns_nil, h⟩
  | cons c a ih =>
      obtain ⟨b, v, rfl, hv, hb, hsign, hother⟩ := exists_of_closeSigns_eq_cons h
      obtain ⟨t, u, rfl, ht, hu⟩ := ih hv
      refine ⟨c :: (b ++ t), u, by simp, ?_, hu⟩
      cases hc : isSign c with
      | false => rw [hother hc, List.nil_append, closeSigns_cons_of_not hc, ht]
      | true =>
          have hstops : Stops isBlank t := by
            intro x hx
            exact hsign hc x (by simp [Option.mem_def.mp hx])
          rw [closeSigns_sign hc hb hstops, ht]

/-- A closed text without signs is the text that it was written from. -/
theorem eq_of_closeSigns_eq {s a : List Char} (h : closeSigns s = a)
    (ha : ∀ c ∈ a, isSign c = false) : s = a := by
  induction a generalizing s with
  | nil => exact eq_nil_of_closeSigns_eq_nil h
  | cons c a ih =>
      rw [List.forall_mem_cons] at ha
      obtain ⟨b, u, rfl, hu, -, -, hother⟩ := exists_of_closeSigns_eq_cons h
      rw [hother ha.1, List.nil_append, ih hu ha.2]

end DocTags.Constraint
