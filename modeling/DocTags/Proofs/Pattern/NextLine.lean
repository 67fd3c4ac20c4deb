import DocTags.Proofs.Pattern.LineEnds

/-!
# Blanks in front of the next line

A pattern may read blanks across the end of a line. If what comes behind the blanks cannot be read
on the next line, the pattern does not notice that there is one, and the matches in a line and in
the lines behind it are found apart.
-/

namespace DocTags.Pattern

variable {κ : Type} {p q : Pattern κ} {accepts : Char → Bool} {s e : List Char} {y : Char}
  {P : Char → Prop}

/-- A repetition in front of a pattern goes on as long as it can, and then the pattern is tried
where it could have stopped. -/
theorem outcomes_chars_seq_cons (accepts : Char → Bool) (q : Pattern κ) (x : Char) (s : List Char) :
    (seq (chars accepts) q).outcomes (x :: s)
      = (if accepts x then (seq (chars accepts) q).outcomes s else []) ++ q.outcomes (x :: s) := by
  rw [outcomes, outcomes_chars_cons, followedBy_append, followedBy_singleton]
  cases accepts x <;> rfl

theorem outcomes_chars_seq_nil (accepts : Char → Bool) (q : Pattern κ) :
    (seq (chars accepts) q).outcomes [] = q.outcomes [] := by
  rw [outcomes, chars, outcomes_star_greedy rfl]
  simp [outcomes, followedBy]

theorem outcomes_chars1_seq_cons (accepts : Char → Bool) (q : Pattern κ) (x : Char)
    (s : List Char) :
    (seq (chars1 accepts) q).outcomes (x :: s)
      = if accepts x then (seq (chars accepts) q).outcomes s else [] := by
  rw [outcomes, outcomes_chars1_cons]
  cases accepts x <;> rfl

/-- Blanks do not notice the next line if what comes behind them cannot be read there. -/
theorem Follows.chars_seq (hq : q.Follows (· ++ y :: e))
    (he : (Pattern.seq (chars accepts) q).Fails e) :
    (Pattern.seq (chars accepts) q).Follows (· ++ y :: e) := by
  intro s
  induction s with
  | nil =>
      have hfront : (Pattern.seq (chars accepts) q).outcomes (y :: e) = q.outcomes (y :: e) := by
        rw [outcomes_chars_seq_cons, he, ite_self, List.nil_append]
      have hself := hq []
      simp only [List.nil_append] at hself ⊢
      rw [hfront, outcomes_chars_seq_nil, hself]
  | cons x s ih =>
      have hself := hq (x :: s)
      simp only [List.cons_append] at hself ⊢
      rw [outcomes_chars_seq_cons, outcomes_chars_seq_cons, List.map_append, List.map_append, hself]
      cases accepts x with
      | true => rw [if_pos rfl, if_pos rfl, ih]
      | false => rfl

theorem Follows.chars1_seq (hq : q.Follows (· ++ y :: e))
    (he : (Pattern.seq (chars accepts) q).Fails e) :
    (Pattern.seq (chars1 accepts) q).Follows (· ++ y :: e) := by
  intro s
  cases s with
  | nil =>
      have hfront : (Pattern.seq (chars1 accepts) q).outcomes (y :: e) = [] := by
        rw [outcomes_chars1_seq_cons, he, ite_self]
      have hnil : (Pattern.seq (chars1 accepts) q).outcomes [] = [] := rfl
      simp only [List.nil_append, hfront, hnil, List.map_nil]
  | cons x s =>
      simp only [List.cons_append, outcomes_chars1_seq_cons]
      cases accepts x with
      | true => exact hq.chars_seq he s
      | false => rfl

theorem preferred_append (rs rs' : List (Outcome κ)) :
    ((rs ++ rs').head?.map fun r => texts r.2)
      = (rs.head?.map fun r => texts r.2).or (rs'.head?.map fun r => texts r.2) := by
  cases rs <;> rfl

theorem preferred_chars_seq_nil (accepts : Char → Bool) (q : Pattern κ) :
    (Pattern.seq (chars accepts) q).preferred [] = q.preferred [] := by
  rw [preferred, outcomes_chars_seq_nil, preferred]

theorem preferred_chars_seq_cons (accepts : Char → Bool) (q : Pattern κ) (x : Char)
    (s : List Char) :
    (Pattern.seq (chars accepts) q).preferred (x :: s)
      = (if accepts x then (Pattern.seq (chars accepts) q).preferred s else none).or
        (q.preferred (x :: s)) := by
  rw [preferred, outcomes_chars_seq_cons, preferred_append, preferred, preferred]
  cases accepts x <;> rfl

theorem Agrees.chars_seq (hq : q.Agrees (· ++ y :: e) P)
    (he : (Pattern.seq (chars accepts) q).Fails e) :
    (Pattern.seq (chars accepts) q).Agrees (· ++ y :: e) P := by
  intro s hs
  induction s with
  | nil =>
      have hself := hq [] hs
      simp only [List.nil_append] at hself ⊢
      rw [preferred_chars_seq_cons, preferred_of_fails he, ite_self, Option.none_or,
        preferred_chars_seq_nil, hself]
  | cons x s ih =>
      have hself := hq (x :: s) hs
      simp only [List.cons_append] at hself ⊢
      rw [preferred_chars_seq_cons, preferred_chars_seq_cons, hself,
        ih (List.forall_mem_cons.mp hs).2]

theorem Agrees.chars1_seq (hq : q.Agrees (· ++ y :: e) P)
    (he : (Pattern.seq (chars accepts) q).Fails e) :
    (Pattern.seq (chars1 accepts) q).Agrees (· ++ y :: e) P := by
  intro s hs
  cases s with
  | nil =>
      have hfront : (Pattern.seq (chars1 accepts) q).Fails (y :: e) := by
        rw [Fails, outcomes_chars1_seq_cons, he, ite_self]
      exact preferred_of_fails hfront
  | cons x s =>
      simp only [List.cons_append, preferred, outcomes_chars1_seq_cons]
      cases accepts x with
      | true => exact hq.chars_seq he s (List.forall_mem_cons.mp hs).2
      | false => rfl

/-- Where a pattern does not fail, it reads the same in front of what it does not notice. -/
theorem exists_reads_append (hp : p.consumes = true) (hfollows : p.Follows (· ++ e))
    (hfails : ¬ p.Fails s) :
    ∃ t c c', p.Reads s t c ∧ p.Reads (s ++ e) (t ++ e) c' ∧ texts c' = texts c
      ∧ t.length < s.length := by
  obtain ⟨t, ht⟩ := not_forall_not.mp (mt fails_iff.mpr hfails)
  obtain ⟨t, c, hreads⟩ := ht.exists_reads
  obtain ⟨c', hreads', htexts⟩ := hfollows.reads hreads
  exact ⟨t, c, c', hreads, hreads', htexts, hreads.canRead.length_lt hp⟩

/-- The matches in a text are found apart from those behind it, if the pattern does not notice what
stands there. -/
theorem foundAll_append (hp : p.consumes = true) (hfollows : p.Follows (· ++ e)) (s : List Char) :
    p.foundAll (s ++ e) = p.foundAll s ++ p.foundAll e := by
  match s with
  | [] => rw [foundAll_nil hp, List.nil_append, List.nil_append]
  | c :: s =>
      by_cases hfails : p.Fails (c :: s)
      · have hfails' : p.Fails (c :: (s ++ e)) := (hfollows.fails_iff (c :: s)).mpr hfails
        rw [List.cons_append, foundAll_cons_of_fails hp hfails', foundAll_cons_of_fails hp hfails,
          foundAll_append hp hfollows s]
      · obtain ⟨t, _, _, hreads, hreads', htexts, hlt⟩ := exists_reads_append hp hfollows hfails
        rw [foundAll_of_reads hp hreads', foundAll_of_reads hp hreads, htexts,
          foundAll_append hp hfollows t, List.cons_append]
termination_by s.length
decreasing_by
  · exact Nat.lt_succ_self _
  · exact hlt

/-- In the same way the matches in a text are written over apart from those behind it. -/
theorem replace_append (hp : p.consumes = true) (hfollows : p.Follows (· ++ e))
    (out s : List Char) : p.replace (fun _ => out) (s ++ e)
      = p.replace (fun _ => out) s ++ p.replace (fun _ => out) e := by
  match s with
  | [] => rw [replace_nil hp, List.nil_append, List.nil_append]
  | c :: s =>
      by_cases hfails : p.Fails (c :: s)
      · have hfails' : p.Fails (c :: (s ++ e)) := (hfollows.fails_iff (c :: s)).mpr hfails
        rw [List.cons_append, replace_cons_of_fails hp hfails', replace_cons_of_fails hp hfails,
          replace_append hp hfollows out s, List.cons_append]
      · obtain ⟨t, _, _, hreads, hreads', -, hlt⟩ := exists_reads_append hp hfollows hfails
        rw [replace_of_reads hp hreads', replace_of_reads hp hreads,
          replace_append hp hfollows out t, List.append_assoc]
termination_by s.length
decreasing_by
  · exact Nat.lt_succ_self _
  · exact hlt

theorem foundAll_append_of_misses (hp : p.consumes = true) {a : List Char} (h : p.Misses a s) :
    p.foundAll (a ++ s) = p.foundAll s := by
  induction a with
  | nil => rfl
  | cons x a ih =>
      obtain ⟨hx, ha⟩ := misses_cons.mp h
      rw [List.cons_append, foundAll_cons_of_fails hp hx, ih ha]

theorem found_append_of_misses {a : List Char} (h : p.Misses a s) :
    p.found (a ++ s) = p.found s := by
  rw [found, found, search?_append_of_misses h]

end DocTags.Pattern
