import DocTags.Proofs.Pattern.Translation
import DocTags.Proofs.Text.LineEnds

/-!
# Patterns on texts with carriage returns

In front of a line feed a carriage return can be read by some classes of characters, so a pattern
has more outcomes on a text with returns: those that leave a line feed and have read its return.
Apart from them the outcomes are those on the text without returns, and a pattern that fails in
front of a line feed cannot go on from them.
-/

namespace DocTags.Pattern

open Text

variable {κ : Type} {p q : Pattern κ} {s t : List Char} {accepts : Char → Bool}

/-- The text does not go on with a line feed. -/
def isBeforeFeed (s : List Char) : Bool :=
  s.head? == some '\n'

/-- The outcomes on a text with returns are those on the text, apart from those that leave a line
feed whose return they have read. -/
def FollowsReturns (p : Pattern κ) : Prop :=
  ∀ s, ((p.outcomes (addReturns s)).filter fun r => !isBeforeFeed r.1).map (shown id)
    = (p.outcomes s).map (shown addReturns)

theorem isBeforeFeed_addReturns (s : List Char) : isBeforeFeed (addReturns s) = false := by
  rw [isBeforeFeed, beq_eq_false_iff_ne]
  exact head?_addReturns_ne s

@[simp] theorem isBeforeFeed_feed (s : List Char) : isBeforeFeed ('\n' :: s) = true := rfl

theorem isBeforeFeed_iff : isBeforeFeed s = true ↔ ∃ t, s = '\n' :: t := by
  rw [isBeforeFeed, beq_iff_eq]
  exact List.head?_eq_some_iff

/-- A pattern that avoids line feeds stays in front of one. -/
theorem isBeforeFeed_of_mem_outcomes (hp : p.avoids '\n' = true) (hs : isBeforeFeed s = true) :
    ∀ r ∈ p.outcomes s, isBeforeFeed r.1 = true := by
  intro r hr
  obtain ⟨u, rfl⟩ := isBeforeFeed_iff.mp hs
  obtain ⟨a, ha, hmem⟩ := exists_not_mem_of_avoids p hp _ r hr
  cases a with
  | nil => rw [← List.nil_append r.1, ← ha, isBeforeFeed_feed]
  | cons c a =>
      rw [List.cons_append] at ha
      exact absurd ((List.cons.inj ha).1 ▸ List.mem_cons_self) hmem

/-- Outcomes can be left out before others follow if nothing that follows them is kept. -/
theorem filter_followedBy (keep : List Char → Bool) {rs : List (Outcome κ)}
    {next : List Char → List (Outcome κ)}
    (h : ∀ r ∈ rs, keep r.1 = false → ∀ r' ∈ next r.1, keep r'.1 = false) :
    (followedBy rs next).filter (fun r => keep r.1)
      = followedBy (rs.filter fun r => keep r.1) fun s => (next s).filter fun r => keep r.1 := by
  induction rs with
  | nil => rfl
  | cons r rs ih =>
      rw [List.forall_mem_cons] at h
      have hfront : ((next r.1).map fun r' => (r'.1, r'.2 ++ r.2)).filter (fun r => keep r.1)
          = ((next r.1).filter fun r => keep r.1).map fun r' => (r'.1, r'.2 ++ r.2) :=
        List.filter_map
      rw [followedBy_cons, List.filter_append, ih h.2, hfront, List.filter_cons]
      cases hr : keep r.1 with
      | true => rw [if_pos rfl, followedBy_cons]
      | false =>
          have hnone : (next r.1).filter (fun r => keep r.1) = [] := by
            rw [List.filter_eq_nil_iff]
            intro r' hr'
            simp [h.1 hr r' hr']
          rw [if_neg Bool.false_ne_true, hnone, List.map_nil, List.nil_append]

/-- Outcomes can be left out if nothing can follow them. -/
theorem followedBy_filter (keep : List Char → Bool) {rs : List (Outcome κ)}
    {next : List Char → List (Outcome κ)} (h : ∀ r ∈ rs, keep r.1 = false → next r.1 = []) :
    followedBy (rs.filter fun r => keep r.1) next = followedBy rs next := by
  induction rs with
  | nil => rfl
  | cons r rs ih =>
      rw [List.forall_mem_cons] at h
      rw [followedBy_cons, List.filter_cons]
      cases hr : keep r.1 with
      | true => rw [if_pos rfl, followedBy_cons, ih h.2]
      | false =>
          rw [if_neg Bool.false_ne_true, ih h.2, h.1 hr, List.map_nil, List.nil_append]

theorem followsReturns_char (h : accepts '\n' = false) :
    (char accepts : Pattern κ).FollowsReturns := by
  intro s
  cases s with
  | nil => rfl
  | cons c s =>
      by_cases hc : c = '\n'
      · subst hc
        rw [addReturns_feed]
        cases hr : accepts '\r' <;> simp [outcomes, h, hr]
      · rw [addReturns_cons hc]
        cases hr : accepts c <;> simp [outcomes, hr, isBeforeFeed_addReturns, shown]

theorem FollowsReturns.seq (hp : p.FollowsReturns) (hq : q.FollowsReturns)
    (hfeed : q.avoids '\n' = true) : (Pattern.seq p q).FollowsReturns := by
  intro s
  have hstay : ∀ r ∈ p.outcomes (addReturns s), (!isBeforeFeed r.1) = false →
      ∀ r' ∈ q.outcomes r.1, (!isBeforeFeed r'.1) = false := by
    intro r _ hr r' hr'
    rw [Bool.not_eq_false'] at hr ⊢
    exact isBeforeFeed_of_mem_outcomes hfeed hr r' hr'
  rw [outcomes, outcomes, filter_followedBy (fun t => !isBeforeFeed t) hstay]
  exact followedBy_follows (hp s) fun r _ => hq r.1

theorem FollowsReturns.star (hb : p.consumes = true) (hp : p.FollowsReturns)
    (hfeed : p.avoids '\n' = true) (g : Greed) : (Pattern.star g p).FollowsReturns := by
  intro s
  have hstay : ∀ r ∈ p.outcomes (addReturns s), (!isBeforeFeed r.1) = false →
      ∀ r' ∈ (Pattern.star g p).outcomes r.1, (!isBeforeFeed r'.1) = false := by
    intro r _ hr r' hr'
    rw [Bool.not_eq_false'] at hr ⊢
    exact isBeforeFeed_of_mem_outcomes (p := .star g p) hfeed hr r' hr'
  have hround : ∀ r ∈ p.outcomes s,
      (((Pattern.star g p).outcomes (addReturns r.1)).filter fun r => !isBeforeFeed r.1).map
        (shown id) = ((Pattern.star g p).outcomes r.1).map (shown addReturns) := by
    intro r hr
    have hlt : r.1.length < s.length := length_lt_of_consumes p hb s r hr
    exact FollowsReturns.star hb hp hfeed g r.1
  have hself : ([(addReturns s, [])] : List (Outcome κ)).filter (fun r => !isBeforeFeed r.1)
      = [(addReturns s, [])] := by
    simp [isBeforeFeed_addReturns]
  cases g with
  | greedy =>
      rw [outcomes_star_greedy hb, outcomes_star_greedy hb, List.filter_append, hself,
        filter_followedBy (fun t => !isBeforeFeed t) hstay, List.map_append,
        List.map_append, followedBy_follows (hp s) hround]
      rfl
  | lazy =>
      rw [outcomes_star_lazy hb, outcomes_star_lazy hb, ← List.singleton_append,
        List.filter_append, hself, filter_followedBy (fun t => !isBeforeFeed t) hstay,
        List.map_append, followedBy_follows (hp s) hround]
      rfl
termination_by s => s.length

/-- What a pattern that avoids line feeds reads is the same text with returns behind it. -/
theorem CanRead.text_addReturns (h : p.CanRead s t) (hp : p.avoids '\n' = true) :
    (Span.mk (addReturns s) (addReturns t)).text = (Span.mk s t).text := by
  obtain ⟨a, rfl, ha⟩ := h.exists_not_mem hp
  exact Text.text_addReturns ha t

theorem FollowsReturns.group (hp : p.FollowsReturns) (hfeed : p.avoids '\n' = true) (name : κ) :
    (Pattern.group name p).FollowsReturns := by
  intro s
  have hkept : ((Pattern.group name p).outcomes (addReturns s)).filter
        (fun r => !isBeforeFeed r.1)
      = ((p.outcomes (addReturns s)).filter fun r => !isBeforeFeed r.1).map
        fun r => (r.1, (name, Span.mk (addReturns s) r.1) :: r.2) :=
    List.filter_map
  rw [hkept, outcomes]
  exact map_shown_group name (hp s) fun r hr => CanRead.text_addReturns ⟨r.2, hr⟩ hfeed

/-- A plain pattern that avoids line feeds follows the returns. -/
theorem followsReturns_of_isPlain (p : Pattern κ) (hplain : p.isPlain = true)
    (hfeed : p.avoids '\n' = true) : p.FollowsReturns := by
  induction p with
  | empty =>
      intro s
      simp [outcomes, isBeforeFeed_addReturns, shown]
  | char accepts => exact followsReturns_char (by simpa [avoids, everyClass] using hfeed)
  | seq p q ihp ihq =>
      obtain ⟨hplain, hplain'⟩ := Bool.and_eq_true_iff.mp hplain
      obtain ⟨hp, hq⟩ := Bool.and_eq_true_iff.mp hfeed
      exact (ihp hplain hp).seq (ihq hplain' hq) hq
  | alt p q ihp ihq =>
      obtain ⟨hplain, hplain'⟩ := Bool.and_eq_true_iff.mp hplain
      obtain ⟨hp, hq⟩ := Bool.and_eq_true_iff.mp hfeed
      intro s
      rw [outcomes, outcomes, List.filter_append, List.map_append, List.map_append,
        ihp hplain hp s, ihq hplain' hq s]
  | star g p ih =>
      obtain ⟨hb, hplain⟩ := Bool.and_eq_true_iff.mp hplain
      exact .star hb (ih hplain hfeed) hfeed g
  | group name p ih => exact (ih hplain hfeed).group hfeed name
  | lineEnd | textEnd => cases hplain

/-- A plain pattern that avoids returns as well has the same outcomes. -/
theorem follows_addReturns (hplain : p.isPlain = true) (hfeed : p.avoids '\n' = true)
    (hreturn : p.avoids '\r' = true) : p.Follows addReturns := by
  intro s
  have hkept : (p.outcomes (addReturns s)).filter (fun r => !isBeforeFeed r.1)
      = p.outcomes (addReturns s) := by
    rw [List.filter_eq_self]
    intro r hr
    rw [Bool.not_eq_true', ← Bool.not_eq_true, isBeforeFeed_iff]
    rintro ⟨u, hu⟩
    obtain ⟨a, ha, hmem⟩ := exists_not_mem_of_avoids p hreturn _ r hr
    rw [hu] at ha
    exact hmem (mem_of_addReturns_eq ha)
  rw [← hkept]
  exact followsReturns_of_isPlain p hplain hfeed s

theorem outcomes_chars_cons (accepts : Char → Bool) (c : Char) (s : List Char) :
    (chars accepts : Pattern κ).outcomes (c :: s)
      = (if accepts c then (chars accepts).outcomes s else []) ++ [(c :: s, [])] := by
  rw [chars, outcomes_star_greedy rfl]
  cases hc : accepts c <;> simp [outcomes, hc, followedBy]

theorem outcomes_chars1_cons (accepts : Char → Bool) (c : Char) (s : List Char) :
    (chars1 accepts : Pattern κ).outcomes (c :: s)
      = if accepts c then (chars accepts).outcomes s else [] := by
  rw [chars1, plus, outcomes]
  cases hc : accepts c <;> simp [outcomes, hc, followedBy, chars]

/-- A class with both line ends follows the returns. -/
theorem followsReturns_chars (hreturn : accepts '\r' = true) (hfeed : accepts '\n' = true) :
    (chars accepts : Pattern κ).FollowsReturns := by
  intro s
  induction s with
  | nil => rfl
  | cons c s ih =>
      by_cases hc : c = '\n'
      · subst hc
        have hself : isBeforeFeed ('\r' :: '\n' :: addReturns s) = false := rfl
        rw [addReturns_feed, outcomes_chars_cons, if_pos hreturn, outcomes_chars_cons,
          if_pos hfeed, outcomes_chars_cons, if_pos hfeed]
        simp only [List.filter_append, List.filter_cons, isBeforeFeed_feed, hself, List.filter_nil,
          Bool.not_true, Bool.not_false, Bool.false_eq_true, if_true, if_false, List.append_nil,
          List.map_append, ih]
        rw [← addReturns_feed]
        rfl
      · have hself : isBeforeFeed (c :: addReturns s) = false := by
          rw [← addReturns_cons hc]
          exact isBeforeFeed_addReturns _
        rw [addReturns_cons hc, outcomes_chars_cons, outcomes_chars_cons]
        cases accepts c with
        | true =>
            simp only [List.filter_append, List.filter_cons, hself, List.filter_nil, Bool.not_false,
              if_true, List.map_append, ih]
            rw [← addReturns_cons hc]
            rfl
        | false =>
            simp only [List.filter_cons, hself, List.filter_nil, Bool.not_false, if_true,
              Bool.false_eq_true, if_false, List.nil_append]
            rw [← addReturns_cons hc]
            rfl

theorem followsReturns_chars1 (hreturn : accepts '\r' = true) (hfeed : accepts '\n' = true) :
    (chars1 accepts : Pattern κ).FollowsReturns := by
  have hchars : (chars accepts : Pattern κ).FollowsReturns := followsReturns_chars hreturn hfeed
  intro s
  cases s with
  | nil => rfl
  | cons c s =>
      by_cases hc : c = '\n'
      · subst hc
        rw [addReturns_feed, outcomes_chars1_cons, if_pos hreturn, outcomes_chars_cons,
          if_pos hfeed, outcomes_chars1_cons, if_pos hfeed, List.filter_append, List.map_append,
          hchars s]
        simp
      · rw [addReturns_cons hc, outcomes_chars1_cons, outcomes_chars1_cons]
        cases accepts c with
        | true => exact hchars s
        | false => rfl

theorem outcomes_seq_of_fails (hfeed : ∀ u, q.Fails ('\n' :: u)) (p : Pattern κ) (s : List Char) :
    (Pattern.seq p q).outcomes s
      = followedBy ((p.outcomes s).filter fun r => !isBeforeFeed r.1) q.outcomes := by
  have hnone : ∀ r ∈ p.outcomes s, (!isBeforeFeed r.1) = false → q.outcomes r.1 = [] := by
    intro r _ hr
    rw [Bool.not_eq_false', isBeforeFeed_iff] at hr
    obtain ⟨u, hu⟩ := hr
    rw [hu]
    exact hfeed u
  rw [outcomes, followedBy_filter (fun t => !isBeforeFeed t) hnone]

/-- A pattern that fails in front of a line feed does not notice the returns that are read before
it. -/
theorem FollowsReturns.seq_follows (hp : p.FollowsReturns) (hq : q.Follows addReturns)
    (hfeed : ∀ u, q.Fails ('\n' :: u)) : (Pattern.seq p q).Follows addReturns := by
  intro s
  rw [outcomes_seq_of_fails hfeed, outcomes]
  exact followedBy_follows (hp s) fun r _ => hq r.1

theorem FollowsReturns.seq_agrees (hp : p.FollowsReturns) {P : Char → Prop}
    (hq : q.Agrees addReturns P) (hfeed : ∀ u, q.Fails ('\n' :: u)) :
    (Pattern.seq p q).Agrees addReturns P := by
  intro s hs
  rw [preferred, outcomes_seq_of_fails hfeed, preferred, outcomes]
  refine head?_followedBy_shown (hp s) ?_
  intro r hr
  exact hq r.1 fun c hc => hs c ((suffix_of_mem_outcomes p s r hr).mem hc)

/-- Where the pattern fails at line ends, the first match of a text with returns reads the same. -/
theorem found_addReturns (hagrees : p.Agrees addReturns fun _ => True)
    (hends : ∀ c u, c = '\n' ∨ c = '\r' → p.Fails (c :: u)) (s : List Char) :
    p.found (addReturns s) = p.found s := by
  induction s with
  | nil => rfl
  | cons c s ih =>
      by_cases hc : c = '\n'
      · subst hc
        rw [addReturns_feed, found_cons, preferred_of_fails (hends _ _ (.inr rfl)), found_cons,
          preferred_of_fails (hends _ _ (.inl rfl)), found_cons p '\n' s,
          preferred_of_fails (hends _ _ (.inl rfl)), ih]
        rfl
      · have hfront : p.preferred (c :: addReturns s) = p.preferred (c :: s) := by
          rw [← addReturns_cons hc]
          exact hagrees (c :: s) fun _ _ => trivial
        rw [addReturns_cons hc, found_cons, found_cons, hfront, ih]

/-- Where the pattern fails at line ends, all matches of a text with returns read the same. -/
theorem foundAll_addReturns (hp : p.consumes = true) (hfollows : p.Follows addReturns)
    (hends : ∀ c u, c = '\n' ∨ c = '\r' → p.Fails (c :: u)) (s : List Char) :
    p.foundAll (addReturns s) = p.foundAll s := by
  match s with
  | [] => rfl
  | c :: s =>
      by_cases hfails : p.Fails (c :: s)
      · have ih := foundAll_addReturns hp hfollows hends s
        by_cases hc : c = '\n'
        · subst hc
          rw [addReturns_feed, foundAll_cons_of_fails hp (hends _ _ (.inr rfl)),
            foundAll_cons_of_fails hp (hends _ _ (.inl rfl)), foundAll_cons_of_fails hp hfails, ih]
        · have hfails' : p.Fails (c :: addReturns s) := by
            rw [← addReturns_cons hc]
            exact (hfollows.fails_iff _).mpr hfails
          rw [addReturns_cons hc, foundAll_cons_of_fails hp hfails',
            foundAll_cons_of_fails hp hfails, ih]
      · obtain ⟨t, ht⟩ := not_forall_not.mp (mt fails_iff.mpr hfails)
        obtain ⟨t, captures, hreads⟩ := ht.exists_reads
        obtain ⟨captures', hreads', htexts⟩ := hfollows.reads hreads
        have hlt : t.length < (c :: s).length := hreads.canRead.length_lt hp
        rw [foundAll_of_reads hp hreads', foundAll_of_reads hp hreads, htexts,
          foundAll_addReturns hp hfollows hends t]
termination_by s.length
decreasing_by
  · exact Nat.lt_succ_self _
  · exact hlt

end DocTags.Pattern
