import DocTags.Proofs.Tag.CommentLines
import DocTags.Proofs.Tag.TrailingGaps

/-!
# Comments with gaps in front of their line feeds

When gaps are put in front of the line feeds of a text, its lines are the old ones with gaps at
their ends. The body of a comment is padded like the comment itself, as long as its delimiters do
not hold a line feed, and its general tags stay the same: a value does not take in the gaps at the
end of its line.
-/

namespace DocTags

open Pattern Text

namespace Dialect

variable {κ : Type} {p q : Pattern κ} {gaps last line a s t : List Char} {c : Char}
  {E : List (κ × List Char) → List (κ × List Char) → Prop}

/-- The second text is the first one with gaps in front of its line feeds, and with `last` behind
it. -/
inductive Padded (last : List Char) : List Char → List Char → Prop
  | nil : Padded last [] last
  | feed {gaps s t : List Char} (hgaps : AreGaps gaps) (h : Padded last s t) :
      Padded last ('\n' :: s) (gaps ++ '\n' :: t)
  | cons {c : Char} {s t : List Char} (hc : c ≠ '\n') (h : Padded last s t) :
      Padded last (c :: s) (c :: t)

namespace Padded

theorem append (h : Padded last s t) (ha : '\n' ∉ a) : Padded last (a ++ s) (a ++ t) := by
  induction a with
  | nil => exact h
  | cons c a ih =>
      rw [List.mem_cons, not_or] at ha
      exact .cons (Ne.symm ha.1) (ih ha.2)

/-- The first line is the same, apart from the gaps behind it. -/
theorem exists_line (h : Padded last s t) : ∃ line, '\n' ∉ line
    ∧ (s = line ∧ t = line ++ last
      ∨ ∃ gaps s' t', AreGaps gaps ∧ Padded last s' t'
        ∧ s = line ++ '\n' :: s' ∧ t = line ++ (gaps ++ '\n' :: t')) := by
  induction h with
  | nil => exact ⟨[], List.not_mem_nil, .inl ⟨rfl, rfl⟩⟩
  | feed hgaps h => exact ⟨[], List.not_mem_nil, .inr ⟨_, _, _, hgaps, h, rfl, rfl⟩⟩
  | @cons c s t hc h ih =>
      obtain ⟨line, hline, hends⟩ := ih
      refine ⟨c :: line, ?_, ?_⟩
      · rw [List.mem_cons, not_or]
        exact ⟨Ne.symm hc, hline⟩
      · rcases hends with ⟨rfl, rfl⟩ | ⟨gaps, s', t', hgaps, h', rfl, rfl⟩
        · exact .inl ⟨rfl, rfl⟩
        · exact .inr ⟨gaps, s', t', hgaps, h', rfl, rfl⟩

theorem addsGaps_splitAt (h : Padded last s t) (hlast : AreGaps last) :
    AddsGaps (splitAt '\n' s) (splitAt '\n' t) := by
  induction h with
  | nil =>
      rw [splitAt_of_not_mem hlast.isLine.not_mem.1]
      exact .cons ⟨last, hlast, rfl⟩ .nil
  | @feed gaps s t hgaps h ih =>
      rw [splitAt_append_cons hgaps.isLine.not_mem.1, splitAt, if_pos rfl]
      exact .cons ⟨gaps, hgaps, rfl⟩ ih
  | @cons c s t hc h ih =>
      rw [splitAt, splitAt, if_neg hc, if_neg hc]
      generalize splitAt '\n' s = ls at ih
      generalize splitAt '\n' t = ls' at ih
      cases ih with
      | nil => exact .cons ⟨[], List.forall_mem_nil _, rfl⟩ .nil
      | cons hfirst hrest =>
          obtain ⟨gaps, hgaps, rfl⟩ := hfirst
          exact .cons ⟨gaps, hgaps, rfl⟩ hrest

theorem eq_nil_iff (h : Padded [] s t) : t = [] ↔ s = [] := by
  cases h <;> simp

theorem drop (h : Padded [] s t) {n : Nat} (hn : '\n' ∉ s.take n) :
    Padded [] (s.drop n) (t.drop n) := by
  induction h generalizing n with
  | nil => simpa using Padded.nil
  | feed hgaps h =>
      cases n with
      | zero => exact .feed hgaps h
      | succ n => exact absurd List.mem_cons_self hn
  | cons hc h ih =>
      cases n with
      | zero => exact .cons hc h
      | succ n => exact ih fun hmem => hn (List.mem_cons_of_mem _ hmem)

/-- Without their last characters, gaps may be left behind the second text: those in front of a line
feed at the end of the first. -/
theorem exists_dropLast (h : Padded [] s t) : ∃ gaps, AreGaps gaps
    ∧ Padded gaps s.dropLast t.dropLast ∧ (s.getLast? ≠ some '\n' → gaps = []) := by
  induction h with
  | nil => exact ⟨[], List.forall_mem_nil _, .nil, fun _ => rfl⟩
  | @feed gaps s t hgaps h ih =>
      by_cases hs : s = []
      · obtain rfl := hs
        obtain rfl := h.eq_nil_iff.mpr rfl
        refine ⟨gaps, hgaps, ?_, fun hlast => absurd rfl hlast⟩
        rw [List.dropLast_concat]
        exact .nil
      · have ht : t ≠ [] := mt h.eq_nil_iff.mp hs
        obtain ⟨last, hlast, hrest, hend⟩ := ih
        rw [List.dropLast_cons_of_ne_nil hs, List.dropLast_append_of_ne_nil (List.cons_ne_nil _ t),
          List.dropLast_cons_of_ne_nil ht]
        refine ⟨last, hlast, .feed hgaps hrest, fun hne => hend ?_⟩
        rwa [List.getLast?_cons_of_ne_nil hs] at hne
  | @cons c s t hc h ih =>
      by_cases hs : s = []
      · obtain rfl := hs
        obtain rfl := h.eq_nil_iff.mpr rfl
        exact ⟨[], List.forall_mem_nil _, .nil, fun _ => rfl⟩
      · have ht : t ≠ [] := mt h.eq_nil_iff.mp hs
        obtain ⟨last, hlast, hrest, hend⟩ := ih
        rw [List.dropLast_cons_of_ne_nil hs, List.dropLast_cons_of_ne_nil ht]
        refine ⟨last, hlast, .cons hc hrest, fun hne => hend ?_⟩
        rwa [List.getLast?_cons_of_ne_nil hs] at hne

theorem stripDelimiters_eq_dropLast (s : List Char) :
    stripDelimiters s = (s.drop 3).dropLast.dropLast := by
  rw [stripDelimiters, List.drop_take, List.dropLast_eq_take, List.dropLast_eq_take, List.take_take]
  congr 1
  simp only [List.length_take, List.length_drop]
  omega

/-- A body between delimiters without line feeds is padded, and there may be gaps behind it. -/
theorem exists_stripDelimiters (h : Padded [] s t) (hopen : '\n' ∉ s.take 3)
    (hclose : s.getLast? ≠ some '\n') :
    ∃ last, AreGaps last ∧ Padded last (stripDelimiters s) (stripDelimiters t) := by
  have hlast : (s.drop 3).getLast? ≠ some '\n' := by
    rw [List.getLast?_drop]
    split
    · exact (Option.some_ne_none '\n').symm
    · exact hclose
  obtain ⟨none, -, hbody, hnone⟩ := (h.drop hopen).exists_dropLast
  obtain rfl := hnone hlast
  obtain ⟨last, hgaps, hbody, -⟩ := hbody.exists_dropLast
  rw [stripDelimiters_eq_dropLast, stripDelimiters_eq_dropLast]
  exact ⟨last, hgaps, hbody⟩

/-- A pattern that leaves out gaps and line feeds reads the same in both texts. -/
theorem rel_seq (h : Padded last s t) (hlast : AreGaps last) (hplain : p.isPlain = true)
    (hnames : p.names = []) (havoids : ∀ c, isGap c = true ∨ c = '\n' → p.avoids c = true)
    (hq : ∀ s' t', s' <:+ s → Padded last s' t' →
      Option.Rel E (q.preferred s') (q.preferred t')) :
    Option.Rel E ((seq p q).preferred s) ((seq p q).preferred t) := by
  obtain ⟨line, hline, hends⟩ := h.exists_line
  obtain ⟨e, e', rfl, rfl, hrest, hfollows, hfollows'⟩ : ∃ e e', s = line ++ e ∧ t = line ++ e'
      ∧ Padded last e e' ∧ p.Follows (· ++ e) ∧ p.Follows (· ++ e') := by
    rcases hends with ⟨rfl, rfl⟩ | ⟨gaps, s', t', hgaps, hrest, rfl, rfl⟩
    · refine ⟨[], last, (List.append_nil _).symm, rfl, .nil, ?_, ?_⟩
      · exact follows_append_of_avoids hplain fun c hc => absurd hc (Option.not_mem_none c)
      · exact follows_append_of_avoids hplain fun c hc =>
          havoids c (.inl (hlast c (List.mem_of_mem_head? hc)))
    · refine ⟨_, _, rfl, rfl, .feed hgaps hrest, follows_append hplain (havoids _ (.inr rfl)), ?_⟩
      refine follows_append_of_avoids hplain fun c hc => havoids c ?_
      cases gaps with
      | nil => exact .inr (Option.mem_some.mp hc).symm
      | cons y gaps =>
          obtain rfl := Option.mem_some.mp hc
          exact .inl (areGaps_cons.mp hgaps).1
  refine hfollows.rel_translated hfollows' fun r hr => ?_
  have hsuffix : r.1 <:+ line := suffix_of_mem_outcomes p line r hr
  have hnil : r.2 = [] := Yields.eq_nil (p := p) hr hnames
  have hsuffix' : r.1 ++ e <:+ line ++ e := by
    obtain ⟨a, ha⟩ := hsuffix
    exact ⟨a, by rw [← List.append_assoc, ha]⟩
  have hself := hq _ (r.1 ++ e') hsuffix' (hrest.append fun hmem => hline (hsuffix.mem hmem))
  simpa only [hnil, texts_nil, List.append_nil] using hself

/-- Blanks are read across gaps and line feeds, up to what comes behind them. -/
theorem preferred_blanks_seq_append (hq : ∀ u, Stops (fun c => !isBlank c) u → q.Fails u)
    (ha : ∀ c ∈ a, isBlank c = true) (s : List Char) :
    (seq blanks q).preferred (a ++ s) = (seq blanks q).preferred s := by
  induction a with
  | nil => rfl
  | cons c a ih =>
      rw [List.forall_mem_cons] at ha
      have hfails : q.Fails (c :: (a ++ s)) := hq _ ((stops_cons ..).mpr (by simp [ha.1]))
      rw [List.cons_append, blanks, preferred_chars_seq_cons, if_pos ha.1,
        preferred_of_fails hfails, Option.or_none]
      exact ih ha.2

theorem rel_blanks_seq (h : Padded last s t) (hlast : AreGaps last)
    (hq : ∀ u, Stops (fun c => !isBlank c) u → q.Fails u)
    (hrel : ∀ s' t', s' <:+ s → Padded last s' t' →
      Option.Rel E (q.preferred s') (q.preferred t')) :
    Option.Rel E ((seq blanks q).preferred s) ((seq blanks q).preferred t) := by
  induction h with
  | nil =>
      have hnone : (seq blanks q).preferred [] = none := by
        rw [blanks, preferred_chars_seq_nil, preferred_of_fails (hq [] (stops_nil _))]
      have hblank := preferred_blanks_seq_append hq (fun c hc => isBlank_of_isGap (hlast c hc)) []
      rw [List.append_nil] at hblank
      rw [hblank, hnone]
      exact .none
  | @feed gaps s t hgaps h ih =>
      have hblank : ∀ c ∈ gaps ++ ['\n'], isBlank c = true := by
        rw [List.forall_mem_append, List.forall_mem_singleton]
        exact ⟨fun c hc => isBlank_of_isGap (hgaps c hc), rfl⟩
      have hleft := preferred_blanks_seq_append hq (a := ['\n']) (by decide) s
      have hright := preferred_blanks_seq_append hq hblank t
      rw [List.append_assoc] at hright
      rw [List.singleton_append] at hleft hright
      rw [hleft, hright]
      exact ih fun s' t' hs => hrel s' t' (hs.trans (List.suffix_cons _ s))
  | @cons c s t hc h ih =>
      rw [blanks, preferred_chars_seq_cons, preferred_chars_seq_cons]
      refine rel_or ?_ (hrel _ _ (List.suffix_refl _) (.cons hc h))
      cases isBlank c with
      | false => exact .none
      | true => exact ih fun s' t' hs => hrel s' t' (hs.trans (List.suffix_cons c s))

/-- Blanks in front of a pattern that cannot start with one: the gaps are read along with the line
feeds. -/
theorem rel_blanks1_seq (h : Padded last s t) (hlast : AreGaps last)
    (hq : ∀ u, Stops (fun c => !isBlank c) u → q.Fails u)
    (hrel : ∀ s' t', s' <:+ s → Padded last s' t' →
      Option.Rel E (q.preferred s') (q.preferred t')) :
    Option.Rel E ((seq blanks1 q).preferred s) ((seq blanks1 q).preferred t) := by
  have hblanks : ∀ (c : Char) (u : List Char), isBlank c = true →
      (seq blanks1 q).preferred (c :: u) = (seq blanks q).preferred (c :: u) := by
    intro c u hc
    have hskip := preferred_blanks_seq_append hq (a := [c]) (by simpa using hc) u
    rw [List.singleton_append] at hskip
    rw [blanks1, preferred_chars1_seq_cons, if_pos hc, hskip]
    rfl
  have hend : (seq blanks1 q).preferred [] = (seq blanks q).preferred [] := by
    rw [blanks, preferred_chars_seq_nil, preferred_of_fails (hq [] (stops_nil _))]
    rfl
  have hself := h.rel_blanks_seq hlast hq hrel
  cases h with
  | nil =>
      cases last with
      | nil => rwa [hend]
      | cons y gaps => rwa [hend, hblanks y gaps (isBlank_of_isGap (hlast y List.mem_cons_self))]
  | @feed gaps s t hgaps h =>
      rw [hblanks '\n' s rfl]
      cases gaps with
      | nil => rwa [List.nil_append, hblanks '\n' t rfl]
      | cons y gaps =>
          rwa [List.cons_append, hblanks y _ (isBlank_of_isGap (hgaps y List.mem_cons_self))]
  | @cons c s t hc h =>
      cases hc' : isBlank c with
      | true => rwa [hblanks c s hc', hblanks c t hc']
      | false =>
          rw [blanks1, preferred_chars1_seq_cons, preferred_chars1_seq_cons, hc']
          exact .none

/-- The first tags of a dialect in the two texts are related if they are where they start. -/
theorem rel_found {E : List (Field × List Char) → List (Field × List Char) → Prop}
    (h : Padded last s t) (hlast : AreGaps last) (d : Dialect)
    (hrel : ∀ s' t', s' <:+ s → Padded last s' t' →
      Option.Rel E (d.pattern.preferred s') (d.pattern.preferred t')) :
    Option.Rel E (d.pattern.found s) (d.pattern.found t) := by
  induction h with
  | nil =>
      rw [found_of_areGaps d (List.forall_mem_nil _), found_of_areGaps d hlast]
      exact .none
  | @feed gaps s t hgaps h ih =>
      have hmark : '@' ∉ gaps ++ ['\n'] := by
        rw [List.mem_append, not_or]
        exact ⟨fun hmem => absurd (hgaps _ hmem) (by decide), by decide⟩
      have hfeed : '@' ∉ ['\n'] := by decide
      have hleft := found_append_of_misses (d.misses_of_not_mem hfeed s)
      have hright := found_append_of_misses (d.misses_of_not_mem hmark t)
      rw [List.append_assoc] at hright
      rw [List.singleton_append] at hleft hright
      rw [hleft, hright]
      exact ih fun s' t' hs => hrel s' t' (hs.trans (List.suffix_cons _ s))
  | @cons c s t hc h ih =>
      rw [found_cons, found_cons]
      refine rel_or (hrel _ _ (List.suffix_refl _) (.cons hc h)) ?_
      exact ih fun s' t' hs => hrel s' t' (hs.trans (List.suffix_cons c s))

end Padded

/-- The second comment is the first one with gaps in front of its line feeds. No line end stands in
the delimiters of the first, and only line feeds end its lines. -/
structure PadsComment (comment padded : String) : Prop where
  padded : Padded [] comment.toList padded.toList
  not_mem : '\r' ∉ comment.toList
  opens : '\n' ∉ comment.toList.take 3
  closes : comment.toList.getLast? ≠ some '\n'

theorem PadsComment.exists_stripDelimiters {comment padded : String}
    (h : PadsComment comment padded) : ∃ last, AreGaps last
      ∧ Padded last (stripDelimiters comment.toList) (stripDelimiters padded.toList) :=
  h.padded.exists_stripDelimiters h.opens h.closes

theorem PadsComment.not_mem_stripDelimiters {comment padded : String}
    (h : PadsComment comment padded) : '\r' ∉ stripDelimiters comment.toList :=
  fun hmem => h.not_mem (List.mem_of_mem_take (List.mem_of_mem_drop hmem))

end Dialect

namespace TagTable

open Dialect

variable {gaps line : List Char} {comment padded : String}

/-- An empty value is not told from none. -/
theorem entryOf_value_nil {read : List (Field × List Char)} (h : ∀ x ∈ read, x.1 = .name) :
    entryOf ((.value, []) :: read) = entryOf read := by
  have hnone : read.find? (·.1 = .value) = none := by
    rw [List.find?_eq_none]
    intro x hx
    simp [h x hx]
  have hvalue : partOf read .value = [] := by rw [partOf, hnone, Option.map_none, Option.getD_none]
  rw [entryOf, entryOf, hvalue]
  rfl

/-- A general tag does not notice gaps at the end of its line. -/
theorem tagOn?_append_gaps (hgaps : AreGaps gaps) (hline : IsLine line) :
    tagOn? (line ++ gaps) = tagOn? line := by
  have hpattern : ∀ s, genericPattern.preferred s
      = (seq (seq (char (· == '@')) (group .name (chars1 isTagChar)))
          (seq (opt (seq (chars1 isGap) (group .value (star .lazy (char inLine)))))
            lineTail)).preferred s := by
    intro s
    simp only [preferred, outcomes, genericPattern, namedValue, chain, followedBy_assoc]
  have hfront : FollowsGaps (seq (char (· == '@')) (group Field.name (chars1 isTagChar))) :=
    followsGaps_of_isPlain rfl rfl rfl
  have hvalue := ignoresGaps_lineTail.group_star_lazy rfl inLine Field.value
  have hfound : Option.Rel (fun a b => entryOf a = entryOf b) (genericPattern.found line)
      (genericPattern.found (line ++ gaps)) := by
    refine rel_found_append rfl (found_of_areGaps .generic hgaps) fun t ht => ?_
    rw [hpattern, hpattern]
    refine (hfront gaps hgaps).rel_seq fun r hr => ?_
    have hrest : IsLine r.1 := (hline.of_suffix ht).of_suffix (suffix_of_mem_outcomes _ t r hr)
    have hname : ∀ x ∈ texts r.2, x.1 = .name := eq_of_mem_texts rfl hr
    refine rel_mono ?_ (rel_opt_gaps hvalue ignoresGaps_lineTail rfl rfl hgaps hrest)
    rintro a b (rfl | ⟨-, rfl, rfl⟩)
    · rfl
    · exact (entryOf_value_nil hname).symm
  rw [tagOn?_eq_map_found, tagOn?_eq_map_found]
  exact (eq_of_rel (rel_map hfound)).symm

theorem filterMap_tagOn?_of_addsGaps {ls ls' : List (List Char)} (h : AddsGaps ls ls')
    (hls : ∀ line ∈ ls, IsLine line) : ls'.filterMap tagOn? = ls.filterMap tagOn? := by
  induction h with
  | nil => rfl
  | cons hfirst _ ih =>
      rw [List.forall_mem_cons] at hls
      obtain ⟨gaps, hgaps, rfl⟩ := hfirst
      rw [List.filterMap_cons, List.filterMap_cons, tagOn?_append_gaps hgaps hls.1, ih hls.2]

/-- A padded comment has the same tags. -/
theorem tagsIn_padded (h : PadsComment comment padded) : tagsIn padded = tagsIn comment := by
  obtain ⟨last, hlast, hbody⟩ := h.exists_stripDelimiters
  refine filterMap_tagOn?_of_addsGaps (hbody.addsGaps_splitAt hlast) fun line hline c hc => ?_
  refine ⟨fun hfeed => not_mem_of_mem_splitAt _ line hline (hfeed ▸ hc), fun hreturn => ?_⟩
  exact h.not_mem_stripDelimiters (mem_of_mem_splitAt _ line hline _ (hreturn ▸ hc))

theorem ofComment_padded (h : PadsComment comment padded) :
    ofComment padded = ofComment comment := by
  rw [ofComment_eq_foldl, ofComment_eq_foldl, tagsIn_padded h]

theorem ofSymbol_padded {s : Symbol} (h : PadsComment s.docComment padded) :
    ofSymbol { s with docComment := padded } = ofSymbol s := by
  have hsources : ((sources { s with docComment := padded }).map ofComment)
      = (sources s).map ofComment := by
    rw [sources, sources, List.map_append, List.map_append, List.map_singleton, List.map_singleton,
      ofComment_padded h]
  rw [ofSymbol, ofSymbol, hsources]

end TagTable

end DocTags
