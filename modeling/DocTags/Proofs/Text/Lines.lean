import DocTags.Text.Lines
import Mathlib.Data.List.DropRight

/-!
# Lines put together

A text that is put together from pieces is cut into them again: at the separators between them, and
with the blanks around them trimmed off.
-/

namespace DocTags.Text

theorem dropReturns_cons {c : Char} {s : List Char} (h : c ≠ '\r' ∨ s.head? ≠ some '\n') :
    dropReturns (c :: s) = c :: dropReturns s := by
  rw [dropReturns]
  rintro t rfl rfl
  rcases h with h | h
  · exact h rfl
  · exact h rfl

theorem dropReturns_sublist (s : List Char) : (dropReturns s).Sublist s := by
  fun_induction dropReturns s with
  | case1 => exact .slnil
  | case2 s ih => exact .cons _ (.cons_cons _ ih)
  | case3 c s hc ih => exact .cons_cons c ih

theorem dropReturns_append {a : List Char} (ha : '\r' ∉ a) (s : List Char) :
    dropReturns (a ++ s) = a ++ dropReturns s := by
  induction a with
  | nil => rfl
  | cons c a ih =>
      simp only [List.mem_cons, not_or] at ha
      rw [List.cons_append, dropReturns_cons (.inl (Ne.symm ha.1)), ih ha.2, List.cons_append]

/-- A stretch of a line stays as it is in front of anything but a line feed. -/
theorem dropReturns_append_of_ne {a : List Char} (ha : '\n' ∉ a) {s : List Char}
    (hs : s.head? ≠ some '\n') : dropReturns (a ++ s) = a ++ dropReturns s := by
  induction a with
  | nil => rfl
  | cons c a ih =>
      simp only [List.mem_cons, not_or] at ha
      have hhead : (a ++ s).head? ≠ some '\n' := by
        cases a with
        | nil => exact hs
        | cons b a => simpa using fun h : b = '\n' => ha.2 (by simp [h])
      rw [List.cons_append, dropReturns_cons (.inr hhead), ih ha.2, List.cons_append]

/-- A character that belongs to no line end parts what is dropped in front of it and behind it. -/
theorem dropReturns_append_cons {c : Char} (hreturn : c ≠ '\r') (hfeed : c ≠ '\n')
    (a e : List Char) : dropReturns (a ++ c :: e) = dropReturns a ++ c :: dropReturns e := by
  induction a using dropReturns.induct with
  | case1 => exact dropReturns_cons (.inl hreturn)
  | case2 a ih =>
      have hfront : '\r' :: '\n' :: a ++ c :: e = '\r' :: '\n' :: (a ++ c :: e) := rfl
      rw [hfront, dropReturns, dropReturns, ih, List.cons_append]
  | case3 x a hpair ih =>
      have hx (t : List Char) (ht : t.head? = some '\n' → ∃ u, a = '\n' :: u) :
          x ≠ '\r' ∨ t.head? ≠ some '\n' := by
        by_cases hreturn : x = '\r'
        · refine .inr fun hhead => ?_
          obtain ⟨u, hu⟩ := ht hhead
          exact hpair u hreturn hu
        · exact .inl hreturn
      have hfront : x ≠ '\r' ∨ (a ++ c :: e).head? ≠ some '\n' := by
        refine hx _ fun hhead => ?_
        cases a with
        | nil => exact absurd (Option.some.inj hhead) hfeed
        | cons y a => exact ⟨a, by rw [Option.some.inj hhead]⟩
      have hself : x ≠ '\r' ∨ a.head? ≠ some '\n' :=
        hx a fun hhead => List.head?_eq_some_iff.mp hhead
      rw [List.cons_append, dropReturns_cons hfront, dropReturns_cons hself, ih,
        List.cons_append]

variable {sep : Char}

theorem splitAt_of_not_mem {a : List Char} (ha : sep ∉ a) : splitAt sep a = [a] := by
  induction a with
  | nil => rfl
  | cons c a ih =>
      simp only [List.mem_cons, not_or] at ha
      rw [splitAt, if_neg (Ne.symm ha.1), ih ha.2]

theorem splitAt_append_cons {a : List Char} (ha : sep ∉ a) (s : List Char) :
    splitAt sep (a ++ sep :: s) = a :: splitAt sep s := by
  induction a with
  | nil => rw [List.nil_append, splitAt, if_pos rfl]
  | cons c a ih =>
      simp only [List.mem_cons, not_or] at ha
      rw [List.cons_append, splitAt, if_neg (Ne.symm ha.1), ih ha.2]

/-- Pieces without the separator are given back. -/
theorem splitAt_pieces {ι : Type} {piece : ι → List Char} {first : List Char} {rest : List ι}
    (hfirst : sep ∉ first) (hpieces : ∀ i ∈ rest, sep ∉ piece i) :
    splitAt sep (first ++ rest.flatMap fun i => sep :: piece i) = first :: rest.map piece := by
  induction rest generalizing first with
  | nil =>
      rw [List.flatMap_nil, List.append_nil, List.map_nil]
      exact splitAt_of_not_mem hfirst
  | cons i rest ih =>
      rw [List.forall_mem_cons] at hpieces
      rw [List.flatMap_cons, List.cons_append, splitAt_append_cons hfirst,
        ih hpieces.1 hpieces.2, List.map_cons]

/-- A text without the separator goes on with the last piece, which is the end of the text, and all
of it if there is no other. -/
theorem exists_splitAt_append (s : List Char) {b : List Char} (hb : sep ∉ b) :
    ∃ before last, splitAt sep s = before ++ [last] ∧ splitAt sep (s ++ b) = before ++ [last ++ b]
      ∧ last <:+ s ∧ (before = [] → last = s) := by
  induction s with
  | nil => exact ⟨[], [], rfl, splitAt_of_not_mem hb, List.suffix_rfl, fun _ => rfl⟩
  | cons c s ih =>
      obtain ⟨before, last, hs, hsb, hsuffix, hwhole⟩ := ih
      by_cases hc : c = sep
      · refine ⟨[] :: before, last, ?_, ?_, hsuffix.trans (List.suffix_cons c s),
          fun hnil => absurd hnil (List.cons_ne_nil [] before)⟩
        · rw [splitAt, if_pos hc, hs, List.cons_append]
        · rw [List.cons_append, splitAt, if_pos hc, hsb, List.cons_append]
      · rw [List.cons_append, splitAt, if_neg hc, splitAt, if_neg hc, hs, hsb]
        cases before with
        | nil =>
            obtain rfl := hwhole rfl
            exact ⟨[], c :: last, rfl, rfl, List.suffix_rfl, fun _ => rfl⟩
        | cons w ws =>
            exact ⟨(c :: w) :: ws, last, rfl, rfl, hsuffix.trans (List.suffix_cons c s),
              fun hnil => absurd hnil (List.cons_ne_nil (c :: w) ws)⟩

theorem not_mem_of_mem_splitAt (s : List Char) : ∀ piece ∈ splitAt sep s, sep ∉ piece := by
  induction s with
  | nil => simp [splitAt]
  | cons c s ih =>
      rw [splitAt]
      split
      · exact List.forall_mem_cons.mpr ⟨List.not_mem_nil, ih⟩
      · next hc =>
          split
          · simpa using Ne.symm hc
          · next w ws hs =>
              rw [hs, List.forall_mem_cons] at ih
              refine List.forall_mem_cons.mpr ⟨?_, ih.2⟩
              rw [List.mem_cons, not_or]
              exact ⟨Ne.symm hc, ih.1⟩

theorem mem_of_mem_splitAt (s : List Char) : ∀ piece ∈ splitAt sep s, ∀ c ∈ piece, c ∈ s := by
  induction s with
  | nil => simp [splitAt]
  | cons c s ih =>
      have htail : ∀ piece ∈ splitAt sep s, ∀ x ∈ piece, x ∈ c :: s :=
        fun piece hpiece x hx => List.mem_cons_of_mem c (ih piece hpiece x hx)
      rw [splitAt]
      split
      · exact List.forall_mem_cons.mpr ⟨by simp, htail⟩
      · split
        · simp
        · next w ws hs =>
            rw [hs, List.forall_mem_cons] at htail
            exact List.forall_mem_cons.mpr
              ⟨List.forall_mem_cons.mpr ⟨List.mem_cons_self, htail.1⟩, htail.2⟩

theorem not_mem_unifyLineEnds (s : List Char) : '\r' ∉ unifyLineEnds s := by
  fun_induction unifyLineEnds s <;> simp_all [eq_comm]

/-- A physical line holds no line end. -/
theorem not_mem_of_mem_lines {s line : List Char} (h : line ∈ lines s) :
    '\n' ∉ line ∧ '\r' ∉ line := by
  refine ⟨not_mem_of_mem_splitAt _ line h, fun hr => ?_⟩
  exact not_mem_unifyLineEnds s (mem_of_mem_splitAt _ line h '\r' hr)

theorem unifyLineEnds_of_not_mem {s : List Char} (h : '\r' ∉ s) : unifyLineEnds s = s := by
  fun_induction unifyLineEnds s <;> simp_all

theorem join_cons_eq_flatMap (sep first : List Char) (rest : List (List Char)) :
    join sep (first :: rest) = first ++ rest.flatMap fun part => sep ++ part := by
  induction rest generalizing first with
  | nil => simp [join]
  | cons second rest ih =>
      rw [List.flatMap_cons, List.append_assoc, ← ih second, ← List.append_assoc]
      simp [join]

/-- Pieces that are joined with a separator that none of them holds are cut apart again. -/
theorem splitAt_join {pieces : List (List Char)} (hne : pieces ≠ [])
    (h : ∀ piece ∈ pieces, sep ∉ piece) : splitAt sep (join [sep] pieces) = pieces := by
  obtain ⟨first, rest, rfl⟩ := List.exists_cons_of_ne_nil hne
  rw [List.forall_mem_cons] at h
  have hpieces : splitAt sep (first ++ rest.flatMap fun piece => sep :: piece)
      = first :: rest.map id := splitAt_pieces h.1 h.2
  rw [join_cons_eq_flatMap]
  exact hpieces.trans (by rw [List.map_id])

/-- What is cut at a separator is joined again with it. -/
theorem join_splitAt (sep : Char) (s : List Char) : join [sep] (splitAt sep s) = s := by
  induction s with
  | nil => rfl
  | cons c s ih =>
      rw [splitAt]
      obtain ⟨first, rest, hs⟩ := List.exists_cons_of_ne_nil (splitAt_ne_nil sep s)
      rw [hs, join_cons_eq_flatMap] at ih
      rw [hs]
      split
      · next hc => rw [join_cons_eq_flatMap, List.flatMap_cons, List.append_assoc, ih, hc]; rfl
      · rw [join_cons_eq_flatMap, List.cons_append, ih]

theorem join_append {a b : List (List Char)} (ha : a ≠ []) (hb : b ≠ []) (sep : List Char) :
    join sep (a ++ b) = join sep a ++ sep ++ join sep b := by
  obtain ⟨first, rest, rfl⟩ := List.exists_cons_of_ne_nil ha
  obtain ⟨second, others, rfl⟩ := List.exists_cons_of_ne_nil hb
  simp only [List.cons_append, join_cons_eq_flatMap, List.flatMap_append, List.flatMap_cons,
    List.append_assoc]

/-- Lines that are joined are cut into themselves again. -/
theorem lines_join {ls : List (List Char)} (hne : ls ≠ [])
    (hls : ∀ line ∈ ls, '\n' ∉ line ∧ '\r' ∉ line) : lines (join ['\n'] ls) = ls := by
  have hreturn : '\r' ∉ join ['\n'] ls := by
    obtain ⟨first, rest, rfl⟩ := List.exists_cons_of_ne_nil hne
    rw [List.forall_mem_cons] at hls
    rw [join_cons_eq_flatMap]
    simpa [hls.1.2] using fun line hline => (hls.2 line hline).2
  rw [lines, unifyLineEnds_of_not_mem hreturn]
  exact splitAt_join hne fun line hline => (hls line hline).1

/-- The code points of blanks. -/
def blankCodes : List Nat :=
  [9, 10, 11, 12, 13, 28, 29, 30, 31, 32, 0x85, 0xA0, 0x1680, 0x2000, 0x2001, 0x2002, 0x2003,
    0x2004, 0x2005, 0x2006, 0x2007, 0x2008, 0x2009, 0x200A, 0x2028, 0x2029, 0x202F, 0x205F, 0x3000]

theorem mem_blankCodes {c : Char} (h : isBlank c = true) : c.toNat ∈ blankCodes := by
  simp only [isBlank] at h
  split at h
  · simp only [Bool.or_eq_true, Bool.and_eq_true, decide_eq_true_eq] at h
    simp only [blankCodes, List.mem_cons, List.not_mem_nil, or_false]
    omega
  · simp only [Bool.or_eq_true, Bool.and_eq_true, decide_eq_true_eq, beq_iff_eq] at h
    simp only [blankCodes, List.mem_cons, List.not_mem_nil, or_false]
    omega

/-- That no blank satisfies `p` is checked on their code points. -/
theorem eq_false_of_isBlank {p : Char → Bool} (hp : ∀ n ∈ blankCodes, p (Char.ofNat n) = false)
    {c : Char} (h : isBlank c = true) : p c = false := by
  have hc := hp _ (mem_blankCodes h)
  rwa [Char.ofNat_toNat] at hc

/-- Taking characters off the end is the library's function. -/
theorem dropEndWhile_eq_rdropWhile (p : Char → Bool) (s : List Char) :
    dropEndWhile p s = s.rdropWhile p := rfl

/-- Blanks in front of a text that starts and ends with no blank are trimmed off. -/
theorem trim_append {lead s : List Char} {c d : Char} (hlead : ∀ x ∈ lead, isBlank x = true)
    (hc : isBlank c = false) (hd : isBlank d = false) :
    trim (lead ++ c :: (s ++ [d])) = c :: (s ++ [d]) := by
  rw [trim, trimWhere, List.dropWhile_append_of_pos hlead,
    List.dropWhile_cons_of_neg (by simp [hc]), dropEndWhile_eq_rdropWhile, ← List.cons_append]
  exact List.rdropWhile_concat_neg isBlank (c :: s) d (by simp [hd])

theorem trimWhere_eq_nil_iff {p : Char → Bool} {s : List Char} :
    trimWhere p s = [] ↔ ∀ c ∈ s, p c = true := by
  rw [trimWhere, dropEndWhile_eq_rdropWhile, List.rdropWhile_eq_nil_iff]
  constructor
  · intro h c hc
    rw [← List.takeWhile_append_dropWhile (p := p) (l := s), List.mem_append] at hc
    exact hc.elim List.mem_takeWhile_imp (h c)
  · intro h c hc
    exact h c ((List.dropWhile_suffix p).mem hc)

/-- A trimmed text starts with a character that is not trimmed. -/
theorem not_of_trimWhere_eq_cons {p : Char → Bool} {s t : List Char} {c : Char}
    (h : trimWhere p s = c :: t) : p c = false := by
  have hfront : trimWhere p s <+: s.dropWhile p := List.rdropWhile_prefix p _
  obtain ⟨u, hu⟩ := hfront
  have hhead := List.head?_dropWhile_not p s
  rw [← hu, h, List.cons_append, List.head?_cons] at hhead
  exact hhead

theorem trim_dropWhile (s : List Char) : trim (s.dropWhile isBlank) = trim s := by
  rw [trim, trimWhere, List.dropWhile_idempotent, trim, trimWhere]

/-- A text without characters of a class is not trimmed. -/
theorem trimWhere_of_forall {p : Char → Bool} {s : List Char} (h : ∀ c ∈ s, p c = false) :
    trimWhere p s = s := by
  have hdrop : ∀ t : List Char, (∀ c ∈ t, p c = false) → t.dropWhile p = t := by
    intro t ht
    cases t with
    | nil => rfl
    | cons c t => exact List.dropWhile_cons_of_neg (by simp [ht c List.mem_cons_self])
  rw [trimWhere, hdrop s h, dropEndWhile, hdrop _ fun c hc => h c (List.mem_reverse.mp hc),
    List.reverse_reverse]

theorem dropEndWhile_append {p : Char → Bool} {a : List Char} (ha : ∀ c ∈ a, p c = true)
    (s : List Char) : dropEndWhile p (s ++ a) = dropEndWhile p s := by
  have hreverse : ∀ c ∈ a.reverse, p c = true := fun c hc => ha c (List.mem_reverse.mp hc)
  rw [dropEndWhile, List.reverse_append, List.dropWhile_append_of_pos hreverse, dropEndWhile]

/-- What is trimmed off at both ends of a text that starts and ends with something else. -/
theorem trimWhere_append {p : Char → Bool} {lead core trail : List Char} {c d : Char}
    (hlead : ∀ x ∈ lead, p x = true) (htrail : ∀ x ∈ trail, p x = true)
    (hc : core.head? = some c) (hpc : p c = false) (hd : core.getLast? = some d)
    (hpd : p d = false) : trimWhere p (lead ++ core ++ trail) = core := by
  obtain ⟨s, hs⟩ : ∃ s, core = c :: s := List.head?_eq_some_iff.mp hc
  obtain ⟨t, ht⟩ : ∃ t, core = t ++ [d] := List.getLast?_eq_some_iff.mp hd
  have hfront : (core ++ trail).dropWhile p = core ++ trail := by
    rw [hs, List.cons_append]
    exact List.dropWhile_cons_of_neg (by simp [hpc])
  rw [trimWhere, List.append_assoc, List.dropWhile_append_of_pos hlead, hfront,
    dropEndWhile_append htrail, dropEndWhile_eq_rdropWhile, ht]
  exact List.rdropWhile_concat_neg p t d (by simp [hpd])

/-- Blanks at the end of a text are trimmed off. -/
theorem trim_append_of_isBlank {a : List Char} (ha : ∀ c ∈ a, isBlank c = true) (s : List Char) :
    trim (s ++ a) = trim s := by
  by_cases hs : ∀ c ∈ s, isBlank c = true
  · have hnil : ∀ t : List Char, (∀ c ∈ t, isBlank c = true) → trim t = [] :=
      fun t ht => trimWhere_eq_nil_iff.mpr ht
    rw [hnil s hs, hnil _ (List.forall_mem_append.mpr ⟨hs, ha⟩)]
  · have hne : s.dropWhile isBlank ≠ [] := fun h => hs (List.dropWhile_eq_nil_iff.mp h)
    have hdrop : (s ++ a).dropWhile isBlank = s.dropWhile isBlank ++ a := by
      rw [List.dropWhile_append]
      simp [hne]
    rw [trim, trimWhere, hdrop, dropEndWhile_append ha, trim, trimWhere]

/-- A trimmed text has nothing to trim. -/
theorem trim_trim (s : List Char) : trim (trim s) = trim s := by
  have hstart : (trim s).dropWhile isBlank = trim s := by
    rw [List.dropWhile_eq_self_iff]
    intro hlength
    have hfront : trim s <+: s.dropWhile isBlank := List.rdropWhile_prefix isBlank _
    have hself := List.dropWhile_eq_self_iff.mp (List.dropWhile_idempotent (p := isBlank) s)
    rw [hfront.getElem hlength]
    exact hself (Nat.lt_of_lt_of_le hlength hfront.length_le)
  have hend : dropEndWhile isBlank (trim s) = trim s :=
    List.rdropWhile_idempotent isBlank (s.dropWhile isBlank)
  rw [trim, trimWhere, hstart, hend]

/-- The text has a first character, and it is no blank. -/
def StartsSolid (s : List Char) : Prop :=
  ∃ c t, s = c :: t ∧ isBlank c = false

/-- The text has a last character, and it is no blank. -/
def EndsSolid (s : List Char) : Prop :=
  ∃ t c, s = t ++ [c] ∧ isBlank c = false

theorem StartsSolid.append {s : List Char} (h : StartsSolid s) (t : List Char) :
    StartsSolid (s ++ t) := by
  obtain ⟨c, u, rfl, hc⟩ := h
  exact ⟨c, u ++ t, rfl, hc⟩

theorem EndsSolid.append {s : List Char} (h : EndsSolid s) (t : List Char) :
    EndsSolid (t ++ s) := by
  obtain ⟨u, c, rfl, hc⟩ := h
  exact ⟨t ++ u, c, (List.append_assoc _ _ _).symm, hc⟩

theorem EndsSolid.of_suffix {s t : List Char} (h : EndsSolid s) (ht : t <:+ s) (hne : t ≠ []) :
    EndsSolid t := by
  obtain ⟨u, c, rfl, hc⟩ := h
  obtain hnil | ⟨v, hv, -⟩ := List.suffix_concat_iff.mp ht
  · exact absurd hnil hne
  · exact ⟨v, c, hv, hc⟩

/-- A text without blanks starts and ends with no blank. -/
theorem startsSolid_of_forall {s : List Char} (hne : s ≠ [])
    (h : ∀ c ∈ s, isBlank c = false) : StartsSolid s := by
  obtain ⟨c, t, rfl⟩ := List.exists_cons_of_ne_nil hne
  exact ⟨c, t, rfl, h c List.mem_cons_self⟩

theorem endsSolid_of_forall {s : List Char} (hne : s ≠ [])
    (h : ∀ c ∈ s, isBlank c = false) : EndsSolid s :=
  ⟨s.dropLast, s.getLast hne, (List.dropLast_concat_getLast hne).symm, h _ (List.getLast_mem hne)⟩

/-- A text that starts and ends with no blank has nothing to trim. -/
theorem trim_eq_self {s : List Char} (hstart : StartsSolid s) (hend : EndsSolid s) :
    trim s = s := by
  obtain ⟨c, t, rfl, hc⟩ := hstart
  obtain ⟨u, d, he, hd⟩ := hend
  rw [trim, trimWhere, List.dropWhile_cons_of_neg (by simp [hc]), he, dropEndWhile]
  simp [hd]

/-- Only in front can something be trimmed off a text that ends with no blank. -/
theorem EndsSolid.trim_eq {s : List Char} (h : EndsSolid s) : trim s = s.dropWhile isBlank := by
  obtain ⟨t, c, rfl, hc⟩ := h
  have hsolid : ¬ isBlank c = true := by simp [hc]
  obtain ⟨u, hu⟩ : ∃ u, (t ++ [c]).dropWhile isBlank = u ++ [c] := by
    rw [List.dropWhile_append]
    split
    · exact ⟨[], List.dropWhile_cons_of_neg hsolid⟩
    · exact ⟨_, rfl⟩
  rw [trim, trimWhere, hu, dropEndWhile_eq_rdropWhile, List.rdropWhile_concat_neg _ _ _ hsolid]

/-- Behind a character that is no blank, a text that ends with none is not trimmed. -/
theorem EndsSolid.trim_append {s t : List Char} (hs : EndsSolid s) (ht : EndsSolid t) :
    trim (s ++ t) = trim s ++ t := by
  have hne : (s.dropWhile isBlank).isEmpty = false := by
    obtain ⟨u, c, rfl, hc⟩ := hs
    rw [Bool.eq_false_iff, ne_eq, List.isEmpty_iff, List.dropWhile_eq_nil_iff]
    intro hall
    rw [hall c (by simp)] at hc
    cases hc
  rw [(ht.append s).trim_eq, hs.trim_eq, List.dropWhile_append, hne]
  rfl

theorem mem_dropWhile_of_neg {p : Char → Bool} {c : Char} {s : List Char} (hc : p c = false)
    (hs : c ∈ s) : c ∈ s.dropWhile p := by
  rw [← List.takeWhile_append_dropWhile (p := p) (l := s), List.mem_append] at hs
  refine hs.resolve_left fun h => ?_
  rw [List.mem_takeWhile_imp h] at hc
  exact absurd hc (by decide)

theorem trim_sublist (s : List Char) : (trim s).Sublist s := by
  rw [trim, trimWhere, dropEndWhile_eq_rdropWhile]
  exact (List.rdropWhile_prefix _ _).sublist.trans (List.dropWhile_sublist _)

/-- Trimming keeps what is not trimmed off. -/
theorem mem_trimWhere_of_neg {p : Char → Bool} {c : Char} {s : List Char} (hc : p c = false)
    (hs : c ∈ s) : c ∈ trimWhere p s :=
  List.mem_reverse.mpr (mem_dropWhile_of_neg hc (List.mem_reverse.mpr (mem_dropWhile_of_neg hc hs)))

/-- Trimming keeps what is no blank. -/
theorem mem_trim_of_not_isBlank {c : Char} {s : List Char} (hc : isBlank c = false) (hs : c ∈ s) :
    c ∈ trim s :=
  mem_trimWhere_of_neg hc hs

end DocTags.Text
