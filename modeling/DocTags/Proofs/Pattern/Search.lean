import DocTags.Proofs.Pattern.Reading

/-!
# Searching, cutting, collecting and replacing

A search passes over the places where a pattern fails and stops at the first reading. For a pattern
that reads something, cutting a text at every match, collecting every match and replacing every
match follow the text from its front: a character where the pattern fails is kept or passed over, a
reading is cut out, collected or replaced.
-/

namespace DocTags

@[simp] theorem Span.text_nil (s : List Char) : (Span.mk s []).text = s := by
  simp [Span.text]

theorem Span.text_cons {x : Char} {s s' : List Char} (h : s'.length ≤ s.length) :
    (Span.mk (x :: s) s').text = x :: (Span.mk s s').text := by
  rw [Span.text, Span.text, List.length_cons, Nat.succ_sub h, List.take_succ_cons]

namespace Pattern

variable {κ : Type} {p : Pattern κ} {s s' a b : List Char} {x : Char} {c : Captures κ}

/-- The pattern fails wherever it starts inside the front part of a text. -/
def Misses (p : Pattern κ) (front rest : List Char) : Prop :=
  ∀ t, t ≠ [] → t <:+ front → p.Fails (t ++ rest)

theorem misses_nil : p.Misses [] s := by
  intro t hne ht
  exact absurd (List.suffix_nil.mp ht) hne

theorem misses_cons : p.Misses (x :: a) s ↔ p.Fails (x :: (a ++ s)) ∧ p.Misses a s := by
  constructor
  · intro h
    constructor
    · exact h (x :: a) (by simp) (List.suffix_refl _)
    · intro t hne ht
      exact h t hne (ht.trans (List.suffix_cons x a))
  · rintro ⟨hx, ha⟩ t hne ht
    rcases List.suffix_cons_iff.mp ht with rfl | ht
    · exact hx
    · exact ha t hne ht

/-- A pattern that starts with a character of a class misses a text without such characters. -/
theorem misses_of_forall (accepts : Char → Bool) (hp : ∀ t, Stops accepts t → p.Fails t)
    (ha : ∀ x ∈ a, accepts x = false) : p.Misses a s := by
  intro t hne ht
  apply hp
  cases t with
  | nil => exact absurd rfl hne
  | cons x t => exact (stops_cons accepts x (t ++ s)).mpr (ha x (ht.mem (by simp)))

theorem matchFront?_of_reads (h : p.Reads s s' c) : p.matchFront? s = some ⟨⟨s, s'⟩, c⟩ := by
  rw [matchFront?_eq_head?, h]
  rfl

theorem matchFront?_of_fails (h : p.Fails s) : p.matchFront? s = none := by
  rw [matchFront?_eq_head?, h]
  rfl

theorem reads_of_matchFront? {m : Match κ} (h : p.matchFront? s = some m) :
    m.span.start = s ∧ p.Reads s m.span.stop m.captures := by
  rw [matchFront?_eq_head?, Option.map_eq_some_iff] at h
  obtain ⟨r, hr, rfl⟩ := h
  exact ⟨rfl, hr⟩

theorem fails_of_matchFront? (h : p.matchFront? s = none) : p.Fails s := by
  rw [matchFront?_eq_head?, Option.map_eq_none_iff] at h
  exact List.head?_eq_none_iff.mp h

/-- A preferred reading of the whole text is the match of the whole text. -/
theorem matchWhole?_of_reads (h : p.Reads s [] c) : p.matchWhole? s = some ⟨⟨s, []⟩, c⟩ := by
  obtain ⟨rs, hrs⟩ := List.head?_eq_some_iff.mp h
  rw [matchWhole?_eq_find?, hrs]
  rfl

theorem canRead_of_matchWhole? {m : Match κ} (h : p.matchWhole? s = some m) :
    p.CanRead s [] := by
  rw [matchWhole?_eq_find?, Option.map_eq_some_iff] at h
  obtain ⟨r, hr, -⟩ := h
  have hnil : r.1 = [] := by simpa using List.find?_some hr
  exact ⟨r.2, hnil ▸ List.mem_of_find?_eq_some hr⟩

theorem search?_of_reads (h : p.Reads s s' c) : p.search? s = some ⟨⟨s, s'⟩, c⟩ := by
  cases s <;> simp [search?, matchFront?_of_reads h]

theorem search?_cons_of_fails (h : p.Fails (x :: s)) : p.search? (x :: s) = p.search? s := by
  simp [search?, matchFront?_of_fails h]

theorem search?_append_of_misses (h : p.Misses a s) : p.search? (a ++ s) = p.search? s := by
  induction a with
  | nil => rfl
  | cons x a ih =>
      obtain ⟨hx, ha⟩ := misses_cons.mp h
      rw [List.cons_append, search?_cons_of_fails hx, ih ha]

/-- A search that finds something finds a preferred reading of a tail. -/
theorem reads_of_search? {m : Match κ} (h : p.search? s = some m) :
    m.span.start <:+ s ∧ p.Reads m.span.start m.span.stop m.captures := by
  induction s with
  | nil =>
      obtain ⟨hs, hr⟩ := reads_of_matchFront? h
      exact ⟨hs ▸ List.suffix_refl _, hs ▸ hr⟩
  | cons x s ih =>
      rw [search?] at h
      cases hf : p.matchFront? (x :: s) with
      | some m' =>
          obtain rfl : m' = m := by simpa [hf] using h
          obtain ⟨hs, hr⟩ := reads_of_matchFront? hf
          exact ⟨hs ▸ List.suffix_refl _, hs ▸ hr⟩
      | none =>
          obtain ⟨hs, hr⟩ := ih (by simpa [hf] using h)
          exact ⟨hs.trans (List.suffix_cons x s), hr⟩

/-- A search finds the preferred reading at the first place in the text where there is one. -/
theorem search?_eq_some_iff {m : Match κ} :
    p.search? s = some m ↔ ∃ front, s = front ++ m.span.start ∧ p.Misses front m.span.start
      ∧ p.Reads m.span.start m.span.stop m.captures := by
  constructor
  · intro h
    induction s with
    | nil =>
        obtain ⟨hs, hr⟩ := reads_of_matchFront? h
        exact ⟨[], hs.symm, misses_nil, hs ▸ hr⟩
    | cons x s ih =>
        rw [search?] at h
        cases hf : p.matchFront? (x :: s) with
        | some m' =>
            obtain rfl : m' = m := by simpa [hf] using h
            obtain ⟨hs, hr⟩ := reads_of_matchFront? hf
            exact ⟨[], hs.symm, misses_nil, hs ▸ hr⟩
        | none =>
            obtain ⟨front, hs, hmisses, hr⟩ := ih (by simpa [hf] using h)
            have hfails : p.Fails (x :: (front ++ m.span.start)) := hs ▸ fails_of_matchFront? hf
            exact ⟨x :: front, congrArg (x :: ·) hs, misses_cons.mpr ⟨hfails, hmisses⟩, hr⟩
  · rintro ⟨front, rfl, hmisses, hr⟩
    rw [search?_append_of_misses hmisses, search?_of_reads hr]

/-- A search finds nothing if and only if the pattern fails on every tail. -/
theorem search?_eq_none_iff : p.search? s = none ↔ ∀ t, t <:+ s → p.Fails t := by
  constructor
  · intro h
    induction s with
    | nil =>
        intro t ht
        exact List.suffix_nil.mp ht ▸ fails_of_matchFront? h
    | cons x s ih =>
        rw [search?] at h
        cases hf : p.matchFront? (x :: s) with
        | some m => simp [hf] at h
        | none =>
            intro t ht
            rcases List.suffix_cons_iff.mp ht with rfl | ht
            · exact fails_of_matchFront? hf
            · exact ih (by simpa [hf] using h) t ht
  · intro h
    induction s with
    | nil => exact matchFront?_of_fails (h [] (List.suffix_refl _))
    | cons x s ih =>
        rw [search?_cons_of_fails (h _ (List.suffix_refl _))]
        apply ih
        intro t ht
        exact h t (ht.trans (List.suffix_cons x s))

theorem search?_cons_eq_none_iff :
    p.search? (x :: s) = none ↔ p.Fails (x :: s) ∧ p.search? s = none := by
  rw [search?_eq_none_iff, search?_eq_none_iff]
  constructor
  · intro h
    exact ⟨h _ (List.suffix_refl _), fun t ht => h t (ht.trans (List.suffix_cons x s))⟩
  · rintro ⟨hx, hs⟩ t ht
    rcases List.suffix_cons_iff.mp ht with rfl | ht
    · exact hx
    · exact hs t ht

/-- A pattern that starts with a mark is not found in a text without it. -/
theorem search?_eq_none_of_mark {mark : Char} (hp : ∀ t, Stops (· == mark) t → p.Fails t)
    (hs : mark ∉ s) : p.search? s = none := by
  rw [search?_eq_none_iff]
  intro t ht
  apply hp
  intro x hx
  simpa using fun h : x = mark => hs (ht.mem (h ▸ List.mem_of_mem_head? hx))

/-- A pattern that starts with a mark is tried at the only mark of a text. -/
theorem search?_append_cons_of_mark {mark : Char} (hp : ∀ t, Stops (· == mark) t → p.Fails t)
    (ha : mark ∉ a) (hs : mark ∉ s) : p.search? (a ++ mark :: s) = p.matchFront? (mark :: s) := by
  have hmisses : p.Misses a (mark :: s) :=
    misses_of_forall (· == mark) hp fun x hx => by simpa using fun h : x = mark => ha (h ▸ hx)
  rw [search?_append_of_misses hmisses, search?, search?_eq_none_of_mark hp hs]
  cases p.matchFront? (mark :: s) <;> rfl

/-- The match that a search finds ends before the text does, if the pattern reads something. -/
theorem length_stop_lt_of_search? (hp : p.consumes = true) {m : Match κ}
    (h : p.search? s = some m) :
    m.span.stop.length < m.span.start.length ∧ m.span.start.length ≤ s.length := by
  obtain ⟨hs, hr⟩ := reads_of_search? h
  exact ⟨hr.canRead.length_lt hp, hs.length_le⟩

theorem search?_nil_of_consumes (hp : p.consumes = true) : p.search? [] = none :=
  matchFront?_of_fails (fails_nil_of_consumes hp)

theorem split_nil (hp : p.consumes = true) : p.split [] = [[]] := by
  rw [split, search?_nil_of_consumes hp]

theorem split_of_reads (hp : p.consumes = true) (h : p.Reads s s' c) :
    p.split s = [] :: p.split s' := by
  have hlt : s'.length < s.length := h.canRead.length_lt hp
  rw [split, search?_of_reads h]
  simp [hlt, Span.text]

theorem split_cons_of_fails (hp : p.consumes = true) (h : p.Fails (x :: s)) :
    p.split (x :: s) = (p.split s).modifyHead (x :: ·) := by
  rw [split, split.eq_def p s, search?_cons_of_fails h]
  cases hm : p.search? s with
  | none => rfl
  | some m =>
      obtain ⟨hlt, hle⟩ := length_stop_lt_of_search? hp hm
      have hstop : m.span.stop.length < s.length := Nat.lt_of_lt_of_le hlt hle
      simp [hstop, Nat.lt_succ_of_lt hstop, Span.text_cons hle]

/-- A stretch that the pattern misses stands in front of the first piece of what follows. -/
theorem split_append_of_misses (hp : p.consumes = true) (h : p.Misses a s) :
    p.split (a ++ s) = (p.split s).modifyHead (a ++ ·) := by
  induction a with
  | nil =>
      rw [List.nil_append]
      cases p.split s <;> rfl
  | cons x a ih =>
      obtain ⟨hx, ha⟩ := misses_cons.mp h
      rw [List.cons_append, split_cons_of_fails hp hx, ih ha]
      cases p.split s <;> rfl

/-- A stretch that the pattern misses is the first piece if a reading follows it. -/
theorem split_append_of_reads (hp : p.consumes = true) (ha : p.Misses a s) (h : p.Reads s s' c) :
    p.split (a ++ s) = a :: p.split s' := by
  rw [split_append_of_misses hp ha, split_of_reads hp h, List.modifyHead_cons, List.append_nil]

/-- A text that the pattern misses is one piece. -/
theorem split_eq_singleton (hp : p.consumes = true) (ha : p.Misses a []) : p.split a = [a] := by
  have h := split_append_of_misses hp ha
  rwa [List.append_nil, split_nil hp, List.modifyHead_cons, List.append_nil] at h

/-- Pieces that the pattern misses, with breaks between them that it reads, are given back. -/
theorem split_pieces (hp : p.consumes = true) {ι : Type} {gap piece : ι → List Char}
    {first : List Char} {rest : List ι} (hfirst : ∀ s, p.Misses first s)
    (hpieces : ∀ i ∈ rest, ∀ s, p.Misses (piece i) s)
    (hgaps : ∀ i ∈ rest, ∀ s, ∃ c, p.Reads (gap i ++ (piece i ++ s)) (piece i ++ s) c) :
    p.split (first ++ rest.flatMap fun i => gap i ++ piece i) = first :: rest.map piece := by
  induction rest generalizing first with
  | nil =>
      rw [List.flatMap_nil, List.append_nil, List.map_nil]
      exact split_eq_singleton hp (hfirst [])
  | cons i rest ih =>
      rw [List.forall_mem_cons] at hpieces hgaps
      obtain ⟨c, hc⟩ := hgaps.1 (rest.flatMap fun i => gap i ++ piece i)
      rw [List.flatMap_cons, List.append_assoc, split_append_of_reads hp (hfirst _) hc,
        ih hpieces.1 hpieces.2 hgaps.2, List.map_cons]

/-- A character that the pattern avoids stands in front of a match or behind it. -/
theorem mem_of_search?_of_avoids (hp : p.avoids x = true) {m : Match κ} (h : p.search? s = some m)
    (hx : x ∈ s) : x ∈ (Span.mk s m.span.start).text ∨ x ∈ m.span.stop := by
  obtain ⟨⟨front, rfl⟩, hreads⟩ := reads_of_search? h
  obtain ⟨read, hread, hnot⟩ := hreads.canRead.exists_not_mem hp
  rw [Span.text_append]
  rcases List.mem_append.mp hx with hx | hx
  · exact .inl hx
  · rw [hread] at hx
    exact .inr ((List.mem_append.mp hx).resolve_left hnot)

/-- Cutting keeps a character that the pattern avoids. -/
theorem exists_mem_split_of_avoids (hp : p.avoids x = true) (s : List Char) (hx : x ∈ s) :
    ∃ piece ∈ p.split s, x ∈ piece := by
  rw [split]
  cases h : p.search? s with
  | none => exact ⟨s, List.mem_singleton_self s, hx⟩
  | some m =>
      by_cases hlt : m.span.stop.length < s.length
      · simp only [hlt, ↓reduceDIte]
        rcases mem_of_search?_of_avoids hp h hx with hfront | hstop
        · exact ⟨_, List.mem_cons_self, hfront⟩
        · obtain ⟨piece, hpiece, hmem⟩ := exists_mem_split_of_avoids hp m.span.stop hstop
          exact ⟨piece, List.mem_cons_of_mem _ hpiece, hmem⟩
      · simp only [hlt, ↓reduceDIte]
        exact ⟨s, List.mem_singleton_self s, hx⟩
termination_by s.length

theorem findAll_nil (hp : p.consumes = true) : p.findAll [] = [] := by
  rw [findAll, search?_nil_of_consumes hp]

theorem findAll_of_reads (hp : p.consumes = true) (h : p.Reads s s' c) :
    p.findAll s = ⟨⟨s, s'⟩, c⟩ :: p.findAll s' := by
  have hlt : s'.length < s.length := h.canRead.length_lt hp
  rw [findAll, search?_of_reads h]
  simp [hlt]

theorem findAll_cons_of_fails (hp : p.consumes = true) (h : p.Fails (x :: s)) :
    p.findAll (x :: s) = p.findAll s := by
  rw [findAll, findAll.eq_def p s, search?_cons_of_fails h]
  cases hm : p.search? s with
  | none => rfl
  | some m =>
      obtain ⟨hlt, hle⟩ := length_stop_lt_of_search? hp hm
      have hstop : m.span.stop.length < s.length := Nat.lt_of_lt_of_le hlt hle
      simp [hstop, Nat.lt_succ_of_lt hstop]

variable {f : Match κ → List Char}

theorem replace_nil (hp : p.consumes = true) : p.replace f [] = [] := by
  rw [replace, search?_nil_of_consumes hp]

theorem replace_of_reads (hp : p.consumes = true) (h : p.Reads s s' c) :
    p.replace f s = f ⟨⟨s, s'⟩, c⟩ ++ p.replace f s' := by
  have hlt : s'.length < s.length := h.canRead.length_lt hp
  rw [replace, search?_of_reads h]
  simp [hlt, Span.text]

theorem replace_cons_of_fails (hp : p.consumes = true) (h : p.Fails (x :: s)) :
    p.replace f (x :: s) = x :: p.replace f s := by
  rw [replace, replace.eq_def p f s, search?_cons_of_fails h]
  cases hm : p.search? s with
  | none => rfl
  | some m =>
      obtain ⟨hlt, hle⟩ := length_stop_lt_of_search? hp hm
      have hstop : m.span.stop.length < s.length := Nat.lt_of_lt_of_le hlt hle
      simp [hstop, Nat.lt_succ_of_lt hstop, Span.text_cons hle]

/-- A stretch that the pattern misses stays as it is. -/
theorem replace_append_of_misses (hp : p.consumes = true) (h : p.Misses a s) :
    p.replace f (a ++ s) = a ++ p.replace f s := by
  induction a with
  | nil => rfl
  | cons x a ih =>
      obtain ⟨hx, ha⟩ := misses_cons.mp h
      rw [List.cons_append, replace_cons_of_fails hp hx, ih ha, List.cons_append]

/-- Replacing keeps a character that the pattern avoids. -/
theorem mem_replace_of_avoids (hp : p.avoids x = true) (s : List Char) (hx : x ∈ s) :
    x ∈ p.replace f s := by
  rw [replace]
  cases h : p.search? s with
  | none => exact hx
  | some m =>
      by_cases hlt : m.span.stop.length < s.length
      · simp only [hlt, ↓reduceDIte, List.mem_append]
        rcases mem_of_search?_of_avoids hp h hx with hfront | hstop
        · exact .inl (.inl hfront)
        · exact .inr (mem_replace_of_avoids hp m.span.stop hstop)
      · simpa only [hlt, ↓reduceDIte] using hx
termination_by s.length

/-- Replacing brings in no characters but those that are written. -/
theorem mem_of_mem_replace {out : List Char} (s : List Char) (hx : x ∈ p.replace (fun _ => out) s) :
    x ∈ out ∨ x ∈ s := by
  rw [replace] at hx
  cases h : p.search? s with
  | none =>
      rw [h] at hx
      exact .inr hx
  | some m =>
      obtain ⟨hstart, hreads⟩ := reads_of_search? h
      have hstop : m.span.stop <:+ s := hreads.canRead.suffix.trans hstart
      rw [h] at hx
      by_cases hlt : m.span.stop.length < s.length
      · simp only [hlt, ↓reduceDIte, List.mem_append, or_assoc] at hx
        rcases hx with hfront | hout | hrest
        · exact .inr (List.mem_of_mem_take hfront)
        · exact .inl hout
        · exact (mem_of_mem_replace m.span.stop hrest).imp_right hstop.mem
      · simp only [hlt, ↓reduceDIte] at hx
        exact .inr hx
termination_by s.length

end Pattern

end DocTags
