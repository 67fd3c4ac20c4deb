import DocTags.Proofs.Pattern.Search

/-!
# What groups have read

A pattern yields a tail of a text together with what its groups have read on the way. The groups of
a reading are among those of the pattern, so a group of one part of a pattern is found behind the
groups of the other parts.
-/

namespace DocTags

namespace Pattern

variable {κ : Type} {p q : Pattern κ} {s s' t : List Char} {c c' : Captures κ}

/-- The pattern can read the text up to a tail, and its groups read `c` on the way. -/
def Yields (p : Pattern κ) (s s' : List Char) (c : Captures κ) : Prop :=
  (s', c) ∈ p.outcomes s

theorem Reads.yields (h : p.Reads s s' c) : p.Yields s s' c :=
  List.mem_of_mem_head? h

theorem Yields.canRead (h : p.Yields s s' c) : p.CanRead s s' :=
  ⟨c, h⟩

theorem yields_of_matchWhole? {m : Match κ} (h : p.matchWhole? s = some m) :
    p.Yields s [] m.captures := by
  rw [matchWhole?_eq_find?, Option.map_eq_some_iff] at h
  obtain ⟨r, hr, rfl⟩ := h
  have hnil : r.1 = [] := by simpa using List.find?_some hr
  have hmem := List.mem_of_find?_eq_some hr
  rwa [← hnil]

theorem yields_seq :
    (seq p q).Yields s s' c ↔ ∃ m c₁ c₂, p.Yields s m c₁ ∧ q.Yields m s' c₂ ∧ c = c₂ ++ c₁ := by
  simp only [Yields, outcomes, mem_followedBy]
  constructor
  · rintro ⟨a, ha, b, hb, he⟩
    obtain ⟨rfl, rfl⟩ := Prod.mk.inj he
    exact ⟨a.1, a.2, b.2, ha, hb, rfl⟩
  · rintro ⟨m, c₁, c₂, h₁, h₂, rfl⟩
    exact ⟨(m, c₁), h₁, (s', c₂), h₂, rfl⟩

theorem yields_alt :
    (alt p q).Yields s s' c ↔ p.Yields s s' c ∨ q.Yields s s' c :=
  List.mem_append

theorem yields_opt :
    (opt p).Yields s s' c ↔ p.Yields s s' c ∨ s' = s ∧ c = [] := by
  rw [opt, yields_alt]
  simp [Yields, outcomes]

theorem yields_group {name : κ} :
    (group name p).Yields s s' c ↔ ∃ c', p.Yields s s' c' ∧ c = (name, ⟨s, s'⟩) :: c' := by
  simp only [Yields, outcomes, List.mem_map]
  constructor
  · rintro ⟨a, ha, he⟩
    obtain ⟨rfl, rfl⟩ := Prod.mk.inj he
    exact ⟨a.2, ha, rfl⟩
  · rintro ⟨c', hc', rfl⟩
    exact ⟨(s', c'), hc', rfl⟩

theorem Yields.mem_names (h : p.Yields s s' c) : ∀ x ∈ c, x.1 ∈ p.names :=
  mem_names_of_mem_outcomes p s _ h

/-- A group starts to read at a tail of the text. -/
theorem Yields.start_suffix (h : p.Yields s s' c) : ∀ x ∈ c, x.2.start <:+ s := by
  have hrel : s' <:+ s ∧ ∀ x ∈ c, x.2.start <:+ s := by
    refine rel_of_mem_outcomes (R := fun s t c => t <:+ s ∧ ∀ x ∈ c, x.2.start <:+ s)
      (N := fun _ => True) ?_ ?_ ?_ ?_ p p.everyClass_true (fun _ _ => trivial) s _ h
    · exact fun s => ⟨List.suffix_refl s, List.forall_mem_nil _⟩
    · rintro s t u c c' ⟨ht, hc⟩ ⟨hu, hc'⟩
      exact ⟨hu.trans ht, List.forall_mem_append.mpr ⟨fun x hx => (hc' x hx).trans ht, hc⟩⟩
    · exact fun _ _ a s _ => ⟨List.suffix_cons a s, List.forall_mem_nil _⟩
    · rintro name - s t c ⟨ht, hc⟩
      exact ⟨ht, List.forall_mem_cons.mpr ⟨List.suffix_refl s, hc⟩⟩
  exact hrel.2

/-- A pattern without groups yields no captures. -/
theorem Yields.eq_nil (h : p.Yields s s' c) (hp : p.names = []) : c = [] := by
  have hmem := h.mem_names
  rw [hp] at hmem
  apply List.eq_nil_iff_forall_not_mem.mpr
  intro x hx
  exact List.not_mem_nil (hmem x hx)

theorem yields_of_names_eq_nil (hp : p.names = []) :
    p.Yields s s' c ↔ p.CanRead s s' ∧ c = [] := by
  constructor
  · intro h
    exact ⟨h.canRead, h.eq_nil hp⟩
  · rintro ⟨⟨c', h⟩, rfl⟩
    obtain rfl := Yields.eq_nil h hp
    exact h

/-- A part without groups in front of others adds nothing to the captures. -/
theorem yields_seq_of_names (hp : p.names = []) :
    (seq p q).Yields s s' c ↔ ∃ m, p.CanRead s m ∧ q.Yields m s' c := by
  rw [yields_seq]
  constructor
  · rintro ⟨m, c₁, c₂, h₁, h₂, rfl⟩
    obtain rfl := h₁.eq_nil hp
    exact ⟨m, h₁.canRead, by rwa [List.append_nil]⟩
  · rintro ⟨m, h₁, h₂⟩
    exact ⟨m, [], c, (yields_of_names_eq_nil hp).mpr ⟨h₁, rfl⟩, h₂, (List.append_nil c).symm⟩

/-- A group in front of other parts is the first to capture something. -/
theorem yields_group_seq (hp : p.names = []) {name : κ} :
    (seq (group name p) q).Yields s s' c
      ↔ ∃ m c', p.CanRead s m ∧ q.Yields m s' c' ∧ c = c' ++ [(name, ⟨s, m⟩)] := by
  rw [yields_seq]
  constructor
  · rintro ⟨m, c₁, c₂, h₁, h₂, rfl⟩
    obtain ⟨c', hc', rfl⟩ := yields_group.mp h₁
    obtain rfl := hc'.eq_nil hp
    exact ⟨m, c₂, hc'.canRead, h₂, rfl⟩
  · rintro ⟨m, c', h₁, h₂, rfl⟩
    exact ⟨m, _, c', yields_group.mpr ⟨[], (yields_of_names_eq_nil hp).mpr ⟨h₁, rfl⟩, rfl⟩, h₂, rfl⟩

end Pattern

namespace Match

variable {κ : Type} [DecidableEq κ]

/-- What a group has read is a stretch of the text. -/
theorem infix_of_group? {p : Pattern κ} {s s' t : List Char} {m : Match κ} {name : κ}
    (h : p.Yields s s' m.captures) (ht : m.group? name = some t) : t <:+: s := by
  obtain ⟨x, hx, rfl⟩ := Option.map_eq_some_iff.mp ht
  have hstart := h.start_suffix x (List.mem_of_find?_eq_some hx)
  exact (List.take_prefix _ _).isInfix.trans hstart.isInfix

theorem infix_groupD {p : Pattern κ} {s s' : List Char} {m : Match κ}
    (h : p.Yields s s' m.captures) (name : κ) : m.groupD name <:+: s := by
  cases hgroup : m.group? name with
  | none =>
      rw [groupD, hgroup]
      exact List.nil_infix
  | some t =>
      rw [groupD, hgroup]
      exact infix_of_group? h hgroup

/-- The captures of other groups do not matter. -/
theorem group?_append_of_ne {name : κ} {c : Captures κ} (h : ∀ x ∈ c, x.1 ≠ name)
    (c' : Captures κ) (span : Span) :
    (Match.mk span (c ++ c')).group? name = (Match.mk span c').group? name := by
  have hnone : c.find? (·.1 = name) = none := by
    rw [List.find?_eq_none]
    intro x hx
    simp [h x hx]
  rw [group?, List.find?_append, hnone, Option.none_or, group?]

/-- What a group has read stands behind the captures of other groups. -/
theorem group?_append {name : κ} {c c' : Captures κ} {span span' : Span}
    (h : ∀ x ∈ c, x.1 ≠ name) :
    (Match.mk span (c ++ (name, span') :: c')).group? name = some span'.text := by
  rw [group?_append_of_ne h, group?]
  simp

end Match

end DocTags
