import DocTags.Proofs.Pattern.LineWise
import DocTags.Proofs.Pattern.NextLine

/-!
# Related readings

On two texts the preferred readings of a pattern may differ and still be related. What the first
part of a pattern reads may be the same on both texts; then the readings of the whole pattern are
related as soon as those of its second part are, behind every outcome of the first.
-/

namespace DocTags.Pattern

variable {κ : Type} {p q : Pattern κ} {s e : List Char}
  {E : List (κ × List Char) → List (κ × List Char) → Prop}

theorem rel_or {α β : Type} {R : α → β → Prop} {a a' : Option α} {b b' : Option β}
    (h : Option.Rel R a b) (h' : Option.Rel R a' b') : Option.Rel R (a.or a') (b.or b') := by
  cases h with
  | some h => exact .some h
  | none => exact h'

theorem rel_of_eq {α : Type} {R : α → α → Prop} (hR : ∀ a, R a a) {a b : Option α} (h : b = a) :
    Option.Rel R a b := by
  subst h
  cases b with
  | none => exact .none
  | some a => exact .some (hR a)

theorem eq_of_rel {α : Type} {a b : Option α} (h : Option.Rel Eq a b) : a = b := by
  cases h with
  | some h => rw [h]
  | none => rfl

theorem rel_mono {α β : Type} {R R' : α → β → Prop} (hR : ∀ a b, R a b → R' a b) {a : Option α}
    {b : Option β} (h : Option.Rel R a b) : Option.Rel R' a b := by
  cases h with
  | some h => exact .some (hR _ _ h)
  | none => exact .none

theorem rel_map {α β α' β' : Type} {R : α' → β' → Prop} {f : α → α'} {g : β → β'} {a : Option α}
    {b : Option β} (h : Option.Rel (fun a b => R (f a) (g b)) a b) :
    Option.Rel R (a.map f) (b.map g) := by
  cases h with
  | some h => exact .some h
  | none => exact .none

theorem rel_findSome? {α β γ : Type} {R : β → γ → Prop} {f : α → Option β} {g : α → Option γ}
    {l : List α} (h : ∀ a ∈ l, Option.Rel R (f a) (g a)) :
    Option.Rel R (l.findSome? f) (l.findSome? g) := by
  induction l with
  | nil => exact .none
  | cons a l ih =>
      rw [List.forall_mem_cons] at h
      have hfirst := h.1
      rw [List.findSome?_cons, List.findSome?_cons]
      generalize f a = x at hfirst
      generalize g a = y at hfirst
      cases hfirst with
      | some hxy => exact .some hxy
      | none => exact ih h.2

/-- The preferred reading on a translated text, behind the outcomes on the text itself. -/
theorem Follows.preferred_seq {f : List Char → List Char} (hp : p.Follows f) (q : Pattern κ)
    (s : List Char) :
    (Pattern.seq p q).preferred (f s)
      = (p.outcomes s).findSome? fun r => (q.preferred (f r.1)).map fun u => u ++ texts r.2 := by
  have hshown : ((p.outcomes (f s)).findSome? fun r =>
      (q.preferred r.1).map fun u => u ++ texts r.2)
      = ((p.outcomes (f s)).map (shown id)).findSome? fun v =>
        (q.preferred v.1).map fun u => u ++ v.2 := by
    rw [List.findSome?_map]
    rfl
  rw [preferred, outcomes, head?_followedBy_texts, hshown, hp s, List.findSome?_map]
  rfl

/-- Behind a pattern that follows two translations, related readings of what comes next are related
readings of the whole. -/
theorem Follows.rel_translated {f g : List Char → List Char} (hf : p.Follows f) (hg : p.Follows g)
    (hq : ∀ r ∈ p.outcomes s, Option.Rel (fun u v => E (u ++ texts r.2) (v ++ texts r.2))
      (q.preferred (f r.1)) (q.preferred (g r.1))) :
    Option.Rel E ((Pattern.seq p q).preferred (f s)) ((Pattern.seq p q).preferred (g s)) := by
  rw [hf.preferred_seq, hg.preferred_seq]
  exact rel_findSome? fun r hr => rel_map (hq r hr)

theorem Follows.rel_seq {f : List Char → List Char} (hp : p.Follows f)
    (hq : ∀ r ∈ p.outcomes s, Option.Rel (fun u v => E (u ++ texts r.2) (v ++ texts r.2))
      (q.preferred r.1) (q.preferred (f r.1))) :
    Option.Rel E ((Pattern.seq p q).preferred s) ((Pattern.seq p q).preferred (f s)) := by
  have hself : p.Follows id := fun _ => rfl
  exact hself.rel_translated hp hq

/-- A pattern with one group reads nothing else. -/
theorem eq_of_mem_texts {name : κ} (hp : p.names = [name]) {r : Outcome κ}
    (hr : r ∈ p.outcomes s) : ∀ x ∈ texts r.2, x.1 = name := by
  rw [texts, List.forall_mem_map]
  intro x hx
  have hmem := mem_names_of_mem_outcomes p s r hr x hx
  rw [hp] at hmem
  exact List.mem_singleton.mp hmem

/-- A part that may be left out is tried first. -/
theorem preferred_opt_seq_eq (p q : Pattern κ) (s : List Char) :
    (seq (opt p) q).preferred s = ((seq p q).preferred s).or (q.preferred s) := by
  have houtcomes : (seq (opt p) q).outcomes s = (alt (seq p q) q).outcomes s := by
    simp only [outcomes, opt, followedBy_append, followedBy_singleton]
  rw [preferred, houtcomes, ← preferred, preferred_alt]

theorem exists_stop_of_cons {accepts : Char → Bool} {x : Char}
    (h : ∃ c ∈ x :: s, accepts c = false) (hx : accepts x = true) : ∃ c ∈ s, accepts c = false := by
  obtain ⟨c, hc, hstop⟩ := h
  rcases List.mem_cons.mp hc with rfl | hc
  · exact absurd (hx.symm.trans hstop) Bool.noConfusion
  · exact ⟨c, hc, hstop⟩

/-- In front of what stops it a repetition does not notice what stands at the end of the text. -/
theorem rel_chars_seq {accepts : Char → Bool} (hs : ∃ c ∈ s, accepts c = false)
    (h : ∀ t, t <:+ s → t ≠ [] → Option.Rel E (q.preferred t) (q.preferred (t ++ e))) :
    Option.Rel E ((seq (chars accepts) q).preferred s)
      ((seq (chars accepts) q).preferred (s ++ e)) := by
  induction s with
  | nil =>
      obtain ⟨c, hc, -⟩ := hs
      exact absurd hc List.not_mem_nil
  | cons x s ih =>
      have hself := h (x :: s) (List.suffix_refl _) (List.cons_ne_nil x s)
      rw [List.cons_append] at hself ⊢
      rw [preferred_chars_seq_cons, preferred_chars_seq_cons]
      refine rel_or ?_ hself
      cases hx : accepts x with
      | false => exact .none
      | true =>
          have htail := exists_stop_of_cons hs hx
          exact ih htail fun t ht => h t (ht.trans (List.suffix_cons x s))

theorem preferred_chars1_seq_cons (accepts : Char → Bool) (q : Pattern κ) (x : Char)
    (s : List Char) :
    (seq (chars1 accepts) q).preferred (x :: s)
      = if accepts x then (seq (chars accepts) q).preferred s else none := by
  rw [preferred, outcomes_chars1_seq_cons, preferred]
  cases accepts x <;> rfl

theorem rel_chars1_seq {accepts : Char → Bool} (hs : ∃ c ∈ s, accepts c = false)
    (h : ∀ t, t <:+ s → t ≠ [] → Option.Rel E (q.preferred t) (q.preferred (t ++ e))) :
    Option.Rel E ((seq (chars1 accepts) q).preferred s)
      ((seq (chars1 accepts) q).preferred (s ++ e)) := by
  cases s with
  | nil =>
      obtain ⟨c, hc, -⟩ := hs
      exact absurd hc List.not_mem_nil
  | cons x s =>
      rw [List.cons_append, preferred_chars1_seq_cons, preferred_chars1_seq_cons]
      cases hx : accepts x with
      | false => exact .none
      | true =>
          have htail := exists_stop_of_cons hs hx
          exact rel_chars_seq htail fun t ht => h t (ht.trans (List.suffix_cons x s))

/-- The first matches of a text and of a longer text are related, if no match starts in what is
added. -/
theorem rel_found_append (hp : p.consumes = true) (he : p.found e = none)
    (h : ∀ t, t <:+ s → Option.Rel E (p.preferred t) (p.preferred (t ++ e))) :
    Option.Rel E (p.found s) (p.found (s ++ e)) := by
  induction s with
  | nil =>
      rw [found_nil hp, List.nil_append, he]
      exact .none
  | cons x s ih =>
      rw [List.cons_append, found_cons, found_cons]
      exact rel_or (h _ (List.suffix_refl _)) (ih fun t ht => h t (ht.trans (List.suffix_cons x s)))

end DocTags.Pattern
