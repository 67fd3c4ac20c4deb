import DocTags.Pattern.Basic

/-!
# The outcomes of a pattern

On a text a pattern has a list of outcomes, the preferred one first. A run hands them on one by one
until one is accepted, so the matches of a pattern are read off this list. A pattern that always
reads something has shorter rests only, and a repetition of it has one equation.
-/

namespace DocTags.Pattern

variable {κ α : Type}

/-- What a reading leaves of a text, and what the groups have read, the latest first. -/
abbrev Outcome (κ : Type) := List Char × Captures κ

/-- The outcomes of a reading, each followed by those of the next reading on what it leaves. -/
def followedBy (rs : List (Outcome κ)) (next : List Char → List (Outcome κ)) : List (Outcome κ) :=
  rs.flatMap fun r => (next r.1).map fun r' => (r'.1, r'.2 ++ r.2)

@[simp] theorem followedBy_nil (next : List Char → List (Outcome κ)) :
    followedBy [] next = [] := rfl

theorem followedBy_cons (r : Outcome κ) (rs : List (Outcome κ))
    (next : List Char → List (Outcome κ)) :
    followedBy (r :: rs) next
      = (next r.1).map (fun r' => (r'.1, r'.2 ++ r.2)) ++ followedBy rs next := by
  rw [followedBy, List.flatMap_cons, followedBy]

theorem followedBy_append (rs rs' : List (Outcome κ)) (next : List Char → List (Outcome κ)) :
    followedBy (rs ++ rs') next = followedBy rs next ++ followedBy rs' next :=
  List.flatMap_append

theorem followedBy_assoc (rs : List (Outcome κ)) (next next' : List Char → List (Outcome κ)) :
    followedBy (followedBy rs next) next'
      = followedBy rs fun s => followedBy (next s) next' := by
  simp only [followedBy, List.flatMap_assoc, List.flatMap_map, List.map_flatMap, List.map_map,
    Function.comp_def, List.append_assoc]

@[simp] theorem followedBy_singleton (s : List Char) (next : List Char → List (Outcome κ)) :
    followedBy [(s, [])] next = next s := by
  simp [followedBy]

theorem mem_followedBy {rs : List (Outcome κ)} {next : List Char → List (Outcome κ)}
    {r : Outcome κ} :
    r ∈ followedBy rs next ↔ ∃ a ∈ rs, ∃ b ∈ next a.1, (b.1, b.2 ++ a.2) = r := by
  simp only [followedBy, List.mem_flatMap, List.mem_map]

theorem followedBy_congr {rs : List (Outcome κ)} {next next' : List Char → List (Outcome κ)}
    (h : ∀ r ∈ rs, next r.1 = next' r.1) : followedBy rs next = followedBy rs next' := by
  rw [followedBy, followedBy, List.flatMap_def, List.flatMap_def]
  congr 1
  apply List.map_congr_left
  intro r hr
  rw [h r hr]

/-- The outcomes of a repetition, with at most one round for every character of the first text. -/
def repeatOutcomes (greed : Greed) (body : List Char → List (Outcome κ)) :
    List Char → List Char → List (Outcome κ)
  | [], s => [(s, [])]
  | _ :: bound, s =>
    match greed with
    | .greedy => followedBy (body s) (repeatOutcomes greed body bound) ++ [(s, [])]
    | .lazy => (s, []) :: followedBy (body s) (repeatOutcomes greed body bound)

/-- The outcomes of a pattern on a text, in its order of preference. -/
def outcomes : Pattern κ → List Char → List (Outcome κ)
  | .empty, s => [(s, [])]
  | .char _, [] => []
  | .char p, a :: s => if p a then [(s, [])] else []
  | .seq p q, s => followedBy (outcomes p s) (outcomes q)
  | .alt p q, s => outcomes p s ++ outcomes q s
  | .star g p, s => repeatOutcomes g (outcomes p) s s
  | .group name p, s => (outcomes p s).map fun r => (r.1, (name, ⟨s, r.1⟩) :: r.2)
  | .lineEnd, [] => [([], [])]
  | .lineEnd, a :: s => if a = '\n' then [(a :: s, [])] else []
  | .textEnd, [] => [([], [])]
  | .textEnd, a :: s => if a = '\n' ∧ s = [] then [(a :: s, [])] else []

/-- Offers outcomes one by one, with what the groups had read before. -/
def firstAccepted (rs : List (Outcome κ)) (c : Captures κ)
    (k : List Char → Captures κ → Option α) : Option α :=
  rs.findSome? fun r => k r.1 (r.2 ++ c)

@[simp] theorem firstAccepted_nil (c : Captures κ) (k : List Char → Captures κ → Option α) :
    firstAccepted [] c k = none := rfl

theorem firstAccepted_cons (r : Outcome κ) (rs : List (Outcome κ)) (c : Captures κ)
    (k : List Char → Captures κ → Option α) :
    firstAccepted (r :: rs) c k = (k r.1 (r.2 ++ c)).or (firstAccepted rs c k) := by
  rw [firstAccepted, List.findSome?_cons]
  cases k r.1 (r.2 ++ c) <;> rfl

@[simp] theorem firstAccepted_singleton (s : List Char) (c : Captures κ)
    (k : List Char → Captures κ → Option α) : firstAccepted [(s, [])] c k = k s c := by
  simp [firstAccepted_cons]

theorem firstAccepted_append (rs rs' : List (Outcome κ)) (c : Captures κ)
    (k : List Char → Captures κ → Option α) :
    firstAccepted (rs ++ rs') c k = (firstAccepted rs c k).or (firstAccepted rs' c k) := by
  simp [firstAccepted]

/-- Offering the outcomes of two readings after one another is offering those of the second inside
those of the first. -/
theorem firstAccepted_followedBy (rs : List (Outcome κ)) (next : List Char → List (Outcome κ))
    (c : Captures κ) (k : List Char → Captures κ → Option α) :
    firstAccepted (followedBy rs next) c k
      = firstAccepted rs c fun s' c' => firstAccepted (next s') c' k := by
  induction rs with
  | nil => rfl
  | cons r rs ih =>
      rw [followedBy_cons, firstAccepted_append, ih]
      simp only [firstAccepted, List.findSome?_map, List.findSome?_cons, Function.comp_def,
        List.append_assoc]
      cases List.findSome? (fun r' => k r'.1 (r'.2 ++ (r.2 ++ c))) (next r.1) <;> simp

theorem repeatUpTo_eq_firstAccepted (greed : Greed)
    (body : List Char → Captures κ → (List Char → Captures κ → Option α) → Option α)
    (outs : List Char → List (Outcome κ))
    (hbody : ∀ s c k, body s c k = firstAccepted (outs s) c k)
    (bound s : List Char) (c : Captures κ) (k : List Char → Captures κ → Option α) :
    repeatUpTo greed body bound s c k = firstAccepted (repeatOutcomes greed outs bound s) c k := by
  induction bound generalizing s c k with
  | nil => simp [repeatUpTo, repeatOutcomes]
  | cons a bound ih =>
      have hround : body s c (fun s' c' => repeatUpTo greed body bound s' c' k)
          = firstAccepted (followedBy (outs s) (repeatOutcomes greed outs bound)) c k := by
        rw [hbody, firstAccepted_followedBy]
        simp only [ih]
      cases greed with
      | greedy =>
          simp only [repeatUpTo, repeatOutcomes, hround, firstAccepted_append,
            firstAccepted_singleton]
          cases firstAccepted _ c k <;> rfl
      | lazy =>
          simp only [repeatUpTo, repeatOutcomes, hround, firstAccepted_cons, List.nil_append]
          cases k s c <;> rfl

/-- A run gives the first of the pattern's outcomes that is accepted. -/
theorem run_eq_firstAccepted (p : Pattern κ) (s : List Char) (c : Captures κ)
    (k : List Char → Captures κ → Option α) :
    p.run s c k = firstAccepted (p.outcomes s) c k := by
  induction p generalizing s c k with
  | empty => simp [run, outcomes]
  | char p => cases s <;> simp [run, outcomes]; split <;> simp
  | seq p q ihp ihq =>
      rw [run, outcomes, firstAccepted_followedBy, ihp]
      simp only [ihq]
  | alt p q ihp ihq =>
      rw [run, outcomes, firstAccepted_append, ihp, ihq]
      cases firstAccepted (p.outcomes s) c k <;> rfl
  | star g p ih =>
      rw [run, outcomes]
      exact repeatUpTo_eq_firstAccepted g _ _ (fun s c k => ih s c k) s s c k
  | group name p ih =>
      rw [run, outcomes, ih]
      simp only [firstAccepted, List.findSome?_map, Function.comp_def, List.cons_append]
  | lineEnd => cases s <;> simp [run, outcomes]; split <;> simp
  | textEnd => cases s <;> simp [run, outcomes]; split <;> simp

/-- The preferred match at the front of a text is the first outcome. -/
theorem matchFront?_eq_head? (p : Pattern κ) (s : List Char) :
    p.matchFront? s = (p.outcomes s).head?.map fun r => ⟨⟨s, r.1⟩, r.2⟩ := by
  rw [matchFront?, run_eq_firstAccepted, firstAccepted]
  cases p.outcomes s <;> simp

/-- The preferred match of a whole text is the first outcome that leaves nothing. -/
theorem matchWhole?_eq_find? (p : Pattern κ) (s : List Char) :
    p.matchWhole? s
      = ((p.outcomes s).find? fun r => r.1.isEmpty).map fun r => ⟨⟨s, r.1⟩, r.2⟩ := by
  rw [matchWhole?, run_eq_firstAccepted, firstAccepted]
  induction p.outcomes s with
  | nil => rfl
  | cons r rs ih =>
      rw [List.findSome?_cons, List.find?_cons, ih]
      cases r.1.isEmpty <;> simp

/-- Every class of characters in the pattern has a property. -/
def everyClass (P : (Char → Bool) → Bool) : Pattern κ → Bool
  | .empty | .lineEnd | .textEnd => true
  | .char accepts => P accepts
  | .seq p q | .alt p q => p.everyClass P && q.everyClass P
  | .star _ p | .group _ p => p.everyClass P

/-- The names of the groups in a pattern. -/
def names : Pattern κ → List κ
  | .empty | .char _ | .lineEnd | .textEnd => []
  | .seq p q | .alt p q => p.names ++ q.names
  | .star _ p => p.names
  | .group name p => name :: p.names

section Preserved

variable {R : List Char → List Char → Captures κ → Prop} (hrefl : ∀ s, R s s [])
  (htrans : ∀ {s t u c c'}, R s t c → R t u c' → R s u (c' ++ c))

include htrans in
theorem rel_of_mem_followedBy {rs : List (Outcome κ)} {next : List Char → List (Outcome κ)}
    {s : List Char} (hrs : ∀ r ∈ rs, R s r.1 r.2) (hnext : ∀ s, ∀ r ∈ next s, R s r.1 r.2)
    {r : Outcome κ} (hr : r ∈ followedBy rs next) : R s r.1 r.2 := by
  obtain ⟨a, ha, b, hb, rfl⟩ := mem_followedBy.mp hr
  exact htrans (hrs a ha) (hnext a.1 b hb)

include hrefl htrans in
theorem rel_of_mem_repeatOutcomes {greed : Greed} {body : List Char → List (Outcome κ)}
    (hbody : ∀ s, ∀ r ∈ body s, R s r.1 r.2) (bound s : List Char) :
    ∀ r ∈ repeatOutcomes greed body bound s, R s r.1 r.2 := by
  induction bound generalizing s with
  | nil => simpa [repeatOutcomes] using hrefl s
  | cons a bound ih =>
      have hround : ∀ r ∈ followedBy (body s) (repeatOutcomes greed body bound), R s r.1 r.2 :=
        fun r hr => rel_of_mem_followedBy (R := R) htrans (hbody s) ih hr
      intro r hr
      cases greed with
      | greedy =>
          simp only [repeatOutcomes, List.mem_append, List.mem_singleton] at hr
          rcases hr with hr | rfl
          · exact hround r hr
          · exact hrefl s
      | lazy =>
          simp only [repeatOutcomes, List.mem_cons] at hr
          rcases hr with rfl | hr
          · exact hrefl s
          · exact hround r hr

include hrefl htrans in
/-- A reflexive and transitive relation that holds of every single character read, and that the
groups of the pattern keep, holds of a whole reading. -/
theorem rel_of_mem_outcomes {P : (Char → Bool) → Bool} {N : κ → Prop}
    (hP : ∀ accepts, P accepts = true → ∀ a s, accepts a = true → R (a :: s) s [])
    (hN : ∀ name, N name → ∀ s t c, R s t c → R s t ((name, ⟨s, t⟩) :: c)) (p : Pattern κ)
    (hp : p.everyClass P = true) (hn : ∀ name ∈ p.names, N name) (s : List Char) :
    ∀ r ∈ p.outcomes s, R s r.1 r.2 := by
  induction p generalizing s with
  | empty => simpa [outcomes] using hrefl s
  | char accepts =>
      cases s with
      | nil => simp [outcomes]
      | cons a s => cases h : accepts a <;> simp [outcomes, h]; exact hP accepts hp a s h
  | seq p q ihp ihq =>
      obtain ⟨hp, hq⟩ := Bool.and_eq_true_iff.mp hp
      obtain ⟨hnp, hnq⟩ := List.forall_mem_append.mp hn
      intro r hr
      exact rel_of_mem_followedBy (R := R) htrans (ihp hp hnp s) (ihq hq hnq) hr
  | alt p q ihp ihq =>
      obtain ⟨hp, hq⟩ := Bool.and_eq_true_iff.mp hp
      obtain ⟨hnp, hnq⟩ := List.forall_mem_append.mp hn
      intro r hr
      rcases List.mem_append.mp hr with hr | hr
      · exact ihp hp hnp s r hr
      · exact ihq hq hnq s r hr
  | star g p ih => exact rel_of_mem_repeatOutcomes hrefl htrans (ih hp hn) s s
  | group name p ih =>
      obtain ⟨hname, hn⟩ := List.forall_mem_cons.mp hn
      intro r hr
      obtain ⟨a, ha, rfl⟩ := List.mem_map.mp hr
      exact hN name hname s a.1 a.2 (ih hp hn s a ha)
  | lineEnd | textEnd =>
      intro r hr
      have hs : r = (s, []) := by
        cases s with
        | nil => simp_all [outcomes]
        | cons a s =>
            simp only [outcomes] at hr
            split at hr <;> simp_all
      rw [hs]
      exact hrefl s

end Preserved

theorem everyClass_true (p : Pattern κ) : p.everyClass (fun _ => true) = true := by
  induction p <;> simp_all [everyClass]

/-- A reading leaves a tail of the text. -/
theorem suffix_of_mem_outcomes (p : Pattern κ) (s : List Char) :
    ∀ r ∈ p.outcomes s, r.1 <:+ s :=
  rel_of_mem_outcomes (R := fun s t _ => t <:+ s) (N := fun _ => True) List.suffix_refl
    (fun h h' => h'.trans h) (fun _ _ a s _ => List.suffix_cons a s) (fun _ _ _ _ _ h => h) p
    p.everyClass_true (fun _ _ => trivial) s

/-- A reading names groups of the pattern only. -/
theorem mem_names_of_mem_outcomes (p : Pattern κ) (s : List Char) :
    ∀ r ∈ p.outcomes s, ∀ x ∈ r.2, x.1 ∈ p.names := by
  refine rel_of_mem_outcomes (R := fun _ _ c => ∀ x ∈ c, x.1 ∈ p.names)
    (N := (· ∈ p.names)) ?_ ?_ ?_ ?_ p p.everyClass_true (fun _ h => h) s
  · simp
  · intro s t u c c' hc hc'
    exact List.forall_mem_append.mpr ⟨hc', hc⟩
  · simp
  · intro name hname s t c hc
    exact List.forall_mem_cons.mpr ⟨hname, hc⟩

/-- No class of characters in the pattern accepts the character. -/
def avoids (x : Char) (p : Pattern κ) : Bool :=
  p.everyClass fun accepts => !accepts x

/-- What a reading takes off a text does not hold a character that the pattern avoids. -/
theorem exists_not_mem_of_avoids {x : Char} (p : Pattern κ) (hp : p.avoids x = true)
    (s : List Char) : ∀ r ∈ p.outcomes s, ∃ a, s = a ++ r.1 ∧ x ∉ a := by
  refine rel_of_mem_outcomes (R := fun s t _ => ∃ a, s = a ++ t ∧ x ∉ a) (N := fun _ => True)
    ?_ ?_ ?_ (fun _ _ _ _ _ h => h) p hp (fun _ _ => trivial) s
  · intro s
    exact ⟨[], rfl, by simp⟩
  · rintro s t u c c' ⟨a, rfl, ha⟩ ⟨b, rfl, hb⟩
    exact ⟨a ++ b, by rw [List.append_assoc], by simp [ha, hb]⟩
  · intro accepts hx a s ha
    refine ⟨[a], rfl, ?_⟩
    simp only [List.mem_singleton]
    rintro rfl
    simp [ha] at hx

/-- The pattern's shape shows that it reads at least one character. -/
def consumes : Pattern κ → Bool
  | .char _ => true
  | .seq p q => p.consumes || q.consumes
  | .alt p q => p.consumes && q.consumes
  | .group _ p => p.consumes
  | .empty | .star _ _ | .lineEnd | .textEnd => false

theorem length_lt_of_consumes (p : Pattern κ) (hp : p.consumes = true) (s : List Char) :
    ∀ r ∈ p.outcomes s, r.1.length < s.length := by
  induction p generalizing s with
  | empty | star | lineEnd | textEnd => simp [consumes] at hp
  | char p => cases s <;> simp [outcomes]
  | seq p q ihp ihq =>
      intro r hr
      obtain ⟨a, ha, b, hb, rfl⟩ := mem_followedBy.mp hr
      have hsa := (suffix_of_mem_outcomes p s a ha).length_le
      have hab := (suffix_of_mem_outcomes q a.1 b hb).length_le
      rcases Bool.or_eq_true_iff.mp hp with hp | hq
      · exact Nat.lt_of_le_of_lt hab (ihp hp s a ha)
      · exact Nat.lt_of_lt_of_le (ihq hq a.1 b hb) hsa
  | alt p q ihp ihq =>
      intro r hr
      obtain ⟨hp, hq⟩ := Bool.and_eq_true_iff.mp hp
      rcases List.mem_append.mp hr with hr | hr
      · exact ihp hp s r hr
      · exact ihq hq s r hr
  | group name p ih =>
      intro r hr
      obtain ⟨a, ha, rfl⟩ := List.mem_map.mp hr
      exact ih hp s a ha

theorem outcomes_nil_of_consumes {p : Pattern κ} (hp : p.consumes = true) : p.outcomes [] = [] := by
  apply List.eq_nil_iff_forall_not_mem.mpr
  intro r hr
  exact Nat.not_lt_zero _ (length_lt_of_consumes p hp [] r hr)

/-- A repetition of a pattern that reads something has no use for a longer bound than its text. -/
theorem repeatOutcomes_eq_of_consumes {p : Pattern κ} (hp : p.consumes = true) (greed : Greed)
    (bound bound' s : List Char) (hb : s.length ≤ bound.length) (hb' : s.length ≤ bound'.length) :
    repeatOutcomes greed p.outcomes bound s = repeatOutcomes greed p.outcomes bound' s := by
  induction bound generalizing bound' s with
  | nil =>
      obtain rfl : s = [] := List.length_eq_zero_iff.mp (Nat.le_zero.mp hb)
      cases bound' with
      | nil => rfl
      | cons => cases greed <;> simp [repeatOutcomes, outcomes_nil_of_consumes hp]
  | cons a bound ih =>
      cases bound' with
      | nil =>
          obtain rfl : s = [] := List.length_eq_zero_iff.mp (Nat.le_zero.mp hb')
          cases greed <;> simp [repeatOutcomes, outcomes_nil_of_consumes hp]
      | cons a' bound' =>
          have hround : followedBy (p.outcomes s) (repeatOutcomes greed p.outcomes bound)
              = followedBy (p.outcomes s) (repeatOutcomes greed p.outcomes bound') := by
            apply followedBy_congr
            intro r hr
            have hlt := length_lt_of_consumes p hp s r hr
            simp only [List.length_cons] at hb hb'
            exact ih bound' r.1 (by omega) (by omega)
          cases greed <;> simp only [repeatOutcomes, hround]

/-- Behind a reading of the body the rounds that are left are all rounds of the rest. -/
theorem followedBy_repeatOutcomes {p : Pattern κ} (hp : p.consumes = true) (greed : Greed)
    (a : Char) (s : List Char) :
    followedBy (p.outcomes (a :: s)) (repeatOutcomes greed p.outcomes s)
      = followedBy (p.outcomes (a :: s)) (star greed p).outcomes := by
  apply followedBy_congr
  intro r hr
  have hlt := length_lt_of_consumes p hp (a :: s) r hr
  rw [outcomes]
  exact repeatOutcomes_eq_of_consumes hp greed s r.1 r.1 (Nat.le_of_lt_succ hlt) (Nat.le_refl _)

/-- The rounds of a repetition: one reading of the body and the repetition again, or nothing. -/
theorem outcomes_star_greedy {p : Pattern κ} (hp : p.consumes = true) (s : List Char) :
    (star .greedy p).outcomes s
      = followedBy (p.outcomes s) (star .greedy p).outcomes ++ [(s, [])] := by
  cases s with
  | nil => simp [outcomes, repeatOutcomes, outcomes_nil_of_consumes hp]
  | cons a s => rw [← followedBy_repeatOutcomes hp, outcomes, repeatOutcomes]

theorem outcomes_star_lazy {p : Pattern κ} (hp : p.consumes = true) (s : List Char) :
    (star .lazy p).outcomes s
      = (s, []) :: followedBy (p.outcomes s) (star .lazy p).outcomes := by
  cases s with
  | nil => simp [outcomes, repeatOutcomes, outcomes_nil_of_consumes hp]
  | cons a s => rw [← followedBy_repeatOutcomes hp, outcomes, repeatOutcomes]

end DocTags.Pattern
