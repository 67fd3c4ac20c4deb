import DocTags.Proofs.Pattern.Outcomes

/-!
# What patterns read

Three relations between a pattern and a text: the pattern can read it up to a tail, the pattern
prefers to read it up to a tail, and the pattern cannot read it at all. Each of them follows the
shape of the pattern.
-/

namespace DocTags.Pattern

variable {κ : Type} {p q : Pattern κ} {s s' t : List Char} {c c' : Captures κ}

/-- The pattern can read the text up to a tail. -/
def CanRead (p : Pattern κ) (s s' : List Char) : Prop :=
  ∃ c, (s', c) ∈ p.outcomes s

/-- The pattern can read nothing at the front of the text. -/
def Fails (p : Pattern κ) (s : List Char) : Prop :=
  p.outcomes s = []

/-- The pattern prefers to read the text up to a tail, and its groups read `c` on the way. -/
def Reads (p : Pattern κ) (s s' : List Char) (c : Captures κ) : Prop :=
  (p.outcomes s).head? = some (s', c)

/-- The text ends or goes on with a character that is not accepted. -/
def Stops (accepts : Char → Bool) (s : List Char) : Prop :=
  ∀ a ∈ s.head?, accepts a = false

@[simp] theorem stops_nil (accepts : Char → Bool) : Stops accepts [] := by
  simp [Stops]

@[simp] theorem stops_cons (accepts : Char → Bool) (a : Char) (s : List Char) :
    Stops accepts (a :: s) ↔ accepts a = false := by
  simp [Stops]

/-- A text that stops a class of characters stops every smaller class. -/
theorem Stops.mono {accepts accepts' : Char → Bool}
    (h : ∀ a, accepts' a = true → accepts a = true) (hs : Stops accepts s) :
    Stops accepts' s := by
  intro a ha
  rw [Bool.eq_false_iff]
  intro ha'
  exact Bool.false_ne_true ((hs a ha).symm.trans (h a ha'))

theorem stops_append {accepts : Char → Bool} {a : List Char} (ha : ∀ x ∈ a, accepts x = false)
    (hs : Stops accepts s) : Stops accepts (a ++ s) := by
  cases a with
  | nil => exact hs
  | cons x a => exact (stops_cons accepts x (a ++ s)).mpr (ha x List.mem_cons_self)

theorem stops_append_of_ne_nil {accepts : Char → Bool} {a : List Char} (hne : a ≠ [])
    (ha : ∀ x ∈ a, accepts x = false) (s : List Char) : Stops accepts (a ++ s) := by
  cases a with
  | nil => exact absurd rfl hne
  | cons x a => exact (stops_cons accepts x (a ++ s)).mpr (ha x List.mem_cons_self)

theorem Stops.append {accepts : Char → Bool} {a : List Char} (ha : Stops accepts a)
    (hne : a ≠ []) (s : List Char) : Stops accepts (a ++ s) := by
  cases a with
  | nil => exact absurd rfl hne
  | cons x a => exact (stops_cons accepts x (a ++ s)).mpr ((stops_cons accepts x a).mp ha)

/-- Accepted characters up to a stop are all that is dropped. -/
theorem dropWhile_append_of_stops {accepts : Char → Bool} {a : List Char}
    (ha : ∀ x ∈ a, accepts x = true) (hs : Stops accepts s) :
    (a ++ s).dropWhile accepts = s := by
  rw [List.dropWhile_append_of_pos ha]
  cases s with
  | nil => rfl
  | cons x s =>
      rw [stops_cons] at hs
      exact List.dropWhile_cons_of_neg (by simp [hs])

theorem takeWhile_append_of_stops {accepts : Char → Bool} {a : List Char}
    (ha : ∀ x ∈ a, accepts x = true) (hs : Stops accepts s) :
    (a ++ s).takeWhile accepts = a := by
  rw [List.takeWhile_append_of_pos ha]
  cases s with
  | nil => exact List.append_nil a
  | cons x s =>
      rw [stops_cons] at hs
      rw [List.takeWhile_cons_of_neg (by simp [hs]), List.append_nil]

theorem stops_dropWhile (accepts : Char → Bool) (s : List Char) :
    Stops accepts (s.dropWhile accepts) := by
  intro a ha
  have h := List.head?_dropWhile_not accepts s
  rw [Option.mem_def.mp ha] at h
  exact h

theorem fails_iff : p.Fails s ↔ ∀ s', ¬ p.CanRead s s' := by
  constructor
  · rintro h s' ⟨c, hc⟩
    rw [Fails] at h
    simp [h] at hc
  · intro h
    apply List.eq_nil_iff_forall_not_mem.mpr
    intro r hr
    exact h r.1 ⟨r.2, hr⟩

theorem Reads.canRead (h : p.Reads s s' c) : p.CanRead s s' :=
  ⟨c, List.mem_of_mem_head? h⟩

theorem CanRead.suffix (h : p.CanRead s s') : s' <:+ s := by
  obtain ⟨c, hc⟩ := h
  exact suffix_of_mem_outcomes p s _ hc

theorem CanRead.length_lt (hp : p.consumes = true) (h : p.CanRead s s') :
    s'.length < s.length := by
  obtain ⟨c, hc⟩ := h
  exact length_lt_of_consumes p hp s _ hc

theorem fails_nil_of_consumes (hp : p.consumes = true) : p.Fails [] :=
  outcomes_nil_of_consumes hp

/-- A pattern that can read a text has a reading that it prefers. -/
theorem CanRead.exists_reads (h : p.CanRead s s') : ∃ t c, p.Reads s t c := by
  obtain ⟨c, hc⟩ := h
  cases hs : p.outcomes s with
  | nil => simp [hs] at hc
  | cons r rs => exact ⟨r.1, r.2, by simp [Reads, hs]⟩

/-- What holds of every character of a text is found out character by character. -/
instance (priority := high) decidableForallMem {P : Char → Prop} [DecidablePred P]
    (l : List Char) : Decidable (∀ c ∈ l, P c) :=
  List.decidableBAll P l

@[simp] theorem canRead_empty : (empty : Pattern κ).CanRead s s' ↔ s' = s := by
  simp [CanRead, outcomes]

@[simp] theorem canRead_char {accepts : Char → Bool} :
    (char accepts : Pattern κ).CanRead s s' ↔ ∃ a, accepts a = true ∧ s = a :: s' := by
  cases s with
  | nil => simp [CanRead, outcomes]
  | cons a s =>
      simp only [CanRead, outcomes, List.cons.injEq]
      cases h : accepts a with
      | false =>
          constructor
          · rintro ⟨c, hc⟩
            simp at hc
          · rintro ⟨b, hb, rfl, rfl⟩
            simp [hb] at h
      | true =>
          constructor
          · rintro ⟨c, hc⟩
            obtain ⟨rfl, -⟩ := Prod.mk.inj (List.mem_singleton.mp hc)
            exact ⟨a, h, rfl, rfl⟩
          · rintro ⟨b, -, rfl, rfl⟩
            exact ⟨[], List.mem_singleton.mpr rfl⟩

theorem canRead_seq : (seq p q).CanRead s s' ↔ ∃ m, p.CanRead s m ∧ q.CanRead m s' := by
  simp only [CanRead, outcomes, mem_followedBy]
  constructor
  · rintro ⟨c, a, ha, b, hb, he⟩
    obtain ⟨rfl, -⟩ := Prod.mk.inj he
    exact ⟨a.1, ⟨a.2, ha⟩, ⟨b.2, hb⟩⟩
  · rintro ⟨m, ⟨c, hc⟩, ⟨c', hc'⟩⟩
    exact ⟨c' ++ c, (m, c), hc, (s', c'), hc', rfl⟩

theorem canRead_alt : (alt p q).CanRead s s' ↔ p.CanRead s s' ∨ q.CanRead s s' := by
  simp only [CanRead, outcomes, List.mem_append, exists_or]

@[simp] theorem canRead_group {name : κ} : (group name p).CanRead s s' ↔ p.CanRead s s' := by
  simp only [CanRead, outcomes, List.mem_map]
  constructor
  · rintro ⟨c, a, ha, he⟩
    obtain ⟨rfl, -⟩ := Prod.mk.inj he
    exact ⟨a.2, ha⟩
  · rintro ⟨c, hc⟩
    exact ⟨_, (s', c), hc, rfl⟩

theorem canRead_opt : (opt p).CanRead s s' ↔ p.CanRead s s' ∨ s' = s := by
  rw [opt, canRead_alt, canRead_empty]

/-- A repetition reads nothing, or a round of its body and then goes on. -/
theorem canRead_star {g : Greed} (hp : p.consumes = true) :
    (star g p).CanRead s s' ↔ s' = s ∨ ∃ m, p.CanRead s m ∧ (star g p).CanRead m s' := by
  have hseq : (∃ m, p.CanRead s m ∧ (star g p).CanRead m s')
      ↔ ∃ c, (s', c) ∈ followedBy (p.outcomes s) (star g p).outcomes := canRead_seq.symm
  rw [hseq]
  cases g with
  | greedy =>
      simp only [CanRead, outcomes_star_greedy hp s, List.mem_append, List.mem_singleton,
        Prod.mk.injEq, exists_or, exists_and_left, exists_eq, and_true, or_comm]
  | lazy =>
      simp only [CanRead, outcomes_star_lazy hp s, List.mem_cons, Prod.mk.injEq, exists_or,
        exists_and_left, exists_eq, and_true]

theorem canRead_star_char {g : Greed} {accepts : Char → Bool} :
    (star g (char accepts) : Pattern κ).CanRead s s'
      ↔ ∃ a, s = a ++ s' ∧ ∀ x ∈ a, accepts x = true := by
  induction s with
  | nil =>
      rw [canRead_star rfl]
      constructor
      · rintro (rfl | ⟨m, hm, -⟩)
        · exact ⟨[], rfl, by simp⟩
        · simp at hm
      · rintro ⟨a, he, -⟩
        exact Or.inl (List.append_eq_nil_iff.mp he.symm).2
  | cons b s ih =>
      rw [canRead_star rfl]
      constructor
      · rintro (rfl | ⟨m, hm, hs'⟩)
        · exact ⟨[], rfl, by simp⟩
        · obtain ⟨x, hx, he⟩ := canRead_char.mp hm
          obtain ⟨rfl, rfl⟩ := List.cons.inj he
          obtain ⟨a, rfl, ha⟩ := ih.mp hs'
          exact ⟨b :: a, rfl, by simpa [hx] using ha⟩
      · rintro ⟨a, he, ha⟩
        cases a with
        | nil => exact Or.inl he.symm
        | cons x a =>
            obtain ⟨rfl, rfl⟩ := List.cons.inj he
            simp only [List.forall_mem_cons] at ha
            exact Or.inr ⟨a ++ s', canRead_char.mpr ⟨b, ha.1, rfl⟩, ih.mpr ⟨a, rfl, ha.2⟩⟩

@[simp] theorem canRead_chars {accepts : Char → Bool} :
    (chars accepts : Pattern κ).CanRead s s' ↔ ∃ a, s = a ++ s' ∧ ∀ x ∈ a, accepts x = true :=
  canRead_star_char

theorem canRead_plus_char {g : Greed} {accepts : Char → Bool} :
    (plus g (char accepts) : Pattern κ).CanRead s s'
      ↔ ∃ a, a ≠ [] ∧ s = a ++ s' ∧ ∀ x ∈ a, accepts x = true := by
  rw [plus, canRead_seq]
  constructor
  · rintro ⟨m, hm, hs'⟩
    obtain ⟨x, hx, rfl⟩ := canRead_char.mp hm
    obtain ⟨a, rfl, ha⟩ := canRead_star_char.mp hs'
    exact ⟨x :: a, by simp, rfl, by simpa [hx] using ha⟩
  · rintro ⟨a, hne, rfl, ha⟩
    cases a with
    | nil => exact absurd rfl hne
    | cons x a =>
        simp only [List.forall_mem_cons] at ha
        exact ⟨a ++ s', canRead_char.mpr ⟨x, ha.1, rfl⟩, canRead_star_char.mpr ⟨a, rfl, ha.2⟩⟩

@[simp] theorem canRead_chars1 {accepts : Char → Bool} :
    (chars1 accepts : Pattern κ).CanRead s s'
      ↔ ∃ a, a ≠ [] ∧ s = a ++ s' ∧ ∀ x ∈ a, accepts x = true :=
  canRead_plus_char

@[simp] theorem canRead_lit {a : List Char} :
    (lit a : Pattern κ).CanRead s s' ↔ s = a ++ s' := by
  induction a generalizing s with
  | nil => simp [lit, eq_comm]
  | cons x a ih =>
      rw [lit, canRead_seq]
      simp [ih]

theorem canRead_oneOf_lit {a : List Char} {as : List (List Char)} :
    (oneOf (lit a) (as.map lit) : Pattern κ).CanRead s s' ↔ ∃ b ∈ a :: as, s = b ++ s' := by
  induction as generalizing a with
  | nil =>
      rw [List.map_nil, oneOf, canRead_lit]
      simp
  | cons a' as ih =>
      rw [List.map_cons, oneOf, canRead_alt, canRead_lit, ih]
      simp

/-- At most `n` characters of a class are read. -/
theorem canRead_upTo_char {accepts : Char → Bool} (n : Nat) :
    (upTo n (char accepts) : Pattern κ).CanRead s s'
      ↔ ∃ a, a.length ≤ n ∧ s = a ++ s' ∧ ∀ x ∈ a, accepts x = true := by
  induction n generalizing s with
  | zero =>
      rw [upTo, canRead_empty]
      constructor
      · rintro rfl
        exact ⟨[], Nat.le_refl 0, rfl, by simp⟩
      · rintro ⟨a, hlength, rfl, -⟩
        rw [List.length_eq_zero_iff.mp (Nat.le_zero.mp hlength), List.nil_append]
  | succ n ih =>
      rw [upTo, canRead_opt, canRead_seq]
      constructor
      · rintro (⟨m, hchar, h⟩ | rfl)
        · obtain ⟨x, hx, rfl⟩ := canRead_char.mp hchar
          obtain ⟨a, hlength, rfl, ha⟩ := ih.mp h
          exact ⟨x :: a, Nat.succ_le_succ hlength, rfl, List.forall_mem_cons.mpr ⟨hx, ha⟩⟩
        · exact ⟨[], Nat.zero_le _, rfl, by simp⟩
      · rintro ⟨a, hlength, rfl, ha⟩
        cases a with
        | nil => exact .inr rfl
        | cons x a =>
            obtain ⟨hx, ha⟩ := List.forall_mem_cons.mp ha
            exact .inl ⟨a ++ s', canRead_char.mpr ⟨x, hx, rfl⟩,
              ih.mpr ⟨a, Nat.le_of_succ_le_succ hlength, rfl, ha⟩⟩

@[simp] theorem canRead_lineEnd :
    (lineEnd : Pattern κ).CanRead s s' ↔ s' = s ∧ (s = [] ∨ ∃ t, s = '\n' :: t) := by
  cases s with
  | nil => simp [CanRead, outcomes]
  | cons a s => by_cases h : a = '\n' <;> simp [CanRead, outcomes, h]

@[simp] theorem canRead_textEnd :
    (textEnd : Pattern κ).CanRead s s' ↔ s' = s ∧ (s = [] ∨ s = ['\n']) := by
  cases s with
  | nil => simp [CanRead, outcomes]
  | cons a s =>
      by_cases h : a = '\n' ∧ s = []
      · simp [CanRead, outcomes, h]
      · simp only [CanRead, outcomes, if_neg h]
        simp_all

theorem reads_empty : (empty : Pattern κ).Reads s s [] := by
  simp [Reads, outcomes]

theorem reads_char {accepts : Char → Bool} {a : Char} (ha : accepts a = true) :
    (char accepts : Pattern κ).Reads (a :: s) s [] := by
  simp [Reads, outcomes, ha]

theorem head?_followedBy {rs : List (Outcome κ)} {next : List Char → List (Outcome κ)}
    (hrs : rs.head? = some (s', c)) (hnext : (next s').head? = some (t, c')) :
    (followedBy rs next).head? = some (t, c' ++ c) := by
  obtain ⟨r, rfl⟩ := List.head?_eq_some_iff.mp hrs
  obtain ⟨r', hr'⟩ := List.head?_eq_some_iff.mp hnext
  simp [followedBy, hr']

/-- The preferred reading of two patterns after one another, if the second can go on from the
preferred reading of the first. -/
theorem Reads.seq (hp : p.Reads s s' c) (hq : q.Reads s' t c') :
    (seq p q).Reads s t (c' ++ c) :=
  head?_followedBy hp hq

theorem Reads.alt_left (hp : p.Reads s s' c) : (alt p q).Reads s s' c := by
  simp only [Reads, outcomes, List.head?_append] at hp ⊢
  simp [hp]

theorem Reads.alt_right (hp : p.Fails s) (hq : q.Reads s s' c) : (alt p q).Reads s s' c := by
  simp only [Fails, Reads, outcomes] at hp hq ⊢
  simpa [hp] using hq

theorem Reads.group (name : κ) (hp : p.Reads s s' c) :
    (group name p).Reads s s' ((name, ⟨s, s'⟩) :: c) := by
  simp only [Reads, outcomes, List.head?_map] at hp ⊢
  simp [hp]

theorem Reads.opt (hp : p.Reads s s' c) : (opt p).Reads s s' c :=
  hp.alt_left

theorem reads_opt_of_fails (hp : p.Fails s) : (Pattern.opt p).Reads s s [] :=
  Reads.alt_right hp reads_empty

/-- A greedy repetition goes on with its body where it can. -/
theorem Reads.star (hb : p.consumes = true) (hp : p.Reads s s' c)
    (hs : (star .greedy p).Reads s' t c') : (star .greedy p).Reads s t (c' ++ c) := by
  rw [Reads, outcomes_star_greedy hb, List.head?_append, head?_followedBy hp hs]
  rfl

theorem reads_star_of_fails (hb : p.consumes = true) (hp : p.Fails s) :
    (Pattern.star .greedy p).Reads s s [] := by
  rw [Fails] at hp
  simp [Reads, outcomes_star_greedy hb, hp]

theorem fails_char {accepts : Char → Bool} (hs : Stops accepts s) :
    (char accepts : Pattern κ).Fails s := by
  cases s with
  | nil => rfl
  | cons a s =>
      rw [stops_cons] at hs
      simp [Fails, outcomes, hs]

theorem reads_chars {accepts : Char → Bool} {a : List Char} (ha : ∀ x ∈ a, accepts x = true)
    (hs : Stops accepts s) : (chars accepts : Pattern κ).Reads (a ++ s) s [] := by
  induction a with
  | nil => exact reads_star_of_fails rfl (fails_char hs)
  | cons x a ih =>
      simp only [List.forall_mem_cons] at ha
      exact (reads_char ha.1).star rfl (ih ha.2)

theorem reads_chars1 {accepts : Char → Bool} {a : List Char} (hne : a ≠ [])
    (ha : ∀ x ∈ a, accepts x = true) (hs : Stops accepts s) :
    (chars1 accepts : Pattern κ).Reads (a ++ s) s [] := by
  cases a with
  | nil => exact absurd rfl hne
  | cons x a =>
      simp only [List.forall_mem_cons] at ha
      exact (reads_char ha.1).seq (reads_chars ha.2 hs)

theorem reads_lit (a s : List Char) : (lit a : Pattern κ).Reads (a ++ s) s [] := by
  induction a with
  | nil => exact reads_empty
  | cons x a ih => exact (reads_char (by simp)).seq ih

theorem reads_textEnd : (textEnd : Pattern κ).Reads [] [] [] := rfl

theorem reads_lineEnd : (lineEnd : Pattern κ).Reads [] [] [] := rfl

theorem fails_seq_left (hp : p.Fails s) : (seq p q).Fails s := by
  rw [Fails] at hp
  simp [Fails, outcomes, hp]

theorem fails_alt (hp : p.Fails s) (hq : q.Fails s) : (alt p q).Fails s := by
  rw [Fails] at hp hq
  simp [Fails, outcomes, hp, hq]

theorem fails_group {name : κ} (hp : p.Fails s) : (group name p).Fails s := by
  rw [Fails] at hp
  simp [Fails, outcomes, hp]

theorem fails_chars1 {accepts : Char → Bool} (hs : Stops accepts s) :
    (chars1 accepts : Pattern κ).Fails s :=
  fails_seq_left (fails_char hs)

/-- Whether a repetition fails is decided by the first character. -/
theorem fails_chars1_cons {accepts : Char → Bool} {x : Char} :
    (chars1 accepts : Pattern κ).Fails (x :: s) ↔ accepts x = false := by
  constructor
  · intro h
    refine Bool.eq_false_iff.mpr fun hx => ?_
    refine fails_iff.mp h s (canRead_chars1.mpr ⟨[x], List.cons_ne_nil x [], rfl, ?_⟩)
    exact List.forall_mem_singleton.mpr hx
  · intro h
    exact fails_chars1 ((stops_cons accepts x s).mpr h)

/-- Accepted characters up to a stop can be split off in one way only. -/
theorem append_inj_of_stops {accepts : Char → Bool} {a b : List Char} (hs : Stops accepts s)
    (ht : Stops accepts t) (ha : ∀ x ∈ a, accepts x = true) (hb : ∀ x ∈ b, accepts x = true)
    (h : a ++ s = b ++ t) : a = b ∧ s = t := by
  induction a generalizing b with
  | nil =>
      cases b with
      | nil => exact ⟨rfl, h⟩
      | cons y b => simp_all
  | cons x a ih =>
      rw [List.forall_mem_cons] at ha
      cases b with
      | nil =>
          rw [List.nil_append] at h
          simp [← h, ha.1] at ht
      | cons y b =>
          rw [List.forall_mem_cons] at hb
          obtain ⟨rfl, htail⟩ := List.cons.inj h
          obtain ⟨rfl, rfl⟩ := ih ha.2 hb.2 htail
          exact ⟨rfl, rfl⟩

/-- If what comes after a repetition cannot start where the repetition can go on, it has to read
where the repetition stops. -/
theorem fails_chars_seq {accepts : Char → Bool} {a : List Char} (ha : ∀ x ∈ a, accepts x = true)
    (hs : Stops accepts s) (hacc : ∀ x t, accepts x = true → q.Fails (x :: t)) (hq : q.Fails s) :
    (seq (chars accepts) q).Fails (a ++ s) := by
  apply fails_iff.mpr
  intro s' h
  obtain ⟨m, hm, hs'⟩ := canRead_seq.mp h
  obtain ⟨b, hab, hb⟩ := canRead_chars.mp hm
  by_cases hstops : Stops accepts m
  · obtain ⟨rfl, rfl⟩ := append_inj_of_stops hs hstops ha hb hab
    exact fails_iff.mp hq s' hs'
  · cases m with
    | nil => exact hstops (stops_nil accepts)
    | cons x t => exact fails_iff.mp (hacc x t (by simpa using hstops)) s' hs'

/-- A repetition in front of a pattern fails where the pattern fails behind every round. -/
theorem fails_chars_seq_cons {accepts : Char → Bool} {x : Char} :
    (seq (chars accepts) q).Fails (x :: s)
      ↔ q.Fails (x :: s) ∧ (accepts x = true → (seq (chars accepts) q).Fails s) := by
  rw [Fails, Fails, Fails, outcomes, chars, outcomes_star_greedy rfl, followedBy_append,
    followedBy_assoc, followedBy_singleton, List.append_eq_nil_iff, and_comm]
  cases hx : accepts x <;> simp [outcomes, hx]

/-- What a pattern reads does not hold a character that it avoids. -/
theorem CanRead.exists_not_mem {x : Char} (h : p.CanRead s s') (hp : p.avoids x = true) :
    ∃ a, s = a ++ s' ∧ x ∉ a := by
  obtain ⟨c, hc⟩ := h
  exact exists_not_mem_of_avoids p hp s _ hc

/-- The pattern's shape shows that it reads up to the end of the text. -/
def endsText : Pattern κ → Bool
  | .textEnd => true
  | .seq _ q => q.endsText
  | _ => false

/-- A pattern that reads up to the end of the text leaves at most a line feed. -/
theorem CanRead.eq_nil_or_of_endsText (hp : p.endsText = true) (h : p.CanRead s s') :
    s' = [] ∨ s' = ['\n'] := by
  induction p generalizing s with
  | empty | char | alt | star | group | lineEnd => simp [endsText] at hp
  | seq p q _ ihq =>
      obtain ⟨m, -, hq⟩ := canRead_seq.mp h
      exact ihq hp hq
  | textEnd =>
      obtain ⟨rfl, hs⟩ := canRead_textEnd.mp h
      exact hs

/-- A character that a pattern avoids does not stand in what it reads up to the end of a text. -/
theorem CanRead.not_mem_of_endsText {x : Char} (h : p.CanRead s s') (hp : p.endsText = true)
    (hx : p.avoids x = true) (hne : x ≠ '\n') : x ∉ s := by
  obtain ⟨a, rfl, ha⟩ := h.exists_not_mem hx
  rw [List.mem_append, not_or]
  refine ⟨ha, ?_⟩
  rcases h.eq_nil_or_of_endsText hp with rfl | rfl
  · exact List.not_mem_nil
  · exact fun hmem => hne (List.mem_singleton.mp hmem)

end DocTags.Pattern
