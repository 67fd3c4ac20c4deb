import DocTags.Proofs.Pattern.Related
import DocTags.Proofs.Tag.LineTags
import DocTags.Proofs.Tag.Scanning
import Mathlib.Data.List.Forall2

/-!
# Gaps at the end of a line

Spaces and tabs at the end of a line can be read by few patterns. A pattern whose classes of
characters leave them out has the same outcomes in front of them; one that ends a line prefers the
same reading. A text in double quotes does not notice them either, as they hold no quote.
-/

namespace DocTags

open Pattern Text

namespace Dialect

/-- Nothing but spaces and tabs. -/
def AreGaps (s : List Char) : Prop :=
  ∀ c ∈ s, isGap c = true

instance (s : List Char) : Decidable (AreGaps s) :=
  inferInstanceAs (Decidable (∀ c ∈ s, isGap c = true))

/-- The lines with spaces and tabs added at their ends. -/
def AddsGaps : List (List Char) → List (List Char) → Prop :=
  List.Forall₂ fun line line' => ∃ gaps, AreGaps gaps ∧ line' = line ++ gaps

/-- No line ends in the text. -/
def IsLine (s : List Char) : Prop :=
  ∀ c ∈ s, c ≠ '\n' ∧ c ≠ '\r'

variable {κ : Type} {p q : Pattern κ} {gaps ending s t : List Char} {x : Char}

theorem areGaps_cons : AreGaps (x :: s) ↔ isGap x = true ∧ AreGaps s :=
  List.forall_mem_cons

theorem areGaps_append : AreGaps (s ++ t) ↔ AreGaps s ∧ AreGaps t :=
  List.forall_mem_append

theorem AreGaps.isLine (h : AreGaps s) : IsLine s := by
  intro c hc
  rcases eq_of_isGap (h c hc) with rfl | rfl <;> decide

theorem isLine_cons : IsLine (x :: s) ↔ (x ≠ '\n' ∧ x ≠ '\r') ∧ IsLine s :=
  List.forall_mem_cons

theorem IsLine.of_suffix (h : IsLine s) (ht : t <:+ s) : IsLine t :=
  fun c hc => h c (ht.mem hc)

theorem IsLine.append (hs : IsLine s) (ht : IsLine t) : IsLine (s ++ t) :=
  List.forall_mem_append.mpr ⟨hs, ht⟩

theorem IsLine.not_mem (h : IsLine s) : '\n' ∉ s ∧ '\r' ∉ s :=
  ⟨fun hmem => (h _ hmem).1 rfl, fun hmem => (h _ hmem).2 rfl⟩

/-- The pattern has the same outcomes in front of gaps. -/
def FollowsGaps (p : Pattern κ) : Prop :=
  ∀ gaps, AreGaps gaps → p.Follows (· ++ gaps)

/-- On a line the pattern prefers the same reading in front of gaps. -/
def IgnoresGaps (p : Pattern κ) : Prop :=
  ∀ gaps s, AreGaps gaps → IsLine s → p.preferred (s ++ gaps) = p.preferred s

theorem followsGaps_of_isPlain (hplain : p.isPlain = true) (hspace : p.avoids ' ' = true)
    (htab : p.avoids '\t' = true) : FollowsGaps p := by
  intro gaps hgaps
  refine follows_append_of_avoids hplain fun c hc => ?_
  rcases eq_of_isGap (hgaps c (List.mem_of_mem_head? hc)) with rfl | rfl
  · exact hspace
  · exact htab

theorem FollowsGaps.alt (hp : FollowsGaps p) (hq : FollowsGaps q) :
    FollowsGaps (Pattern.alt p q) :=
  fun gaps hgaps => (hp gaps hgaps).alt (hq gaps hgaps)

theorem FollowsGaps.group (hp : FollowsGaps p) (name : κ) : FollowsGaps (Pattern.group name p) :=
  fun gaps hgaps => (hp gaps hgaps).group name fun s t _ => text_append_append s t gaps

/-- A repetition cannot read gaps alone if nothing can follow them. -/
theorem FollowsGaps.fails_chars_seq (hq : FollowsGaps q) (hnil : q.Fails []) (accepts : Char → Bool)
    (hgaps : AreGaps gaps) : (Pattern.seq (chars accepts) q).Fails gaps := by
  have hfails : ∀ g, AreGaps g → q.Fails g := fun g hg => ((hq g hg).fails_iff []).mpr hnil
  induction gaps with
  | nil => rw [Fails, outcomes_chars_seq_nil, hnil]
  | cons y gaps ih =>
      exact fails_chars_seq_cons.mpr ⟨hfails _ hgaps, fun _ => ih (areGaps_cons.mp hgaps).2⟩

theorem FollowsGaps.chars1_seq (hq : FollowsGaps q) (hnil : q.Fails []) (accepts : Char → Bool) :
    FollowsGaps (Pattern.seq (chars1 accepts) q) := by
  intro gaps hgaps
  cases gaps with
  | nil =>
      intro s
      simp [shown]
  | cons y gaps =>
      exact (hq _ hgaps).chars1_seq (hq.fails_chars_seq hnil accepts (areGaps_cons.mp hgaps).2)

/-- The outcomes on one text are the same in front of an ending, such as gaps. -/
def FollowsGapsAt (p : Pattern κ) (gaps s : List Char) : Prop :=
  (p.outcomes (s ++ gaps)).map (shown id) = (p.outcomes s).map (shown (· ++ gaps))

/-- A character in front of a pattern that fails everywhere in the ending cannot lead into it. -/
theorem FollowsGapsAt.char_seq (accepts : Char → Bool) (hfails : ∀ e, e <:+ ending → q.Fails e)
    (h : ∀ x t, s = x :: t → FollowsGapsAt q ending t) :
    FollowsGapsAt (Pattern.seq (char accepts) q) ending s := by
  have hcons : ∀ y t, (Pattern.seq (char accepts) q).outcomes (y :: t)
      = if accepts y then q.outcomes t else [] := by
    intro y t
    rw [outcomes]
    cases hy : accepts y <;> simp [outcomes, hy]
  cases s with
  | nil =>
      have hnone : (Pattern.seq (char accepts) q).outcomes ending = [] := by
        cases ending with
        | nil => rfl
        | cons y e => rw [hcons, hfails e (List.suffix_cons y e), ite_self]
      rw [FollowsGapsAt, List.nil_append, hnone]
      rfl
  | cons y t =>
      have ht := h y t rfl
      rw [FollowsGapsAt] at ht ⊢
      rw [List.cons_append, hcons, hcons]
      cases accepts y with
      | true => exact ht
      | false => rfl

/-- The rounds of a repetition in front of a pattern. -/
theorem outcomes_star_seq (hp : p.consumes = true) (q : Pattern κ) (s : List Char) :
    (seq (star .greedy p) q).outcomes s
      = (seq p (seq (star .greedy p) q)).outcomes s ++ q.outcomes s := by
  rw [outcomes, outcomes_star_greedy hp, followedBy_append, followedBy_assoc, followedBy_singleton]
  rfl

/-- What stands between quotes, and the second quote. -/
def quotedRest : Pattern κ :=
  seq (star .greedy
      (alt (char fun c => c != '"' && c != '\\' && c != '\n')
        (seq (char (· == '\\')) (char inLine))))
    (char (· == '"'))

theorem fails_quotedRest (h : '"' ∉ ending) : (quotedRest : Pattern κ).Fails ending := by
  apply fails_iff.mpr
  intro t ht
  obtain ⟨u, hu, hquote⟩ := canRead_seq.mp ht
  obtain ⟨c, hc, rfl⟩ := canRead_char.mp hquote
  exact h (beq_iff_eq.mp hc ▸ hu.suffix.mem List.mem_cons_self)

theorem followsGapsAt_quotedRest (hending : '"' ∉ ending) (s : List Char) :
    FollowsGapsAt (quotedRest : Pattern κ) ending s := by
  have hrest : ∀ e, e <:+ ending → (quotedRest : Pattern κ).Fails e :=
    fun e he => fails_quotedRest fun hmem => hending (he.mem hmem)
  have hplain : FollowsGapsAt (seq (char fun c => c != '"' && c != '\\' && c != '\n')
      (quotedRest : Pattern κ)) ending s := by
    refine .char_seq _ hrest fun x t hs => ?_
    have hlt : t.length < s.length := by simp [hs]
    exact followsGapsAt_quotedRest hending t
  have hinLine : ∀ e, e <:+ ending → (seq (char inLine) (quotedRest : Pattern κ)).Fails e := by
    intro e he
    apply fails_iff.mpr
    intro t ht
    obtain ⟨u, hu, hread⟩ := canRead_seq.mp ht
    exact fails_iff.mp (hrest u (hu.suffix.trans he)) t hread
  have hescaped : FollowsGapsAt (seq (char (· == '\\')) (seq (char inLine)
      (quotedRest : Pattern κ))) ending s := by
    refine .char_seq _ hinLine fun x t hs => ?_
    refine .char_seq _ hrest fun y u ht => ?_
    have hlt : u.length < s.length := by
      rw [hs, ht, List.length_cons, List.length_cons]
      omega
    exact followsGapsAt_quotedRest hending u
  have hquote : FollowsGapsAt (char (· == '"') : Pattern κ) ending s := by
    refine follows_append_of_avoids rfl (fun c hc => ?_) s
    have hne : c ≠ '"' := fun heq => hending (heq ▸ List.mem_of_mem_head? hc)
    simpa [avoids, everyClass] using hne
  have hrounds : ∀ u, (quotedRest : Pattern κ).outcomes u
      = (seq (char fun c => c != '"' && c != '\\' && c != '\n') quotedRest).outcomes u
        ++ (seq (char (· == '\\')) (seq (char inLine) quotedRest)).outcomes u
        ++ (char (· == '"')).outcomes u := by
    intro u
    rw [quotedRest, outcomes_star_seq rfl, ← quotedRest]
    simp only [outcomes, followedBy_append, followedBy_assoc]
  rw [FollowsGapsAt] at hplain hescaped hquote ⊢
  simp only [hrounds, List.map_append, hplain, hescaped, hquote]
termination_by s.length

/-- A text in double quotes does not notice an ending without quotes, although the characters of the
ending may stand in it. -/
theorem quotedPattern_follows_append (hending : '"' ∉ ending) :
    quotedPattern.Follows (· ++ ending) := by
  have hquote : (char (· == '"') : Pattern Field).Follows (· ++ ending) := by
    refine follows_append_of_avoids rfl fun c hc => ?_
    have hne : c ≠ '"' := fun heq => hending (heq ▸ List.mem_of_mem_head? hc)
    simpa [avoids, everyClass] using hne
  exact hquote.seq (followsGapsAt_quotedRest hending)

theorem followsGaps_quotedPattern : FollowsGaps quotedPattern :=
  fun _ hgaps => quotedPattern_follows_append fun hmem => absurd (hgaps _ hmem) (by decide)

theorem ignoresGaps_of_names_eq_nil (hnames : p.names = [])
    (h : ∀ gaps s, AreGaps gaps → IsLine s → (p.Fails (s ++ gaps) ↔ p.Fails s)) :
    IgnoresGaps p :=
  fun gaps s hgaps hs => agrees_of_names_eq_nil (f := (· ++ gaps)) hnames
    (fun s hs => h gaps s hgaps hs) s hs

theorem ignoresGaps_lineTail : IgnoresGaps (lineTail : Pattern κ) := by
  have hfails : ∀ s, IsLine s → ((lineTail : Pattern κ).Fails s ↔ ¬ AreGaps s) := by
    intro s hs
    have hread : (∃ t, (lineTail : Pattern κ).CanRead s t) ↔ AreGaps s := by
      simp only [canRead_lineTail hs.not_mem.1 hs.not_mem.2, exists_eq_left, AreGaps]
    rw [← hread, fails_iff, not_exists]
  refine ignoresGaps_of_names_eq_nil rfl fun gaps s hgaps hs => ?_
  rw [hfails _ (hs.append hgaps.isLine), hfails s hs, areGaps_append, and_iff_left hgaps]

/-- Behind blanks a line ends where it does with more blanks at its end. -/
theorem blanks_lineEnd_agrees (hending : ∀ c ∈ ending, isBlank c = true ∧ c ≠ '\n') :
    (seq blanks lineEnd : Pattern κ).Agrees (· ++ ending) fun c => c ≠ '\n' ∧ c ≠ '\r' := by
  have hfails : ∀ s, '\n' ∉ s → ((seq blanks lineEnd : Pattern κ).Fails s
      ↔ ¬ ∀ c ∈ s, isBlank c = true) := by
    intro s hs
    rw [fails_iff, ← not_exists, not_iff_not]
    constructor
    · rintro ⟨t, ht⟩
      obtain ⟨u, hblanks, hend⟩ := canRead_seq.mp ht
      obtain ⟨a, rfl, ha⟩ := canRead_chars.mp hblanks
      obtain ⟨rfl, -⟩ := eq_nil_of_canRead_lineEnd
        (fun hmem => hs (List.mem_append_right a hmem)) hend
      rwa [List.append_nil]
    · intro h
      exact ⟨[], canRead_seq.mpr ⟨[], canRead_chars.mpr ⟨s, (List.append_nil s).symm, h⟩,
        canRead_lineEnd.mpr ⟨rfl, .inl rfl⟩⟩⟩
  refine agrees_of_names_eq_nil rfl fun s hs => ?_
  have hfeed : '\n' ∉ s := fun hmem => (hs _ hmem).1 rfl
  have hfeed' : '\n' ∉ s ++ ending := by
    rw [List.mem_append, not_or]
    exact ⟨hfeed, fun hmem => (hending _ hmem).2 rfl⟩
  rw [hfails _ hfeed', hfails s hfeed, List.forall_mem_append,
    and_iff_left fun c hc => (hending c hc).1]

theorem ignoresGaps_blanks_lineEnd : IgnoresGaps (seq blanks lineEnd : Pattern κ) :=
  fun _ s hgaps hs => blanks_lineEnd_agrees
    (fun c hc => ⟨isBlank_of_isGap (hgaps c hc), (hgaps.isLine c hc).1⟩) s hs

theorem FollowsGaps.seq_ignores (hp : FollowsGaps p) (hq : IgnoresGaps q) :
    IgnoresGaps (seq p q) :=
  fun gaps s hgaps hs => (hp gaps hgaps).seq_agrees (P := fun c => c ≠ '\n' ∧ c ≠ '\r')
    (fun t ht => hq gaps t hgaps ht) s hs

theorem IgnoresGaps.opt_seq (hpq : IgnoresGaps (seq p q)) (hq : IgnoresGaps q) :
    IgnoresGaps (seq (opt p) q) := by
  intro gaps s hgaps hs
  rw [preferred_opt_seq_eq, preferred_opt_seq_eq, hpq gaps s hgaps hs, hq gaps s hgaps hs]

theorem IgnoresGaps.assoc {r : Pattern κ} (h : IgnoresGaps (seq p (seq q r))) :
    IgnoresGaps (seq (seq p q) r) := by
  intro gaps s hgaps hs
  rw [preferred_seq_assoc, preferred_seq_assoc, h gaps s hgaps hs]

/-- A repetition may read what stands behind a text if that makes no difference to what comes behind
the repetition. -/
theorem agrees_chars_seq {P : Char → Prop} (hq : ∀ e, e <:+ ending → q.Agrees (· ++ e) P)
    (accepts : Char → Bool) : (seq (chars accepts) q).Agrees (· ++ ending) P := by
  have hending : ∀ e, e <:+ ending → (seq (chars accepts) q).preferred e = q.preferred [] := by
    intro e he
    induction e with
    | nil => exact preferred_chars_seq_nil accepts q
    | cons y e ih =>
        have hy : q.preferred (y :: e) = q.preferred [] := hq _ he [] (List.forall_mem_nil _)
        rw [preferred_chars_seq_cons, ih ((List.suffix_cons y e).trans he), hy]
        cases accepts y <;> simp
  intro s hs
  induction s with
  | nil => exact (hending ending List.suffix_rfl).trans (preferred_chars_seq_nil accepts q).symm
  | cons x s ih =>
      have hself := hq ending List.suffix_rfl (x :: s) hs
      rw [List.forall_mem_cons] at hs
      simp only [List.cons_append] at hself ⊢
      rw [preferred_chars_seq_cons, preferred_chars_seq_cons, hself, ih hs.2]

/-- A repetition of at least one character cannot read an ending alone if nothing can follow it. -/
theorem agrees_chars1_seq {P : Char → Prop} (hq : ∀ e, e <:+ ending → q.Agrees (· ++ e) P)
    (accepts : Char → Bool) (hnil : q.Fails []) :
    (seq (chars1 accepts) q).Agrees (· ++ ending) P := by
  intro s hs
  cases s with
  | cons x s =>
      have hrest := agrees_chars_seq hq accepts s (List.forall_mem_cons.mp hs).2
      simp only [List.cons_append]
      rw [preferred_chars1_seq_cons, preferred_chars1_seq_cons, hrest]
  | nil =>
      cases ending with
      | nil => rfl
      | cons y e =>
          have hrest := agrees_chars_seq (fun e' he' => hq e' (he'.trans (List.suffix_cons y e)))
            accepts [] hs
          have hself : (seq (chars1 accepts) q).preferred [] = none := rfl
          simp only [List.nil_append] at hrest ⊢
          rw [preferred_chars1_seq_cons, hrest, preferred_chars_seq_nil, preferred_of_fails hnil,
            ite_self, hself]

theorem IgnoresGaps.agrees_suffix (hq : IgnoresGaps q) (hgaps : AreGaps gaps) :
    ∀ e, e <:+ gaps → q.Agrees (· ++ e) fun c => c ≠ '\n' ∧ c ≠ '\r' :=
  fun e he s hs => hq e s (fun c hc => hgaps c (he.mem hc)) hs

theorem IgnoresGaps.chars_seq (hq : IgnoresGaps q) (accepts : Char → Bool) :
    IgnoresGaps (seq (chars accepts) q) :=
  fun _ s hgaps hs => agrees_chars_seq (hq.agrees_suffix hgaps) accepts s hs

/-- Behind at least one character of a line gaps make no difference. -/
theorem IgnoresGaps.chars1_seq_of_ne (hq : IgnoresGaps q) (accepts : Char → Bool)
    (hgaps : AreGaps gaps) (hs : IsLine s) (hne : s ≠ []) :
    (seq (chars1 accepts) q).preferred (s ++ gaps) = (seq (chars1 accepts) q).preferred s := by
  cases s with
  | nil => exact absurd rfl hne
  | cons x s =>
      rw [List.cons_append, preferred_chars1_seq_cons, preferred_chars1_seq_cons,
        hq.chars_seq accepts gaps s hgaps (isLine_cons.mp hs).2]

theorem IgnoresGaps.chars1_seq (hq : IgnoresGaps q) (accepts : Char → Bool) (hnil : q.Fails []) :
    IgnoresGaps (seq (chars1 accepts) q) :=
  fun _ s hgaps hs => agrees_chars1_seq (hq.agrees_suffix hgaps) accepts hnil s hs

/-- A part that may be left out is read as an empty text where gaps alone are left. -/
theorem rel_opt_gaps {name : κ} {e : Pattern κ} (hpart : IgnoresGaps (seq (group name p) e))
    (he : IgnoresGaps e) (hempty : (seq (group name p) e).preferred [] = some [(name, [])])
    (hend : e.preferred [] = some []) (hgaps : AreGaps gaps) (hs : IsLine s) :
    Option.Rel (fun a b => b = a ∨ s = [] ∧ a = [] ∧ b = [(name, [])])
      ((seq (opt (seq (chars1 isGap) (group name p))) e).preferred s)
      ((seq (opt (seq (chars1 isGap) (group name p))) e).preferred (s ++ gaps)) := by
  rw [preferred_opt_seq_eq, preferred_opt_seq_eq, preferred_seq_assoc, preferred_seq_assoc,
    he gaps s hgaps hs]
  by_cases hne : s = []
  · subst hne
    have hleft : (seq (chars1 isGap) (seq (group name p) e)).preferred [] = none := rfl
    rw [List.nil_append, hleft, hend, Option.none_or]
    cases gaps with
    | nil => exact .some (.inl rfl)
    | cons y gaps =>
        obtain ⟨hy, hgaps⟩ := areGaps_cons.mp hgaps
        have hrest := hpart.chars_seq isGap gaps [] hgaps hs
        rw [List.nil_append, preferred_chars_seq_nil, hempty] at hrest
        rw [preferred_chars1_seq_cons, if_pos hy, hrest]
        exact .some (.inr ⟨rfl, rfl, rfl⟩)
  · rw [hpart.chars1_seq_of_ne isGap hgaps hs hne]
    exact rel_of_eq (fun _ => .inl rfl) rfl

/-- The preferred reading of a group that started at `start` and goes on lazily from a tail. -/
def lazyFrom (accepts : Char → Bool) (name : κ) (q : Pattern κ) (start s : List Char) :
    Option (List (κ × List Char)) :=
  ((star .lazy (char accepts)).outcomes s).findSome? fun r : Outcome κ =>
    (q.preferred r.1).map fun u => u ++ [(name, (Span.mk start r.1).text)]

theorem lazyFrom_cons (accepts : Char → Bool) (name : κ) (q : Pattern κ) (start : List Char)
    (x : Char) (s : List Char) :
    lazyFrom accepts name q start (x :: s)
      = ((q.preferred (x :: s)).map fun u => u ++ [(name, (Span.mk start (x :: s)).text)]).or
        (if accepts x then lazyFrom accepts name q start s else none) := by
  rw [lazyFrom, outcomes_star_lazy rfl, List.findSome?_cons, lazyFrom]
  cases q.preferred (x :: s) with
  | some u => rfl
  | none => cases hx : accepts x <;> simp [outcomes, hx]

theorem lazyFrom_nil (accepts : Char → Bool) (name : κ) (q : Pattern κ) (start : List Char) :
    lazyFrom accepts name q start []
      = (q.preferred []).map fun u => u ++ [(name, (Span.mk start []).text)] := by
  rw [lazyFrom, outcomes_star_lazy rfl, List.findSome?_cons]
  cases q.preferred [] <;> rfl

/-- A lazy reading stops at the first place from which the rest can be read. -/
theorem lazyFrom_append_of_misses {accepts : Char → Bool} (name : κ) {read : List (κ × List Char)}
    (hmisses : q.Misses s t) (haccepts : ∀ c ∈ s, accepts c = true)
    (hread : q.preferred t = some read) (front : List Char) :
    lazyFrom accepts name q (front ++ (s ++ t)) (s ++ t) = some (read ++ [(name, front ++ s)]) := by
  induction s generalizing front with
  | nil =>
      have htext : (Span.mk (front ++ t) t).text = front := Span.text_append front t
      rw [List.nil_append, List.append_nil]
      cases t with
      | nil => rw [lazyFrom_nil, hread, htext, Option.map_some]
      | cons x t => rw [lazyFrom_cons, hread, htext, Option.map_some, Option.some_or]
  | cons x s ih =>
      obtain ⟨hfails, hmisses⟩ := misses_cons.mp hmisses
      rw [List.forall_mem_cons] at haccepts
      have hrest := ih hmisses haccepts.2 (front ++ [x])
      rw [List.append_assoc, List.append_assoc, List.singleton_append,
        List.singleton_append] at hrest
      rw [List.cons_append, lazyFrom_cons, preferred_of_fails hfails, Option.map_none,
        Option.none_or, if_pos haccepts.1, hrest]

/-- A lazy reading stops at the end of a text at the latest, if what comes behind it can be read
there and does not notice what is added. -/
theorem lazyFrom_append {P : Char → Prop} (hq : q.Agrees (· ++ ending) P)
    (hend : (q.preferred []).isSome = true) (accepts : Char → Bool) (name : κ)
    (hs : ∀ c ∈ s, P c) (start : List Char) :
    lazyFrom accepts name q (start ++ ending) (s ++ ending)
      = lazyFrom accepts name q start s := by
  induction s with
  | nil =>
      have hself := hq [] hs
      have htext := text_append_append start [] ending
      simp only [List.nil_append] at hself htext ⊢
      obtain ⟨u, hu⟩ := Option.isSome_iff_exists.mp hend
      cases ending with
      | nil => rw [List.append_nil]
      | cons y e =>
          rw [lazyFrom_cons, hself, htext, lazyFrom_nil, hu]
          rfl
  | cons x s ih =>
      have hself := hq (x :: s) hs
      have htext := text_append_append start (x :: s) ending
      rw [List.forall_mem_cons] at hs
      simp only [List.cons_append] at hself htext ⊢
      rw [lazyFrom_cons, lazyFrom_cons, hself, htext, ih hs.2]

theorem findSome?_outcomes_lazy (accepts : Char → Bool) (name : κ) (q : Pattern κ)
    (start s : List Char) :
    (((star .lazy (char accepts)).outcomes s).findSome? fun r : Outcome κ =>
      (q.preferred r.1).map fun u => u ++ texts ((name, ⟨start, r.1⟩) :: r.2))
        = lazyFrom accepts name q start s := by
  have hnames : (star .lazy (char accepts) : Pattern κ).names = [] := rfl
  rw [lazyFrom, ← List.head?_filterMap, ← List.head?_filterMap]
  congr 1
  apply List.filterMap_congr
  intro r hr
  have hyields : (star .lazy (char accepts) : Pattern κ).Yields s r.1 r.2 := hr
  have hnil : r.2 = [] := hyields.eq_nil hnames
  rw [hnil]
  rfl

theorem preferred_group_star_lazy (accepts : Char → Bool) (name : κ) (q : Pattern κ)
    (s : List Char) :
    (seq (group name (star .lazy (char accepts))) q).preferred s
      = lazyFrom accepts name q s s := by
  rw [preferred, outcomes, head?_followedBy_texts, outcomes, List.findSome?_map]
  exact findSome?_outcomes_lazy accepts name q s s

theorem preferred_group_plus_lazy (accepts : Char → Bool) (name : κ) (q : Pattern κ)
    (x : Char) (s : List Char) :
    (seq (group name (plus .lazy (char accepts))) q).preferred (x :: s)
      = if accepts x then lazyFrom accepts name q (x :: s) s else none := by
  have houtcomes : (plus .lazy (char accepts) : Pattern κ).outcomes (x :: s)
      = if accepts x then (star .lazy (char accepts)).outcomes s else [] := by
    rw [plus, outcomes]
    cases hx : accepts x <;> simp [outcomes, hx]
  rw [preferred, outcomes, head?_followedBy_texts, outcomes, houtcomes]
  cases accepts x with
  | false => rfl
  | true =>
      rw [if_pos rfl, if_pos rfl, List.findSome?_map]
      exact findSome?_outcomes_lazy accepts name q (x :: s) s

theorem agrees_group_star_lazy {P : Char → Prop} (hq : q.Agrees (· ++ ending) P)
    (hend : (q.preferred []).isSome = true) (accepts : Char → Bool) (name : κ) :
    (seq (group name (star .lazy (char accepts))) q).Agrees (· ++ ending) P := by
  intro s hs
  rw [preferred_group_star_lazy, preferred_group_star_lazy, lazyFrom_append hq hend accepts name hs]

/-- A lazy reading of at least one character needs one in front of the ending. -/
theorem preferred_group_plus_lazy_append {P : Char → Prop} (hq : q.Agrees (· ++ ending) P)
    (hend : (q.preferred []).isSome = true) (accepts : Char → Bool) (name : κ)
    (hs : ∀ c ∈ s, P c) (hne : s ≠ []) :
    (seq (group name (plus .lazy (char accepts))) q).preferred (s ++ ending)
      = (seq (group name (plus .lazy (char accepts))) q).preferred s := by
  cases s with
  | nil => exact absurd rfl hne
  | cons x s =>
      have hlazy := lazyFrom_append hq hend accepts name (List.forall_mem_cons.mp hs).2 (x :: s)
      rw [List.cons_append] at hlazy ⊢
      rw [preferred_group_plus_lazy, preferred_group_plus_lazy, hlazy]

theorem IgnoresGaps.group_star_lazy (hq : IgnoresGaps q) (hend : (q.preferred []).isSome = true)
    (accepts : Char → Bool) (name : κ) :
    IgnoresGaps (seq (group name (star .lazy (char accepts))) q) :=
  fun gaps s hgaps hs => agrees_group_star_lazy (hq gaps · hgaps) hend accepts name s hs

theorem IgnoresGaps.group_plus_lazy (hq : IgnoresGaps q) (hend : (q.preferred []).isSome = true)
    (accepts : Char → Bool) (name : κ) (hgaps : AreGaps gaps) (hs : IsLine s) (hne : s ≠ []) :
    (seq (group name (plus .lazy (char accepts))) q).preferred (s ++ gaps)
      = (seq (group name (plus .lazy (char accepts))) q).preferred s :=
  preferred_group_plus_lazy_append (hq gaps · hgaps) hend accepts name hs hne

/-- No tag starts in gaps. -/
theorem found_of_areGaps (d : Dialect) (h : AreGaps gaps) : d.pattern.found gaps = none := by
  have hmark : '@' ∉ gaps := fun hmem => absurd (h _ hmem) (by decide)
  rw [found, search?_eq_none_of_mark (fun _ => d.fails_of_stops) hmark, Option.map_none]

/-- The tag of a dialect whose groups have read the given texts. -/
def tagOf (d : Dialect) (read : List (Field × List Char)) : Tag :=
  ⟨d, d.fields.map fun f => (f, ((read.find? (·.1 = f)).map (·.2)).map String.ofList)⟩

theorem tag?_eq_map_found (d : Dialect) (line : List Char) :
    d.tag? line = (d.pattern.found line).map (tagOf d) := by
  rw [tag?, found, Option.map_map]
  congr 1
  funext m
  simp only [Function.comp_def, Tag.ofMatch, tagOf, Match.group?_eq_find?]

theorem getD_tagOf {d : Dialect} {read : List (Field × List Char)} {f : Field} (h : f ∈ d.fields) :
    (tagOf d read).getD f = String.ofList (partOf read f) := by
  rw [Tag.getD, Tag.get?, tagOf, Tag.lookup_map_of_mem h, partOf]
  cases read.find? (·.1 = f) <;> rfl

end Dialect

end DocTags
