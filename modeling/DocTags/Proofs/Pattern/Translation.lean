import DocTags.Proofs.Pattern.Search
import Mathlib.Data.List.Basic

/-!
# Patterns on translated texts

A text can be changed in ways that a pattern does not notice: something is put behind it, or its
line ends are written in another form. A pattern follows such a translation if on the translated
text it leaves the translated rests and its groups read the same, outcome by outcome. Patterns that
look at nothing but characters follow a translation as soon as their classes of characters do.

Where only the preferred reading stays the same, the patterns in front of it may still follow the
translation; the search of the whole text then finds the same groups.
-/

namespace DocTags.Pattern

variable {κ α : Type} {f : List Char → List Char} {p q : Pattern κ} {s : List Char}

/-- What groups have read, without the place where it stands. -/
def texts (c : Captures κ) : List (κ × List Char) :=
  c.map fun x => (x.1, x.2.text)

/-- An outcome without the places of its groups, with its rest translated. -/
def shown (f : List Char → List Char) (r : Outcome κ) : List Char × List (κ × List Char) :=
  (f r.1, texts r.2)

/-- The outcomes on a translated text are those on the text: the rests are translated, and the
groups read the same. -/
def Follows (f : List Char → List Char) (p : Pattern κ) : Prop :=
  ∀ s, (p.outcomes (f s)).map (shown id) = (p.outcomes s).map (shown f)

@[simp] theorem texts_nil : texts ([] : Captures κ) = [] := rfl

theorem texts_append (c c' : Captures κ) : texts (c ++ c') = texts c ++ texts c' :=
  List.map_append

theorem map_shown_followedBy (f : List Char → List Char) (rs : List (Outcome κ))
    (next : List Char → List (Outcome κ)) :
    (followedBy rs next).map (shown f) = rs.flatMap fun r =>
      ((next r.1).map (shown f)).map fun u => (u.1, u.2 ++ texts r.2) := by
  rw [followedBy, List.map_flatMap]
  congr 1
  funext r
  simp only [List.map_map, Function.comp_def, shown, texts_append]

/-- Outcomes that follow a translation are followed by outcomes that do. -/
theorem followedBy_follows {rs rs' : List (Outcome κ)} {next next' : List Char → List (Outcome κ)}
    (hrs : rs'.map (shown id) = rs.map (shown f))
    (hnext : ∀ r ∈ rs, (next' (f r.1)).map (shown id) = (next r.1).map (shown f)) :
    (followedBy rs' next').map (shown id) = (followedBy rs next).map (shown f) := by
  have hfirst : (rs'.flatMap fun r =>
      ((next' r.1).map (shown id)).map fun u => (u.1, u.2 ++ texts r.2))
        = (rs'.map (shown id)).flatMap fun v =>
          ((next' v.1).map (shown id)).map fun u => (u.1, u.2 ++ v.2) := by
    rw [List.flatMap_map]
    rfl
  rw [map_shown_followedBy, map_shown_followedBy, hfirst, hrs, List.flatMap_map]
  rw [List.flatMap_def, List.flatMap_def]
  congr 1
  apply List.map_congr_left
  intro r hr
  simp only [shown, hnext r hr]

theorem Follows.empty : (Pattern.empty : Pattern κ).Follows f := fun _ => rfl

theorem Follows.seq (hp : p.Follows f) (hq : q.Follows f) : (Pattern.seq p q).Follows f := by
  intro s
  exact followedBy_follows (hp s) fun r _ => hq r.1

theorem Follows.alt (hp : p.Follows f) (hq : q.Follows f) : (Pattern.alt p q).Follows f := by
  intro s
  rw [outcomes, outcomes, List.map_append, List.map_append, hp s, hq s]

theorem Follows.opt (hp : p.Follows f) : (Pattern.opt p).Follows f :=
  hp.alt .empty

theorem Follows.star (hb : p.consumes = true) (hp : p.Follows f) (g : Greed) :
    (Pattern.star g p).Follows f := by
  intro s
  have hround : ∀ r ∈ p.outcomes s, ((Pattern.star g p).outcomes (f r.1)).map (shown id)
      = ((Pattern.star g p).outcomes r.1).map (shown f) := by
    intro r hr
    have hlt : r.1.length < s.length := length_lt_of_consumes p hb s r hr
    exact Follows.star hb hp g r.1
  cases g with
  | greedy =>
      rw [outcomes_star_greedy hb, outcomes_star_greedy hb, List.map_append, List.map_append,
        followedBy_follows (hp s) hround]
      rfl
  | lazy =>
      rw [outcomes_star_lazy hb, outcomes_star_lazy hb, List.map_cons, List.map_cons,
        followedBy_follows (hp s) hround]
      rfl
termination_by s => s.length

/-- Outcomes that follow a translation do so in a group, if the translation keeps the text of what
they have read. -/
theorem map_shown_group {rs rs' : List (Outcome κ)} (name : κ)
    (hrs : rs'.map (shown id) = rs.map (shown f))
    (htext : ∀ r ∈ rs, (Span.mk (f s) (f r.1)).text = (Span.mk s r.1).text) :
    (rs'.map fun r => (r.1, (name, Span.mk (f s) r.1) :: r.2)).map (shown id)
      = (rs.map fun r => (r.1, (name, Span.mk s r.1) :: r.2)).map (shown f) := by
  have hnamed : ∀ (g : List Char → List Char) (us : List (Outcome κ)) (t : List Char),
      (us.map fun r => (r.1, (name, Span.mk t r.1) :: r.2)).map (shown g)
        = us.map fun r => (g r.1, (name, (Span.mk t r.1).text) :: texts r.2) := by
    intro g us t
    rw [List.map_map]
    rfl
  have hshown : (rs'.map fun r => (id r.1, (name, (Span.mk (f s) r.1).text) :: texts r.2))
      = (rs'.map (shown id)).map fun u => (u.1, (name, (Span.mk (f s) u.1).text) :: u.2) := by
    rw [List.map_map]
    rfl
  rw [hnamed, hnamed, hshown, hrs, List.map_map]
  apply List.map_congr_left
  intro r hr
  simp only [Function.comp_def, shown, htext r hr]

/-- A group follows a translation that keeps the text of what it reads. -/
theorem Follows.group (hp : p.Follows f) (name : κ)
    (htext : ∀ s t, p.CanRead s t → (Span.mk (f s) (f t)).text = (Span.mk s t).text) :
    (Pattern.group name p).Follows f := by
  intro s
  exact map_shown_group name (hp s) fun r hr => htext s r.1 ⟨r.2, hr⟩

/-- The pattern looks at nothing but characters, and each round of a repetition reads some. -/
def isPlain : Pattern κ → Bool
  | .empty | .char _ => true
  | .seq p q | .alt p q => p.isPlain && q.isPlain
  | .star _ p => p.consumes && p.isPlain
  | .group _ p => p.isPlain
  | .lineEnd | .textEnd => false

/-- A plain pattern follows a translation that its classes of characters follow and that keeps the
text of what patterns with such classes read. -/
theorem follows_of_isPlain {P : (Char → Bool) → Bool}
    (hchar : ∀ accepts, P accepts = true → (char accepts : Pattern κ).Follows f)
    (htext : ∀ (q : Pattern κ) (s t : List Char), q.everyClass P = true → q.CanRead s t →
      (Span.mk (f s) (f t)).text = (Span.mk s t).text)
    (p : Pattern κ) (hplain : p.isPlain = true) (hp : p.everyClass P = true) : p.Follows f := by
  induction p with
  | empty => exact .empty
  | char accepts => exact hchar accepts hp
  | seq p q ihp ihq =>
      obtain ⟨hplain, hplain'⟩ := Bool.and_eq_true_iff.mp hplain
      obtain ⟨hp, hq⟩ := Bool.and_eq_true_iff.mp hp
      exact (ihp hplain hp).seq (ihq hplain' hq)
  | alt p q ihp ihq =>
      obtain ⟨hplain, hplain'⟩ := Bool.and_eq_true_iff.mp hplain
      obtain ⟨hp, hq⟩ := Bool.and_eq_true_iff.mp hp
      exact (ihp hplain hp).alt (ihq hplain' hq)
  | star g p ih =>
      obtain ⟨hb, hplain⟩ := Bool.and_eq_true_iff.mp hplain
      exact .star hb (ih hplain hp) g
  | group name p ih => exact (ih hplain hp).group name fun s t => htext p s t hp
  | lineEnd | textEnd => cases hplain

theorem Follows.fails_iff (hp : p.Follows f) (s : List Char) : p.Fails (f s) ↔ p.Fails s := by
  rw [Fails, Fails, ← List.map_eq_nil_iff (f := shown id), hp s, List.map_eq_nil_iff]

theorem Follows.reads {t : List Char} {c : Captures κ} (hp : p.Follows f) (h : p.Reads s t c) :
    ∃ c', p.Reads (f s) (f t) c' ∧ texts c' = texts c := by
  have hhead : ((p.outcomes (f s)).head?).map (shown id) = some (f t, texts c) := by
    rw [← List.head?_map, hp s, List.head?_map, h]
    rfl
  obtain ⟨⟨rest, c'⟩, hr, hshown⟩ := Option.map_eq_some_iff.mp hhead
  obtain ⟨rfl, htexts⟩ := Prod.mk.inj hshown
  exact ⟨c', hr, htexts⟩

/-- What the groups read in the preferred reading of the front of a text. -/
def preferred (p : Pattern κ) (s : List Char) : Option (List (κ × List Char)) :=
  (p.outcomes s).head?.map fun r => texts r.2

theorem preferred_of_reads {t : List Char} {c : Captures κ} (h : p.Reads s t c) :
    p.preferred s = some (texts c) := by
  rw [preferred, h]
  rfl

theorem preferred_of_fails (h : p.Fails s) : p.preferred s = none := by
  rw [preferred, h]
  rfl

/-- On translated texts with characters of a kind, the groups read the same in the preferred
reading. -/
def Agrees (f : List Char → List Char) (P : Char → Prop) (p : Pattern κ) : Prop :=
  ∀ s, (∀ c ∈ s, P c) → p.preferred (f s) = p.preferred s

variable {P : Char → Prop}

/-- The preferred reading behind outcomes is that behind the first of them that leaves one. -/
theorem head?_followedBy_texts (rs : List (Outcome κ)) (q : Pattern κ) :
    ((followedBy rs q.outcomes).head?.map fun r => texts r.2)
      = rs.findSome? fun r => (q.preferred r.1).map fun u => u ++ texts r.2 := by
  rw [followedBy, List.head?_flatMap, List.map_findSome?]
  congr 1
  funext r
  simp only [Function.comp_def, List.head?_map, Option.map_map, preferred, texts_append]

/-- Behind outcomes that follow a translation, a pattern that prefers the same readings leads to the
same preferred reading. -/
theorem head?_followedBy_shown {rs rs' : List (Outcome κ)}
    (hrs : rs'.map (shown id) = rs.map (shown f))
    (hq : ∀ r ∈ rs, q.preferred (f r.1) = q.preferred r.1) :
    ((followedBy rs' q.outcomes).head?.map fun r => texts r.2)
      = (followedBy rs q.outcomes).head?.map fun r => texts r.2 := by
  have hshown : (rs'.findSome? fun r => (q.preferred r.1).map fun u => u ++ texts r.2)
      = (rs'.map (shown id)).findSome? fun v => (q.preferred v.1).map fun u => u ++ v.2 := by
    rw [List.findSome?_map]
    rfl
  rw [head?_followedBy_texts, head?_followedBy_texts, hshown, hrs, List.findSome?_map,
    ← List.head?_filterMap, ← List.head?_filterMap]
  congr 1
  apply List.filterMap_congr
  intro r hr
  simp only [Function.comp_def, shown, hq r hr]

/-- In front of a pattern that agrees on a translation may stand one that follows it. -/
theorem Follows.seq_agrees (hp : p.Follows f) (hq : q.Agrees f P) :
    (Pattern.seq p q).Agrees f P := by
  intro s hs
  rw [preferred, outcomes, preferred, outcomes]
  refine head?_followedBy_shown (hp s) ?_
  intro r hr
  exact hq r.1 fun c hc => hs c ((suffix_of_mem_outcomes p s r hr).mem hc)

theorem preferred_alt (p q : Pattern κ) (s : List Char) :
    (Pattern.alt p q).preferred s = (p.preferred s).or (q.preferred s) := by
  rw [preferred, outcomes, List.head?_append, preferred, preferred]
  cases (p.outcomes s).head? <;> rfl

/-- What is read behind a preferred reading comes in front of what that has read. -/
theorem preferred_seq_of_reads {s' : List Char} {c : Captures κ} {read : List (κ × List Char)}
    (hp : p.Reads s s' c) (hq : q.preferred s' = some read) :
    (Pattern.seq p q).preferred s = some (read ++ texts c) := by
  obtain ⟨rs, hrs⟩ := List.head?_eq_some_iff.mp hp
  rw [preferred, outcomes, head?_followedBy_texts, hrs, List.findSome?_cons, hq]
  rfl

theorem preferred_seq_assoc (p q r : Pattern κ) (s : List Char) :
    (Pattern.seq (.seq p q) r).preferred s = (Pattern.seq p (.seq q r)).preferred s := by
  simp only [preferred, outcomes, followedBy_assoc]

/-- A pattern that may be left out is not left out if what follows can be read behind it. -/
theorem preferred_opt_seq {read : List (κ × List Char)}
    (h : (Pattern.seq p q).preferred s = some read) :
    (Pattern.seq (.opt p) q).preferred s = some read := by
  have houtcomes : (Pattern.seq (.opt p) q).outcomes s = (Pattern.alt (.seq p q) q).outcomes s := by
    simp only [outcomes, Pattern.opt, followedBy_append, followedBy_singleton]
  rw [preferred, houtcomes, ← preferred, preferred_alt, h, Option.some_or]

theorem Agrees.alt (hp : p.Agrees f P) (hq : q.Agrees f P) : (Pattern.alt p q).Agrees f P := by
  intro s hs
  rw [preferred_alt, preferred_alt, hp s hs, hq s hs]

/-- The order in which three patterns are put together does not count. -/
theorem Agrees.seq_assoc {r : Pattern κ} (h : (Pattern.seq p (.seq q r)).Agrees f P) :
    (Pattern.seq (.seq p q) r).Agrees f P := by
  intro s hs
  simpa only [preferred, outcomes, followedBy_assoc] using h s hs

/-- In front of a pattern that agrees on a translation, another may be left out if they agree on it
together. -/
theorem Agrees.opt_seq (hpq : (Pattern.seq p q).Agrees f P) (hq : q.Agrees f P) :
    (Pattern.seq (.opt p) q).Agrees f P := by
  intro s hs
  simpa only [preferred, outcomes, Pattern.opt, followedBy_append, followedBy_singleton]
    using (hpq.alt hq) s hs

theorem preferred_of_names_eq_nil (hnames : p.names = []) (s : List Char) :
    p.preferred s = if p.outcomes s = [] then none else some [] := by
  cases hs : p.outcomes s with
  | nil => rw [preferred_of_fails hs, if_pos rfl]
  | cons r rs =>
      have hr : r.2 = [] := by
        rw [List.eq_nil_iff_forall_not_mem]
        intro x hx
        have hname := mem_names_of_mem_outcomes p s r (hs ▸ List.mem_cons_self) x hx
        exact List.not_mem_nil (hnames ▸ hname)
      rw [preferred, hs, if_neg (List.cons_ne_nil r rs), List.head?_cons, Option.map_some, hr,
        texts_nil]

/-- A pattern without groups prefers the same reading on texts on which it does not differ in
failing. -/
theorem preferred_congr_of_names_eq_nil (hnames : p.names = []) {t : List Char}
    (h : p.Fails s ↔ p.Fails t) : p.preferred s = p.preferred t := by
  rw [preferred_of_names_eq_nil hnames, preferred_of_names_eq_nil hnames]
  exact if_congr h rfl rfl

/-- A pattern without groups agrees as soon as it fails on the same texts. -/
theorem agrees_of_names_eq_nil (hnames : p.names = [])
    (h : ∀ s, (∀ c ∈ s, P c) → (p.Fails (f s) ↔ p.Fails s)) : p.Agrees f P :=
  fun s hs => preferred_congr_of_names_eq_nil hnames (h s hs)

/-- What the groups read in the first match of a text. -/
def found (p : Pattern κ) (s : List Char) : Option (List (κ × List Char)) :=
  (p.search? s).map fun m => texts m.captures

/-- What the groups read in the matches of a text, one after the other. -/
def foundAll (p : Pattern κ) (s : List Char) : List (List (κ × List Char)) :=
  (p.findAll s).map fun m => texts m.captures

/-- What the last group with a name has read, empty if there is none. -/
def partOf [DecidableEq κ] (read : List (κ × List Char)) (name : κ) : List Char :=
  ((read.find? (·.1 = name)).map (·.2)).getD []

theorem found_nil (hp : p.consumes = true) : p.found [] = none := by
  rw [found, search?_nil_of_consumes hp, Option.map_none]

theorem found_of_reads {s' : List Char} {c : Captures κ} (h : p.Reads s s' c) :
    p.found s = some (texts c) := by
  rw [found, search?_of_reads h, Option.map_some]

theorem found_cons (p : Pattern κ) (x : Char) (s : List Char) :
    p.found (x :: s) = (p.preferred (x :: s)).or (p.found s) := by
  rw [found, search?, matchFront?_eq_head?, preferred]
  cases (p.outcomes (x :: s)).head? <;> rfl

theorem found_of_preferred {read : List (κ × List Char)} (h : p.preferred s = some read) :
    p.found s = some read := by
  obtain ⟨r, hr, rfl⟩ := Option.map_eq_some_iff.mp h
  exact found_of_reads hr

theorem foundAll_nil (hp : p.consumes = true) : p.foundAll [] = [] := by
  rw [foundAll, findAll_nil hp, List.map_nil]

theorem foundAll_of_reads (hp : p.consumes = true) {t : List Char} {c : Captures κ}
    (h : p.Reads s t c) : p.foundAll s = texts c :: p.foundAll t := by
  rw [foundAll, findAll_of_reads hp h, List.map_cons, foundAll]

theorem foundAll_cons_of_fails (hp : p.consumes = true) {x : Char} (h : p.Fails (x :: s)) :
    p.foundAll (x :: s) = p.foundAll s := by
  rw [foundAll, findAll_cons_of_fails hp h, foundAll]

end DocTags.Pattern

namespace DocTags.Match

open Pattern

variable {κ : Type} [DecidableEq κ]

/-- The text of a group can be told from the texts of all groups. -/
theorem group?_eq_find? (m : Match κ) (name : κ) :
    m.group? name = ((texts m.captures).find? (·.1 = name)).map (·.2) := by
  rw [group?, texts, List.find?_map, Option.map_map]
  rfl

theorem groupD_eq_partOf (m : Match κ) (name : κ) :
    m.groupD name = partOf (texts m.captures) name := by
  rw [groupD, group?_eq_find?, partOf]

/-- Matches whose groups read the same have the same texts in their groups. -/
theorem group?_congr {m m' : Match κ} (h : texts m.captures = texts m'.captures) (name : κ) :
    m.group? name = m'.group? name := by
  rw [group?_eq_find?, group?_eq_find?, h]

end DocTags.Match
