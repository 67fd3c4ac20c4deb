import DocTags.Proofs.Requirements.JoinedComments
import DocTags.Proofs.Requirements.Names
import DocTags.Proofs.Requirements.Record

/-!
# The first version of a platform

Of each platform the first line counts that has a version tag or a constraint tag for it, and on
this line the version tag. A constraint that cannot be read is a problem only if it counts; of two
that count the earlier one is reported.
-/

namespace DocTags

open Text

/-- The tag that a requirement of a platform is read from. -/
inductive PlatformTag where
  | version (required : VersionRequirement)
  | constraint (expression : String)
  deriving DecidableEq, Repr

namespace PlatformTag

/-- What the tag requires. -/
def required : PlatformTag → Except Constraint.Fault PlatformRequirement
  | version r => .ok (.version r)
  | constraint expression => (Constraint.read expression).map .constraint

end PlatformTag

namespace Platform

/-- The tag of a dialect on a line, if it has the platform's name. -/
def named? (p : Platform) (d : Dialect) (line : List Char) : Option Tag :=
  (d.tag? line).filter (·.getD .name = p.name)

/-- The tag for the platform on a line; a version tag counts before a constraint tag. -/
def tag? (p : Platform) (line : List Char) : Option PlatformTag :=
  match p.named? .version line with
  | some tag => some (.version ⟨tag.getD .version, tag.getD .operator⟩)
  | none => (p.named? .versionConstraint line).map fun tag =>
      .constraint (Requirements.expressionOf tag)

/-- The first tag for the platform on lines that start at line `n`, with its line. -/
def firstTag? (p : Platform) (n : Int) : List (List Char) → Option (Int × PlatformTag)
  | [] => none
  | line :: ls =>
    match p.tag? line with
    | some tag => some (n, tag)
    | none => p.firstTag? (n + 1) ls

end Platform

namespace Symbol

/-- The first tag for a platform in the comment of a symbol, with its line in the file. -/
def firstTag? (s : Symbol) (p : Platform) : Option (Int × PlatformTag) :=
  let ls := lines s.docComment.toList
  p.firstTag? (s.startLine - ls.length) ls

/-- The first tag for a platform has a constraint that is none. -/
def IsMalformed (s : Symbol) (m : MalformedConstraint) : Prop :=
  s.firstTag? m.platform = some (m.line, .constraint m.expression)
    ∧ ∃ fault, Constraint.read m.expression = .error fault ∧ m.reason = fault.message

end Symbol

namespace Requirements

variable {r r' : Requirements} {p : Platform} {n : Int} {e : Entry} {es : List Entry}
  {line : List Char} {ls : List (List Char)} {m : MalformedConstraint}

/-- The record has of a platform what its first tag requires, with the line of this tag. -/
def RecordsFirst (r : Requirements) (p : Platform) : Option (Int × PlatformTag) → Prop
  | none => r.versions.get? p = none ∧ r.lineOffsets.get? (.platform p) = none
  | some (n, tag) => ∃ q, tag.required = .ok q ∧ r.versions.get? p = some q
      ∧ r.lineOffsets.get? (.platform p) = some n

/-- What is recorded for a platform, with the line that is remembered for it. -/
def located? (r : Requirements) (p : Platform) : Option (Held × Option Int) :=
  (r.held? (.platform p)).map fun value => (value, r.lineOffsets.get? (.platform p))

/-- What an entry on a line asks to be recorded for a platform. -/
def Entry.asks? (p : Platform) (n : Int) (e : Entry) :
    Option (Except (String × String) (Held × Option Int)) :=
  if e.key = .platform p then some (e.held.map fun value => (value, some n)) else none

/-- What a tag on a line asks to be recorded for a platform. -/
def asked (n : Int) : PlatformTag → Except (String × String) (Held × Option Int)
  | .version r => .ok (.platform (.version r), some n)
  | .constraint expression =>
    match Constraint.read expression with
    | .ok c => .ok (.platform (.constraint c), some n)
    | .error fault => .error (expression, fault.message)

/-- What is recorded for a platform stays; otherwise what an entry asks is recorded. -/
theorem located?_take (h : r.take n e = .ok r') (p : Platform) :
    ((r.located? p).map Except.ok).or (e.asks? p n) = (r'.located? p).map Except.ok := by
  obtain ⟨p', hkey, hheld, rfl⟩ | ⟨hnone, value, hvalue, hputs⟩ := take_cases h
  · by_cases hp : e.key = .platform p
    · rw [hp] at hheld
      obtain ⟨value, hvalue⟩ := Option.ne_none_iff_exists'.mp hheld
      simp [located?, hvalue]
    · simp [Entry.asks?, hp]
  · by_cases hp : e.key = .platform p
    · have hr : r.held? (.platform p) = none := hp ▸ hnone p hp
      simp [located?, Entry.asks?, hputs.held?, hputs.lineOffsets, Table.get?_insert, hp, hr,
        hvalue, Except.map]
    · simp [located?, Entry.asks?, hputs.held?, hputs.lineOffsets, Table.get?_insert, hp]

theorem located?_foldlM_take (h : es.foldlM (take · n) r = .ok r') (p : Platform) :
    ((r.located? p).map Except.ok).or (es.findSome? (·.asks? p n))
      = (r'.located? p).map Except.ok := by
  induction es generalizing r with
  | nil =>
      obtain rfl := Except.ok.inj h
      simp
  | cons e es ih =>
      rw [List.foldlM_cons] at h
      obtain ⟨r₁, hfirst, h⟩ := exists_of_bind_eq_ok h
      have hcons : (e :: es).findSome? (·.asks? p n)
          = (e.asks? p n).or (es.findSome? (·.asks? p n)) := by
        rw [List.findSome?_cons]
        cases e.asks? p n <;> rfl
      rw [hcons, ← Option.or_assoc, located?_take hfirst, ih h]

/-- Entries cannot be taken because of what one of them asks for a platform of which nothing is
recorded. -/
theorem asks?_of_foldlM_take_eq_error (h : es.foldlM (take · n) r = .error m) :
    m.line = n ∧ ((r.located? m.platform).map Except.ok).or
      (es.findSome? (·.asks? m.platform n)) = some (.error (m.expression, m.reason)) := by
  induction es generalizing r with
  | nil => cases h
  | cons e es ih =>
      rw [List.foldlM_cons] at h
      cases hfirst : r.take n e with
      | error m' =>
          rw [hfirst] at h
          obtain rfl := Except.error.inj h
          obtain ⟨hnone, hline, rfl⟩ := take_eq_error_iff.mp hfirst
          simp [hline, located?, hnone, Entry.asks?, Entry.key, Entry.held, Except.map]
      | ok r₁ =>
          rw [hfirst] at h
          obtain ⟨hline, hasks⟩ := ih h
          rw [← located?_take hfirst] at hasks
          refine ⟨hline, ?_⟩
          rw [List.findSome?_cons]
          cases he : e.asks? m.platform n <;> simpa [he, Option.or_assoc] using hasks

section Entries

variable {d : Dialect} {entry : Tag → Entry}

/-- The entry of a tag that is for no platform asks nothing for one. -/
theorem findSome?_asks?_of_ne (hentry : ∀ tag, (entry tag).key ≠ .platform p) :
    ((d.tag? line).toList.map entry).findSome? (·.asks? p n) = none := by
  cases d.tag? line <;> simp [Entry.asks?, hentry]

/-- The entry of a tag for a platform asks something for the platform with the name of the tag. -/
theorem findSome?_asks?_of_platform {held : Tag → Except (String × String) Held}
    (hd : d = .version ∨ d = .versionConstraint)
    (hkey : ∀ tag, (entry tag).key = .platform (Platform.ofName (tag.getD .name)))
    (hheld : ∀ tag, (entry tag).held = held tag) :
    ((d.tag? line).toList.map entry).findSome? (·.asks? p n)
      = (p.named? d line).map fun tag => (held tag).map fun value => (value, some n) := by
  rw [Platform.named?]
  cases htag : d.tag? line with
  | none => rfl
  | some tag =>
      have hname : tag.getD .name = p.name ↔ Platform.ofName (tag.getD .name) = p := by
        constructor
        · intro h
          rw [h]
          cases p <;> rfl
        · rintro rfl
          exact Dialect.name_of_platform hd htag
      by_cases hp : Platform.ofName (tag.getD .name) = p
      · simp [Entry.asks?, hkey, hheld, hp, hname, Option.filter]
      · simp [Entry.asks?, hkey, hp, hname, Option.filter]

/-- What the entries of a line ask for a platform is what its tag on the line asks. -/
theorem findSome?_asks?_entries (p : Platform) (n : Int) (line : List Char) :
    (entries line).findSome? (·.asks? p n) = (p.tag? line).map (asked n) := by
  have hos : ∀ tag, (Entry.ofOs tag).key ≠ .platform p := by
    intro tag
    rw [Entry.ofOs]
    split <;> simp [Entry.key]
  have hsetting : ∀ tag, (Entry.ofSetting tag).key ≠ .platform p := by
    intro tag
    simp [Entry.ofSetting, Entry.key]
  have hprerequisite : ∀ tag, (Entry.ofPrerequisite tag).key ≠ .platform p := by
    intro tag
    rw [Entry.ofPrerequisite]
    split <;> simp [Entry.key]
  rw [entries, List.findSome?_append, List.findSome?_append, List.findSome?_append,
    List.findSome?_append, findSome?_asks?_of_ne hos, findSome?_asks?_of_ne hsetting,
    findSome?_asks?_of_ne hprerequisite,
    findSome?_asks?_of_platform (.inl rfl) (fun _ => rfl) fun _ => rfl,
    findSome?_asks?_of_platform (.inr rfl) (fun _ => rfl) fun _ => rfl, Platform.tag?]
  cases p.named? .version line with
  | some tag => rfl
  | none =>
      cases p.named? .versionConstraint line with
      | none => rfl
      | some tag =>
          cases hread : Constraint.read (expressionOf tag) <;>
            simp [Entry.held, Entry.ofConstraint, asked, hread, Except.map]

end Entries

theorem located?_addLine (h : r.addLine n line = .ok r') (p : Platform) :
    ((r.located? p).map Except.ok).or ((p.tag? line).map (asked n))
      = (r'.located? p).map Except.ok := by
  rw [addLine_eq_foldlM] at h
  rw [← findSome?_asks?_entries]
  exact located?_foldlM_take h p

/-- What is recorded for a platform stays; otherwise what its first tag asks is recorded. -/
theorem located?_addLines (h : r.addLines n ls = .ok r') (p : Platform) :
    ((r.located? p).map Except.ok).or ((p.firstTag? n ls).map fun tag => asked tag.1 tag.2)
      = (r'.located? p).map Except.ok := by
  induction ls generalizing r n with
  | nil =>
      obtain rfl := Except.ok.inj h
      simp [Platform.firstTag?]
  | cons line ls ih =>
      rw [addLines] at h
      obtain ⟨r₁, hfirst, h⟩ := exists_of_bind_eq_ok h
      have hcons : (p.firstTag? n (line :: ls)).map (fun tag => asked tag.1 tag.2)
          = ((p.tag? line).map (asked n)).or
            ((p.firstTag? (n + 1) ls).map fun tag => asked tag.1 tag.2) := by
        rw [Platform.firstTag?]
        cases p.tag? line <;> rfl
      rw [hcons, ← Option.or_assoc, located?_addLine hfirst, ih h]

theorem asked_eq_error_iff {tag : PlatformTag} {expression reason : String} :
    asked n tag = .error (expression, reason)
      ↔ tag = .constraint expression
        ∧ ∃ fault, Constraint.read expression = .error fault ∧ reason = fault.message := by
  cases tag with
  | version required => simp [asked]
  | constraint text =>
      rw [asked]
      cases hread : Constraint.read text with
      | ok c =>
          simp only [PlatformTag.constraint.injEq, reduceCtorEq, false_iff, not_and]
          rintro rfl
          simp [hread]
      | error fault =>
          simp only [Except.error.injEq, Prod.mk.injEq, PlatformTag.constraint.injEq]
          constructor
          · rintro ⟨rfl, rfl⟩
            exact ⟨rfl, fault, hread, rfl⟩
          · rintro ⟨rfl, fault', hread', rfl⟩
            obtain rfl := Except.error.inj (hread.symm.trans hread')
            exact ⟨rfl, rfl⟩

/-- A platform of which nothing is recorded has a first tag with a constraint that is none. -/
def HasMalformed (r : Requirements) (n : Int) (ls : List (List Char)) (m : MalformedConstraint) :
    Prop :=
  r.located? m.platform = none
    ∧ m.platform.firstTag? n ls = some (m.line, .constraint m.expression)
    ∧ ∃ fault, Constraint.read m.expression = .error fault ∧ m.reason = fault.message

theorem hasMalformed_of_addLine_eq_error (h : r.addLine n line = .error m)
    (ls : List (List Char)) : m.line = n ∧ r.HasMalformed n (line :: ls) m := by
  rw [addLine_eq_foldlM] at h
  obtain ⟨hline, hasked⟩ := asks?_of_foldlM_take_eq_error h
  rw [findSome?_asks?_entries] at hasked
  cases hr : r.located? m.platform with
  | some value => simp [hr] at hasked
  | none =>
      rw [hr, Option.map_none, Option.none_or] at hasked
      obtain ⟨tag, htag, herror⟩ := Option.map_eq_some_iff.mp hasked
      obtain ⟨rfl, hfault⟩ := asked_eq_error_iff.mp herror
      refine ⟨hline, hr, ?_, hfault⟩
      rw [Platform.firstTag?, htag, hline]

theorem le_of_firstTag? {k : Int} {tag : PlatformTag} (h : p.firstTag? n ls = some (k, tag)) :
    n ≤ k := by
  induction ls generalizing n with
  | nil => cases h
  | cons line ls ih =>
      rw [Platform.firstTag?] at h
      cases htag : p.tag? line with
      | some tag' =>
          rw [htag] at h
          obtain ⟨rfl, -⟩ := Prod.mk.inj (Option.some.inj h)
          exact Int.le_refl n
      | none =>
          rw [htag] at h
          have hle : n + 1 ≤ k := ih h
          omega

/-- A line has one constraint tag at most. -/
theorem eq_of_tag?_constraint {p' : Platform} {e e' : String}
    (h : p.tag? line = some (.constraint e)) (h' : p'.tag? line = some (.constraint e')) :
    p = p' ∧ e = e' := by
  have hconstraint : ∀ {p : Platform} {e : String}, p.tag? line = some (.constraint e) →
      ∃ tag, Dialect.versionConstraint.tag? line = some tag ∧ tag.getD .name = p.name
        ∧ expressionOf tag = e := by
    intro p e h
    rw [Platform.tag?] at h
    cases hversion : p.named? .version line with
    | some tag => simp [hversion] at h
    | none =>
        rw [hversion] at h
        obtain ⟨tag, htag, he⟩ := Option.map_eq_some_iff.mp h
        obtain ⟨htag, hname⟩ := Option.filter_eq_some_iff.mp htag
        exact ⟨tag, htag, of_decide_eq_true hname, PlatformTag.constraint.inj he⟩
  obtain ⟨tag, htag, hname, rfl⟩ := hconstraint h
  obtain ⟨tag', htag', hname', rfl⟩ := hconstraint h'
  obtain rfl := Option.some.inj (htag.symm.trans htag')
  refine ⟨?_, rfl⟩
  have heq : p.name = p'.name := hname.symm.trans hname'
  cases p <;> cases p' <;> first | rfl | exact absurd heq (by decide)

/-- On the line of a constraint that cannot be read no other counts. -/
theorem HasMalformed.eq_of_line {m' : MalformedConstraint} (h : r.HasMalformed n (line :: ls) m)
    (h' : r.HasMalformed n (line :: ls) m') (hline : m.line = n) (hline' : m'.line = n) :
    m = m' := by
  have hfirst : ∀ {m : MalformedConstraint}, r.HasMalformed n (line :: ls) m → m.line = n →
      m.platform.tag? line = some (.constraint m.expression) := by
    rintro m ⟨-, htag, -⟩ hline
    rw [Platform.firstTag?] at htag
    cases hp : m.platform.tag? line with
    | some tag =>
        rw [hp] at htag
        exact congrArg some (Prod.mk.inj (Option.some.inj htag)).2
    | none =>
        rw [hp] at htag
        have hle : n + 1 ≤ m.line := le_of_firstTag? htag
        omega
  obtain ⟨hplatform, hexpression⟩ := eq_of_tag?_constraint (hfirst h hline) (hfirst h' hline')
  obtain ⟨-, -, fault, hread, hreason⟩ := h
  obtain ⟨-, -, fault', hread', hreason'⟩ := h'
  rw [hexpression] at hread
  obtain rfl := Except.error.inj (hread.symm.trans hread')
  cases m
  cases m'
  simp_all

/-- A line that can be read leaves the constraints that cannot. -/
theorem hasMalformed_cons_iff (h : r.addLine n line = .ok r') :
    r.HasMalformed n (line :: ls) m ↔ r'.HasMalformed (n + 1) ls m := by
  have hstep := located?_addLine h m.platform
  rw [HasMalformed, HasMalformed, Platform.firstTag?]
  cases htag : m.platform.tag? line with
  | none =>
      rw [htag, Option.map_none, Option.or_none] at hstep
      have hnone : r.located? m.platform = none ↔ r'.located? m.platform = none := by
        rw [← Option.map_eq_none_iff, hstep, Option.map_eq_none_iff]
      rw [hnone]
  | some tag =>
      rw [htag, Option.map_some] at hstep
      constructor
      · rintro ⟨hnone, htag', hfault⟩
        obtain ⟨-, rfl⟩ := Prod.mk.inj (Option.some.inj htag')
        rw [hnone, (asked_eq_error_iff (n := n)).mpr ⟨rfl, hfault⟩] at hstep
        obtain ⟨value, -, hvalue⟩ := Option.map_eq_some_iff.mp hstep.symm
        cases hvalue
      · rintro ⟨hnone, -⟩
        rw [hnone, Option.map_none] at hstep
        cases hr : r.located? m.platform <;> simp [hr] at hstep

/-- Lines cannot be read exactly if a constraint that counts is none, and the first of these is
reported. -/
theorem addLines_eq_error_iff :
    r.addLines n ls = .error m
      ↔ r.HasMalformed n ls m ∧ ∀ m', r.HasMalformed n ls m' → m.line ≤ m'.line := by
  induction ls generalizing r n with
  | nil =>
      constructor
      · intro h
        cases h
      · rintro ⟨⟨-, h, -⟩, -⟩
        cases h
  | cons line ls ih =>
      rw [addLines]
      cases hfirst : r.addLine n line with
      | ok r₁ =>
          simp only [hasMalformed_cons_iff hfirst]
          exact ih
      | error m₀ =>
          obtain ⟨hline, hmalformed⟩ := hasMalformed_of_addLine_eq_error hfirst ls
          constructor
          · intro h
            obtain rfl := Except.error.inj h
            refine ⟨hmalformed, fun m' hm' => ?_⟩
            rw [hline]
            exact le_of_firstTag? hm'.2.1
          · rintro ⟨hm, hleast⟩
            have hle : m.line ≤ n := hline ▸ hleast m₀ hmalformed
            have hge : n ≤ m.line := le_of_firstTag? hm.2.1
            rw [hmalformed.eq_of_line hm hline (Int.le_antisymm hle hge)]
            rfl

theorem located_addLines (h : addLines {} n ls = .ok r) : Located r := by
  have hstep : ∀ (i : Nat) (text : List Char), ls[i]? = some text → ∀ e ∈ entries text,
      ∀ {r r' : Requirements}, Located r → r.take (n + i) e = .ok r' → Located r' :=
    fun _ _ _ _ _ _ _ hlocated htake => hlocated.take htake
  exact addLines_keeps hstep (fun _ => rfl) h

/-- The record of lines has of each platform what its first tag requires. -/
theorem recordsFirst_addLines (h : addLines {} n ls = .ok r) (p : Platform) :
    r.RecordsFirst p (p.firstTag? n ls) := by
  have hlocated := located?_addLines h p
  have hempty : located? {} p = none := rfl
  rw [hempty, Option.map_none, Option.none_or] at hlocated
  cases htag : p.firstTag? n ls with
  | none =>
      rw [htag, Option.map_none] at hlocated
      have hversion : r.versions.get? p = none := by
        cases hp : r.versions.get? p <;> simp [located?, held?, hp] at hlocated ⊢
      refine ⟨hversion, ?_⟩
      have hkey := located_addLines h p
      rw [Table.hasKey_eq_isSome_get?, Table.hasKey_eq_isSome_get?, hversion] at hkey
      exact Option.isNone_iff_eq_none.mp (Option.isSome_eq_false_iff.mp hkey)
  | some tag =>
      obtain ⟨k, tag⟩ := tag
      rw [htag, Option.map_some] at hlocated
      obtain ⟨⟨value, line⟩, hvalue, hasked⟩ := Option.map_eq_some_iff.mp hlocated.symm
      obtain ⟨held, hheld, hpair⟩ := Option.map_eq_some_iff.mp hvalue
      obtain ⟨q, hq, rfl⟩ := Option.map_eq_some_iff.mp hheld
      obtain ⟨rfl, rfl⟩ := Prod.mk.inj hpair
      cases tag with
      | version required =>
          obtain ⟨hrequired, hline⟩ := Prod.mk.inj (Except.ok.inj hasked)
          obtain rfl := Held.platform.inj hrequired
          exact ⟨_, rfl, hq, hline⟩
      | constraint expression =>
          rw [asked] at hasked
          cases hread : Constraint.read expression with
          | error fault =>
              rw [hread] at hasked
              cases hasked
          | ok c =>
              rw [hread] at hasked
              obtain ⟨hrequired, hline⟩ := Prod.mk.inj (Except.ok.inj hasked)
              obtain rfl := Held.platform.inj hrequired
              refine ⟨_, ?_, hq, hline⟩
              rw [PlatformTag.required, hread]
              rfl

theorem isMalformed_iff {s : Symbol} :
    s.IsMalformed m
      ↔ HasMalformed {} (s.startLine - (lines s.docComment.toList).length)
        (lines s.docComment.toList) m := by
  simp [Symbol.IsMalformed, HasMalformed, Symbol.firstTag?, located?, held?]

/-- Of each platform a symbol has what the first tag for it requires, with the line of this tag. The
requirements cannot be read exactly if one of these tags has a constraint that is none, and the
earliest such tag is reported. -/
theorem ofSymbol_firstTag (s : Symbol) :
    (∀ r, (ofSymbol s).result = .ok r → ∀ p, r.RecordsFirst p (s.firstTag? p))
    ∧ ((∃ problem, (ofSymbol s).result = .error (.problem problem)) ↔ ∃ m, s.IsMalformed m)
    ∧ ∀ problem, (ofSymbol s).result = .error (.problem problem)
        ↔ ∃ m, m.problem = problem ∧ s.IsMalformed m
          ∧ ∀ m', s.IsMalformed m' → m.line ≤ m'.line := by
  have hproblem : ∀ problem, (ofSymbol s).result = .error (.problem problem)
      ↔ ∃ m, m.problem = problem ∧ s.IsMalformed m
        ∧ ∀ m', s.IsMalformed m' → m.line ≤ m'.line := by
    intro problem
    rw [ofSymbol_eq_problem_iff]
    simp only [ofComment, addLines_eq_error_iff, ← isMalformed_iff, and_comm]
  refine ⟨?_, ?_, hproblem⟩
  · intro r hr p
    obtain ⟨c, path, hc, -, rfl⟩ := ofSymbol_eq_ok_iff.mp hr
    exact recordsFirst_addLines hc p
  · constructor
    · rintro ⟨problem, h⟩
      obtain ⟨m, -, hm, -⟩ := (hproblem problem).mp h
      exact ⟨m, hm⟩
    · rintro ⟨m, hm⟩
      cases hcomment : ofComment s.startLine s.docComment.toList with
      | error m' => exact ⟨m'.problem, ofSymbol_eq_problem_iff.mpr ⟨m', hcomment, rfl⟩⟩
      | ok c =>
          -- A record would have what the malformed constraint requires.
          have hfirst := recordsFirst_addLines hcomment m.platform
          obtain ⟨htag, fault, hread, -⟩ := hm
          rw [Symbol.firstTag?] at htag
          rw [htag] at hfirst
          obtain ⟨q, hq, -⟩ := hfirst
          rw [PlatformTag.required, hread] at hq
          cases hq

/-- A constraint that is none, behind a version for the same platform. -/
def laterSymbol : Symbol :=
  ⟨"/**\n * @requires PHP 7.4\n * @requires PHP ^.\n */", "", 20, 25, .null, .null, [], false, none⟩

/-- The constraint on the later line is not looked at. -/
theorem ofSymbol_firstTag_later : ∃ r, (ofSymbol laterSymbol).result = .ok r
    ∧ laterSymbol.firstTag? .php = some (17, .version ⟨"7.4", ""⟩)
    ∧ r.RecordsFirst .php (laterSymbol.firstTag? .php)
    ∧ Platform.php.tag? " * @requires PHP ^.".toList = some (.constraint "^.")
    ∧ ∃ fault, Constraint.read "^." = .error fault := by
  let r : Requirements :=
    { versions := [(.php, .version ⟨"7.4", ""⟩)], lineOffsets := [(.platform .php, 17)] }
  have hr : (ofSymbol laterSymbol).result = .ok r :=
    ofSymbol_eq_ok_iff.mpr ⟨r, "", by decide +kernel, rfl, rfl⟩
  refine ⟨r, hr, by decide +kernel, (ofSymbol_firstTag laterSymbol).1 r hr .php,
    by decide +kernel, ?_⟩
  exact ⟨.unsupported "^.", by decide +kernel⟩

end Requirements

end DocTags
