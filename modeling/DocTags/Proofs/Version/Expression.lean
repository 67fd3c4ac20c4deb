import DocTags.Proofs.Decimal.Digits
import DocTags.Proofs.Version.Release

/-!
# Constraint expressions and their meaning

The expressions that constraints are written in: alternatives joined by bars, each a range of two
releases or terms that all have to hold. An expression has a text, and it says of a row of release
numbers whether it is admitted. Some numbers cannot be read or raised because they have too many
digits; an expression without them is legible.
-/

namespace DocTags.Constraint

open Version (place Agree Same Precedes)

/-- Blanks, perhaps none. -/
structure Blanks where
  chars : List Char
  isBlank : ∀ c ∈ chars, Text.isBlank c = true

theorem isBlank_of_mem_nil : ∀ c ∈ ([] : List Char), Text.isBlank c = true :=
  List.forall_mem_nil _

/-- At least one blank. -/
structure Gap extends Blanks where
  ne_nil : chars ≠ []

/-- The signs of comparison. Equality has two. -/
inductive Sign where
  | ge
  | gt
  | le
  | lt
  | eq
  | eqEq
  | ne

/-- What can stand in front of a release. -/
inductive Operator where
  | caret
  | tilde
  | compare (sign : Sign)

/-- A condition on one version. -/
inductive Term where
  | operated (op : Operator) (blanks : Blanks) (version : Release)
  | wildcard (start : Release)
  | anything
  | bare (version : Release)

/-- What joins two terms. -/
inductive Separator where
  | gap (blanks : Gap)
  | comma (before after : Blanks)

/-- A range of two releases, or terms that all have to hold. -/
inductive Alternative where
  | range (lower : Release) (before after : Gap) (upper : Release)
  | terms (first : Term) (rest : List (Separator × Term))

/-- One or two bars with blanks around them. -/
structure Bar where
  before : Blanks
  isDouble : Bool
  after : Blanks

/-- Alternatives joined by bars. -/
structure Expression where
  first : Alternative
  rest : List (Bar × Alternative)

/-- The written sign. -/
def Sign.text : Sign → List Char
  | ge => ['>', '=']
  | gt => ['>']
  | le => ['<', '=']
  | lt => ['<']
  | eq => ['=']
  | eqEq => ['=', '=']
  | ne => ['!', '=']

/-- The written operator. -/
def Operator.text : Operator → List Char
  | caret => ['^']
  | tilde => ['~']
  | compare sign => sign.text

namespace Term

/-- The written term. -/
def text : Term → List Char
  | operated op blanks version => op.text ++ (blanks.chars ++ version.text)
  | wildcard start => start.text ++ ['.', '*']
  | anything => ['*']
  | bare version => version.text

/-- The written term without blanks behind its operator. -/
def attached : Term → List Char
  | operated op _ version => op.text ++ version.text
  | t => t.text

end Term

/-- The written separator. -/
def Separator.text : Separator → List Char
  | gap blanks => blanks.chars
  | comma before after => before.chars ++ ',' :: after.chars

/-- The written form of further terms, each after its separator. -/
def termsText (write : Term → List Char) (ts : List (Separator × Term)) : List Char :=
  ts.flatMap fun t => t.1.text ++ write t.2

/-- The written alternative. -/
def Alternative.text : Alternative → List Char
  | range lower before after upper =>
    lower.text ++ (before.chars ++ '-' :: (after.chars ++ upper.text))
  | terms first rest => first.text ++ termsText Term.text rest

/-- The written bars. -/
def Bar.text (b : Bar) : List Char :=
  b.before.chars ++ '|' :: ((if b.isDouble then ['|'] else []) ++ b.after.chars)

/-- The written form of further alternatives, each after its bars. -/
def alternativesText (as : List (Bar × Alternative)) : List Char :=
  as.flatMap fun a => a.1.text ++ a.2.text

namespace Expression

/-- The written expression. -/
def text (e : Expression) : List Char :=
  e.first.text ++ alternativesText e.rest

/-- The alternatives in order. -/
def alternatives (e : Expression) : List Alternative :=
  e.first :: e.rest.map (·.2)

end Expression

/-- The comparison that a sign stands for. -/
def Sign.comparison : Sign → Comparison
  | ge => .ge
  | gt => .gt
  | le => .le
  | lt => .lt
  | eq | eqEq => .eq
  | ne => .ne

/-- How many places a caret keeps: up to the first number that is not zero, one more than written
for a lone zero, at most three. -/
def caretPlaces (r : List Nat) : Nat :=
  if place r 0 ≠ 0 then 1 else if place r 1 ≠ 0 ∨ r.length < 3 then 2 else 3

/-- How many places a tilde keeps: two if three numbers are written, otherwise one. -/
def tildePlaces (r : List Nat) : Nat :=
  if 3 ≤ r.length then 2 else 1

/-- The term is true of a row of release numbers. -/
def Term.Holds (w : List Nat) : Term → Prop
  | operated .caret _ v => ¬ Precedes w v.numbers ∧ Agree (caretPlaces v.numbers) w v.numbers
  | operated .tilde _ v => ¬ Precedes w v.numbers ∧ Agree (tildePlaces v.numbers) w v.numbers
  | operated (.compare sign) _ v => sign.comparison.Relates w v.numbers
  | wildcard p => Agree p.numbers.length w p.numbers
  | anything => True
  | bare v =>
    if v.numbers.length < 3 then Agree v.numbers.length w v.numbers else Same w v.numbers

/-- The alternative is true of a row of release numbers. An upper end with fewer than three numbers
stands for all rows that agree with it on them. -/
def Alternative.Holds (w : List Nat) : Alternative → Prop
  | range lower _ _ upper =>
    ¬ Precedes w lower.numbers ∧
      (¬ Precedes upper.numbers w ∨
        upper.numbers.length < 3 ∧ Agree upper.numbers.length w upper.numbers)
  | terms first rest => first.Holds w ∧ ∀ t ∈ rest, t.2.Holds w

/-- Some alternative is true of a row of release numbers. -/
def Expression.Holds (w : List Nat) (e : Expression) : Prop :=
  ∃ a ∈ e.alternatives, a.Holds w

/-- All numbers can be read, and the last of the first `n` numbers can be raised and still be
written. -/
def CanRaise (v : Release) (n : Nat) : Prop :=
  v.IsShort ∧ place v.numbers (n - 1) + 1 < Decimal.leastBeyond Decimal.maxDigits

/-- The bounds of the term can be read. -/
def Term.IsLegible : Term → Prop
  | operated .caret _ v => CanRaise v (caretPlaces v.numbers)
  | operated .tilde _ v => CanRaise v (tildePlaces v.numbers)
  | operated (.compare _) _ v => v.IsShort
  | wildcard p => CanRaise p p.numbers.length
  | anything => True
  | bare v => if v.numbers.length < 3 then CanRaise v v.numbers.length else v.IsShort

/-- The bounds of the alternative can be read. -/
def Alternative.IsLegible : Alternative → Prop
  | range lower _ _ upper =>
    lower.IsShort ∧
      if upper.numbers.length < 3 then CanRaise upper upper.numbers.length else upper.IsShort
  | terms first rest => first.IsLegible ∧ ∀ t ∈ rest, t.2.IsLegible

/-- The bounds of every alternative can be read. -/
def Expression.IsLegible (e : Expression) : Prop :=
  ∀ a ∈ e.alternatives, a.IsLegible

/-- From a release up to the next one that differs at one of the first `n` places. -/
def boundsWithin (v : Release) (n : Nat) : VersionRange :=
  [⟨.ge, .ofRelease v.numbers⟩, ⟨.lt, .ofRelease (raised v.numbers n)⟩]

/-- The bounds that a term stands for. -/
def Term.bounds : Term → VersionRange
  | operated .caret _ v => boundsWithin v (caretPlaces v.numbers)
  | operated .tilde _ v => boundsWithin v (tildePlaces v.numbers)
  | operated (.compare sign) _ v => [⟨sign.comparison, .ofRelease v.numbers⟩]
  | wildcard p => boundsWithin p p.numbers.length
  | anything => []
  | bare v =>
    if v.numbers.length < 3 then boundsWithin v v.numbers.length
    else [⟨.eq, .ofRelease v.numbers⟩]

/-- The bounds that an alternative stands for. -/
def Alternative.bounds : Alternative → VersionRange
  | range lower _ _ upper =>
    if upper.numbers.length < 3 then
      [⟨.ge, .ofRelease lower.numbers⟩,
        ⟨.lt, .ofRelease (raised upper.numbers upper.numbers.length)⟩]
    else [⟨.ge, .ofRelease lower.numbers⟩, ⟨.le, .ofRelease upper.numbers⟩]
  | terms first rest => first.bounds ++ rest.flatMap (·.2.bounds)

variable {v : Version}

theorem contains_cons (b : Bound) (r : VersionRange) :
    VersionRange.contains (b :: r) v = true
      ↔ b.allows v = true ∧ VersionRange.contains r v = true := by
  simp [VersionRange.contains]

theorem contains_append (r r' : VersionRange) :
    VersionRange.contains (r ++ r') v = true
      ↔ VersionRange.contains r v = true ∧ VersionRange.contains r' v = true := by
  simp [VersionRange.contains]

@[simp] theorem contains_nil : VersionRange.contains [] v = true := rfl

theorem contains_flatMap {ι : Type} (f : ι → VersionRange) (l : List ι) :
    VersionRange.contains (l.flatMap f) v = true
      ↔ ∀ i ∈ l, VersionRange.contains (f i) v = true := by
  simp only [VersionRange.contains, List.all_flatMap, List.all_eq_true]

theorem caretPlaces_pos (r : List Nat) : 0 < caretPlaces r := by
  unfold caretPlaces
  split
  · exact Nat.one_pos
  · split <;> decide

theorem tildePlaces_pos (r : List Nat) : 0 < tildePlaces r := by
  unfold tildePlaces
  split <;> decide

theorem length_numbers_pos (r : Release) : 0 < r.numbers.length := by
  rw [r.length_numbers]
  exact Nat.succ_pos _

/-- The bounds within `n` places hold what does not precede the release and agrees with it there. -/
theorem contains_boundsWithin (hv : v.IsFinal) (r : Release) {n : Nat} (hn : 0 < n) :
    (boundsWithin r n).contains v = true
      ↔ ¬ Precedes v.release r.numbers ∧ Agree n v.release r.numbers := by
  rw [boundsWithin, contains_cons, contains_cons, Bound.allows_iff _ _ hv, Bound.allows_iff _ _ hv,
    ← Version.not_precedes_and_precedes_raised _ _ hn]
  simp [Comparison.Relates]

/-- Agreement with a release on all that is written of it. -/
theorem contains_boundsWithin_length (hv : v.IsFinal) (r : Release) :
    (boundsWithin r r.numbers.length).contains v = true
      ↔ Agree r.numbers.length v.release r.numbers := by
  rw [contains_boundsWithin hv r (length_numbers_pos r)]
  constructor
  · intro h
    exact h.2
  · intro h
    exact ⟨Version.not_precedes_of_agree_length h, h⟩

theorem contains_singleton (hv : v.IsFinal) (c : Comparison) (r : List Nat) :
    VersionRange.contains [⟨c, .ofRelease r⟩] v = true ↔ c.Relates v.release r := by
  rw [contains_cons, Bound.allows_iff c r hv]
  simp

theorem Term.contains_bounds (hv : v.IsFinal) (t : Term) :
    t.bounds.contains v = true ↔ t.Holds v.release := by
  cases t with
  | operated op blanks r =>
      cases op with
      | caret => exact contains_boundsWithin hv r (caretPlaces_pos _)
      | tilde => exact contains_boundsWithin hv r (tildePlaces_pos _)
      | compare sign => exact contains_singleton hv sign.comparison r.numbers
  | wildcard p => exact contains_boundsWithin_length hv p
  | anything => simp [bounds, Holds]
  | bare r =>
      rw [bounds, Holds]
      split
      · exact contains_boundsWithin_length hv r
      · exact contains_singleton hv .eq r.numbers

theorem Alternative.contains_bounds (hv : v.IsFinal) (a : Alternative) :
    a.bounds.contains v = true ↔ a.Holds v.release := by
  cases a with
  | range lower before after upper =>
      rw [bounds, Holds]
      split
      · next hlt =>
          rw [contains_cons, Bound.allows_iff _ _ hv, contains_singleton hv, Comparison.Relates,
            Comparison.Relates,
            Version.precedes_raised_iff_of_pos _ _ (length_numbers_pos upper),
            Version.precedes_or_agree_iff]
          simp [hlt]
      · next hle =>
          rw [contains_cons, Bound.allows_iff _ _ hv, contains_singleton hv]
          simp [Comparison.Relates, hle]
  | terms first rest =>
      rw [bounds, contains_append, contains_flatMap, Holds, first.contains_bounds hv]
      simp only [Term.contains_bounds hv]

end DocTags.Constraint
