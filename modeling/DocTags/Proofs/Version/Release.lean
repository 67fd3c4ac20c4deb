import DocTags.Proofs.Fallible
import DocTags.Proofs.Text.Numeral
import DocTags.Proofs.Version.Order

/-!
# Written releases

A release is written as numbers with points between them. The reader of versions takes such a text
for the final release with these numbers, unless a number has more digits than can be read.
-/

namespace DocTags

open Text Pattern

/-- Further numbers of a release, each after a point. -/
def dotted (ns : List Numeral) : List Char :=
  ns.flatMap fun n => '.' :: n.digits

/-- A release as it is written in constraints: one to four numbers with points between them. -/
structure Release where
  first : Numeral
  rest : List Numeral
  length_rest_le : rest.length ≤ 3

namespace Release

/-- The numbers as they are written. -/
def numerals (r : Release) : List Numeral :=
  r.first :: r.rest

/-- The release numbers. -/
def numbers (r : Release) : List Nat :=
  r.numerals.map Numeral.value

/-- The written release. -/
def text (r : Release) : List Char :=
  r.first.digits ++ dotted r.rest

/-- All numbers can be read. -/
def IsShort (r : Release) : Prop :=
  ∀ n ∈ r.numerals, n.IsShort

theorem length_numbers (r : Release) : r.numbers.length = r.rest.length + 1 := by
  simp [numbers, numerals]

end Release

theorem dotted_cons (n : Numeral) (ns : List Numeral) :
    dotted (n :: ns) = '.' :: (n.digits ++ dotted ns) := rfl

/-- The characters of a written release are digits and points. -/
theorem forall_mem_dotted {P : Char → Prop} (h : ∀ c ∈ "0123456789".toList, P c) (hdot : P '.')
    (ns : List Numeral) : ∀ c ∈ dotted ns, P c := by
  intro c hc
  obtain ⟨n, -, hc⟩ := List.mem_flatMap.mp hc
  rcases List.mem_cons.mp hc with rfl | hc
  · exact hdot
  · exact n.forall_mem h c hc

theorem Release.forall_mem_text {P : Char → Prop} (h : ∀ c ∈ "0123456789".toList, P c)
    (hdot : P '.') (r : Release) : ∀ c ∈ r.text, P c := by
  intro c hc
  rcases List.mem_append.mp hc with hc | hc
  · exact r.first.forall_mem h c hc
  · exact forall_mem_dotted h hdot r.rest c hc

section Reading

variable {κ : Type} (accepts : Char → Bool) (hacc : ∀ c ∈ "0123456789".toList, accepts c = true)
  (hdot : accepts '.' = false) {s : List Char}

include hdot in
theorem stops_dotted (ns : List Numeral) (hs : Stops accepts s) :
    Stops accepts (dotted ns ++ s) := by
  cases ns with
  | nil => exact hs
  | cons n ns => simpa [dotted_cons] using hdot

include hacc hdot in
/-- A point and a number at a time, as often as there are any. -/
theorem reads_dotted (ns : List Numeral) (hs : Stops accepts s)
    (hf : (seq (char (· == '.')) (chars1 accepts) : Pattern κ).Fails s) :
    (star .greedy (seq (char (· == '.')) (chars1 accepts)) : Pattern κ).Reads
      (dotted ns ++ s) s [] := by
  induction ns with
  | nil => exact reads_star_of_fails rfl hf
  | cons n ns ih =>
      have hround : (seq (char (· == '.')) (chars1 accepts) : Pattern κ).Reads
          (dotted (n :: ns) ++ s) (dotted ns ++ s) [] := by
        rw [dotted_cons, List.cons_append, List.append_assoc]
        exact (reads_char (by simp)).seq
          (reads_numeral accepts hacc n (stops_dotted accepts hdot ns hs))
      exact hround.star rfl ih

end Reading

/-- A pattern that ends with a character needs that character in the text. -/
theorem mem_of_canRead_seq_char {κ : Type} {p : Pattern κ} {x : Char} {s s' : List Char}
    (h : (seq p (char (· == x))).CanRead s s') : x ∈ s := by
  obtain ⟨m, hm, hx⟩ := canRead_seq.mp h
  obtain ⟨a, ha, rfl⟩ := canRead_char.mp hx
  obtain rfl : a = x := by simpa using ha
  exact hm.suffix.mem (by simp)

namespace Version

/-- The version pattern reads a written release as the release part and nothing else. -/
theorem reads_pattern (n : Numeral) (ns : List Numeral) :
    pattern.Reads (n.digits ++ dotted ns) []
      [(Part.release, ⟨n.digits ++ dotted ns, []⟩)] := by
  have hblank : (chars isBlank : Pattern Part).Reads (n.digits ++ dotted ns)
      (n.digits ++ dotted ns) [] :=
    reads_chars (a := []) (by simp) (n.stops (by decide) _)
  have hv : (opt (word ['v'])).Reads (n.digits ++ dotted ns) (n.digits ++ dotted ns) [] :=
    reads_opt_of_fails (fails_seq_left (fails_char (n.stops (by decide) _)))
  have hepoch : (opt (seq (group .epoch digits) (char (· == '!')))).Reads
      (n.digits ++ dotted ns) (n.digits ++ dotted ns) [] := by
    apply reads_opt_of_fails
    apply fails_iff.mpr
    intro s' h
    rcases List.mem_append.mp (mem_of_canRead_seq_char h) with hm | hm
    · exact n.not_mem (by decide) hm
    · exact forall_mem_dotted (P := (· ≠ '!')) (by decide) (by decide) ns _ hm rfl
  have hrest := reads_dotted (κ := Part) Char.isDigit (by decide) (by decide) ns
    (stops_nil _) (fails_nil_of_consumes rfl)
  rw [List.append_nil] at hrest
  have hrelease : (group Part.release
      (seq digits (star .greedy (seq (char (· == '.')) digits)))).Reads
      (n.digits ++ dotted ns) [] [(Part.release, ⟨n.digits ++ dotted ns, []⟩)] :=
    Reads.group _ ((reads_numeral Char.isDigit (by decide) n
      (by simpa using stops_dotted Char.isDigit (by decide) ns (stops_nil _))).seq hrest)
  -- Behind the numbers nothing is left, so every further part is skipped.
  have hnone {p : Pattern Part} (hp : p.consumes = true) : (opt p).Reads [] [] [] :=
    reads_opt_of_fails (fails_nil_of_consumes hp)
  exact hblank.seq (hv.seq (hepoch.seq (hrelease.seq ((hnone rfl).seq ((hnone rfl).seq
    ((hnone rfl).seq ((hnone rfl).seq (reads_chars (a := []) (by simp) (stops_nil _)))))))))

theorem cutAt_eq_singleton {p : Char → Bool} {a : List Char} (ha : ∀ c ∈ a, p c = false) :
    cutAt p a = [a] := by
  induction a with
  | nil => rfl
  | cons c a ih =>
      rw [List.forall_mem_cons] at ha
      simp [cutAt, ha.1, ih ha.2]

theorem cutAt_append_cons {p : Char → Bool} {a : List Char} (ha : ∀ c ∈ a, p c = false) {x : Char}
    (hx : p x = true) (s : List Char) : cutAt p (a ++ x :: s) = a :: cutAt p s := by
  induction a with
  | nil => simp [cutAt, hx]
  | cons c a ih =>
      rw [List.forall_mem_cons] at ha
      simp [cutAt, ha.1, ih ha.2]

/-- Cutting a written release at its points gives its numbers back. -/
theorem cutAt_dotted (n : Numeral) (ns : List Numeral) :
    cutAt (· == '.') (n.digits ++ dotted ns) = (n :: ns).map Numeral.digits := by
  induction ns generalizing n with
  | nil => simpa [dotted] using cutAt_eq_singleton (n.forall_mem (by decide))
  | cons m ns ih =>
      rw [dotted_cons, cutAt_append_cons (n.forall_mem (by decide)) (by decide), ih,
        List.map_cons (a := n)]

/-- A fault of a number with too many digits. -/
def Fault.IsTooLong (e : Fault) : Prop :=
  ∃ d, e = .tooManyDigits d

theorem readNat_digits (n : Numeral) :
    GivesIff Fault.IsTooLong (readNat n.digits) n.IsShort n.value := by
  have hread : GivesIff (fun _ => True) (Decimal.readDigits (n.digits.map fun c => c.toNat - 48))
      n.IsShort n.value := by
    constructor
    · intro h
      exact if_pos (by rwa [List.length_map])
    · intro h
      exact ⟨_, trivial, if_neg (by rwa [List.length_map])⟩
  exact hread.mapError fun _ _ => ⟨_, rfl⟩

/-- A text of numbers with points between them reads as the final release with these numbers. -/
theorem read_dotted (n : Numeral) (ns : List Numeral) :
    GivesIff Fault.IsTooLong (read (n.digits ++ dotted ns)) (∀ m ∈ n :: ns, m.IsShort)
      (ofRelease ((n :: ns).map Numeral.value)) := by
  have hmatch : read (n.digits ++ dotted ns)
      = ((n :: ns).mapM fun m => readNat m.digits).map ofRelease := by
    rw [read, matchWhole?_of_reads (reads_pattern n ns)]
    simp only [ofMatch, Match.groupD, Match.group?, List.find?_cons, List.find?_nil, decide_false,
      decide_true, Option.map_some, Option.map_none, Option.getD_some, reduceCtorEq, Span.text_nil,
      cutAt_dotted, List.mapM_map, Function.comp_def]
    cases (n :: ns).mapM fun m => readNat m.digits <;> rfl
  rw [hmatch]
  exact (GivesIff.mapM fun m _ => readNat_digits m).map ofRelease

end Version

namespace Constraint

theorem count_dotted (ns : List Numeral) : (dotted ns).count '.' = ns.length := by
  induction ns with
  | nil => rfl
  | cons n ns ih =>
      have hn : n.digits.count '.' = 0 := List.count_eq_zero.mpr (n.not_mem (by decide))
      simp [dotted_cons, hn, ih]

/-- A written release has as many numbers as it is written with. -/
theorem writtenNumbers_text (r : Release) : writtenNumbers r.text = r.numbers.length := by
  have hreads : leadingNumbers.Reads r.text [] [] := by
    have hrest := reads_dotted (κ := Part) isDecimal (by decide) (by decide) r.rest
      (stops_nil _) (fails_nil_of_consumes rfl)
    rw [List.append_nil] at hrest
    exact (reads_numeral isDecimal (by decide) r.first
      (by simpa using stops_dotted isDecimal (by decide) r.rest (stops_nil _))).seq hrest
  have hfirst : r.first.digits.count '.' = 0 :=
    List.count_eq_zero.mpr (r.first.not_mem (by decide))
  rw [writtenNumbers, matchFront?_of_reads hreads, r.length_numbers]
  simp [Release.text, hfirst, count_dotted]

/-- A fault of a number with too many digits. -/
def Fault.IsTooLong (e : Fault) : Prop :=
  ∃ d, e = .tooManyDigits d

/-- A written release reads as the final release with its numbers, and their count. -/
theorem readVersion_text (r : Release) :
    GivesIff Fault.IsTooLong (readVersion r.text) r.IsShort
      (Version.ofRelease r.numbers, r.numbers.length) := by
  have h := Version.read_dotted r.first r.rest
  constructor
  · intro hs
    rw [readVersion, Release.text, h.1 hs]
    exact congrArg (fun k => Except.ok (Version.ofRelease r.numbers, k)) (writtenNumbers_text r)
  · intro hs
    obtain ⟨_, ⟨d, rfl⟩, hd⟩ := h.2 hs
    exact ⟨.tooManyDigits (some d), ⟨_, rfl⟩, by rw [readVersion, Release.text, hd]⟩

end Constraint

end DocTags
