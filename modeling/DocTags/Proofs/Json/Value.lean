import DocTags.Proofs.Json.Number
import DocTags.Proofs.Json.Text

/-!
# JSON values on one line

Values without objects as they are written on one line, with any blanks between the tokens. The
reader gives back the value that is written, if no whole number has too many digits and the lists
are not nested too deep.
-/

namespace DocTags.Json

open Pattern (Stops stops_nil stops_cons stops_append dropWhile_append_of_stops)

/-- Blanks between two tokens of a line. -/
structure Space where
  chars : List Char
  isBlank : ∀ c ∈ chars, c = ' ' ∨ c = '\t'

mutual

/-- A value as it is written. -/
inductive Literal where
  | null
  | bool (b : Bool)
  | number (w : WrittenNumber)
  | text (spelling letters : List Char) (spells : Spells spelling letters)
  | emptyList (inside : Space)
  | list (before : Space) (items : Items)

/-- The items of a list as they are written, at least one. -/
inductive Items where
  | last (item : Literal) (after : Space)
  | cons (item : Literal) (before after : Space) (rest : Items)

end

mutual

/-- The written value. -/
def Literal.chars : Literal → List Char
  | .null => "null".toList
  | .bool b => if b then "true".toList else "false".toList
  | .number w => w.text
  | .text spelling _ _ => '"' :: (spelling ++ ['"'])
  | .emptyList inside => '[' :: (inside.chars ++ [']'])
  | .list before items => '[' :: (before.chars ++ items.chars)

/-- The written items with the bracket that closes the list. -/
def Items.chars : Items → List Char
  | .last item after => item.chars ++ (after.chars ++ [']'])
  | .cons item before after rest =>
    item.chars ++ (before.chars ++ ',' :: (after.chars ++ rest.chars))

end

mutual

/-- The value that is written. -/
def Literal.value : Literal → Datum
  | .null => .null
  | .bool b => .bool b
  | .number w => w.value
  | .text _ letters _ => .text (String.ofList letters)
  | .emptyList _ => .list []
  | .list _ items => .list items.values

/-- The items that are written. -/
def Items.values : Items → List Datum
  | .last item _ => [item.value]
  | .cons item _ _ rest => item.value :: rest.values

end

mutual

/-- How deep lists are nested in a value. -/
def Literal.depth : Literal → Nat
  | .null | .bool _ | .number _ | .text .. => 0
  | .emptyList _ => 1
  | .list _ items => items.depth + 1

/-- How deep lists are nested in items. -/
def Items.depth : Items → Nat
  | .last item _ => item.depth
  | .cons item _ _ rest => max item.depth rest.depth

end

mutual

/-- No whole number in a value has too many digits. -/
def Literal.IsShort : Literal → Prop
  | .number w => w.IsShort
  | .list _ items => items.IsShort
  | .null | .bool _ | .text .. | .emptyList _ => True

/-- No whole number in items has too many digits. -/
def Items.IsShort : Items → Prop
  | .last item _ => item.IsShort
  | .cons item _ _ rest => item.IsShort ∧ rest.IsShort

end

theorem skip_append (g : Space) {s : List Char} (hs : Stops isSpace s) :
    skip (g.chars ++ s) = s := by
  have hblank : ∀ c ∈ g.chars, isSpace c = true := by
    intro c hc
    rcases g.isBlank c hc with rfl | rfl <;> rfl
  exact dropWhile_append_of_stops hblank hs

/-- A written number starts with a digit, or with a minus in front of a digit. -/
theorem WrittenNumber.exists_text_eq (w : WrittenNumber) (r : List Char) :
    ∃ d s, d.isDigit = true ∧ (w.text ++ r = d :: s ∨ w.text ++ r = '-' :: d :: s) := by
  obtain ⟨d, ds, hd⟩ := List.exists_cons_of_ne_nil w.whole.ne_nil
  have hdigit : d.isDigit = true := w.whole.isDigit d (by simp [hd])
  refine ⟨d, ds ++ (fractionText w.fraction ++ (exponentText w.exponent ++ r)), hdigit, ?_⟩
  rw [text]
  cases w.isNegative with
  | true => right; simp [hd]
  | false => left; simp [hd]

/-- The characters that values other than numbers start with. -/
theorem digit_ne {d : Char} (hd : d.isDigit = true) : d ∉ "\"[\x7bntfNI-".toList :=
  forall_isDigit (P := (· ∉ "\"[\x7bntfNI-".toList)) (by decide) hd

theorem readValue_number (policy : Policy) (fuel : Nat) (w : WrittenNumber) (r : List Char) :
    readValue policy (fuel + 1) (w.text ++ r) = readNumber (w.text ++ r) := by
  obtain ⟨d, s, hd, h⟩ := w.exists_text_eq r
  have hne := digit_ne hd
  rcases h with h | h
  · rw [h, readValue]
    all_goals
      intro t
      intros
      simp_all
  · rw [h, readValue]
    all_goals
      intro t
      intros
      simp_all

/-- A written value starts with a character that is neither a blank nor a closing bracket. -/
theorem Literal.exists_chars_eq (l : Literal) :
    ∃ c s, l.chars = c :: s ∧ isSpace c = false ∧ c ≠ ']' := by
  cases l with
  | null => exact ⟨_, _, rfl, by decide, by decide⟩
  | bool b => cases b <;> exact ⟨_, _, rfl, by decide, by decide⟩
  | number w =>
      obtain ⟨d, s, hd, h⟩ := w.exists_text_eq []
      rw [List.append_nil] at h
      rcases h with h | h
      · exact ⟨d, s, h, forall_isDigit (P := fun c => isSpace c = false ∧ c ≠ ']') (by decide) hd⟩
      · exact ⟨'-', d :: s, h, by decide, by decide⟩
  | text spelling letters h => exact ⟨_, _, rfl, by decide, by decide⟩
  | emptyList inside => exact ⟨_, _, rfl, by decide, by decide⟩
  | list before items => exact ⟨_, _, rfl, by decide, by decide⟩

theorem Items.exists_chars_eq (xs : Items) (r : List Char) :
    ∃ c s, xs.chars ++ r = c :: s ∧ isSpace c = false ∧ c ≠ ']' := by
  cases xs with
  | last item after =>
      obtain ⟨c, s, h, hc⟩ := item.exists_chars_eq
      exact ⟨c, s ++ (after.chars ++ [']'] ++ r), by simp [Items.chars, h], hc⟩
  | cons item before after rest =>
      obtain ⟨c, s, h, hc⟩ := item.exists_chars_eq
      exact ⟨c, s ++ (before.chars ++ ',' :: (after.chars ++ rest.chars) ++ r),
        by simp [Items.chars, h], hc⟩

theorem Items.stops_isSpace (xs : Items) (r : List Char) : Stops isSpace (xs.chars ++ r) := by
  obtain ⟨c, s, h, hc, -⟩ := xs.exists_chars_eq r
  rw [h, stops_cons]
  exact hc

/-- Neither a blank nor a separator goes on with a number. -/
theorem stops_isNumberChar (g : Space) {c : Char} (hc : isNumberChar c = false) (s : List Char) :
    Stops isNumberChar (g.chars ++ c :: s) := by
  apply stops_append
  · intro b hb
    rcases g.isBlank b hb with rfl | rfl <;> decide
  · exact (stops_cons isNumberChar c s).mpr hc

/-- An opening bracket and, behind blanks, a character other than the closing one. -/
theorem readValue_bracket {policy : Policy} (hpolicy : policy.depth ≠ 0) (fuel : Nat)
    {s t : List Char} {c : Char} (hs : skip s = c :: t) (hc : c ≠ ']') :
    readValue policy (fuel + 1) ('[' :: s)
      = (readItems policy.inner fuel (c :: t)).map fun (xs, r) => (.list xs, r) := by
  rw [readValue, if_neg hpolicy, hs]
  split
  · next heq => exact absurd (List.cons.inj heq).1 hc
  · rfl

/-- An opening bracket and, behind blanks, the closing one. -/
theorem readValue_brackets {policy : Policy} (hpolicy : policy.depth ≠ 0) (fuel : Nat)
    {s r : List Char} (hs : skip s = ']' :: r) :
    readValue policy (fuel + 1) ('[' :: s) = .ok (.list [], r) := by
  rw [readValue, if_neg hpolicy]
  simp only [hs]

/-- An opening bracket, blanks and items. -/
theorem readValue_list {policy : Policy} (hpolicy : policy.depth ≠ 0) (fuel : Nat) (g : Space)
    (xs : Items) (r : List Char) :
    readValue policy (fuel + 1) ('[' :: (g.chars ++ (xs.chars ++ r)))
      = (readItems policy.inner fuel (xs.chars ++ r)).map fun (ys, r) => (.list ys, r) := by
  obtain ⟨c, s, h, -, hc⟩ := xs.exists_chars_eq r
  rw [readValue_bracket hpolicy fuel ((skip_append g (xs.stops_isSpace r)).trans h) hc, h]

theorem stops_isSpace_cons {c : Char} (hc : isSpace c = false) (s : List Char) :
    Stops isSpace (c :: s) :=
  (stops_cons isSpace c s).mpr hc

/-- The last item and the bracket behind it. -/
theorem readItems_last {policy : Policy} {fuel : Nat} {s t r : List Char} {x : Datum}
    (hitem : readValue policy fuel s = .ok (x, t)) (ht : skip t = ']' :: r) :
    readItems policy (fuel + 1) s = .ok ([x], r) := by
  rw [readItems, hitem]
  simp only [ht]

/-- An item, a comma and what is read behind it. -/
theorem readItems_cons {policy : Policy} {fuel : Nat} {s t u : List Char} {x : Datum}
    (hitem : readValue policy fuel s = .ok (x, t)) (ht : skip t = ',' :: u) :
    readItems policy (fuel + 1) s
      = (readItems policy fuel (skip u)).map fun (xs, r) => (x :: xs, r) := by
  rw [readItems, hitem]
  simp only [ht]

mutual

/-- A written value is read as the value that is written. -/
theorem Literal.readValue_chars (l : Literal) {policy : Policy} {fuel : Nat}
    (hfuel : 2 * l.chars.length ≤ fuel) (hdepth : l.depth ≤ policy.depth) (hshort : l.IsShort)
    {r : List Char} (hr : Stops isNumberChar r) :
    readValue policy fuel (l.chars ++ r) = .ok (l.value, r) := by
  cases fuel with
  | zero =>
      obtain ⟨c, s, h, -⟩ := l.exists_chars_eq
      simp [h] at hfuel
  | succ fuel =>
      cases l with
      | null => rfl
      | bool b => cases b <;> rfl
      | number w => exact (readValue_number policy fuel w r).trans (readNumber_append w hshort hr)
      | text spelling letters h =>
          rw [Literal.chars, List.cons_append, List.append_assoc, readValue]
          change (readText (spelling ++ '"' :: r)).map _ = _
          rw [readText_spells h]
          rfl
      | emptyList inside =>
          have hpolicy : policy.depth ≠ 0 := Nat.ne_of_gt hdepth
          rw [Literal.chars, List.cons_append, List.append_assoc, List.singleton_append]
          exact readValue_brackets hpolicy fuel
            (skip_append inside (stops_isSpace_cons (by decide) r))
      | list before items =>
          have hpolicy : policy.depth ≠ 0 :=
            Nat.ne_of_gt (Nat.lt_of_lt_of_le (Nat.succ_pos _) hdepth)
          have hinner : items.depth ≤ policy.inner.depth := Nat.le_sub_one_of_lt hdepth
          have hlength : 2 * items.chars.length + 1 ≤ fuel := by
            simp only [Literal.chars, List.length_cons, List.length_append] at hfuel
            omega
          rw [Literal.chars, List.cons_append, List.append_assoc, readValue_list hpolicy,
            items.readItems_chars hlength hinner hshort]
          rfl

/-- Written items are read up to the closing bracket as the items that are written. -/
theorem Items.readItems_chars (xs : Items) {policy : Policy} {fuel : Nat}
    (hfuel : 2 * xs.chars.length + 1 ≤ fuel) (hdepth : xs.depth ≤ policy.depth)
    (hshort : xs.IsShort) (r : List Char) :
    readItems policy fuel (xs.chars ++ r) = .ok (xs.values, r) := by
  cases fuel with
  | zero => simp at hfuel
  | succ fuel =>
      cases xs with
      | last item after =>
          have hlength : 2 * item.chars.length ≤ fuel := by
            simp only [Items.chars, List.length_append] at hfuel
            omega
          have hitem := item.readValue_chars hlength hdepth hshort
            (r := after.chars ++ ']' :: r) (stops_isNumberChar after (by decide) r)
          rw [Items.chars, List.append_assoc, List.append_assoc]
          exact readItems_last hitem (skip_append after (stops_isSpace_cons (by decide) r))
      | cons item before after rest =>
          have hlengths : 2 * item.chars.length ≤ fuel ∧ 2 * rest.chars.length + 1 ≤ fuel := by
            simp only [Items.chars, List.length_append, List.length_cons] at hfuel
            omega
          have hdepths := Nat.max_le.mp hdepth
          have hitem := item.readValue_chars hlengths.1 hdepths.1 hshort.1
            (r := before.chars ++ ',' :: (after.chars ++ (rest.chars ++ r)))
            (stops_isNumberChar before (by decide) _)
          have hrest := rest.readItems_chars hlengths.2 hdepths.2 hshort.2 r
          rw [Items.chars, List.append_assoc, List.append_assoc, List.cons_append,
            List.append_assoc]
          rw [readItems_cons hitem (skip_append before (stops_isSpace_cons (by decide) _)),
            skip_append after (rest.stops_isSpace r), hrest]
          rfl

end

/-- A document that is a written value is read as this value. -/
theorem read_chars (l : Literal) {policy : Policy} (hdepth : l.depth ≤ policy.depth)
    (hshort : l.IsShort) : read policy l.chars = .ok l.value := by
  have hskip : skip l.chars = l.chars := by
    obtain ⟨c, s, h, hc, -⟩ := l.exists_chars_eq
    rw [h, skip, List.dropWhile_cons_of_neg (by simp [hc])]
  have hread : readValue policy (2 * l.chars.length + 2) (l.chars ++ []) = .ok (l.value, []) :=
    l.readValue_chars (Nat.le_add_right _ _) hdepth hshort (stops_nil _)
  rw [List.append_nil] at hread
  rw [read, hskip, hread]
  rfl

/-- A character of a line: a tab, or no control character. -/
def IsLineChar (c : Char) : Prop :=
  0x20 ≤ c.toNat ∨ c = '\t'

instance : DecidablePred IsLineChar :=
  fun c => inferInstanceAs (Decidable (0x20 ≤ c.toNat ∨ c = '\t'))

theorem Space.forall_isLineChar (g : Space) : ∀ c ∈ g.chars, IsLineChar c := by
  intro c hc
  rcases g.isBlank c hc with rfl | rfl <;> decide

mutual

/-- A written value stands on one line. -/
theorem Literal.forall_isLineChar (l : Literal) : ∀ c ∈ l.chars, IsLineChar c := by
  cases l with
  | null => exact (by decide : ∀ c ∈ "null".toList, IsLineChar c)
  | bool b =>
      cases b with
      | true => exact (by decide : ∀ c ∈ "true".toList, IsLineChar c)
      | false => exact (by decide : ∀ c ∈ "false".toList, IsLineChar c)
  | number w =>
      exact fun c hc => (by decide : ∀ c ∈ numberChars, IsLineChar c) c (w.forall_mem c hc)
  | text spelling letters h =>
      exact List.forall_mem_cons.mpr ⟨by decide, List.forall_mem_append.mpr
        ⟨fun c hc => .inl (h.forall_mem c hc), by decide⟩⟩
  | emptyList inside =>
      exact List.forall_mem_cons.mpr ⟨by decide, List.forall_mem_append.mpr
        ⟨inside.forall_isLineChar, by decide⟩⟩
  | list before items =>
      exact List.forall_mem_cons.mpr ⟨by decide, List.forall_mem_append.mpr
        ⟨before.forall_isLineChar, items.forall_isLineChar⟩⟩

theorem Items.forall_isLineChar (xs : Items) : ∀ c ∈ xs.chars, IsLineChar c := by
  cases xs with
  | last item after =>
      exact List.forall_mem_append.mpr ⟨item.forall_isLineChar, List.forall_mem_append.mpr
        ⟨after.forall_isLineChar, by decide⟩⟩
  | cons item before after rest =>
      exact List.forall_mem_append.mpr ⟨item.forall_isLineChar, List.forall_mem_append.mpr
        ⟨before.forall_isLineChar, List.forall_mem_cons.mpr ⟨by decide, List.forall_mem_append.mpr
          ⟨after.forall_isLineChar, rest.forall_isLineChar⟩⟩⟩⟩

end

/-- Items end with the bracket that closes the list. -/
theorem Items.exists_chars_concat (xs : Items) : ∃ s, xs.chars = s ++ [']'] := by
  match xs with
  | .last item after =>
      exact ⟨item.chars ++ after.chars, by rw [chars, List.append_assoc]⟩
  | .cons item before after rest =>
      obtain ⟨s, hs⟩ := rest.exists_chars_concat
      exact ⟨item.chars ++ (before.chars ++ ',' :: (after.chars ++ s)), by simp [chars, hs]⟩

/-- A written list stands between brackets. -/
theorem Literal.exists_chars_brackets {l : Literal} {xs : List Datum} (h : l.value = .list xs) :
    ∃ s, l.chars = '[' :: (s ++ [']']) := by
  cases l with
  | null => exact Datum.noConfusion h
  | bool b => exact Datum.noConfusion h
  | number w =>
      rw [value, WrittenNumber.value.eq_def] at h
      split at h <;> exact Datum.noConfusion h
  | text spelling letters hs => exact Datum.noConfusion h
  | emptyList inside => exact ⟨inside.chars, rfl⟩
  | list before items =>
      obtain ⟨s, hs⟩ := items.exists_chars_concat
      exact ⟨before.chars ++ s, by rw [chars, hs, List.append_assoc]⟩

end DocTags.Json
