import DocTags.Proofs.Json.Value

/-!
# The grammar of values without objects

A text denotes a value by the grammar of JSON, objects and the names of numbers that are not finite
left out. Any of the four blanks may stand between two tokens. A text that denotes a value is read
as this value, unless a limit of the reader is hit: lists that are nested too deep, or a whole
number with too many digits.
-/

namespace DocTags.Json

open Pattern (Stops stops_nil stops_cons stops_append dropWhile_append_of_stops)

/-- Blanks between tokens. -/
def IsGap (g : List Char) : Prop :=
  ∀ c ∈ g, isSpace c = true

mutual

/-- The text denotes the value. -/
inductive Denotes : List Char → Datum → Prop
  | null : Denotes "null".toList .null
  | bool (b : Bool) : Denotes (if b then "true".toList else "false".toList) (.bool b)
  | number (w : WrittenNumber) : Denotes w.text w.value
  | text {spelling letters : List Char} (h : Spells spelling letters) :
      Denotes ('"' :: (spelling ++ ['"'])) (.text (String.ofList letters))
  | emptyList {g : List Char} (hg : IsGap g) : Denotes ('[' :: (g ++ [']'])) (.list [])
  | list {g s : List Char} {xs : List Datum} (hg : IsGap g) (h : DenotesItems s xs) :
      Denotes ('[' :: (g ++ s)) (.list xs)

/-- The text denotes the items of a list, at least one, up to the bracket that closes the list. -/
inductive DenotesItems : List Char → List Datum → Prop
  | last {s g : List Char} {x : Datum} (h : Denotes s x) (hg : IsGap g) :
      DenotesItems (s ++ (g ++ [']'])) [x]
  | cons {s g g' t : List Char} {x : Datum} {xs : List Datum} (h : Denotes s x) (hg : IsGap g)
      (hg' : IsGap g') (hrest : DenotesItems t xs) :
      DenotesItems (s ++ (g ++ ',' :: (g' ++ t))) (x :: xs)

end

/-- The whole text denotes the value, with gaps around it. -/
def IsDocument (s : List Char) (d : Datum) : Prop :=
  ∃ g t g', s = g ++ (t ++ g') ∧ IsGap g ∧ Denotes t d ∧ IsGap g'

theorem Space.isGap (g : Space) : IsGap g.chars := by
  intro c hc
  rcases g.isBlank c hc with rfl | rfl <;> rfl

mutual

/-- A value that is written on one line is denoted by its characters. -/
theorem Literal.denotes_chars (l : Literal) : Denotes l.chars l.value := by
  cases l with
  | null => exact .null
  | bool b => exact .bool b
  | number w => exact .number w
  | text spelling letters h => exact .text h
  | emptyList inside => exact .emptyList inside.isGap
  | list before items => exact .list before.isGap items.denotesItems_chars

theorem Items.denotesItems_chars (xs : Items) : DenotesItems xs.chars xs.values := by
  cases xs with
  | last item after => exact .last item.denotes_chars after.isGap
  | cons item before after rest =>
      exact .cons item.denotes_chars before.isGap after.isGap rest.denotesItems_chars

end

/-- The fault tells of a limit of the reader, not of the text. -/
def Fault.IsLimit : Fault → Prop
  | tooDeep | tooManyDigits _ => True
  | _ => False

/-- The computation gives the value, or a limit of the reader is hit. -/
def GivesUpToLimits {α : Type} (x : Except Fault α) (a : α) : Prop :=
  x = .ok a ∨ ∃ e, x = .error e ∧ e.IsLimit

theorem GivesUpToLimits.map {α β : Type} {x : Except Fault α} {a : α} (h : GivesUpToLimits x a)
    (f : α → β) : GivesUpToLimits (x.map f) (f a) := by
  rcases h with rfl | ⟨e, rfl, he⟩
  · exact .inl rfl
  · exact .inr ⟨e, rfl, he⟩

variable {s r : List Char} {d : Datum} {xs : List Datum}

theorem skip_gap {g : List Char} (hg : IsGap g) (hs : Stops isSpace s) : skip (g ++ s) = s :=
  dropWhile_append_of_stops hg hs

theorem stops_gap {g : List Char} (hg : IsGap g) (hs : Stops isNumberChar s) :
    Stops isNumberChar (g ++ s) := by
  refine stops_append (fun b hb => ?_) hs
  have hblank := hg b hb
  simp only [isSpace, Bool.or_eq_true, beq_iff_eq] at hblank
  rcases hblank with ((rfl | rfl) | rfl) | rfl <;> decide

theorem stops_gap_cons {g : List Char} (hg : IsGap g) {c : Char} (hc : isNumberChar c = false)
    (s : List Char) : Stops isNumberChar (g ++ c :: s) :=
  stops_gap hg ((stops_cons isNumberChar c s).mpr hc)

/-- A whole number with too many digits is refused for them. -/
theorem readNumber_long (w : WrittenNumber) (hfraction : w.fraction = none)
    (hexponent : w.exponent = none) (hlong : ¬ w.whole.IsShort) (hr : Stops isNumberChar r) :
    readNumber (w.text ++ r) = .error (.tooManyDigits w.whole.digits.length) := by
  have htext : w.text ++ r
      = (if w.isNegative then ['-'] else []) ++ (w.whole.digits ++ r) := by
    simp [WrittenNumber.text, hfraction, hexponent, WrittenNumber.fractionText,
      WrittenNumber.exponentText]
  have hnofraction : readFraction? r = none :=
    readFraction?_append none (stops_isDigit hr) (stops_point hr)
  have hnoexponent : readExponent? r = none := readExponent?_append none hr
  have hcount : ¬ w.whole.digits.length ≤ Decimal.maxDigits := hlong
  rw [htext, readNumber_sign, readUnsigned, readWhole?_append w.whole w.eq_zero (stops_isDigit hr)]
  simp only [hnofraction, hnoexponent, Decimal.readDigits, List.length_map, if_neg hcount]

/-- A written number is read unless it is a whole number with too many digits. -/
theorem readNumber_upToLimits (w : WrittenNumber) (hr : Stops isNumberChar r) :
    GivesUpToLimits (readNumber (w.text ++ r)) (w.value, r) := by
  by_cases hshort : w.IsShort
  · exact .inl (readNumber_append w hshort hr)
  · simp only [WrittenNumber.IsShort, Classical.not_imp] at hshort
    obtain ⟨hfraction, hexponent, hlong⟩ := hshort
    exact .inr ⟨_, readNumber_long w hfraction hexponent hlong hr, trivial⟩

/-- What denotes a value starts with a character that is neither a blank nor a closing bracket. -/
theorem Denotes.exists_eq_cons (h : Denotes s d) :
    ∃ c t, s = c :: t ∧ isSpace c = false ∧ c ≠ ']' := by
  cases h with
  | null => exact ⟨_, _, rfl, by decide, by decide⟩
  | bool b => exact (Literal.bool b).exists_chars_eq
  | number w => exact (Literal.number w).exists_chars_eq
  | text h => exact ⟨_, _, rfl, by decide, by decide⟩
  | emptyList hg => exact ⟨_, _, rfl, by decide, by decide⟩
  | list hg h => exact ⟨_, _, rfl, by decide, by decide⟩

theorem DenotesItems.exists_append_eq_cons (h : DenotesItems s xs) (r : List Char) :
    ∃ c t, s ++ r = c :: t ∧ isSpace c = false ∧ c ≠ ']' := by
  cases h with
  | last h hg =>
      obtain ⟨c, t, rfl, hc⟩ := h.exists_eq_cons
      exact ⟨c, _, rfl, hc⟩
  | cons h hg hg' hrest =>
      obtain ⟨c, t, rfl, hc⟩ := h.exists_eq_cons
      exact ⟨c, _, rfl, hc⟩

theorem DenotesItems.stops_isSpace (h : DenotesItems s xs) (r : List Char) :
    Stops isSpace (s ++ r) := by
  obtain ⟨c, t, heq, hc, -⟩ := h.exists_append_eq_cons r
  rw [heq, stops_cons]
  exact hc

variable {policy : Policy} {fuel : Nat} {g g' t : List Char} {x : Datum}

/-- What denotes items is read behind an opening bracket and a gap. -/
theorem DenotesItems.readValue_list (h : DenotesItems s xs) (hdepth : policy.depth ≠ 0)
    (hg : IsGap g) (r : List Char) :
    readValue policy (fuel + 1) ('[' :: (g ++ (s ++ r)))
      = (readItems policy.inner fuel (s ++ r)).map fun (ys, r) => (.list ys, r) := by
  obtain ⟨c, t, heq, -, hc⟩ := h.exists_append_eq_cons r
  rw [readValue_bracket hdepth fuel ((skip_gap hg (h.stops_isSpace r)).trans heq) hc, heq]

/-- Where no list may be, an opening bracket is too deep. -/
theorem readValue_tooDeep (hdepth : policy.depth = 0) (s : List Char) :
    readValue policy (fuel + 1) ('[' :: s) = .error .tooDeep := by
  rw [readValue, if_pos hdepth]

/-- An opening bracket, a gap and items. -/
theorem list_upToLimits (hg : IsGap g) (h : DenotesItems s xs)
    (hitems : GivesUpToLimits (readItems policy.inner fuel (s ++ r)) (xs, r)) :
    GivesUpToLimits (readValue policy (fuel + 1) ('[' :: (g ++ (s ++ r)))) (.list xs, r) := by
  by_cases hdepth : policy.depth = 0
  · exact .inr ⟨.tooDeep, readValue_tooDeep hdepth _, trivial⟩
  · rw [h.readValue_list hdepth hg r]
    exact hitems.map _

theorem emptyList_upToLimits (hg : IsGap g) :
    GivesUpToLimits (readValue policy (fuel + 1) ('[' :: (g ++ ']' :: r))) (.list [], r) := by
  by_cases hdepth : policy.depth = 0
  · exact .inr ⟨.tooDeep, readValue_tooDeep hdepth _, trivial⟩
  · exact .inl (readValue_brackets hdepth fuel (skip_gap hg (stops_isSpace_cons (by decide) r)))

/-- The last item, a gap and the bracket behind it. -/
theorem last_upToLimits (hg : IsGap g)
    (hitem : GivesUpToLimits (readValue policy fuel s) (x, g ++ ']' :: r)) :
    GivesUpToLimits (readItems policy (fuel + 1) s) ([x], r) := by
  rcases hitem with hitem | ⟨e, hitem, he⟩
  · exact .inl (readItems_last hitem (skip_gap hg (stops_isSpace_cons (by decide) r)))
  · rw [readItems, hitem]
    exact .inr ⟨e, rfl, he⟩

/-- An item, a comma between gaps and the items behind it. -/
theorem cons_upToLimits (hg : IsGap g)
    (hitem : GivesUpToLimits (readValue policy fuel s) (x, g ++ ',' :: t))
    (hrest : GivesUpToLimits (readItems policy fuel (skip t)) (xs, r)) :
    GivesUpToLimits (readItems policy (fuel + 1) s) (x :: xs, r) := by
  rcases hitem with hitem | ⟨e, hitem, he⟩
  · rw [readItems_cons hitem (skip_gap hg (stops_isSpace_cons (by decide) t))]
    exact hrest.map _
  · rw [readItems, hitem]
    exact .inr ⟨e, rfl, he⟩

/-- With enough fuel, what denotes a value or items is read up to the limits. -/
theorem readValue_upToLimits (fuel : Nat) :
    (∀ {policy s d r}, Denotes s d → 2 * s.length ≤ fuel → Stops isNumberChar r →
        GivesUpToLimits (readValue policy fuel (s ++ r)) (d, r))
      ∧ ∀ {policy s xs r}, DenotesItems s xs → 2 * s.length + 1 ≤ fuel →
        GivesUpToLimits (readItems policy fuel (s ++ r)) (xs, r) := by
  induction fuel with
  | zero =>
      constructor
      · intro policy s d r h hfuel hr
        obtain ⟨c, t, rfl, -⟩ := h.exists_eq_cons
        simp at hfuel
      · intro policy s xs r h hfuel
        simp at hfuel
  | succ fuel ih =>
      obtain ⟨ihvalue, ihitems⟩ := ih
      constructor
      · intro policy s d r h hfuel hr
        cases h with
        | null => exact .inl rfl
        | bool b => cases b <;> exact .inl rfl
        | number w =>
            rw [readValue_number]
            exact readNumber_upToLimits w hr
        | text h =>
            rw [List.cons_append, List.append_assoc, readValue]
            exact .inl (by rw [List.singleton_append, readText_spells h]; rfl)
        | emptyList hg =>
            rw [List.cons_append, List.append_assoc, List.singleton_append]
            exact emptyList_upToLimits hg
        | list hg h =>
            rw [List.cons_append, List.append_assoc]
            refine list_upToLimits hg h (ihitems h ?_)
            simp only [List.length_cons, List.length_append] at hfuel
            omega
      · intro policy s xs r h hfuel
        cases h with
        | last h hg =>
            rw [List.append_assoc, List.append_assoc]
            refine last_upToLimits hg (ihvalue h ?_ (stops_gap_cons hg (by decide) r))
            simp only [List.length_append] at hfuel
            omega
        | cons h hg hg' hrest =>
            simp only [List.length_append, List.length_cons] at hfuel
            rw [List.append_assoc, List.append_assoc, List.cons_append, List.append_assoc]
            refine cons_upToLimits hg (ihvalue h (by omega) (stops_gap_cons hg (by decide) _)) ?_
            rw [skip_gap hg' (hrest.stops_isSpace r)]
            exact ihitems hrest (by omega)

/-- A document is read as its value up to the limits. -/
theorem IsDocument.read_upToLimits (h : IsDocument s d) (policy : Policy) :
    GivesUpToLimits (read policy s) d := by
  obtain ⟨g, t, g', rfl, hg, ht, hg'⟩ := h
  obtain ⟨c, u, hcons, hc, -⟩ := ht.exists_eq_cons
  have hfront : Stops isSpace (t ++ g') := by
    rw [hcons]
    exact stops_isSpace_cons hc _
  have hend : Stops isNumberChar g' := by
    simpa using stops_gap hg' (stops_nil isNumberChar)
  have hempty : skip g' = [] := by
    simpa using skip_gap hg' (stops_nil isSpace)
  have hread : GivesUpToLimits
      (readValue policy (2 * (g ++ (t ++ g')).length + 2) (t ++ g')) (d, g') :=
    (readValue_upToLimits _).1 ht (by simp only [List.length_append]; omega) hend
  rw [read, skip_gap hg hfront]
  rcases hread with hread | ⟨e, hread, he⟩
  · rw [hread]
    exact .inl (by simp [hempty])
  · rw [hread]
    exact .inr ⟨e, rfl, he⟩

end DocTags.Json
