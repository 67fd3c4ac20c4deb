import DocTags.Proofs.Datum.Entries
import DocTags.Proofs.Fallible
import DocTags.Proofs.Json.Grammar
import DocTags.Proofs.Json.WrittenNumbers
import DocTags.Proofs.Json.WrittenTexts

/-!
# Documents that are read again

A value is written with or without an indent. A reader that keeps to the standard reads the document
as the value with its texts settled, or it refuses the first number that is not finite. This holds
of scalars, of lists, and of mappings whose keys are texts.
-/

namespace DocTags.Json

open Pattern (Stops stops_nil stops_cons)

/-- Objects are taken, the names of numbers that are not finite are not. -/
def Policy.standard : Policy := ⟨true, false, 980⟩

/-- The policy keeps to the standard, whatever the depth. -/
def Policy.IsStandard (policy : Policy) : Prop :=
  policy.objects = true ∧ policy.nonFinite = false

theorem Policy.isStandard_standard : Policy.standard.IsStandard :=
  ⟨rfl, rfl⟩

/-- The text with every pair of halves joined. -/
def settledText (s : String) : String :=
  String.ofList (Text.settled s.toList)

mutual

/-- What a reader that keeps to the standard makes of the document of a value. -/
def reread : Datum → Except Fault Datum
  | .real .notANumber => .error (.nonFiniteLiteral "NaN")
  | .real (.infinite negative) =>
    .error (.nonFiniteLiteral (if negative then "-Infinity" else "Infinity"))
  | .text s => .ok (.text (settledText s))
  | .list xs => (rereadItems xs).map .list
  | .map es => (rereadEntries es).map .map
  | d => .ok d

/-- What the reader makes of the items of a list. -/
def rereadItems : List Datum → Except Fault (List Datum)
  | [] => .ok []
  | x :: xs =>
    match reread x with
    | .error e => .error e
    | .ok y => (rereadItems xs).map (y :: ·)

/-- What the reader makes of the entries of a mapping. -/
def rereadEntries : List (Datum × Datum) → Except Fault (List (Datum × Datum))
  | [] => .ok []
  | (k, v) :: es =>
    match reread v with
    | .error e => .error e
    | .ok w => (rereadEntries es).map ((.text (settledText k.keyText), w) :: ·)

end

/-- A value that documents are made for: lists and mappings at most so deep, whole numbers that are
not too long to be read, and names of fields that stay apart. -/
inductive IsWritable : Nat → Datum → Prop where
  | null (depth : Nat) : IsWritable depth .null
  | bool (depth : Nat) (b : Bool) : IsWritable depth (.bool b)
  | int (depth : Nat) (n : Int) (h : (Numeral.ofNat n.natAbs).IsShort) : IsWritable depth (.int n)
  | real (depth : Nat) (negative : Bool) (m q : Nat) (h : Binary64.IsReduced m q) :
      IsWritable depth (.real (.finite negative m q))
  | infinite (depth : Nat) (negative : Bool) : IsWritable depth (.real (.infinite negative))
  | text (depth : Nat) (s : String) : IsWritable depth (.text s)
  | list (depth : Nat) (xs : List Datum) (h : ∀ x ∈ xs, IsWritable depth x) :
      IsWritable (depth + 1) (.list xs)
  | record (depth : Nat) (fields : List (String × Datum))
      (hnames : (fields.map fun f => settledText f.1).Nodup)
      (h : ∀ f ∈ fields, IsWritable depth f.2) : IsWritable (depth + 1) (.record fields)

variable {policy : Policy} {indent : Option Nat} {k depth fuel : Nat} {d x y : Datum}
  {xs : List Datum} {s t r close : List Char}

theorem isGap_lineBreak (indent : Option Nat) (depth : Nat) : IsGap (lineBreak indent depth) := by
  cases indent with
  | none => exact fun c hc => absurd hc List.not_mem_nil
  | some width =>
      refine List.forall_mem_cons.mpr ⟨rfl, fun c hc => ?_⟩
      rw [List.eq_of_mem_replicate hc]
      rfl

/-- A comma and a gap stand between two items. -/
theorem exists_separator (indent : Option Nat) (depth : Nat) :
    ∃ g, separator indent depth = ',' :: g ∧ IsGap g := by
  cases indent with
  | none => exact ⟨[' '], rfl, List.forall_mem_singleton.mpr rfl⟩
  | some width => exact ⟨lineBreak (some width) depth, rfl, isGap_lineBreak _ _⟩

theorem skip_cons {c : Char} (hc : isSpace c = false) (s : List Char) : skip (c :: s) = c :: s :=
  List.dropWhile_cons_of_neg (Bool.not_eq_true _ ▸ hc)

/-- The text goes on with something other than a blank and a closing bracket. -/
def StartsValue (s : List Char) : Prop :=
  ∃ c t, s = c :: t ∧ isSpace c = false ∧ c ≠ ']'

theorem StartsValue.stops_isSpace (h : StartsValue s) (r : List Char) : Stops isSpace (s ++ r) := by
  obtain ⟨c, t, rfl, hc, -⟩ := h
  exact (stops_cons isSpace c _).mpr hc

/-- A value behind a gap is what is left of the gap. -/
theorem StartsValue.skip_append (h : StartsValue s) {g : List Char} (hg : IsGap g) (r : List Char) :
    skip (g ++ (s ++ r)) = s ++ r :=
  skip_gap hg (h.stops_isSpace r)

theorem WrittenNumber.startsValue (w : WrittenNumber) : StartsValue w.text :=
  (Literal.number w).exists_chars_eq

theorem IsWritable.startsValue (h : IsWritable k d) (indent : Option Nat) (depth : Nat) :
    StartsValue (writeAt indent depth d) := by
  cases h with
  | null => exact ⟨_, _, rfl, by decide, by decide⟩
  | bool _ b => cases b <;> exact ⟨_, _, rfl, by decide, by decide⟩
  | int _ n =>
      rw [writeAt, ← text_wholeNumber]
      exact (wholeNumber n).startsValue
  | real _ negative m q h =>
      obtain ⟨w, htext, -⟩ := exists_render negative h
      rw [writeAt, ← htext]
      exact w.startsValue
  | infinite _ negative => cases negative <;> exact ⟨_, _, rfl, by decide, by decide⟩
  | text => exact ⟨_, _, rfl, by decide, by decide⟩
  | list _ xs => cases xs <;> exact ⟨_, _, rfl, by decide, by decide⟩
  | record _ fields => cases fields <;> exact ⟨_, _, rfl, by decide, by decide⟩

/-- With enough fuel the document of the value is read as said in front of what does not go on with
a number. -/
def ReadsBack (policy : Policy) (indent : Option Nat) (depth : Nat) (d : Datum) : Prop :=
  ∀ (fuel : Nat) (r : List Char), 2 * (writeAt indent depth d).length ≤ fuel →
    Stops isNumberChar r →
    readValue policy fuel (writeAt indent depth d ++ r) = (reread d).map (·, r)

/-- A number that stands for itself is read. -/
theorem readValue_of_value_eq {w : WrittenNumber} (hw : w.IsShort) (hvalue : w.value = d)
    (hfuel : 2 * w.text.length ≤ fuel) (hr : Stops isNumberChar r) :
    readValue policy fuel (w.text ++ r) = .ok (d, r) := by
  cases fuel with
  | zero =>
      obtain ⟨c, t, htext, -⟩ := w.startsValue
      simp [htext] at hfuel
  | succ fuel => rw [readValue_number, readNumber_append w hw hr, hvalue]

/-- A number with a point or an exponent has no digits that count as too many. -/
theorem WrittenNumber.isShort_of_value_eq_real {w : WrittenNumber} {z : Binary64}
    (h : w.value = .real z) : w.IsShort := by
  intro hfraction hexponent
  rw [value, hfraction, hexponent] at h
  cases h

/-- There is fuel for the first character of a document. -/
theorem readsBack_of_forall_succ (hd : IsWritable k d) (h : ∀ fuel r,
      readValue policy (fuel + 1) (writeAt indent depth d ++ r) = (reread d).map (·, r)) :
    ReadsBack policy indent depth d := by
  intro fuel r hfuel _
  obtain ⟨c, t, htext, -⟩ := hd.startsValue indent depth
  rw [htext, List.length_cons] at hfuel
  obtain ⟨fuel, rfl⟩ := Nat.exists_eq_succ_of_ne_zero (n := fuel) (by omega)
  exact h fuel r

theorem readsBack_infinite (hpolicy : policy.nonFinite = false) (negative : Bool) :
    ReadsBack policy indent depth (.real (.infinite negative)) := by
  have hrefused (name : String) (z : Binary64) (r : List Char) :
      nonFinite policy name z r = .error (.nonFiniteLiteral name) := by
    rw [nonFinite, hpolicy, if_neg Bool.false_ne_true]
  apply readsBack_of_forall_succ (.infinite 0 negative)
  intro fuel r
  cases negative with
  | false => exact hrefused "Infinity" (.infinite false) r
  | true => exact hrefused "-Infinity" (.infinite true) r

theorem readsBack_text (policy : Policy) (indent : Option Nat) (depth : Nat) (s : String) :
    ReadsBack policy indent depth (.text s) := by
  refine readsBack_of_forall_succ (.text 0 s) fun fuel r => ?_
  rw [writeAt, writeText, writePoints, List.cons_append, List.cons_append, List.append_assoc,
    List.singleton_append, readValue, readText_writePoints]
  rfl

/-- The items of a list are read one after the other, up to the bracket that closes it. -/
theorem readItems_writeItems (hitems : ∀ z ∈ x :: xs, ReadsBack policy indent depth z
      ∧ StartsValue (writeAt indent depth z)) (hclose : IsGap close)
    (hfuel : 2 * (writeAt indent depth x ++ (writeItems indent depth xs ++ close)).length + 3
      ≤ fuel) (r : List Char) :
    readItems policy fuel
        (writeAt indent depth x ++ (writeItems indent depth xs ++ (close ++ ']' :: r)))
      = (rereadItems (x :: xs)).map (·, r) := by
  induction xs generalizing x fuel with
  | nil =>
      obtain ⟨fuel, rfl⟩ := Nat.exists_eq_succ_of_ne_zero (n := fuel) (by omega)
      have hlength : 2 * (writeAt indent depth x).length ≤ fuel := by
        simp only [List.length_append] at hfuel
        omega
      have hitem := (hitems x List.mem_cons_self).1 fuel _ hlength
        (stops_gap_cons hclose (c := ']') (by decide) r)
      rw [writeItems, List.nil_append, rereadItems, rereadItems]
      cases hread : reread x with
      | error e =>
          rw [hread] at hitem
          rw [readItems, hitem]
          rfl
      | ok z =>
          rw [hread] at hitem
          exact readItems_last hitem (skip_gap hclose (stops_isSpace_cons (by decide) r))
  | cons y ys ih =>
      obtain ⟨fuel, rfl⟩ := Nat.exists_eq_succ_of_ne_zero (n := fuel) (by omega)
      obtain ⟨g, hseparator, hg⟩ := exists_separator indent depth
      rw [List.forall_mem_cons] at hitems
      obtain ⟨⟨hx, -⟩, hrest⟩ := hitems
      have htext (u : List Char) : writeItems indent depth (y :: ys) ++ u
          = ',' :: (g ++ (writeAt indent depth y ++ (writeItems indent depth ys ++ u))) := by
        rw [writeItems, hseparator]
        simp
      have hlengths : 2 * (writeAt indent depth x).length ≤ fuel
          ∧ 2 * (writeAt indent depth y ++ (writeItems indent depth ys ++ close)).length + 3
            ≤ fuel := by
        rw [htext] at hfuel
        simp only [List.length_append, List.length_cons] at hfuel ⊢
        omega
      have hitem := hx fuel _ hlengths.1 ((stops_cons isNumberChar ','
        (g ++ (writeAt indent depth y ++ (writeItems indent depth ys ++ (close ++ ']' :: r))))).mpr
        (by decide))
      rw [htext, rereadItems]
      cases hread : reread x with
      | error e =>
          rw [hread] at hitem
          rw [readItems, hitem]
          rfl
      | ok z =>
          rw [hread] at hitem
          have hstarts := (hrest y List.mem_cons_self).2
          rw [readItems_cons hitem (skip_cons (by decide) _), hstarts.skip_append hg,
            ih hrest hlengths.2]
          cases rereadItems (y :: ys) <;> rfl

theorem readsBack_list (hdepth : policy.depth ≠ 0)
    (hitems : ∀ z ∈ xs, ReadsBack policy.inner indent (depth + 1) z
      ∧ StartsValue (writeAt indent (depth + 1) z)) :
    ReadsBack policy indent depth (.list xs) := by
  intro fuel r hfuel _
  cases xs with
  | nil =>
      obtain ⟨fuel, rfl⟩ := Nat.exists_eq_succ_of_ne_zero (n := fuel) (by
        rintro rfl
        simp [writeAt] at hfuel)
      rw [writeAt]
      exact readValue_brackets hdepth fuel (skip_cons (by decide) r)
  | cons x xs =>
      have htext (u : List Char) : writeAt indent depth (.list (x :: xs)) ++ u
          = '[' :: (lineBreak indent (depth + 1) ++ (writeAt indent (depth + 1) x
            ++ (writeItems indent (depth + 1) xs ++ (lineBreak indent depth ++ ']' :: u)))) := by
        rw [writeAt]
        simp
      obtain ⟨fuel, rfl⟩ := Nat.exists_eq_succ_of_ne_zero (n := fuel) (by
        rintro rfl
        simp [writeAt] at hfuel)
      have hlength : 2 * (writeAt indent (depth + 1) x
          ++ (writeItems indent (depth + 1) xs ++ lineBreak indent depth)).length + 3 ≤ fuel := by
        have hall := congrArg List.length (htext [])
        simp only [List.length_append, List.length_cons, List.length_nil] at hall ⊢
        omega
      have hstarts := (hitems x List.mem_cons_self).2
      have hskip := hstarts.skip_append (isGap_lineBreak indent (depth + 1))
        (writeItems indent (depth + 1) xs ++ (lineBreak indent depth ++ ']' :: r))
      obtain ⟨c, t, hfirst, -, hc⟩ := hstarts
      rw [htext]
      rw [hfirst, List.cons_append] at hskip
      rw [hfirst, List.cons_append, readValue_bracket hdepth fuel hskip hc, ← List.cons_append,
        ← hfirst, readItems_writeItems hitems (isGap_lineBreak indent depth) hlength, reread]
      cases rereadItems (x :: xs) <;> rfl

/-- An opening brace and, behind blanks, a name. -/
theorem readValue_brace (hpolicy : policy.objects = true) (hdepth : policy.depth ≠ 0)
    (hs : skip s = '"' :: t) :
    readValue policy (fuel + 1) ('\x7b' :: s)
      = (readMembers policy.inner fuel ('"' :: t)).map fun (es, r) => (.mapOf es, r) := by
  rw [readValue, if_neg hdepth, hs]
  split
  · next heq => exact absurd (List.cons.inj heq).1 (by decide)
  · cases readMembers policy.inner fuel ('"' :: t) with
    | error e => rfl
    | ok p => exact if_pos hpolicy

/-- An opening brace and, behind blanks, the closing one. -/
theorem readValue_braces (hpolicy : policy.objects = true) (hdepth : policy.depth ≠ 0)
    (hs : skip s = '\x7d' :: r) :
    readValue policy (fuel + 1) ('\x7b' :: s) = .ok (.map [], r) := by
  rw [readValue, if_neg hdepth, hs]
  exact if_pos hpolicy

/-- The text of a name and its value. -/
def memberText (indent : Option Nat) (depth : Nat) (name : String) (v : Datum) : List Char :=
  writeText name ++ ':' :: ' ' :: writeAt indent depth v

theorem writeEntries_record (indent : Option Nat) (depth : Nat) (name : String) (v : Datum)
    (es : List (Datum × Datum)) : writeEntries indent depth ((.text name, v) :: es)
      = separator indent depth ++ (memberText indent depth name v
        ++ writeEntries indent depth es) := by
  rw [writeEntries, memberText]
  simp [Datum.keyText]

/-- A name and a value that is refused, or a value with what is behind it. -/
theorem readMembers_memberText (hvalue : ReadsBack policy indent depth d
      ∧ StartsValue (writeAt indent depth d)) (name : String)
    (hfuel : 2 * (writeAt indent depth d).length ≤ fuel) (hr : Stops isNumberChar r) :
    readMembers policy (fuel + 1) (memberText indent depth name d ++ r)
      = match reread d with
        | .error e => .error e
        | .ok v =>
          match skip r with
          | '\x7d' :: u => .ok ([(.text (settledText name), v)], u)
          | ',' :: u => (readMembers policy fuel (skip u)).map fun (es, u) =>
              ((.text (settledText name), v) :: es, u)
          | _ => .error .expectingComma := by
  have htext : memberText indent depth name d ++ r
      = '"' :: ((Text.toPoints name).flatMap writePoint
        ++ '"' :: ':' :: ([' '] ++ (writeAt indent depth d ++ r))) := by
    simp [memberText, writeText, writePoints]
  rw [htext, readMembers, readText_writePoints]
  simp only [skip_cons (c := ':') (by decide)]
  rw [hvalue.2.skip_append (List.forall_mem_singleton.mpr rfl), hvalue.1 fuel r hfuel hr]
  cases reread d with
  | error e => rfl
  | ok v => rfl

/-- The entries of a mapping with the names of fields. -/
def entriesOf (fields : List (String × Datum)) : List (Datum × Datum) :=
  fields.map fun f => (.text f.1, f.2)

theorem rereadEntries_cons (f : String × Datum) (fields : List (String × Datum)) :
    rereadEntries (entriesOf (f :: fields)) = match reread f.2 with
      | .error e => .error e
      | .ok w => (rereadEntries (entriesOf fields)).map ((.text (settledText f.1), w) :: ·) :=
  rfl

/-- The members of a mapping are read one after the other, up to the brace that closes it. -/
theorem readMembers_writeEntries {f : String × Datum} {fields : List (String × Datum)}
    (hfields : ∀ g ∈ f :: fields, ReadsBack policy indent depth g.2
      ∧ StartsValue (writeAt indent depth g.2)) (hclose : IsGap close)
    (hfuel : 2 * (memberText indent depth f.1 f.2
      ++ (writeEntries indent depth (entriesOf fields) ++ close)).length + 3 ≤ fuel)
    (r : List Char) :
    readMembers policy fuel (memberText indent depth f.1 f.2
        ++ (writeEntries indent depth (entriesOf fields) ++ (close ++ '\x7d' :: r)))
      = (rereadEntries (entriesOf (f :: fields))).map (·, r) := by
  induction fields generalizing f fuel with
  | nil =>
      obtain ⟨fuel, rfl⟩ := Nat.exists_eq_succ_of_ne_zero (n := fuel) (by omega)
      have hlength : 2 * (writeAt indent depth f.2).length ≤ fuel := by
        simp only [memberText, List.length_append, List.length_cons] at hfuel
        omega
      have hskip : skip (close ++ '\x7d' :: r) = '\x7d' :: r :=
        skip_gap hclose (stops_isSpace_cons (by decide) r)
      rw [entriesOf, List.map_nil, writeEntries, List.nil_append,
        readMembers_memberText (hfields f List.mem_cons_self) f.1 hlength
          (stops_gap_cons hclose (by decide) r), rereadEntries_cons]
      cases reread f.2 with
      | error e => rfl
      | ok v =>
          simp only [hskip]
          rfl
  | cons g fields ih =>
      obtain ⟨fuel, rfl⟩ := Nat.exists_eq_succ_of_ne_zero (n := fuel) (by omega)
      obtain ⟨gap, hseparator, hgap⟩ := exists_separator indent depth
      rw [List.forall_mem_cons] at hfields
      have htext (u : List Char) : writeEntries indent depth (entriesOf (g :: fields)) ++ u
          = ',' :: (gap ++ (memberText indent depth g.1 g.2
            ++ (writeEntries indent depth (entriesOf fields) ++ u))) := by
        rw [entriesOf, List.map_cons, writeEntries_record, hseparator]
        simp [entriesOf]
      have hlengths : 2 * (writeAt indent depth f.2).length ≤ fuel
          ∧ 2 * (memberText indent depth g.1 g.2
            ++ (writeEntries indent depth (entriesOf fields) ++ close)).length + 3 ≤ fuel := by
        rw [htext] at hfuel
        simp only [memberText, List.length_append, List.length_cons] at hfuel ⊢
        omega
      have hnext : skip (gap ++ (memberText indent depth g.1 g.2
            ++ (writeEntries indent depth (entriesOf fields) ++ (close ++ '\x7d' :: r))))
          = memberText indent depth g.1 g.2
            ++ (writeEntries indent depth (entriesOf fields) ++ (close ++ '\x7d' :: r)) :=
        skip_gap hgap (stops_isSpace_cons (by decide) _)
      rw [htext, readMembers_memberText hfields.1 f.1 hlengths.1
        ((stops_cons isNumberChar ',' _).mpr (by decide)), rereadEntries_cons]
      cases reread f.2 with
      | error e => rfl
      | ok v =>
          simp only [skip_cons (c := ',') (by decide), hnext, ih hfields.2 hlengths.2]
          cases rereadEntries (entriesOf (g :: fields)) <;> rfl

/-- The keys of what is read are the settled names. -/
theorem keys_of_rereadEntries {fields : List (String × Datum)} {es : List (Datum × Datum)}
    (h : rereadEntries (entriesOf fields) = .ok es) :
    es.map (·.1) = fields.map fun f => .text (settledText f.1) := by
  induction fields generalizing es with
  | nil =>
      obtain rfl := Except.ok.inj h
      rfl
  | cons f fields ih =>
      rw [rereadEntries_cons] at h
      split at h
      · cases h
      · obtain ⟨rest, hrest, rfl⟩ := exists_of_map_eq_ok h
        rw [List.map_cons, List.map_cons, ih hrest]

theorem keysDiffer_of_rereadEntries {fields : List (String × Datum)} {es : List (Datum × Datum)}
    (hnames : (fields.map fun f => settledText f.1).Nodup)
    (h : rereadEntries (entriesOf fields) = .ok es) : Datum.KeysDiffer es := by
  have hkeys : (es.map (·.1)).Pairwise fun k l => Datum.sameKey k l = false := by
    rw [keys_of_rereadEntries h, List.pairwise_map]
    refine (List.pairwise_map.mp hnames).imp fun hne => ?_
    exact Datum.sameKey_text_eq_false.mpr fun heq => hne (Datum.text.inj heq)
  exact List.pairwise_map.mp hkeys

theorem readsBack_record {fields : List (String × Datum)} (hpolicy : policy.objects = true)
    (hdepth : policy.depth ≠ 0) (hnames : (fields.map fun f => settledText f.1).Nodup)
    (hfields : ∀ f ∈ fields, ReadsBack policy.inner indent (depth + 1) f.2
      ∧ StartsValue (writeAt indent (depth + 1) f.2)) :
    ReadsBack policy indent depth (.record fields) := by
  intro fuel r hfuel _
  cases fields with
  | nil =>
      obtain ⟨fuel, rfl⟩ := Nat.exists_eq_succ_of_ne_zero (n := fuel) (by
        rintro rfl
        simp [Datum.record, writeAt] at hfuel)
      rw [Datum.record, List.map_nil, writeAt]
      exact readValue_braces hpolicy hdepth (skip_cons (by decide) r)
  | cons f fields =>
      have htext (u : List Char) : writeAt indent depth (.record (f :: fields)) ++ u
          = '\x7b' :: (lineBreak indent (depth + 1) ++ (memberText indent (depth + 1) f.1 f.2
            ++ (writeEntries indent (depth + 1) (entriesOf fields)
              ++ (lineBreak indent depth ++ '\x7d' :: u)))) := by
        rw [Datum.record, List.map_cons, writeAt, memberText]
        simp [Datum.keyText, entriesOf]
      obtain ⟨fuel, rfl⟩ := Nat.exists_eq_succ_of_ne_zero (n := fuel) (by
        rintro rfl
        simp [Datum.record, writeAt] at hfuel)
      have hlength : 2 * (memberText indent (depth + 1) f.1 f.2
          ++ (writeEntries indent (depth + 1) (entriesOf fields)
            ++ lineBreak indent depth)).length + 3 ≤ fuel := by
        have hall := congrArg List.length (htext [])
        simp only [List.length_append, List.length_cons, List.length_nil] at hall ⊢
        omega
      obtain ⟨u, hquote⟩ : ∃ u, memberText indent (depth + 1) f.1 f.2 = '"' :: u := ⟨_, rfl⟩
      have hskip : skip (lineBreak indent (depth + 1) ++ (memberText indent (depth + 1) f.1 f.2
            ++ (writeEntries indent (depth + 1) (entriesOf fields)
              ++ (lineBreak indent depth ++ '\x7d' :: r))))
          = '"' :: (u ++ (writeEntries indent (depth + 1) (entriesOf fields)
              ++ (lineBreak indent depth ++ '\x7d' :: r))) := by
        rw [hquote]
        exact skip_gap (isGap_lineBreak _ _) (stops_isSpace_cons (by decide) _)
      rw [htext, readValue_brace hpolicy hdepth hskip, ← List.cons_append, ← hquote,
        readMembers_writeEntries hfields (isGap_lineBreak indent depth) hlength]
      change _ = ((rereadEntries (entriesOf (f :: fields))).map Datum.map).map (·, r)
      cases hread : rereadEntries (entriesOf (f :: fields)) with
      | error e => rfl
      | ok es =>
          have hdiffer := keysDiffer_of_rereadEntries hnames hread
          exact congrArg (fun m => Except.ok (m, r)) (Datum.mapOf_eq_map hdiffer)

/-- The document of a value is read as said in front of what does not go on with a number. -/
theorem IsWritable.readsBack (h : IsWritable k d) (hpolicy : policy.IsStandard)
    (hk : k ≤ policy.depth) (indent : Option Nat) (depth : Nat) :
    ReadsBack policy indent depth d := by
  induction h generalizing policy depth with
  | null depth => exact readsBack_of_forall_succ (.null depth) fun _ _ => rfl
  | bool depth b =>
      apply readsBack_of_forall_succ (.bool depth b)
      cases b <;> exact fun _ _ => rfl
  | int _ n h =>
      intro fuel r hfuel hr
      rw [writeAt, ← text_wholeNumber] at hfuel ⊢
      exact readValue_of_value_eq (fun _ _ => h) (value_wholeNumber n) hfuel hr
  | real _ negative m q h =>
      intro fuel r hfuel hr
      obtain ⟨w, htext, hvalue⟩ := exists_render negative h
      rw [writeAt, ← htext] at hfuel ⊢
      exact readValue_of_value_eq (w.isShort_of_value_eq_real hvalue) hvalue hfuel hr
  | infinite _ negative => exact readsBack_infinite hpolicy.2 negative
  | text _ s => exact readsBack_text policy indent depth s
  | list k xs h ih =>
      have hdepth : policy.depth ≠ 0 := by omega
      have hinner : policy.inner.IsStandard := hpolicy
      have hle : k ≤ policy.inner.depth := Nat.le_sub_one_of_lt hk
      exact readsBack_list hdepth fun x hx => ⟨ih x hx hinner hle _, (h x hx).startsValue _ _⟩
  | record k fields hnames h ih =>
      have hdepth : policy.depth ≠ 0 := by omega
      have hinner : policy.inner.IsStandard := hpolicy
      have hle : k ≤ policy.inner.depth := Nat.le_sub_one_of_lt hk
      exact readsBack_record hpolicy.1 hdepth hnames
        fun f hf => ⟨ih f hf hinner hle _, (h f hf).startsValue _ _⟩

/-- The document of a value, with blanks behind it, is read as said. -/
theorem IsWritable.read_write (h : IsWritable k d) (hpolicy : policy.IsStandard)
    (hk : k ≤ policy.depth) (indent : Option Nat) {g : List Char} (hg : IsGap g) :
    read policy (write indent d ++ g) = reread d := by
  have hskip : skip (write indent d ++ g) = write indent d ++ g := by
    have hstops := (h.startsValue indent 0).stops_isSpace g
    exact skip_gap (g := []) (List.forall_mem_nil _) hstops
  have hread : readValue policy (2 * (write indent d ++ g).length + 2) (write indent d ++ g)
      = (reread d).map (·, g) := by
    refine h.readsBack hpolicy hk indent 0 _ g ?_ (by simpa using stops_gap hg (stops_nil _))
    rw [write, List.length_append]
    omega
  have hend : skip g = [] := List.dropWhile_eq_nil_iff.mpr hg
  rw [read, hskip, hread]
  cases reread d with
  | error e => rfl
  | ok v =>
      change (if (skip g).isEmpty = true then Except.ok v else .error Fault.extraData) = .ok v
      rw [hend]
      rfl

end DocTags.Json
