import DocTags.Proofs.Requirements.ScannedExpressions
import DocTags.Proofs.Requirements.TrailingGaps
import DocTags.Proofs.Tag.CommentLines

/-!
# Where the name of a setting ends

The name of a setting stops at the first place from which the rest of the line can be read as a
value. With a value on the line that is the gap in front of the value. Without one it is the first
place behind which nothing but characters of values stands: they are cut off the name, and the line
is taken for a shorter setting with this value.
-/

namespace DocTags

open Pattern Text Dialect

/-- A setting as it is written behind its word: a name without blanks, and perhaps a value. -/
structure SettingForm where
  first : Char
  rest : List Char
  gaps : List Char
  value : List Char
  isBlank_name : ∀ c ∈ first :: rest, isBlank c = false
  areGaps : AreGaps gaps
  isSettingChar_value : ∀ c ∈ value, isSettingChar c = true
  gaps_ne_nil : value ≠ [] → gaps ≠ []

namespace SettingForm

variable (f : SettingForm)

/-- The name that is written. -/
def name : List Char :=
  f.first :: f.rest

/-- The written setting. -/
def text : List Char :=
  f.name ++ (f.gaps ++ f.value)

/-- The name that is read. -/
def readName : List Char :=
  if f.value = [] then f.first :: f.rest.rdropWhile isSettingChar else f.name

/-- The value that is read. -/
def readValue : List Char :=
  if f.value = [] then f.rest.rtakeWhile isSettingChar else f.value

/-- A setting is read as it is written if and only if it has a value or its name, the first
character apart, ends with a character that no value has. -/
theorem readsAsWritten_iff : f.readName = f.name ∧ f.readValue = f.value
    ↔ (f.value = [] → ∀ c ∈ f.rest.getLast?, isSettingChar c = false) := by
  by_cases hvalue : f.value = []
  · rw [readName, readValue, if_pos hvalue, if_pos hvalue, name, hvalue, List.cons_inj_right,
      List.rdropWhile_eq_self_iff, List.rtakeWhile_eq_nil_iff, and_self]
    rcases List.eq_nil_or_concat' f.rest with h | ⟨front, c, h⟩ <;> simp [h]
  · rw [readName, readValue, if_neg hvalue, if_neg hvalue]
    simp [hvalue]

end SettingForm

namespace Dialect

variable {κ : Type} {lead e s t gaps value : List Char}

/-- No blank stands in the value of a setting. -/
theorem isBlank_of_isSettingChar {c : Char} (h : isSettingChar c = true) : isBlank c = false := by
  rw [Bool.eq_false_iff]
  intro hblank
  have hc := eq_false_of_isBlank (p := isSettingChar) (by decide +kernel) hblank
  exact Bool.false_ne_true (hc.symm.trans h)

theorem isLine_of_not_isBlank (h : ∀ c ∈ s, isBlank c = false) : IsLine s := by
  intro c hc
  have hblank := h c hc
  constructor <;> rintro rfl <;> exact absurd hblank (by decide)

theorem suffix_of_cons_suffix_append {x : Char} {a b : List Char} (hx : x ∉ a)
    (h : x :: s <:+ a ++ b) : x :: s <:+ b := by
  induction a with
  | nil => exact h
  | cons y a ih =>
      rw [List.mem_cons, not_or] at hx
      rw [List.cons_append, List.suffix_cons_iff] at h
      rcases h with h | h
      · exact absurd (List.cons.inj h).1 hx.1
      · exact ih hx.2 h

/-- What stands behind the name of a setting. -/
def settingTail : Pattern Field :=
  chain
    [blanks,
      opt (group .value
        (seq (chars1 isSettingChar) (opt (char fun c => isWord c || c == '.')))),
      lineTail]

theorem canRead_settingTail (hs : IsLine s) (h : settingTail.CanRead s t) :
    ∃ before value after, s = before ++ (value ++ after) ∧ (∀ c ∈ before, isBlank c = true)
      ∧ (∀ c ∈ value, isSettingChar c = true) ∧ AreGaps after := by
  obtain ⟨u, hblanks, hrest⟩ := canRead_seq.mp h
  obtain ⟨before, rfl, hbefore⟩ := canRead_chars.mp hblanks
  obtain ⟨after, hvalue, htail⟩ := canRead_seq.mp hrest
  have hend : IsLine after :=
    (hs.of_suffix (List.suffix_append before u)).of_suffix hvalue.suffix
  have hafter := (canRead_lineTail hend.not_mem.1 hend.not_mem.2).mp htail
  rcases canRead_opt.mp hvalue with hvalue | rfl
  · obtain ⟨v, hchars, hlast⟩ := canRead_seq.mp (canRead_group.mp hvalue)
    obtain ⟨a, -, rfl, ha⟩ := canRead_chars1.mp hchars
    rcases canRead_opt.mp hlast with hlast | rfl
    · obtain ⟨c, hc, rfl⟩ := canRead_char.mp hlast
      refine ⟨before, a ++ [c], after, by simp, hbefore, ?_, hafter.2⟩
      have hchar : isSettingChar c = true := by
        simp only [Bool.or_eq_true] at hc
        simp only [isSettingChar, Bool.or_eq_true]
        exact .inl hc
      exact List.forall_mem_append.mpr ⟨ha, List.forall_mem_singleton.mpr hchar⟩
    · exact ⟨before, a, after, rfl, hbefore, ha, hafter.2⟩
  · exact ⟨before, [], after, rfl, hbefore, by simp, hafter.2⟩

/-- What the group of the value reads: it takes part only if there is a value. -/
def valuePart (value : List Char) : List (Field × List Char) :=
  if value = [] then [] else [(.value, value)]

theorem preferred_settingTail_gaps (hgaps : AreGaps gaps) :
    settingTail.preferred gaps = some [] := by
  have hblanks := reads_chars (κ := Field) (fun c hc => isBlank_of_isGap (hgaps c hc))
    (stops_nil isBlank)
  rw [List.append_nil] at hblanks
  have hrest : (chain [opt (group Field.value
      (seq (chars1 isSettingChar) (opt (char fun c => isWord c || c == '.')))),
    lineTail]).preferred [] = some [] := rfl
  exact preferred_seq_of_reads hblanks hrest

theorem preferred_settingTail_value {after : List Char} (hgaps : AreGaps gaps) (hne : value ≠ [])
    (hvalue : ∀ c ∈ value, isSettingChar c = true) (hafter : AreGaps after) :
    settingTail.preferred (gaps ++ (value ++ after)) = some [(.value, value)] := by
  have hblanks : (blanks : Pattern Field).Reads (gaps ++ (value ++ after)) (value ++ after) [] :=
    reads_chars (fun c hc => isBlank_of_isGap (hgaps c hc))
      (stops_append_of_ne_nil hne (fun c hc => isBlank_of_isSettingChar (hvalue c hc)) after)
  have hstops : Stops isSettingChar after := by
    intro c hc
    rcases eq_of_isGap (hafter c (List.mem_of_mem_head? hc)) with rfl | rfl <;> decide
  have hlast : (opt (char fun c => isWord c || c == '.') : Pattern Field).Reads after after [] :=
    reads_opt_of_fails (fails_char (hstops.mono fun c hc => by
      simp only [isSettingChar, Bool.or_eq_true]
      exact .inl (by simpa using hc)))
  have hchars : (group Field.value (seq (chars1 isSettingChar)
      (opt (char fun c => isWord c || c == '.')))).Reads (value ++ after) after
        [(.value, ⟨value ++ after, after⟩)] :=
    ((reads_chars1 hne hvalue hstops).seq hlast).group .value
  have htail : (lineTail : Pattern Field).preferred after = some [] :=
    ignoresGaps_lineTail after [] hafter (List.forall_mem_nil _)
  have htext : (Span.mk (value ++ after) after).text = value := Span.text_append value after
  have hrest := preferred_seq_of_reads hblanks (preferred_seq_of_reads hchars.opt htail)
  rwa [texts, List.map_cons, List.map_nil, htext] at hrest

/-- Gaps, a value and gaps at the end of the line are read as this value. -/
theorem preferred_settingTail {after : List Char} (hgaps : AreGaps gaps)
    (hvalue : ∀ c ∈ value, isSettingChar c = true) (hafter : AreGaps after) :
    settingTail.preferred (gaps ++ (value ++ after)) = some (valuePart value) := by
  by_cases hne : value = []
  · rw [valuePart, if_pos hne, hne]
    exact preferred_settingTail_gaps (areGaps_append.mpr ⟨hgaps, hafter⟩)
  · rw [valuePart, if_neg hne]
    exact preferred_settingTail_value hgaps hne hvalue hafter

/-- Behind a part of the name that ends with a character of no value, the line cannot end. -/
theorem misses_settingTail_last (hs : ∀ c ∈ s, isBlank c = false)
    (hlast : ∀ c ∈ s.getLast?, isSettingChar c = false) (ht : IsLine t) :
    settingTail.Misses s t := by
  intro u hne hu
  apply fails_iff.mpr
  intro v hv
  have hline : IsLine (u ++ t) := (isLine_of_not_isBlank fun c hc => hs c (hu.mem hc)).append ht
  obtain ⟨before, value, after, heq, hbefore, hvalue, hafter⟩ := canRead_settingTail hline hv
  have hmem : u.getLast hne ∈ before ++ (value ++ after) :=
    heq ▸ List.mem_append_left t (List.getLast_mem hne)
  have hblank : isBlank (u.getLast hne) = false := hs _ (hu.mem (List.getLast_mem hne))
  have hchar : isSettingChar (u.getLast hne) = false := by
    apply hlast
    obtain ⟨a, rfl⟩ := hu
    rw [List.getLast?_append_of_ne_nil a hne, List.getLast?_eq_some_getLast hne]
    rfl
  rcases List.mem_append.mp hmem with hmem | hmem
  · exact Bool.false_ne_true (hblank.symm.trans (hbefore _ hmem))
  rcases List.mem_append.mp hmem with hmem | hmem
  · exact Bool.false_ne_true (hchar.symm.trans (hvalue _ hmem))
  · exact Bool.false_ne_true (hblank.symm.trans (isBlank_of_isGap (hafter _ hmem)))

/-- In front of a gap and a value the line cannot end. -/
theorem misses_settingTail_value (hs : ∀ c ∈ s, isBlank c = false) (hgaps : AreGaps gaps)
    (hgap : gaps ≠ []) (hne : value ≠ []) (hvalue : ∀ c ∈ value, isSettingChar c = true) :
    settingTail.Misses s (gaps ++ value) := by
  have hsolid : ∀ c ∈ value, isBlank c = false :=
    fun c hc => isBlank_of_isSettingChar (hvalue c hc)
  intro u hu hsuffix
  apply fails_iff.mpr
  intro v hv
  have hu' : ∀ c ∈ u, isBlank c = false := fun c hc => hs c (hsuffix.mem hc)
  have hline : IsLine (u ++ (gaps ++ value)) :=
    (isLine_of_not_isBlank hu').append (hgaps.isLine.append (isLine_of_not_isBlank hsolid))
  obtain ⟨before, read, after, heq, hbefore, hread, hafter⟩ := canRead_settingTail hline hv
  obtain ⟨x, u, rfl⟩ := List.exists_cons_of_ne_nil hu
  obtain ⟨g, gaps, rfl⟩ := List.exists_cons_of_ne_nil hgap
  cases before with
  | cons b before =>
      have hb : x = b := (List.cons.inj heq).1
      exact Bool.false_ne_true ((hu' x List.mem_cons_self).symm.trans
        (hb ▸ hbefore b List.mem_cons_self))
  | nil =>
      have hg : g ∉ read := fun hmem => by
        have hblank := isBlank_of_isGap (hgaps g List.mem_cons_self)
        exact Bool.false_ne_true ((isBlank_of_isSettingChar (hread g hmem)).symm.trans hblank)
      have hend : g :: (gaps ++ value) <:+ after :=
        suffix_of_cons_suffix_append hg (heq ▸ List.suffix_append (x :: u) _)
      obtain ⟨y, value, rfl⟩ := List.exists_cons_of_ne_nil hne
      have hy : isGap y = true := hafter y (hend.mem (by simp))
      exact Bool.false_ne_true ((hsolid y List.mem_cons_self).symm.trans (isBlank_of_isGap hy))

/-- The words that open the requirement of a setting, and the setting. -/
def settingText (e : List Char) : List Char :=
  "@requires setting ".toList ++ e

/-- The lazy name takes the first character and stops where the value can be read. -/
theorem lazyFrom_settingTail (f : SettingForm) :
    lazyFrom (· != ' ') Field.setting settingTail f.text (f.rest ++ (f.gaps ++ f.value))
      = some (valuePart f.readValue ++ [(.setting, f.readName)]) := by
  have hrest : ∀ c ∈ f.rest, isBlank c = false := (List.forall_mem_cons.mp f.isBlank_name).2
  have haccepts : ∀ s : List Char, (∀ c ∈ s, c ∈ f.rest) → ∀ c ∈ s, (c != ' ') = true := by
    intro s hs c hc
    rw [bne_iff_ne]
    rintro rfl
    exact absurd (hrest _ (hs _ hc)) (by decide)
  by_cases hvalue : f.value = []
  · have hsplit : f.rest ++ f.gaps = f.rest.rdropWhile isSettingChar
        ++ (f.rest.rtakeWhile isSettingChar ++ f.gaps) := by
      rw [← List.append_assoc, List.rdropWhile_append_rtakeWhile]
    have hkept : ∀ c ∈ f.rest.rdropWhile isSettingChar, c ∈ f.rest :=
      fun c hc => (List.rdropWhile_prefix isSettingChar f.rest).mem hc
    have hcut : ∀ c ∈ f.rest.rtakeWhile isSettingChar, isSettingChar c = true :=
      fun c hc => List.mem_rtakeWhile_imp hc
    have hlast : ∀ c ∈ (f.rest.rdropWhile isSettingChar).getLast?, isSettingChar c = false := by
      intro c hc
      obtain ⟨hne, rfl⟩ := List.mem_getLast?_eq_getLast hc
      simpa using List.rdropWhile_last_not isSettingChar f.rest hne
    have hmisses := misses_settingTail_last (fun c hc => hrest c (hkept c hc)) hlast
      ((isLine_of_not_isBlank fun c hc => isBlank_of_isSettingChar (hcut c hc)).append
        f.areGaps.isLine)
    have hread := preferred_settingTail (List.forall_mem_nil _) hcut f.areGaps
    rw [SettingForm.text, SettingForm.name, SettingForm.readName, SettingForm.readValue,
      if_pos hvalue, if_pos hvalue, hvalue, List.append_nil, List.cons_append, hsplit]
    exact lazyFrom_append_of_misses Field.setting hmisses (haccepts _ hkept) hread [f.first]
  · have hmisses := misses_settingTail_value hrest f.areGaps (f.gaps_ne_nil hvalue) hvalue
      f.isSettingChar_value
    have hread := preferred_settingTail f.areGaps f.isSettingChar_value (List.forall_mem_nil _)
    rw [List.append_nil] at hread
    rw [SettingForm.readName, SettingForm.readValue, if_neg hvalue, if_neg hvalue]
    exact lazyFrom_append_of_misses Field.setting hmisses (haccepts _ fun c hc => hc) hread
      [f.first]

theorem stops_settingWord (e : List Char) : Stops isBlank ("setting".toList ++ e) :=
  (stops_cons ..).mpr (by decide)

theorem settingText_eq (e : List Char) :
    settingText e = "@requires".toList ++ ([' '] ++ ("setting".toList ++ ([' '] ++ e))) :=
  rfl

theorem preferred_settingText (f : SettingForm) :
    settingPattern.preferred (settingText f.text)
      = some (valuePart f.readValue ++ [(.setting, f.readName), (.name, "setting".toList)]) := by
  have hfirst : isBlank f.first = false := f.isBlank_name _ List.mem_cons_self
  have hrequires : (requires : Pattern Field).Reads (settingText f.text)
      ("setting".toList ++ ([' '] ++ f.text)) [] := by
    rw [settingText_eq]
    exact (reads_lit _ _).seq (reads_chars1 (by decide) (by decide) (stops_settingWord _))
  have hname := (reads_lit (κ := Field) "setting".toList ([' '] ++ f.text)).group Field.name
  have hblank : (blanks1 : Pattern Field).Reads ([' '] ++ f.text) f.text [] :=
    reads_chars1 (by decide) (by decide) ((stops_cons ..).mpr hfirst)
  have hsetting : (seq (group Field.setting (plus .lazy (char (· != ' ')))) settingTail).preferred
      f.text = some (valuePart f.readValue ++ [(.setting, f.readName)]) := by
    have hne : (f.first != ' ') = true := by
      rw [bne_iff_ne]
      intro h
      rw [h] at hfirst
      exact absurd hfirst (by decide)
    rw [← lazyFrom_settingTail]
    exact (preferred_group_plus_lazy (· != ' ') Field.setting settingTail f.first _).trans
      (if_pos hne)
  have hpattern : settingPattern = seq requires (seq (group .name (lit "setting".toList))
      (seq blanks1 (seq (group Field.setting (plus .lazy (char (· != ' ')))) settingTail))) := rfl
  rw [hpattern, preferred_seq_of_reads hrequires
    (preferred_seq_of_reads hname (preferred_seq_of_reads hblank hsetting))]
  simp only [texts, List.map_cons, List.map_nil, Span.text_append, List.append_nil,
    List.append_assoc, List.cons_append, List.nil_append]

/-- The line has a setting tag with the name and the value that are read. -/
theorem exists_tag_settingText (f : SettingForm) (hlead : '@' ∉ lead) :
    ∃ tag, Dialect.setting.tag? (lead ++ settingText f.text) = some tag
      ∧ tag.getD .setting = String.ofList f.readName
      ∧ tag.getD .value = String.ofList f.readValue := by
  obtain ⟨s, hs⟩ : ∃ s, settingText f.text = '@' :: s := ⟨_, rfl⟩
  have hfound : Dialect.setting.pattern.found (settingText f.text)
      = some (valuePart f.readValue ++ [(.setting, f.readName), (.name, "setting".toList)]) := by
    have hpreferred := preferred_settingText f
    rw [hs] at hpreferred ⊢
    rw [found_cons, Dialect.pattern, hpreferred, Option.some_or]
  refine ⟨_, by rw [tag?_append_of_not_mem _ hlead, tag?_eq_map_found, hfound, Option.map_some],
    ?_, ?_⟩
  · rw [getD_tagOf (by decide), partOf, valuePart]
    split <;> rfl
  · rw [getD_tagOf (by decide), partOf, valuePart]
    split
    · next h =>
      rw [h]
      rfl
    · rfl

/-- The names of the other requirements. -/
def otherNames : List (List Char) :=
  ["PHP", "PHPUnit", "OS", "OSFAMILY", "function", "extension"].map String.toList

/-- A requirement reads its name, between blanks, behind its word. -/
theorem exists_of_canRead_requirement {name rest : Pattern Field} {words : List (List Char)}
    (hname : ∀ s u, name.CanRead s u → ∃ w ∈ words, s = w ++ u)
    (h : (seq requires (seq (group .name name) (seq blanks1 rest))).CanRead s t) :
    ∃ gap w gap' u, s = "@requires".toList ++ (gap ++ (w ++ (gap' ++ u)))
      ∧ gap ≠ [] ∧ (∀ c ∈ gap, isBlank c = true) ∧ w ∈ words
      ∧ gap' ≠ [] ∧ ∀ c ∈ gap', isBlank c = true := by
  obtain ⟨a, hrequires, h⟩ := canRead_seq.mp h
  obtain ⟨b, hword, hblanks⟩ := canRead_seq.mp hrequires
  obtain ⟨d, hnamed, h⟩ := canRead_seq.mp h
  obtain ⟨u, hblanks', -⟩ := canRead_seq.mp h
  obtain rfl := canRead_lit.mp hword
  obtain ⟨gap, hne, rfl, hgap⟩ := canRead_chars1.mp hblanks
  obtain ⟨w, hw, rfl⟩ := hname _ _ (canRead_group.mp hnamed)
  obtain ⟨gap', hne', rfl, hgap'⟩ := canRead_chars1.mp hblanks'
  exact ⟨gap, w, gap', u, rfl, hne, hgap, hw, hne', hgap'⟩

/-- On the line of a setting no other requirement can be read: the words behind the only at sign in
front of the name are those of the setting, and behind an at sign in the name the line has too few
blanks. -/
theorem not_canRead_requirement (f : SettingForm) {name rest : Pattern Field}
    (hname : ∀ s u, name.CanRead s u → ∃ w ∈ otherNames, s = w ++ u)
    (hs : s <:+ settingText f.text) :
    ¬ (seq requires (seq (group .name name) (seq blanks1 rest))).CanRead s t := by
  intro h
  obtain ⟨gap, w, gap', u, rfl, hne, hgap, hw, hne', hgap'⟩ :=
    exists_of_canRead_requirement hname h
  have hwords : ∀ w ∈ otherNames, (w.head?.any fun x => !isBlank x && x != 's') = true := by decide
  obtain ⟨x, hhead, hx⟩ := (Option.any_eq_true _ _).mp (hwords w hw)
  rw [Bool.and_eq_true, Bool.not_eq_true', bne_iff_ne] at hx
  obtain ⟨v, rfl⟩ := List.head?_eq_some_iff.mp hhead
  obtain ⟨g, gap, rfl⟩ := List.exists_cons_of_ne_nil hne
  obtain ⟨g', gap', rfl⟩ := List.exists_cons_of_ne_nil hne'
  rw [List.forall_mem_cons] at hgap hgap'
  have hsplit : settingText f.text = '@' :: ("requires setting ".toList ++ f.text) := rfl
  rw [hsplit] at hs
  rcases List.suffix_cons_iff.mp hs with heq | hs
  · have hcut : g :: (gap ++ (x :: v ++ (g' :: gap' ++ u)))
        = ' ' :: ("setting ".toList ++ f.text) :=
      (List.append_right_inj "requires".toList).mp (List.cons.inj heq).2
    cases gap with
    | nil => exact hx.2 (List.cons.inj (List.cons.inj hcut).2).1
    | cons b gap =>
        have hb : b = 's' := (List.cons.inj (List.cons.inj hcut).2).1
        exact absurd (hb ▸ hgap.2 b List.mem_cons_self) (by decide)
  · have hat := suffix_of_cons_suffix_append (by decide) hs
    have hrest : g :: (gap ++ (x :: v ++ (g' :: gap' ++ u))) <:+ f.name ++ (f.gaps ++ f.value) :=
      (List.suffix_append "@requires".toList _).trans hat
    have hg : g ∉ f.name := fun hmem =>
      Bool.false_ne_true ((f.isBlank_name g hmem).symm.trans hgap.1)
    have hbehind : x :: (v ++ (g' :: gap' ++ u)) <:+ f.gaps ++ f.value :=
      (List.suffix_append (g :: gap) _).trans (suffix_of_cons_suffix_append hg hrest)
    have hsolid : x ∉ f.gaps := fun hmem =>
      Bool.false_ne_true (hx.1.symm.trans (isBlank_of_isGap (f.areGaps x hmem)))
    have hvalue : g' ∈ f.value :=
      (suffix_of_cons_suffix_append hsolid hbehind).mem (by simp)
    exact Bool.false_ne_true
      ((isBlank_of_isSettingChar (f.isSettingChar_value g' hvalue)).symm.trans hgap'.1)

theorem tag?_settingText_eq_none (f : SettingForm) {d : Dialect} {name rest : Pattern Field}
    (hd : d.pattern = seq requires (seq (group .name name) (seq blanks1 rest)))
    (hname : ∀ s u, name.CanRead s u → ∃ w ∈ otherNames, s = w ++ u) (hlead : '@' ∉ lead) :
    d.tag? (lead ++ settingText f.text) = none := by
  rw [tag?_append_of_not_mem d hlead, tag?, Option.map_eq_none_iff, search?_eq_none_iff]
  intro s hs
  rw [hd, fails_iff]
  exact fun t => not_canRead_requirement f hname hs

end Dialect

namespace Requirements

variable {lead : List Char} {before after : List (List Char)} {s : Symbol}

/-- The line of a setting has the entry of this setting only. -/
theorem entries_settingText (f : SettingForm) (hlead : '@' ∉ lead) :
    entries (lead ++ settingText f.text)
      = [.setting (String.ofList f.readName) (String.ofList f.readValue)] := by
  have hplatform : ∀ s u, (seq (lit "PHP".toList) (opt (lit "Unit".toList)) : Pattern Field).CanRead
      s u → ∃ w ∈ otherNames, s = w ++ u :=
    fun _ _ h => mem_words_of_canRead (by decide) (by decide) h
  have hos := tag?_settingText_eq_none f (d := .os) rfl
    (fun _ _ h => mem_words_of_canRead (by decide) (by decide) h) hlead
  have hversion := tag?_settingText_eq_none f (d := .version) rfl hplatform hlead
  have hconstraint := tag?_settingText_eq_none f (d := .versionConstraint) rfl hplatform hlead
  have hprerequisite := tag?_settingText_eq_none f (d := .prerequisite) rfl (fun s u h => by
    rcases canRead_alt.mp h with h | h
    · exact ⟨_, by decide, canRead_lit.mp h⟩
    · exact ⟨_, by decide, canRead_lit.mp h⟩) hlead
  obtain ⟨tag, htag, hname, hvalue⟩ := exists_tag_settingText f hlead
  rw [entries, hos, hversion, hconstraint, hprerequisite, htag]
  simp [Entry.ofSetting, hname, hvalue]

/-- What is on record behind a comment with one setting. -/
def ofSetting (name value : List Char) (line : Int) : Requirements :=
  { settings := [(String.ofList name, String.ofList value)]
    lineOffsets := [(.setting (String.ofList name), line)] }

theorem ofComment_settingText (f : SettingForm) {comment : List Char}
    (hlines : lines comment = before ++ (lead ++ settingText f.text) :: after)
    (hbefore : ∀ line ∈ before, '@' ∉ line) (hafter : ∀ line ∈ after, '@' ∉ line)
    (hlead : '@' ∉ lead) (startLine : Int) :
    ofComment startLine comment
      = .ok (ofSetting f.readName f.readValue (startLine - after.length - 1)) := by
  rw [ofComment_of_line hlines hbefore hafter, addLine_eq_foldlM, entries_settingText f hlead]
  rfl

/-- A symbol with one line that requires a setting, and no other tag, requires the setting that is
read: with a value it is the one that is written, and without one it is a part of the name, with the
rest of the name as its value, unless the name ends with a character that no value has. -/
theorem ofSymbol_settingText (f : SettingForm)
    (hlines : lines s.docComment.toList = before ++ (lead ++ settingText f.text) :: after)
    (hbefore : ∀ line ∈ before, '@' ∉ line) (hafter : ∀ line ∈ after, '@' ∉ line)
    (hlead : '@' ∉ lead) :
    (ofSymbol s).result = ((fileOf s).mapError .fault).map (fun path =>
        { ofSetting f.readName f.readValue (s.startLine - after.length - 1) with filePath := path })
    ∧ (∀ r, (ofSymbol s).result = .ok r → r.lineOffsets.map (·.1.text)
        = ["setting:" ++ String.ofList f.readName])
    ∧ (f.readName = f.name ∧ f.readValue = f.value
        ↔ (f.value = [] → ∀ c ∈ f.rest.getLast?, isSettingChar c = false)) := by
  have hresult : (ofSymbol s).result = ((fileOf s).mapError .fault).map fun path =>
      { ofSetting f.readName f.readValue (s.startLine - after.length - 1) with
        filePath := path } := by
    rw [ofSymbol, ofComment_settingText f hlines hbefore hafter hlead]
    cases fileOf s <;> rfl
  refine ⟨hresult, ?_, f.readsAsWritten_iff⟩
  intro r hr
  obtain ⟨path, -, rfl⟩ := exists_of_map_eq_ok (hresult.symm.trans hr)
  rfl

/-- A symbol whose comment requires a setting. -/
def settingSymbol (setting : String) : Symbol :=
  ⟨"/**\n * @requires setting " ++ setting ++ "\n */", "", 20, 25, .null, .null, [], false, none⟩

/-- A setting without a value. -/
def memoryLimit : SettingForm :=
  ⟨'m', "emory_limit".toList, [], [], by decide +kernel, by decide, by simp, by simp⟩

/-- All of the name but its first character is taken for the value. -/
theorem ofSymbol_memoryLimit :
    (ofSymbol (settingSymbol "memory_limit")).result
        = .ok (ofSetting "m".toList "emory_limit".toList 18)
      ∧ ¬ (memoryLimit.readName = memoryLimit.name
        ∧ memoryLimit.readValue = memoryLimit.value) := by
  have hlines : lines (settingSymbol "memory_limit").docComment.toList
      = ["/**".toList] ++ (" * ".toList ++ settingText memoryLimit.text) :: [" */".toList] := by
    decide +kernel
  obtain ⟨hresult, -, hwritten⟩ := ofSymbol_settingText memoryLimit hlines (by decide +kernel)
    (by decide +kernel) (by decide +kernel)
  have hname : memoryLimit.readName = "m".toList := by decide +kernel
  have hvalue : memoryLimit.readValue = "emory_limit".toList := by decide +kernel
  rw [hname, hvalue] at hresult
  exact ⟨hresult, fun h => absurd (hwritten.mp h rfl 't' (by decide +kernel)) (by decide +kernel)⟩

/-- Not every setting without a value is recorded under its name. -/
theorem not_forall_ofSymbol_settingText :
    ¬ ∀ (s : Symbol) (before after : List (List Char)) (lead name : List Char),
      name ≠ [] → (∀ c ∈ name, isBlank c = false) →
      lines s.docComment.toList = before ++ (lead ++ settingText name) :: after →
      (∀ line ∈ before, '@' ∉ line) → (∀ line ∈ after, '@' ∉ line) → '@' ∉ lead →
      (ofSymbol s).result = ((fileOf s).mapError .fault).map fun path =>
        { ofSetting name [] (s.startLine - after.length - 1) with filePath := path } := by
  intro h
  have hlines : lines (settingSymbol "memory_limit").docComment.toList
      = ["/**".toList] ++ (" * ".toList ++ settingText "memory_limit".toList)
        :: [" */".toList] := by
    decide +kernel
  have hrun := h _ _ _ _ _ (by decide) (by decide +kernel) hlines (by decide +kernel)
    (by decide +kernel) (by decide +kernel)
  have hcomment : ofComment 20 (settingSymbol "memory_limit").docComment.toList
      = .ok (ofSetting "m".toList "emory_limit".toList 18) := by
    decide +kernel
  have hstart : (settingSymbol "memory_limit").startLine = 20 := rfl
  rw [ofSymbol, hstart, hcomment] at hrun
  have hsettings := congrArg Requirements.settings (Except.ok.inj hrun)
  exact absurd hsettings (by decide +kernel)

end Requirements

end DocTags
