import DocTags.Proofs.Requirements.Entries
import DocTags.Proofs.Requirements.PlatformLine
import DocTags.Proofs.Tag.TrailingGaps

/-!
# Requirements and gaps at the ends of lines

Spaces and tabs at the end of a line do not change what it requires, unless nothing but two or more
blanks stand then behind the name of what is required: the last of them can be read as the
constraint, the operating system or the setting.
-/

namespace DocTags

open Pattern Text Dialect

namespace Requirements

/-- The names that open a requirement of which the rest is read up to the end of the line. -/
def openNames : List (List Char) :=
  ["PHP", "PHPUnit", "OS", "OSFAMILY", "setting"].map String.toList

/-- Two or more blanks, and nothing else, stand on the line behind the name of what is required. -/
def IsUnfinished (line : List Char) : Prop :=
  ∃ lead blanks name after, line = lead ++ ("@requires".toList ++ (blanks ++ (name ++ after)))
    ∧ blanks ≠ [] ∧ (∀ c ∈ blanks, isBlank c = true) ∧ name ∈ openNames
    ∧ (∀ c ∈ after, isBlank c = true) ∧ 2 ≤ after.length

variable {gaps line s t : List Char} {name rest : Pattern Field}
  {E : List (Field × List Char) → List (Field × List Char) → Prop}

/-- The word for requirements and the name of what is required. -/
def opening (name : Pattern Field) : Pattern Field :=
  seq (lit "@requires".toList) (seq blanks1 (group .name name))

theorem preferred_opening (name rest : Pattern Field) (s : List Char) :
    (seq requires (seq (group .name name) rest)).preferred s
      = (seq (opening name) rest).preferred s := by
  simp only [preferred, outcomes, requires, opening, followedBy_assoc]

theorem followsGaps_opening (hname : FollowsGaps (group .name name)) (hnil : name.Fails []) :
    FollowsGaps (opening name) := by
  have hnamed : FollowsGaps (seq blanks1 (group .name name)) :=
    hname.chars1_seq (fails_group hnil) isBlank
  intro gaps hgaps
  have hword : (lit "@requires".toList : Pattern Field).Follows (· ++ gaps) :=
    followsGaps_of_isPlain rfl rfl rfl gaps hgaps
  exact hword.seq (hnamed gaps hgaps)

/-- The word, blanks and one of the names stand in front of what the opening leaves. -/
theorem exists_eq_append_of_opening {words : List (List Char)} {r : Outcome Field}
    (hname : ∀ s u, name.CanRead s u → ∃ w ∈ words, s = w ++ u)
    (hr : r ∈ (opening name).outcomes t) : ∃ blanks, ∃ w ∈ words,
      t = "@requires".toList ++ (blanks ++ (w ++ r.1)) ∧ blanks ≠ []
        ∧ ∀ c ∈ blanks, isBlank c = true := by
  obtain ⟨u, hword, hread⟩ := canRead_seq.mp (⟨r.2, hr⟩ : (opening name).CanRead t r.1)
  obtain ⟨v, hblanks, hnamed⟩ := canRead_seq.mp hread
  obtain rfl := canRead_lit.mp hword
  obtain ⟨blanks, hne, rfl, hgap⟩ := canRead_chars1.mp hblanks
  obtain ⟨w, hw, rfl⟩ := hname _ _ (canRead_group.mp hnamed)
  exact ⟨blanks, w, hw, rfl, hne, hgap⟩

/-- What stands behind the name on a finished line is not blank, or too short. -/
theorem exists_not_isBlank (hfinished : ¬ IsUnfinished (line ++ gaps)) (hgaps : AreGaps gaps)
    (ht : t <:+ line) (hname : ∀ s u, name.CanRead s u → ∃ w ∈ openNames, s = w ++ u) :
    ∀ r ∈ (opening name).outcomes t,
      (∃ c ∈ r.1, isBlank c = false) ∨ (r.1 ++ gaps).length < 2 := by
  intro r hr
  by_contra hnone
  rw [not_or, not_exists, Nat.not_lt] at hnone
  obtain ⟨hnone, hlength⟩ := hnone
  have hblank : ∀ c ∈ r.1 ++ gaps, isBlank c = true := by
    rw [List.forall_mem_append]
    exact ⟨by simpa using hnone, fun c hc => isBlank_of_isGap (hgaps c hc)⟩
  obtain ⟨gap, w, hw, rfl, hne, hgap⟩ := exists_eq_append_of_opening hname hr
  obtain ⟨lead, rfl⟩ := ht
  refine hfinished ⟨lead, gap, w, r.1 ++ gaps, ?_, hne, hgap, hw, hblank, hlength⟩
  simp only [List.append_assoc]

/-- A single character is not enough for a blank and something behind it. -/
theorem preferred_blanks1_seq_of_length_lt (hrest : rest.Fails []) (hs : s.length < 2) :
    (seq blanks1 rest).preferred s = none := by
  match s with
  | [] => rfl
  | [x] =>
      rw [blanks1, preferred_chars1_seq_cons, preferred_chars_seq_nil, preferred_of_fails hrest,
        ite_self]
  | x :: y :: s =>
      rw [List.length_cons, List.length_cons] at hs
      omega

/-- On a finished line the readings of a requirement are related if they are related behind its
name. -/
theorem rel_found_requirement {d : Dialect}
    (hd : d.pattern = seq requires (seq (group .name name) (seq blanks1 rest)))
    (hfollows : FollowsGaps (group .name name)) (hnil : name.Fails [])
    (hname : ∀ s u, name.CanRead s u → ∃ w ∈ openNames, s = w ++ u)
    (hline : IsLine line) (hgaps : AreGaps gaps) (hfinished : ¬ IsUnfinished (line ++ gaps))
    (hend : rest.Fails [])
    (hrest : ∀ u c, IsLine u → u ≠ [] → Option.Rel (fun a b => E (a ++ c) (b ++ c))
      (rest.preferred u) (rest.preferred (u ++ gaps))) :
    Option.Rel E (d.pattern.found line) (d.pattern.found (line ++ gaps)) := by
  have hconsumes : d.pattern.consumes = true := by rw [hd]; rfl
  refine rel_found_append hconsumes (d.found_of_areGaps hgaps) fun t ht => ?_
  rw [hd, preferred_opening, preferred_opening]
  refine (followsGaps_opening hfollows hnil gaps hgaps).rel_seq fun r hr => ?_
  have hafter : IsLine r.1 := (hline.of_suffix ht).of_suffix (suffix_of_mem_outcomes _ t r hr)
  rcases exists_not_isBlank hfinished hgaps ht hname r hr with hstop | hlength
  · exact rel_chars1_seq hstop fun u hu hne => hrest u _ (hafter.of_suffix hu) hne
  · have hlength' : r.1.length < 2 := by
      rw [List.length_append] at hlength
      omega
    rw [preferred_blanks1_seq_of_length_lt hend hlength,
      preferred_blanks1_seq_of_length_lt hend hlength']
    exact .none

theorem mem_words_of_canRead {words : List (List Char)} {a b s u : List Char}
    (ha : a ∈ words) (hab : a ++ b ∈ words)
    (h : (seq (lit a) (opt (lit b)) : Pattern Field).CanRead s u) :
    ∃ w ∈ words, s = w ++ u := by
  obtain ⟨v, hword, hending⟩ := canRead_seq.mp h
  obtain rfl := canRead_lit.mp hword
  rcases canRead_opt.mp hending with hending | rfl
  · obtain rfl := canRead_lit.mp hending
    exact ⟨a ++ b, hab, (List.append_assoc a b u).symm⟩
  · exact ⟨a, ha, rfl⟩

/-- A constraint is read up to the end of its line or not at all. -/
theorem preferred_constraint (hs : IsLine s) (hne : s ≠ []) :
    (seq (group Field.constraint (chars1 isConstraintChar)) lineTail).preferred s
      = if ∀ c ∈ s, isConstraintChar c = true then some [(.constraint, s)] else none := by
  split
  · next hchars =>
      have htext : (group Field.constraint (chars1 isConstraintChar)).Reads s []
          [(.constraint, ⟨s, []⟩)] := by
        have hread := reads_chars1 (κ := Field) hne hchars (stops_nil _)
        rw [List.append_nil] at hread
        exact hread.group .constraint
      have htail : (lineTail : Pattern Field).preferred [] = some [] := rfl
      rw [preferred_seq_of_reads htext htail]
      simp [texts]
  · next hchars =>
      apply preferred_of_fails
      apply fails_iff.mpr
      intro t ht
      obtain ⟨u, hread, htail⟩ := canRead_seq.mp ht
      obtain ⟨a, -, rfl, ha⟩ := canRead_chars1.mp (canRead_group.mp hread)
      have hu : IsLine u := hs.of_suffix (List.suffix_append a u)
      obtain ⟨-, hgaps⟩ := (canRead_lineTail hu.not_mem.1 hu.not_mem.2).mp htail
      exact hchars (List.forall_mem_append.mpr
        ⟨ha, fun c hc => isConstraintChar_of_isGap (hgaps c hc)⟩)

theorem rel_constraint (hs : IsLine s) (hne : s ≠ []) (hgaps : AreGaps gaps) :
    Option.Rel (fun a b => a = [(.constraint, s)] ∧ b = [(.constraint, s ++ gaps)])
      ((seq (group Field.constraint (chars1 isConstraintChar)) lineTail).preferred s)
      ((seq (group Field.constraint (chars1 isConstraintChar)) lineTail).preferred
        (s ++ gaps)) := by
  have hgapChars : ∀ c ∈ gaps, isConstraintChar c = true :=
    fun c hc => isConstraintChar_of_isGap (hgaps c hc)
  rw [preferred_constraint hs hne, preferred_constraint (hs.append hgaps.isLine) (by simp [hne])]
  by_cases hchars : ∀ c ∈ s, isConstraintChar c = true
  · rw [if_pos hchars, if_pos (List.forall_mem_append.mpr ⟨hchars, hgapChars⟩)]
    exact .some ⟨rfl, rfl⟩
  · rw [if_neg hchars, if_neg fun h => hchars (List.forall_mem_append.mp h).1]
    exact .none

section Line

variable (hline : IsLine line) (hgaps : AreGaps gaps)

include hline hgaps

/-- A version tag does not notice gaps at the end of its line. -/
theorem found_version : Dialect.version.pattern.found (line ++ gaps)
    = Dialect.version.pattern.found line := by
  have hversion : FollowsGaps (group Field.version
      (seq (chars1 isVersionChar) (opt (alt (lit "dev".toList)
        (seq (oneOf (lit "RC".toList) [lit "alpha".toList, lit "beta".toList])
          (char fun c => isDecimal c || c == '.')))))) := followsGaps_of_isPlain rfl rfl rfl
  have hcomparison : FollowsGaps comparison := followsGaps_of_isPlain rfl rfl rfl
  have hplatform : FollowsGaps platform := followsGaps_of_isPlain rfl rfl rfl
  have hword : FollowsGaps (lit "@requires".toList : Pattern Field) :=
    followsGaps_of_isPlain rfl rfl rfl
  have hnumber := (hversion.seq_ignores ignoresGaps_lineTail).chars_seq isBlank
  have hrequired := (hcomparison.seq_ignores hnumber).chars1_seq isBlank (fails_nil_of_consumes rfl)
  have hnamed := (hplatform.seq_ignores hrequired).chars1_seq isBlank (fails_nil_of_consumes rfl)
  have hpattern : IgnoresGaps versionPattern := (hword.seq_ignores hnamed).assoc
  refine (eq_of_rel (rel_found_append rfl (found_of_areGaps .version hgaps) fun t ht => ?_)).symm
  exact rel_of_eq (fun _ => rfl) (hpattern gaps t hgaps (hline.of_suffix ht))

/-- A function or extension tag does not notice gaps at the end of its line. -/
theorem found_prerequisite : Dialect.prerequisite.pattern.found (line ++ gaps)
    = Dialect.prerequisite.pattern.found line := by
  have hversion : FollowsGaps (group Field.version
      (seq (chars1 isVersionChar) (opt (char fun c => isDecimal c || c == '.')))) :=
    followsGaps_of_isPlain rfl rfl rfl
  have hcomparison : FollowsGaps comparison := followsGaps_of_isPlain rfl rfl rfl
  have hvalue : FollowsGaps (group Field.value (chars1 fun c => !isBlank c && !isSign c)) :=
    followsGaps_of_isPlain rfl rfl rfl
  have hname : FollowsGaps (group Field.name
      (alt (lit "function".toList) (lit "extension".toList))) := followsGaps_of_isPlain rfl rfl rfl
  have hword : FollowsGaps (lit "@requires".toList : Pattern Field) :=
    followsGaps_of_isPlain rfl rfl rfl
  have hnumber := ((hversion.seq_ignores ignoresGaps_lineTail).opt_seq
    ignoresGaps_lineTail).chars_seq isBlank
  have hrequired := (hcomparison.seq_ignores hnumber).chars_seq isBlank
  have hvalued := (hvalue.seq_ignores hrequired).chars1_seq isBlank (fails_nil_of_consumes rfl)
  have hnamed := (hname.seq_ignores hvalued).chars1_seq isBlank (fails_nil_of_consumes rfl)
  have hpattern : IgnoresGaps prerequisitePattern := (hword.seq_ignores hnamed).assoc
  refine (eq_of_rel (rel_found_append rfl (found_of_areGaps .prerequisite hgaps)
    fun t ht => ?_)).symm
  exact rel_of_eq (fun _ => rfl) (hpattern gaps t hgaps (hline.of_suffix ht))

variable (hfinished : ¬ IsUnfinished (line ++ gaps))

include hfinished

/-- The value of an operating system tag stops in front of the gaps. -/
theorem found_os : Dialect.os.pattern.found (line ++ gaps) = Dialect.os.pattern.found line := by
  refine (eq_of_rel (rel_found_requirement rfl (followsGaps_of_isPlain rfl rfl rfl)
    (fails_nil_of_consumes rfl) (fun s u h => mem_words_of_canRead (by decide) (by decide) h)
    hline hgaps hfinished (fails_nil_of_consumes rfl) fun u c hu hne => ?_)).symm
  refine rel_of_eq (fun _ => ?_)
    (ignoresGaps_lineTail.group_plus_lazy rfl inLine Field.value hgaps hu hne)
  rfl

/-- The name and the value of a setting stop in front of the gaps. -/
theorem found_setting :
    Dialect.setting.pattern.found (line ++ gaps) = Dialect.setting.pattern.found line := by
  have hvalue : FollowsGaps (group Field.value
      (seq (chars1 isSettingChar) (opt (char fun c => isWord c || c == '.')))) :=
    followsGaps_of_isPlain rfl rfl rfl
  have hrest := ((hvalue.seq_ignores ignoresGaps_lineTail).opt_seq
    ignoresGaps_lineTail).chars_seq isBlank
  refine (eq_of_rel (rel_found_requirement rfl (followsGaps_of_isPlain rfl rfl rfl)
    (fails_nil_of_consumes rfl) (fun s u h => ⟨_, by decide, canRead_lit.mp h⟩)
    hline hgaps hfinished (fails_nil_of_consumes rfl) fun u c hu hne => ?_)).symm
  refine rel_of_eq (fun _ => ?_)
    (hrest.group_plus_lazy rfl (· != ' ') Field.setting hgaps hu hne)
  rfl

/-- The constraint takes the gaps in, but they are trimmed off it. -/
theorem rel_found_constraint :
    Option.Rel (fun a b => Entry.ofConstraint (tagOf .versionConstraint a)
        = Entry.ofConstraint (tagOf .versionConstraint b))
      (Dialect.versionConstraint.pattern.found line)
      (Dialect.versionConstraint.pattern.found (line ++ gaps)) := by
  refine rel_found_requirement rfl (followsGaps_of_isPlain rfl rfl rfl)
    (fails_nil_of_consumes rfl) (fun s u h => mem_words_of_canRead (by decide) (by decide) h)
    hline hgaps hfinished (fails_nil_of_consumes rfl) fun u c hu hne => ?_
  refine rel_mono ?_ (rel_constraint hu hne hgaps)
  rintro a b ⟨rfl, rfl⟩
  have hconstraint : ∀ v, expressionOf (tagOf .versionConstraint ([(.constraint, v)] ++ c))
      = String.ofList (trim v) := by
    intro v
    rw [expressionOf, getD_tagOf (by decide), String.toList_ofList]
    rfl
  have hname : ∀ v, (tagOf .versionConstraint ([(.constraint, v)] ++ c)).getD .name
      = String.ofList (partOf c .name) := by
    intro v
    rw [getD_tagOf (by decide)]
    rfl
  have hblank : ∀ x ∈ gaps, isBlank x = true := fun x hx => isBlank_of_isGap (hgaps x hx)
  simp only [Entry.ofConstraint, hconstraint, hname, trim_append_of_isBlank hblank]

/-- A finished line has the same entries with gaps at its end. -/
theorem entries_append : entries (line ++ gaps) = entries line := by
  have hconstraint : ((Dialect.versionConstraint.tag? (line ++ gaps)).toList.map Entry.ofConstraint)
      = (Dialect.versionConstraint.tag? line).toList.map Entry.ofConstraint := by
    have hrel := rel_found_constraint hline hgaps hfinished
    rw [tag?_eq_map_found, tag?_eq_map_found]
    generalize Dialect.versionConstraint.pattern.found line = a at hrel
    generalize Dialect.versionConstraint.pattern.found (line ++ gaps) = b at hrel
    cases hrel with
    | some h => exact congrArg (fun e => [e]) h.symm
    | none => rfl
  have hother : ∀ d ∈ [.os, .version, .setting, .prerequisite],
      Dialect.tag? d (line ++ gaps) = Dialect.tag? d line := by
    simp only [List.forall_mem_cons, tag?_eq_map_found, found_os hline hgaps hfinished,
      found_version hline hgaps, found_setting hline hgaps hfinished,
      found_prerequisite hline hgaps, true_and]
    exact List.forall_mem_nil _
  simp only [List.forall_mem_cons] at hother
  obtain ⟨hos, hversion, hsetting, hprerequisite, -⟩ := hother
  rw [entries, entries, hos, hversion, hconstraint, hsetting, hprerequisite]

end Line

/-- No line that is changed is unfinished. -/
def FinishesLines (ls ls' : List (List Char)) : Prop :=
  ∀ x ∈ ls.zip ls', x.2 = x.1 ∨ ¬ IsUnfinished x.2

theorem entries_of_finished {line' : List Char} (hline : IsLine line)
    (hgaps : ∃ gaps, AreGaps gaps ∧ line' = line ++ gaps)
    (hfinished : line' = line ∨ ¬ IsUnfinished line') : entries line' = entries line := by
  obtain ⟨gaps, hgaps, rfl⟩ := hgaps
  rcases hfinished with hsame | hfinished
  · rw [hsame]
  · exact entries_append hline hgaps hfinished

/-- Lines require the same with gaps at their ends if these leave none of them unfinished. -/
theorem addLines_addsGaps {ls ls' : List (List Char)} (h : AddsGaps ls ls')
    (hls : ∀ line ∈ ls, IsLine line) (hfinished : FinishesLines ls ls') (r : Requirements)
    (n : Int) : r.addLines n ls' = r.addLines n ls := by
  induction h generalizing r n with
  | nil => rfl
  | cons hfirst _ ih =>
      rw [FinishesLines, List.zip_cons_cons, List.forall_mem_cons] at hfinished
      rw [List.forall_mem_cons] at hls
      rw [addLines, addLines, addLine_eq_foldlM, addLine_eq_foldlM,
        entries_of_finished hls.1 hfirst hfinished.1]
      simp only [ih hls.2 hfinished.2]

/-- Spaces and tabs at the ends of the lines of its comment change nothing in the requirements of a
symbol or in the problem with them, as long as no line is changed into one on which two or more
blanks, and nothing else, stand behind the name of what is required. -/
theorem ofSymbol_addsGaps {s : Symbol} {comment : String}
    (hgaps : AddsGaps (lines s.docComment.toList) (lines comment.toList))
    (hfinished : FinishesLines (lines s.docComment.toList) (lines comment.toList)) :
    ofSymbol { s with docComment := comment } = ofSymbol s := by
  have hlines : ∀ line ∈ lines s.docComment.toList, IsLine line := by
    intro line hline c hc
    obtain ⟨hfeed, hreturn⟩ := not_mem_of_mem_lines hline
    exact ⟨fun h => hfeed (h ▸ hc), fun h => hreturn (h ▸ hc)⟩
  have hcomment : ofComment s.startLine comment.toList
      = ofComment s.startLine s.docComment.toList := by
    rw [ofComment, ofComment, ← hgaps.length_eq, addLines_addsGaps hgaps hlines hfinished]
  rw [ofSymbol, ofSymbol, hcomment]
  rfl

/-- A line whose last character, gaps apart, is no blank and ends none of the names is finished. -/
theorem not_isUnfinished_concat {c : Char} (hc : isBlank c = false)
    (hnames : ∀ name ∈ openNames, name.getLast? ≠ some c) (hgaps : AreGaps gaps) :
    ¬ IsUnfinished (line ++ [c] ++ gaps) := by
  rintro ⟨lead, blanks, name, after, hsplit, -, -, hname, hafter, -⟩
  have hplain : ∀ name ∈ openNames, name.getLast?.any (!isBlank ·) = true := by decide
  obtain ⟨d, hlast, hd⟩ := (Option.any_eq_true _ _).mp (hplain name hname)
  obtain ⟨front, rfl⟩ := List.getLast?_eq_some_iff.mp hlast
  have hdrop : ∀ (s t : List Char) (x : Char), isBlank x = false → (∀ y ∈ t, isBlank y = true) →
      dropEndWhile isBlank (s ++ [x] ++ t) = s ++ [x] := by
    intro s t x hx ht
    rw [dropEndWhile_append ht, dropEndWhile_eq_rdropWhile]
    exact List.rdropWhile_concat_neg isBlank s x (by simp [hx])
  have hleft := hdrop line gaps c hc fun x hx => isBlank_of_isGap (hgaps x hx)
  have hright := hdrop (lead ++ ("@requires".toList ++ (blanks ++ front))) after d
    (by simpa using hd) hafter
  simp only [List.append_assoc] at hleft hright hsplit
  rw [hsplit, hright] at hleft
  have hends := congrArg List.getLast? hleft
  simp only [← List.append_assoc, List.getLast?_concat] at hends
  exact hnames _ hname (hlast.trans hends)

/-- A symbol that requires a version and an operating system. -/
def finishedSymbol : Symbol :=
  ⟨"/**\n * @requires PHP ^7.4\n * @requires OS Linux\n */", "", 20, 25, .null, .null, [],
    false, none⟩

/-- The comment of this symbol with gaps at the ends of its lines. -/
def gappedComment : String :=
  "/** \n * @requires PHP ^7.4\t \n * @requires OS Linux \n */"

theorem ofSymbol_addsGaps_finished :
    AddsGaps (lines finishedSymbol.docComment.toList) (lines gappedComment.toList)
    ∧ FinishesLines (lines finishedSymbol.docComment.toList) (lines gappedComment.toList)
    ∧ gappedComment ≠ finishedSymbol.docComment
    ∧ ofSymbol { finishedSymbol with docComment := gappedComment } = ofSymbol finishedSymbol := by
  have hlines : lines finishedSymbol.docComment.toList
      = ["/*".toList ++ ['*'], " * @requires PHP ^7.".toList ++ ['4'],
        " * @requires OS Linu".toList ++ ['x'], " *".toList ++ ['/']] := by
    decide +kernel
  have hlines' : lines gappedComment.toList
      = ["/*".toList ++ ['*'] ++ [' '], " * @requires PHP ^7.".toList ++ ['4'] ++ ['\t', ' '],
        " * @requires OS Linu".toList ++ ['x'] ++ [' '], " *".toList ++ ['/'] ++ []] := by
    decide +kernel
  have hgaps : AddsGaps (lines finishedSymbol.docComment.toList) (lines gappedComment.toList) := by
    rw [hlines, hlines']
    exact .cons ⟨[' '], by decide, rfl⟩ (.cons ⟨['\t', ' '], by decide, rfl⟩
      (.cons ⟨[' '], by decide, rfl⟩ (.cons ⟨[], by decide, rfl⟩ .nil)))
  have hfinished : FinishesLines (lines finishedSymbol.docComment.toList)
      (lines gappedComment.toList) := by
    rw [hlines, hlines', FinishesLines]
    simp only [List.zip_cons_cons, List.zip_nil_right, List.forall_mem_cons]
    exact ⟨.inr (not_isUnfinished_concat (by decide) (by decide) (by decide)),
      .inr (not_isUnfinished_concat (by decide) (by decide) (by decide)),
      .inr (not_isUnfinished_concat (by decide) (by decide) (by decide)),
      .inl (List.append_nil _), List.forall_mem_nil _⟩
  exact ⟨hgaps, hfinished, by decide, ofSymbol_addsGaps hgaps hfinished⟩

/-- A symbol whose comment ends a line with the name of the platform. -/
def unfinishedSymbol : Symbol :=
  ⟨"/**\n * @requires PHP\n */", "", 20, 25, .null, .null, [], false, none⟩

/-- Two spaces behind the name of the platform are a constraint that is none. -/
theorem not_forall_ofSymbol_addsGaps :
    ¬ ∀ (s : Symbol) (comment : String),
      AddsGaps (lines s.docComment.toList) (lines comment.toList) →
      (ofSymbol { s with docComment := comment }).result = (ofSymbol s).result := by
  intro h
  have hlines : lines unfinishedSymbol.docComment.toList
      = ["/**".toList, " * @requires PHP".toList, " */".toList] := by
    decide +kernel
  have hlines' : lines "/**\n * @requires PHP  \n */".toList
      = ["/**".toList ++ [], " * @requires PHP".toList ++ [' ', ' '], " */".toList ++ []] := by
    decide +kernel
  have hgaps : AddsGaps (lines unfinishedSymbol.docComment.toList)
      (lines "/**\n * @requires PHP  \n */".toList) := by
    rw [hlines, hlines']
    exact .cons ⟨[], by decide, rfl⟩ (.cons ⟨[' ', ' '], by decide, rfl⟩
      (.cons ⟨[], by decide, rfl⟩ .nil))
  have hrun := h unfinishedSymbol _ hgaps
  have hplain : ofComment 20 unfinishedSymbol.docComment.toList = .ok {} := by decide +kernel
  have hgapped : ofComment 20 "/**\n * @requires PHP  \n */".toList
      = .error ⟨.php, "", 18, Constraint.Fault.noText.message⟩ := by
    decide +kernel
  have hstart : unfinishedSymbol.startLine = 20 := rfl
  rw [ofSymbol, ofSymbol, hstart, hplain, hgapped] at hrun
  cases hrun

end Requirements

end DocTags
