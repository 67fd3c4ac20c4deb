import DocTags.Proofs.Query.LineEnds
import DocTags.Proofs.Requirements.ScannedExpressions
import DocTags.Proofs.Tag.CommentLines
import DocTags.Proofs.Tag.Mentions
import Mathlib.Algebra.Order.BigOperators.Group.List
import Mathlib.Algebra.Order.Group.Nat

/-!
# Prose with at signs

Taking the at signs out of some lines of a comment changes nothing that is read off its symbol as
long as none of these lines mentions a tag. A line that does is read as the tag, also if the tag
stands in a sentence or in a quoted text: its general tag is in the table, and without the signs it
is not.
-/

namespace DocTags

open Pattern Text LiteralRows Dialect

/-- A line of a comment, and whether its at signs are to be taken out. -/
structure CommentLine where
  text : List Char
  isChosen : Bool
  not_mem_feed : '\n' ∉ text
  not_mem_return : '\r' ∉ text

namespace CommentLine

/-- What is left of the line. -/
def left (l : CommentLine) : List Char :=
  if l.isChosen then l.text.filter (· != '@') else l.text

/-- The first character of the line that is no blank is no at sign. -/
def isProse (l : CommentLine) : Bool :=
  (l.text.dropWhile isBlank).head?.all (· != '@')

variable (l : CommentLine)

theorem left_sublist : l.left.Sublist l.text := by
  rw [left]
  split
  · exact List.filter_sublist
  · exact List.Sublist.refl _

theorem not_mem_feed_left : '\n' ∉ l.left :=
  fun h => l.not_mem_feed (l.left_sublist.mem h)

theorem not_mem_return_left : '\r' ∉ l.left :=
  fun h => l.not_mem_return (l.left_sublist.mem h)

theorem tag?_left (h : l.isChosen = true) (d : Dialect) : d.tag? l.left = none := by
  rw [left, if_pos h]
  exact d.tag?_eq_none (by simp)

theorem left_of_not (h : l.isChosen = false) : l.left = l.text := by
  rw [left, h, if_neg Bool.false_ne_true]

end CommentLine

/-- Nothing that is read off the two symbols differs. -/
structure SameReadings (s t : Symbol) : Prop where
  requirements : Requirements.ofSymbol s = Requirements.ofSymbol t
  expected : ∀ constants, ExpectedException.ofSymbol s constants
    = ExpectedException.ofSymbol t constants
  ownTags : TagTable.ofComment s.docComment = TagTable.ofComment t.docComment
  tags : TagTable.ofSymbol s = TagTable.ofSymbol t
  references : ProvidedData.references s.docComment.toList
    = ProvidedData.references t.docComment.toList

namespace Requirements

/-- Lines with the same tags require the same. -/
theorem addLines_congr {ι : Type} {f g : ι → List Char} {items : List ι}
    (h : ∀ i ∈ items, ∀ d : Dialect, d.tag? (f i) = d.tag? (g i)) (r : Requirements) (n : Int) :
    r.addLines n (items.map f) = r.addLines n (items.map g) := by
  induction items generalizing r n with
  | nil => rfl
  | cons i items ih =>
      rw [List.forall_mem_cons] at h
      have hline : r.addLine n (f i) = r.addLine n (g i) := by simp only [addLine, withTag, h.1]
      rw [List.map_cons, List.map_cons, addLines, addLines, hline]
      simp only [ih h.2]

/-- A comment requires what its lines do. -/
theorem ofComment_lineBlock {ls : List (List Char)}
    (h : ∀ line ∈ ls, '\n' ∉ line ∧ '\r' ∉ line) (start : Int) :
    ofComment start (lineBlock ls) = addLines {} (start - ls.length - 1) ls := by
  have hstart : start - ((lines (lineBlock ls)).length : Int) = start - ls.length - 2 := by
    rw [lines_lineBlock h, List.length_cons, List.length_append, List.length_map,
      List.length_singleton]
    omega
  have hnext : start - (ls.length : Int) - 2 + 1 = start - ls.length - 1 := by omega
  have hclosing : ∀ (r : Requirements) n, r.addLines n [" */".toList] = .ok r :=
    fun r n => addLines_of_forall r n (by decide)
  calc ofComment start (lineBlock ls)
    _ = addLines {} (start - ls.length - 2) (lines (lineBlock ls)) :=
        congrArg (addLines {} · _) hstart
    _ = addLines {} (start - ls.length - 1)
          (ls.map (" * ".toList ++ ·) ++ [" */".toList]) := by
        rw [lines_lineBlock h, addLines, addLine_of_not_mem _ _ (by decide), ← hnext]
        rfl
    _ = addLines {} (start - ls.length - 1) (ls.map (" * ".toList ++ ·)) := by
        rw [addLines_append]
        simp only [hclosing]
        cases addLines {} (start - ls.length - 1) (ls.map (" * ".toList ++ ·)) <;> rfl
    _ = addLines {} (start - ls.length - 1) (ls.map id) :=
        addLines_congr (fun line _ d => d.tag?_append_of_not_mem (by decide) line) _ _
    _ = addLines {} (start - ls.length - 1) ls := by rw [List.map_id]

end Requirements

namespace CommentLine

variable {l : CommentLine} {body : List CommentLine}

/-- What is read off a line is read off what is left of it, as long as no tag is mentioned. -/
theorem eq_of_left {α : Type} {g : List Char → α} {a : α} (d : Dialect)
    (hg : ∀ line, d.tag? line = none → g line = a)
    (h : l.isChosen = true → d.tag? l.text = none) : g l.left = g l.text := by
  cases hchosen : l.isChosen with
  | true => rw [hg _ (l.tag?_left hchosen d), hg _ (h hchosen)]
  | false => rw [l.left_of_not hchosen]

theorem found_left (d : Dialect) (h : l.isChosen = true → d.tag? l.text = none) :
    d.pattern.found l.left = d.pattern.found l.text := by
  refine eq_of_left (a := none) d (fun line hline => ?_) h
  rw [found, Option.map_eq_none_iff.mp hline, Option.map_none]

theorem references_eq_nil_iff {line : List Char} :
    ProvidedData.references line = [] ↔ dataProvider.tag? line = none := by
  rw [ProvidedData.references, List.map_eq_nil_iff, findAll, tag?, Option.map_eq_none_iff, pattern]
  cases dataProviderPattern.search? line with
  | none => exact iff_of_true rfl rfl
  | some m =>
      refine iff_of_false (fun h => ?_) (Option.some_ne_none _)
      dsimp only at h
      split at h <;> cases h

theorem tagOn?_left (h : l.isChosen = true → generic.tag? l.text = none) :
    TagTable.tagOn? l.left = TagTable.tagOn? l.text := by
  rw [TagTable.tagOn?_eq_map_found, TagTable.tagOn?_eq_map_found]
  exact congrArg _ (found_left generic h)

variable (s : Symbol)

theorem tagsIn_commented {read : CommentLine → List Char} (h : ∀ l, '\n' ∉ read l)
    (body : List CommentLine) : TagTable.tagsIn (s.commented (body.map read)).docComment
      = body.filterMap fun l => TagTable.tagOn? (read l) := by
  rw [TagTable.tagsIn_lineBlock (s.toList_docComment_commented _)
    (List.forall_mem_map.mpr fun l _ => h l), List.filterMap_map]
  rfl

theorem tagsIn_left (h : ∀ l ∈ body, l.isChosen = true → generic.tag? l.text = none) :
    TagTable.tagsIn (s.commented (body.map left)).docComment
      = TagTable.tagsIn (s.commented (body.map text)).docComment := by
  rw [tagsIn_commented s not_mem_feed_left, tagsIn_commented s not_mem_feed]
  exact List.filterMap_congr fun l hl => tagOn?_left (h l hl)

theorem ownTags_left (h : ∀ l ∈ body, l.isChosen = true → generic.tag? l.text = none) :
    TagTable.ofComment (s.commented (body.map left)).docComment
      = TagTable.ofComment (s.commented (body.map text)).docComment := by
  rw [TagTable.ofComment_eq_foldl, TagTable.ofComment_eq_foldl, tagsIn_left s h]

theorem tags_left (h : ∀ l ∈ body, l.isChosen = true → generic.tag? l.text = none) :
    TagTable.ofSymbol (s.commented (body.map left))
      = TagTable.ofSymbol (s.commented (body.map text)) := by
  rw [TagTable.ofSymbol, TagTable.ofSymbol, TagTable.sources, TagTable.sources, List.map_append,
    List.map_append, List.map_singleton, List.map_singleton, ownTags_left s h]
  rfl

/-- The references of a comment are those of its lines. -/
theorem references_commented (ls : List (List Char)) :
    ProvidedData.references (s.commented ls).docComment.toList
      = ls.flatMap ProvidedData.references := by
  rw [ProvidedData.references_eq_map_foundAll, s.toList_docComment_commented,
    foundAll_dataProvider_lineBlock, List.map_flatMap]
  exact List.flatMap_congr fun line _ => (ProvidedData.references_eq_map_foundAll line).symm

theorem references_left (h : ∀ l ∈ body, l.isChosen = true → dataProvider.tag? l.text = none) :
    ProvidedData.references (s.commented (body.map left)).docComment.toList
      = ProvidedData.references (s.commented (body.map text)).docComment.toList := by
  rw [references_commented, references_commented, List.flatMap_map, List.flatMap_map]
  refine List.flatMap_congr fun l hl => ?_
  exact eq_of_left dataProvider (fun _ => references_eq_nil_iff.mpr) (h l hl)

theorem found_expectedException_left
    (h : ∀ l ∈ body, l.isChosen = true → expectedException.tag? l.text = none) :
    expectedExceptionPattern.found
        (stripDelimiters (s.commented (body.map left)).docComment.toList)
      = expectedExceptionPattern.found
        (stripDelimiters (s.commented (body.map text)).docComment.toList) := by
  rw [s.toList_docComment_commented, s.toList_docComment_commented,
    found_expectedException_lineBlock (List.forall_mem_map.mpr fun l _ => l.not_mem_feed_left),
    found_expectedException_lineBlock (List.forall_mem_map.mpr fun l _ => l.not_mem_feed),
    ← List.head?_filterMap, ← List.head?_filterMap, List.filterMap_map, List.filterMap_map]
  refine congrArg List.head? (List.filterMap_congr fun l hl => ?_)
  exact found_left expectedException (h l hl)

theorem ofComment_left (h : ∀ l ∈ body, l.isChosen = true → ∀ d : Dialect, d.tag? l.text = none)
    (start : Int) : Requirements.ofComment start (lineBlock (body.map left))
      = Requirements.ofComment start (lineBlock (body.map text)) := by
  have hleft : ∀ line ∈ body.map left, '\n' ∉ line ∧ '\r' ∉ line :=
    List.forall_mem_map.mpr fun l _ => ⟨l.not_mem_feed_left, l.not_mem_return_left⟩
  have htext : ∀ line ∈ body.map text, '\n' ∉ line ∧ '\r' ∉ line :=
    List.forall_mem_map.mpr fun l _ => ⟨l.not_mem_feed, l.not_mem_return⟩
  rw [Requirements.ofComment_lineBlock hleft, Requirements.ofComment_lineBlock htext,
    List.length_map, List.length_map]
  refine Requirements.addLines_congr (fun l hl d => ?_) _ _
  exact eq_of_left d (fun _ => id) fun hchosen => h l hl hchosen d

theorem requirements_left
    (h : ∀ l ∈ body, l.isChosen = true → ∀ d : Dialect, d.tag? l.text = none) :
    Requirements.ofSymbol (s.commented (body.map left))
      = Requirements.ofSymbol (s.commented (body.map text)) := by
  have hline : ∀ ls, (s.commented ls).startLine = s.startLine := fun _ => rfl
  have hfile : ∀ ls, Requirements.fileOf (s.commented ls) = Requirements.fileOf s := fun _ => rfl
  have hname : ∀ ls, (s.commented ls).qualifiedName = s.qualifiedName := fun _ => rfl
  simp only [Requirements.ofSymbol, hline, hfile, hname, s.toList_docComment_commented,
    ofComment_left h]

/-- Lines that mention no tag are read the same without their at signs. -/
theorem sameReadings_left
    (h : ∀ l ∈ body, l.isChosen = true → mentionsTag isBlank l.text = false) :
    SameReadings (s.commented (body.map left)) (s.commented (body.map text)) := by
  have hnone : ∀ l ∈ body, l.isChosen = true → ∀ d : Dialect, d.tag? l.text = none :=
    fun l hl hchosen => tag?_eq_none_of_mentionsTag l.not_mem_feed l.not_mem_return (h l hl hchosen)
  have hown := ownTags_left s fun l hl hchosen => hnone l hl hchosen generic
  have htags := tags_left s fun l hl hchosen => hnone l hl hchosen generic
  have hfound := found_expectedException_left s
    fun l hl hchosen => hnone l hl hchosen expectedException
  have hname : (s.commented (body.map left)).qualifiedName
      = (s.commented (body.map text)).qualifiedName := rfl
  exact
    { requirements := requirements_left s hnone
      expected := ExpectedException.ofSymbol_congr hname hown htags hfound
      ownTags := hown
      tags := htags
      references := references_left s fun l hl hchosen => hnone l hl hchosen dataProvider }

section Lost

variable {α : Type} {g : List Char → List α} {p : α → Bool}

/-- What the chosen lines lose is missing from the whole. -/
theorem countP_eq_zero_of_left (hg : ∀ l ∈ body, l.isChosen = true → g l.left = [])
    (h : (body.flatMap fun l => g l.left).countP p = (body.flatMap fun l => g l.text).countP p) :
    ∀ l ∈ body, l.isChosen = true → (g l.text).countP p = 0 := by
  intro l hl hchosen
  by_contra hne
  have hle : ∀ l ∈ body, (g l.left).countP p ≤ (g l.text).countP p := by
    intro l hl
    cases hchosen : l.isChosen with
    | true => simp [hg l hl hchosen]
    | false => rw [l.left_of_not hchosen]
  have hlt : ∃ l ∈ body, (g l.left).countP p < (g l.text).countP p := by
    refine ⟨l, hl, ?_⟩
    rw [hg l hl hchosen, List.countP_nil]
    exact Nat.pos_of_ne_zero hne
  rw [List.countP_flatMap, List.countP_flatMap] at h
  exact absurd h (List.sum_lt_sum _ _ hle hlt).ne

end Lost

theorem tagOn?_eq_none_iff {line : List Char} :
    TagTable.tagOn? line = none ↔ generic.tag? line = none :=
  Option.map_eq_none_iff

/-- The table keeps all its tags only if no chosen line has one. -/
theorem generic_of_tags_left (h : TagTable.ofSymbol (s.commented (body.map left))
      = TagTable.ofSymbol (s.commented (body.map text))) :
    ∀ l ∈ body, l.isChosen = true → generic.tag? l.text = none := by
  intro l hl hchosen
  by_contra hsome
  obtain ⟨⟨name, value⟩, htag⟩ := Option.ne_none_iff_exists'.mp (mt tagOn?_eq_none_iff.mp hsome)
  have hvalues := congrArg (TagTable.values · name) h
  simp only [TagTable.values_ofSymbol_eq, TagTable.tagsOf, TagTable.valuesOf_append] at hvalues
  have hown := congrArg List.length (List.append_cancel_left hvalues)
  rw [TagTable.valuesOf, TagTable.valuesOf, List.length_map, List.length_map,
    ← List.countP_eq_length_filter, ← List.countP_eq_length_filter,
    tagsIn_commented s not_mem_feed_left, tagsIn_commented s not_mem_feed,
    List.filterMap_eq_flatMap_toList, List.filterMap_eq_flatMap_toList] at hown
  have hleft : ∀ l ∈ body, l.isChosen = true → (TagTable.tagOn? l.left).toList = [] := by
    intro l _ hchosen
    rw [tagOn?_eq_none_iff.mpr (l.tag?_left hchosen generic), Option.toList_none]
  have hzero := countP_eq_zero_of_left (g := fun line => (TagTable.tagOn? line).toList) hleft hown
    l hl hchosen
  rw [htag] at hzero
  simp at hzero

/-- The references stay the same only if no chosen line has one. -/
theorem dataProvider_of_references_left
    (h : ProvidedData.references (s.commented (body.map left)).docComment.toList
      = ProvidedData.references (s.commented (body.map text)).docComment.toList) :
    ∀ l ∈ body, l.isChosen = true → dataProvider.tag? l.text = none := by
  intro l hl hchosen
  have hlength := congrArg (List.countP fun _ => true) h
  rw [references_commented, references_commented, List.flatMap_map, List.flatMap_map] at hlength
  have hleft : ∀ l ∈ body, l.isChosen = true → ProvidedData.references l.left = [] :=
    fun l _ hchosen => references_eq_nil_iff.mpr (l.tag?_left hchosen dataProvider)
  have hzero := countP_eq_zero_of_left hleft hlength l hl hchosen
  rw [List.countP_true, List.length_eq_zero_iff] at hzero
  exact references_eq_nil_iff.mp hzero

/-- What is read off a symbol stays the same without the at signs of some lines of its comment if
none of these lines mentions a tag. Otherwise the tag is lost: the table stays the same exactly if
none of them has an at sign and a name at its end or in front of a gap, and the references to
providers exactly if none of them has one. -/
theorem readings_left (s : Symbol) (body : List CommentLine) :
    ((∀ l ∈ body, l.isChosen = true → mentionsTag isBlank l.text = false) →
      SameReadings (s.commented (body.map left)) (s.commented (body.map text)))
    ∧ (TagTable.ofSymbol (s.commented (body.map left))
        = TagTable.ofSymbol (s.commented (body.map text))
      ↔ ∀ l ∈ body, l.isChosen = true → mentionsTag isGap l.text = false)
    ∧ (ProvidedData.references (s.commented (body.map left)).docComment.toList
        = ProvidedData.references (s.commented (body.map text)).docComment.toList
      ↔ ∀ l ∈ body, l.isChosen = true → dataProvider.tag? l.text = none) := by
  have hgeneric : (∀ l ∈ body, l.isChosen = true → generic.tag? l.text = none)
      ↔ ∀ l ∈ body, l.isChosen = true → mentionsTag isGap l.text = false := by
    refine forall₃_congr fun l _ _ => ?_
    rw [← isSome_tag?_generic l.not_mem_feed l.not_mem_return, Option.isSome_eq_false_iff,
      Option.isNone_iff_eq_none]
  exact ⟨sameReadings_left s, ⟨fun h => hgeneric.mp (generic_of_tags_left s h),
    fun h => tags_left s (hgeneric.mpr h)⟩, dataProvider_of_references_left s, references_left s⟩

/-- A sentence with an address and a quoted word. -/
def address : CommentLine where
  text := "Write to help@shop.example, not to \"@requires\".".toList
  isChosen := true
  not_mem_feed := by decide
  not_mem_return := by decide

/-- A sentence that mentions a requirement. -/
def mention : CommentLine where
  text := "See @requires PHP 7.4".toList
  isChosen := true
  not_mem_feed := by decide
  not_mem_return := by decide

/-- The address can lose its signs, and what the other sentence mentions is required. -/
theorem readings_left_address : ∃ s : Symbol,
    SameReadings (s.commented ([address, { mention with isChosen := false }].map left))
      (s.commented ([address, { mention with isChosen := false }].map text))
    ∧ TagTable.ofSymbol (s.commented ([address, { mention with isChosen := false }].map left))
      = [("requires", ["PHP 7.4"])] := by
  let s : Symbol := ⟨"", "", 20, 25, .null, .null, [], false, none⟩
  have hsame := (readings_left s [address, { mention with isChosen := false }]).1
    (by decide +kernel)
  exact ⟨s, hsame, by decide +kernel⟩

/-- A sentence that mentions a requirement requires something. -/
theorem not_forall_sameReadings_left :
    ¬ ∀ (s : Symbol) (body : List CommentLine),
      (∀ l ∈ body, l.isChosen = true → l.isProse = true) →
      SameReadings (s.commented (body.map left)) (s.commented (body.map text)) := by
  intro h
  let s : Symbol := ⟨"", "", 20, 25, .null, .null, [], false, none⟩
  have hprose : ∀ l ∈ [mention], l.isChosen = true → l.isProse = true := by decide
  have hsame := (h s [mention] hprose).requirements
  have hleft : Requirements.ofComment 20 (s.commented ([mention].map left)).docComment.toList
      = .ok {} := by decide +kernel
  have htext : Requirements.ofComment 20 (s.commented ([mention].map text)).docComment.toList
      = .ok
        { versions := [(.php, .version ⟨"7.4", ""⟩)], lineOffsets := [(.platform .php, 18)] } := by
    decide +kernel
  have hfile : ∀ ls, Requirements.fileOf (s.commented ls) = .ok "" := fun _ => rfl
  have hline : ∀ ls, (s.commented ls).startLine = 20 := fun _ => rfl
  rw [Requirements.ofSymbol, Requirements.ofSymbol, hline, hline, hleft, htext] at hsame
  have hresult := congrArg Run.result hsame
  simp [hfile, Except.bind] at hresult

end CommentLine

end DocTags
