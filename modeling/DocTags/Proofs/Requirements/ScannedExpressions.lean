import DocTags.Proofs.Requirements.PlatformLine
import DocTags.Proofs.Version.ExpressionCharacters
import DocTags.Requirements

/-!
# Requirements and the expressions that are scanned

A comment whose only tag requires the platform records a requirement exactly if one of the two scans
accepts what is required. An expression that is a constraint and passes neither scan is dropped.
-/

namespace DocTags

open Text Dialect

/-- What is required can be scanned: as a version with an operator or as a constraint. -/
def IsScanned (e : List Char) : Prop :=
  IsOperatorForm e ∨ IsConstraintForm e

namespace Requirements

variable {lead e : List Char} {before after : List (List Char)} {c : Constraint} {s : Symbol}

/-- A line without an at sign requires nothing. -/
theorem addLine_of_not_mem (r : Requirements) (n : Int) {line : List Char} (h : '@' ∉ line) :
    r.addLine n line = .ok r := by
  simp only [addLine, withTag, tag?_eq_none _ h]
  rfl

theorem addLines_of_forall (r : Requirements) (n : Int) {ls : List (List Char)}
    (h : ∀ line ∈ ls, '@' ∉ line) : r.addLines n ls = .ok r := by
  induction ls generalizing n with
  | nil => rfl
  | cons line ls ih =>
      rw [List.forall_mem_cons] at h
      rw [addLines, addLine_of_not_mem r n h.1]
      exact ih (n + 1) h.2

theorem addLines_append (r : Requirements) (n : Int) (a b : List (List Char)) :
    r.addLines n (a ++ b) = (r.addLines n a).bind fun r => r.addLines (n + a.length) b := by
  induction a generalizing r n with
  | nil => simp [addLines, Except.bind]
  | cons line a ih =>
      rw [List.cons_append, addLines, addLines]
      cases r.addLine n line with
      | error e => rfl
      | ok r =>
          have hn : n + 1 + (a.length : Int) = n + (line :: a).length := by
            rw [List.length_cons]
            omega
          exact (ih r (n + 1)).trans (by rw [hn]; rfl)

/-- The constraint of a tag is read like the whole of what is required. -/
theorem read_trim_dropWhile (e : List Char) :
    Constraint.read (String.ofList (trim (e.dropWhile isBlank)))
      = Constraint.read (String.ofList e) := by
  rw [Constraint.read, Constraint.read, String.toList_ofList, String.toList_ofList, trim_dropWhile,
    trim_trim]

/-- An expression that is a constraint does not consist of blanks. -/
theorem exists_not_isBlank_of_read (h : Constraint.read (String.ofList e) = .ok c) :
    ∃ x ∈ e, isBlank x = false := by
  by_contra hn
  have hblank : ∀ x ∈ e, isBlank x = true := by simpa using hn
  have htrim : trim e = [] := by
    rw [trim, trimWhere, List.dropWhile_eq_nil_iff.mpr hblank]
    rfl
  rw [Constraint.read, String.toList_ofList, htrim] at h
  exact absurd h (by simp)

/-- The first version tag of the platform is taken. -/
theorem addVersion_empty {tag : Tag} (hname : tag.getD .name = "PHP") (n : Int) :
    ({} : Requirements).addVersion n tag
      = addPlatform {} n .php (.version ⟨tag.getD .version, tag.getD .operator⟩) := by
  rw [addVersion, hname]
  rfl

/-- A constraint tag of the platform is taken if nothing is required of the platform before. -/
theorem addConstraint_empty {tag : Tag} (hname : tag.getD .name = "PHP")
    (hread : Constraint.read (expressionOf tag) = .ok c) (n : Int) :
    ({} : Requirements).addConstraint n tag = .ok (addPlatform {} n .php (.constraint c)) := by
  rw [addConstraint, hname, hread]
  rfl

/-- A constraint tag of the platform is not taken after a requirement. -/
theorem addConstraint_addPlatform {tag : Tag} (hname : tag.getD .name = "PHP") (n : Int)
    (required : PlatformRequirement) :
    (addPlatform {} n .php required).addConstraint n tag
      = .ok (addPlatform {} n .php required) := by
  rw [addConstraint, hname]
  exact if_pos rfl

/-- On a line that requires the platform only the two scans of versions find a tag. -/
theorem addLine_eq_of_not_mem (hlead : '@' ∉ lead) (hmark : '@' ∉ e) (r : Requirements) (n : Int) :
    r.addLine n (lead ++ platformText e)
      = match versionConstraint.tag? (lead ++ platformText e) with
        | none => .ok (withTag version (lead ++ platformText e) (·.addVersion n) r)
        | some tag =>
          (withTag version (lead ++ platformText e) (·.addVersion n) r).addConstraint n tag := by
  have hother : ∀ d ∈ [.os, .setting, .prerequisite],
      Dialect.tag? d (lead ++ platformText e) = none :=
    fun d hd => tag?_eq_none_of_mem hlead hmark hd
  simp only [List.forall_mem_cons] at hother
  obtain ⟨hos, hsetting, hprerequisite, -⟩ := hother
  have hnone : ∀ {d : Dialect} (f : Requirements → Tag → Requirements) (r : Requirements),
      d.tag? (lead ++ platformText e) = none →
        withTag d (lead ++ platformText e) f r = r := by
    intro d f r h
    rw [withTag, h]
  simp only [addLine, hnone _ _ hos, hnone _ _ hsetting, hnone _ _ hprerequisite]
  cases versionConstraint.tag? (lead ++ platformText e) with
  | none => rfl
  | some tag => exact bind_pure _

section PlatformLine

variable (hlead : '@' ∉ lead) (hmark : '@' ∉ e) (hfeed : '\n' ∉ e) (hreturn : '\r' ∉ e)
  (hread : Constraint.read (String.ofList e) = .ok c) (n : Int)

include hlead hmark hfeed hreturn hread in
/-- What has the form of a version with an operator is recorded as one, also where it has the form
of a constraint too. -/
theorem exists_addLine_of_isOperatorForm (hoperator : IsOperatorForm e) :
    ∃ required, ({} : Requirements).addLine n (lead ++ platformText e)
      = .ok (addPlatform {} n .php required) := by
  obtain ⟨tag, htag, hname⟩ := (tag?_version hlead hmark hfeed hreturn).1 hoperator
  obtain ⟨hconstraint, hnoConstraint⟩ := tag?_versionConstraint hlead hmark hfeed hreturn
  refine ⟨.version ⟨tag.getD .version, tag.getD .operator⟩, ?_⟩
  rw [addLine_eq_of_not_mem hlead hmark, withTag, htag]
  simp only [addVersion_empty hname]
  by_cases hform : IsConstraintForm e
  · obtain ⟨tag', htag', hname', -⟩ := hconstraint hform (exists_not_isBlank_of_read hread)
    rw [htag']
    exact addConstraint_addPlatform hname' n _
  · rw [hnoConstraint hform]

include hlead hmark hfeed hreturn hread in
/-- What has the form of a constraint only is recorded as the constraint that it reads as. -/
theorem addLine_of_isConstraintForm (hoperator : ¬ IsOperatorForm e) (hform : IsConstraintForm e) :
    ({} : Requirements).addLine n (lead ++ platformText e)
      = .ok (addPlatform {} n .php (.constraint c)) := by
  obtain ⟨tag, htag, hname, hheld⟩ := (tag?_versionConstraint hlead hmark hfeed hreturn).1 hform
    (exists_not_isBlank_of_read hread)
  have hexpression : Constraint.read (expressionOf tag) = .ok c := by
    rw [expressionOf, hheld, String.toList_ofList, read_trim_dropWhile, hread]
  rw [addLine_eq_of_not_mem hlead hmark, withTag,
    (tag?_version hlead hmark hfeed hreturn).2 hoperator, htag]
  exact addConstraint_empty hname hexpression n

include hlead hmark hfeed hreturn in
/-- What passes neither scan is not recorded. -/
theorem addLine_of_not_isScanned (h : ¬ IsScanned e) :
    ({} : Requirements).addLine n (lead ++ platformText e) = .ok {} := by
  obtain ⟨hoperator, hform⟩ := not_or.mp h
  rw [addLine_eq_of_not_mem hlead hmark, withTag,
    (tag?_version hlead hmark hfeed hreturn).2 hoperator,
    (tag?_versionConstraint hlead hmark hfeed hreturn).2 hform]

end PlatformLine

/-- A comment with at signs on one line only requires what this line does. -/
theorem ofComment_of_line {comment line : List Char}
    (hlines : lines comment = before ++ line :: after)
    (hbefore : ∀ line ∈ before, '@' ∉ line) (hafter : ∀ line ∈ after, '@' ∉ line)
    (startLine : Int) :
    ofComment startLine comment
      = ({} : Requirements).addLine (startLine - after.length - 1) line := by
  have hn : startLine - ((lines comment).length : Int) + before.length
      = startLine - after.length - 1 := by
    rw [hlines, List.length_append, List.length_cons]
    omega
  calc ofComment startLine comment
    _ = addLines {} (startLine - (lines comment).length) (before ++ line :: after) := by
        rw [← hlines]
        rfl
    _ = addLines {} (startLine - (lines comment).length + before.length) (line :: after) := by
        rw [addLines_append, addLines_of_forall _ _ hbefore]
        rfl
    _ = ({} : Requirements).addLine (startLine - after.length - 1) line := by
        rw [hn, addLines]
        simp only [addLines_of_forall _ _ hafter]
        exact bind_pure _

/-- A comment with one line that requires the platform, and no other tag, requires what is scanned
on that line. -/
theorem ofComment_platformText {comment : List Char}
    (hlines : lines comment = before ++ (lead ++ platformText e) :: after)
    (hbefore : ∀ line ∈ before, '@' ∉ line) (hafter : ∀ line ∈ after, '@' ∉ line)
    (hlead : '@' ∉ lead) (hread : Constraint.read (String.ofList e) = .ok c) (startLine : Int) :
    (IsScanned e → ∃ required, ofComment startLine comment
      = .ok (addPlatform {} (startLine - after.length - 1) .php required))
    ∧ (¬ IsScanned e → ofComment startLine comment = .ok {}) := by
  have hmark : '@' ∉ e := by simpa using Constraint.not_mem_of_read hread
  have hline : lead ++ platformText e ∈ lines comment := by
    rw [hlines]
    exact List.mem_append_right before List.mem_cons_self
  have hsuffix : e <:+ lead ++ platformText e :=
    (List.suffix_append _ e).trans (List.suffix_append lead _)
  have hfeed : '\n' ∉ e := fun h => (not_mem_of_mem_lines hline).1 (hsuffix.mem h)
  have hreturn : '\r' ∉ e := fun h => (not_mem_of_mem_lines hline).2 (hsuffix.mem h)
  rw [ofComment_of_line hlines hbefore hafter]
  constructor
  · intro h
    by_cases hoperator : IsOperatorForm e
    · exact exists_addLine_of_isOperatorForm hlead hmark hfeed hreturn hread _ hoperator
    · have hform : IsConstraintForm e := h.resolve_left hoperator
      exact ⟨_, addLine_of_isConstraintForm hlead hmark hfeed hreturn hread _ hoperator hform⟩
  · exact addLine_of_not_isScanned hlead hmark hfeed hreturn _

/-- A symbol with one line that requires the platform, and no other tag, requires what is scanned on
that line. An expression that passes neither scan is dropped without a warning. -/
theorem ofSymbol_platformText
    (hlines : lines s.docComment.toList = before ++ (lead ++ platformText e) :: after)
    (hbefore : ∀ line ∈ before, '@' ∉ line) (hafter : ∀ line ∈ after, '@' ∉ line)
    (hlead : '@' ∉ lead) (hread : Constraint.read (String.ofList e) = .ok c) :
    (IsScanned e → ∃ required, (ofSymbol s).result
      = ((fileOf s).mapError .fault).map fun path =>
        { filePath := path, versions := [(.php, required)]
          lineOffsets := [(.platform .php, s.startLine - after.length - 1)] })
    ∧ (¬ IsScanned e → (ofSymbol s).result
      = ((fileOf s).mapError .fault).map fun path => { filePath := path }) := by
  obtain ⟨hscanned, hdropped⟩ :=
    ofComment_platformText hlines hbefore hafter hlead hread s.startLine
  constructor
  · intro h
    obtain ⟨required, hrequired⟩ := hscanned h
    refine ⟨required, ?_⟩
    rw [ofSymbol, hrequired]
    cases fileOf s <;> rfl
  · intro h
    rw [ofSymbol, hdropped h]
    cases fileOf s <;> rfl

/-- A symbol whose comment requires the platform. -/
def requiringSymbol (expression : String) : Symbol :=
  ⟨"/**\n * @requires PHP " ++ expression ++ "\n */", "", 20, 25, .null, .null, [], false, none⟩

/-- A caret in front of a version is scanned and recorded. -/
theorem ofSymbol_caret : IsScanned "^7.4".toList ∧ ∃ required,
    (ofSymbol (requiringSymbol "^7.4")).result
      = .ok { versions := [(.php, required)], lineOffsets := [(.platform .php, 18)] } := by
  have hscanned : IsScanned "^7.4".toList :=
    .inr ⟨[], "^7.4".toList, rfl, by simp, by decide, by decide⟩
  have hlines : lines (requiringSymbol "^7.4").docComment.toList
      = ["/**".toList] ++ (" * ".toList ++ platformText "^7.4".toList) :: [" */".toList] := by
    decide +kernel
  have hread : Constraint.read (String.ofList "^7.4".toList)
      = .ok ⟨"^7.4", [[⟨.ge, .ofRelease [7, 4]⟩, ⟨.lt, .ofRelease [8]⟩]]⟩ := by
    decide +kernel
  obtain ⟨required, hrun⟩ := (ofSymbol_platformText hlines (by decide +kernel) (by decide +kernel)
    (by decide +kernel) hread).1 hscanned
  exact ⟨hscanned, required, hrun⟩

/-- A range in two comparisons is a constraint, but it is dropped. -/
theorem not_forall_hasKey :
    ¬ ∀ (s : Symbol) (before after : List (List Char)) (lead e : List Char) (c : Constraint),
      lines s.docComment.toList = before ++ (lead ++ platformText e) :: after →
      (∀ line ∈ before, '@' ∉ line) → (∀ line ∈ after, '@' ∉ line) → '@' ∉ lead →
      Constraint.read (String.ofList e) = .ok c → (∃ range ∈ c.ranges, range ≠ []) →
      ∀ r, (ofSymbol s).result = .ok r → r.versions.hasKey .php = true := by
  intro h
  have hlines : lines (requiringSymbol ">=7.4 <8.0").docComment.toList
      = ["/**".toList] ++ (" * ".toList ++ platformText ">=7.4 <8.0".toList) :: [" */".toList] := by
    decide +kernel
  have hread : Constraint.read (String.ofList ">=7.4 <8.0".toList)
      = .ok ⟨">=7.4 <8.0", [[⟨.ge, .ofRelease [7, 4]⟩, ⟨.lt, .ofRelease [8, 0]⟩]]⟩ := by
    decide +kernel
  have hcomment : ofComment 20 (requiringSymbol ">=7.4 <8.0").docComment.toList = .ok {} := by
    decide +kernel
  have hrun : (ofSymbol (requiringSymbol ">=7.4 <8.0")).result = .ok {} := by
    have hstart : (requiringSymbol ">=7.4 <8.0").startLine = 20 := rfl
    rw [ofSymbol, hstart, hcomment]
    rfl
  have hkey := h _ _ _ _ _ _ hlines (by decide +kernel) (by decide +kernel) (by decide +kernel)
    hread ⟨_, List.mem_singleton_self _, by simp⟩ {} hrun
  exact absurd hkey (by decide)

end Requirements

end DocTags
