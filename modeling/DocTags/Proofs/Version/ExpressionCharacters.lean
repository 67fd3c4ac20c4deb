import DocTags.Proofs.Fallible
import DocTags.Proofs.Pattern.Captures
import DocTags.Proofs.Text.Lines
import DocTags.Version.Constraint

/-!
# What an accepted expression does not hold

An at sign stands in no version and in no term, and it is cut out nowhere. So no expression that is
accepted holds one.
-/

namespace DocTags

open Text Pattern

/-- A character that the version pattern avoids stands in no version. -/
theorem Version.not_mem_of_read {x : Char} (hx : pattern.avoids x = true) {s : List Char}
    (h : Version.read s ≠ .error .invalid) : x ∉ s := by
  cases hm : Version.pattern.matchWhole? s with
  | none => simp [Version.read, hm] at h
  | some m =>
      obtain ⟨a, ha, hnot⟩ := (canRead_of_matchWhole? hm).exists_not_mem hx
      rw [ha, List.append_nil]
      exact hnot

namespace Constraint

theorem not_mem_of_readVersion {s : List Char} {r : Version × Nat} (h : readVersion s = .ok r) :
    '@' ∉ s := by
  rw [readVersion] at h
  cases hv : Version.read s with
  | ok v => exact Version.not_mem_of_read (by decide) (by simp [hv])
  | error e => cases e <;> simp [hv] at h

theorem not_mem_of_readTerm {term : List Char} {r : VersionRange} (h : readTerm term = .ok r) :
    '@' ∉ term := by
  rw [readTerm] at h
  cases hm : termPattern.matchFront? term with
  | none => simp [hm] at h
  | some m =>
      obtain ⟨-, hreads⟩ := reads_of_matchFront? hm
      exact hreads.canRead.not_mem_of_endsText rfl (by decide) (by decide)

/-- What is read as a range: two texts without blanks that a hyphen joins, with blanks around the
hyphen and perhaps a line feed at the end. -/
theorem exists_parts_of_hyphenRange {s : List Char} {m : Match Part}
    (h : hyphenRange.matchFront? s = some m) :
    ∃ before after rest,
      s = m.groupD .lower ++ (before ++ '-' :: (after ++ (m.groupD .upper ++ rest)))
      ∧ (∀ c ∈ m.groupD .lower ++ m.groupD .upper, isBlank c = false)
      ∧ (before ≠ [] ∧ ∀ c ∈ before, isBlank c = true)
      ∧ (after ≠ [] ∧ ∀ c ∈ after, isBlank c = true) ∧ (rest = [] ∨ rest = ['\n']) := by
  obtain ⟨rfl, hreads⟩ := reads_of_matchFront? h
  obtain ⟨s₁, c, hlower, hrest₁, hc⟩ := (yields_group_seq rfl).mp hreads.yields
  obtain ⟨s₂, hgap, hrest₂⟩ := (yields_seq_of_names rfl).mp hrest₁
  obtain ⟨s₃, hhyphen, hrest₃⟩ := (yields_seq_of_names rfl).mp hrest₂
  obtain ⟨s₄, hgap', hrest₄⟩ := (yields_seq_of_names rfl).mp hrest₃
  obtain ⟨rest, c', hupper, hend, rfl⟩ := (yields_group_seq rfl).mp hrest₄
  obtain rfl := hend.eq_nil rfl
  obtain ⟨lower, -, hlow, hlowsolid⟩ := canRead_chars1.mp hlower
  obtain ⟨upper, -, hupp, huppsolid⟩ := canRead_chars1.mp hupper
  obtain ⟨before, hne, rfl, hbefore⟩ := canRead_chars1.mp hgap
  obtain ⟨after, hne', rfl, hafter⟩ := canRead_chars1.mp hgap'
  obtain ⟨x, hx, rfl⟩ := canRead_char.mp hhyphen
  obtain rfl : x = '-' := by simpa using hx
  have hgroups : m.groupD .lower = lower ∧ m.groupD .upper = upper := by
    simp [Match.groupD, Match.group?, hc, hlow, hupp]
  rw [hgroups.1, hgroups.2]
  refine ⟨before, after, rest, by rw [hlow, hupp], ?_, ⟨hne, hbefore⟩, ⟨hne', hafter⟩,
    (canRead_textEnd.mp hend.canRead).2⟩
  rw [List.forall_mem_append]
  simpa using And.intro hlowsolid huppsolid

/-- An at sign in a range of two versions stands in one of them. -/
theorem mem_or_mem_of_hyphenRange {s : List Char} {m : Match Part}
    (h : hyphenRange.matchFront? s = some m) (hs : '@' ∈ s) :
    '@' ∈ m.groupD .lower ∨ '@' ∈ m.groupD .upper := by
  obtain ⟨before, after, rest, hparts, -, hbefore, hafter, hrest⟩ := exists_parts_of_hyphenRange h
  have hgap {gap : List Char} (hgap : ∀ c ∈ gap, isBlank c = true) : '@' ∉ gap :=
    fun hmem => absurd (hgap '@' hmem) (by decide)
  have hend : '@' ∉ rest := by
    rcases hrest with rfl | rfl <;> decide
  rw [hparts] at hs
  simpa [hgap hbefore.2, hgap hafter.2, hend] using hs

theorem not_mem_of_readAlternative {s : List Char} {r : VersionRange}
    (h : readAlternative s = .ok r) : '@' ∉ s := by
  intro hs
  rw [readAlternative, if_neg (by simp [List.ne_nil_of_mem hs])] at h
  cases hm : hyphenRange.matchFront? s with
  | some m =>
      simp only [hm, readHyphenRange] at h
      cases hlow : readVersion (m.groupD .lower) with
      | error e => simp [hlow, bind, Except.bind] at h
      | ok low =>
          cases hhigh : readVersion (m.groupD .upper) with
          | error e => simp [hlow, hhigh, bind, Except.bind] at h
          | ok high =>
              rcases mem_or_mem_of_hyphenRange hm hs with hmem | hmem
              · exact not_mem_of_readVersion hlow hmem
              · exact not_mem_of_readVersion hhigh hmem
  | none =>
      have hattached : '@' ∈ attachOperators s := mem_replace_of_avoids (by decide) s hs
      obtain ⟨term, hterm, hmem⟩ :=
        exists_mem_split_of_avoids (p := termBreak) (by decide) _ hattached
      rw [hm] at h
      obtain ⟨_, hterms, -⟩ := exists_of_map_eq_ok h
      obtain ⟨_, hread⟩ := exists_of_mapM_eq_ok hterms term hterm
      exact not_mem_of_readTerm hread hmem

/-- An accepted expression holds no at sign. -/
theorem not_mem_of_read {expression : String} {c : Constraint} (h : read expression = .ok c) :
    '@' ∉ expression.toList := by
  intro hs
  have htrim : '@' ∈ trim expression.toList := mem_trim_of_not_isBlank (by decide) hs
  obtain ⟨piece, hpiece, hmem⟩ :=
    exists_mem_split_of_avoids (p := alternativeBreak) (by decide) _ htrim
  rw [read, if_neg (by simp [List.ne_nil_of_mem htrim])] at h
  obtain ⟨_, hpieces, -⟩ := exists_of_map_eq_ok h
  obtain ⟨_, hread⟩ := exists_of_mapM_eq_ok hpieces piece hpiece
  exact not_mem_of_readAlternative hread hmem

end Constraint

end DocTags
