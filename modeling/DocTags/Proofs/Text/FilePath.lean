import DocTags.Proofs.Text.Lines
import DocTags.Text.FilePath

/-!
# Tidied paths

A tidied path has the root and the parts of the path, so that nothing is left to tidy.
-/

namespace DocTags.FilePath

open Text

variable {s t : List Char} {ps : List (List Char)}

/-- Parts that a tidied path is put together from. -/
def AreTidied (ps : List (List Char)) : Prop :=
  ∀ p ∈ ps, '/' ∉ p ∧ p ≠ [] ∧ p ≠ ['.']

theorem areTidied_parts (s : List Char) : AreTidied (parts s) := by
  intro p hp
  rw [parts, List.mem_filter] at hp
  obtain ⟨hmem, hkept⟩ := hp
  simp only [Bool.and_eq_true, Bool.not_eq_true', List.isEmpty_eq_false_iff, bne_iff_ne] at hkept
  exact ⟨not_mem_of_mem_splitAt s p hmem, hkept⟩

theorem filter_of_areTidied (h : AreTidied ps) :
    (ps.filter fun p => !p.isEmpty && p != ['.']) = ps := by
  rw [List.filter_eq_self]
  intro p hp
  obtain ⟨-, hne, hdot⟩ := h p hp
  simp [hne, hdot]

theorem parts_join (h : AreTidied ps) : parts (join ['/'] ps) = ps := by
  cases ps with
  | nil => rfl
  | cons p ps =>
      rw [parts, splitAt_join (List.cons_ne_nil p ps) fun q hq => (h q hq).1, filter_of_areTidied h]

theorem parts_slash (s : List Char) : parts ('/' :: s) = parts s := by
  rw [parts, splitAt, if_pos rfl]
  rfl

theorem parts_root_append (s t : List Char) : parts (root s ++ t) = parts t := by
  rw [root.eq_def]
  split <;> simp only [List.cons_append, List.nil_append, parts_slash]

theorem root_of_head?_ne (h : s.head? ≠ some '/') : root s = [] := by
  rw [root.eq_def]
  split
  · exact absurd rfl h
  · exact absurd rfl h
  · exact absurd rfl h
  · rfl

/-- What is put together from tidied parts starts with no slash. -/
theorem head?_join_ne (h : AreTidied ps) : (join ['/'] ps).head? ≠ some '/' := by
  cases ps with
  | nil => exact nofun
  | cons p ps =>
      obtain ⟨hslash, hne, -⟩ := h p List.mem_cons_self
      obtain ⟨c, p, rfl⟩ := List.exists_cons_of_ne_nil hne
      rw [join_cons_eq_flatMap, List.cons_append, List.head?_cons]
      intro hc
      exact hslash (Option.some.inj hc ▸ List.mem_cons_self)

theorem root_root_append (s : List Char) (ht : t.head? ≠ some '/') :
    root (root s ++ t) = root s := by
  have hone : root ('/' :: t) = ['/'] := by
    cases t with
    | nil => rfl
    | cons c t =>
        have hc : c ≠ '/' := by simpa using ht
        simp [root, hc]
  have htwo : root ('/' :: '/' :: t) = ['/', '/'] := by
    cases t with
    | nil => rfl
    | cons c t =>
        have hc : c ≠ '/' := by simpa using ht
        simp [root, hc]
  rw [root.eq_def s]
  split
  · exact hone
  · exact htwo
  · exact hone
  · exact root_of_head?_ne ht

theorem tidy_eq (s : List Char) :
    tidy s = root s ++ join ['/'] (parts s)
      ∨ root s = [] ∧ parts s = [] ∧ tidy s = ['.'] := by
  rw [tidy]
  split
  · next hnil =>
      obtain ⟨hroot, hparts⟩ := List.append_eq_nil_iff.mp hnil
      have hnone : parts s = [] := by
        have hagain := parts_join (areTidied_parts s)
        rw [hparts] at hagain
        exact hagain.symm
      exact .inr ⟨hroot, hnone, rfl⟩
  · exact .inl rfl

theorem root_tidy (s : List Char) : root (tidy s) = root s := by
  rcases tidy_eq s with h | ⟨hroot, -, h⟩
  · rw [h]
    exact root_root_append s (head?_join_ne (areTidied_parts s))
  · rw [h, hroot]
    rfl

theorem parts_tidy (s : List Char) : parts (tidy s) = parts s := by
  rcases tidy_eq s with h | ⟨-, hparts, h⟩
  · rw [h, parts_root_append, parts_join (areTidied_parts s)]
  · rw [h, hparts]
    rfl

/-- Nothing is left to tidy. -/
theorem tidy_tidy (s : List Char) : tidy (tidy s) = tidy s := by
  rw [tidy, root_tidy, parts_tidy, ← tidy]

theorem parent_tidy (s : List Char) : parent (tidy s) = parent s := by
  rw [parent, parent, root_tidy, parts_tidy]

/-- A path from a directory is tidy. -/
theorem exists_under_eq_tidy (directory path : List Char) : ∃ q, under directory path = tidy q := by
  rw [under]
  split <;> exact ⟨_, rfl⟩

end DocTags.FilePath
