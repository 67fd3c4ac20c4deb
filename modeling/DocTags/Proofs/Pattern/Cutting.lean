import DocTags.Proofs.Pattern.Search

/-!
# Texts cut at a pattern

A text that is cut at every match of a pattern consists of the pieces and of what the pattern has
read between them. The pattern reads nowhere inside a piece, so a piece holds no character that the
pattern reads by itself.
-/

namespace DocTags.Pattern

variable {κ : Type} {p : Pattern κ} {s : List Char} {pieces : List (List Char)} {x : Char}

/-- The text consists of the pieces, with stretches between them that the pattern reads. -/
inductive Cut (p : Pattern κ) : List Char → List (List Char) → Prop
  | last {s : List Char} (misses : p.Misses s []) : Cut p s [s]
  | more {front gap rest : List Char} {pieces : List (List Char)} {c : Captures κ}
      (misses : p.Misses front (gap ++ rest)) (reads : p.Reads (gap ++ rest) rest c)
      (tail : Cut p rest pieces) : Cut p (front ++ (gap ++ rest)) (front :: pieces)

/-- A character where the pattern fails belongs to the first piece. -/
theorem Cut.cons_of_fails (h : p.Cut s pieces) (hx : p.Fails (x :: s)) :
    p.Cut (x :: s) (pieces.modifyHead (x :: ·)) := by
  cases h with
  | last misses => exact .last (misses_cons.mpr ⟨by rwa [List.append_nil], misses⟩)
  | more misses reads tail => exact .more (misses_cons.mpr ⟨hx, misses⟩) reads tail

/-- Cutting a text at every match gives its pieces. -/
theorem cut_split (hp : p.consumes = true) (s : List Char) : p.Cut s (p.split s) := by
  cases hm : p.matchFront? s with
  | some m =>
      obtain ⟨-, hreads⟩ := reads_of_matchFront? hm
      have hlt := hreads.canRead.length_lt hp
      obtain ⟨gap, hgap⟩ := hreads.canRead.suffix
      rw [split_of_reads hp hreads]
      rw [← hgap] at hreads ⊢
      exact .more misses_nil hreads (cut_split hp m.span.stop)
  | none =>
      have hfails := fails_of_matchFront? hm
      cases s with
      | nil =>
          rw [split_nil hp]
          exact .last misses_nil
      | cons x s =>
          rw [split_cons_of_fails hp hfails]
          exact (cut_split hp s).cons_of_fails hfails
termination_by s.length

/-- Every piece is a stretch of the text. -/
theorem Cut.isInfix (h : p.Cut s pieces) : ∀ piece ∈ pieces, piece <:+: s := by
  induction h with
  | last _ => exact List.forall_mem_singleton.mpr (List.infix_refl _)
  | more _ _ _ ih =>
      refine List.forall_mem_cons.mpr ⟨(List.prefix_append _ _).isInfix, fun piece hpiece => ?_⟩
      refine (ih piece hpiece).trans ?_
      exact ((List.suffix_append _ _).trans (List.suffix_append _ _)).isInfix

theorem Misses.not_mem {front rest : List Char} (hx : ∀ t, ¬ p.Fails (x :: t))
    (h : p.Misses front rest) : x ∉ front := by
  intro hmem
  obtain ⟨a, b, rfl⟩ := List.append_of_mem hmem
  exact hx (b ++ rest) (h (x :: b) (List.cons_ne_nil x b) (List.suffix_append a _))

/-- No piece holds a character that the pattern can start with whatever follows. -/
theorem Cut.not_mem (hx : ∀ t, ¬ p.Fails (x :: t)) (h : p.Cut s pieces) :
    ∀ piece ∈ pieces, x ∉ piece := by
  induction h with
  | last misses => exact List.forall_mem_singleton.mpr (misses.not_mem hx)
  | more misses reads tail ih => exact List.forall_mem_cons.mpr ⟨misses.not_mem hx, ih⟩

end DocTags.Pattern
