import DocTags.Proofs.Pattern.Captures
import DocTags.Tag.Dialect

/-!
# Scanning a line

Every tag starts with an at sign, so a line without one has no tag, and on a line with a single one
each dialect is tried there only. A tag has the text of every group of the match that it stands for.
-/

namespace DocTags

open Pattern

namespace Dialect

variable {lead rest line : List Char}

/-- Every dialect starts with an at sign. -/
theorem fails_of_stops (d : Dialect) {s : List Char} (hs : Stops (· == '@') s) :
    d.pattern.Fails s := by
  cases d with
  | version | versionConstraint | os | setting | prerequisite =>
      exact fails_seq_left (fails_seq_left (fails_seq_left (fails_char hs)))
  | dataProvider | testWith | expectedException | generic =>
      exact fails_seq_left (fails_seq_left (fails_char hs))

/-- A line without an at sign has no tag. -/
theorem tag?_eq_none (d : Dialect) (h : '@' ∉ line) : d.tag? line = none := by
  rw [tag?, search?_eq_none_of_mark (fun _ => d.fails_of_stops) h]
  rfl

/-- The only at sign of a line is where every tag of the line starts. -/
theorem tag?_append_cons (d : Dialect) (hlead : '@' ∉ lead) (hrest : '@' ∉ rest) :
    d.tag? (lead ++ '@' :: rest) = (d.pattern.matchFront? ('@' :: rest)).map (Tag.ofMatch d) := by
  rw [tag?, search?_append_cons_of_mark (fun _ => d.fails_of_stops) hlead hrest]

end Dialect

namespace Tag

theorem lookup_map_of_mem {α β : Type} [BEq α] [LawfulBEq α] {f : α → β} {a : α} {l : List α}
    (h : a ∈ l) : (l.map fun b => (b, f b)).lookup a = some (f a) := by
  induction l with
  | nil => exact absurd h List.not_mem_nil
  | cons b l ih =>
      rw [List.map_cons, List.lookup_cons]
      by_cases hab : a = b
      · simp [hab]
      · rw [beq_eq_false_iff_ne.mpr hab]
        exact ih ((List.mem_cons.mp h).resolve_left hab)

/-- A tag has the text that a group of the match has read. -/
theorem getD_ofMatch {d : Dialect} {m : Match Field} {f : Field} (h : f ∈ d.fields) :
    (ofMatch d m).getD f = String.ofList (m.groupD f) := by
  rw [getD, get?, ofMatch, lookup_map_of_mem h, Match.groupD]
  cases m.group? f <;> rfl

end Tag

namespace Dialect

theorem eq_of_isGap {c : Char} (h : isGap c = true) : c = ' ' ∨ c = '\t' := by
  simpa [isGap] using h

theorem isBlank_of_isGap {c : Char} (h : isGap c = true) : Text.isBlank c = true := by
  rcases eq_of_isGap h with rfl | rfl <;> rfl

theorem eq_nil_of_canRead_lineEnd {κ : Type} {s t : List Char} (hfeed : '\n' ∉ s)
    (h : (lineEnd : Pattern κ).CanRead s t) : s = [] ∧ t = [] := by
  obtain ⟨rfl, hs⟩ := canRead_lineEnd.mp h
  rcases hs with rfl | ⟨r, rfl⟩
  · exact ⟨rfl, rfl⟩
  · exact absurd List.mem_cons_self hfeed

/-- Only gaps can stand at the end of a line. -/
theorem canRead_lineTail {κ : Type} {s t : List Char} (hfeed : '\n' ∉ s) (hreturn : '\r' ∉ s) :
    (lineTail : Pattern κ).CanRead s t ↔ t = [] ∧ ∀ c ∈ s, isGap c = true := by
  constructor
  · intro h
    obtain ⟨m, hgaps, h⟩ := canRead_seq.mp h
    obtain ⟨m', hcr, hend⟩ := canRead_seq.mp h
    obtain ⟨gaps, rfl, hgaps⟩ := canRead_chars.mp hgaps
    simp only [List.mem_append, not_or] at hfeed hreturn
    rcases canRead_opt.mp hcr with hcr | rfl
    · obtain ⟨c, hc, rfl⟩ := canRead_char.mp hcr
      rw [beq_iff_eq.mp hc] at hreturn
      exact absurd List.mem_cons_self hreturn.2
    · obtain ⟨rfl, rfl⟩ := eq_nil_of_canRead_lineEnd hfeed.2 hend
      exact ⟨rfl, by simpa using hgaps⟩
  · rintro ⟨rfl, hs⟩
    refine canRead_seq.mpr ⟨[], canRead_chars.mpr ⟨s, (List.append_nil s).symm, hs⟩, ?_⟩
    exact canRead_seq.mpr ⟨[], canRead_opt.mpr (.inr rfl), canRead_lineEnd.mpr ⟨rfl, .inl rfl⟩⟩

end Dialect

end DocTags
