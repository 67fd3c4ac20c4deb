import DocTags.Proofs.Tag.Scanning
import DocTags.Requirements

/-!
# The names of requirement tags

A requirement tag has one of the few names that its dialect knows, and the name alone decides what
the tag is about. The value of an operating system tag has at least one character.
-/

namespace DocTags

open Pattern

/-- The name of a platform in a tag. -/
def Platform.name : Platform → String
  | .php => "PHP"
  | .phpunit => "PHPUnit"

namespace Dialect

variable {d : Dialect} {line : List Char} {tag : Tag} {name rest : Pattern Field}
  {m : Match Field}

/-- The first group behind the word for requirements is the name; the other captures are those of
the rest. -/
theorem exists_name_of_search? (hname : name.names = [])
    (h : (seq requires (seq (group .name name) rest)).search? line = some m) :
    ∃ s t c, name.CanRead s t ∧ rest.Yields t m.span.stop c
      ∧ m.captures = c ++ [(.name, ⟨s, t⟩)] := by
  obtain ⟨-, hreads⟩ := reads_of_search? h
  obtain ⟨s, -, hyields⟩ := (yields_seq_of_names rfl).mp hreads.yields
  obtain ⟨t, c, hread, hrest, hcaptures⟩ := (yields_group_seq hname).mp hyields
  exact ⟨s, t, c, hread, hrest, hcaptures⟩

/-- The name of a tag is what the pattern of the name has read. -/
theorem exists_name_eq (hpattern : d.pattern = seq requires (seq (group .name name) rest))
    (hfield : Field.name ∈ d.fields) (hname : name.names = []) (hrest : Field.name ∉ rest.names)
    (h : d.tag? line = some tag) :
    ∃ s t, name.CanRead s t ∧ tag.getD .name = String.ofList (Span.mk s t).text := by
  obtain ⟨m, hm, rfl⟩ := Option.map_eq_some_iff.mp h
  rw [hpattern] at hm
  obtain ⟨s, t, c, hread, hyields, hcaptures⟩ := exists_name_of_search? hname hm
  have hother : ∀ x ∈ c, x.1 ≠ Field.name :=
    fun x hx hxname => hrest (hxname ▸ hyields.mem_names x hx)
  have hgroup : m.group? .name = some (Span.mk s t).text := by
    obtain ⟨span, captures⟩ := m
    obtain rfl : captures = c ++ [(.name, ⟨s, t⟩)] := hcaptures
    exact Match.group?_append hother
  refine ⟨s, t, hread, ?_⟩
  rw [Tag.getD_ofMatch hfield, Match.groupD, hgroup, Option.getD_some]

/-- A word with an optional ending is read with or without it. -/
theorem text_of_canRead_lit_opt {a b s t : List Char}
    (h : (seq (lit a) (opt (lit b)) : Pattern Field).CanRead s t) :
    (Span.mk s t).text = a ∨ (Span.mk s t).text = a ++ b := by
  obtain ⟨u, hword, hending⟩ := canRead_seq.mp h
  obtain rfl := canRead_lit.mp hword
  rcases canRead_opt.mp hending with hending | rfl
  · obtain rfl := canRead_lit.mp hending
    rw [← List.append_assoc, Span.text_append]
    exact .inr rfl
  · exact .inl (Span.text_append a t)

/-- A version tag or a constraint tag has the name of its platform. -/
theorem name_of_platform (hd : d = .version ∨ d = .versionConstraint)
    (h : d.tag? line = some tag) : tag.getD .name = (Platform.ofName (tag.getD .name)).name := by
  have hread : ∃ s t, (seq (lit "PHP".toList) (opt (lit "Unit".toList)) : Pattern Field).CanRead s t
      ∧ tag.getD .name = String.ofList (Span.mk s t).text := by
    rcases hd with rfl | rfl
    · exact exists_name_eq rfl (by decide) rfl (by decide) h
    · exact exists_name_eq rfl (by decide) rfl (by decide) h
  obtain ⟨s, t, hread, hname⟩ := hread
  rw [hname]
  rcases text_of_canRead_lit_opt hread with ht | ht
  · rw [ht]
    decide
  · rw [ht]
    decide

/-- An operating system tag has one of two names. -/
theorem name_of_os (h : Dialect.os.tag? line = some tag) :
    tag.getD .name = "OS" ∨ tag.getD .name = "OSFAMILY" := by
  obtain ⟨s, t, hread, hname⟩ := exists_name_eq rfl (by decide) rfl (by decide) h
  rw [hname]
  rcases text_of_canRead_lit_opt hread with ht | ht
  · rw [ht]
    decide
  · rw [ht]
    decide

/-- The value of an operating system tag is not empty. -/
theorem value_ne_of_os (h : Dialect.os.tag? line = some tag) : tag.getD .value ≠ "" := by
  obtain ⟨m, hm, rfl⟩ := Option.map_eq_some_iff.mp h
  obtain ⟨s, t, c, -, hyields, hcaptures⟩ := exists_name_of_search? rfl hm
  obtain ⟨s', -, hyields⟩ := (yields_seq_of_names rfl).mp hyields
  obtain ⟨t', c', hvalue, hend, hc⟩ := (yields_group_seq rfl).mp hyields
  obtain rfl := hend.eq_nil rfl
  obtain ⟨a, hne, rfl, -⟩ := canRead_plus_char.mp hvalue
  have hgroup : m.group? .value = some a := by
    rw [Match.group?, hcaptures, hc]
    simp
  rw [Tag.getD_ofMatch (by decide), Match.groupD, hgroup, Option.getD_some]
  simpa using hne

/-- A function or extension tag has one of these names. -/
theorem name_of_prerequisite (h : Dialect.prerequisite.tag? line = some tag) :
    tag.getD .name = "function" ∨ tag.getD .name = "extension" := by
  obtain ⟨s, t, hread, hname⟩ := exists_name_eq rfl (by decide) rfl (by decide) h
  rw [hname]
  rcases canRead_alt.mp hread with hread | hread
  · obtain rfl := canRead_lit.mp hread
    rw [Span.text_append]
    decide
  · obtain rfl := canRead_lit.mp hread
    rw [Span.text_append]
    decide

end Dialect

end DocTags
