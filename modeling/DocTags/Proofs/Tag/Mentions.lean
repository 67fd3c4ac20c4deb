import DocTags.Proofs.Pattern.Translation
import DocTags.Proofs.Tag.Scanning
import DocTags.Proofs.Text.Lines
import Mathlib.Data.List.Infix

/-!
# Where a line mentions a tag

A tag does not have to stand at the start of its line. A line has a general tag exactly if somewhere
on it an at sign and a name stand at the end of the line or in front of a gap. The other dialects
start with an at sign, a word of their own and a blank.
-/

namespace DocTags.Dialect

open Pattern Text

variable {ends : Char → Bool} {line name rest s t : List Char}

/-- The text starts with an at sign and a name, which goes to the end of the text or up to a
character that ends it. -/
def opensTag (ends : Char → Bool) : List Char → Bool
  | '@' :: s => !(s.takeWhile isTagChar).isEmpty && (s.dropWhile isTagChar).head?.all ends
  | _ => false

/-- The line mentions a tag anywhere. -/
def mentionsTag (ends : Char → Bool) (line : List Char) : Bool :=
  line.tails.any (opensTag ends)

theorem mentionsTag_iff :
    mentionsTag ends line = true ↔ ∃ t, t <:+ line ∧ opensTag ends t = true := by
  simp only [mentionsTag, List.any_eq_true, List.mem_tails]

theorem isTagChar_of_isBlank {c : Char} (h : isBlank c = true) : isTagChar c = false :=
  eq_false_of_isBlank (by decide) h

/-- A name is read as far as it goes. -/
theorem opensTag_of_name (hblank : ∀ c, ends c = true → isBlank c = true) (hne : name ≠ [])
    (hname : ∀ c ∈ name, isTagChar c = true) (hends : ∀ c ∈ rest.head?, ends c = true) :
    opensTag ends ('@' :: (name ++ rest)) = true := by
  have hstops : Stops isTagChar rest := fun c hc => isTagChar_of_isBlank (hblank c (hends c hc))
  rw [opensTag, takeWhile_append_of_stops hname hstops, dropWhile_append_of_stops hname hstops]
  simpa [hne, Option.all_eq_true] using hends

theorem exists_name_of_opensTag (h : opensTag ends s = true) : ∃ name rest,
    s = '@' :: (name ++ rest) ∧ name ≠ [] ∧ (∀ c ∈ name, isTagChar c = true)
      ∧ ∀ c ∈ rest.head?, ends c = true := by
  rw [opensTag.eq_def] at h
  split at h
  · next s =>
      rw [Bool.and_eq_true] at h
      refine ⟨s.takeWhile isTagChar, s.dropWhile isTagChar, ?_, by simpa using h.1,
        fun c => List.mem_takeWhile_imp, by simpa [Option.all_eq_true] using h.2⟩
      rw [List.takeWhile_append_dropWhile]
  · cases h

/-- A name that may end in fewer ways is still a name. -/
theorem opensTag_mono {ends' : Char → Bool} (hends : ∀ c, ends c = true → ends' c = true)
    (h : opensTag ends s = true) : opensTag ends' s = true := by
  rw [opensTag.eq_def] at h ⊢
  split at h
  · simp only [Bool.and_eq_true, Option.all_eq_true] at h ⊢
    exact ⟨h.1, fun c hc => hends c (h.2 c hc)⟩
  · cases h

/-- A general tag opens with its at sign and its name. -/
theorem opensTag_of_canRead_genericPattern (hfeed : '\n' ∉ s) (hreturn : '\r' ∉ s)
    (h : genericPattern.CanRead s t) : opensTag isGap s = true := by
  obtain ⟨u, hnamed, htail⟩ := canRead_seq.mp h
  obtain ⟨r, hsign, hnamed⟩ := canRead_seq.mp hnamed
  obtain ⟨v, hname, hvalue⟩ := canRead_seq.mp hnamed
  obtain ⟨c, hc, rfl⟩ := canRead_char.mp hsign
  obtain ⟨name, hne, rfl, hletters⟩ := canRead_chars1.mp (canRead_group.mp hname)
  obtain rfl : c = '@' := beq_iff_eq.mp hc
  refine opensTag_of_name (fun c => isBlank_of_isGap) hne hletters ?_
  rcases canRead_opt.mp hvalue with hvalue | rfl
  · obtain ⟨w, hgap, -⟩ := canRead_seq.mp hvalue
    obtain ⟨gap, hgne, rfl, hgaps⟩ := canRead_chars1.mp hgap
    obtain ⟨g, gap, rfl⟩ := List.exists_cons_of_ne_nil hgne
    simpa using hgaps g List.mem_cons_self
  · have hsuffix : u <:+ '@' :: (name ++ u) := (List.suffix_append name u).trans
      (List.suffix_cons '@' _)
    obtain ⟨-, hgaps⟩ := (canRead_lineTail (fun hmem => hfeed (hsuffix.mem hmem))
      fun hmem => hreturn (hsuffix.mem hmem)).mp htail
    exact fun c hc => hgaps c (List.mem_of_mem_head? hc)

/-- Behind the name of a general tag the line ends or a gap follows. -/
theorem exists_canRead_genericPattern (hfeed : '\n' ∉ s) (h : opensTag isGap s = true) :
    ∃ t, genericPattern.CanRead s t := by
  obtain ⟨name, rest, rfl, hne, hletters, hrest⟩ := exists_name_of_opensTag h
  have hname : (group Field.name (chars1 isTagChar)).CanRead (name ++ rest) rest :=
    canRead_group.mpr (canRead_chars1.mpr ⟨name, hne, rfl, hletters⟩)
  have hsign : (char (· == '@') : Pattern Field).CanRead ('@' :: (name ++ rest))
      (name ++ rest) := canRead_char.mpr ⟨'@', rfl, rfl⟩
  have hend : (lineTail : Pattern Field).CanRead [] [] :=
    (canRead_lineTail List.not_mem_nil List.not_mem_nil).mpr ⟨rfl, by simp⟩
  refine ⟨[], canRead_seq.mpr ⟨[], ?_, hend⟩⟩
  refine canRead_seq.mpr ⟨_, hsign, canRead_seq.mpr ⟨_, hname, canRead_opt.mpr ?_⟩⟩
  cases rest with
  | nil => exact .inr rfl
  | cons g rest =>
      have hgap : isGap g = true := hrest g rfl
      have hvalue : ∀ c ∈ rest, inLine c = true := by
        intro c hc
        rw [inLine, bne_iff_ne]
        rintro rfl
        exact hfeed (by simp [hc])
      refine .inl (canRead_seq.mpr ⟨rest, canRead_chars1.mpr ⟨[g], by simp, rfl, by simpa⟩, ?_⟩)
      exact canRead_group.mpr (canRead_star_char.mpr ⟨rest, (List.append_nil rest).symm, hvalue⟩)

theorem canRead_genericPattern (hfeed : '\n' ∉ s) (hreturn : '\r' ∉ s) :
    (∃ t, genericPattern.CanRead s t) ↔ opensTag isGap s = true := by
  constructor
  · rintro ⟨t, h⟩
    exact opensTag_of_canRead_genericPattern hfeed hreturn h
  · exact exists_canRead_genericPattern hfeed

/-- A line has a general tag exactly if an at sign and a name stand anywhere on it, at its end or in
front of a gap. -/
theorem isSome_tag?_generic (hfeed : '\n' ∉ line) (hreturn : '\r' ∉ line) :
    (generic.tag? line).isSome = mentionsTag isGap line := by
  rw [Bool.eq_iff_iff, mentionsTag_iff, tag?, Option.isSome_map, ← Bool.not_eq_false,
    Option.isSome_eq_false_iff, Option.isNone_iff_eq_none, search?_eq_none_iff]
  push Not
  refine exists_congr fun t => and_congr_right fun ht => ?_
  rw [← canRead_genericPattern (fun h => hfeed (ht.mem h)) fun h => hreturn (ht.mem h), fails_iff]
  exact not_forall_not

theorem opensTag_of_word (word : List Char) (hne : word ≠ [])
    (hletters : ∀ c ∈ word, isTagChar c = true)
    (h : (seq (lit ('@' :: word)) blanks1 : Pattern Field).CanRead s t) :
    opensTag isBlank s = true := by
  obtain ⟨u, hword, hblanks⟩ := canRead_seq.mp h
  obtain rfl := canRead_lit.mp hword
  obtain ⟨bs, hbs, rfl, hblank⟩ := canRead_chars1.mp hblanks
  obtain ⟨b, bs, rfl⟩ := List.exists_cons_of_ne_nil hbs
  refine opensTag_of_name (fun _ => id) hne hletters ?_
  simpa using hblank b List.mem_cons_self

theorem opensTag_of_seq_word (word : List Char) {q : Pattern Field} (hne : word ≠ [])
    (hletters : ∀ c ∈ word, isTagChar c = true)
    (h : (seq (lit ('@' :: word)) (seq blanks1 q)).CanRead s t) : opensTag isBlank s = true := by
  obtain ⟨u, hword, hrest⟩ := canRead_seq.mp h
  obtain ⟨v, hblanks, -⟩ := canRead_seq.mp hrest
  exact opensTag_of_word word hne hletters (canRead_seq.mpr ⟨u, hword, hblanks⟩)

/-- What a dialect reads mentions a tag. -/
theorem opensTag_of_canRead (d : Dialect) (hfeed : '\n' ∉ s) (hreturn : '\r' ∉ s)
    (h : d.pattern.CanRead s t) : opensTag isBlank s = true := by
  cases d with
  | version | versionConstraint | os | setting | prerequisite =>
      obtain ⟨u, hrequires, -⟩ := canRead_seq.mp h
      exact opensTag_of_word "requires".toList (by decide) (by decide) hrequires
  | dataProvider =>
      exact opensTag_of_seq_word "dataProvider".toList (by decide) (by decide) h
  | testWith => exact opensTag_of_word "testWith".toList (by decide) (by decide) h
  | expectedException =>
      exact opensTag_of_seq_word "expectedException".toList (by decide) (by decide) h
  | generic =>
      exact opensTag_mono (fun _ => isBlank_of_isGap)
        ((canRead_genericPattern hfeed hreturn).mp ⟨t, h⟩)

/-- A line that does not mention a tag has none, of no dialect. -/
theorem tag?_eq_none_of_mentionsTag (hfeed : '\n' ∉ line) (hreturn : '\r' ∉ line)
    (h : mentionsTag isBlank line = false) (d : Dialect) : d.tag? line = none := by
  rw [tag?, Option.map_eq_none_iff, search?_eq_none_iff]
  intro t ht
  refine fails_iff.mpr fun u hu => ?_
  have hopens := d.opensTag_of_canRead (fun hmem => hfeed (ht.mem hmem))
    (fun hmem => hreturn (ht.mem hmem)) hu
  exact Bool.false_ne_true (h.symm.trans (mentionsTag_iff.mpr ⟨t, ht, hopens⟩))

end DocTags.Dialect
