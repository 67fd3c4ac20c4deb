import DocTags.InlineTag
import DocTags.Proofs.Pattern.Search
import DocTags.Proofs.Text.Table
import Mathlib.Data.List.Induction
import Mathlib.Order.Nat

/-!
# Inline annotations in a range of lines

The lines of a symbol are numbered from one. The range from the first to the last line of the symbol
can reach past both ends of the file, and it can be empty. Under every name stands the last line in
the range that has a tag of that name, and the names stand in the order of the lines in which they
come first.
-/

namespace DocTags

namespace InlineTag

open Dialect

variable {start stop : Int} {lines : List String} {number : Nat} {name value : String}

/-- The line of the given number has the tag: this is what the pattern reads at the first place in
the line where it reads something. A tag without a value has the empty one. -/
def IsTagged (lines : List String) (number : Nat) (name value : String) : Prop :=
  1 ≤ number ∧ ∃ line, lines[number - 1]? = some line
    ∧ ∃ front, ∃ m : Match Field, line.toList = front ++ m.span.start
      ∧ inlinePattern.Misses front m.span.start
      ∧ inlinePattern.Reads m.span.start m.span.stop m.captures
      ∧ TagTable.lowerName (m.groupD .name) = name
      ∧ String.ofList ((m.group? .value).getD []) = value

theorem ofLine?_eq_some_iff {line : String} {tag : InlineTag} :
    ofLine? number line = some (name, tag) ↔ tag.line = number
      ∧ ∃ front, ∃ m : Match Field, line.toList = front ++ m.span.start
        ∧ inlinePattern.Misses front m.span.start
        ∧ inlinePattern.Reads m.span.start m.span.stop m.captures
        ∧ TagTable.lowerName (m.groupD .name) = name
        ∧ String.ofList ((m.group? .value).getD []) = tag.value := by
  obtain ⟨k, v⟩ := tag
  simp only [ofLine?, Option.map_eq_some_iff, Pattern.search?_eq_some_iff, Prod.mk.injEq,
    InlineTag.mk.injEq, Match.groupD]
  constructor
  · rintro ⟨m, ⟨front, hline, hmisses, hreads⟩, hname, hnumber, hvalue⟩
    exact ⟨hnumber.symm, front, m, hline, hmisses, hreads, hname, hvalue⟩
  · rintro ⟨hnumber, front, m, hline, hmisses, hreads, hname, hvalue⟩
    exact ⟨m, ⟨front, hline, hmisses, hreads⟩, hname, hnumber.symm, hvalue⟩

/-- The tags of the lines from `start` to `stop`, one after the other. -/
def tagsOf (start stop : Int) (lines : List String) : List (String × InlineTag) :=
  ((lines.zipIdx 1).filter fun l => start ≤ l.2 ∧ l.2 ≤ stop).filterMap fun l => ofLine? l.2 l.1

/-- A tag of the range is the one of its own line. -/
theorem mem_tagsOf_iff_ofLine? {e : String × InlineTag} :
    e ∈ tagsOf start stop lines ↔ start ≤ e.2.line ∧ e.2.line ≤ stop ∧ 1 ≤ e.2.line
      ∧ ∃ line, lines[e.2.line - 1]? = some line ∧ ofLine? e.2.line line = some e := by
  simp only [tagsOf, List.mem_filterMap, List.mem_filter, decide_eq_true_eq, Prod.exists,
    List.mk_mem_zipIdx_iff_le_and_getElem?_sub]
  constructor
  · rintro ⟨line, number, ⟨⟨hone, hline⟩, hstart, hstop⟩, htag⟩
    obtain rfl : e.2.line = number := (ofLine?_eq_some_iff.mp htag).1
    exact ⟨hstart, hstop, hone, line, hline, htag⟩
  · rintro ⟨hstart, hstop, hone, line, hline, htag⟩
    exact ⟨line, e.2.line, ⟨⟨hone, hline⟩, hstart, hstop⟩, htag⟩

theorem mem_tagsOf {tag : InlineTag} :
    (name, tag) ∈ tagsOf start stop lines ↔ start ≤ tag.line ∧ tag.line ≤ stop
      ∧ IsTagged lines tag.line name tag.value := by
  simp only [mem_tagsOf_iff_ofLine?, ofLine?_eq_some_iff, true_and]
  exact Iff.rfl

/-- The tags come line by line. -/
theorem pairwise_tagsOf (start stop : Int) (lines : List String) :
    (tagsOf start stop lines).Pairwise fun e f => e.2.line < f.2.line := by
  have hnumbers : (lines.zipIdx 1).Pairwise fun k l => k.2 < l.2 := by
    rw [← List.pairwise_map, List.zipIdx_map_snd]
    exact List.pairwise_lt_range'
  rw [tagsOf, List.pairwise_filterMap]
  refine (hnumbers.filter _).imp ?_
  rintro k l hlt ⟨_, d⟩ hd ⟨_, e⟩ he
  rw [ofLine?_eq_some_iff] at hd he
  exact hd.1 ▸ he.1 ▸ hlt

/-- The numbers of the lines that have a tag of the name. -/
def numbersOf (tags : List (String × InlineTag)) (name : String) : Set Nat :=
  {number | ∃ tag, (name, tag) ∈ tags ∧ tag.line = number}

variable {tags : List (String × InlineTag)} {table : Table String InlineTag}
  {e : String × InlineTag}

/-- A line that stands behind all others does not change which of them is the first. -/
theorem isLeast_numbersOf_concat (hlast : ∀ f ∈ tags, f.2.line < e.2.line)
    (h : IsLeast (numbersOf tags name) number) : IsLeast (numbersOf (tags ++ [e]) name) number := by
  obtain ⟨⟨tag, htag, rfl⟩, hleast⟩ := h
  constructor
  · exact ⟨tag, List.mem_append_left [e] htag, rfl⟩
  · rintro _ ⟨other, hother, rfl⟩
    rcases List.mem_append.mp hother with hother | hother
    · exact hleast ⟨other, hother, rfl⟩
    · obtain rfl := List.mem_singleton.mp hother
      exact (hlast _ htag).le

/-- The table has the last of the tags of every name, in the order of the first ones. -/
structure Collects (tags : List (String × InlineTag)) (table : Table String InlineTag) : Prop where
  mem_keys : ∀ name, name ∈ table.keys ↔ ∃ tag, (name, tag) ∈ tags
  get? : ∀ name tag, table.get? name = some tag
    ↔ (name, tag) ∈ tags ∧ ∀ other, (name, other) ∈ tags → other.line ≤ tag.line
  order : table.keys.Pairwise fun name other => ∃ first second,
    IsLeast (numbersOf tags name) first ∧ IsLeast (numbersOf tags other) second ∧ first < second

theorem collects_nil : Collects [] [] := by
  constructor
  · simp
  · simp
  · exact List.Pairwise.nil

/-- A name in the table has a first line. -/
theorem Collects.exists_isLeast (h : Collects tags table) (hname : name ∈ table.keys) :
    ∃ first, IsLeast (numbersOf tags name) first := by
  obtain ⟨tag, htag⟩ := (h.mem_keys name).mp hname
  have hnonempty : (numbersOf tags name).Nonempty := ⟨tag.line, tag, htag, rfl⟩
  classical exact ⟨_, hnonempty.isLeast_natFind⟩

/-- The line of a new name is its first one. -/
theorem Collects.isLeast_concat {tag : InlineTag} (h : Collects tags table)
    (hnew : name ∉ table.keys) : IsLeast (numbersOf (tags ++ [(name, tag)]) name) tag.line := by
  constructor
  · exact ⟨tag, List.mem_append_right tags List.mem_cons_self, rfl⟩
  · rintro _ ⟨other, hother, rfl⟩
    rcases List.mem_append.mp hother with hother | hother
    · exact absurd ((h.mem_keys name).mpr ⟨other, hother⟩) hnew
    · exact (Prod.mk.inj (List.mem_singleton.mp hother)).2 ▸ le_rfl

theorem mem_concat {tag other : InlineTag} {n : String} :
    (n, other) ∈ tags ++ [(name, tag)] ↔ (n, other) ∈ tags ∨ n = name ∧ other = tag := by
  simp

/-- Under its name the tag of a later line is the last one, and under the others nothing changes. -/
theorem Collects.get?_insert {tag found : InlineTag} (h : Collects tags table)
    (hlast : ∀ f ∈ tags, f.2.line < tag.line) (other : String) :
    (table.insert name tag).get? other = some found
      ↔ (other, found) ∈ tags ++ [(name, tag)]
        ∧ ∀ o, (other, o) ∈ tags ++ [(name, tag)] → o.line ≤ found.line := by
  rw [Table.get?_insert]
  by_cases heq : name = other
  · subst heq
    rw [if_pos rfl]
    constructor
    · rintro ⟨⟩
      refine ⟨mem_concat.mpr (.inr ⟨rfl, rfl⟩), fun o ho => ?_⟩
      rcases mem_concat.mp ho with ho | ⟨-, rfl⟩
      · exact (hlast _ ho).le
      · exact le_rfl
    · rintro ⟨hfound, hgreatest⟩
      rcases mem_concat.mp hfound with hfound | ⟨-, rfl⟩
      · exact absurd (hlast _ hfound) (hgreatest tag (mem_concat.mpr (.inr ⟨rfl, rfl⟩))).not_gt
      · rfl
  · rw [if_neg heq, h.get?]
    simp only [mem_concat, Ne.symm heq, false_and, or_false]

/-- The name of the tag of a later line comes last if it is a new one. -/
theorem Collects.order_insert {tag : InlineTag} (h : Collects tags table)
    (hlast : ∀ f ∈ tags, f.2.line < tag.line) :
    (table.insert name tag).keys.Pairwise fun x y => ∃ first second,
      IsLeast (numbersOf (tags ++ [(name, tag)]) x) first
      ∧ IsLeast (numbersOf (tags ++ [(name, tag)]) y) second ∧ first < second := by
  have hkept : table.keys.Pairwise fun x y => ∃ first second,
      IsLeast (numbersOf (tags ++ [(name, tag)]) x) first
      ∧ IsLeast (numbersOf (tags ++ [(name, tag)]) y) second ∧ first < second := by
    refine h.order.imp ?_
    rintro x y ⟨first, second, hfirst, hsecond, hlt⟩
    exact ⟨first, second, isLeast_numbersOf_concat hlast hfirst,
      isLeast_numbersOf_concat hlast hsecond, hlt⟩
  rw [Table.keys_insert]
  by_cases hkey : name ∈ table.keys
  · rw [if_pos (Table.hasKey_iff.mpr hkey)]
    exact hkept
  · rw [if_neg (mt Table.hasKey_iff.mp hkey)]
    refine List.pairwise_append.mpr ⟨hkept, List.pairwise_singleton _ _, ?_⟩
    intro x hx y hy
    obtain rfl := List.mem_singleton.mp hy
    obtain ⟨first, hfirst⟩ := h.exists_isLeast hx
    obtain ⟨other, hother, hline⟩ := hfirst.1
    refine ⟨first, tag.line, isLeast_numbersOf_concat hlast hfirst,
      h.isLeast_concat hkey, ?_⟩
    exact hline ▸ hlast _ hother

/-- One more tag on a later line takes the place of the one that was there under its name. -/
theorem Collects.insert {tag : InlineTag} (h : Collects tags table)
    (hlast : ∀ f ∈ tags, f.2.line < tag.line) :
    Collects (tags ++ [(name, tag)]) (table.insert name tag) where
  mem_keys other := by
    rw [← Table.hasKey_iff, Table.hasKey_insert, Bool.or_eq_true, decide_eq_true_eq,
      Table.hasKey_iff, h.mem_keys]
    simp only [mem_concat]
    constructor
    · rintro (rfl | ⟨found, hfound⟩)
      · exact ⟨tag, .inr ⟨rfl, rfl⟩⟩
      · exact ⟨found, .inl hfound⟩
    · rintro ⟨found, hfound | ⟨rfl, -⟩⟩
      · exact .inr ⟨found, hfound⟩
      · exact .inl rfl
  get? other _ := h.get?_insert hlast other
  order := h.order_insert hlast

/-- Putting in the tags of a list one by one collects them. -/
theorem collects_foldl (htags : tags.Pairwise fun e f => e.2.line < f.2.line) :
    Collects tags (tags.foldl (fun t e => t.insert e.1 e.2) []) := by
  induction tags using List.reverseRecOn with
  | nil => exact collects_nil
  | append_singleton tags e ih =>
      obtain ⟨hbefore, -, hlast⟩ := List.pairwise_append.mp htags
      rw [List.foldl_append, List.foldl_cons, List.foldl_nil]
      exact (ih hbefore).insert fun f hf => hlast f hf e List.mem_cons_self

/-- The numbers of the lines between the first and the last line of the symbol that have a tag of
the name. -/
def numbersIn (s : Symbol) (lines : List String) (name : String) : Set Nat :=
  {number | s.startLine ≤ number ∧ number ≤ s.endLine ∧ ∃ value, IsTagged lines number name value}

theorem numbersOf_tagsOf (s : Symbol) (lines : List String) (name : String) :
    numbersOf (tagsOf s.startLine s.endLine lines) name = numbersIn s lines name := by
  ext number
  constructor
  · rintro ⟨tag, htag, rfl⟩
    obtain ⟨hstart, hstop, hon⟩ := mem_tagsOf.mp htag
    exact ⟨hstart, hstop, tag.value, hon⟩
  · rintro ⟨hstart, hstop, value, hon⟩
    exact ⟨⟨number, value⟩, mem_tagsOf.mpr ⟨hstart, hstop, hon⟩, rfl⟩

/-- The annotations of a symbol whose lines came with it, whatever its range: a name is there if
and only if a line in the range has a tag of the name, its annotation is that of the last such line,
and the names stand in the order of the first such lines. -/
theorem ofSymbol_lineRange (disk : Disk) (s : Symbol) (lines : List String) :
    ∃ found, ofSymbol disk { s with sourceLines := some lines } = .ok found
      ∧ (∀ name, name ∈ found.keys ↔ (numbersIn s lines name).Nonempty)
      ∧ (∀ name tag, found.get? name = some tag ↔ IsGreatest (numbersIn s lines name) tag.line
        ∧ IsTagged lines tag.line name tag.value)
      ∧ found.keys.Pairwise fun name other => ∃ first second,
        IsLeast (numbersIn s lines name) first ∧ IsLeast (numbersIn s lines other) second
        ∧ first < second := by
  have h : Collects (tagsOf s.startLine s.endLine lines) (ofLines s.startLine s.endLine lines) :=
    collects_foldl (pairwise_tagsOf s.startLine s.endLine lines)
  refine ⟨ofLines s.startLine s.endLine lines, rfl, fun name => ?_, fun name tag => ?_, ?_⟩
  · rw [h.mem_keys, ← numbersOf_tagsOf]
    constructor
    · rintro ⟨tag, htag⟩
      exact ⟨tag.line, tag, htag, rfl⟩
    · rintro ⟨_, tag, htag, -⟩
      exact ⟨tag, htag⟩
  · rw [h.get?, ← numbersOf_tagsOf]
    constructor
    · rintro ⟨htag, hgreatest⟩
      refine ⟨⟨⟨tag, htag, rfl⟩, ?_⟩, (mem_tagsOf.mp htag).2.2⟩
      rintro _ ⟨other, hother, rfl⟩
      exact hgreatest other hother
    · rintro ⟨⟨⟨other, hother, hline⟩, hgreatest⟩, hon⟩
      obtain ⟨hstart, hstop, -⟩ := mem_tagsOf.mp hother
      refine ⟨mem_tagsOf.mpr ⟨hline ▸ hstart, hline ▸ hstop, hon⟩, fun o ho => ?_⟩
      exact hgreatest ⟨o, ho, rfl⟩
  · simpa only [numbersOf_tagsOf] using h.order

end InlineTag

end DocTags
