import DocTags.Proofs.Pattern.LineWise
import DocTags.Proofs.Tag.Scanning
import DocTags.Proofs.Tag.Tables

/-!
# Tag tables line by line

A general tag is read within a line and up to its end, so a line holds at most one and the general
tags of a comment are those of its lines. The table of a symbol has the names of these tags in the
order in which they come first, each with all its values in order: those of a type's traits before
those of the type.
-/

namespace DocTags

open Pattern Text

section FirstAppearances

variable {α : Type} [DecidableEq α]

theorem eraseDups_filter (p : α → Bool) (l : List α) :
    (l.filter p).eraseDups = l.eraseDups.filter p := by
  match l with
  | [] => rfl
  | a :: l =>
      have hlt : (l.filter fun b => !b == a).length < (a :: l).length :=
        Nat.lt_succ_of_le (List.length_filter_le _ l)
      have ih := eraseDups_filter p (l.filter fun b => !b == a)
      rw [List.filter_filter] at ih
      cases ha : p a with
      | true =>
          rw [List.filter_cons_of_pos ha, List.eraseDups_cons, List.eraseDups_cons,
            List.filter_cons_of_pos ha, ← ih, List.filter_filter]
          simp only [Bool.and_comm]
      | false =>
          have hpred : ∀ b ∈ l, (p b && !b == a) = p b := by
            intro b _
            by_cases hb : b = a <;> simp [hb, ha]
          rw [List.filter_congr hpred] at ih
          rw [List.filter_cons_of_neg (by simp [ha]), List.eraseDups_cons,
            List.filter_cons_of_neg (by simp [ha]), ih]
termination_by l.length
decreasing_by exact hlt

theorem eraseDups_eraseDups (l : List α) : l.eraseDups.eraseDups = l.eraseDups := by
  match l with
  | [] => rfl
  | a :: l =>
      have hlt : (l.filter fun b => !b == a).length < (a :: l).length :=
        Nat.lt_succ_of_le (List.length_filter_le _ l)
      rw [List.eraseDups_cons, List.eraseDups_cons, ← eraseDups_filter, List.filter_filter]
      simp only [Bool.and_self]
      rw [eraseDups_eraseDups (l.filter fun b => !b == a)]
termination_by l.length
decreasing_by exact hlt

/-- Repetitions in the second part may be taken out before. -/
theorem eraseDups_append_eraseDups (l m : List α) :
    (l ++ m.eraseDups).eraseDups = (l ++ m).eraseDups := by
  rw [List.eraseDups_append, List.eraseDups_append, List.removeAll, List.removeAll,
    ← eraseDups_filter, eraseDups_eraseDups]

theorem eraseDups_concat (l : List α) (a : α) :
    (l ++ [a]).eraseDups = if a ∈ l then l.eraseDups else l.eraseDups ++ [a] := by
  rw [List.eraseDups_append]
  by_cases ha : a ∈ l <;> simp [List.removeAll, ha, List.eraseDups_cons]

end FirstAppearances

namespace Dialect

/-- A general tag is read up to the end of its line. -/
theorem isLineWise_genericPattern : genericPattern.IsLineWise where
  consumes := rfl
  follows e := by
    have hnamed : namedValue.Follows (· ++ '\n' :: e) := follows_append rfl rfl
    have hgaps : (chars isGap : Pattern Field).Follows (· ++ '\n' :: e) := follows_append rfl rfl
    have hreturn : (opt (char (· == '\r')) : Pattern Field).Follows (· ++ '\n' :: e) :=
      follows_append rfl rfl
    exact hnamed.seq (hgaps.seq (hreturn.seq lineEnd_follows_append))
  endsLine s t h := by
    obtain ⟨_, -, h⟩ := canRead_seq.mp h
    obtain ⟨_, -, h⟩ := canRead_seq.mp h
    obtain ⟨_, -, h⟩ := canRead_seq.mp h
    obtain ⟨rfl, ht⟩ := canRead_lineEnd.mp h
    exact ht

end Dialect

namespace TagTable

/-- The general tag of a line: its name in lower case, and its value, empty if it has none. -/
def tagOn? (line : List Char) : Option (String × String) :=
  (Dialect.generic.tag? line).map fun t => (lowerName (t.getD .name).toList, t.getD .value)

/-- The general tags of a comment, line by line. -/
def tagsIn (comment : String) : List (String × String) :=
  (splitAt '\n' (stripDelimiters comment.toList)).filterMap tagOn?

/-- The general tags of a symbol: for a type those of its traits in order, and then its own. -/
def tagsOf (s : Symbol) : List (String × String) :=
  (if s.isTypeLevel then s.traitComments.flatMap tagsIn else []) ++ tagsIn s.docComment

/-- The values of the tags with a name. -/
def valuesOf (tags : List (String × String)) (name : String) : List String :=
  (tags.filter (·.1 = name)).map (·.2)

/-- The name and the value in what the groups of a tag have read. -/
def entryOf (read : List (Field × List Char)) : String × String :=
  (lowerName (partOf read .name), String.ofList (partOf read .value))

theorem entryOf_texts (m : Match Field) :
    entryOf (texts m.captures)
      = (lowerName (m.groupD .name), String.ofList (m.groupD .value)) := by
  rw [entryOf, Match.groupD_eq_partOf, Match.groupD_eq_partOf]

theorem tagOn?_eq_map_found (line : List Char) :
    tagOn? line = (Dialect.genericPattern.found line).map entryOf := by
  rw [tagOn?, Dialect.tag?, Dialect.pattern, found, Option.map_map, Option.map_map]
  congr 1
  funext m
  simp only [Function.comp_def, entryOf_texts, Tag.getD_ofMatch (d := .generic) (f := .name)
    (by decide), Tag.getD_ofMatch (d := .generic) (f := .value) (by decide), String.toList_ofList]

/-- The tags that are found in a comment are those of its lines. -/
theorem map_findAll_eq_tagsIn (comment : String) :
    (Dialect.genericPattern.findAll (stripDelimiters comment.toList)).map
      (fun m => (lowerName (m.groupD .name), String.ofList (m.groupD .value)))
        = tagsIn comment := by
  have hlines := Dialect.isLineWise_genericPattern.foundAll_eq_filterMap
    (stripDelimiters comment.toList)
  have hentries := congrArg (List.map entryOf) hlines
  rw [foundAll, List.map_map, List.map_filterMap] at hentries
  simpa only [Function.comp_def, entryOf_texts, ← tagOn?_eq_map_found, tagsIn] using hentries

theorem ofComment_eq_foldl (comment : String) :
    ofComment comment
      = (tagsIn comment).foldl (fun (t : TagTable) e => t.append e.1 [e.2]) [] := by
  rw [ofComment, ofText, ← map_findAll_eq_tagsIn, List.foldl_map]

theorem valuesIn_eq_valuesOf (comment name : String) :
    valuesIn comment name = valuesOf (tagsIn comment) name := by
  rw [valuesOf, ← map_findAll_eq_tagsIn, List.filter_map, List.map_map]
  rfl

variable {t : TagTable} {names : List String}

/-- Values under a name bring the name to the end of a table that does not have it. -/
theorem keys_append (h : t.keys = names.eraseDups) (name : String) (vs : List String) :
    (t.append name vs).keys = (names ++ [name]).eraseDups := by
  have hkey : t.hasKey name = true ↔ name ∈ names := by
    rw [Table.hasKey_iff, h, List.mem_eraseDups]
  rw [append, Table.keys_alter, eraseDups_concat, h]
  exact if_congr hkey rfl rfl

theorem keys_foldl_append {ε : Type} (name : ε → String) (vs : ε → List String) (es : List ε)
    (h : t.keys = names.eraseDups) :
    (es.foldl (fun (t : TagTable) e => t.append (name e) (vs e)) t).keys
      = (names ++ es.map name).eraseDups := by
  induction es generalizing t names with
  | nil => rw [List.foldl_nil, List.map_nil, List.append_nil, h]
  | cons e es ih =>
      rw [List.foldl_cons, ih (keys_append h (name e) (vs e)), List.append_assoc, List.map_cons,
        List.singleton_append]

theorem keys_ofComment (comment : String) :
    (ofComment comment).keys = ((tagsIn comment).map (·.1)).eraseDups := by
  have hnil : Table.keys ([] : TagTable) = ([] : List String).eraseDups := rfl
  rw [ofComment_eq_foldl]
  exact keys_foldl_append _ _ _ hnil

/-- A table of comments has the names of all their tags. -/
theorem keys_foldl_merge (comments : List String) (h : t.keys = names.eraseDups) :
    ((comments.map ofComment).foldl merge t).keys
      = (names ++ (comments.flatMap tagsIn).map (·.1)).eraseDups := by
  induction comments generalizing t names with
  | nil => simp [h]
  | cons comment comments ih =>
      have hmerge : (merge t (ofComment comment)).keys
          = (names ++ (tagsIn comment).map (·.1)).eraseDups := by
        have hkeys := keys_foldl_append Prod.fst Prod.snd (ofComment comment) h
        rw [← Table.keys, keys_ofComment, eraseDups_append_eraseDups] at hkeys
        exact hkeys
      rw [List.map_cons, List.foldl_cons, ih hmerge, List.flatMap_cons, List.map_append,
        List.append_assoc]

theorem flatMap_sources (s : Symbol) : (sources s).flatMap tagsIn = tagsOf s := by
  rw [sources, tagsOf, List.flatMap_append]
  cases s.isTypeLevel <;> simp

theorem keys_ofSymbol (s : Symbol) :
    (ofSymbol s).keys = ((tagsOf s).map (·.1)).eraseDups := by
  have hnil : Table.keys ([] : TagTable) = ([] : List String).eraseDups := rfl
  rw [ofSymbol, keys_foldl_merge _ hnil, List.nil_append, flatMap_sources]

theorem valuesOf_append (tags tags' : List (String × String)) (name : String) :
    valuesOf (tags ++ tags') name = valuesOf tags name ++ valuesOf tags' name := by
  rw [valuesOf, List.filter_append, List.map_append, valuesOf, valuesOf]

theorem values_ofSymbol_eq (s : Symbol) (name : String) :
    (ofSymbol s).values name = valuesOf (tagsOf s) name := by
  rw [values_ofSymbol, ← flatMap_sources]
  induction sources s with
  | nil => rfl
  | cons comment comments ih =>
      rw [List.flatMap_cons, List.flatMap_cons, valuesOf_append, ih, valuesIn_eq_valuesOf]

/-- The table of a symbol is made of the general tags on the lines of its comments: it has their
names in the order in which they come first, and under each name the values of all tags with the
name in order. The symbol's own values are the last ones. -/
theorem ofSymbol_lineTags (s : Symbol) :
    (ofSymbol s).keys = ((tagsOf s).map (·.1)).eraseDups
    ∧ (∀ name, (ofSymbol s).get? name
        = if name ∈ (tagsOf s).map (·.1) then some (valuesOf (tagsOf s) name) else none)
    ∧ ∀ name, valuesOf (tagsIn s.docComment) name <:+ ((ofSymbol s).get? name).getD [] := by
  refine ⟨keys_ofSymbol s, ?_, ?_⟩
  · intro name
    have hkey : (ofSymbol s).hasKey name = true ↔ name ∈ (tagsOf s).map (·.1) := by
      rw [Table.hasKey_iff, keys_ofSymbol, List.mem_eraseDups]
    have hvalues := values_ofSymbol_eq s name
    rw [Table.hasKey_eq_isSome_get?] at hkey
    rw [values] at hvalues
    cases hget : (ofSymbol s).get? name with
    | none =>
        rw [hget] at hkey
        rw [if_neg (fun hmem => Bool.false_ne_true (hkey.mpr hmem))]
    | some vs =>
        rw [hget] at hkey hvalues
        rw [if_pos (hkey.mp rfl), ← hvalues, Option.getD_some]
  · intro name
    rw [← values, values_ofSymbol_eq, tagsOf, valuesOf_append]
    exact List.suffix_append _ _

end TagTable

end DocTags
