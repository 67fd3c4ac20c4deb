import DocTags.DataSet.Provided
import DocTags.ExpectedException
import DocTags.Proofs.Tag.LineEnds
import DocTags.Requirements

/-!
# Symbols with carriage returns in their comments

A comment whose lines end with line feeds says the same when a carriage return is put in front of
each of them: the physical lines are the same, each pattern reads the same in its groups, and the
rows are looked for in a text without the returns. So what is required, expected, provided and
tagged stays the same for a symbol whose comments are written that way.
-/

namespace DocTags

open Pattern Text

variable {s : Symbol} {comment : String}

/-- The comment with a carriage return in front of every line feed. -/
def withReturns (comment : String) : String :=
  String.ofList (addReturns comment.toList)

namespace Symbol

/-- The symbol with carriage returns in its comments and those of its traits. -/
def withReturns (s : Symbol) : Symbol :=
  { s with
    docComment := DocTags.withReturns s.docComment
    traitComments := s.traitComments.map DocTags.withReturns }

/-- The comments of the symbol and of its traits are comments whose lines end with line feeds. -/
structure HasPlainComments (s : Symbol) : Prop where
  own : IsComment s.docComment.toList
  traits : ∀ comment ∈ s.traitComments, IsComment comment.toList

instance (s : Symbol) : Decidable s.HasPlainComments :=
  decidable_of_iff
    (IsComment s.docComment.toList ∧ ∀ comment ∈ s.traitComments, IsComment comment.toList)
    ⟨fun ⟨h, h'⟩ => ⟨h, h'⟩, fun ⟨h, h'⟩ => ⟨h, h'⟩⟩

end Symbol

@[simp] theorem toList_withReturns (comment : String) :
    (withReturns comment).toList = addReturns comment.toList :=
  String.toList_ofList

theorem Requirements.ofComment_addReturns {comment : List Char} (h : '\r' ∉ comment) (start : Int) :
    ofComment start (addReturns comment) = ofComment start comment := by
  rw [ofComment, ofComment, lines_addReturns h]

theorem Requirements.ofSymbol_withReturns (h : s.HasPlainComments) :
    ofSymbol s.withReturns = ofSymbol s := by
  have hcomment : ofComment s.startLine (withReturns s.docComment).toList
      = ofComment s.startLine s.docComment.toList := by
    rw [toList_withReturns, ofComment_addReturns h.own.not_mem]
  rw [ofSymbol, ofSymbol, Symbol.withReturns, hcomment]
  rfl

theorem LiteralRows.ofComment_addReturns {comment : List Char} (h : '\r' ∉ comment) (depth : Nat) :
    ofComment depth (addReturns comment) = ofComment depth comment := by
  have hplain : dropReturns comment = comment := by
    simpa [dropReturns] using dropReturns_append h []
  rw [ofComment, ofComment, clean, clean, dropReturns_addReturns h, hplain]

theorem ProvidedData.references_eq_map_foundAll (comment : List Char) :
    references comment
      = (Dialect.dataProviderPattern.foundAll comment).map fun read => partOf read .value := by
  rw [references, foundAll, List.map_map]
  apply List.map_congr_left
  intro m _
  rw [Match.groupD_eq_partOf]
  rfl

theorem ProvidedData.references_addReturns (comment : List Char) :
    references (addReturns comment) = references comment := by
  rw [references_eq_map_foundAll, references_eq_map_foundAll,
    foundAll_addReturns rfl Dialect.dataProviderPattern_follows
      (Dialect.fails_at_lineEnd .dataProvider)]

theorem ProvidedData.addProviders_withReturns (r : Resolver) (s : Symbol) (c : Collection)
    (refs : List (List Char)) :
    addProviders r s.withReturns c refs = addProviders r s c refs := by
  induction refs generalizing c with
  | nil => rfl
  | cons reference refs ih =>
      rw [addProviders, addProviders, funext ih]
      rfl

theorem ProvidedData.ofSymbol_withReturns (h : s.HasPlainComments) (r : Resolver) :
    ofSymbol r s.withReturns = ofSymbol r s := by
  have hcomment : s.withReturns.docComment.toList = addReturns s.docComment.toList :=
    toList_withReturns _
  have hproviders : ofProviders r s.withReturns = ofProviders r s := by
    rw [ofProviders, ofProviders, hcomment, references_addReturns]
    simp only [addProviders_withReturns]
  rw [ofSymbol, ofSymbol, hproviders, hcomment, references_addReturns,
    LiteralRows.ofComment_addReturns h.own.not_mem]

theorem TagTable.tagOn?_append_return {line : List Char} (hfeed : '\n' ∉ line)
    (hreturn : '\r' ∉ line) : tagOn? (line ++ ['\r']) = tagOn? line := by
  rw [tagOn?_eq_map_found, tagOn?_eq_map_found, Dialect.found_append_return hfeed hreturn]

theorem TagTable.ofComment_withReturns (h : IsComment comment.toList) :
    ofComment (withReturns comment) = ofComment comment := by
  have htags : tagsIn (withReturns comment) = tagsIn comment := by
    rw [tagsIn, tagsIn, toList_withReturns, h.stripDelimiters_addReturns]
    exact filterMap_splitAt_addReturns (fun _ => tagOn?_append_return) _ h.not_mem_stripDelimiters
  rw [ofComment_eq_foldl, ofComment_eq_foldl, htags]

theorem TagTable.ofSymbol_withReturns (h : s.HasPlainComments) :
    ofSymbol s.withReturns = ofSymbol s := by
  have htraits :
      (s.traitComments.map withReturns).map ofComment = s.traitComments.map ofComment := by
    rw [List.map_map]
    exact List.map_congr_left fun comment hc => ofComment_withReturns (h.traits comment hc)
  have hown : ofComment s.withReturns.docComment = ofComment s.docComment :=
    ofComment_withReturns h.own
  have hsources : (sources s.withReturns).map ofComment = (sources s).map ofComment := by
    rw [sources, sources, List.map_append, List.map_append, List.map_singleton, hown,
      List.map_singleton]
    congr 1
    change (if s.isTypeLevel then s.traitComments.map withReturns else []).map ofComment = _
    cases s.isTypeLevel with
    | true => exact htraits
    | false => rfl
  rw [ofSymbol, ofSymbol, hsources]

/-- What a line that names an exception gives depends on the tags of the symbol and on what the line
reads. -/
theorem ExpectedException.ofMatch_congr {s t : Symbol} {m m' : Match Field}
    (hown : TagTable.ofComment s.docComment = TagTable.ofComment t.docComment)
    (htags : TagTable.ofSymbol s = TagTable.ofSymbol t)
    (htexts : texts m.captures = texts m'.captures) (constants : Option ConstantLookup) :
    ofMatch s constants m = ofMatch t constants m' := by
  simp only [ofMatch, hown, htags, Match.groupD, Match.group?_congr htexts]

/-- What a symbol expects depends on its name, its tags and what the line that names the exception
reads. -/
theorem ExpectedException.ofSymbol_congr {s t : Symbol} (hname : s.qualifiedName = t.qualifiedName)
    (hown : TagTable.ofComment s.docComment = TagTable.ofComment t.docComment)
    (htags : TagTable.ofSymbol s = TagTable.ofSymbol t)
    (hfound : Dialect.expectedExceptionPattern.found (stripDelimiters s.docComment.toList)
      = Dialect.expectedExceptionPattern.found (stripDelimiters t.docComment.toList))
    (constants : Option ConstantLookup) : ofSymbol s constants = ofSymbol t constants := by
  rw [found, found] at hfound
  rw [ofSymbol, ofSymbol]
  cases hm : Dialect.expectedExceptionPattern.search? (stripDelimiters t.docComment.toList) with
  | none =>
      rw [hm, Option.map_none, Option.map_eq_none_iff] at hfound
      rw [hfound]
  | some m =>
      rw [hm, Option.map_some, Option.map_eq_some_iff] at hfound
      obtain ⟨m', hm', htexts⟩ := hfound
      have hmatch : ofMatch s constants m' = ofMatch t constants m :=
        ofMatch_congr hown htags htexts constants
      rw [hm']
      simp only [hmatch, hname]

theorem ExpectedException.ofSymbol_withReturns (h : s.HasPlainComments)
    (constants : Option ConstantLookup) :
    ofSymbol s.withReturns constants = ofSymbol s constants := by
  have hbody : stripDelimiters s.withReturns.docComment.toList
      = addReturns (stripDelimiters s.docComment.toList) := by
    rw [← h.own.stripDelimiters_addReturns, Symbol.withReturns, toList_withReturns]
  have hown : TagTable.ofComment s.withReturns.docComment = TagTable.ofComment s.docComment :=
    TagTable.ofComment_withReturns h.own
  have hname : s.withReturns.qualifiedName = s.qualifiedName := rfl
  refine ofSymbol_congr hname hown (TagTable.ofSymbol_withReturns h) ?_ constants
  rw [hbody]
  exact found_addReturns Dialect.expectedExceptionPattern_agrees
    (Dialect.fails_at_lineEnd .expectedException) _

/-- Carriage returns in front of the line feeds of its comments change nothing that is read off a
symbol: its requirements or the warning about one of them, the exception it expects, its references
to providers, its tags, and its rows or the problem with them. -/
theorem Symbol.readings_withReturns (s : Symbol) (h : s.HasPlainComments) :
    Requirements.ofSymbol s.withReturns = Requirements.ofSymbol s
    ∧ (∀ constants, ExpectedException.ofSymbol s.withReturns constants
        = ExpectedException.ofSymbol s constants)
    ∧ ProvidedData.references s.withReturns.docComment.toList
        = ProvidedData.references s.docComment.toList
    ∧ TagTable.ofSymbol s.withReturns = TagTable.ofSymbol s
    ∧ (∀ depth, LiteralRows.ofComment depth s.withReturns.docComment.toList
        = LiteralRows.ofComment depth s.docComment.toList)
    ∧ ∀ r, ProvidedData.ofSymbol r s.withReturns = ProvidedData.ofSymbol r s := by
  have hcomment : s.withReturns.docComment.toList = addReturns s.docComment.toList :=
    toList_withReturns _
  refine ⟨Requirements.ofSymbol_withReturns h, ExpectedException.ofSymbol_withReturns h, ?_,
    TagTable.ofSymbol_withReturns h, fun depth => ?_, ProvidedData.ofSymbol_withReturns h⟩
  · rw [hcomment, ProvidedData.references_addReturns]
  · rw [hcomment, LiteralRows.ofComment_addReturns h.own.not_mem]

/-- A type that asks for a platform, expects an exception and has a row, with a trait. -/
def Symbol.marked : Symbol :=
  ⟨"/**\n * @requires PHP ^8\n * @expectedException Odd \"a b\" 1\n * @testWith\n * [1]\n */", "",
    20, 25, .null, .null, ["/**\n * @group slow \n */"], true, none⟩

/-- Its tags and what it requires are the same with carriage returns. -/
theorem Symbol.readings_withReturns_marked :
    Symbol.marked.HasPlainComments
    ∧ Symbol.marked.withReturns.traitComments = ["/**\r\n * @group slow \r\n */"]
    ∧ TagTable.ofSymbol Symbol.marked.withReturns
        = [("group", ["slow"]), ("requires", ["PHP ^8"]), ("expectedexception", ["Odd \"a b\" 1"]),
          ("testwith", [""])]
    ∧ Requirements.ofSymbol Symbol.marked.withReturns = Requirements.ofSymbol Symbol.marked := by
  have hplain : Symbol.marked.HasPlainComments := by decide
  obtain ⟨hrequired, -, -, htags, -⟩ := Symbol.readings_withReturns Symbol.marked hplain
  refine ⟨hplain, by decide +kernel, ?_, hrequired⟩
  rw [htags]
  decide +kernel

end DocTags
