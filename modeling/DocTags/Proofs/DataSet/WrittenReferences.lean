import DocTags.Proofs.Query.LineEnds
import DocTags.Proofs.Tag.CommentLines

/-!
# References as they are written

A member of a type is referred to behind two colons or behind a point, a member of the declaring
type by its name alone. References that are written in one of these ways on the lines of a comment
are found in their order, and each is cut into the type and the member that it was written for,
however points and backslashes are mixed in the name of the type.
-/

namespace DocTags

open Pattern Text

namespace Text

variable {sep : Char} {a b s : List Char}

theorem cutAtLast?_of_not_mem (h : sep ∉ s) : cutAtLast? sep s = none := by
  induction s with
  | nil => rfl
  | cons c s ih =>
      rw [List.mem_cons, not_or] at h
      simp only [cutAtLast?, ih h.2, if_neg (Ne.symm h.1)]

theorem cutAtLast?_append_cons (a : List Char) (hb : sep ∉ b) :
    cutAtLast? sep (a ++ sep :: b) = some (a, b) := by
  induction a with
  | nil => simp only [List.nil_append, cutAtLast?, cutAtLast?_of_not_mem hb, if_true]
  | cons c a ih => simp only [List.cons_append, cutAtLast?, ih]

theorem cutAtColons?_cons_of_ne {c : Char} (h : c ≠ ':') (s : List Char) :
    cutAtColons? (c :: s) = (cutAtColons? s).map fun r => (c :: r.1, r.2) := by
  rw [cutAtColons?]
  exact fun _ hc => absurd hc h

theorem cutAtColons?_of_not_mem (h : ':' ∉ s) : cutAtColons? s = none := by
  induction s with
  | nil => rfl
  | cons c s ih =>
      rw [List.mem_cons, not_or] at h
      rw [cutAtColons?_cons_of_ne (Ne.symm h.1), ih h.2, Option.map_none]

theorem cutAtColons?_append (ha : ':' ∉ a) (b : List Char) :
    cutAtColons? (a ++ ':' :: ':' :: b) = some (a, b) := by
  induction a with
  | nil => rfl
  | cons c a ih =>
      rw [List.mem_cons, not_or] at ha
      rw [List.cons_append, cutAtColons?_cons_of_ne (Ne.symm ha.1), ih ha.2, Option.map_some]

theorem cutAtLastColons?_of_not_mem (h : ':' ∉ s) : cutAtLastColons? s = none := by
  rw [cutAtLastColons?, cutAtColons?_of_not_mem (mt List.mem_reverse.mp h), Option.map_none]

theorem cutAtLastColons?_append (a : List Char) (hb : ':' ∉ b) :
    cutAtLastColons? (a ++ ':' :: ':' :: b) = some (a, b) := by
  have hreverse : (a ++ ':' :: ':' :: b).reverse = b.reverse ++ ':' :: ':' :: a.reverse := by
    simp
  rw [cutAtLastColons?, hreverse, cutAtColons?_append (mt List.mem_reverse.mp hb), Option.map_some,
    List.reverse_reverse, List.reverse_reverse]

end Text

namespace ProvidedData

/-- How a reference names a member: behind two colons, behind a point, or alone. -/
inductive Spelling where
  | colons
  | point
  | alone
  deriving DecidableEq, Repr

/-- A reference to a member of a type, and how it is spelled. -/
structure Reference where
  type : List Char
  member : List Char
  spelling : Spelling
  deriving DecidableEq, Repr

/-- A character of a member's name. -/
def isMemberChar (c : Char) : Bool :=
  isWord c || c == '-'

/-- A character of a type's name. -/
def isOwnerChar (c : Char) : Bool :=
  isMemberChar c || c == '.' || c == '\\'

namespace Reference

/-- The names of the type and of the member can be written in a reference. -/
structure IsWritable (r : Reference) : Prop where
  type_ne_nil : r.type ≠ []
  isOwnerChar : ∀ c ∈ r.type, isOwnerChar c = true
  getLast?_type : r.type.getLast? ≠ some '\\'
  member_ne_nil : r.member ≠ []
  isMemberChar : ∀ c ∈ r.member, isMemberChar c = true

instance (r : Reference) : Decidable r.IsWritable :=
  decidable_of_iff
    (r.type ≠ [] ∧ (∀ c ∈ r.type, ProvidedData.isOwnerChar c = true)
      ∧ r.type.getLast? ≠ some '\\' ∧ r.member ≠ []
      ∧ ∀ c ∈ r.member, ProvidedData.isMemberChar c = true)
    ⟨fun ⟨h₁, h₂, h₃, h₄, h₅⟩ => ⟨h₁, h₂, h₃, h₄, h₅⟩,
      fun ⟨h₁, h₂, h₃, h₄, h₅⟩ => ⟨h₁, h₂, h₃, h₄, h₅⟩⟩

/-- The reference as it stands in a comment. -/
def text (r : Reference) : List Char :=
  match r.spelling with
  | .colons => r.type ++ ':' :: ':' :: r.member
  | .point => r.type ++ '.' :: r.member
  | .alone => r.member

/-- The type and the member that the reference is written for. A member alone belongs to the given
type. -/
def named (r : Reference) (default : Datum) : Datum × String :=
  match r.spelling with
  | .colons | .point => (.text (String.ofList r.type), String.ofList r.member)
  | .alone => (default, String.ofList r.member)

variable {r : Reference}

theorem IsWritable.not_mem_member (h : r.IsWritable) {c : Char}
    (hc : ProvidedData.isMemberChar c = false) : c ∉ r.member :=
  fun hmem => Bool.false_ne_true (hc.symm.trans (h.isMemberChar c hmem))

theorem isReferenceChar_of_isMemberChar {c : Char} (h : ProvidedData.isMemberChar c = true) :
    Dialect.isReferenceChar c = true := by
  rw [ProvidedData.isMemberChar, Bool.or_eq_true] at h
  rw [Dialect.isReferenceChar]
  rcases h with h | h <;> simp [h]

theorem isReferenceChar_of_isOwnerChar {c : Char} (h : ProvidedData.isOwnerChar c = true) :
    Dialect.isReferenceChar c = true := by
  rw [ProvidedData.isOwnerChar, Bool.or_eq_true, Bool.or_eq_true] at h
  rcases h with (h | h) | h
  · exact isReferenceChar_of_isMemberChar h
  · simp [Dialect.isReferenceChar, h]
  · simp [Dialect.isReferenceChar, h]

theorem IsWritable.isReferenceChar (h : r.IsWritable) :
    ∀ c ∈ r.text, Dialect.isReferenceChar c = true := by
  have htype : ∀ c ∈ r.type, Dialect.isReferenceChar c = true :=
    fun c hc => isReferenceChar_of_isOwnerChar (h.isOwnerChar c hc)
  have hmember : ∀ c ∈ r.member, Dialect.isReferenceChar c = true :=
    fun c hc => isReferenceChar_of_isMemberChar (h.isMemberChar c hc)
  have hcolon : Dialect.isReferenceChar ':' = true := by decide
  have hpoint : Dialect.isReferenceChar '.' = true := by decide
  rw [text]
  cases r.spelling with
  | colons => simpa [or_imp, forall_and, hcolon] using ⟨htype, hmember⟩
  | point => simpa [or_imp, forall_and, hpoint] using ⟨htype, hmember⟩
  | alone => exact hmember

theorem IsWritable.text_ne_nil (h : r.IsWritable) : r.text ≠ [] := by
  rw [text]
  cases r.spelling with
  | colons | point => exact List.append_ne_nil_of_left_ne_nil h.type_ne_nil _
  | alone => exact h.member_ne_nil

/-- What the last segment of a reference names: the text in front of the last two colons, or else
in front of the last point, and the text behind. -/
def cutSegment (segment : List Char) : List Char × List Char :=
  match cutAtLastColons? segment with
  | some cut => cut
  | none =>
    match cutAtLast? '.' segment with
    | some cut => cut
    | none => ([], segment)

theorem splitReference_eq (reference : List Char) (d : Datum) :
    splitReference reference d
      = (let segments := splitAt '\\' reference
        let cut := cutSegment (segments.getLast?.getD [])
        if cut.1.isEmpty then (d, String.ofList cut.2)
        else (.text (String.ofList (join ['\\'] (segments.dropLast ++ [cut.1]))),
          String.ofList cut.2)) := rfl

/-- The last segment of a type's name is not empty, and a separator and a member go on with it. -/
theorem IsWritable.exists_segments (h : r.IsWritable) {b : List Char} (hb : '\\' ∉ b) :
    ∃ before last, last ≠ [] ∧ ':' ∉ last ∧ splitAt '\\' (r.type ++ b) = before ++ [last ++ b]
      ∧ join ['\\'] (before ++ [last]) = r.type := by
  obtain ⟨before, last, htype, hall, hsuffix, hwhole⟩ := exists_splitAt_append r.type hb
  have hjoin : join ['\\'] (before ++ [last]) = r.type := by rw [← htype, join_splitAt]
  refine ⟨before, last, ?_, ?_, hall, hjoin⟩
  · rintro rfl
    by_cases hbefore : before = []
    · exact h.type_ne_nil (hwhole hbefore).symm
    · apply h.getLast?_type
      rw [← hjoin, join_append hbefore (List.cons_ne_nil _ _)]
      simp [join]
  · intro hmem
    have hcolon := h.isOwnerChar ':' (hsuffix.mem hmem)
    revert hcolon
    decide

/-- A reference whose last segment is cut into a type and the member names both. -/
theorem IsWritable.splitReference_append (h : r.IsWritable) {b : List Char} (hb : '\\' ∉ b)
    (hcut : ∀ last, ':' ∉ last → cutSegment (last ++ b) = (last, r.member)) (d : Datum) :
    splitReference (r.type ++ b) d = (.text (String.ofList r.type), String.ofList r.member) := by
  obtain ⟨before, last, hne, hcolon, hsegments, hjoin⟩ := h.exists_segments hb
  have hlast : (before ++ [last ++ b]).getLast?.getD [] = last ++ b := by simp
  simp only [splitReference_eq, hsegments, hlast, hcut last hcolon, List.dropLast_concat, hjoin,
    List.isEmpty_eq_false_iff.mpr hne, Bool.false_eq_true, if_false]

/-- A reference is cut into the type and the member that it is written for. -/
theorem IsWritable.splitReference_eq_named (h : r.IsWritable) (d : Datum) :
    splitReference r.text d = r.named d := by
  have hslash : '\\' ∉ r.member := h.not_mem_member (by decide)
  have hcolon : ':' ∉ r.member := h.not_mem_member (by decide)
  have hpoint : '.' ∉ r.member := h.not_mem_member (by decide)
  rw [text, named]
  cases r.spelling with
  | colons =>
      refine h.splitReference_append (by simp [hslash]) (fun last _ => ?_) d
      rw [cutSegment, cutAtLastColons?_append last hcolon]
  | point =>
      refine h.splitReference_append (by simp [hslash]) (fun last hlast => ?_) d
      have hnone : ':' ∉ last ++ '.' :: r.member := by simp [hlast, hcolon]
      rw [cutSegment, cutAtLastColons?_of_not_mem hnone, cutAtLast?_append_cons last hpoint]
  | alone =>
      have hcut : cutSegment r.member = ([], r.member) := by
        rw [cutSegment, cutAtLastColons?_of_not_mem hcolon, cutAtLast?_of_not_mem hpoint]
      simp only [splitReference_eq, splitAt_of_not_mem hslash, List.getLast?_singleton,
        Option.getD_some, hcut, List.isEmpty_nil, if_true]

end Reference

/-- A reference on a line of its own, with what stands behind it up to the next one. -/
structure ReferenceLine where
  reference : Reference
  behind : List Char

namespace ReferenceLine

/-- The line, from the word that opens it on. -/
def text (l : ReferenceLine) : List Char :=
  "@dataProvider".toList ++ ' ' :: (l.reference.text ++ l.behind)

theorem text_append (l : ReferenceLine) (rest : List Char) :
    l.text ++ rest
      = "@dataProvider".toList ++ ' ' :: (l.reference.text ++ (l.behind ++ rest)) := by
  calc l.text ++ rest
    _ = "@dataProvider".toList ++ (' ' :: (l.reference.text ++ l.behind) ++ rest) :=
        List.append_assoc ..
    _ = "@dataProvider".toList ++ ' ' :: (l.reference.text ++ (l.behind ++ rest)) := by
        rw [List.cons_append, List.append_assoc]

/-- The reference can be written, and what stands behind it neither goes on with it nor opens a
tag. -/
structure IsWritable (l : ReferenceLine) : Prop where
  reference : l.reference.IsWritable
  stops : Stops Dialect.isReferenceChar l.behind
  not_mem : '@' ∉ l.behind

-- Only the first character is looked at: no decision goes through all characters that there are.
instance (l : ReferenceLine) : Decidable (Stops Dialect.isReferenceChar l.behind) :=
  Option.decidableForallMem l.behind.head?

instance (l : ReferenceLine) : Decidable l.IsWritable :=
  decidable_of_iff
    (l.reference.IsWritable ∧ Stops Dialect.isReferenceChar l.behind ∧ '@' ∉ l.behind)
    ⟨fun ⟨h₁, h₂, h₃⟩ => ⟨h₁, h₂, h₃⟩, fun ⟨h₁, h₂, h₃⟩ => ⟨h₁, h₂, h₃⟩⟩

end ReferenceLine

/-- A comment that refers to providers, one on each line. -/
def referringComment (opening : List Char) (ls : List ReferenceLine) : List Char :=
  opening ++ ls.flatMap ReferenceLine.text

variable {l : ReferenceLine} {ls : List ReferenceLine} {rest : List Char}

theorem stops_flatMap_text (ls : List ReferenceLine) :
    Stops Dialect.isReferenceChar (ls.flatMap ReferenceLine.text) := by
  cases ls with
  | nil => exact stops_nil _
  | cons l ls => exact (stops_cons ..).mpr (by decide)

/-- The first thing that is found on a line is its reference. -/
theorem foundAll_text_append (h : l.IsWritable) (hrest : Stops Dialect.isReferenceChar rest) :
    Dialect.dataProviderPattern.foundAll (l.text ++ rest)
      = [(.value, l.reference.text)] :: Dialect.dataProviderPattern.foundAll rest := by
  have hstops : Stops Dialect.isReferenceChar (l.behind ++ rest) := by
    cases hbehind : l.behind with
    | nil => exact hrest
    | cons c behind =>
        have hstop := h.stops
        rw [hbehind, stops_cons] at hstop
        exact (stops_cons ..).mpr hstop
  have hsolid : Stops isBlank (l.reference.text ++ (l.behind ++ rest)) := by
    obtain ⟨c, text, htext⟩ := List.exists_cons_of_ne_nil h.reference.text_ne_nil
    have hc : Dialect.isReferenceChar c = true :=
      h.reference.isReferenceChar c (htext ▸ List.mem_cons_self)
    rw [htext, List.cons_append, stops_cons, Bool.eq_false_iff]
    intro hblank
    have hnone := eq_false_of_isBlank (p := Dialect.isReferenceChar) (by decide +kernel) hblank
    exact Bool.false_ne_true (hnone.symm.trans hc)
  have hword : (lit "@dataProvider".toList : Pattern Field).Reads (l.text ++ rest)
      (' ' :: (l.reference.text ++ (l.behind ++ rest))) [] := by
    rw [l.text_append]
    exact reads_lit _ _
  have hblank : (Dialect.blanks1 : Pattern Field).Reads
      (' ' :: (l.reference.text ++ (l.behind ++ rest)))
      (l.reference.text ++ (l.behind ++ rest)) [] :=
    reads_chars1 (a := [' ']) (by decide) (by decide) hsolid
  have hvalue := (reads_chars1 (κ := Field) h.reference.text_ne_nil h.reference.isReferenceChar
    hstops).group Field.value
  have hmisses : Dialect.dataProviderPattern.Misses l.behind rest :=
    Dialect.misses_of_not_mem .dataProvider h.not_mem rest
  have hreads : Dialect.dataProviderPattern.Reads (l.text ++ rest) (l.behind ++ rest)
      [(.value, ⟨l.reference.text ++ (l.behind ++ rest), l.behind ++ rest⟩)] :=
    hword.seq (hblank.seq hvalue)
  rw [foundAll_of_reads rfl hreads, foundAll_append_of_misses rfl hmisses]
  simp [texts]

/-- The references on the lines of a comment are found in their order. -/
theorem references_referringComment {opening : List Char} (hopening : '@' ∉ opening)
    (h : ∀ l ∈ ls, l.IsWritable) :
    references (referringComment opening ls) = ls.map fun l => l.reference.text := by
  have hmisses : Dialect.dataProviderPattern.Misses opening (ls.flatMap ReferenceLine.text) :=
    Dialect.misses_of_not_mem .dataProvider hopening _
  rw [references_eq_map_foundAll, referringComment, foundAll_append_of_misses rfl hmisses]
  clear hmisses
  induction ls with
  | nil => rw [List.flatMap_nil, foundAll_nil rfl, List.map_nil, List.map_nil]
  | cons l ls ih =>
      rw [List.forall_mem_cons] at h
      rw [List.flatMap_cons, foundAll_text_append h.1 (stops_flatMap_text ls), List.map_cons,
        List.map_cons, ih h.2]
      rfl

/-- References to members of types survive being written on the lines of a comment: they are found
in their order, and each is cut into its type and its member; the given type counts exactly for
those that are written without one. -/
theorem splitReference_referringComment {opening : List Char} (hopening : '@' ∉ opening)
    (h : ∀ l ∈ ls, l.IsWritable) (d : Datum) :
    references (referringComment opening ls) = ls.map (fun l => l.reference.text)
      ∧ (references (referringComment opening ls)).map (splitReference · d)
        = ls.map fun l => l.reference.named d := by
  have hfound := references_referringComment hopening h
  refine ⟨hfound, ?_⟩
  rw [hfound, List.map_map]
  exact List.map_congr_left fun l hl => (h l hl).reference.splitReference_eq_named d

/-- The lines of a doc-block with a reference in each spelling. The types have points and
backslashes in their names. -/
def cartLines : List ReferenceLine :=
  [⟨⟨"shop.fixtures\\Cart-2".toList, "full-rows".toList, .colons⟩, "\n * ".toList⟩,
    ⟨⟨"\\tests\\shop.Cart".toList, "rows".toList, .point⟩, "\r\n *  ".toList⟩,
    ⟨⟨"shop.CartTest".toList, "own_rows".toList, .alone⟩, "\n */".toList⟩]

theorem splitReference_cartLines :
    '@' ∉ "/**\n * ".toList ∧ (∀ l ∈ cartLines, l.IsWritable)
      ∧ referringComment "/**\n * ".toList cartLines
        = "/**\n * @dataProvider shop.fixtures\\Cart-2::full-rows\n".toList
          ++ " * @dataProvider \\tests\\shop.Cart.rows\r\n".toList
          ++ " *  @dataProvider own_rows\n */".toList
      ∧ references (referringComment "/**\n * ".toList cartLines)
        = ["shop.fixtures\\Cart-2::full-rows".toList, "\\tests\\shop.Cart.rows".toList,
          "own_rows".toList]
      ∧ (references (referringComment "/**\n * ".toList cartLines)).map
          (splitReference · (.text "shop.CartTest"))
        = [(.text "shop.fixtures\\Cart-2", "full-rows"), (.text "\\tests\\shop.Cart", "rows"),
          (.text "shop.CartTest", "own_rows")] := by
  have hopening : '@' ∉ "/**\n * ".toList := by decide
  have hlines : ∀ l ∈ cartLines, l.IsWritable := by decide
  exact ⟨hopening, hlines, rfl, splitReference_referringComment hopening hlines _⟩

end ProvidedData

end DocTags
