import DocTags.Proofs.Requirements.Names
import DocTags.Proofs.Requirements.Record
import Mathlib.Data.List.Nodup

/-!
# The lines of the requirements

The lines that the requirements of a symbol remember mirror the rest of the record: there is one for
everything that is recorded and for nothing else, and on it stands a tag that asks for what is
recorded.
-/

namespace DocTags

open Text

namespace RequirementKey

/-- The first four characters of its word tell the kind of a key. -/
def mark : RequirementKey → List Char
  | platform .php => ['p', 'h', 'p', '_']
  | platform .phpunit => ['p', 'h', 'p', 'u']
  | os => ['o', 's']
  | osFamily => ['o', 's', '_', 'f']
  | setting _ => ['s', 'e', 't', 't']
  | function _ => ['f', 'u', 'n', 'c']
  | extension _ => ['e', 'x', 't', 'e']

theorem take_text (key : RequirementKey) : key.text.toList.take 4 = key.mark := by
  cases key with
  | platform p => cases p <;> decide
  | os | osFamily => decide
  | setting name | function name | extension name =>
      rw [text, String.toList_append]
      rfl

/-- Different keys are reported under different words. -/
theorem text_injective : Function.Injective text := by
  intro a b h
  have hmark : a.mark = b.mark := by rw [← take_text, h, take_text]
  cases a with
  | platform p =>
      cases b with
      | platform p' => cases p <;> cases p' <;> first | rfl | simp [mark] at hmark
      | _ => cases p <;> simp [mark] at hmark
  | os | osFamily =>
      cases b with
      | platform p => cases p <;> simp [mark] at hmark
      | _ => first | rfl | simp [mark] at hmark
  | setting name | function name | extension name =>
      cases b with
      | platform p => cases p <;> simp [mark] at hmark
      | os | osFamily => simp [mark] at hmark
      | _ => first | exact congrArg _ ((String.append_right_inj _).mp h) | simp [mark] at hmark

end RequirementKey

namespace Requirements

/-- The line has a tag that asks for a value under a key. -/
inductive Shows (line : List Char) : RequirementKey → Held → Prop where
  | version {p : Platform} {tag : Tag} : Dialect.version.tag? line = some tag →
      tag.getD .name = p.name →
      Shows line (.platform p) (.platform (.version ⟨tag.getD .version, tag.getD .operator⟩))
  | constraint {p : Platform} {tag : Tag} {c : Constraint} :
      Dialect.versionConstraint.tag? line = some tag → tag.getD .name = p.name →
      Constraint.read (expressionOf tag) = .ok c →
      Shows line (.platform p) (.platform (.constraint c))
  | os {tag : Tag} : Dialect.os.tag? line = some tag → tag.getD .name = "OS" →
      Shows line .os (.text (tag.getD .value))
  | osFamily {tag : Tag} : Dialect.os.tag? line = some tag → tag.getD .name = "OSFAMILY" →
      Shows line .osFamily (.text (tag.getD .value))
  | setting {tag : Tag} : Dialect.setting.tag? line = some tag →
      Shows line (.setting (tag.getD .setting)) (.text (tag.getD .value))
  | function {tag : Tag} : Dialect.prerequisite.tag? line = some tag →
      tag.getD .name = "function" → Shows line (.function (tag.getD .value)) .listed
  | extension {tag : Tag} : Dialect.prerequisite.tag? line = some tag →
      tag.getD .name = "extension" → Shows line (.extension (tag.getD .value)) .listed

/-- The remembered lines mirror the record of a comment with lines `ls` that ends above line
`startLine`. -/
structure IsMirrored (r : Requirements) (startLine : Int) (ls : List (List Char)) : Prop where
  /-- No two remembered lines are reported under the same word. -/
  nodup : (r.lineOffsets.keys.map RequirementKey.text).Nodup
  /-- The keys are those of everything recorded. -/
  mem_keys_iff : ∀ key, key ∈ r.lineOffsets.keys ↔ r.held? key ≠ none
  /-- The lines are lines of the comment. -/
  within : ∀ e ∈ r.lineOffsets, startLine - ls.length ≤ e.2 ∧ e.2 ≤ startLine - 1
  /-- The tag on the line asks for what is recorded under the key. -/
  shown : ∀ e ∈ r.lineOffsets, ∃ line value, ls[(e.2 - (startLine - ls.length)).toNat]? = some line
    ∧ r.held? e.1 = some value ∧ Shows line e.1 value
  /-- Only listed extensions have a version. -/
  mem_extensions : ∀ name ∈ r.extensionVersions.keys, name ∈ r.extensions
  /-- Nothing is required exactly if no line is remembered. -/
  isEmpty_iff : r.isEmpty = true ↔ r.lineOffsets = []

variable {r r' : Requirements} {n : Int} {e : Entry} {key : RequirementKey} {value : Held}
  {line : List Char} {ls : List (List Char)} {stands : Int → List Char → Prop} {s : Symbol}

theorem mem_map_tag {d : Dialect} {entry : Tag → Entry}
    (h : e ∈ (d.tag? line).toList.map entry) : ∃ tag, d.tag? line = some tag ∧ entry tag = e := by
  obtain ⟨tag, htag, he⟩ := List.mem_map.mp h
  exact ⟨tag, Option.mem_toList.mp htag, he⟩

/-- An entry of a line is shown by the tag that it is the entry of. -/
theorem shows_of_mem_entries (he : e ∈ entries line) (hvalue : e.held = .ok value) :
    Shows line e.key value := by
  simp only [entries, List.mem_append] at he
  rcases he with he | he | he | he | he
  · obtain ⟨tag, htag, rfl⟩ := mem_map_tag he
    rw [Entry.ofOs] at hvalue ⊢
    by_cases hname : tag.getD .name = "OSFAMILY"
    · rw [if_pos hname] at hvalue ⊢
      obtain rfl := Except.ok.inj hvalue
      exact .osFamily htag hname
    · rw [if_neg hname] at hvalue ⊢
      obtain rfl := Except.ok.inj hvalue
      exact .os htag ((Dialect.name_of_os htag).resolve_right hname)
  · obtain ⟨tag, htag, rfl⟩ := mem_map_tag he
    obtain rfl := Except.ok.inj hvalue
    exact .version htag (Dialect.name_of_platform (.inl rfl) htag)
  · obtain ⟨tag, htag, rfl⟩ := mem_map_tag he
    cases hread : Constraint.read (expressionOf tag) with
    | error fault => simp [Entry.ofConstraint, Entry.held, hread, Except.map] at hvalue
    | ok c =>
        rw [Entry.ofConstraint, hread] at hvalue
        obtain rfl := Except.ok.inj hvalue
        exact .constraint htag (Dialect.name_of_platform (.inr rfl) htag) hread
  · obtain ⟨tag, htag, rfl⟩ := mem_map_tag he
    obtain rfl := Except.ok.inj hvalue
    exact .setting htag
  · obtain ⟨tag, htag, rfl⟩ := mem_map_tag he
    rw [Entry.ofPrerequisite] at hvalue ⊢
    by_cases hname : tag.getD .name = "function"
    · rw [if_pos hname] at hvalue ⊢
      obtain rfl := Except.ok.inj hvalue
      exact .function htag hname
    · rw [if_neg hname] at hvalue ⊢
      obtain rfl := Except.ok.inj hvalue
      exact .extension htag ((Dialect.name_of_prerequisite htag).resolve_left hname)

/-- The remembered lines mirror the record, where `stands` says which line stands where. -/
structure Mirrors (r : Requirements) (stands : Int → List Char → Prop) : Prop where
  nodup : r.lineOffsets.keys.Nodup
  hasKey : ∀ key, r.lineOffsets.hasKey key = (r.held? key).isSome
  shown : ∀ key n, r.lineOffsets.get? key = some n →
    ∃ line value, stands n line ∧ r.held? key = some value ∧ Shows line key value
  hasVersion : ∀ name, r.extensionVersions.hasKey name = true →
    r.held? (.extension name) ≠ none

theorem mirrors_empty (stands : Int → List Char → Prop) : Mirrors {} stands where
  nodup := List.nodup_nil
  hasKey key := by cases key <;> rfl
  shown _ _ h := by cases h
  hasVersion _ h := by cases h

/-- An entry of a line keeps the mirror. -/
theorem Mirrors.take (h : r.Mirrors stands) (hline : stands n line) (he : e ∈ entries line)
    (htake : r.take n e = .ok r') : r'.Mirrors stands := by
  obtain ⟨p, -, -, rfl⟩ | ⟨-, value, hvalue, hputs⟩ := take_cases htake
  · exact h
  · constructor
    · rw [hputs.lineOffsets]
      exact Table.nodup_keys_insert h.nodup e.key n
    · intro key
      rw [hputs.lineOffsets, Table.hasKey_insert, h.hasKey, hputs.held?]
      by_cases hkey : e.key = key <;> simp [hkey]
    · intro key k hk
      rw [hputs.lineOffsets, Table.get?_insert] at hk
      by_cases hkey : e.key = key
      · rw [if_pos hkey] at hk
        obtain rfl := Option.some.inj hk
        refine ⟨line, value, hline, ?_, hkey ▸ shows_of_mem_entries he hvalue⟩
        rw [hputs.held?, if_pos hkey]
      · rw [if_neg hkey] at hk
        obtain ⟨line', value', hline', hheld, hshows⟩ := h.shown key k hk
        refine ⟨line', value', hline', ?_, hshows⟩
        rw [hputs.held?, if_neg hkey, hheld]
    · intro name hname
      rw [hputs.held?]
      by_cases hkey : e.key = .extension name
      · simp [hkey]
      · rw [if_neg hkey]
        exact h.hasVersion name ((hputs.extensionVersions name hname).resolve_left hkey)

/-- The lines of a comment keep the mirror, each at its place. -/
theorem Mirrors.addLines (h : r.Mirrors stands)
    (hlines : ∀ (i : Nat) (line : List Char), ls[i]? = some line → stands (n + i) line)
    (hadd : r.addLines n ls = .ok r') : r'.Mirrors stands := by
  have hstep : ∀ (i : Nat) (text : List Char), ls[i]? = some text → ∀ e ∈ entries text,
      ∀ {r r' : Requirements}, r.Mirrors stands → r.take (n + i) e = .ok r' →
        r'.Mirrors stands :=
    fun i text hi e he _ _ hr htake => hr.take (hlines i text hi) he htake
  exact addLines_keeps hstep h hadd

/-- Nothing is required exactly if nothing is recorded, as no operating system has an empty name. -/
theorem isEmpty_iff_held? (hos : r.os ≠ some "") (hfamily : r.osFamily ≠ some "") :
    r.isEmpty = true ↔ ∀ key, r.held? key = none := by
  have hany : ∀ {o : Option String}, o ≠ some "" → (o.any (· ≠ "") = false ↔ o = none) := by
    intro o ho
    cases o with
    | none => simp
    | some text => simpa using ho
  simp only [isEmpty, Bool.and_eq_true, Bool.not_eq_true', List.isEmpty_iff, hany hos,
    hany hfamily]
  constructor
  · rintro ⟨⟨⟨⟨⟨hversions, hos⟩, hfamily⟩, hsettings⟩, hfunctions⟩, hextensions⟩ key
    cases key <;> simp [held?, *]
  · intro h
    have hversions : r.versions = [] :=
      Table.eq_nil_iff_get?.mpr fun p => Option.map_eq_none_iff.mp (h (.platform p))
    have hsettings : r.settings = [] :=
      Table.eq_nil_iff_get?.mpr fun name => Option.map_eq_none_iff.mp (h (.setting name))
    have hfunctions : r.functions = [] :=
      List.eq_nil_iff_forall_not_mem.mpr fun name => by simpa [held?] using h (.function name)
    have hextensions : r.extensions = [] :=
      List.eq_nil_iff_forall_not_mem.mpr fun name => by simpa [held?] using h (.extension name)
    have hos : r.os = none := Option.map_eq_none_iff.mp (h .os)
    have hfamily : r.osFamily = none := Option.map_eq_none_iff.mp (h .osFamily)
    exact ⟨⟨⟨⟨⟨hversions, hos⟩, hfamily⟩, hsettings⟩, hfunctions⟩, hextensions⟩

/-- The name of an operating system is read from its tag, so it is not empty. -/
theorem Mirrors.text_ne (h : r.Mirrors stands) (hkey : key = .os ∨ key = .osFamily) :
    r.held? key ≠ some (.text "") := by
  intro hheld
  have hhas : r.lineOffsets.hasKey key = true := by rw [h.hasKey, hheld, Option.isSome_some]
  rw [Table.hasKey_eq_isSome_get?] at hhas
  obtain ⟨n, hn⟩ := Option.isSome_iff_exists.mp hhas
  obtain ⟨line, value, -, hvalue, hshows⟩ := h.shown key n hn
  obtain rfl := Option.some.inj (hheld.symm.trans hvalue)
  generalize htext : Held.text "" = value at hshows
  cases hshows with
  | os htag _ | osFamily htag _ =>
      exact Dialect.value_ne_of_os htag (Held.text.inj htext).symm
  | _ => simp at hkey

theorem Mirrors.isEmpty_iff (h : r.Mirrors stands) : r.isEmpty = true ↔ r.lineOffsets = [] := by
  have hos : r.os ≠ some "" := fun hr => h.text_ne (.inl rfl) (by rw [held?, hr]; rfl)
  have hfamily : r.osFamily ≠ some "" := fun hr => h.text_ne (.inr rfl) (by rw [held?, hr]; rfl)
  rw [isEmpty_iff_held? hos hfamily, Table.eq_nil_iff_get?]
  have hkey : ∀ key, r.held? key = none ↔ r.lineOffsets.get? key = none := by
    intro key
    rw [← Option.isNone_iff_eq_none, ← Option.isNone_iff_eq_none, ← Option.not_isSome,
      ← Option.not_isSome, ← h.hasKey, Table.hasKey_eq_isSome_get?]
  simp only [hkey]

/-- The line stands at line `n` of the file, as one of the lines of a comment that ends above line
`startLine`. -/
def StandsAbove (startLine : Int) (ls : List (List Char)) (n : Int) (line : List Char) : Prop :=
  ∃ i : Nat, n = startLine - ls.length + i ∧ ls[i]? = some line

theorem Mirrors.isMirrored {startLine : Int} (h : r.Mirrors (StandsAbove startLine ls)) :
    r.IsMirrored startLine ls := by
  have hshown : ∀ e ∈ r.lineOffsets, ∃ line value, StandsAbove startLine ls e.2 line
      ∧ r.held? e.1 = some value ∧ Shows line e.1 value :=
    fun e he => h.shown e.1 e.2 (Table.get?_of_mem h.nodup he)
  constructor
  · exact List.Nodup.map RequirementKey.text_injective h.nodup
  · intro key
    rw [← Table.hasKey_iff, h.hasKey, Option.isSome_iff_ne_none]
  · intro e he
    obtain ⟨_, _, ⟨i, hi, hline⟩, _⟩ := hshown e he
    obtain ⟨hlt, -⟩ := List.getElem?_eq_some_iff.mp hline
    omega
  · intro e he
    obtain ⟨line, value, ⟨i, hi, hline⟩, hvalue, hshows⟩ := hshown e he
    have hindex : (e.2 - (startLine - ls.length)).toNat = i := by omega
    exact ⟨line, value, hindex ▸ hline, hvalue, hshows⟩
  · intro name hname
    have hheld := h.hasVersion name (Table.hasKey_iff.mpr hname)
    simpa [held?] using hheld
  · exact h.isEmpty_iff

/-- The lines that the requirements of a symbol remember mirror its record. -/
theorem ofSymbol_isMirrored (h : (ofSymbol s).result = .ok r) :
    r.IsMirrored s.startLine (lines s.docComment.toList) := by
  obtain ⟨c, path, hc, -, rfl⟩ := ofSymbol_eq_ok_iff.mp h
  have hmirrors : c.Mirrors (StandsAbove s.startLine (lines s.docComment.toList)) :=
    (mirrors_empty _).addLines (fun i _ hi => ⟨i, rfl, hi⟩) hc
  have hmirrored := hmirrors.isMirrored
  exact ⟨hmirrored.nodup, hmirrored.mem_keys_iff, hmirrored.within, hmirrored.shown,
    hmirrored.mem_extensions, hmirrored.isEmpty_iff⟩

/-- A comment that asks for an operating system and for an extension twice. -/
def repeatingSymbol : Symbol :=
  ⟨"/**\n * @requires OS Linux\n * @requires extension redis 2.2\n * @requires OS Darwin\n"
    ++ " * @requires extension redis\n */", "", 20, 25, .null, .null, [], false, none⟩

/-- The lines of the last tags are remembered. -/
theorem ofSymbol_isMirrored_repeating : ∃ r, (ofSymbol repeatingSymbol).result = .ok r
    ∧ r.lineOffsets = [(.os, 17), (.extension "redis", 18)]
    ∧ r.IsMirrored repeatingSymbol.startLine (lines repeatingSymbol.docComment.toList) := by
  let r : Requirements :=
    { os := some "Darwin"
      extensions := ["redis", "redis"]
      extensionVersions := [("redis", ⟨"2.2", ""⟩)]
      lineOffsets := [(.os, 17), (.extension "redis", 18)] }
  have hr : (ofSymbol repeatingSymbol).result = .ok r :=
    ofSymbol_eq_ok_iff.mpr ⟨r, "", by decide +kernel, rfl, rfl⟩
  exact ⟨r, hr, rfl, ofSymbol_isMirrored hr⟩

end Requirements

end DocTags
