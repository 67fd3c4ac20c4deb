import DocTags.Proofs.Fallible
import DocTags.Proofs.Requirements.Entries
import DocTags.Proofs.Text.Table

/-!
# The record as a table

The parts of the requirements make one table from keys to what is recorded under them. An entry puts
its value under its key and remembers its line there, unless it is for a platform of which something
is required already.
-/

namespace DocTags.Requirements

/-- What is recorded under a key. A function or an extension is listed and no more. -/
inductive Held where
  | platform (required : PlatformRequirement)
  | text (value : String)
  | listed

/-- What is recorded under a key, if anything. -/
def held? (r : Requirements) : RequirementKey → Option Held
  | .platform p => (r.versions.get? p).map .platform
  | .os => r.os.map .text
  | .osFamily => r.osFamily.map .text
  | .setting name => (r.settings.get? name).map .text
  | .function name => if name ∈ r.functions then some .listed else none
  | .extension name => if name ∈ r.extensions then some .listed else none

namespace Entry

/-- The key of an entry. -/
def key : Entry → RequirementKey
  | os _ => .os
  | osFamily _ => .osFamily
  | platform p _ => .platform p
  | setting name _ => .setting name
  | function name => .function name
  | extension name _ => .extension name

/-- What an entry puts under its key. -/
def held : Entry → Except (String × String) Held
  | os value | osFamily value | setting _ value => .ok (.text value)
  | platform _ required => required.map .platform
  | function _ | extension .. => .ok .listed

end Entry

/-- `r'` is the record `r` with a value under a key, read from a line. -/
structure Puts (r : Requirements) (line : Int) (key : RequirementKey) (value : Held)
    (r' : Requirements) : Prop where
  held? : ∀ other, r'.held? other = if key = other then some value else r.held? other
  lineOffsets : r'.lineOffsets = r.lineOffsets.insert key line
  extensionVersions : ∀ name, r'.extensionVersions.hasKey name = true →
    key = .extension name ∨ r.extensionVersions.hasKey name = true

variable {r r' : Requirements} {n line : Int} {e : Entry} {key : RequirementKey} {value : Held}
  {m : MalformedConstraint} {text : List Char} {ls : List (List Char)}

theorem held?_platform_eq_none {p : Platform} :
    r.held? (.platform p) = none ↔ r.versions.hasKey p = false := by
  rw [Table.hasKey_eq_isSome_get?, held?, Option.map_eq_none_iff, Option.isSome_eq_false_iff,
    Option.isNone_iff_eq_none]

theorem puts_addPlatform (r : Requirements) (line : Int) (p : Platform)
    (required : PlatformRequirement) :
    Puts r line (.platform p) (.platform required) (r.addPlatform line p required) where
  held? other := by
    cases other with
    | platform p' =>
        by_cases hp : p = p' <;> simp [held?, addPlatform, located, Table.get?_insert, hp]
    | _ => rfl
  lineOffsets := rfl
  extensionVersions _ h := .inr h

theorem puts_setting (r : Requirements) (line : Int) (name value : String) :
    Puts r line (.setting name) (.text value)
      ({ r with settings := r.settings.insert name value }.located (.setting name) line) where
  held? other := by
    cases other with
    | setting name' =>
        by_cases hname : name = name' <;> simp [held?, located, Table.get?_insert, hname]
    | _ => rfl
  lineOffsets := rfl
  extensionVersions _ h := .inr h

theorem puts_function (r : Requirements) (line : Int) (name : String) :
    Puts r line (.function name) .listed
      ({ r with functions := r.functions ++ [name] }.located (.function name) line) where
  held? other := by
    cases other with
    | function name' =>
        by_cases hname : name = name' <;> simp [held?, located, hname, eq_comm]
    | _ => rfl
  lineOffsets := rfl
  extensionVersions _ h := .inr h

/-- An extension is listed, and its version, if it has one, is put under its name. -/
theorem puts_extension (r : Requirements) (line : Int) (name : String)
    {versions : Table String VersionRequirement}
    (hversions : ∀ other, versions.hasKey other = true →
      name = other ∨ r.extensionVersions.hasKey other = true) :
    Puts r line (.extension name) .listed
      { r with
        extensions := r.extensions ++ [name]
        extensionVersions := versions
        lineOffsets := r.lineOffsets.insert (.extension name) line } where
  held? other := by
    cases other with
    | extension name' =>
        by_cases hname : name = name' <;> simp [held?, hname, eq_comm]
    | _ => rfl
  lineOffsets := rfl
  extensionVersions other h := (hversions other h).imp_left (congrArg RequirementKey.extension)

/-- What taking an entry does: nothing if it is for a platform that has its requirement, and
otherwise its value is put under its key. -/
theorem take_cases (h : r.take line e = .ok r') :
    (∃ p, e.key = .platform p ∧ r.held? e.key ≠ none ∧ r' = r)
      ∨ ((∀ p, e.key = .platform p → r.held? e.key = none)
        ∧ ∃ value, e.held = .ok value ∧ Puts r line e.key value r') := by
  cases e with
  | platform p required =>
      obtain ⟨hp, rfl⟩ | ⟨hp, q, rfl, rfl⟩ := take_platform_cases h
      · have hheld : r'.held? (.platform p) ≠ none := by
          rw [Ne, held?_platform_eq_none, hp]
          exact Bool.noConfusion
        exact .inl ⟨p, rfl, hheld, rfl⟩
      · have hnone : r.held? (.platform p) = none := held?_platform_eq_none.mpr hp
        exact .inr ⟨fun _ _ => hnone, _, rfl, puts_addPlatform r line p q⟩
  | os value =>
      obtain rfl := Except.ok.inj h
      refine .inr ⟨nofun, _, rfl, ⟨fun other => ?_, rfl, fun _ h => .inr h⟩⟩
      cases other <;> rfl
  | osFamily value =>
      obtain rfl := Except.ok.inj h
      refine .inr ⟨nofun, _, rfl, ⟨fun other => ?_, rfl, fun _ h => .inr h⟩⟩
      cases other <;> rfl
  | setting name value =>
      obtain rfl := Except.ok.inj h
      exact .inr ⟨nofun, _, rfl, puts_setting r line name value⟩
  | function name =>
      obtain rfl := Except.ok.inj h
      exact .inr ⟨nofun, _, rfl, puts_function r line name⟩
  | extension name required =>
      cases required with
      | none =>
          obtain rfl := Except.ok.inj h
          exact .inr ⟨nofun, _, rfl, puts_extension r line name fun _ h => .inr h⟩
      | some v =>
          obtain rfl := Except.ok.inj h
          refine .inr ⟨nofun, _, rfl, puts_extension r line name fun other h => ?_⟩
          simpa [Table.hasKey_insert, located] using h

/-- An entry cannot be taken exactly if it is a constraint that is none, for a platform of which
nothing is required yet. -/
theorem take_eq_error_iff :
    r.take line e = .error m
      ↔ r.held? (.platform m.platform) = none ∧ m.line = line
        ∧ e = .platform m.platform (.error (m.expression, m.reason)) := by
  constructor
  · intro h
    cases e with
    | platform p required =>
        cases hp : r.versions.hasKey p with
        | true =>
            rw [take_platform_of_hasKey hp] at h
            cases h
        | false =>
            cases required with
            | ok q =>
                rw [take_platform_of_not_hasKey hp] at h
                cases h
            | error x =>
                have hm : ⟨p, x.1, line, x.2⟩ = m := by simpa [take, hp] using h
                subst hm
                exact ⟨held?_platform_eq_none.mpr hp, rfl, rfl⟩
    | extension name required => cases required <;> cases h
    | _ => cases h
  · rintro ⟨hnone, rfl, rfl⟩
    simp [take, held?_platform_eq_none.mp hnone]

/-- What the entries of a line keep, the line keeps. -/
theorem foldlM_take_keeps {I : Requirements → Prop} {es : List Entry}
    (hstep : ∀ e ∈ es, ∀ {r r'}, I r → r.take line e = .ok r' → I r') (hr : I r)
    (h : es.foldlM (take · line) r = .ok r') : I r' := by
  induction es generalizing r with
  | nil =>
      obtain rfl := Except.ok.inj h
      exact hr
  | cons e es ih =>
      rw [List.forall_mem_cons] at hstep
      rw [List.foldlM_cons] at h
      obtain ⟨r₁, hfirst, h⟩ := exists_of_bind_eq_ok h
      exact ih hstep.2 (hstep.1 hr hfirst) h

/-- What every entry keeps on the line where it stands, all lines keep. -/
theorem addLines_keeps {I : Requirements → Prop}
    (hstep : ∀ (i : Nat) (text : List Char), ls[i]? = some text → ∀ e ∈ entries text,
      ∀ {r r'}, I r → r.take (n + i) e = .ok r' → I r')
    (hr : I r) (h : r.addLines n ls = .ok r') : I r' := by
  induction ls generalizing r n with
  | nil =>
      obtain rfl := Except.ok.inj h
      exact hr
  | cons text ls ih =>
      rw [addLines] at h
      obtain ⟨r₁, hfirst, h⟩ := exists_of_bind_eq_ok h
      rw [addLine_eq_foldlM] at hfirst
      have hline : ∀ e ∈ entries text, ∀ {r r'}, I r → r.take n e = .ok r' → I r' := by
        intro e he r r' hr htake
        exact hstep 0 text rfl e he hr (by simpa using htake)
      refine ih (n := n + 1) ?_ (foldlM_take_keeps hline hr hfirst) h
      intro i text' hi e he r r' hr htake
      have hn : n + 1 + (i : Int) = n + ((i + 1 : Nat) : Int) := by omega
      exact hstep (i + 1) text' hi e he hr (hn ▸ htake)

variable {s : Symbol}

/-- A symbol has requirements if its comment can be read and its file can be looked up. -/
theorem ofSymbol_eq_ok_iff :
    (ofSymbol s).result = .ok r
      ↔ ∃ c path, ofComment s.startLine s.docComment.toList = .ok c ∧ fileOf s = .ok path
        ∧ r = { c with filePath := path } := by
  rw [ofSymbol]
  cases ofComment s.startLine s.docComment.toList with
  | error m => simp [Except.bind]
  | ok c =>
      cases fileOf s with
      | error e => simp
      | ok path => simp [eq_comm, Except.bind]

/-- The only problem with the requirements of a symbol is a constraint that is none. -/
theorem ofSymbol_eq_problem_iff {p : Problem} :
    (ofSymbol s).result = .error (.problem p)
      ↔ ∃ m, ofComment s.startLine s.docComment.toList = .error m ∧ m.problem = p := by
  rw [ofSymbol]
  cases ofComment s.startLine s.docComment.toList with
  | error m => simp [Except.bind]
  | ok c => cases fileOf s <;> simp [Except.bind]

end DocTags.Requirements
