import DocTags.Proofs.Requirements.Record
import DocTags.Proofs.Requirements.ScannedExpressions
import DocTags.Proofs.Text.Table

/-!
# Requirements of joined comments

The requirements of a comment are those of its first lines and those of its other lines put
together. Of a platform the first requirement counts, of an operating system, a setting and an
extension's version the last, and of functions and extensions all. A remembered line goes with the
requirement that counts; those of the first part lie as many lines higher as the other part has.

What one entry keeps, whole comments keep: a relation between two records that taking an entry on
related lines preserves is preserved by taking all lines.
-/

namespace DocTags

open Text

/-- The key stands for a platform. -/
def RequirementKey.isPlatform : RequirementKey → Bool
  | platform _ => true
  | _ => false

/-- The symbol with a comment of the given lines. -/
def Symbol.documented (s : Symbol) (ls : List (List Char)) : Symbol :=
  { s with docComment := String.ofList (join ['\n'] ls) }

namespace Requirements

variable {a b r r' t : Requirements} {n : Int} {e : Entry} {ls as bs : List (List Char)}

/-- The requirements with every remembered line moved up by `d`. -/
def movedUp (r : Requirements) (d : Int) : Requirements :=
  { r with lineOffsets := r.lineOffsets.mapValues (· - d) }

/-- Exactly the platforms of which something is required have a line. -/
def Located (r : Requirements) : Prop :=
  ∀ p, r.lineOffsets.hasKey (.platform p) = r.versions.hasKey p

/-- `r` has the requirements `a` and then the requirements `b`. -/
structure Joined (a b r : Requirements) : Prop where
  filePath : r.filePath = a.filePath
  versions : Table.Joined (fun _ => true) a.versions b.versions r.versions
  os : r.os = b.os.or a.os
  osFamily : r.osFamily = b.osFamily.or a.osFamily
  settings : Table.Joined (fun _ => false) a.settings b.settings r.settings
  functions : r.functions = a.functions ++ b.functions
  extensions : r.extensions = a.extensions ++ b.extensions
  extensionVersions :
    Table.Joined (fun _ => false) a.extensionVersions b.extensionVersions r.extensionVersions
  lineOffsets :
    Table.Joined RequirementKey.isPlatform a.lineOffsets b.lineOffsets r.lineOffsets

theorem located_movedUp (r : Requirements) (key : RequirementKey) (n d : Int) :
    (r.movedUp d).located key (n - d) = (r.located key n).movedUp d := by
  simp only [movedUp, located, Table.mapValues_insert]

/-- An entry that is taken can be taken on any other line. -/
theorem take_movedUp (h : r.take n e = .ok r') (d : Int) :
    (r.movedUp d).take (n - d) e = .ok (r'.movedUp d) := by
  cases e with
  | platform p required =>
      obtain ⟨hp, rfl⟩ | ⟨hp, q, rfl, rfl⟩ := take_platform_cases h
      · exact take_platform_of_hasKey (r := r'.movedUp d) hp required
      · rw [take_platform_of_not_hasKey (r := r.movedUp d) hp]
        exact congrArg Except.ok (located_movedUp { r with versions := _ } _ n d)
  | os value =>
      obtain rfl := Except.ok.inj h
      exact congrArg Except.ok (located_movedUp { r with os := _ } _ n d)
  | osFamily value =>
      obtain rfl := Except.ok.inj h
      exact congrArg Except.ok (located_movedUp { r with osFamily := _ } _ n d)
  | setting name value =>
      obtain rfl := Except.ok.inj h
      exact congrArg Except.ok (located_movedUp { r with settings := _ } _ n d)
  | function name =>
      obtain rfl := Except.ok.inj h
      exact congrArg Except.ok (located_movedUp { r with functions := _ } _ n d)
  | extension name required =>
      cases required <;>
        · obtain rfl := Except.ok.inj h
          simp only [take, movedUp, located, Table.mapValues_insert]

theorem Located.movedUp (h : r.Located) (d : Int) : (r.movedUp d).Located :=
  fun p => (Table.hasKey_mapValues (· - d) r.lineOffsets _).trans (h p)

/-- A line of no platform leaves alone what is said of platforms. -/
theorem hasKey_located {key : RequirementKey} (hkey : key.isPlatform = false) (n : Int)
    (r : Requirements) (p : Platform) :
    (r.located key n).lineOffsets.hasKey (.platform p) = r.lineOffsets.hasKey (.platform p) := by
  have hne : key ≠ .platform p := by
    rintro rfl
    cases hkey
  simp [located, Table.hasKey_insert, hne]

theorem Located.take (h : r.Located) (htake : r.take n e = .ok r') : r'.Located := by
  intro p
  cases e with
  | platform p' required =>
      obtain ⟨-, rfl⟩ | ⟨-, q, -, rfl⟩ := take_platform_cases htake
      · exact h p
      · simp [addPlatform, located, Table.hasKey_insert, h p]
  | extension name required =>
      cases required <;>
        · obtain rfl := Except.ok.inj htake
          exact (hasKey_located rfl n _ p).trans (h p)
  | _ =>
      obtain rfl := Except.ok.inj htake
      exact (hasKey_located rfl n _ p).trans (h p)

namespace Joined

theorem nil (a : Requirements) : Joined a {} a where
  filePath := rfl
  versions := .nil _ _
  os := rfl
  osFamily := rfl
  settings := .nil _ _
  functions := (List.append_nil _).symm
  extensions := (List.append_nil _).symm
  extensionVersions := .nil _ _
  lineOffsets := .nil _ _

/-- What is said of no platform is put on record with its line. -/
theorem insert_lineOffsets (h : Joined a b r) {key : RequirementKey}
    (hkey : key.isPlatform = false) (n : Int) :
    Table.Joined RequirementKey.isPlatform a.lineOffsets (b.lineOffsets.insert key n)
      (r.lineOffsets.insert key n) :=
  h.lineOffsets.insert (.inl hkey) n

/-- A platform of which the first part requires something does not change, and one of which it
requires nothing changes like in the other part. -/
theorem take_platform (h : Joined a b r) (ha : a.Located) {p : Platform}
    {required : Except (String × String) PlatformRequirement} {b' : Requirements}
    (hb : b.take n (.platform p required) = .ok b') :
    ∃ r', r.take n (.platform p required) = .ok r' ∧ Joined a b' r' := by
  have hr : r.versions.hasKey p = (a.versions.hasKey p || b.versions.hasKey p) :=
    h.versions.hasKey p
  obtain ⟨hbp, rfl⟩ | ⟨hbp, q, rfl, rfl⟩ := take_platform_cases hb
  · exact ⟨r, take_platform_of_hasKey (by simp [hr, hbp]) required, h⟩
  · cases hap : a.versions.hasKey p with
    | true =>
        have hline : a.lineOffsets.hasKey (.platform p) = true := (ha p).trans hap
        exact ⟨r, take_platform_of_hasKey (by simp [hr, hap]) _,
          { h with
            versions := h.versions.insert_of_kept rfl hap q
            lineOffsets := h.lineOffsets.insert_of_kept rfl hline n }⟩
    | false =>
        have hline : a.lineOffsets.hasKey (.platform p) = false := (ha p).trans hap
        exact ⟨_, take_platform_of_not_hasKey (by simp [hr, hap, hbp]) q,
          { h with
            versions := h.versions.insert (.inr hap) q
            lineOffsets := h.lineOffsets.insert (.inr hline) n }⟩

/-- An entry that is taken after the second part alone is taken after both. -/
theorem take (h : Joined a b r) (ha : a.Located) {b' : Requirements} (hb : b.take n e = .ok b') :
    ∃ r', r.take n e = .ok r' ∧ Joined a b' r' := by
  cases e with
  | platform p required => exact h.take_platform ha hb
  | os value =>
      obtain rfl := Except.ok.inj hb
      exact ⟨_, rfl, { h with os := rfl, lineOffsets := h.insert_lineOffsets rfl n }⟩
  | osFamily value =>
      obtain rfl := Except.ok.inj hb
      exact ⟨_, rfl, { h with osFamily := rfl, lineOffsets := h.insert_lineOffsets rfl n }⟩
  | setting name value =>
      obtain rfl := Except.ok.inj hb
      exact ⟨_, rfl,
        { h with
          settings := h.settings.insert (.inl rfl) value
          lineOffsets := h.insert_lineOffsets rfl n }⟩
  | function name =>
      obtain rfl := Except.ok.inj hb
      have hfunctions : r.functions ++ [name] = a.functions ++ (b.functions ++ [name]) := by
        rw [h.functions, List.append_assoc]
      exact ⟨_, rfl,
        { h with functions := hfunctions, lineOffsets := h.insert_lineOffsets rfl n }⟩
  | extension name required =>
      have hextensions : r.extensions ++ [name] = a.extensions ++ (b.extensions ++ [name]) := by
        rw [h.extensions, List.append_assoc]
      cases required with
      | none =>
          obtain rfl := Except.ok.inj hb
          exact ⟨_, rfl,
            { h with extensions := hextensions, lineOffsets := h.insert_lineOffsets rfl n }⟩
      | some v =>
          obtain rfl := Except.ok.inj hb
          exact ⟨_, rfl,
            { h with
              extensions := hextensions
              extensionVersions := h.extensionVersions.insert (.inl rfl) v
              lineOffsets := h.insert_lineOffsets rfl n }⟩

end Joined

section Lines

variable {R : Requirements → Requirements → Prop} {d : Int}
  (hstep : ∀ {r t r' : Requirements} {n : Int} {e : Entry}, R r t → r.take n e = .ok r' →
    ∃ t', t.take (n - d) e = .ok t' ∧ R r' t')

include hstep in
theorem addLine_related {text : List Char} (h : R r t) (hr : r.addLine n text = .ok r') :
    ∃ t', t.addLine (n - d) text = .ok t' ∧ R r' t' := by
  rw [addLine_eq_foldlM] at hr ⊢
  generalize entries text = es at hr ⊢
  induction es generalizing r t with
  | nil =>
      obtain rfl := Except.ok.inj hr
      exact ⟨t, rfl, h⟩
  | cons e es ih =>
      rw [List.foldlM_cons] at hr ⊢
      cases hfirst : r.take n e with
      | error m =>
          rw [hfirst] at hr
          cases hr
      | ok r₁ =>
          rw [hfirst] at hr
          obtain ⟨t₁, ht, h₁⟩ := hstep h hfirst
          rw [ht]
          exact ih h₁ hr

include hstep in
/-- A relation that is kept by every entry is kept by lines, also if they stand elsewhere. -/
theorem addLines_related (h : R r t) (hr : r.addLines n ls = .ok r') :
    ∃ t', t.addLines (n - d) ls = .ok t' ∧ R r' t' := by
  induction ls generalizing r t n with
  | nil =>
      obtain rfl := Except.ok.inj hr
      exact ⟨t, rfl, h⟩
  | cons line ls ih =>
      rw [addLines] at hr ⊢
      cases hfirst : r.addLine n line with
      | error m =>
          rw [hfirst] at hr
          cases hr
      | ok r₁ =>
          rw [hfirst] at hr
          obtain ⟨t₁, ht, h₁⟩ := addLine_related hstep h hfirst
          obtain ⟨t', ht', h'⟩ := ih h₁ hr
          have hn : n + 1 - d = n - d + 1 := by omega
          rw [hn] at ht'
          rw [ht]
          exact ⟨t', ht', h'⟩

end Lines

theorem movedUp_related {d : Int} (h : Located r ∧ t = r.movedUp d) (hr : r.take n e = .ok r') :
    ∃ t', t.take (n - d) e = .ok t' ∧ Located r' ∧ t' = r'.movedUp d := by
  obtain ⟨hlocated, rfl⟩ := h
  exact ⟨_, take_movedUp hr d, hlocated.take hr, rfl⟩

theorem joined_related (ha : a.Located) (h : Joined a r t) (hr : r.take n e = .ok r') :
    ∃ t', t.take (n - 0) e = .ok t' ∧ Joined a r' t' := by
  rw [Int.sub_zero]
  exact h.take ha hr

/-- Lines without line ends in them are the lines of the comment that they make. The comment of no
lines has an empty one, which requires nothing. -/
theorem ofComment_join (hls : ∀ line ∈ ls, '\n' ∉ line ∧ '\r' ∉ line) (startLine : Int) :
    ofComment startLine (join ['\n'] ls) = addLines {} (startLine - ls.length) ls := by
  cases ls with
  | nil =>
      have hempty : ∀ line ∈ lines [], '@' ∉ line := by decide
      exact addLines_of_forall {} _ hempty
  | cons line ls => rw [ofComment, lines_join (List.cons_ne_nil line ls) hls]

/-- The symbol's file is looked up if its comment can be read. -/
theorem ofSymbol_documented_eq_ok_iff {s : Symbol} :
    (ofSymbol (s.documented ls)).result = .ok r
      ↔ ∃ c path, ofComment s.startLine (join ['\n'] ls) = .ok c ∧ fileOf s = .ok path
        ∧ r = { c with filePath := path } := by
  rw [ofSymbol_eq_ok_iff, Symbol.documented, String.toList_ofList]
  exact Iff.rfl

section Parts

variable {ra rb : Requirements} (hla : ∀ line ∈ as, '\n' ∉ line ∧ '\r' ∉ line)
  (hlb : ∀ line ∈ bs, '\n' ∉ line ∧ '\r' ∉ line)

include hla hlb

/-- The requirements of lines after other lines are put together from the requirements of both. -/
theorem ofComment_join_append {startLine : Int}
    (ha : ofComment startLine (join ['\n'] as) = .ok ra)
    (hb : ofComment startLine (join ['\n'] bs) = .ok rb) :
    ∃ r, ofComment startLine (join ['\n'] (as ++ bs)) = .ok r
      ∧ Joined (ra.movedUp bs.length) rb r := by
  rw [ofComment_join hla] at ha
  rw [ofComment_join hlb] at hb
  rw [ofComment_join (List.forall_mem_append.mpr ⟨hla, hlb⟩), addLines_append]
  have hempty : Located {} ∧ ({} : Requirements) = movedUp {} bs.length := ⟨fun _ => rfl, rfl⟩
  obtain ⟨_, hra, hlocated, rfl⟩ := addLines_related movedUp_related hempty ha
  obtain ⟨r, hr, hjoined⟩ := addLines_related (joined_related (hlocated.movedUp bs.length))
    (Joined.nil (ra.movedUp bs.length)) hb
  have hfirst : startLine - ((as ++ bs).length : Int) = startLine - as.length - bs.length := by
    rw [List.length_append]
    omega
  have hsecond : startLine - as.length - bs.length + (as.length : Int)
      = startLine - bs.length - 0 := by omega
  refine ⟨r, ?_, hjoined⟩
  rw [hfirst, hra, Except.bind, hsecond]
  exact hr

/-- The requirements of a symbol whose comment is put together from two lists of lines are put
together from those of the symbol with each of the two as its comment. -/
theorem ofSymbol_documented_append (s : Symbol)
    (ha : (ofSymbol (s.documented as)).result = .ok ra)
    (hb : (ofSymbol (s.documented bs)).result = .ok rb) :
    ∃ r, (ofSymbol (s.documented (as ++ bs))).result = .ok r
      ∧ Joined (ra.movedUp bs.length) rb r := by
  obtain ⟨ca, path, hca, hpath, rfl⟩ := ofSymbol_documented_eq_ok_iff.mp ha
  obtain ⟨cb, path', hcb, -, rfl⟩ := ofSymbol_documented_eq_ok_iff.mp hb
  obtain ⟨c, hc, hjoined⟩ := ofComment_join_append hla hlb hca hcb
  refine ⟨_, ofSymbol_documented_eq_ok_iff.mpr ⟨c, path, hc, hpath, rfl⟩, ?_⟩
  exact { hjoined with filePath := rfl }

end Parts

/-- Lines that ask for a version, a system and an extension. -/
def askingLines : List (List Char) :=
  ["@requires PHP 7.4", "@requires OS Linux", "@requires extension redis 2.2"].map String.toList

/-- Lines that ask for other ones. -/
def otherLines : List (List Char) :=
  ["@requires PHP >= 8.0", "@requires extension redis", "@requires OS Darwin"].map String.toList

/-- Two parts that ask for the same things. -/
theorem ofSymbol_asking_append_other : ∃ (s : Symbol) (ra rb r : Requirements),
    (∀ line ∈ askingLines, '\n' ∉ line ∧ '\r' ∉ line)
      ∧ (∀ line ∈ otherLines, '\n' ∉ line ∧ '\r' ∉ line)
      ∧ (ofSymbol (s.documented askingLines)).result = .ok ra
      ∧ (ofSymbol (s.documented otherLines)).result = .ok rb
      ∧ (ofSymbol (s.documented (askingLines ++ otherLines))).result = .ok r
      ∧ Joined (ra.movedUp otherLines.length) rb r := by
  let s : Symbol := ⟨"", "", 20, 25, .null, .null, [], false, none⟩
  let ra : Requirements :=
    { versions := [(.php, .version ⟨"7.4", ""⟩)]
      os := some "Linux"
      extensions := ["redis"]
      extensionVersions := [("redis", ⟨"2.2", ""⟩)]
      lineOffsets := [(.platform .php, 17), (.os, 18), (.extension "redis", 19)] }
  let rb : Requirements :=
    { versions := [(.php, .version ⟨"8.0", ">="⟩)]
      os := some "Darwin"
      extensions := ["redis"]
      lineOffsets := [(.platform .php, 17), (.extension "redis", 18), (.os, 19)] }
  have hla : ∀ line ∈ askingLines, '\n' ∉ line ∧ '\r' ∉ line := by decide
  have hlb : ∀ line ∈ otherLines, '\n' ∉ line ∧ '\r' ∉ line := by decide
  have ha : (ofSymbol (s.documented askingLines)).result = .ok ra :=
    ofSymbol_documented_eq_ok_iff.mpr ⟨ra, "", by decide +kernel, rfl, rfl⟩
  have hb : (ofSymbol (s.documented otherLines)).result = .ok rb :=
    ofSymbol_documented_eq_ok_iff.mpr ⟨rb, "", by decide +kernel, rfl, rfl⟩
  obtain ⟨r, hr, hjoined⟩ := ofSymbol_documented_append hla hlb s ha hb
  exact ⟨s, ra, rb, r, hla, hlb, ha, hb, hr, hjoined⟩

end Requirements

end DocTags
