import DocTags.Proofs.Datum.Entries
import DocTags.Proofs.Fallible
import DocTags.Settings.Validation
import Mathlib.Data.Fintype.Basic

/-!
# Layers of settings

A layer is a mapping of sections, each a mapping of settings. When a layer is laid over others,
every setting that it holds replaces the one below, and no other setting changes.
-/

namespace DocTags

open Datum

/-- The settings, by section. -/
inductive Setting where
  | level
  | outputs
  | resolveConstants
  | instantiateProviders
  | defaultModule
  | format
  | indent
  deriving DecidableEq, Repr

namespace Setting

instance : Fintype Setting where
  elems := {level, outputs, resolveConstants, instantiateProviders, defaultModule, format, indent}
  complete := by
    intro x
    cases x <;> decide

/-- The name of the setting's section. -/
def sectionName : Setting → String
  | level | outputs => "logging"
  | resolveConstants | instantiateProviders | defaultModule => "extraction"
  | format | indent => "output"

/-- The name of the setting in its section. -/
def name : Setting → String
  | level => "level"
  | outputs => "outputs"
  | resolveConstants => "resolve_constants"
  | instantiateProviders => "instantiate_providers"
  | defaultModule => "default_module"
  | format => "format"
  | indent => "indent"

/-- The type of the setting's values. -/
abbrev Value : Setting → Type
  | level => Level
  | outputs => List LogOutput
  | resolveConstants | instantiateProviders => Bool
  | defaultModule => Option String
  | format => OutputFormat
  | indent => Nat

/-- The setting among all settings. -/
def of (s : Settings) : (x : Setting) → x.Value
  | level => s.logging.level
  | outputs => s.logging.outputs
  | resolveConstants => s.extraction.resolveConstants
  | instantiateProviders => s.extraction.instantiateProviders
  | defaultModule => s.extraction.defaultModule
  | format => s.output.format
  | indent => s.output.indent

/-- Reads a value of the setting. -/
def read (homes : Homes) : (x : Setting) → SettingReader x.Value
  | level => .word Level.key Level.all
  | outputs => .list (LogOutput.read homes)
  | resolveConstants => .truth
  | instantiateProviders => .truth
  | defaultModule => .optional .text
  | format => .word OutputFormat.key OutputFormat.all
  | indent => .indent

/-- Reads the value that is given for the setting; without one the setting has its default. -/
def readGiven (homes : Homes) (x : Setting) : Option Datum → Except Refusal x.Value
  | none => .ok (x.of {})
  | some d => x.read homes d

/-- The value is one for the setting. -/
def Accepts (homes : Homes) (x : Setting) (d : Datum) : Prop :=
  ∃ a, x.read homes d = .ok a

variable {homes : Homes}

theorem sectionName_mem (x : Setting) : x.sectionName ∈ Settings.sections := by
  cases x <;> decide

/-- A section has one setting of each name. -/
theorem eq_of_names {x y : Setting} (hsection : x.sectionName = y.sectionName)
    (hname : x.name = y.name) : x = y := by
  have hall : ∀ x y : Setting, x.sectionName = y.sectionName → x.name = y.name → x = y := by decide
  exact hall x y hsection hname

instance (x : Setting) (d : Datum) : Decidable (x.Accepts homes d) :=
  decidable_of_iff (∃ a, x.read homes d = .ok a ∧ True) (by simp [Accepts])

/-- No setting takes a mapping. -/
theorem Accepts.not_map {x : Setting} {d : Datum} (h : x.Accepts homes d)
    (m : List (Datum × Datum)) : d.opened ≠ .map m := by
  intro hmap
  obtain ⟨a, ha⟩ := h
  have hd : (∃ es, d = .map es) ∨ ∃ containers number, d = .knot containers number := by
    cases d with
    | map es => exact .inl ⟨es, rfl⟩
    | knot containers number => exact .inr ⟨containers, number, rfl⟩
    | _ => cases hmap
  have houtputs : SettingReader.list (LogOutput.read homes) d
      = SettingReader.reject d "Input should be a valid list" := by
    rw [SettingReader.list, hmap]
  cases x with
  | outputs => cases houtputs.symm.trans ha
  | _ => rcases hd with ⟨es, rfl⟩ | ⟨containers, number, rfl⟩ <;> cases ha

end Setting

namespace Settings

/-- The value under a name in a section, as it is looked at. -/
def fieldIn (opening : Bool) (name : String) (d : Datum) : Option Datum :=
  match seen opening d with
  | .map inner => field? inner name
  | _ => none

/-- What is written for a setting in a mapping of sections. -/
def written? (opening : Bool) (es : List (Datum × Datum)) (x : Setting) : Option Datum :=
  (field? es x.sectionName).bind (fieldIn opening x.name)

/-- Everything in a mapping is a section. -/
def HasSections (opening : Bool) (es : List (Datum × Datum)) : Prop :=
  ∀ e ∈ es, (∃ name ∈ sections, e.1 = .text name) ∧ ∃ inner, seen opening e.2 = .map inner

/-- The entries of a section: values for settings of its own. -/
structure IsSection (homes : Homes) (sectionName : String) (es : List (Datum × Datum)) : Prop where
  keysDiffer : KeysDiffer es
  settings : ∀ e ∈ es, ∃ x : Setting, x.sectionName = sectionName ∧ e.1 = .text x.name
    ∧ x.Accepts homes e.2

/-- A mapping of sections, each with values for settings of its own. -/
structure IsLayer (homes : Homes) (opening : Bool) (es : List (Datum × Datum)) : Prop where
  hasSections : HasSections opening es
  keysDiffer : KeysDiffer es
  isSection : ∀ name v inner, (.text name, v) ∈ es → seen opening v = .map inner →
    IsSection homes name inner

variable {homes : Homes} {opening : Bool} {es below above inner : List (Datum × Datum)}
  {d k v : Datum} {old : Option Datum} {name : String} {x : Setting}

theorem fieldIn_of_seen (h : seen opening v = .map inner) (name : String) :
    fieldIn opening name v = field? inner name := by
  rw [fieldIn, h]

theorem written?_nil (opening : Bool) (x : Setting) : written? opening [] x = none := rfl

theorem written?_cons_self (h : name = x.sectionName) :
    written? opening ((.text name, v) :: es) x = fieldIn opening x.name v := by
  rw [written?, h, field?_cons_self, Option.bind_some]

theorem written?_cons_of_ne (h : name ≠ x.sectionName) :
    written? opening ((.text name, v) :: es) x = written? opening es x := by
  rw [written?, field?_cons_of_ne (by simpa using h), written?]

theorem written?_insertEntry (es : List (Datum × Datum)) (name : String) (v : Datum) (x : Setting) :
    written? opening (insertEntry es (.text name) v) x
      = if name = x.sectionName then fieldIn opening x.name v else written? opening es x := by
  rw [written?, field?_insertEntry]
  split
  · rw [Option.bind_some]
  · rw [written?]

theorem isLayer_nil (homes : Homes) (opening : Bool) : IsLayer homes opening [] where
  hasSections := fun _ he => absurd he List.not_mem_nil
  keysDiffer := .nil
  isSection := fun _ _ _ hmem => absurd hmem List.not_mem_nil

/-- A layer holds values for settings only. -/
theorem IsLayer.accepts (h : IsLayer homes opening es) (hd : written? opening es x = some d) :
    x.Accepts homes d := by
  obtain ⟨v, hv, hfield⟩ := Option.bind_eq_some_iff.mp hd
  have hmem := exists_mem_of_field? hv
  obtain ⟨-, inner, hseen⟩ := h.hasSections _ hmem
  rw [fieldIn_of_seen hseen] at hfield
  obtain ⟨y, hsection, hname, haccepts⟩ :=
    (h.isSection _ _ inner hmem hseen).settings _ (exists_mem_of_field? hfield)
  obtain rfl := Setting.eq_of_names hsection (text.inj hname).symm
  exact haccepts

/-- A section that is laid over what stood in its place keeps what it does not replace. -/
theorem exists_seen_laid (hold : ∀ u ∈ old, ∃ a, seen opening u = .map a)
    (hv : seen opening v = .map inner) (hdiffer : KeysDiffer inner)
    (htext : ∀ f ∈ inner, ∃ key, f.1 = .text key) :
    ∃ both, seen opening (laid opening old v) = .map both
      ∧ ∀ name, field? both name = (field? inner name).or (old.bind (fieldIn opening name)) := by
  cases old with
  | none =>
      have hlaid : laid opening none v = v := laid_of_not (by simp)
      exact ⟨inner, by rw [hlaid, hv], fun name => by rw [Option.bind_none, Option.or_none]⟩
  | some u =>
      obtain ⟨a, ha⟩ := hold u rfl
      have hlaid : laid opening (some u) v = .map (inserted a inner) :=
        laid_of_maps (congrArg some ha) hv
      refine ⟨inserted a inner, ?_, fun name => ?_⟩
      · rw [hlaid, seen_map]
      · rw [field?_inserted hdiffer htext, Option.bind_some, fieldIn_of_seen ha]

theorem HasSections.of_cons (h : HasSections opening ((k, v) :: es)) :
    (∃ name ∈ sections, k = .text name) ∧ (∃ inner, seen opening v = .map inner)
      ∧ HasSections opening es := by
  rw [HasSections, List.forall_mem_cons] at h
  exact ⟨h.1.1, h.1.2, h.2⟩

theorem IsLayer.of_cons (h : IsLayer homes opening ((k, v) :: es)) : IsLayer homes opening es where
  hasSections := h.hasSections.of_cons.2.2
  keysDiffer := h.keysDiffer.of_cons
  isSection name v inner hv := h.isSection name v inner (List.mem_cons_of_mem _ hv)

/-- One section is laid over others: each of its settings has the value of the section, or else the
value below, and no setting of another section changes. -/
theorem exists_layer?_cons (hbelow : HasSections opening below) (hname : name ∈ sections)
    (hv : seen opening v = .map inner) (hsection : IsSection homes name inner) :
    ∃ done, HasSections opening done
      ∧ layer? opening below ((.text name, v) :: above) = layer? opening done above
      ∧ ∀ x, written? opening done x
        = if name = x.sectionName then (fieldIn opening x.name v).or (written? opening below x)
          else written? opening below x := by
  have hold : ∀ u ∈ field? below name, ∃ a, seen opening u = .map a :=
    fun u hu => (hbelow _ (exists_mem_of_field? hu)).2
  have htext : ∀ f ∈ inner, ∃ key, f.1 = .text key := by
    intro f hf
    obtain ⟨x, -, hx, -⟩ := hsection.settings f hf
    exact ⟨x.name, hx⟩
  have hflat : ∀ b, seen opening v = .map b → ∀ f ∈ b, ∀ m, f.2.opened ≠ .map m := by
    intro b hb f hf
    obtain rfl := map.inj (hv.symm.trans hb)
    obtain ⟨x, -, -, hx⟩ := hsection.settings f hf
    exact hx.not_map
  obtain ⟨both, hboth, hfields⟩ := exists_seen_laid hold hv hsection.keysDiffer htext
  refine ⟨insertEntry below (.text name) (laid opening (field? below name) v), ?_,
    layer?_cons hflat, fun x => ?_⟩
  · intro e he
    rcases mem_insertEntry he with he | rfl
    · exact hbelow e he
    · exact ⟨⟨name, hname, rfl⟩, both, hboth⟩
  · rw [written?_insertEntry]
    by_cases hx : name = x.sectionName
    · rw [if_pos hx, if_pos hx, fieldIn_of_seen hboth, fieldIn_of_seen hv, hfields, written?, hx]
    · rw [if_neg hx, if_neg hx]

/-- A layer is laid over others without a fault, and each setting has the value of the layer, or
else the value below. -/
theorem exists_layer? (hbelow : HasSections opening below) (habove : IsLayer homes opening above) :
    ∃ es, layer? opening below above = some es ∧ HasSections opening es
      ∧ ∀ x, written? opening es x = (written? opening above x).or (written? opening below x) := by
  induction above generalizing below with
  | nil =>
      refine ⟨below, ?_, hbelow, fun x => by rw [written?_nil, Option.none_or]⟩
      cases opening with
      | false => rw [layer?_false, overlayEntries_nil]
      | true => rfl
  | cons e above ih =>
      obtain ⟨k, v⟩ := e
      obtain ⟨⟨name, hname, rfl⟩, ⟨inner, hv⟩, -⟩ := habove.hasSections.of_cons
      have hsection := habove.isSection name v inner List.mem_cons_self hv
      obtain ⟨done, hdone, hstep, hdoneWritten⟩ := exists_layer?_cons hbelow hname hv hsection
      obtain ⟨es, hes, hsections, hwritten⟩ := ih hdone habove.of_cons
      refine ⟨es, hstep.trans hes, hsections, fun x => ?_⟩
      rw [hwritten, hdoneWritten]
      by_cases hx : name = x.sectionName
      -- The keys of a layer differ: what stands behind the section says nothing about it.
      · have hnone : written? opening above x = none := by
          rw [written?, ← hx, habove.keysDiffer.field?_eq_none, Option.bind_none]
        rw [if_pos hx, hnone, Option.none_or, written?_cons_self hx]
      · rw [if_neg hx, written?_cons_of_ne hx]

theorem opened_of_seen (h : seen opening v = .map inner) : v.opened = .map inner := by
  cases opening with
  | false =>
      obtain rfl : v = .map inner := h
      rfl
  | true => exact h

theorem field_of_none {α : Type} {read : SettingReader α} (h : field? es name = none) (absent : α) :
    SettingReader.field es name absent read = .ok absent := by
  rw [SettingReader.field, h]

theorem field_of_some {α : Type} {read : SettingReader α} {value : α} (h : field? es name = some v)
    (hv : read v = .ok value) (absent : α) :
    SettingReader.field es name absent read = .ok value := by
  rw [SettingReader.field, h]
  exact congrArg (Except.mapError (Refusal.inside name)) hv

theorem field_of_readGiven {a : x.Value} (h : x.readGiven homes (field? inner x.name) = .ok a) :
    SettingReader.field inner x.name (x.of {}) (x.read homes) = .ok a := by
  cases hd : field? inner x.name with
  | none =>
      rw [hd] at h
      rw [field_of_none hd, ← h, Setting.readGiven]
  | some d =>
      rw [hd] at h
      exact field_of_some hd h _

variable {a : (x : Setting) → x.Value}

/-- A section is read setting by setting. -/
theorem field_of_written? {α : Type} {read : SettingReader α} {absent value : α} (name : String)
    (h : HasSections opening es)
    (hread : ∀ x : Setting, x.readGiven homes (written? opening es x) = .ok (a x))
    (habsent : (∀ x : Setting, x.sectionName = name → a x = x.of {}) → absent = value)
    (hsection : ∀ v inner, v.opened = .map inner →
      (∀ x : Setting, x.sectionName = name →
        SettingReader.field inner x.name (x.of {}) (x.read homes) = .ok (a x)) →
      read v = .ok value) :
    SettingReader.field es name absent read = .ok value := by
  cases hd : field? es name with
  | none =>
      rw [field_of_none hd, habsent]
      rintro x rfl
      have hx := hread x
      rw [written?, hd, Option.bind_none] at hx
      exact (Except.ok.inj hx).symm
  | some v =>
      obtain ⟨inner, hv⟩ := (h _ (exists_mem_of_field? hd)).2
      refine field_of_some hd (hsection v inner (opened_of_seen hv) ?_) absent
      rintro x rfl
      have hx := hread x
      rw [written?, hd, Option.bind_some, fieldIn_of_seen hv] at hx
      exact field_of_readGiven hx

theorem entries_of_opened (h : v.opened = .map inner) (name : String) :
    SettingReader.entries name v = .ok inner := by
  rw [SettingReader.entries, h]

section Sections

variable (h : HasSections opening es)
  (hread : ∀ x : Setting, x.readGiven homes (written? opening es x) = .ok (a x))

include h hread

theorem logging_of_written? :
    SettingReader.field es "logging" {} (LogSettings.read · homes)
      = .ok ⟨a .level, a .outputs⟩ := by
  refine field_of_written? "logging" h hread (fun habsent => ?_) fun v inner hv hfields => ?_
  · rw [habsent .level rfl, habsent .outputs rfl]
    rfl
  · have hlevel : SettingReader.field inner "level" .warning (.word Level.key Level.all)
        = .ok (a .level) := hfields .level rfl
    have houtputs : SettingReader.field inner "outputs" [{}] (.list (LogOutput.read homes))
        = .ok (a .outputs) := hfields .outputs rfl
    simp only [LogSettings.read, entries_of_opened hv, hlevel, houtputs,
      SettingReader.unlessFault_ok, bind, Except.bind, pure, Except.pure]

theorem extraction_of_written? :
    SettingReader.field es "extraction" {} ExtractionSettings.read
      = .ok ⟨a .resolveConstants, a .instantiateProviders, a .defaultModule⟩ := by
  refine field_of_written? "extraction" h hread (fun habsent => ?_) fun v inner hv hfields => ?_
  · rw [habsent .resolveConstants rfl, habsent .instantiateProviders rfl,
      habsent .defaultModule rfl]
    rfl
  · have hresolve : SettingReader.field inner "resolve_constants" true .truth
        = .ok (a .resolveConstants) := hfields .resolveConstants rfl
    have hinstantiate : SettingReader.field inner "instantiate_providers" true .truth
        = .ok (a .instantiateProviders) := hfields .instantiateProviders rfl
    have hmodule : SettingReader.field inner "default_module" none (.optional .text)
        = .ok (a .defaultModule) := hfields .defaultModule rfl
    simp only [ExtractionSettings.read, entries_of_opened hv, hresolve, hinstantiate, hmodule, bind,
      Except.bind, pure, Except.pure]

theorem output_of_written? :
    SettingReader.field es "output" {} OutputSettings.read = .ok ⟨a .format, a .indent⟩ := by
  refine field_of_written? "output" h hread (fun habsent => ?_) fun v inner hv hfields => ?_
  · rw [habsent .format rfl, habsent .indent rfl]
    rfl
  · have hformat : SettingReader.field inner "format" .json
        (.word OutputFormat.key OutputFormat.all) = .ok (a .format) := hfields .format rfl
    have hindent : SettingReader.field inner "indent" 2 .indent = .ok (a .indent) :=
      hfields .indent rfl
    simp only [OutputSettings.read, entries_of_opened hv, hformat, hindent, bind, Except.bind, pure,
      Except.pure]

/-- Sections whose settings can all be read give these settings. -/
theorem ofEntries_of_written? :
    ofEntries homes es = .ok
      { logging := ⟨a .level, a .outputs⟩
        extraction := ⟨a .resolveConstants, a .instantiateProviders, a .defaultModule⟩
        output := ⟨a .format, a .indent⟩ } := by
  have hkeys : (es.any fun e => !isTextKey e.1) = false := by
    rw [List.any_eq_false]
    intro e he
    obtain ⟨name, -, hname⟩ := (h e he).1
    rw [hname]
    exact Bool.false_ne_true
  have hhalves : (es.find? fun e => holdsHalf e.1) = none := by
    rw [List.find?_eq_none]
    intro e he
    obtain ⟨name, hmem, hname⟩ := (h e he).1
    have hplain : ∀ name ∈ sections, Text.holdsHalf name = false := by decide
    rw [hname, holdsHalf, hplain name hmem]
    decide
  have hknown : unknownEntry? es = none := by
    rw [ unknownEntry?, List.findSome?_eq_none_iff]
    intro e he
    obtain ⟨name, hmem, hname⟩ := (h e he).1
    rw [hname]
    exact if_pos (List.contains_iff_mem.mpr hmem)
  rw [ofEntries, hkeys, if_neg Bool.false_ne_true, hhalves]
  simp only [readSections, logging_of_written? h hread, extraction_of_written? h hread,
    output_of_written? h hread, hknown, bind, Except.bind, pure, Except.pure]

end Sections

end Settings

end DocTags
