import DocTags.Proofs.Settings.Layers
import DocTags.Proofs.Text.FilePath
import DocTags.Settings.Loading

/-!
# Settings that are read again

Settings that have been read stay as they are when they are written as a mapping and read again,
wherever users are at home by then.
-/

namespace DocTags

open Datum

namespace SettingReader

variable {α : Type} {R : α → Prop} {read : SettingReader α} {absent a : α}

theorem within_field (habsent : R absent) (hread : ∀ d, GivesWithin R (read d))
    (es : List (Datum × Datum)) (name : String) : GivesWithin R (field es name absent read) := by
  rw [field]
  split
  · exact .ok habsent
  · exact (hread _).mapError _

theorem within_unlessFault {β : Type} {x : Except Refusal α} (hx : GivesWithin R x)
    (later : Except Refusal β) : GivesWithin R (unlessFault later x) := by
  rw [unlessFault.eq_def]
  split
  · exact .error _ _
  · exact hx

theorem within_itemsFrom (hread : ∀ d, GivesWithin R (read d)) (i : Nat) (ds : List Datum) :
    GivesWithin (fun as => ∀ a ∈ as, R a) (itemsFrom read i ds) := by
  induction ds generalizing i with
  | nil => exact .ok fun _ ha => absurd ha List.not_mem_nil
  | cons d ds ih =>
      refine (within_unlessFault ((hread d).mapError _) _).bind fun a ha => ?_
      refine (ih (i + 1)).bind fun as has => ?_
      exact .ok (List.forall_mem_cons.mpr ⟨ha, has⟩)

theorem within_list (hread : ∀ d, GivesWithin R (read d)) (d : Datum) :
    GivesWithin (fun as => ∀ a ∈ as, R a) (list read d) := by
  rw [list]
  split
  · exact within_itemsFrom hread 0 _
  · exact within_itemsFrom hread 0 _
  · exact within_itemsFrom hread 0 _
  · exact .error _ _

theorem field_record {fields : List (String × Datum)} {name : String} {d : Datum}
    (hd : fields.lookup name = some d) (hread : read d = .ok a) :
    field (fields.map fun f => (.text f.1, f.2)) name absent read = .ok a :=
  Settings.field_of_some ((field?_record fields name).trans hd) hread absent

/-- A word is read as what it stands for. -/
theorem word_key {key : α → String} {all : List α} (hplain : Text.holdsHalf (key a) = false)
    (hfind : (all.find? fun b => key b = key a) = some a) :
    word key all (.text (key a)) = .ok a := by
  simp only [word, hplain, hfind]
  rfl

theorem word_level (level : Level) : word Level.key Level.all (.text level.key) = .ok level :=
  word_key (by cases level <;> decide) (by cases level <;> decide)

theorem word_logFormat (format : LogFormat) :
    word LogFormat.key LogFormat.all (.text format.key) = .ok format :=
  word_key (by cases format <;> decide) (by cases format <;> decide)

theorem word_outputFormat (format : OutputFormat) :
    word OutputFormat.key OutputFormat.all (.text format.key) = .ok format :=
  word_key (by cases format <;> decide) (by cases format <;> decide)

theorem optional_some {d : Datum} (hd : d ≠ .null) (hread : read d = .ok a) :
    optional read d = .ok (some a) := by
  rw [optional.eq_def]
  split
  · exact absurd rfl hd
  · rw [hread]
    rfl

theorem itemsFrom_map {write : α → Datum} {as : List α} (h : ∀ a ∈ as, read (write a) = .ok a)
    (i : Nat) : itemsFrom read i (as.map write) = .ok as := by
  induction as generalizing i with
  | nil => rfl
  | cons a as ih =>
      rw [List.forall_mem_cons] at h
      rw [List.map_cons, itemsFrom, h.1, mapError_ok, unlessFault_ok, ih h.2]
      rfl

end SettingReader

open SettingReader

namespace LogOutput

variable {homes : Homes} {o : LogOutput} {path : List Char} {s : String}

/-- The output as it is written, by the names of its fields. -/
def fields (o : LogOutput) : List (String × Datum) :=
  [("format", .text o.format.key), ("destination", .text o.destination),
    ("level", .ofText? (o.level.map Level.key))]

theorem lookup_format (o : LogOutput) : o.fields.lookup "format" = some (.text o.format.key) := rfl

theorem lookup_destination (o : LogOutput) :
    o.fields.lookup "destination" = some (.text o.destination) := rfl

theorem lookup_level (o : LogOutput) :
    o.fields.lookup "level" = some (.ofText? (o.level.map Level.key)) := rfl

/-- The place is read as it is, wherever users are at home. -/
def IsPlace (s : String) : Prop :=
  ∀ homes, readDestination homes (.text s) = .ok s

/-- Records go to such a place. -/
def HasPlace (o : LogOutput) : Prop :=
  IsPlace o.destination

theorem isPlace_stream (h : s = "stderr" ∨ s = "stdout") : IsPlace s :=
  fun _ => if_pos h

theorem expandHome_of_isAbsolute (h : FilePath.isAbsolute path = true) (homes : Homes)
    (d : Datum) : expandHome homes d path = .ok (FilePath.tidy path) := by
  rw [expandHome.eq_def, h]

theorem tidy_expandHome (homes : Homes) (d : Datum) (path : List Char) :
    GivesWithin (fun r => ∃ q, r = FilePath.tidy q) (expandHome homes d path) := by
  rw [expandHome.eq_def]
  split
  · exact (GivesWithin.any _).map fun directory _ => FilePath.exists_under_eq_tidy directory _
  · exact .ok ⟨_, rfl⟩

/-- A path from the root is read as it is once it is tidy. -/
theorem isPlace_tidy (h : FilePath.isAbsolute (FilePath.tidy path) = true) :
    IsPlace (String.ofList (FilePath.tidy path)) := by
  intro homes
  have hexpanded : ∀ d, expandHome homes d (String.ofList (FilePath.tidy path)).toList
      = .ok (FilePath.tidy path) := by
    intro d
    rw [String.toList_ofList, expandHome_of_isAbsolute h, FilePath.tidy_tidy]
  rw [readDestination]
  simp only [SettingReader.text, bind, Except.bind, hexpanded, if_pos h]
  split <;> rfl

/-- A place that was read is read as it is. -/
theorem isPlace_readDestination (homes : Homes) (d : Datum) :
    GivesWithin IsPlace (readDestination homes d) := by
  rw [readDestination]
  refine (GivesWithin.any _).bind fun s _ => ?_
  split
  · next hs => exact .ok (isPlace_stream hs)
  · refine (tidy_expandHome homes d s.toList).bind fun path hpath => ?_
    obtain ⟨q, rfl⟩ := hpath
    split
    · next habsolute => exact .ok (isPlace_tidy habsolute)
    · exact .error _ _

theorem hasPlace_default : HasPlace {} :=
  isPlace_stream (.inl rfl)

theorem hasPlace_read (homes : Homes) (d : Datum) : GivesWithin HasPlace (read homes d) := by
  rw [read]
  refine (GivesWithin.any _).bind fun es _ => ?_
  refine (GivesWithin.any _).bind fun format _ => ?_
  have hdestination := within_field (R := IsPlace) hasPlace_default
    (isPlace_readDestination homes) es "destination"
  refine hdestination.bind fun s hs => ?_
  exact (GivesWithin.any _).bind fun level _ => .ok hs

/-- An output whose place is read as it is stays as it is. -/
theorem read_toDatum (h : o.HasPlace) (homes : Homes) : read homes o.toDatum = .ok o := by
  have hlevel : optional (word Level.key Level.all) (.ofText? (o.level.map Level.key))
      = .ok o.level := by
    cases o.level with
    | none => rfl
    | some level => exact optional_some nofun (word_level level)
  have hentries : entries "LogOutputConfig" o.toDatum
      = .ok (o.fields.map fun f => (.text f.1, f.2)) := rfl
  simp only [read, hentries, bind, Except.bind, pure, Except.pure,
    field_record o.lookup_format (word_logFormat o.format), unlessFault_ok,
    field_record o.lookup_destination (h homes), field_record o.lookup_level hlevel]

end LogOutput

namespace Settings

variable {s : Settings}

/-- The places of all outputs are read as they are. -/
def HasPlaces (s : Settings) : Prop :=
  ∀ o ∈ s.logging.outputs, o.HasPlace

theorem hasPlace_of_mem_default {o : LogOutput} (h : o ∈ ({} : LogSettings).outputs) :
    o.HasPlace :=
  List.mem_singleton.mp h ▸ LogOutput.hasPlace_default

theorem hasPlaces_readLogging (homes : Homes) (d : Datum) :
    GivesWithin (fun s => ∀ o ∈ s.outputs, o.HasPlace) (LogSettings.read d homes) := by
  rw [LogSettings.read]
  refine (GivesWithin.any _).bind fun es _ => (GivesWithin.any _).bind fun level _ => ?_
  have houtputs := within_field (R := fun outputs : List LogOutput => ∀ o ∈ outputs, o.HasPlace)
    (fun _ => hasPlace_of_mem_default) (within_list (LogOutput.hasPlace_read homes)) es "outputs"
  exact houtputs.bind fun outputs h => .ok h

/-- The places of settings that are read are read as they are. -/
theorem hasPlaces_ofEntries (homes : Homes) (es : List (Datum × Datum)) :
    GivesWithin HasPlaces (ofEntries homes es) := by
  have hsections : GivesWithin HasPlaces (readSections homes es) := by
    rw [readSections]
    have hlogging := within_field (R := fun s : LogSettings => ∀ o ∈ s.outputs, o.HasPlace)
      (fun _ => hasPlace_of_mem_default) (hasPlaces_readLogging homes) es "logging"
    refine hlogging.bind fun logging h => (GivesWithin.any _).bind fun extraction _ => ?_
    exact (GivesWithin.any _).bind fun output _ => .ok h
  rw [ofEntries]
  split
  · exact .error _ _
  · split
    · exact within_unlessFault (.error _ _) _
    · refine hsections.bind fun s hs => ?_
      split
      · exact .error _ _
      · exact .ok hs

/-- A setting as it is written. -/
def written (s : Settings) : Setting → Datum
  | .level => .text s.logging.level.key
  | .outputs => .list (s.logging.outputs.map LogOutput.toDatum)
  | .resolveConstants => .bool s.extraction.resolveConstants
  | .instantiateProviders => .bool s.extraction.instantiateProviders
  | .defaultModule => .ofText? s.extraction.defaultModule
  | .format => .text s.output.format.key
  | .indent => .ofNat s.output.indent

theorem written?_toDatum (s : Settings) (x : Setting) :
    written? false (entriesOf s.toDatum) x = some (s.written x) := by
  cases x <;> rfl

theorem hasSections_toDatum (s : Settings) : HasSections false (entriesOf s.toDatum) := by
  intro e he
  have hthree : ∀ a b c : Datum × Datum, e ∈ [a, b, c] → e = a ∨ e = b ∨ e = c := by simp
  rcases hthree _ _ _ he with rfl | rfl | rfl
  · exact ⟨⟨"logging", by decide, rfl⟩, _, rfl⟩
  · exact ⟨⟨"extraction", by decide, rfl⟩, _, rfl⟩
  · exact ⟨⟨"output", by decide, rfl⟩, _, rfl⟩

theorem read_written (h : s.HasPlaces) (homes : Homes) (x : Setting) :
    x.read homes (s.written x) = .ok (x.of s) := by
  cases x with
  | level => exact word_level s.logging.level
  | outputs =>
      exact itemsFrom_map (fun o ho => LogOutput.read_toDatum (h o ho) homes) 0
  | resolveConstants => rfl
  | instantiateProviders => rfl
  | defaultModule =>
      change optional SettingReader.text (.ofText? s.extraction.defaultModule)
        = .ok s.extraction.defaultModule
      cases s.extraction.defaultModule with
      | none => rfl
      | some name =>
          have hname : SettingReader.text (.text name) = .ok name := rfl
          exact optional_some nofun hname
  | format => exact word_outputFormat s.output.format
  | indent =>
      have hnonneg : ¬ (s.output.indent : Int) < 0 := Int.not_lt.mpr (Int.natCast_nonneg _)
      change SettingReader.indent (.int s.output.indent) = .ok s.output.indent
      simp only [SettingReader.indent, SettingReader.int, bind, Except.bind, if_neg hnonneg,
        Int.toNat_natCast, pure, Except.pure]

/-- Settings that are read stay as they are when they are written and read again. -/
theorem ofEntries_toDatum (h : s.HasPlaces) (homes : Homes) :
    ofEntries homes (entriesOf s.toDatum) = .ok s :=
  ofEntries_of_written? (hasSections_toDatum s) (a := fun x => x.of s) fun x => by
    rw [written?_toDatum, Setting.readGiven, read_written h]

end Settings

end DocTags
