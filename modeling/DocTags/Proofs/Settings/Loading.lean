import DocTags.Proofs.Settings.Rereading
import DocTags.Proofs.Settings.Variables
import DocTags.Proofs.Yaml.Construction
import DocTags.Settings.Loading

/-!
# Loading settings

The settings that are loaded come from the layers one by one: each has the value of its variable, or
else of the project's file, or else of the user's file, or else its default, whatever the layers
hold for other settings. A place for records in a home is looked up where the environment says that
the user is at home, or else the accounts.
-/

namespace DocTags.Settings

open Datum

variable {d v user project : Datum} {disk : Disk} {path userFile root : String}
  {env : Environment} {homes accounts : Homes} {opening : Bool} {x : Setting}

/-- What a document has for a setting. -/
def documentValue? (d : Datum) (x : Setting) : Option Datum :=
  (field? (entriesOf d) x.sectionName).bind fun v => field? (entriesOf v) x.name

/-- Everything in a document is a section with values for settings of its own. -/
def HoldsSettings (homes : Homes) (d : Datum) : Prop :=
  ∀ e ∈ entriesOf d, ∃ name ∈ sections, e.1 = .text name
    ∧ ∃ inner, e.2.opened = .map inner
      ∧ ∀ f ∈ inner, ∃ x : Setting, x.sectionName = name ∧ f.1 = .text x.name ∧ x.Accepts homes f.2

instance (d : Datum) : Decidable (HoldsSettings homes d) :=
  inferInstanceAs (Decidable (∀ e ∈ entriesOf d, _))

theorem mem_parts_of_mem_entriesOf {e : Datum × Datum} (h : e ∈ entriesOf d) :
    e.2 ∈ d.opened.parts := by
  rw [entriesOf] at h
  split at h
  · next es hes =>
      rw [hes]
      exact List.mem_map_of_mem h
  · exact absurd h List.not_mem_nil

theorem keysDiffer_entriesOf (h : d.IsWellFormed) : KeysDiffer (entriesOf d) := by
  rw [entriesOf]
  split
  · next es hes => exact h.keys_opened es hes
  · exact .nil

theorem isWellFormed_checkDocument (h : d.IsWellFormed) (path : String) :
    GivesWithin Datum.IsWellFormed (checkDocument path d) := by
  rw [checkDocument]
  split
  · exact .ok isWellFormed_map_nil
  · split
    · exact .ok h
    · exact .error _ _

/-- The document of a file is well formed. -/
theorem isWellFormed_fileDocument (disk : Disk) (path : String) :
    GivesWithin Datum.IsWellFormed (fileDocument disk path) := by
  rw [fileDocument]
  split
  · split
    · exact .ok isWellFormed_map_nil
    · exact .error _ _
  · next text _ =>
      split
      · exact .error _ _
      · exact .error _ _
      · next d hd => exact isWellFormed_checkDocument (Yaml.isWellFormed_read text d hd) path

/-- A value without a table is looked at as it is, and so are its parts. -/
theorem seen_part (h : d.IsWellFormed) (hopening : opening = false → d.isKnot = false)
    (hv : v ∈ d.opened.parts) : seen opening v = v.opened := by
  cases opening with
  | true => rfl
  | false => exact (opened_of_not_isKnot (h.isKnot_part (hopening rfl) hv)).symm

/-- A document with values for settings is a layer. -/
theorem HoldsSettings.isLayer (h : HoldsSettings homes d) (hd : d.IsWellFormed)
    (hopening : opening = false → d.isKnot = false) : IsLayer homes opening (entriesOf d) where
  hasSections := by
    intro e he
    obtain ⟨name, hname, hkey, inner, hinner, -⟩ := h e he
    have hseen := seen_part hd hopening (mem_parts_of_mem_entriesOf he)
    exact ⟨⟨name, hname, hkey⟩, inner, hseen.trans hinner⟩
  keysDiffer := keysDiffer_entriesOf hd
  isSection := by
    intro name v inner hmem hseen
    have hpart := mem_parts_of_mem_entriesOf hmem
    rw [seen_part hd hopening hpart] at hseen
    obtain ⟨name', -, hkey, inner', hinner', hsettings⟩ := h _ hmem
    obtain rfl : name = name' := text.inj hkey
    obtain rfl : inner = inner' := map.inj (hseen.symm.trans hinner')
    exact ⟨(hd.parts_opened hpart).keys_opened inner hseen, hsettings⟩

theorem fieldIn_eq_entriesOf (h : seen opening v = v.opened) (name : String) :
    fieldIn opening name v = field? (entriesOf v) name := by
  rw [fieldIn, entriesOf, h]
  cases v.opened <;> rfl

theorem written?_entriesOf (hd : d.IsWellFormed) (hopening : opening = false → d.isKnot = false)
    (x : Setting) : written? opening (entriesOf d) x = documentValue? d x := by
  rw [written?, documentValue?]
  cases hv : field? (entriesOf d) x.sectionName with
  | none => rfl
  | some v =>
      have hpart := mem_parts_of_mem_entriesOf (exists_mem_of_field? hv)
      rw [Option.bind_some, Option.bind_some, fieldIn_eq_entriesOf (seen_part hd hopening hpart)]

theorem HoldsSettings.accepts (h : HoldsSettings homes d) (hd : d.IsWellFormed)
    (hv : documentValue? d x = some v) : x.Accepts homes v := by
  have hopening : true = false → d.isKnot = false := Bool.noConfusion
  exact (h.isLayer hd hopening).accepts ((written?_entriesOf hd hopening x).trans hv)

/-- What the uppermost layer that has something for a setting has for it. -/
def layered? (env : Environment) (project user : Datum) (x : Setting) : Option Datum :=
  (env.given? x).or ((documentValue? project x).or (documentValue? user x))

theorem exists_layer {below above : List (Datum × Datum)} (hbelow : HasSections opening below)
    (habove : IsLayer homes opening above) :
    ∃ es, layer opening below above = .ok es ∧ HasSections opening es
      ∧ ∀ x, written? opening es x = (written? opening above x).or (written? opening below x) := by
  obtain ⟨es, hes, hsections, hwritten⟩ := exists_layer? hbelow habove
  exact ⟨es, by rw [layer, hes], hsections, hwritten⟩

section Layers

variable (huser : fileDocument disk userFile = .ok user)
  (hproject : fileDocument disk (projectFile root) = .ok project)
  (huserHolds : HoldsSettings (env.homes accounts) user)
  (hprojectHolds : HoldsSettings (env.homes accounts) project)
  (henv : env.HoldsSettings (env.homes accounts))

include huser hproject huserHolds hprojectHolds henv

/-- What is read in the end are sections that have for each setting what the uppermost layer has. -/
theorem exists_load_eq_ofEntries :
    ∃ opening es, load disk userFile root env [] accounts
        = (ofEntries (env.homes accounts) es).mapError Refusal.toFailure
      ∧ HasSections opening es ∧ ∀ x, written? opening es x = layered? env project user x := by
  have huserForm := isWellFormed_fileDocument disk userFile user huser
  have hprojectForm := isWellFormed_fileDocument disk (projectFile root) project hproject
  -- Values are opened only where one of the two documents holds itself.
  let opening := user.isKnot || project.isKnot
  have huserPlain : opening = false → user.isKnot = false := fun h => (Bool.or_eq_false_iff.mp h).1
  have hprojectPlain : opening = false → project.isKnot = false :=
    fun h => (Bool.or_eq_false_iff.mp h).2
  have huserLayer := huserHolds.isLayer huserForm huserPlain
  have hprojectLayer := hprojectHolds.isLayer hprojectForm hprojectPlain
  obtain ⟨files, hfiles, hfilesSections, hfilesWritten⟩ :=
    exists_layer huserLayer.hasSections hprojectLayer
  obtain ⟨ambient, hambient, hambientLayer, hambientWritten⟩ := henv.exists_entries opening
  obtain ⟨own, hown, hownSections, hownWritten⟩ := exists_layer hfilesSections hambientLayer
  obtain ⟨all, hall, hallSections, hallWritten⟩ :=
    exists_layer hownSections (isLayer_nil (env.homes accounts) opening)
  refine ⟨opening, all, ?_, hallSections, fun x => ?_⟩
  · have hnone : directEntries [] = [] := rfl
    simp only [load, huser, hproject, hambient, hnone, bind, Except.bind, mapError_ok]
    rw [hfiles]
    dsimp only
    rw [hown]
    dsimp only
    rw [hall]
  · rw [hallWritten, written?_nil, Option.none_or, hownWritten, hfilesWritten, hambientWritten,
      written?_entriesOf hprojectForm hprojectPlain, written?_entriesOf huserForm huserPlain,
      layered?]

theorem exists_readGiven_layered? (x : Setting) :
    ∃ a, x.readGiven (env.homes accounts) (layered? env project user x) = .ok a := by
  have huserForm := isWellFormed_fileDocument disk userFile user huser
  have hprojectForm := isWellFormed_fileDocument disk (projectFile root) project hproject
  cases hd : layered? env project user x with
  | none => exact ⟨x.of {}, rfl⟩
  | some d =>
      rw [layered?, Option.or_eq_some_iff, Option.or_eq_some_iff] at hd
      rcases hd with hd | ⟨-, hd | ⟨-, hd⟩⟩
      · exact henv.accepts hd
      · exact hprojectHolds.accepts hprojectForm hd
      · exact huserHolds.accepts huserForm hd

/-- The settings that are loaded come from the layers, each for itself: the value of a setting is
read from what its variable gives, or else from what the project's file has for it, null included,
or else from what the user's file has for it, or else it is the default. What the layers have for
other settings makes no difference, and the settings as a whole stay as they are when they are
checked once more. -/
theorem exists_load_of_layers :
    ∃ s, load disk userFile root env [] accounts = .ok s
      ∧ (∀ homes, ofEntries homes (entriesOf s.toDatum) = .ok s)
      ∧ ∀ x : Setting,
        x.readGiven (env.homes accounts) (layered? env project user x) = .ok (x.of s) := by
  obtain ⟨opening, es, hload, hsections, hwritten⟩ :=
    exists_load_eq_ofEntries huser hproject huserHolds hprojectHolds henv
  choose a ha using
    exists_readGiven_layered? huser hproject huserHolds hprojectHolds henv
  have hread := ofEntries_of_written? hsections (a := a) fun x => (hwritten x).symm ▸ ha x
  refine ⟨_, hload.trans (by rw [hread, mapError_ok]), ?_, fun x => (ha x).trans ?_⟩
  · exact ofEntries_toDatum (hasPlaces_ofEntries (env.homes accounts) es _ hread)
  · cases x <;> rfl

end Layers

/-- The bytes of an ASCII text. -/
def asciiBytes (text : String) : List UInt8 :=
  text.toList.map fun c => c.toNat.toUInt8

/-- A user with settings for printing, and a project with one more and with two places for records,
each in a home. -/
def sampleDisk : Disk where
  files :=
    [("/user.yaml", asciiBytes "output: {indent: 4, format: yaml}\n"),
      ("/project/.docplane/config.yaml", asciiBytes ("output: {indent: 8}\n"
        ++ "logging: {outputs: [{destination: ~/app.log}, {destination: ~daemon/app.log}]}\n"))]

/-- One variable for a setting, one for the home of the user and one for something else. -/
def sampleEnvironment : Environment :=
  [("HOME", "/home/alice"), ("Docplane__Logging__Level", "DEBUG"), ("LANG", "C")]

/-- Two accounts. -/
def sampleAccounts : Homes where
  own? := some "/root"
  named? name := [("root", "/root"), ("daemon", "/usr/sbin")].lookup name

/-- Where the users of the two accounts are at home. -/
def sampleHomes : Homes :=
  sampleEnvironment.homes sampleAccounts

theorem exists_load_of_layers_sample :
    ∃ user project s, fileDocument sampleDisk "/user.yaml" = .ok user
      ∧ fileDocument sampleDisk (projectFile "/project") = .ok project
      ∧ HoldsSettings sampleHomes user ∧ HoldsSettings sampleHomes project
      ∧ sampleEnvironment.HoldsSettings sampleHomes
      ∧ load sampleDisk "/user.yaml" "/project" sampleEnvironment [] sampleAccounts = .ok s
      ∧ (∀ homes, ofEntries homes (entriesOf s.toDatum) = .ok s)
      ∧ ∀ x : Setting, x.readGiven sampleHomes (layered? sampleEnvironment project user x)
        = .ok (x.of s) := by
  have huser : ∃ d, fileDocument sampleDisk "/user.yaml" = .ok d ∧ HoldsSettings sampleHomes d := by
    decide +kernel
  have hproject : ∃ d, fileDocument sampleDisk (projectFile "/project") = .ok d
      ∧ HoldsSettings sampleHomes d := by decide +kernel
  have henv : sampleEnvironment.HoldsSettings sampleHomes := by decide +kernel
  obtain ⟨user, huser, huserHolds⟩ := huser
  obtain ⟨project, hproject, hprojectHolds⟩ := hproject
  obtain ⟨s, hs⟩ := exists_load_of_layers huser hproject huserHolds hprojectHolds henv
  exact ⟨user, project, s, huser, hproject, huserHolds, hprojectHolds, henv, hs⟩

/-- The indent is the project's and the format the user's, as the project has none. The one place
for records is where the variable says that the user is at home, the other where the account is. -/
example : (load sampleDisk "/user.yaml" "/project" sampleEnvironment [] sampleAccounts).toOption
    = some
      { logging :=
          { level := .debug
            outputs := [{ destination := "/home/alice/app.log" },
              { destination := "/usr/sbin/app.log" }] }
        output := { format := .yaml, indent := 8 } } := by
  decide +kernel

end DocTags.Settings
