import DocTags.Requirements

/-!
# The entries of a line

The tags of a line make entries, and taking the tags is taking the entries in order. An entry
changes one part of the record and remembers its line; only one for a platform can fail.
-/

namespace DocTags.Requirements

/-- What a tag asks to be put on record. A constraint that is none has its expression and the reason
in its place. -/
inductive Entry where
  | os (value : String)
  | osFamily (value : String)
  | platform (p : Platform) (required : Except (String × String) PlatformRequirement)
  | setting (name value : String)
  | function (name : String)
  | extension (name : String) (required : Option VersionRequirement)

namespace Entry

/-- The entry of an operating system tag. -/
def ofOs (tag : Tag) : Entry :=
  if tag.getD .name = "OSFAMILY" then .osFamily (tag.getD .value) else .os (tag.getD .value)

/-- The entry of a version tag. -/
def ofVersion (tag : Tag) : Entry :=
  .platform (Platform.ofName (tag.getD .name))
    (.ok (.version ⟨tag.getD .version, tag.getD .operator⟩))

/-- The entry of a constraint tag. -/
def ofConstraint (tag : Tag) : Entry :=
  .platform (Platform.ofName (tag.getD .name))
    (match Constraint.read (expressionOf tag) with
    | .ok c => .ok (.constraint c)
    | .error e => .error (expressionOf tag, e.message))

/-- The entry of a setting tag. -/
def ofSetting (tag : Tag) : Entry :=
  .setting (tag.getD .setting) (tag.getD .value)

/-- The entry of a function or extension tag. -/
def ofPrerequisite (tag : Tag) : Entry :=
  if tag.getD .name = "function" then .function (tag.getD .value)
  else
    .extension (tag.getD .value)
      (if tag.getD .version = "" then none else some ⟨tag.getD .version, tag.getD .operator⟩)

end Entry

/-- The entries of a line, in the order in which its tags are taken. -/
def entries (text : List Char) : List Entry :=
  (Dialect.os.tag? text).toList.map Entry.ofOs
    ++ ((Dialect.version.tag? text).toList.map Entry.ofVersion
    ++ ((Dialect.versionConstraint.tag? text).toList.map Entry.ofConstraint
    ++ ((Dialect.setting.tag? text).toList.map Entry.ofSetting
    ++ (Dialect.prerequisite.tag? text).toList.map Entry.ofPrerequisite)))

/-- Takes an entry that stands on a line. -/
def take (r : Requirements) (line : Int) : Entry → Except MalformedConstraint Requirements
  | .os value => .ok ({ r with os := some value }.located .os line)
  | .osFamily value => .ok ({ r with osFamily := some value }.located .osFamily line)
  | .platform p required =>
    if r.versions.hasKey p then .ok r
    else
      match required with
      | .ok required => .ok (r.addPlatform line p required)
      | .error (expression, reason) => .error ⟨p, expression, line, reason⟩
  | .setting name value =>
    .ok ({ r with settings := r.settings.insert name value }.located (.setting name) line)
  | .function name =>
    .ok ({ r with functions := r.functions ++ [name] }.located (.function name) line)
  | .extension name required =>
    let r := { r with extensions := r.extensions ++ [name] }.located (.extension name) line
    match required with
    | none => .ok r
    | some v => .ok { r with extensionVersions := r.extensionVersions.insert name v }

section Platforms

variable {r r' : Requirements} {line : Int} {p : Platform}

/-- A platform of which something is required already keeps what it has. -/
theorem take_platform_of_hasKey (h : r.versions.hasKey p = true)
    (required : Except (String × String) PlatformRequirement) :
    r.take line (.platform p required) = .ok r :=
  if_pos h

theorem take_platform_of_not_hasKey (h : r.versions.hasKey p = false)
    (required : PlatformRequirement) :
    r.take line (.platform p (.ok required)) = .ok (r.addPlatform line p required) :=
  if_neg (by simp [h])

/-- What taking an entry for a platform may have done. -/
theorem take_platform_cases {required : Except (String × String) PlatformRequirement}
    (h : r.take line (.platform p required) = .ok r') :
    r.versions.hasKey p = true ∧ r' = r
      ∨ r.versions.hasKey p = false ∧ ∃ q, required = .ok q ∧ r' = r.addPlatform line p q := by
  cases hp : r.versions.hasKey p with
  | true =>
      rw [take_platform_of_hasKey hp] at h
      exact .inl ⟨rfl, (Except.ok.inj h).symm⟩
  | false =>
      cases required with
      | ok q =>
          rw [take_platform_of_not_hasKey hp] at h
          exact .inr ⟨rfl, q, rfl, (Except.ok.inj h).symm⟩
      | error e => simp [take, hp] at h

end Platforms

section Tags

variable (r : Requirements) (line : Int) (tag : Tag)

theorem take_ofOs : r.take line (.ofOs tag) = .ok (r.addOs line tag) := by
  rw [Entry.ofOs, addOs]
  split <;> rfl

theorem take_ofVersion : r.take line (.ofVersion tag) = .ok (r.addVersion line tag) := by
  rw [Entry.ofVersion, take, addVersion]
  split <;> rfl

theorem take_ofConstraint : r.take line (.ofConstraint tag) = r.addConstraint line tag := by
  simp only [Entry.ofConstraint, take, addConstraint]
  cases Constraint.read (expressionOf tag) <;> rfl

theorem take_ofSetting : r.take line (.ofSetting tag) = .ok (r.addSetting line tag) := rfl

theorem take_ofPrerequisite :
    r.take line (.ofPrerequisite tag) = .ok (r.addPrerequisite line tag) := by
  rw [Entry.ofPrerequisite, addPrerequisite]
  split
  · rfl
  · by_cases h : tag.getD .version = "" <;> simp [take, h]

end Tags

/-- Taking the entry of a tag that a line may have. -/
theorem foldlM_take_tag {d : Dialect} {text : List Char} {line : Int} {entry : Tag → Entry}
    {f : Requirements → Tag → Requirements}
    (h : ∀ r tag, take r line (entry tag) = .ok (f r tag)) (r : Requirements) :
    ((d.tag? text).toList.map entry).foldlM (take · line) r = .ok (withTag d text f r) := by
  rw [withTag]
  cases d.tag? text with
  | none => rfl
  | some tag => simp [h]

/-- Taking the tags of a line is taking its entries. -/
theorem addLine_eq_foldlM (r : Requirements) (line : Int) (text : List Char) :
    r.addLine line text = (entries text).foldlM (take · line) r := by
  simp only [addLine, entries, List.foldlM_append,
    foldlM_take_tag (fun r tag => take_ofOs r line tag),
    foldlM_take_tag (fun r tag => take_ofVersion r line tag),
    foldlM_take_tag (fun r tag => take_ofSetting r line tag),
    foldlM_take_tag (fun r tag => take_ofPrerequisite r line tag)]
  cases Dialect.versionConstraint.tag? text with
  | none => rfl
  | some tag =>
    simp only [Option.toList, List.map_cons, List.map_nil, List.foldlM_cons, List.foldlM_nil,
      take_ofConstraint, bind_pure]
    rfl

end DocTags.Requirements
