import DocTags.Report.Run
import DocTags.Symbol
import DocTags.Tag.Dialect
import DocTags.Text.FilePath
import DocTags.Text.Table
import DocTags.Version.Constraint

/-!
# Requirements

The requirements of a symbol are read line by line from its documentation comment. The first version
tag for a platform counts, the last tag for an operating system and for a setting, and every tag for
a function or an extension. Each requirement remembers its line.
-/

namespace DocTags

/-- What a version tag is about: the language platform or the test runner. -/
inductive Platform where
  | php
  | phpunit
  deriving DecidableEq, Repr

namespace Platform

/-- The word that stands for the platform in reports. -/
def key : Platform → String
  | php => "php_version"
  | phpunit => "phpunit_version"

/-- The platform with the given name in a tag. -/
def ofName (s : String) : Platform :=
  if s = "PHPUnit" then phpunit else php

end Platform

/-- A version and the operator in front of it. -/
structure VersionRequirement where
  version : String
  operator : String
  deriving DecidableEq, Repr

namespace VersionRequirement

/-- The requirement as a mapping. -/
def toDatum (r : VersionRequirement) : Datum :=
  .record [("version", .text r.version), ("operator", .text r.operator)]

end VersionRequirement

/-- What is required of a platform. -/
inductive PlatformRequirement where
  | version (r : VersionRequirement)
  | constraint (c : Constraint)
  deriving DecidableEq, Repr

namespace PlatformRequirement

/-- The requirement as a mapping. -/
def toDatum : PlatformRequirement → Datum
  | version r => r.toDatum
  | constraint c => .record [("constraint", .text c.expression)]

end PlatformRequirement

/-- What a requirement is about. -/
inductive RequirementKey where
  | platform (p : Platform)
  | os
  | osFamily
  | setting (name : String)
  | function (name : String)
  | extension (name : String)
  deriving DecidableEq, Repr

namespace RequirementKey

/-- The word that stands for the key in reports. -/
def text : RequirementKey → String
  | platform p => p.key
  | os => "os"
  | osFamily => "os_family"
  | setting name => "setting:" ++ name
  | function name => "function:" ++ name
  | extension name => "extension:" ++ name

end RequirementKey

/-- The requirements of a symbol. -/
structure Requirements where
  filePath : String := ""
  versions : Table Platform PlatformRequirement := []
  os : Option String := none
  osFamily : Option String := none
  settings : Table String String := []
  functions : List String := []
  extensions : List String := []
  extensionVersions : Table String VersionRequirement := []
  lineOffsets : Table RequirementKey Int := []
  deriving DecidableEq, Repr

/-- A constraint expression that is none: what it is about, its text, its line and the reason. -/
structure MalformedConstraint where
  platform : Platform
  expression : String
  line : Int
  reason : String
  deriving DecidableEq, Repr

namespace MalformedConstraint

/-- The problem that is reported. -/
def problem (m : MalformedConstraint) : Problem :=
  .malformedConstraint m.platform.key m.expression m.reason

end MalformedConstraint

namespace Requirements

/-- Nothing is required. -/
def isEmpty (r : Requirements) : Bool :=
  r.versions.isEmpty && !r.os.any (· ≠ "") && !r.osFamily.any (· ≠ "") && r.settings.isEmpty
    && r.functions.isEmpty && r.extensions.isEmpty

/-- Remembers the line of a requirement. -/
def located (r : Requirements) (key : RequirementKey) (line : Int) : Requirements :=
  { r with lineOffsets := r.lineOffsets.insert key line }

/-- Takes an operating system tag. -/
def addOs (r : Requirements) (line : Int) (tag : Tag) : Requirements :=
  if tag.getD .name = "OSFAMILY" then
    { r with osFamily := some (tag.getD .value) }.located .osFamily line
  else { r with os := some (tag.getD .value) }.located .os line

/-- Takes what is required of a platform. -/
def addPlatform (r : Requirements) (line : Int) (p : Platform) (required : PlatformRequirement) :
    Requirements :=
  { r with versions := r.versions.insert p required }.located (.platform p) line

/-- Takes a version tag, unless the platform has one already. -/
def addVersion (r : Requirements) (line : Int) (tag : Tag) : Requirements :=
  let p := Platform.ofName (tag.getD .name)
  if r.versions.hasKey p then r
  else r.addPlatform line p (.version ⟨tag.getD .version, tag.getD .operator⟩)

/-- The constraint expression of a tag without the blanks around it. -/
def expressionOf (tag : Tag) : String :=
  String.ofList (Text.trim (tag.getD .constraint).toList)

/-- Takes a constraint tag, unless the platform has a version already. -/
def addConstraint (r : Requirements) (line : Int) (tag : Tag) :
    Except MalformedConstraint Requirements :=
  let p := Platform.ofName (tag.getD .name)
  if r.versions.hasKey p then .ok r
  else
    match Constraint.read (expressionOf tag) with
    | .ok c => .ok (r.addPlatform line p (.constraint c))
    | .error e => .error ⟨p, expressionOf tag, line, e.message⟩

/-- Takes a setting tag. -/
def addSetting (r : Requirements) (line : Int) (tag : Tag) : Requirements :=
  let name := tag.getD .setting
  { r with settings := r.settings.insert name (tag.getD .value) }.located (.setting name) line

/-- Takes a function or extension tag. -/
def addPrerequisite (r : Requirements) (line : Int) (tag : Tag) : Requirements :=
  let name := tag.getD .value
  if tag.getD .name = "function" then
    { r with functions := r.functions ++ [name] }.located (.function name) line
  else
    let r := { r with extensions := r.extensions ++ [name] }.located (.extension name) line
    if tag.getD .version = "" then r
    else
      { r with
        extensionVersions :=
          r.extensionVersions.insert name ⟨tag.getD .version, tag.getD .operator⟩ }

/-- Applies `f` to the tag of a dialect on a line, if there is one. -/
def withTag (d : Dialect) (text : List Char) (f : Requirements → Tag → Requirements)
    (r : Requirements) : Requirements :=
  match d.tag? text with
  | none => r
  | some tag => f r tag

/-- Takes all tags of a line. -/
def addLine (r : Requirements) (line : Int) (text : List Char) :
    Except MalformedConstraint Requirements := do
  let r := withTag .os text (·.addOs line) r
  let r := withTag .version text (·.addVersion line) r
  let r ← match Dialect.versionConstraint.tag? text with
    | none => pure r
    | some tag => r.addConstraint line tag
  let r := withTag .setting text (·.addSetting line) r
  return withTag .prerequisite text (·.addPrerequisite line) r

/-- Takes the tags of lines that start at line `line`. -/
def addLines (r : Requirements) (line : Int) :
    List (List Char) → Except MalformedConstraint Requirements
  | [] => .ok r
  | text :: rest => do (← r.addLine line text).addLines (line + 1) rest

/-- The requirements of a comment that ends above line `startLine`. -/
def ofComment (startLine : Int) (comment : List Char) : Except MalformedConstraint Requirements :=
  let lines := Text.lines comment
  addLines {} (startLine - lines.length) lines

/-- The path of a symbol's file from the root; no path stays none. -/
def fileOf (s : Symbol) : Except Fault String :=
  if s.filePath = "" then .ok "" else FilePath.resolve s.filePath

/-- The requirements of a symbol. -/
def ofSymbol (s : Symbol) : Run Requirements :=
  match ofComment s.startLine s.docComment.toList with
  | .error m => do
    Run.note .warning "requirement_constraint_malformed"
      [("requirement", .text m.platform.key), ("constraint", .text m.expression),
        ("line", .int m.line), ("error", .text m.reason)]
    Run.fail (.problem m.problem)
  | .ok r =>
    match fileOf s with
    | .error e => Run.fail (.fault e)
    | .ok path => do
      Run.note .debug "requirements_extracted"
        [("symbol", s.qualifiedName), ("count", .ofNat r.lineOffsets.length)]
      return { r with filePath := path }

/-- The requirements as a mapping. -/
def toDatum (r : Requirements) : Datum :=
  let field (name : String) (present : Bool) (value : Datum) : List (String × Datum) :=
    if present then [(name, value)] else []
  .record <|
    [("file", .text r.filePath)]
      ++ r.versions.map (fun e => (e.1.key, e.2.toDatum))
      ++ field "os" r.os.isSome (.ofText? r.os)
      ++ field "os_family" r.osFamily.isSome (.ofText? r.osFamily)
      ++ field "settings" (!r.settings.isEmpty)
          (.record (r.settings.map fun e => (e.1, .text e.2)))
      ++ field "functions" (!r.functions.isEmpty) (.texts r.functions)
      ++ field "extensions" (!r.extensions.isEmpty) (.texts r.extensions)
      ++ field "extension_versions" (!r.extensionVersions.isEmpty)
          (.record (r.extensionVersions.map fun e => (e.1, e.2.toDatum)))
      ++ [("line_offsets", .record (r.lineOffsets.map fun e => (e.1.text, .int e.2)))]

end Requirements

end DocTags
