import DocTags.Report.Run

/-!
# Settings

The settings of a run: how it logs, how it extracts and how it prints.
-/

namespace DocTags

/-- How a log output writes its records. -/
inductive LogFormat where
  | json
  | console
  deriving DecidableEq, Repr

namespace LogFormat

/-- The word for a format. -/
def key : LogFormat → String
  | json => "json"
  | console => "console"

/-- Every format. -/
def all : List LogFormat := [json, console]

end LogFormat

/-- One place that records go to. Without a level of its own it has that of all outputs. -/
structure LogOutput where
  format : LogFormat := .console
  destination : String := "stderr"
  level : Option Level := none
  deriving DecidableEq, Repr

/-- How a run logs. -/
structure LogSettings where
  level : Level := .warning
  outputs : List LogOutput := [{}]
  deriving DecidableEq, Repr

/-- How a run extracts. -/
structure ExtractionSettings where
  /-- Tag values may name constants. -/
  resolveConstants : Bool := true
  /-- Types may be constructed to call their providers. -/
  instantiateProviders : Bool := true
  /-- The module that bare names are looked for in first. -/
  defaultModule : Option String := none
  deriving DecidableEq, Repr

/-- The form in which results are printed. -/
inductive OutputFormat where
  | json
  | yaml
  deriving DecidableEq, Repr

namespace OutputFormat

/-- The word for a form. -/
def key : OutputFormat → String
  | json => "json"
  | yaml => "yaml"

/-- Every form. -/
def all : List OutputFormat := [json, yaml]

end OutputFormat

/-- How a run prints. -/
structure OutputSettings where
  format : OutputFormat := .json
  indent : Nat := 2
  deriving DecidableEq, Repr

/-- All settings. -/
structure Settings where
  logging : LogSettings := {}
  extraction : ExtractionSettings := {}
  output : OutputSettings := {}
  deriving DecidableEq, Repr

namespace LogOutput

/-- An output as a mapping. -/
def toDatum (o : LogOutput) : Datum :=
  .record
    [("format", .text o.format.key), ("destination", .text o.destination),
      ("level", .ofText? (o.level.map Level.key))]

end LogOutput

namespace Settings

/-- The settings as a mapping. -/
def toDatum (s : Settings) : Datum :=
  .record
    [("logging", .record
        [("level", .text s.logging.level.key),
          ("outputs", .list (s.logging.outputs.map LogOutput.toDatum))]),
      ("extraction", .record
        [("resolve_constants", .bool s.extraction.resolveConstants),
          ("instantiate_providers", .bool s.extraction.instantiateProviders),
          ("default_module", .ofText? s.extraction.defaultModule)]),
      ("output", .record
        [("format", .text s.output.format.key), ("indent", .ofNat s.output.indent)])]

end Settings

end DocTags
