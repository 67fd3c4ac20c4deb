import DocTags.Proofs.Settings.Variables

/-!
# Variables that hold documents

The variable of a section has to hold a JSON document, and so has the one variable of a setting that
is no plain text. What the variables say can be read exactly if they do. The variables of a
section's settings are read only beside a mapping, or where the section has no variable.
-/

namespace DocTags.Environment

open Datum Settings

variable {env : Environment} {sectionName name text : String} {es : List (Datum × Datum)}
  {v : List Char × String}

/-- The text is a JSON document. -/
def IsDocument (text : String) : Prop :=
  ∃ d, Json.read .everything text.toList = .ok d

end DocTags.Environment
