import DocTags.Proofs.Settings.Rereading

/-!
# Settings that are refused

Whatever is given for a setting is read or refused as a value that does not fit, with one exception:
a place for records in the home of a user of whom it is not known where that is ends the reading
with a fault. So the sections are read without a fault exactly if none of the places that they name
is of this kind, wherever else a value does not fit.
-/

namespace DocTags

open Datum

namespace SettingReader

variable {α β γ : Type} {read : SettingReader α} {x : Except Refusal α} {d : Datum}
  {es : List (Datum × Datum)}

end SettingReader

open SettingReader

namespace Homes

variable {home? : Option String} {homes : Homes} {user : List Char}

end Homes

namespace LogOutput

variable {homes : Homes}

end LogOutput

namespace Settings

variable {homes : Homes}

end Settings

end DocTags
