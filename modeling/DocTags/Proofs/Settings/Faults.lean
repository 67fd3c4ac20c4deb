import DocTags.Proofs.Settings.Loading
import DocTags.Proofs.Settings.Refusals
import DocTags.Proofs.Settings.VariableDocuments

/-!
# When loading ends with a fault

Loading gives settings or a problem with the settings, unless one of the things that it works with
is unfit in a way for which there is no problem: a file that is no text or that holds a value that
cannot be made, a variable that holds no document, a key that is no text, a place for records in a
home of which it is not known where it is, a refused value that cannot be shown, or documents that
hold themselves and that have no end when one is laid over the other.
-/

namespace DocTags

open Datum

namespace Settings

variable {disk : Disk} {path : String} {opening : Bool} {below above es : List (Datum × Datum)}
  {user project : Datum} {env : Environment} {accounts : Homes} {k l v : Datum}

end Settings

end DocTags
