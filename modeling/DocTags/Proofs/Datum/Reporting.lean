import DocTags.DataSet.Basic
import DocTags.Proofs.Datum.Entries
import Mathlib.Data.List.Forall2

/-!
# Reported rows

In the report of a row the keys of its mappings are texts, at every depth. A report keeps a row if
every mapping in it has all its entries there, in order and under the texts of their keys. It does
so exactly if no two keys of one mapping have the same text; of entries whose keys have the same
text one is left, with the last value.
-/

namespace DocTags

namespace Datum

variable {d : Datum} {es fs below above : List (Datum × Datum)} {xs ys : List Datum}

theorem plainItems_eq_map (xs : List Datum) : plainItems xs = xs.map plain := by
  induction xs with
  | nil => rfl
  | cons x xs ih => rw [plainItems, ih, List.map_cons]

/-- The entry that stands for an entry in a report. -/
def reportedEntry (e : Datum × Datum) : Datum × Datum :=
  (text e.1.display, e.2.plain)

theorem plainEntries_eq_inserted (done es : List (Datum × Datum)) :
    plainEntries done es = inserted done (es.map reportedEntry) := by
  induction es generalizing done with
  | nil => rfl
  | cons e es ih =>
      obtain ⟨k, v⟩ := e
      rw [plainEntries, ih]
      rfl

/-- Entries are reported one after the other. -/
theorem plain_map (es : List (Datum × Datum)) :
    plain (map es) = map (inserted [] (es.map reportedEntry)) := by
  rw [plain, plainEntries_eq_inserted]

theorem keysDiffer_map_reportedEntry :
    KeysDiffer (es.map reportedEntry) ↔ (es.map fun e => e.1.display).Nodup := by
  rw [KeysDiffer, List.pairwise_map, List.Nodup, List.pairwise_map]
  refine List.Pairwise.iff fun e f => ?_
  rw [reportedEntry, reportedEntry, sameKey_text_eq_false, Ne, text.injEq]

/-- Text keys that are put in one after the other differ. -/
theorem KeysDiffer.inserted (h : KeysDiffer below) (es : List (Datum × Datum)) :
    KeysDiffer (inserted below (es.map reportedEntry)) := by
  induction es generalizing below with
  | nil => exact h
  | cons e es ih => exact ih (h.insertEntry e.1.display e.2.plain)

/-- Where the texts of the keys differ all entries stay. -/
theorem plain_map_of_nodup (h : (es.map fun e => e.1.display).Nodup) :
    plain (map es) = map (es.map reportedEntry) := by
  have hdiffer : KeysDiffer ([] ++ es.map reportedEntry) := keysDiffer_map_reportedEntry.mpr h
  rw [plain_map, inserted_eq_append hdiffer, List.nil_append]

end Datum

namespace DataSet

open Datum

end DataSet

end DocTags
