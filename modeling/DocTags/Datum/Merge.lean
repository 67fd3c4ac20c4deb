import DocTags.Datum.Knot

/-!
# Laying mappings over one another

Of two mappings laid over one another the upper one wins; where both have a mapping under a key, the
two are laid over one another in turn. Keys keep their places, those of the lower mapping first.
Values that hold themselves are opened on the way; two of them may have no end.
-/

namespace DocTags.Datum

mutual

/-- A value over the one that was there before. -/
def overlay : Option Datum → Datum → Datum
  | some (map below), map above => map (overlayEntries below above)
  | _, above => above

/-- Lays the second entries over the first. -/
def overlayEntries (below : List (Datum × Datum)) : List (Datum × Datum) → List (Datum × Datum)
  | [] => below
  | (k, v) :: above => overlayEntries (insertEntry below k (overlay (lookup? below k) v)) above

end

@[simp] theorem overlayEntries_nil (below : List (Datum × Datum)) :
    overlayEntries below [] = below := by
  simp [overlayEntries]

theorem overlayEntries_cons (below above : List (Datum × Datum)) (k v : Datum) :
    overlayEntries below ((k, v) :: above)
      = overlayEntries (insertEntry below k (overlay (lookup? below k) v)) above := by
  simp [overlayEntries]

/-- Lays the second entries over the first, opening values that hold themselves; none if mappings
are laid over one another further than the given number of times inside one another. -/
def overlayOpened : Nat → List (Datum × Datum) → List (Datum × Datum) →
    Option (List (Datum × Datum))
  | 0, _, _ => none
  | n + 1, below, above =>
    above.foldlM
      (fun done e =>
        match (lookup? done e.1).map opened, e.2.opened with
        | some (map old), map new => do
          return insertEntry done e.1 (map (← overlayOpened n old new))
        | _, _ => return insertEntry done e.1 e.2)
      below

/-- How many times mappings are laid over one another inside one another. -/
def maxOverlays : Nat := 490

/-- Lays the second entries over the first; none if there is no end to it. Only where some value
holds itself are values opened. -/
def layer? (opening : Bool) (below above : List (Datum × Datum)) : Option (List (Datum × Datum)) :=
  if opening then overlayOpened maxOverlays below above else some (overlayEntries below above)

@[simp] theorem layer?_false (below above : List (Datum × Datum)) :
    layer? false below above = some (overlayEntries below above) := rfl

end DocTags.Datum
