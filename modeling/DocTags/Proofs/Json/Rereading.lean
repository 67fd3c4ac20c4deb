import DocTags.Proofs.Datum.Reporting
import DocTags.Proofs.Json.Documents

/-!
# What a document keeps

A document is read as the value that it was made of, with its texts settled, exactly if all numbers
in the value are finite. A number that is not finite is written by a name that the standard does not
know.
-/

namespace DocTags

namespace Datum

mutual

/-- The numbers in a value, at any depth and in order. -/
def numbers : Datum → List Datum
  | int n => [int n]
  | real x => [real x]
  | list xs | tuple xs | set xs | stream xs _ => itemNumbers xs
  | map es => entryNumbers es
  | named name row => numbers name ++ numbers row
  | _ => []

/-- The numbers in items. -/
def itemNumbers : List Datum → List Datum
  | [] => []
  | x :: xs => numbers x ++ itemNumbers xs

/-- The numbers in entries. -/
def entryNumbers : List (Datum × Datum) → List Datum
  | [] => []
  | (k, v) :: es => numbers k ++ (numbers v ++ entryNumbers es)

end

/-- A whole number, or a finite one. -/
def IsFinite : Datum → Prop
  | int _ | real (.finite ..) => True
  | _ => False

/-- All numbers in the value are finite. -/
def HasFiniteNumbers (d : Datum) : Prop :=
  ∀ x ∈ d.numbers, x.IsFinite

mutual

/-- The value with its texts settled, those of the keys as well. -/
def settled : Datum → Datum
  | text s => text (Json.settledText s)
  | list xs => list (settledItems xs)
  | map es => map (settledEntries es)
  | d => d

/-- The items with their texts settled. -/
def settledItems : List Datum → List Datum
  | [] => []
  | x :: xs => settled x :: settledItems xs

/-- The entries with their texts settled. -/
def settledEntries : List (Datum × Datum) → List (Datum × Datum)
  | [] => []
  | (k, v) :: es => (settled k, settled v) :: settledEntries es

end

theorem itemNumbers_eq_flatMap (xs : List Datum) : itemNumbers xs = xs.flatMap numbers := by
  induction xs with
  | nil => rfl
  | cons x xs ih => rw [itemNumbers, ih, List.flatMap_cons]

theorem settledItems_eq_map (xs : List Datum) : settledItems xs = xs.map settled := by
  induction xs with
  | nil => rfl
  | cons x xs ih => rw [settledItems, ih, List.map_cons]

variable {xs : List Datum} {fields : List (String × Datum)}

theorem settled_list : (list xs).settled = list (xs.map settled) := by
  rw [settled, settledItems_eq_map]

theorem settled_record : (record fields).settled
    = record (fields.map fun f => (Json.settledText f.1, f.2.settled)) := by
  have hentries : settledEntries (fields.map fun f => (text f.1, f.2))
      = (fields.map fun f => (Json.settledText f.1, f.2.settled)).map
        fun f => (text f.1, f.2) := by
    induction fields with
    | nil => rfl
    | cons f fields ih =>
        rw [List.map_cons, settledEntries, ih]
        rfl
  rw [record, settled, hentries, record]

theorem hasFiniteNumbers_list : (list xs).HasFiniteNumbers ↔ ∀ x ∈ xs, x.HasFiniteNumbers := by
  rw [HasFiniteNumbers, numbers, itemNumbers_eq_flatMap]
  constructor
  · exact fun h x hx z hz => h z (List.mem_flatMap.mpr ⟨x, hx, hz⟩)
  · intro h z hz
    obtain ⟨x, hx, hz⟩ := List.mem_flatMap.mp hz
    exact h x hx z hz

/-- The names of fields hold no numbers. -/
theorem hasFiniteNumbers_record :
    (record fields).HasFiniteNumbers ↔ ∀ f ∈ fields, f.2.HasFiniteNumbers := by
  have hnumbers : (record fields).numbers = fields.flatMap fun f => f.2.numbers := by
    rw [record, numbers]
    induction fields with
    | nil => rfl
    | cons f fields ih =>
        rw [List.map_cons, entryNumbers, ih, List.flatMap_cons]
        rfl
  rw [HasFiniteNumbers, hnumbers]
  constructor
  · exact fun h f hf z hz => h z (List.mem_flatMap.mpr ⟨f, hf, hz⟩)
  · intro h z hz
    obtain ⟨f, hf, hz⟩ := List.mem_flatMap.mp hz
    exact h f hf z hz

end Datum

namespace Json

/-- The fault tells of a number that is not finite. -/
def Fault.IsNonFinite : Fault → Prop
  | nonFiniteLiteral _ => True
  | _ => False

theorem rereadItems_eq_mapM (xs : List Datum) : rereadItems xs = xs.mapM reread := by
  induction xs with
  | nil => rfl
  | cons x xs ih =>
      rw [rereadItems, ih, List.mapM_cons]
      cases reread x with
      | error e => rfl
      | ok y => cases xs.mapM reread <;> rfl

/-- What a reader makes of a field. -/
def rereadField (f : String × Datum) : Except Fault (Datum × Datum) :=
  (reread f.2).map fun w => (.text (settledText f.1), w)

theorem rereadEntries_eq_mapM (fields : List (String × Datum)) :
    rereadEntries (entriesOf fields) = fields.mapM rereadField := by
  induction fields with
  | nil => rfl
  | cons f fields ih =>
      rw [rereadEntries_cons, ih, List.mapM_cons, rereadField]
      cases reread f.2 with
      | error e => rfl
      | ok w => cases fields.mapM rereadField <;> rfl

/-- A document is read as the value with its texts settled if all its numbers are finite, and
otherwise the name of one of them is refused. -/
theorem IsWritable.reread_givesIff {k : Nat} {d : Datum} (h : IsWritable k d) :
    GivesIff Fault.IsNonFinite (reread d) d.HasFiniteNumbers d.settled := by
  have hplain {d : Datum} (hd : reread d = .ok d.settled) (hfinite : d.HasFiniteNumbers) :
      GivesIff Fault.IsNonFinite (reread d) d.HasFiniteNumbers d.settled :=
    ⟨fun _ => hd, fun hn => absurd hfinite hn⟩
  induction h with
  | null => exact hplain rfl fun _ hx => absurd hx List.not_mem_nil
  | bool => exact hplain rfl fun _ hx => absurd hx List.not_mem_nil
  | int => exact hplain rfl fun _ hx => List.mem_singleton.mp hx ▸ trivial
  | real => exact hplain rfl fun _ hx => List.mem_singleton.mp hx ▸ trivial
  | text => exact hplain rfl fun _ hx => absurd hx List.not_mem_nil
  | infinite _ negative =>
      refine ⟨fun hfinite => (hfinite _ (List.mem_singleton_self _)).elim, fun _ => ?_⟩
      exact ⟨.nonFiniteLiteral _, trivial, rfl⟩
  | list k xs h ih =>
      rw [reread, rereadItems_eq_mapM, Datum.settled_list]
      exact ((GivesIff.mapM ih).map Datum.list).congr Datum.hasFiniteNumbers_list.symm
  | record k fields hnames h ih =>
      have hentries := GivesIff.mapM (f := rereadField) fun f hf =>
        (ih f hf).map fun w => (Datum.text (settledText f.1), w)
      have hreread : reread (.record fields) = (fields.mapM rereadField).map Datum.map :=
        congrArg (Except.map Datum.map) (rereadEntries_eq_mapM fields)
      have hsettled : (Datum.record fields).settled
          = .map (fields.map fun f => (.text (settledText f.1), f.2.settled)) := by
        rw [Datum.settled_record, Datum.record, List.map_map]
        rfl
      rw [hreread, hsettled]
      exact (hentries.map Datum.map).congr Datum.hasFiniteNumbers_record.symm

end Json

end DocTags
