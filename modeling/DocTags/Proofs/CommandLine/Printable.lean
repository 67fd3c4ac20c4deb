import DocTags.Proofs.CommandLine.Batch
import DocTags.Proofs.Json.ReadValues

/-!
# Values that are printed

A value that documents are made for can always be printed, and its report is the value itself. So a
document that is printed keeps it, up to the halves in its texts, exactly if all its numbers are
finite.
-/

namespace DocTags

namespace Datum

variable {p : Datum → Bool} {d : Datum}

theorem itemsHold_eq_any (p : Datum → Bool) (xs : List Datum) :
    itemsHold p xs = xs.any (holds p) := by
  induction xs with
  | nil => rfl
  | cons x xs ih => rw [itemsHold, ih, List.any_cons]

theorem holds_list (p : Datum → Bool) (xs : List Datum) :
    holds p (list xs) = (p (list xs) || xs.any (holds p)) := by
  rw [holds, itemsHold_eq_any]

theorem holds_record (p : Datum → Bool) (fields : List (String × Datum)) :
    holds p (record fields)
      = (p (record fields) || fields.any fun f => p (text f.1) || holds p f.2) := by
  have hentries : entriesHold p (fields.map fun f => (text f.1, f.2))
      = fields.any fun f => p (text f.1) || holds p f.2 := by
    induction fields with
    | nil => rfl
    | cons f fields ih =>
        rw [List.map_cons, entriesHold, ih, List.any_cons]
        rfl
  rw [record, holds, hentries]

theorem holds_of_mem_list {xs : List Datum} {x : Datum} (hx : x ∈ xs) (h : x.holds p = true) :
    (list xs).holds p = true := by
  rw [holds_list, List.any_eq_true.mpr ⟨x, hx, h⟩, Bool.or_true]

theorem holds_of_mem_record {fields : List (String × Datum)} {f : String × Datum}
    (hf : f ∈ fields) (h : f.2.holds p = true) : (record fields).holds p = true := by
  have hany : (fields.any fun f => p (text f.1) || holds p f.2) = true :=
    List.any_eq_true.mpr ⟨f, hf, by rw [h, Bool.or_true]⟩
  rw [holds_record, hany, Bool.or_true]

/-- The items of a list are nested less deep than the list. -/
theorem nestsWithin_list {n : Nat} {xs : List Datum} : (list xs).nestsWithin n = true
    ↔ ∃ m, n = m + 1 ∧ ∀ x ∈ xs, x.nestsWithin m = true := by
  have hitems (m : Nat) : itemsNestWithin m xs = true ↔ ∀ x ∈ xs, x.nestsWithin m = true := by
    induction xs with
    | nil => simp [itemsNestWithin]
    | cons x xs ih => rw [itemsNestWithin, Bool.and_eq_true, ih, List.forall_mem_cons]
  cases n with
  | zero => simp [nestsWithin]
  | succ n => simp [nestsWithin, hitems]

theorem nestsWithin_record {n : Nat} {fields : List (String × Datum)} :
    (record fields).nestsWithin n = true
      ↔ ∃ m, n = m + 1 ∧ ∀ f ∈ fields, f.2.nestsWithin m = true := by
  have hentries (m : Nat) : entriesNestWithin m (fields.map fun f => (text f.1, f.2)) = true
      ↔ ∀ f ∈ fields, f.2.nestsWithin m = true := by
    induction fields with
    | nil => simp [entriesNestWithin]
    | cons f fields ih =>
        rw [List.map_cons, entriesNestWithin, Bool.and_eq_true, ih, List.forall_mem_cons]
  rw [record]
  cases n with
  | zero => simp [nestsWithin]
  | succ n => simp [nestsWithin, hentries]

end Datum

namespace Json

open Datum
open Decimal (maxDigits leastBeyond)

variable {p : Datum → Bool} {k n : Nat} {d : Datum} {es : List (Datum × Datum)}

/-- A value need not be deeper for a document than it is nested. -/
theorem IsWritable.of_nestsWithin (h : IsWritable k d) (hnests : d.nestsWithin n = true) :
    IsWritable n d := by
  induction h generalizing n with
  | null => exact .null n
  | bool _ b => exact .bool n b
  | int _ i h => exact .int n i h
  | real _ negative m q h => exact .real n negative m q h
  | infinite _ negative => exact .infinite n negative
  | text _ s => exact .text n s
  | list k xs h ih =>
      rw [nestsWithin_list] at hnests
      obtain ⟨n, rfl, hitems⟩ := hnests
      exact .list n xs fun x hx => ih x hx (hitems x hx)
  | record k fields hnames h ih =>
      rw [nestsWithin_record] at hnests
      obtain ⟨n, rfl, hfields⟩ := hnests
      exact .record n fields hnames fun f hf => ih f hf (hfields f hf)

/-- A value that documents are made for is reported as it is. -/
theorem IsWritable.plain_eq (h : IsWritable k d) : d.plain = d := by
  induction h with
  | list _ xs h ih => rw [plain, plainItems_eq_map, List.map_congr_left ih, List.map_id']
  | record _ fields hnames h ih =>
      have hnodup : ((fields.map fun f => (Datum.text f.1, f.2)).map
          fun e => e.1.display).Nodup := by
        rw [List.map_map]
        refine List.pairwise_map.mpr ((List.pairwise_map.mp hnames).imp fun hne heq => hne ?_)
        exact congrArg settledText heq
      have hentries : fields.map (reportedEntry ∘ fun f => (Datum.text f.1, f.2))
          = fields.map fun f => (Datum.text f.1, f.2) :=
        List.map_congr_left fun f hf => Prod.ext rfl (ih f hf)
      rw [Datum.record, plain_map_of_nodup hnodup, List.map_map, hentries]
  | _ => rfl

/-- What is true of no value that documents are made for is true of no part of such a value. -/
theorem IsWritable.holds_eq_false (hp : ∀ {n x}, IsWritable n x → p x = false)
    (h : IsWritable k d) : d.holds p = false := by
  induction h with
  | list k xs h ih =>
      rw [holds_list, hp (.list k xs h), Bool.false_or, List.any_eq_false]
      exact fun x hx => Bool.eq_false_iff.mp (ih x hx)
  | record k fields hnames h ih =>
      rw [holds_record, hp (.record k fields hnames h), Bool.false_or, List.any_eq_false]
      intro f hf
      rw [hp (.text 0 f.1), ih f hf]
      exact Bool.false_ne_true
  | null n => exact hp (.null n)
  | bool n b => exact hp (.bool n b)
  | int n i hi => exact hp (.int n i hi)
  | real n negative m q hm => exact hp (.real n negative m q hm)
  | infinite n negative => exact hp (.infinite n negative)
  | text n s => exact hp (.text n s)

theorem IsWritable.isKnot_eq_false (h : IsWritable k d) : d.isKnot = false := by
  cases h <;> rfl

/-- The keys of such a value are texts. -/
theorem IsWritable.any_isNoKey (h : IsWritable k (.map es)) :
    es.any (fun e => CommandLine.isNoKey e.1) = false := by
  cases h with
  | record k fields =>
      rw [List.any_map, List.any_eq_false]
      exact fun _ _ => Bool.false_ne_true

/-- A number in such a value can be written. -/
theorem IsWritable.natAbs_lt {i : Int} (h : IsWritable k (.int i)) :
    i.natAbs < leastBeyond maxDigits := by
  cases h with
  | int _ _ h => exact (Decimal.length_natText_le_iff _ (by decide)).mp h

theorem IsWritable.isTooLong_eq_false (h : IsWritable k d) : d.isTooLong = false := by
  refine h.holds_eq_false fun {n x} hx => ?_
  cases x with
  | int i =>
      have hlt := hx.natAbs_lt
      unfold leastBeyond at hlt
      exact decide_eq_false (Nat.not_le.mpr hlt)
  | _ => rfl

theorem IsWritable.unprintable?_eq_none (h : IsWritable k d) :
    CommandLine.unprintable? d = none := by
  have hknots : d.holds isKnot = false := h.holds_eq_false IsWritable.isKnot_eq_false
  unfold CommandLine.unprintable?
  rw [if_neg (Bool.eq_false_iff.mp hknots), if_neg ?_,
    if_neg (Bool.eq_false_iff.mp h.isTooLong_eq_false)]
  refine Bool.eq_false_iff.mp (h.holds_eq_false fun {n x} hx => ?_)
  cases x with
  | map es => exact hx.any_isNoKey
  | _ => rfl

end Json

namespace CommandLine

/-- What is printed holds no number that is too long. -/
theorem isTooLong_eq_false_of_unprintable? {payload : Datum} (h : unprintable? payload = none) :
    payload.isTooLong = false := by
  rw [← Bool.not_eq_true]
  intro hlong
  unfold unprintable? at h
  dsimp only at h
  rw [if_pos hlong] at h
  split at h
  · cases h
  · split at h <;> cases h

/-- A run prints its entries unless they are not to be printed. -/
theorem ending_eq_printed_iff {settings : Settings} {entries : List Datum} {text : String}
    {failed printedFailed : Bool} : ending settings entries failed = .printed text printedFailed
      ↔ unprintable? (.list entries) = none
        ∧ text = printedText settings.output (.list entries) ∧ printedFailed = failed := by
  rw [ending]
  cases unprintable? (.list entries) with
  | some fault => simp
  | none => simp [eq_comm]

end CommandLine

end DocTags
