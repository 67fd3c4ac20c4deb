import DocTags.CommandLine.Descriptors
import DocTags.Proofs.Datum.Entries
import DocTags.Proofs.Decimal.Binary64
import DocTags.Proofs.Fallible
import DocTags.Proofs.Text.FilePath

/-!
# Descriptor files

A descriptor file gives one description for every entry of its document: the one that the entry
gives on its own, with a relative path starting at the directory of the file. It does so if every
entry is a mapping whose values are of the types that the fields take, and a file is refused with a
message if it is no document or if the first entry of another kind is no mapping. An entry in front
whose values do not fit is neither: it ends the program with a fault.
-/

namespace DocTags

namespace Datum

variable {d : Datum}

/-- The value stands for a whole number. -/
def IsWhole : Datum → Prop
  | int _ | bool _ | real (.finite ..) => True
  | text s => ∃ n, Decimal.readInt s.toList = .ok n
  | bytes _ bs => (∀ b ∈ bs, b < 128)
      ∧ ∃ n, Decimal.readInt (bs.map fun b => Char.ofNat b.toNat) = .ok n
  | _ => False

/-- The value consists of items. -/
def HasItems (d : Datum) : Prop :=
  match d.opened with
  | list _ | tuple _ | set _ | map _ | text _ | bytes .. | stream _ none => True
  | _ => False

theorem exists_intOfBytes_iff (bs : List UInt8) : (∃ n, intOfBytes bs = .ok n) ↔
    (∀ b ∈ bs, b < 128) ∧ ∃ n, Decimal.readInt (bs.map fun b => Char.ofNat b.toNat) = .ok n := by
  have hbytes : (bs.any (128 ≤ ·)) = true ↔ ¬ ∀ b ∈ bs, b < 128 := by simp
  rw [intOfBytes]
  by_cases h : ∀ b ∈ bs, b < 128
  · rw [if_neg (mt hbytes.mp (not_not_intro h)), exists_mapError_eq_ok_iff]
    exact (and_iff_right h).symm
  · rw [if_pos (hbytes.mpr h)]
    exact iff_of_false (fun ⟨_, hn⟩ => error_ne_ok hn) fun hn => h hn.1

theorem exists_toInt_iff : (∃ n, d.toInt = .ok n) ↔ d.IsWhole := by
  cases d with
  | int n => exact iff_of_true ⟨n, rfl⟩ trivial
  | bool b => exact iff_of_true ⟨_, rfl⟩ trivial
  | text s => exact exists_mapError_eq_ok_iff
  | bytes growable bs => exact exists_intOfBytes_iff bs
  | real x =>
      cases x with
      | finite => exact iff_of_true ⟨_, rfl⟩ trivial
      | _ => exact iff_of_false (fun ⟨_, h⟩ => error_ne_ok h) id
  | _ => exact iff_of_false (fun ⟨_, h⟩ => error_ne_ok h) id

theorem exists_toItems_iff : (∃ items, d.toItems = .ok items) ↔ d.HasItems := by
  rw [HasItems, toItems]
  cases d.opened with
  | list | tuple | set | map | text | bytes => exact iff_of_true ⟨_, rfl⟩ trivial
  | stream rows fault =>
      cases fault with
      | none => exact iff_of_true ⟨_, rfl⟩ trivial
      | some => exact iff_of_false (fun ⟨_, h⟩ => error_ne_ok h) id
  | _ => exact iff_of_false (fun ⟨_, h⟩ => error_ne_ok h) id

/-- A value that counts as absent can be shown. -/
theorem isTooLong_of_not_isTruthy (h : d.isTruthy = false) : d.isTooLong = false := by
  cases d with
  | int n =>
      obtain rfl : n = 0 := by simpa [isTruthy] using h
      have hzero : isTooLong (int 0) = decide (Nat.pow 10 Decimal.maxDigits ≤ 0) := by
        rw [isTooLong, holds] <;> first | rfl | nofun
      exact hzero.trans (decide_eq_false (Nat.not_le.mpr (Binary64.ten_pow_pos _)))
  | list xs | tuple xs | set xs | map xs =>
      obtain rfl : xs = [] := by simpa [isTruthy] using h
      rfl
  | moment | named | stream | caller | object | handle | knot | again => cases h
  | _ => rfl

theorem toDisplay_of_not_isTruthy (h : d.isTruthy = false) : d.toDisplay = .ok d.display := by
  rw [toDisplay, isTooLong_of_not_isTruthy h, if_neg Bool.false_ne_true]

end Datum

open Datum

namespace Description

variable {es : List (Datum × Datum)} {directory : List Char} {d : Datum}

/-- The comments of traits in a description. -/
def traitItems (es : List (Datum × Datum)) : Except Fault (List Datum) :=
  let traits := (field? es "composed_trait_doc_comments").getD .null
  if traits.isTruthy then traits.toItems else .ok []

/-- The source lines in a description, if it has any. -/
def lineItems (es : List (Datum × Datum)) : Except Fault (Option (List Datum)) :=
  let lines := (field? es "source_lines").getD .null
  if lines.isNull then .ok none else lines.toItems.map some

/-- The description with the given parts; the other parts are taken as they are. -/
def withParts (es : List (Datum × Datum)) (filePath : String) (startLine endLine : Int)
    (traitComments : List Datum) (sourceLines : Option (List Datum)) : Description :=
  let get (name : String) : Datum := (field? es name).getD .null
  { docComment := if (get "doc_comment").isTruthy then get "doc_comment" else .text ""
    filePath
    startLine
    endLine
    declaringType := get "declaring_type_name"
    member := get "member_name"
    traitComments
    isTypeLevel := (get "is_type_level").isTruthy
    sourceLines }

/-- A description is read part by part. -/
theorem ofEntries_eq (es : List (Datum × Datum)) : ofEntries es = (do
    let filePath ← ((field? es "file_path").getD (.text "")).toDisplay
    let start := (field? es "start_line").getD (.int 0)
    let startLine ← start.toInt
    let endLine ← ((field? es "end_line").getD start).toInt
    let traitComments ← traitItems es
    let sourceLines ← lineItems es
    return withParts es filePath startLine endLine traitComments sourceLines) := by
  rw [ofEntries, traitItems, lineItems]
  dsimp only
  split <;> split <;> rfl

/-- The value for the path is a text, unless it counts as absent. -/
def HasPath (es : List (Datum × Datum)) : Prop :=
  ∀ d, field? es "file_path" = some d → d.isTruthy = true → ∃ s, d = .text s

/-- The values are of the types that the fields take. -/
structure Fits (es : List (Datum × Datum)) : Prop where
  filePath : HasPath es
  startLine : ∀ d, field? es "start_line" = some d → d.IsWhole
  endLine : ∀ d, field? es "end_line" = some d → d.IsWhole
  traitComments : ∀ d, field? es "composed_trait_doc_comments" = some d → d.isTruthy = true →
    d.HasItems
  sourceLines : ∀ d, field? es "source_lines" = some d → d.isNull = false → d.HasItems

/-- The path of a described file: a relative one starts at the directory. Without a path there is
nothing that could start there. -/
def fullPath (directory : List Char) (es : List (Datum × Datum)) (path : String) : String :=
  if (field? es "file_path").any isTruthy && !FilePath.isAbsolute path.toList then
    String.ofList (FilePath.under directory path.toList)
  else path

theorem getD_iff {P : Datum → Prop} {o : Option Datum} {absent : Datum} (h : P absent) :
    P (o.getD absent) ↔ ∀ d, o = some d → P d := by
  cases o with
  | none => exact iff_of_true h nofun
  | some d => exact ⟨fun hd _ heq => Option.some.inj heq ▸ hd, fun hall => hall d rfl⟩

theorem exists_traitItems_iff : (∃ items, traitItems es = .ok items) ↔
    ∀ d, field? es "composed_trait_doc_comments" = some d → d.isTruthy = true → d.HasItems := by
  have habsent : Datum.null.isTruthy = true → Datum.null.HasItems := Bool.noConfusion
  rw [← getD_iff (P := fun d => d.isTruthy = true → d.HasItems) habsent, traitItems]
  split
  · next h => rw [exists_toItems_iff, imp_iff_right h]
  · next h => exact iff_of_true ⟨[], rfl⟩ fun htruthy => absurd htruthy h

theorem exists_lineItems_iff : (∃ lines, lineItems es = .ok lines) ↔
    ∀ d, field? es "source_lines" = some d → d.isNull = false → d.HasItems := by
  have habsent : Datum.null.isNull = false → Datum.null.HasItems := Bool.noConfusion
  rw [← getD_iff (P := fun d => d.isNull = false → d.HasItems) habsent, lineItems]
  split
  · next h => exact iff_of_true ⟨none, rfl⟩ fun hnull => absurd (h.symm.trans hnull) (by decide)
  · next h => rw [exists_map_eq_ok_iff, exists_toItems_iff, imp_iff_right (Bool.not_eq_true _ ▸ h)]

theorem HasPath.cases (h : HasPath es) : (field? es "file_path").any isTruthy = false
    ∨ ∃ s, field? es "file_path" = some (.text s) ∧ (Datum.text s).isTruthy = true := by
  cases hd : field? es "file_path" with
  | none => exact .inl rfl
  | some d =>
      cases htruthy : d.isTruthy with
      | false => exact .inl htruthy
      | true =>
          obtain ⟨s, rfl⟩ := h d hd htruthy
          exact .inr ⟨s, rfl, htruthy⟩

/-- A path that is a text or counts as absent can be shown. -/
theorem HasPath.exists_toDisplay (h : HasPath es) :
    ∃ path, ((field? es "file_path").getD (.text "")).toDisplay = .ok path := by
  cases hd : field? es "file_path" with
  | none => exact ⟨"", rfl⟩
  | some d =>
      cases htruthy : d.isTruthy with
      | false => exact ⟨d.display, toDisplay_of_not_isTruthy htruthy⟩
      | true =>
          obtain ⟨s, rfl⟩ := h d hd htruthy
          exact ⟨s, rfl⟩

/-- A description is given by values of the types that the fields take. -/
theorem exists_ofEntries_iff (hpath : HasPath es) : (∃ d, ofEntries es = .ok d) ↔ Fits es := by
  have hparts : (∃ d, ofEntries es = .ok d) ↔
      (∃ n, ((field? es "start_line").getD (.int 0)).toInt = .ok n)
        ∧ (∃ n,
          ((field? es "end_line").getD ((field? es "start_line").getD (.int 0))).toInt = .ok n)
        ∧ (∃ items, traitItems es = .ok items) ∧ ∃ lines, lineItems es = .ok lines := by
    obtain ⟨path, hpath⟩ := hpath.exists_toDisplay
    rw [ofEntries_eq]
    simp only [exists_bind_eq_ok_iff]
    constructor
    · rintro ⟨-, -, n, hstart, m, hend, items, htraits, lines, hlines, -⟩
      exact ⟨⟨n, hstart⟩, ⟨m, hend⟩, ⟨items, htraits⟩, lines, hlines⟩
    · rintro ⟨⟨n, hstart⟩, ⟨m, hend⟩, ⟨items, htraits⟩, lines, hlines⟩
      exact ⟨path, hpath, n, hstart, m, hend, items, htraits, lines, hlines, _, rfl⟩
  have hzero : (Datum.int 0).IsWhole := trivial
  rw [hparts, exists_toInt_iff, exists_toInt_iff, exists_traitItems_iff, exists_lineItems_iff]
  constructor
  · rintro ⟨hstart, hend, htraits, hlines⟩
    exact ⟨hpath, (getD_iff hzero).mp hstart, (getD_iff hstart).mp hend, htraits, hlines⟩
  · intro h
    have hstart := (getD_iff hzero).mpr h.startLine
    exact ⟨hstart, (getD_iff hstart).mpr h.endLine, h.traitComments, h.sourceLines⟩

/-- Another path for the file changes the path and nothing else. -/
theorem ofEntries_insertEntry_path {s : String} (h : field? es "file_path" = some (.text s))
    (path : String) :
    ofEntries (insertEntry es (.text "file_path") (.text path))
      = (ofEntries es).map fun d => { d with filePath := path } := by
  have hfield : ∀ name, "file_path" ≠ name →
      field? (insertEntry es (.text "file_path") (.text path)) name = field? es name :=
    fun name hne => (field?_insertEntry es "file_path" (.text path) name).trans (if_neg hne)
  have hpath : field? (insertEntry es (.text "file_path") (.text path)) "file_path"
      = some (.text path) :=
    (field?_insertEntry es "file_path" (.text path) "file_path").trans (if_pos rfl)
  have htext : ∀ s : String, toDisplay (.text s) = .ok s := fun s => rfl
  simp only [ofEntries_eq, traitItems, lineItems, withParts, hpath, h, Option.getD_some, htext,
    hfield "doc_comment" (by decide), hfield "start_line" (by decide),
    hfield "end_line" (by decide), hfield "composed_trait_doc_comments" (by decide),
    hfield "source_lines" (by decide), hfield "declaring_type_name" (by decide),
    hfield "member_name" (by decide), hfield "is_type_level" (by decide)]
  rw [← traitItems, ← lineItems]
  cases ((field? es "start_line").getD (.int 0)).toInt with
  | error e => rfl
  | ok startLine =>
      cases ((field? es "end_line").getD ((field? es "start_line").getD (.int 0))).toInt with
      | error e => rfl
      | ok endLine =>
          cases traitItems es with
          | error e => rfl
          | ok traitComments => cases lineItems es <;> rfl

/-- The path of a description is what the value for it is shown as. -/
theorem toDisplay_of_ofEntries {d : Description} (h : ofEntries es = .ok d) :
    ((field? es "file_path").getD (.text "")).toDisplay = .ok d.filePath := by
  rw [ofEntries_eq] at h
  obtain ⟨path, hpath, h⟩ := exists_of_bind_eq_ok h
  obtain ⟨startLine, -, h⟩ := exists_of_bind_eq_ok h
  obtain ⟨endLine, -, h⟩ := exists_of_bind_eq_ok h
  obtain ⟨traitComments, -, h⟩ := exists_of_bind_eq_ok h
  obtain ⟨sourceLines, -, h⟩ := exists_of_bind_eq_ok h
  obtain rfl := Except.ok.inj h
  exact hpath

end Description

namespace CommandLine

/-- The file is refused with a message. -/
def DescriptorFault.IsRefusal : DescriptorFault → Prop
  | unreadable _ | notAMapping .. => True
  | fault _ => False

instance : DecidablePred DescriptorFault.IsRefusal
  | .unreadable _ | .notAMapping .. => .isTrue trivial
  | .fault _ => .isFalse id

namespace Descriptors

open Description (HasPath Fits fullPath)

variable {es : List (Datum × Datum)} {directory : List Char} {s : String}

theorem withFullPath_of_not_isTruthy (h : (field? es "file_path").any isTruthy = false)
    (directory : List Char) : withFullPath directory es = .ok es := by
  rw [withFullPath.eq_def]
  cases hd : field? es "file_path" with
  | none => rfl
  | some d =>
      rw [hd, Option.any_some] at h
      dsimp only
      rw [h]
      rfl

theorem withFullPath_of_text (hd : field? es "file_path" = some (.text s))
    (htruthy : (Datum.text s).isTruthy = true) (directory : List Char) :
    withFullPath directory es = .ok (if FilePath.isAbsolute s.toList then es else
      insertEntry es (.text "file_path")
        (.text (String.ofList (FilePath.under directory s.toList)))) := by
  rw [withFullPath.eq_def, hd]
  dsimp only
  rw [htruthy]
  cases h : FilePath.isAbsolute s.toList <;> simp [toText, h, bind, Except.bind, pure, Except.pure]

theorem withFullPath_of_not_hasPath (h : ¬ HasPath es) (directory : List Char) :
    withFullPath directory es = .error .wrongType := by
  rw [HasPath] at h
  push Not at h
  obtain ⟨d, hd, htruthy, hne⟩ := h
  rw [withFullPath.eq_def, hd]
  dsimp only
  rw [htruthy]
  cases d with
  | text s => exact absurd rfl (hne s)
  | _ => rfl

/-- The description of a file in a directory has the full path, and all other parts from the
entries alone. -/
theorem describe_eq (h : HasPath es) (directory : List Char) : describe directory es
    = (Description.ofEntries es).map fun d =>
      { d with filePath := fullPath directory es d.filePath } := by
  rw [describe]
  rcases h.cases with htruthy | ⟨s, hd, htruthy⟩
  · rw [withFullPath_of_not_isTruthy htruthy]
    refine (map_eq_self fun d _ => ?_).symm
    rw [fullPath, htruthy, Bool.false_and, if_neg Bool.false_ne_true]
  · have hpath : ∀ d, Description.ofEntries es = .ok d → d.filePath = s := by
      intro d hd'
      have hshown := Description.toDisplay_of_ofEntries hd'
      rw [hd, Option.getD_some] at hshown
      exact (Except.ok.inj hshown).symm
    have hany : (field? es "file_path").any isTruthy = true := by
      rw [hd, Option.any_some, htruthy]
    rw [withFullPath_of_text hd htruthy]
    cases habsolute : FilePath.isAbsolute s.toList with
    | true =>
        refine (map_eq_self fun d hd' => ?_).symm
        rw [fullPath, hany, hpath d hd', habsolute, Bool.not_true, Bool.and_false,
          if_neg Bool.false_ne_true, ← hpath d hd']
    | false =>
        refine (Description.ofEntries_insertEntry_path hd _).trans (map_congr_of_ok fun d hd' => ?_)
        rw [fullPath, hany, hpath d hd', habsolute]
        rfl

/-- What an entry of a file in a directory describes: what it describes on its own, with the full
path. -/
def IsDescribed (directory : List Char) (entry : Datum) (d : Description) : Prop :=
  ∃ es own, entry.opened = .map es ∧ Description.ofEntries es = .ok own
    ∧ d = { own with filePath := fullPath directory es own.filePath }

/-- The entry is a mapping whose values are of the types that the fields take. -/
def IsDescription (entry : Datum) : Prop :=
  ∃ es, entry.opened = .map es ∧ Fits es

theorem isDescription_iff {entry : Datum} (hentry : entry.opened = .map es) :
    IsDescription entry ↔ Fits es :=
  ⟨fun ⟨_, hes, h⟩ => map.inj (hentry.symm.trans hes) ▸ h, fun h => ⟨es, hentry, h⟩⟩

theorem exists_describe_iff (directory : List Char) :
    (∃ d, describe directory es = .ok d) ↔ Fits es := by
  by_cases hpath : HasPath es
  · rw [describe_eq hpath, exists_map_eq_ok_iff, Description.exists_ofEntries_iff hpath]
  · rw [describe, withFullPath_of_not_hasPath hpath]
    exact iff_of_false (fun ⟨_, h⟩ => error_ne_ok h) fun h => hpath h.filePath

theorem isDescribed_of_describe {entry : Datum} {d : Description} (hentry : entry.opened = .map es)
    (h : describe directory es = .ok d) : IsDescribed directory entry d := by
  have hfits : Fits es := (exists_describe_iff directory).mp ⟨d, h⟩
  rw [describe_eq hfits.filePath] at h
  obtain ⟨own, hown, rfl⟩ := exists_of_map_eq_ok h
  exact ⟨es, own, hentry, hown, rfl⟩

variable {path : String} {entry : Datum} {entries : List Datum} {ds : List Description}

theorem ofEntries_cons_of_isMap (hentry : entry.opened = .map es) (i : Nat) :
    ofEntries path i (entry :: entries) = (do
      let d ← (describe (FilePath.parent path.toList) es).mapError .fault
      return d :: (← ofEntries path (i + 1) entries)) := by
  rw [ofEntries, hentry]

theorem ofEntries_cons_of_not_isMap (hentry : entry.opened.isMap = false) (i : Nat) :
    ofEntries path i (entry :: entries) = .error (.notAMapping i path entry.typeName) := by
  rw [ofEntries]
  split
  · next es heq =>
      rw [heq] at hentry
      cases hentry
  · rfl

/-- There is one description for every entry, in order. -/
theorem forall₂_isDescribed {i : Nat} (h : ofEntries path i entries = .ok ds) :
    List.Forall₂ (IsDescribed (FilePath.parent path.toList)) entries ds := by
  induction entries generalizing i ds with
  | nil =>
      obtain rfl := Except.ok.inj h
      exact .nil
  | cons entry entries ih =>
      cases hmap : entry.opened.isMap with
      | false =>
          rw [ofEntries_cons_of_not_isMap hmap] at h
          cases h
      | true =>
          obtain ⟨es, hes⟩ := exists_of_isMap hmap
          rw [ofEntries_cons_of_isMap hes] at h
          obtain ⟨d, hd, h⟩ := exists_of_bind_eq_ok h
          obtain ⟨rest, hrest, h⟩ := exists_of_bind_eq_ok h
          obtain rfl := Except.ok.inj h
          exact .cons (isDescribed_of_describe hes (eq_ok_of_mapError_eq_ok hd)) (ih hrest)

theorem exists_ofEntries_iff (i : Nat) :
    (∃ ds, ofEntries path i entries = .ok ds) ↔ ∀ entry ∈ entries, IsDescription entry := by
  induction entries generalizing i with
  | nil => exact iff_of_true ⟨[], rfl⟩ (List.forall_mem_nil _)
  | cons entry entries ih =>
      rw [List.forall_mem_cons]
      cases hmap : entry.opened.isMap with
      | false =>
          rw [ofEntries_cons_of_not_isMap hmap]
          refine iff_of_false (fun ⟨_, h⟩ => error_ne_ok h) fun h => ?_
          obtain ⟨⟨es, hes, -⟩, -⟩ := h
          rw [hes] at hmap
          cases hmap
      | true =>
          obtain ⟨es, hes⟩ := exists_of_isMap hmap
          rw [ofEntries_cons_of_isMap hes, isDescription_iff hes,
            ← exists_describe_iff (FilePath.parent path.toList), ← ih (i + 1),
            exists_bind_eq_ok_iff]
          constructor
          · rintro ⟨d, hd, ds, hds⟩
            obtain ⟨rest, hrest, -⟩ := exists_of_bind_eq_ok hds
            exact ⟨⟨d, eq_ok_of_mapError_eq_ok hd⟩, rest, hrest⟩
          · rintro ⟨⟨d, hd⟩, rest, hrest⟩
            exact ⟨d, by rw [hd, mapError_ok], d :: rest, by rw [hrest]; rfl⟩

theorem failsWithin_mapError_fault_iff {α : Type} {x : Except Fault α} :
    FailsWithin DescriptorFault.IsRefusal (x.mapError .fault) ↔ ∃ a, x = .ok a := by
  cases x with
  | ok a => exact iff_of_true (.ok _ a) ⟨a, rfl⟩
  | error f => exact iff_of_false (fun h => h _ rfl) fun ⟨_, h⟩ => error_ne_ok h

/-- Entries are described or refused if and only if those in front of the first one that is no
mapping have values of the types that the fields take. -/
theorem failsWithin_ofEntries_iff (i : Nat) :
    FailsWithin DescriptorFault.IsRefusal (ofEntries path i entries)
      ↔ ∀ entry ∈ entries.takeWhile (·.opened.isMap), IsDescription entry := by
  induction entries generalizing i with
  | nil => exact iff_of_true (.ok _ []) (List.forall_mem_nil _)
  | cons entry entries ih =>
      cases hmap : entry.opened.isMap with
      | false =>
          rw [ofEntries_cons_of_not_isMap hmap, List.takeWhile_cons, hmap,
            if_neg Bool.false_ne_true]
          exact iff_of_true (.error trivial) (List.forall_mem_nil _)
      | true =>
          obtain ⟨es, hes⟩ := exists_of_isMap hmap
          rw [ofEntries_cons_of_isMap hes, List.takeWhile_cons, hmap, if_pos rfl,
            List.forall_mem_cons, isDescription_iff hes,
            ← exists_describe_iff (FilePath.parent path.toList), ← ih (i + 1),
            FailsWithin.bind_iff, failsWithin_mapError_fault_iff]
          refine and_congr_right fun ⟨d, hd⟩ => ?_
          rw [hd, mapError_ok]
          constructor
          · intro h
            exact (FailsWithin.bind_iff.mp (h d rfl)).1
          · intro h d' _
            exact h.bind fun rest _ => .ok _ (d' :: rest)

variable {disk : Disk} {text : List Char} {d : Datum} {f : Fault}

/-- The document of a file. -/
def IsDocumentOf (disk : Disk) (path : String) (d : Datum) : Prop :=
  ∃ text, disk.readText path = .ok text ∧ Yaml.read text = .ok d

/-- The file is a text that is no document. -/
def IsMalformed (disk : Disk) (path : String) : Prop :=
  ∃ text, disk.readText path = .ok text ∧ Yaml.read text = .error .malformed

theorem load_of_unread (h : disk.readText path = .error f) :
    load disk path = .error (.fault f) := by
  rw [load, h]
  rfl

theorem load_of_text (h : disk.readText path = .ok text) : load disk path
    = match Yaml.read text with
      | .error .malformed => .error (.unreadable (String.ofList (FilePath.tidy path.toList)))
      | .error (.unfit f) => .error (.fault f)
      | .ok d => ofEntries (String.ofList (FilePath.tidy path.toList)) 0 (entriesOf d) := by
  rw [load, h]
  rfl

theorem IsDocumentOf.load_eq (h : IsDocumentOf disk path d) :
    load disk path = ofEntries (String.ofList (FilePath.tidy path.toList)) 0 (entriesOf d) := by
  obtain ⟨text, htext, hread⟩ := h
  rw [load_of_text htext, hread]

theorem IsDocumentOf.unique {d' : Datum} (h : IsDocumentOf disk path d)
    (h' : IsDocumentOf disk path d') : d = d' := by
  obtain ⟨text, htext, hread⟩ := h
  obtain ⟨text', htext', hread'⟩ := h'
  obtain rfl := Except.ok.inj (htext.symm.trans htext')
  exact Except.ok.inj (hread.symm.trans hread')

theorem IsDocumentOf.not_isMalformed (h : IsDocumentOf disk path d) :
    ¬ IsMalformed disk path := by
  rintro ⟨text', htext', hread'⟩
  obtain ⟨text, htext, hread⟩ := h
  obtain rfl := Except.ok.inj (htext.symm.trans htext')
  exact error_ne_ok (hread'.symm.trans hread)

/-- A file holds a document, or gives none and is refused with a message if and only if it is a text
that is no document. -/
theorem isDocumentOf_or (disk : Disk) (path : String) : (∃ d, IsDocumentOf disk path d)
    ∨ (∃ e, load disk path = .error e ∧ (e.IsRefusal ↔ IsMalformed disk path))
      ∧ ¬ ∃ d, IsDocumentOf disk path d := by
  cases htext : disk.readText path with
  | error f =>
      refine .inr ⟨⟨.fault f, load_of_unread htext, iff_of_false id ?_⟩, ?_⟩
      · rintro ⟨text, htext', -⟩
        exact error_ne_ok (htext.symm.trans htext')
      · rintro ⟨d, text, htext', -⟩
        exact error_ne_ok (htext.symm.trans htext')
  | ok text =>
      cases hread : Yaml.read text with
      | ok d => exact .inl ⟨d, text, htext, hread⟩
      | error e =>
          have hnone : ¬ ∃ d, IsDocumentOf disk path d := by
            rintro ⟨d, text', htext', hread'⟩
            obtain rfl := Except.ok.inj (htext.symm.trans htext')
            exact error_ne_ok (hread.symm.trans hread')
          refine .inr ⟨?_, hnone⟩
          have hload := load_of_text htext
          rw [hread] at hload
          cases e with
          | malformed => exact ⟨_, hload, iff_of_true trivial ⟨text, htext, hread⟩⟩
          | unfit f =>
              refine ⟨_, hload, iff_of_false id ?_⟩
              rintro ⟨text', htext', hread'⟩
              obtain rfl := Except.ok.inj (htext.symm.trans htext')
              cases hread.symm.trans hread'

/-- A file gives a description for every entry of its document, in order. It gives descriptions if
and only if it holds a document whose entries are mappings with values of the types that the fields
take. And where it gives none, it is refused with a message if and only if it is a text that is no
document, or a document with such values in all entries in front of the first one that is no
mapping. -/
theorem load_describes_iff (disk : Disk) (path : String) :
    GivesWithin (fun ds => ∃ d, IsDocumentOf disk path d
        ∧ List.Forall₂ (IsDescribed (FilePath.parent path.toList)) (entriesOf d) ds)
        (load disk path)
      ∧ ((∃ ds, load disk path = .ok ds)
        ↔ ∃ d, IsDocumentOf disk path d ∧ ∀ entry ∈ entriesOf d, IsDescription entry)
      ∧ (FailsWithin DescriptorFault.IsRefusal (load disk path)
        ↔ IsMalformed disk path ∨ ∃ d, IsDocumentOf disk path d
          ∧ ∀ entry ∈ (entriesOf d).takeWhile (·.opened.isMap), IsDescription entry) := by
  rcases isDocumentOf_or disk path with ⟨d, hd⟩ | ⟨⟨e, hload, he⟩, hnone⟩
  · have hdocument : ∀ {P : Datum → Prop}, (∃ d', IsDocumentOf disk path d' ∧ P d') ↔ P d :=
      ⟨fun ⟨d', hd', h⟩ => hd.unique hd' ▸ h, fun h => ⟨d, hd, h⟩⟩
    rw [hd.load_eq, hdocument, hdocument, exists_ofEntries_iff, failsWithin_ofEntries_iff,
      or_iff_right hd.not_isMalformed]
    refine ⟨fun ds hds => ⟨d, hd, ?_⟩, Iff.rfl, Iff.rfl⟩
    have hdescribed := forall₂_isDescribed hds
    rwa [String.toList_ofList, FilePath.parent_tidy] at hdescribed
  · rw [hload]
    refine ⟨.error _ e, iff_of_false (fun ⟨_, h⟩ => error_ne_ok h) fun ⟨d, hd, _⟩ => hnone ⟨d, hd⟩,
      ?_⟩
    rw [or_iff_left fun ⟨d, hd, _⟩ => hnone ⟨d, hd⟩, ← he]
    exact ⟨fun h => h e rfl, .error⟩

/-- A line that is no number is no reason to refuse a file. -/
theorem not_forall_load_isRefusal : ¬ ∀ (disk : Disk) (path : String) (d : Datum),
    IsDocumentOf disk path d → FailsWithin DescriptorFault.IsRefusal (load disk path) := by
  intro h
  let disk : Disk :=
    { files := [("/symbols.yaml", "start_line: x".toList.map fun c => UInt8.ofNat c.toNat)] }
  have hdocument : ((disk.readText "/symbols.yaml").toOption.bind fun text =>
      (Yaml.read text).toOption).isSome = true := by
    decide +kernel
  have hfault : ¬ FailsWithin DescriptorFault.IsRefusal (load disk "/symbols.yaml") := by
    decide +kernel
  obtain ⟨d, hd⟩ := Option.isSome_iff_exists.mp hdocument
  obtain ⟨text, htext, hread⟩ := Option.bind_eq_some_iff.mp hd
  exact hfault (h disk "/symbols.yaml" d
    ⟨text, eq_ok_of_toOption_eq_some htext, eq_ok_of_toOption_eq_some hread⟩)

end Descriptors

end CommandLine

end DocTags
