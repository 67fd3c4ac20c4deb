import DocTags.Proofs.CommandLine.Printable
import DocTags.Proofs.CommandLine.ReportNames
import DocTags.Proofs.DataSet.LeadingSeparator
import DocTags.Proofs.DataSet.RowScan

/-!
# The report of literal rows

The numbers of a literal row are those that are written on its line. A number that is no whole one
stands for the binary number next to it, and from some size on this is infinite. A report as a JSON
document is read again, by any reader that keeps to the standard, exactly if no row holds such a
number; then the rows are read as they were, with their halves joined.
-/

namespace DocTags

open Decimal (maxDigits leastBeyond)

namespace LiteralRows

open Json

/-- Cleaning brings no characters into a comment but line feeds. -/
theorem mem_of_mem_clean {comment : List Char} {c : Char} (h : c ∈ clean comment) :
    c = '\n' ∨ c ∈ comment := by
  rw [clean, Text.dropEndWhile_eq_rdropWhile] at h
  have hreplaced := (List.dropLast_sublist _).mem ((List.rdropWhile_prefix _ _).mem h)
  refine (Pattern.mem_of_mem_replace _ hreplaced).imp List.mem_singleton.mp fun hc => ?_
  exact (Text.dropReturns_sublist comment).mem hc

/-- A line with a row holds no characters that the comment does not hold. -/
theorem mem_of_mem_rowsOf {comment line : List Char} {c : Char} (hline : line ∈ rowsOf comment)
    (hc : c ∈ line) : c ∈ comment := by
  obtain ⟨m, hm, hrow⟩ := exists_of_mem_rowsOf hline
  rw [rowLines] at hrow
  obtain ⟨piece, hpiece, rfl⟩ := List.mem_map.mp ((List.takeWhile_sublist _).mem hrow)
  have hmem := (Text.trim_sublist piece).mem hc
  have hfeed : c ≠ '\n' := by
    rintro rfl
    exact Text.not_mem_of_mem_splitAt _ piece hpiece hmem
  obtain ⟨hstart, hreads⟩ := Pattern.reads_of_search? hm
  have hstop := Text.mem_of_mem_splitAt _ piece hpiece c hmem
  exact (mem_of_mem_clean ((hreads.canRead.suffix.trans hstart).mem hstop)).resolve_left hfeed

/-- What a row is to the line on which it is written, where lists are no deeper than given. -/
structure IsRowOf (depth : Nat) (line : List Char) (row : Datum) : Prop where
  /-- The line is a JSON list without objects. -/
  document : IsDocument line row
  /-- The numbers of the row, at any depth, are those that are written, and they are all finite
  exactly if no written number is too large. -/
  numbers : ∃ ws : List WrittenNumber, (∀ w ∈ ws, w.text <:+: line)
    ∧ List.Forall₂ WrittenNumber.StandsFor ws row.numbers
    ∧ (row.HasFiniteNumbers ↔ ∀ w ∈ ws, ¬ w.Overflows)
  /-- Halves that are not joined do not come from anywhere else. -/
  settled : HoldsNoStandIn line → row.settled = row
  writable : IsWritable depth row

variable {depth : Nat} {line : List Char} {row : Datum}

theorem isRowOf_of_readRow (h : readRow depth line = .ok row) : IsRowOf depth line row := by
  have hread := readRow_eq_ok_iff.mp h
  have hstrict := Policy.isStrict_literals depth
  have hfrom := isReadFrom_of_read hstrict hread
  refine ⟨isDocument_of_read hstrict hread, ?_, hfrom.settled, hfrom.writable⟩
  obtain ⟨ws, hws, htexts⟩ := hfrom.written
  refine ⟨ws, htexts, ?_, ?_⟩
  · rw [hws, List.forall₂_map_right_iff, List.forall₂_same]
    exact fun w _ => w.standsFor_value
  · rw [Datum.HasFiniteNumbers, hws, List.forall_mem_map]
    exact forall₂_congr fun w _ => w.isFinite_value_iff

/-- The rows of a comment, each with its line. -/
theorem forall₂_isRowOf {comment : List Char} {sets : List DataSet}
    (h : (ofComment depth comment).result = .ok (some sets)) :
    List.Forall₂ (IsRowOf depth) (rowsOf comment) (sets.map DataSet.arguments) := by
  cases hm : Dialect.testWithPattern.search? (clean comment) with
  | none =>
      rw [ofComment, hm] at h
      cases Except.ok.inj h
  | some m =>
      rw [result_ofComment hm] at h
      obtain ⟨rows, hrows, hsets⟩ := exists_of_bind_eq_ok h
      split at hsets
      · cases hsets
      · obtain rfl := Option.some.inj (Except.ok.inj hsets)
        rw [arguments_number]
        exact (forall₂_of_mapM_eq_ok hrows).imp fun _ _ => isRowOf_of_readRow

end LiteralRows

/-- The rows of a comment and the name under which they are reported. -/
structure LiteralReport where
  name : String
  comment : String
  rows : List Datum

namespace LiteralReport

/-- The lines on which the rows are written. -/
def lines (r : LiteralReport) : List (List Char) :=
  LiteralRows.rowsOf r.comment.toList

/-- The rows as the result of the question about data: each under its number. -/
def data (r : LiteralReport) : Datum :=
  .list (r.rows.zipIdx.map fun row => .record [("key", .ofNat row.2), ("arguments", row.1)])

/-- The entry of a report. -/
def entry (r : LiteralReport) : Datum :=
  .record [("symbol", .text r.name), ("data", r.data)]

/-- The name and the rows with their texts settled. -/
def settled (r : LiteralReport) : LiteralReport :=
  { r with name := Json.settledText r.name, rows := r.rows.map Datum.settled }

/-- There are so few rows that their keys can be written. -/
def IsShort (r : LiteralReport) : Prop :=
  r.rows.length ≤ leastBeyond maxDigits

/-- The rows are nested no deeper than given. -/
def NestsWithin (r : LiteralReport) (depth : Nat) : Prop :=
  ∀ row ∈ r.rows, row.nestsWithin depth = true

/-- The entries of reports, in order. -/
def payload (reports : List LiteralReport) : Datum :=
  .list (reports.map entry)

variable {r : LiteralReport} {reports : List LiteralReport} {k : Nat}

theorem hasFiniteNumbers_data : r.data.HasFiniteNumbers ↔ ∀ row ∈ r.rows, row.HasFiniteNumbers := by
  have hkey (n : Nat) : (Datum.ofNat n).HasFiniteNumbers :=
    fun _ hx => List.mem_singleton.mp hx ▸ trivial
  have hset (row : Datum) (n : Nat) :
      (Datum.record [("key", .ofNat n), ("arguments", row)]).HasFiniteNumbers
        ↔ row.HasFiniteNumbers := by
    rw [Datum.hasFiniteNumbers_record, List.forall_mem_cons, List.forall_mem_singleton]
    exact and_iff_right (hkey n)
  have hrows : (∀ row ∈ r.rows.zipIdx, row.1.HasFiniteNumbers)
      ↔ ∀ row ∈ r.rows, row.HasFiniteNumbers := by
    rw [← List.forall_mem_map (P := Datum.HasFiniteNumbers), List.zipIdx_map_fst]
  rw [data, Datum.hasFiniteNumbers_list, List.forall_mem_map, ← hrows]
  exact forall₂_congr fun row _ => hset row.1 row.2

theorem hasFiniteNumbers_payload : (payload reports).HasFiniteNumbers
    ↔ ∀ r ∈ reports, ∀ row ∈ r.rows, row.HasFiniteNumbers := by
  rw [payload, Datum.hasFiniteNumbers_list, List.forall_mem_map]
  refine forall₂_congr fun r _ => ?_
  rw [entry, Datum.hasFiniteNumbers_record, List.forall_mem_cons, List.forall_mem_singleton,
    hasFiniteNumbers_data]
  exact and_iff_right fun _ hx => absurd hx List.not_mem_nil

theorem settledText_names : Json.settledText "symbol" = "symbol" ∧ Json.settledText "data" = "data"
    ∧ Json.settledText "key" = "key" ∧ Json.settledText "arguments" = "arguments" := by
  decide +kernel

theorem settled_data : r.data.settled = r.settled.data := by
  obtain ⟨-, -, hkey, harguments⟩ := settledText_names
  have hset (row : Datum) (n : Nat) : (Datum.record [("key", .ofNat n), ("arguments", row)]).settled
      = .record [("key", .ofNat n), ("arguments", row.settled)] := by
    rw [Datum.settled_record, List.map_cons, List.map_singleton, hkey, harguments]
    rfl
  rw [data, Datum.settled_list, List.map_map, data, settled, List.zipIdx_map, List.map_map]
  exact congrArg Datum.list (List.map_congr_left fun row _ => hset row.1 row.2)

theorem settled_entry : r.entry.settled = r.settled.entry := by
  obtain ⟨hsymbol, hdata, -⟩ := settledText_names
  rw [entry, Datum.settled_record, List.map_cons, List.map_singleton, hsymbol, hdata, settled_data]
  rfl

theorem settled_payload : (payload reports).settled = payload (reports.map settled) := by
  rw [payload, Datum.settled_list, List.map_map, payload, List.map_map]
  exact congrArg Datum.list (List.map_congr_left fun r _ => settled_entry)

/-- Documents are made for reports whose rows they are made for. -/
theorem isWritable_payload (hrows : ∀ r ∈ reports, ∀ row ∈ r.rows, Json.IsWritable k row)
    (hshort : ∀ r ∈ reports, r.IsShort) : Json.IsWritable (k + 4) (payload reports) := by
  obtain ⟨hsymbol, hdata, hkey, harguments⟩ := settledText_names
  refine .list (k + 3) _ (List.forall_mem_map.mpr fun r hr => ?_)
  refine .record (k + 2) _ (by simp [hsymbol, hdata]) ?_
  refine List.forall_mem_cons.mpr ⟨.text _ _, List.forall_mem_singleton.mpr ?_⟩
  refine .list (k + 1) _ (List.forall_mem_map.mpr fun row hrow => ?_)
  refine .record k _ (by simp [hkey, harguments]) ?_
  obtain ⟨-, hlt, hmem⟩ := List.mem_zipIdx hrow
  refine List.forall_mem_cons.mpr ⟨?_, List.forall_mem_singleton.mpr ?_⟩
  · exact .int k _ (Json.isShort_ofNat (by have := hshort r hr; unfold IsShort at this; omega))
  · rw [hmem]
    exact hrows r hr _ (List.getElem_mem _)

theorem isTooLong_ofNat {n : Nat} (h : leastBeyond maxDigits ≤ n) :
    (Datum.ofNat n).isTooLong = true := by
  have hself (p : Datum → Bool) : (Datum.int n).holds p = p (.int n) := rfl
  unfold leastBeyond at h
  rw [Datum.isTooLong, Datum.ofNat, hself]
  exact decide_eq_true h

/-- A row whose key cannot be written is in the way of the report. -/
theorem isTooLong_payload {r : LiteralReport} (hr : r ∈ reports) (h : ¬ r.IsShort) :
    (payload reports).isTooLong = true := by
  obtain ⟨n, hn, hlt⟩ : ∃ n, leastBeyond maxDigits ≤ n ∧ n < r.rows.length :=
    ⟨_, Nat.le_refl _, Nat.not_le.mp h⟩
  have hset : (r.rows[n], n) ∈ r.rows.zipIdx :=
    List.mem_zipIdx_iff_getElem?.mpr (List.getElem?_eq_getElem hlt)
  have hkey := isTooLong_ofNat hn
  have hdata : r.data.isTooLong = true :=
    Datum.holds_of_mem_list (List.mem_map_of_mem hset)
      (Datum.holds_of_mem_record List.mem_cons_self hkey)
  exact Datum.holds_of_mem_list (List.mem_map_of_mem hr)
    (Datum.holds_of_mem_record (List.mem_cons_of_mem _ (List.mem_singleton_self _)) hdata)

end LiteralReport

/-- What is described has the rows in the report, where lists are no deeper than given, and it takes
its data from nowhere else. -/
structure Description.GivesRows (depth : Nat) (d : Description) (r : LiteralReport) : Prop where
  comment : d.docComment = .text r.comment
  name : d.qualifiedName = .text r.name
  hasModule : ∃ modules, Surroundings.moduleOfType d.declaringType = .ok modules
  noReferences : ProvidedData.references r.comment.toList = []
  rows : r.lines.mapM (LiteralRows.readRow depth) = .ok r.rows
  rows_ne : r.rows ≠ []

namespace Description.GivesRows

open LiteralRows

variable {depth : Nat} {d : Description} {r : LiteralReport} {e : Surroundings}

theorem isRowOf (h : d.GivesRows depth r) :
    ∀ row ∈ r.rows, ∃ line ∈ r.lines, IsRowOf depth line row := by
  intro row hrow
  obtain ⟨line, hline, hread⟩ := exists_mem_of_mapM_eq_ok h.rows row hrow
  exact ⟨line, hline, isRowOf_of_readRow hread⟩

/-- Documents are made for rows as deep as they are nested. -/
theorem isWritable {limit : Nat} (h : d.GivesRows depth r) (hnests : r.NestsWithin limit) :
    ∀ row ∈ r.rows, Json.IsWritable limit row := by
  intro row hrow
  obtain ⟨line, -, hline⟩ := h.isRowOf row hrow
  exact hline.writable.of_nestsWithin (hnests row hrow)

/-- The texts of the rows are settled if the comment holds no stand-ins. -/
theorem settled_rows (h : d.GivesRows depth r) (hcomment : Json.HoldsNoStandIn r.comment.toList) :
    r.settled.rows = r.rows := by
  have hsettled : ∀ row ∈ r.rows, row.settled = row := by
    intro row hrow
    obtain ⟨line, hline, hrowOf⟩ := h.isRowOf row hrow
    exact hrowOf.settled fun c hc => hcomment c (mem_of_mem_rowsOf hline hc)
  rw [LiteralReport.settled, List.map_congr_left hsettled, List.map_id']

/-- The rows are the data sets, numbered from zero. -/
theorem ofSymbol_result (h : d.GivesRows depth r) (resolver : Resolver)
    (hdepth : resolver.rowDepth = depth) {s : Symbol} (hs : s.docComment = r.comment) :
    (ProvidedData.ofSymbol resolver s).result = .ok (some (number r.rows)) := by
  obtain ⟨m, hm⟩ : ∃ m, Dialect.testWithPattern.search? (clean r.comment.toList) = some m := by
    refine Option.ne_none_iff_exists'.mp fun hnone => h.rows_ne ?_
    have hrows := h.rows
    rw [LiteralReport.lines, rowsOf, hnone] at hrows
    exact (Except.ok.inj hrows).symm
  have hlists : ∀ row ∈ r.rows, ∃ xs, row = .list xs := by
    intro row hrow
    obtain ⟨line, hline, hread⟩ := exists_mem_of_mapM_eq_ok h.rows row hrow
    exact exists_list_of_read (head?_of_mem_rowsOf hline) (readRow_eq_ok_iff.mp hread)
  rw [← hs] at hm
  have hrows := h.rows
  rw [LiteralReport.lines, ← hs] at hrows
  rw [ProvidedData.result_ofSymbol (by rw [hs]; exact h.noReferences), hdepth, result_ofComment hm,
    hrows]
  simp only [Except.bind, if_neg h.rows_ne, (ProvidedData.check_number h.rows_ne hlists).2]
  rfl

/-- The rows are reported unless one of them is nested too deep. -/
theorem report_givesIff (h : d.GivesRows depth r) (limit : Nat) :
    GivesIff (· = .fault .tooDeep) (DataSet.report limit (number r.rows)) (r.NestsWithin limit)
      r.data := by
  have hnests : ((number r.rows).all fun s => s.arguments.nestsWithin limit) = true
      ↔ r.NestsWithin limit := by
    have hrows : r.NestsWithin limit ↔
        ∀ row ∈ (number r.rows).map DataSet.arguments, row.nestsWithin limit = true := by
      rw [arguments_number, LiteralReport.NestsWithin]
    rw [hrows, List.forall_mem_map, List.all_eq_true]
  have hdata : (number r.rows).map DataSet.toDatum
      = r.rows.zipIdx.map fun row => .record [("key", .ofNat row.2), ("arguments", row.1)] := by
    rw [number, List.map_map]
    refine List.map_congr_left fun row hrow => ?_
    obtain ⟨line, -, hline⟩ := h.isRowOf _ (List.fst_mem_of_mem_zipIdx hrow)
    rw [Function.comp_apply, DataSet.toDatum, hline.writable.plain_eq]
    rfl
  rw [DataSet.report, hdata]
  exact ⟨fun hn => if_pos (hnests.mpr hn), fun hn => ⟨_, rfl, if_neg (mt hnests.mp hn)⟩⟩

/-- The question about data is answered with the rows unless one of them is nested too deep. -/
theorem asked (h : d.GivesRows e.limits.decoded r) :
    GivesIff (· = .fault .tooDeep) (d.asked e .data) (r.NestsWithin e.limits.reported) r.data := by
  obtain ⟨modules, hmodules⟩ := h.hasModule
  have hsymbol : d.toSymbol .data = .ok { d.bare with docComment := r.comment } := by
    rw [toSymbol, withComment, h.comment]
    rfl
  obtain ⟨resolver, hresolver, hdepth⟩ : ∃ resolver,
      e.resolver { d.bare with docComment := r.comment } = .ok resolver
        ∧ resolver.rowDepth = e.limits.decoded := by
    rw [Surroundings.resolver]
    exact ⟨_, congrArg (Except.map _) hmodules, rfl⟩
  have hprovided :
      e.provided { d.bare with docComment := r.comment } = .ok (some (number r.rows)) := by
    rw [Surroundings.provided, hresolver]
    exact h.ofSymbol_result resolver hdepth rfl
  have hasked : d.asked e .data = DataSet.report e.limits.reported (number r.rows) := by
    rw [Description.asked, hsymbol, mapError_ok]
    change (e.ask { d.bare with docComment := r.comment } .data).result = _
    rw [Surroundings.ask_data_result, hprovided]
    rfl
  rw [hasked]
  exact h.report_givesIff e.limits.reported

/-- Nothing but a row that is nested too deep ends the run. -/
theorem ends_iff (h : d.GivesRows e.limits.decoded r) {f : Fault} :
    d.Ends e [.data] f ↔ f = .tooDeep ∧ ¬ r.NestsWithin e.limits.reported := by
  constructor
  · rintro (hresolver | ⟨q, hq, hasked, -⟩)
    · obtain ⟨modules, hmodules⟩ := h.hasModule
      have hok : e.resolver d.bare = .ok _ := congrArg (Except.map _) hmodules
      rw [hok] at hresolver
      cases hresolver
    · rw [List.mem_singleton.mp hq] at hasked
      have hdeep : ¬ r.NestsWithin e.limits.reported := by
        intro hnests
        rw [h.asked.1 hnests] at hasked
        cases hasked
      obtain ⟨_, rfl, hfault⟩ := h.asked.2 hdeep
      rw [hfault] at hasked
      cases hasked
      exact ⟨rfl, hdeep⟩
  · rintro ⟨rfl, hdeep⟩
    obtain ⟨_, rfl, hasked⟩ := h.asked.2 hdeep
    exact .inr ⟨.data, List.mem_singleton_self _, hasked, rfl⟩

/-- The entry of a run is that of the report. -/
theorem entry_eq (h : d.GivesRows e.limits.decoded r) (hnests : r.NestsWithin e.limits.reported) :
    d.entry e [.data] = r.entry ∧ d.fails e [.data] = false := by
  have hreply : d.replyTo e .data = ⟨r.data, false⟩ := by
    rw [replyTo, h.asked.1 hnests]
    rfl
  refine ⟨?_, ?_⟩
  · rw [entry, h.name, List.map_singleton, hreply]
    rfl
  · rw [fails, List.any_cons, hreply]
    rfl

end Description.GivesRows

namespace CommandLine

open LiteralReport LiteralRows

/-- What is related item by item holds something related to every item. -/
theorem exists_mem_of_forall₂ {α β : Type} {R : α → β → Prop} {xs : List α} {ys : List β}
    (h : List.Forall₂ R xs ys) : ∀ y ∈ ys, ∃ x ∈ xs, R x y := by
  induction h with
  | nil => simp
  | cons hR _ ih =>
      refine List.forall_mem_cons.mpr ⟨⟨_, List.mem_cons_self, hR⟩, fun y hy => ?_⟩
      obtain ⟨x, hx, hxy⟩ := ih y hy
      exact ⟨x, List.mem_cons_of_mem _ hx, hxy⟩

section Rows

variable {depth : Nat} {ds : List Description} {reports : List LiteralReport}

/-- Every report has the rows of some description, and every description has those of a report. -/
theorem exists_givesRows (hrows : List.Forall₂ (Description.GivesRows depth) ds reports) :
    (∀ r ∈ reports, ∃ d ∈ ds, d.GivesRows depth r)
      ∧ ∀ d ∈ ds, ∃ r ∈ reports, d.GivesRows depth r :=
  ⟨exists_mem_of_forall₂ hrows, exists_mem_of_forall₂ hrows.flip⟩

variable {limit : Nat} (hrows : List.Forall₂ (Description.GivesRows depth) ds reports)
  (hnests : ∀ r ∈ reports, r.NestsWithin limit)

include hrows hnests

theorem isWritable_of_givesRows : ∀ r ∈ reports, ∀ row ∈ r.rows, Json.IsWritable limit row := by
  intro r hr
  obtain ⟨d, -, hd⟩ := (exists_givesRows hrows).1 r hr
  exact hd.isWritable (hnests r hr)

/-- The report can be printed if and only if the keys of all rows can be written. -/
theorem unprintable?_payload_eq_none_iff :
    unprintable? (payload reports) = none ↔ ∀ r ∈ reports, r.IsShort := by
  constructor
  · intro h r hr
    by_contra hlong
    have hfits := isTooLong_eq_false_of_unprintable? h
    rw [isTooLong_payload hr hlong] at hfits
    cases hfits
  · exact fun hshort =>
      (isWritable_payload (isWritable_of_givesRows hrows hnests) hshort).unprintable?_eq_none

/-- What is printed is read again exactly if all numbers in the rows are finite. -/
theorem read_printedText_givesIff (hshort : ∀ r ∈ reports, r.IsShort) {output : OutputSettings}
    (hformat : output.format = .json) {policy : Json.Policy} (hpolicy : policy.IsStandard)
    (hdepth : limit + 4 ≤ policy.depth) :
    GivesIff Json.Fault.IsNonFinite
      (Json.read policy (printedText output (payload reports)).toList)
      (∀ r ∈ reports, ∀ row ∈ r.rows, row.HasFiniteNumbers)
      (payload (reports.map LiteralReport.settled)) := by
  have hwritable := isWritable_payload (isWritable_of_givesRows hrows hnests) hshort
  have hfeed : Json.IsGap ['\n'] := List.forall_mem_singleton.mpr rfl
  rw [printedText, hformat]
  dsimp only
  rw [String.toList_ofList, hwritable.read_write hpolicy hdepth _ hfeed, ← settled_payload]
  exact hwritable.reread_givesIff.congr hasFiniteNumbers_payload

end Rows

variable {setting : Setting} {settings : Settings} {path text : String} {ds : List Description}
  {reports : List LiteralReport} {failed : Bool} {e : Surroundings}

theorem entries_eq (hrows : List.Forall₂ (Description.GivesRows e.limits.decoded) ds reports)
    (hnests : ∀ r ∈ reports, r.NestsWithin e.limits.reported) :
    ds.map (·.entry e [.data]) = reports.map entry ∧ ds.any (·.fails e [.data]) = false := by
  induction hrows with
  | nil => exact ⟨rfl, rfl⟩
  | cons hd _ ih =>
      rw [List.forall_mem_cons] at hnests
      obtain ⟨hentry, hfails⟩ := hd.entry_eq hnests.1
      obtain ⟨hentries, hfail⟩ := ih hnests.2
      rw [List.map_cons, hentry, hentries, List.any_cons, hfails, hfail, Bool.or_false]
      exact ⟨rfl, rfl⟩

/-- The descriptions have the entries of the reports, or a row that is nested too deep ends the
run. -/
theorem workOn_literalRows
    (hrows : List.Forall₂ (Description.GivesRows e.limits.decoded) ds reports) (log : Log) :
    GivesIff (· = .fault .tooDeep) (workOn e (.ask .data) log ds).result
      (∀ r ∈ reports, r.NestsWithin e.limits.reported) (reports.map entry, false) := by
  rcases workOn_cases e (.ask .data) log ds with ⟨d, hd, f, hends, hwork⟩ | ⟨hstay, hwork⟩
  · obtain ⟨r, hr, hgives⟩ := (exists_givesRows hrows).2 d hd
    obtain ⟨rfl, hdeep⟩ := hgives.ends_iff.mp hends
    exact ⟨fun hnests => absurd (hnests r hr) hdeep, fun _ => ⟨_, rfl, hwork⟩⟩
  · have hnests : ∀ r ∈ reports, r.NestsWithin e.limits.reported := by
      intro r hr
      by_contra hdeep
      obtain ⟨d, hd, hgives⟩ := (exists_givesRows hrows).1 r hr
      exact hstay d hd _ (hgives.ends_iff.mpr ⟨rfl, hdeep⟩)
    obtain ⟨hentries, hfail⟩ := entries_eq hrows hnests
    refine ⟨fun _ => hwork.trans ?_, fun hdeep => absurd hnests hdeep⟩
    exact congrArg Except.ok (Prod.ext hentries hfail)

theorem printed_literalRows_iff (hload : Descriptors.load setting.disk path = .ok ds)
    (hrows : List.Forall₂ (Description.GivesRows setting.limits.decoded) ds reports)
    (settings : Settings) :
    (runOn setting settings (.ask .data) path).outcome = .printed text failed
      ↔ (∀ r ∈ reports, r.IsShort ∧ r.NestsWithin setting.limits.reported)
        ∧ text = printedText settings.output (payload reports) ∧ failed = false := by
  have hwork := workOn_literalRows (e := setting.surroundings settings) hrows
    (Log.configure settings.logging { shownAs := Log.hexNumber })
  rw [runOn_outcome hload, forall₂_and]
  by_cases hnests : ∀ r ∈ reports, r.NestsWithin setting.limits.reported
  · rw [hwork.1 hnests, ← unprintable?_payload_eq_none_iff hrows hnests, and_iff_left hnests]
    exact ending_eq_printed_iff
  · obtain ⟨_, rfl, hdeep⟩ := hwork.2 hnests
    rw [hdeep]
    exact iff_of_false Outcome.noConfusion fun h => hnests h.1.2

/-- The rows of comments, and the report of a run over descriptions whose data are such rows. A row
has the numbers that are written on its line: whole ones, and for every other the binary number next
to it. They are finite unless a written one is too large. The report is printed as long as no row is
nested too deep for a report and there are not so many rows that their keys cannot be written. Any
reader of JSON documents that keeps to the standard, and goes deep enough, reads the rows in what is
printed, with their halves joined, if all of their numbers are finite, and otherwise it meets a name
that the standard does not know. There are no halves to be joined where a comment holds none. -/
theorem runOn_literalRows (hload : Descriptors.load setting.disk path = .ok ds)
    (hrows : List.Forall₂ (Description.GivesRows setting.limits.decoded) ds reports)
    (hformat : settings.output.format = .json) :
    let outcome := (runOn setting settings (.ask .data) path).outcome
    (∀ depth comment sets, (ofComment depth comment).result = .ok (some sets) →
      List.Forall₂ (IsRowOf depth) (rowsOf comment) (sets.map DataSet.arguments))
    ∧ ((∃ text failed, outcome = .printed text failed)
      ↔ ∀ r ∈ reports, r.IsShort ∧ r.NestsWithin setting.limits.reported)
    ∧ (∀ text failed, outcome = .printed text failed → failed = false
      ∧ ∀ policy : Json.Policy, policy.IsStandard → setting.limits.reported + 4 ≤ policy.depth →
        GivesIff Json.Fault.IsNonFinite (Json.read policy text.toList)
          (∀ r ∈ reports, ∀ row ∈ r.rows, row.HasFiniteNumbers)
          (payload (reports.map LiteralReport.settled)))
    ∧ ∀ r ∈ reports, Json.HoldsNoStandIn r.comment.toList → r.settled.rows = r.rows := by
  intro outcome
  have hprinted (text : String) (failed : Bool) : outcome = .printed text failed
      ↔ (∀ r ∈ reports, r.IsShort ∧ r.NestsWithin setting.limits.reported)
        ∧ text = printedText settings.output (payload reports) ∧ failed = false :=
    printed_literalRows_iff hload hrows settings
  refine ⟨fun depth comment sets h => forall₂_isRowOf h, ?_, fun text failed h => ?_, ?_⟩
  · constructor
    · rintro ⟨text, failed, h⟩
      exact ((hprinted text failed).mp h).1
    · exact fun hrows => ⟨_, _, (hprinted _ _).mpr ⟨hrows, rfl, rfl⟩⟩
  · obtain ⟨hreports, rfl, rfl⟩ := (hprinted text failed).mp h
    obtain ⟨hshort, hnests⟩ := forall₂_and.mp hreports
    exact ⟨rfl, fun policy hpolicy hdepth =>
      read_printedText_givesIff hrows hnests hshort hformat hpolicy hdepth⟩
  · intro r hr
    obtain ⟨d, -, hd⟩ := (exists_givesRows hrows).1 r hr
    exact hd.settled_rows

/-- What is described has the given comment, and neither a type nor a member. -/
def hasCommentAlone (comment : String) (d : Description) : Bool :=
  d.docComment.toText.toOption == some comment && d.declaringType.isNull && d.member.isNull

/-- It has the rows of the comment. -/
theorem givesRows_of_hasCommentAlone {depth : Nat} {comment : String} {d : Description}
    {rows : List Datum}
    (hd : hasCommentAlone comment d = true)
    (hrefs : ProvidedData.references comment.toList = [])
    (hrows : (rowsOf comment.toList).mapM (readRow depth) = .ok rows) (hne : rows ≠ []) :
    d.GivesRows depth ⟨"<anonymous>", comment, rows⟩ := by
  have hnull {x : Datum} (hx : x.isNull = true) : x = .null := by
    cases x <;> first | rfl | cases hx
  rw [hasCommentAlone, Bool.and_eq_true, Bool.and_eq_true, beq_iff_eq] at hd
  obtain ⟨⟨hcomment, htype⟩, hmember⟩ := hd
  refine ⟨?_, ?_, ?_, hrefs, hrows, hne⟩
  · cases hc : d.docComment with
    | text s =>
        rw [hc] at hcomment
        exact congrArg Datum.text (Option.some.inj hcomment)
    | _ =>
        rw [hc] at hcomment
        cases hcomment
  · rw [Description.qualifiedName, hnull htype, hnull hmember]
    rfl
  · rw [hnull htype]
    exact ⟨[], rfl⟩

/-- A file with one such description. -/
theorem exists_load_eq (setting : Setting) (path comment : String)
    (h : ((Descriptors.load setting.disk path).map fun ds =>
      ds.length == 1 && ds.all (hasCommentAlone comment)).toOption = some true) :
    ∃ d, Descriptors.load setting.disk path = .ok [d] ∧ hasCommentAlone comment d = true := by
  cases hload : Descriptors.load setting.disk path with
  | error fault =>
      rw [hload] at h
      cases h
  | ok ds =>
      rw [hload] at h
      have hds := Option.some.inj h
      rw [Bool.and_eq_true, beq_iff_eq] at hds
      obtain ⟨d, rfl⟩ := List.length_eq_one_iff.mp hds.1
      exact ⟨d, rfl, by simpa using hds.2⟩

/-- A row with one number that is not whole. -/
def numberRow (w : Json.WrittenNumber) (h : ¬ w.IsWhole) : WrittenRow (RowLimits.decoded {}) where
  literal := .list Json.noSpace (.last (.number w) Json.noSpace)
  items := [w.value]
  value_eq := rfl
  isShort := fun hfraction hexponent => absurd ⟨hfraction, hexponent⟩ h
  depth_le := Nat.succ_le_succ (Nat.zero_le 989)

/-- The report of a comment with one such row. -/
def numberReport (comment : String) (w : Json.WrittenNumber) : LiteralReport :=
  ⟨"<anonymous>", comment, [.list [w.value]]⟩

section NumberReport

variable {comment : String} {w : Json.WrittenNumber}

theorem givesRows_numberReport {d : Description} (hd : hasCommentAlone comment d = true)
    (hrefs : ProvidedData.references comment.toList = []) (hw : ¬ w.IsWhole)
    (hlines : rowsOf comment.toList = [(numberRow w hw).chars]) :
    List.Forall₂ (Description.GivesRows (RowLimits.decoded {})) [d] [numberReport comment w] := by
  have hrows : (rowsOf comment.toList).mapM (readRow (RowLimits.decoded {}))
      = .ok (numberReport comment w).rows := by
    rw [hlines, List.mapM_cons, (numberRow w hw).readRow_chars]
    rfl
  exact .cons (givesRows_of_hasCommentAlone hd hrefs hrows (List.cons_ne_nil _ _)) .nil

/-- The report has one row, which is nested once. -/
theorem fits_numberReport : ∀ r ∈ [numberReport comment w],
    r.IsShort ∧ r.NestsWithin (RowLimits.reported {}) := by
  have hvalue (n : Nat) : w.value.nestsWithin n = true := by
    have hstands := w.standsFor_value
    generalize w.value = d at hstands
    cases hstands <;> rfl
  refine List.forall_mem_singleton.mpr ⟨Decimal.one_le_leastBeyond maxDigits, ?_⟩
  refine List.forall_mem_singleton.mpr (Datum.nestsWithin_list.mpr ⟨489, rfl, ?_⟩)
  exact List.forall_mem_singleton.mpr (hvalue 489)

/-- All numbers in the report are finite unless the one that is written is too large. -/
theorem hasFiniteNumbers_numberReport :
    (∀ row ∈ (numberReport comment w).rows, row.HasFiniteNumbers) ↔ ¬ w.Overflows := by
  rw [numberReport, List.forall_mem_singleton, Datum.hasFiniteNumbers_list,
    List.forall_mem_singleton, Datum.HasFiniteNumbers, w.numbers_value.1,
    List.forall_mem_singleton, w.isFinite_value_iff]

/-- The texts in the report are settled. -/
theorem settled_numberReport : (numberReport comment w).settled = numberReport comment w := by
  have hname : Json.settledText "<anonymous>" = "<anonymous>" := by decide +kernel
  rw [LiteralReport.settled, numberReport, hname, List.map_singleton, Datum.settled_list,
    List.map_singleton, w.numbers_value.2]

end NumberReport

/-- Two and a half, as it is written. -/
def twoAndHalf : Json.WrittenNumber :=
  ⟨false, .ofNat 2, by decide, some (.ofNat 5), none⟩

theorem not_isWhole_twoAndHalf : ¬ twoAndHalf.IsWhole :=
  fun h => nomatch h.1

theorem not_overflows_twoAndHalf : ¬ twoAndHalf.Overflows :=
  fun h => absurd h.2 (by decide +kernel)

/-- A row with this number is read again from the report. -/
theorem runOn_literalRows_half : ∃ (setting : Setting) (path : String) (ds : List Description)
    (report : LiteralReport) (text : String),
    report.lines = ["[2.5]".toList]
      ∧ Descriptors.load setting.disk path = .ok ds
      ∧ List.Forall₂ (Description.GivesRows setting.limits.decoded) ds [report]
      ∧ (runOn setting {} (.ask .data) path).outcome = .printed text false
      ∧ (∀ row ∈ report.rows, row.HasFiniteNumbers)
      ∧ Json.read .standard text.toList = .ok (payload [report]) := by
  let setting := settingOf "doc_comment: \"/**\\n * @testWith [2.5]\\n */\""
  let comment := "/**\n * @testWith [2.5]\n */"
  let report := numberReport comment twoAndHalf
  obtain ⟨d, hload, hd⟩ := exists_load_eq setting "/symbols.yaml" comment (by decide +kernel)
  have hlines : rowsOf comment.toList = ["[2.5]".toList] := by decide +kernel
  have hgives := givesRows_numberReport hd (by decide +kernel) not_isWhole_twoAndHalf hlines
  have hfinite : ∀ row ∈ report.rows, row.HasFiniteNumbers :=
    hasFiniteNumbers_numberReport.mpr not_overflows_twoAndHalf
  have hformat : ({} : Settings).output.format = .json := rfl
  obtain ⟨-, hprints, hread, -⟩ := runOn_literalRows hload hgives hformat
  obtain ⟨text, failed, htext⟩ := hprints.mpr fits_numberReport
  obtain ⟨rfl, hreads⟩ := hread text failed htext
  have hread := (hreads .standard Json.Policy.isStandard_standard (by decide)).1
    (List.forall_mem_singleton.mpr hfinite)
  rw [List.map_singleton, settled_numberReport] at hread
  exact ⟨setting, "/symbols.yaml", [d], report, text, hlines, hload, hgives, htext, hfinite, hread⟩

theorem isLetter_hugeExponent : 'e' = 'e' ∨ 'e' = 'E' :=
  .inl rfl

theorem isSign_hugeExponent : ([] : List Char) = [] ∨ ([] : List Char) = ['+']
    ∨ ([] : List Char) = ['-'] :=
  .inl rfl

/-- One with an exponent that is too large. -/
def hugeNumber : Json.WrittenNumber :=
  ⟨false, .ofNat 1, Numeral.digits_ofNat_of_head?, none,
    some ⟨'e', isLetter_hugeExponent, [], isSign_hugeExponent, .ofNat 999⟩⟩

theorem not_isWhole_hugeNumber : ¬ hugeNumber.IsWhole :=
  fun h => Option.some_ne_none _ h.2

theorem overflows_hugeNumber : hugeNumber.Overflows :=
  ⟨not_isWhole_hugeNumber, by decide +kernel⟩

/-- Not every literal row holds finite numbers only, and not every report is read again. -/
theorem exists_report_not_read : ∃ (setting : Setting) (path : String) (ds : List Description)
    (report : LiteralReport) (text : String),
    report.lines = ["[1e999]".toList]
      ∧ Descriptors.load setting.disk path = .ok ds
      ∧ List.Forall₂ (Description.GivesRows setting.limits.decoded) ds [report]
      ∧ ¬ (∀ row ∈ report.rows, row.HasFiniteNumbers)
      ∧ (runOn setting {} (.ask .data) path).outcome = .printed text false
      ∧ ∀ d, Json.read .standard text.toList ≠ .ok d := by
  let setting := settingOf "doc_comment: \"/**\\n * @testWith [1e999]\\n */\""
  let comment := "/**\n * @testWith [1e999]\n */"
  let report := numberReport comment hugeNumber
  obtain ⟨d, hload, hd⟩ := exists_load_eq setting "/symbols.yaml" comment (by decide +kernel)
  have hlines : rowsOf comment.toList = ["[1e999]".toList] := by decide +kernel
  have hgives := givesRows_numberReport hd (by decide +kernel) not_isWhole_hugeNumber hlines
  have hfits : ∀ r ∈ [report], r.IsShort ∧ r.NestsWithin setting.limits.reported :=
    fits_numberReport
  have hinfinite : ¬ ∀ row ∈ report.rows, row.HasFiniteNumbers := fun h =>
    hasFiniteNumbers_numberReport.mp h overflows_hugeNumber
  have hprinted := (printed_literalRows_iff hload hgives {}).mpr ⟨hfits, rfl, rfl⟩
  have hformat : ({} : Settings).output.format = .json := rfl
  obtain ⟨hshort, hnests⟩ := forall₂_and.mp hfits
  obtain ⟨e, -, he⟩ := (read_printedText_givesIff hgives hnests hshort hformat
    Json.Policy.isStandard_standard (by decide)).2 fun h =>
      hinfinite (List.forall_mem_singleton.mp h)
  refine ⟨setting, "/symbols.yaml", [d], report, _, hlines, hload, hgives, hinfinite, hprinted, ?_⟩
  intro x hx
  rw [he] at hx
  cases hx

end CommandLine

end DocTags
