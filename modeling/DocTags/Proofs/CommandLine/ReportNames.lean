import DocTags.Proofs.CommandLine.Batch
import DocTags.Proofs.Datum.Entries

/-!
# Names in results

A question that fails is answered with a mapping that reports it under a name: an error, a warning
or a skipped test. Of the results of questions that do not fail only annotations have names that the
source lines give, and such a name can be one of these. It is the only way in which a result without
a failure looks like one.
-/

namespace DocTags

open Surroundings

/-- The value is a mapping with the given text among its keys. -/
def Datum.hasMember : Datum → String → Bool
  | .map es, name => (field? es name).isSome
  | _, _ => false

theorem Datum.hasMember_record {fields : List (String × Datum)} {name : String} :
    (record fields).hasMember name = true ↔ name ∈ fields.map (·.1) := by
  rw [record, hasMember, field?_record, List.lookup_isSome_iff, List.mem_map]
  exact exists_congr fun f => and_congr_right fun _ => beq_iff_eq.trans eq_comm

/-- The names under which failures are reported. -/
def reportNames : List String :=
  ["error", "warning", "skipped"]

/-- The name under which a failure is reported: an error unless it is a minor one. -/
def Failure.reportName : Failure → String
  | .problem (.noRows _) => "skipped"
  | .problem (.malformedConstraint ..) => "warning"
  | _ => "error"

theorem Failure.reportName_eq_error_iff (x : Failure) :
    x.reportName = "error" ↔ x.isFatal = true := by
  rw [reportName.eq_def, isFatal.eq_def]
  split <;> simp

/-- A failure is reported under its name, and under no other of these. -/
theorem Surroundings.hasMember_answerFailure {q : Query} {x : Failure} {a : Answer}
    (h : (answerFailure q x).result = .ok a) {name : String} (hname : name ∈ reportNames) :
    a.result.hasMember name = true ↔ name = x.reportName := by
  have hreported : ∀ p message, (reportFailure q p message).result = .ok a →
      (a.result.hasMember name = true ↔ name = "error") := by
    rintro p message ⟨⟩
    simp [Datum.hasMember_record]
  cases x with
  | problem p =>
      cases p with
      | noRows providers =>
          obtain rfl := Except.ok.inj h
          have hreason : name ≠ "reason" := by
            rintro rfl
            exact absurd hname (by decide)
          simp [Datum.hasMember_record, hreason, Failure.reportName]
      | malformedConstraint requirement expression reason =>
          obtain rfl := Except.ok.inj h
          simp [Datum.hasMember_record, Failure.reportName]
      | _ => exact hreported _ _ h
  | fault f =>
      rw [answerFailure] at h
      split at h
      · exact hreported _ _ h
      · cases h

/-- The names in the requirements. -/
def Requirements.memberNames : List String :=
  ["file", "php_version", "phpunit_version", "os", "os_family", "settings", "functions",
    "extensions", "extension_versions", "line_offsets"]

theorem Requirements.mem_memberNames (r : Requirements) {name : String}
    (h : r.toDatum.hasMember name = true) : name ∈ memberNames := by
  have hone : ∀ (n : String) (value : Datum), n ∈ memberNames →
      name ∈ [(n, value)].map (·.1) → name ∈ memberNames :=
    fun n value hn hmem => (List.mem_singleton.mp hmem : name = n) ▸ hn
  have hfield : ∀ (n : String) (present : Bool) (value : Datum), n ∈ memberNames →
      name ∈ (if present then [(n, value)] else []).map (·.1) → name ∈ memberNames := by
    intro n present value hn hmem
    cases present with
    | false => exact absurd hmem List.not_mem_nil
    | true => exact hone n value hn hmem
  have hplatform : ∀ p : Platform, p.key ∈ memberNames := by
    intro p
    cases p <;> decide
  rw [toDatum, Datum.hasMember_record] at h
  simp only [List.map_append, List.mem_append] at h
  rcases h with (((((((h | h) | h) | h) | h) | h) | h) | h) | h
  · exact hone _ _ (by decide) h
  · rw [List.map_map] at h
    obtain ⟨v, -, rfl⟩ := List.mem_map.mp h
    exact hplatform v.1
  · exact hfield _ _ _ (by decide) h
  · exact hfield _ _ _ (by decide) h
  · exact hfield _ _ _ (by decide) h
  · exact hfield _ _ _ (by decide) h
  · exact hfield _ _ _ (by decide) h
  · exact hfield _ _ _ (by decide) h
  · exact hone _ _ (by decide) h

/-- The names in an expected exception. -/
def ExpectedException.memberNames : List String :=
  ["class", "code", "message", "message_regex"]

theorem ExpectedException.mem_memberNames (x : ExpectedException) {name : String}
    (h : x.toDatum.hasMember name = true) : name ∈ memberNames :=
  Datum.hasMember_record.mp h

/-- The names of annotations are those of the lines in the range. -/
theorem InlineTag.mem_keys_ofLines {start stop : Int} {lines : List String} {name : String} :
    name ∈ (ofLines start stop lines).keys ↔ ∃ l ∈ lines.zipIdx 1, start ≤ l.2 ∧ l.2 ≤ stop
      ∧ ∃ tag, ofLine? l.2 l.1 = some (name, tag) := by
  rw [ofLines, Table.mem_keys_foldl_insert]
  simp only [Table.keys_nil, List.not_mem_nil, false_or, List.mem_filterMap, List.mem_filter,
    decide_eq_true_eq]
  constructor
  · rintro ⟨⟨name, tag⟩, ⟨l, ⟨hl, hrange⟩, htag⟩, rfl⟩
    exact ⟨l, hl, hrange.1, hrange.2, tag, htag⟩
  · rintro ⟨l, hl, hstart, hstop, tag, htag⟩
    exact ⟨(name, tag), ⟨l, ⟨hl, hstart, hstop⟩, htag⟩, rfl⟩

/-- Names in reports are neither those of requirements nor those of expected exceptions. -/
theorem not_mem_memberNames {name : String} (h : name ∈ reportNames) :
    name ∉ Requirements.memberNames ∧ name ∉ ExpectedException.memberNames := by
  revert name
  decide

/-- A line of the symbol has an annotation with the given name. -/
def Symbol.HasInlineTag (s : Symbol) (disk : Disk) (name : String) : Prop :=
  ∃ lines, InlineTag.sourceLines disk s = .ok lines
    ∧ ∃ l ∈ lines.zipIdx 1, s.startLine ≤ l.2 ∧ l.2 ≤ s.endLine
      ∧ ∃ tag, InlineTag.ofLine? l.2 l.1 = some (name, tag)

theorem Symbol.hasInlineTag_iff_of_ofSymbol {s : Symbol} {disk : Disk} {name : String}
    {found : Table String InlineTag} (h : InlineTag.ofSymbol disk s = .ok found) :
    s.HasInlineTag disk name ↔ name ∈ found.keys := by
  obtain ⟨lines, hlines, rfl⟩ := exists_of_map_eq_ok h
  rw [InlineTag.mem_keys_ofLines, HasInlineTag, hlines]
  simp

/-- A result has one of the names in reports exactly if it is about annotations, one of which has
that name. -/
theorem Surroundings.hasMember_iff_of_ask {e : Surroundings} {s : Symbol} {q : Query}
    {value : Datum} (h : (e.ask s q).result = .ok value) {name : String}
    (hname : name ∈ reportNames) :
    value.hasMember name = true ↔ q = .inline ∧ s.HasInlineTag e.disk name := by
  obtain ⟨hrequirements, hexpected⟩ := not_mem_memberNames hname
  rw [ask, Run.bind_result] at h
  obtain ⟨r, -, h⟩ := exists_of_bind_eq_ok h
  cases q with
  | requirements =>
      rw [Run.bind_result] at h
      obtain ⟨found, -, h⟩ := exists_of_bind_eq_ok h
      obtain rfl := Except.ok.inj h
      exact iff_of_false (fun hmem => hrequirements (found.mem_memberNames hmem)) (by simp)
  | expectedException =>
      rw [Run.bind_result] at h
      obtain ⟨found, -, h⟩ := exists_of_bind_eq_ok h
      obtain rfl := Except.ok.inj h
      refine iff_of_false (fun hmem => ?_) (by simp)
      cases found with
      | none => cases hmem
      | some x => exact hexpected (x.mem_memberNames hmem)
  | data =>
      rw [Run.bind_result] at h
      obtain ⟨found, -, h⟩ := exists_of_bind_eq_ok h
      refine iff_of_false (fun hmem => ?_) (by simp)
      cases found with
      | none =>
          obtain rfl := Except.ok.inj h
          cases hmem
      | some sets =>
          obtain ⟨-, rfl⟩ := DataSet.report_eq_ok_iff.mp h
          cases hmem
  | inline =>
      rw [Run.bind_result, Run.ofExcept_result] at h
      obtain ⟨found, hfound, h⟩ := exists_of_bind_eq_ok h
      obtain rfl := Except.ok.inj h
      rw [Symbol.hasInlineTag_iff_of_ofSymbol (eq_ok_of_mapError_eq_ok hfound),
        Datum.hasMember_record, List.map_map]
      exact (and_iff_right rfl).symm

namespace Description

variable {d : Description} {e : Surroundings} {q : Query} {name : String} {a : Answer}

/-- A line of what is described has an annotation with the given name. -/
def HasInlineTag (d : Description) (e : Surroundings) (name : String) : Prop :=
  ∃ s, d.withLines = .ok s ∧ s.HasInlineTag e.disk name

/-- Where there is an annotation, the question about annotations has a result, or the type's name
is no name. -/
theorem asked_inline_of_hasInlineTag (h : d.HasInlineTag e name) :
    (∃ value, d.asked e .inline = .ok value)
      ∨ ∃ f, readingFault? f = none ∧ d.asked e .inline = .error (.fault f) := by
  obtain ⟨s, hs, lines, hlines, -⟩ := h
  have hasked : d.asked e .inline = (e.ask s .inline).result := by
    rw [asked, toSymbol, hs]
    rfl
  have hfound : InlineTag.ofSymbol e.disk s
      = .ok (InlineTag.ofLines s.startLine s.endLine lines) := by
    rw [InlineTag.ofSymbol, hlines]
    rfl
  rw [hasked, ask, Run.bind_result, Run.ofExcept_result]
  cases hresolver : e.resolver s with
  | ok r =>
      simp only [hfound, Run.bind_result, Run.ofExcept_result]
      exact .inl ⟨_, rfl⟩
  | error f =>
      have hescapes : ∀ g ∈ nameFaults, readingFault? g = none := by decide
      exact .inr ⟨f, hescapes f (e.resolver_within s f hresolver), rfl⟩

/-- An answer has one of the names in reports exactly if it reports a failure of that name, or if it
is about annotations, one of which has that name. -/
theorem hasMember_reply_iff (h : reply? q (d.asked e q) = some a) (hname : name ∈ reportNames) :
    a.result.hasMember name = true ↔ (∃ x, d.asked e q = .error x ∧ name = x.reportName)
      ∨ q = .inline ∧ d.HasInlineTag e name := by
  cases hasked : d.asked e q with
  | ok value =>
      rw [hasked] at h
      obtain rfl := Option.some.inj h
      obtain ⟨s, hs, hask⟩ := exists_of_bind_eq_ok hasked
      rw [hasMember_iff_of_ask hask hname]
      simp only [reduceCtorEq, false_and, exists_false, false_or]
      refine and_congr_right fun hq => ?_
      subst hq
      have hlines : d.withLines = .ok s := eq_ok_of_mapError_eq_ok hs
      simp [HasInlineTag, hlines]
  | error x =>
      have hanswer : (answerFailure q x).result = .ok a := by
        rw [hasked, reply?] at h
        cases hresult : (answerFailure q x).result with
        | error y =>
            rw [hresult] at h
            cases h
        | ok b =>
            rw [hresult] at h
            exact congrArg Except.ok (Option.some.inj h)
      rw [hasMember_answerFailure hanswer hname]
      constructor
      · intro hx
        exact .inl ⟨x, rfl, hx⟩
      · rintro (⟨x', hx', hx⟩ | ⟨rfl, htag⟩)
        · exact hx.trans (congrArg Failure.reportName (Except.error.inj hx').symm)
        · rcases asked_inline_of_hasInlineTag htag with ⟨value, hvalue⟩ | ⟨f, hf, hfault⟩
          · rw [hasked] at hvalue
            cases hvalue
          · obtain rfl := Except.error.inj (hasked.symm.trans hfault)
            rw [answerFailure_of_escapes _ hf] at hanswer
            cases hanswer

/-- An answer fails exactly if it reports an error. -/
theorem failed_reply_iff (h : reply? q (d.asked e q) = some a) :
    a.failed = true ↔ ∃ x, d.asked e q = .error x ∧ x.reportName = "error" := by
  rcases d.answer_cases e q with ⟨f, hasked, hf, -⟩ | ⟨hreply, -, hfailed⟩
  · rw [hasked, reply?, answerFailure_of_escapes q hf] at h
    cases h
  · obtain rfl := Option.some.inj (hreply.symm.trans h)
    simp only [hfailed, Failure.reportName_eq_error_iff]

end Description

namespace CommandLine

variable {command : Command} {setting : Setting} {path text : String} {ds : List Description}
  {failed : Bool}

/-- What is printed are the entries, with replies to all questions, and it counts as failed exactly
if some reply does. -/
theorem of_runOn_eq_printed (hload : Descriptors.load setting.disk path = .ok ds)
    {settings : Settings}
    (h : (runOn setting settings command path).outcome = .printed text failed) :
    let e := setting.surroundings settings
    (∀ d ∈ ds, ∀ q ∈ command.queries, reply? q (d.asked e q) = some (d.replyTo e q))
      ∧ text = printedText settings.output (.list (ds.map (·.entry e command.queries)))
      ∧ (failed = true ↔ ∃ d ∈ ds, ∃ q ∈ command.queries, (d.replyTo e q).failed = true) := by
  intro e
  rw [runOn_outcome hload] at h
  rcases workOn_cases e command
    (Log.configure settings.logging { shownAs := Log.hexNumber }) ds with
    ⟨d, -, f, -, hwork⟩ | ⟨hstay, hwork⟩
  · rw [hwork] at h
    cases h
  · rw [hwork] at h
    dsimp only [ending] at h
    split at h
    · cases h
    · obtain ⟨rfl, rfl⟩ := Outcome.printed.inj h
      refine ⟨fun d hd q hq => (Description.replies_of_not_ends (hstay d hd) hq).1, rfl, ?_⟩
      simp [Description.fails]

/-- In a run every answer has one of the names in reports exactly if it reports a failure of that
name, or if it is about annotations, one of which has that name. A run that prints its entries ends
with a failure exactly if some answer failed; some entry has a member for errors exactly then, or if
some line has an annotation with that name. -/
theorem runOn_reportNames (hload : Descriptors.load setting.disk path = .ok ds)
    (settings : Settings) (command : Command) :
    let e := setting.surroundings settings
    (∀ d ∈ ds, ∀ q ∈ command.queries, ∀ a, reply? q (d.asked e q) = some a →
      (a.failed = true ↔ ∃ x, d.asked e q = .error x ∧ x.reportName = "error")
      ∧ ∀ name ∈ reportNames, (a.result.hasMember name = true ↔
        (∃ x, d.asked e q = .error x ∧ name = x.reportName)
          ∨ q = .inline ∧ d.HasInlineTag e name))
    ∧ ∀ text failed, (runOn setting settings command path).outcome = .printed text failed →
      text = printedText settings.output (.list (ds.map (·.entry e command.queries)))
      ∧ (∀ d ∈ ds, ∀ q ∈ command.queries, reply? q (d.asked e q) = some (d.replyTo e q))
      ∧ ((Outcome.printed text failed).exitCode = 1
        ↔ ∃ d ∈ ds, ∃ q ∈ command.queries, (d.replyTo e q).failed = true)
      ∧ ((∃ d ∈ ds, ∃ q ∈ command.queries, (d.replyTo e q).result.hasMember "error" = true)
        ↔ (Outcome.printed text failed).exitCode = 1
          ∨ .inline ∈ command.queries ∧ ∃ d ∈ ds, d.HasInlineTag e "error") := by
  intro e
  constructor
  · intro d _ q _ a ha
    exact ⟨Description.failed_reply_iff ha,
      fun name hname => Description.hasMember_reply_iff ha hname⟩
  · intro text failed h
    obtain ⟨hreplies, htext, hfailed⟩ := of_runOn_eq_printed hload h
    have hexit : (Outcome.printed text failed).exitCode = 1
        ↔ ∃ d ∈ ds, ∃ q ∈ command.queries, (d.replyTo e q).failed = true := by
      rw [← hfailed]
      cases failed <;> simp [Outcome.exitCode]
    refine ⟨htext, hreplies, hexit, ?_⟩
    have hmember : ∀ d ∈ ds, ∀ q ∈ command.queries,
        ((d.replyTo e q).result.hasMember "error" = true
          ↔ (d.replyTo e q).failed = true ∨ q = .inline ∧ d.HasInlineTag e "error") := by
      intro d hd q hq
      rw [Description.hasMember_reply_iff (hreplies d hd q hq) (by decide),
        Description.failed_reply_iff (hreplies d hd q hq)]
      exact or_congr_left (exists_congr fun x => and_congr_right fun _ => eq_comm)
    rw [hexit]
    constructor
    · rintro ⟨d, hd, q, hq, hresult⟩
      rcases (hmember d hd q hq).mp hresult with hreply | ⟨rfl, htag⟩
      · exact .inl ⟨d, hd, q, hq, hreply⟩
      · exact .inr ⟨hq, d, hd, htag⟩
    · rintro (⟨d, hd, q, hq, hreply⟩ | ⟨hq, d, hd, htag⟩)
      · exact ⟨d, hd, q, hq, (hmember d hd q hq).mpr (.inl hreply)⟩
      · exact ⟨d, hd, .inline, hq, (hmember d hd .inline hq).mpr (.inr ⟨rfl, htag⟩)⟩

/-- The run prints its entries and ends with the given exit code. -/
def Outcome.printsWith (code : Nat) : Outcome → Bool
  | printed text failed => (printed text failed).exitCode == code
  | _ => false

theorem Outcome.exists_of_printsWith {o : Outcome} {code : Nat} (h : o.printsWith code = true) :
    ∃ text failed, o = .printed text failed ∧ (Outcome.printed text failed).exitCode = code := by
  cases o with
  | printed text failed => exact ⟨text, failed, rfl, beq_iff_eq.mp h⟩
  | refused | misused | broken => cases h

/-- A setting with a file of descriptions and nothing else. -/
def settingOf (descriptions : String) : Setting :=
  { disk := descriptionDisk descriptions, userFile := "", currentDirectory := "/" }

/-- A reference that leads nowhere is reported as an error, and the run ends with a failure. -/
theorem runOn_reportNames_unresolved :
    ∃ setting ds text failed, Descriptors.load setting.disk "/symbols.yaml" = .ok ds
      ∧ (runOn setting {} (.ask .data) "/symbols.yaml").outcome = .printed text failed
      ∧ (Outcome.printed text failed).exitCode = 1
      ∧ ∃ d ∈ ds, ∃ q,
        (d.replyTo (setting.surroundings {}) q).result.hasMember "error" = true := by
  let setting : Setting := settingOf "- doc_comment: '@dataProvider a'"
  have hloads : (Descriptors.load setting.disk "/symbols.yaml").toBool = true := by
    decide +kernel
  have hprints :
      (runOn setting {} (.ask .data) "/symbols.yaml").outcome.printsWith 1 = true := by
    decide +kernel
  cases hload : Descriptors.load setting.disk "/symbols.yaml" with
  | error fault =>
      rw [hload] at hloads
      cases hloads
  | ok ds =>
      obtain ⟨text, failed, houtcome, hexit⟩ := Outcome.exists_of_printsWith hprints
      obtain ⟨-, -, -, hmember⟩ :=
        (runOn_reportNames hload {} (.ask .data)).2 text failed houtcome
      obtain ⟨d, hd, q, -, hresult⟩ := hmember.mpr (.inl hexit)
      exact ⟨setting, ds, text, failed, hload, houtcome, hexit, d, hd, q, hresult⟩

/-- A member for errors does not mean a failure: an annotation can have that name. -/
theorem not_forall_hasMember_error :
    ¬ ∀ (setting : Setting) (settings : Settings) (command : Command) (path : String)
      (ds : List Description), Descriptors.load setting.disk path = .ok ds →
      ∀ text failed, (runOn setting settings command path).outcome = .printed text failed →
      (∀ d ∈ ds, ∀ q ∈ command.queries,
        ((d.replyTo (setting.surroundings settings) q).result.hasMember "error" = true
          ↔ (d.replyTo (setting.surroundings settings) q).failed = true))
      ∧ ((Outcome.printed text failed).exitCode = 1 ↔ ∃ d ∈ ds, ∃ q ∈ command.queries,
        (d.replyTo (setting.surroundings settings) q).result.hasMember "error" = true) := by
  intro h
  let setting : Setting :=
    settingOf "- source_lines: ['total = 1  /** @error rounding */']\n  start_line: 1"
  have hmembers : ((Descriptors.load setting.disk "/symbols.yaml").map fun ds => ds.any fun d =>
      (Command.ask .inline).queries.any fun q =>
        (d.replyTo (setting.surroundings {}) q).result.hasMember "error").toOption = some true := by
    decide +kernel
  have hprints :
      (runOn setting {} (.ask .inline) "/symbols.yaml").outcome.printsWith 0 = true := by
    decide +kernel
  cases hload : Descriptors.load setting.disk "/symbols.yaml" with
  | error fault =>
      rw [hload] at hmembers
      cases hmembers
  | ok ds =>
      rw [hload] at hmembers
      obtain ⟨text, failed, houtcome, hexit⟩ := Outcome.exists_of_printsWith hprints
      obtain ⟨-, hcode⟩ := h setting {} (.ask .inline) "/symbols.yaml" ds hload text failed houtcome
      have hmember : ∃ d ∈ ds, ∃ q ∈ (Command.ask .inline).queries,
          (d.replyTo (setting.surroundings {}) q).result.hasMember "error" = true := by
        simpa only [List.any_eq_true] using Option.some.inj hmembers
      rw [hcode.mpr hmember] at hexit
      cases hexit

end CommandLine

end DocTags
