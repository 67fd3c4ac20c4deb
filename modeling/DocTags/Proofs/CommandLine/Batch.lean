import DocTags.CommandLine.Basic
import DocTags.Proofs.Query.Faults

/-!
# Runs over several symbols

A command works on the descriptions in a file one after the other. If no description ends the run,
every description has one entry, in order, which holds an answer to every question and depends on
nothing but the description; the run counts as failed exactly if some question failed. A description
ends the run if some question about it ends in a fault that no answer reports, or if its type has no
name. Such faults do not need a provider that raises: a name, a number, a path or a row can be the
cause.
-/

namespace DocTags

open Surroundings

/-- The failure counts: it is no skipped test and no requirement that makes no sense. -/
def Failure.isFatal : Failure → Bool
  | .problem (.noRows _) | .problem (.malformedConstraint ..) => false
  | _ => true

namespace Surroundings

/-- The answer that reports what came of a question. There is none for some faults. -/
def reply? (q : Query) : Except Failure Datum → Option Answer
  | .ok value => some ⟨value, false⟩
  | .error failure => (answerFailure q failure).result.toOption

end Surroundings

namespace Description

/-- What is described ends a run with the fault. -/
def Ends (d : Description) (e : Surroundings) (qs : List Query) (f : Fault) : Prop :=
  e.resolver d.bare = .error f
    ∨ ∃ q ∈ qs, d.asked e q = .error (.fault f) ∧ readingFault? f = none

/-- The reply to a question; null if there is none. -/
def replyTo (d : Description) (e : Surroundings) (q : Query) : Answer :=
  (reply? q (d.asked e q)).getD ⟨.null, false⟩

/-- The entry of what is described: its name and a reply to every question. -/
def entry (d : Description) (e : Surroundings) (qs : List Query) : Datum :=
  .map ((.text "symbol", d.qualifiedName)
    :: qs.map fun q => (.text q.key, (d.replyTo e q).result))

/-- Some question about what is described failed. -/
def fails (d : Description) (e : Surroundings) (qs : List Query) : Bool :=
  qs.any fun q => (d.replyTo e q).failed

end Description

namespace Surroundings

theorem answerFailure_of_escapes (q : Query) {f : Fault} (h : readingFault? f = none) :
    (answerFailure q (.fault f)).result = .error (.fault f) := by
  rw [answerFailure, h]
  rfl

/-- A failure is reported, and then it counts unless it is a minor one; or it is a fault that no
answer reports. -/
theorem answerFailure_cases (q : Query) (failure : Failure) :
    (∃ a, (answerFailure q failure).result = .ok a ∧ a.failed = failure.isFatal)
      ∨ ∃ f, failure = .fault f ∧ readingFault? f = none
        ∧ (answerFailure q failure).result = .error (.fault f) := by
  cases failure with
  | problem p => cases p <;> exact .inl ⟨_, rfl, rfl⟩
  | fault f =>
      cases h : readingFault? f with
      | none => exact .inr ⟨f, rfl, h, answerFailure_of_escapes q h⟩
      | some message =>
          rw [answerFailure, h]
          exact .inl ⟨_, rfl, rfl⟩

theorem answer_result (e : Surroundings) (s : Symbol) (q : Query) :
    (e.answer s q).result = match (e.ask s q).result with
      | .ok value => .ok ⟨value, false⟩
      | .error failure => (answerFailure q failure).result := by
  rw [answer]
  cases (e.ask s q).result <;> rfl

end Surroundings

namespace Description

variable {d : Description} {e : Surroundings} {qs : List Query} {q : Query} {f : Fault}

/-- The answer to a question reports what came of it. -/
theorem answer_result : (d.answer e q).result = match d.asked e q with
    | .ok value => .ok ⟨value, false⟩
    | .error failure => (answerFailure q failure).result := by
  rw [answer, Run.bind_result, Run.ofExcept_result, asked]
  cases h : d.toSymbol q with
  | error f =>
      obtain rfl := d.toSymbol_within q f h
      rfl
  | ok s => exact Surroundings.answer_result e s q

/-- A question is answered with a reply, or what came of it is a fault that no answer reports. -/
theorem answer_cases (d : Description) (e : Surroundings) (q : Query) :
    (∃ f, d.asked e q = .error (.fault f) ∧ readingFault? f = none
        ∧ (d.answer e q).result = .error (.fault f))
      ∨ reply? q (d.asked e q) = some (d.replyTo e q)
        ∧ (d.answer e q).result = .ok (d.replyTo e q)
        ∧ ((d.replyTo e q).failed = true ↔ ∃ x, d.asked e q = .error x ∧ x.isFatal = true) := by
  rw [replyTo, answer_result]
  cases d.asked e q with
  | ok value => exact .inr ⟨rfl, rfl, by simp [reply?]⟩
  | error failure =>
      rcases answerFailure_cases q failure with ⟨a, ha, hfatal⟩ | ⟨f, rfl, hf, hresult⟩
      · have hreply : reply? q (.error failure) = some a := by
          rw [reply?, ha]
          rfl
        exact .inr (by simp [hreply, ha, hfatal])
      · exact .inl ⟨f, rfl, hf, hresult⟩

/-- What does not end a run has a reply to every question. -/
theorem replies_of_not_ends (h : ∀ f, ¬ d.Ends e qs f) (hq : q ∈ qs) :
    reply? q (d.asked e q) = some (d.replyTo e q)
      ∧ ((d.replyTo e q).failed = true ↔ ∃ x, d.asked e q = .error x ∧ x.isFatal = true) := by
  rcases d.answer_cases e q with ⟨f, hasked, hf, -⟩ | ⟨hreply, -, hfailed⟩
  · exact absurd (.inr ⟨q, hq, hasked, hf⟩) (h f)
  · exact ⟨hreply, hfailed⟩

end Description

namespace CommandLine

open Description

variable {command : Command}

/-- The first question that ends in a fault without an answer decides, or all have replies. -/
theorem answersFor_cases (e : Surroundings) (d : Description) (qs : List Query) :
    (∃ q ∈ qs, ∃ f, d.asked e q = .error (.fault f) ∧ readingFault? f = none
        ∧ (answersFor e d qs).result = .error (.fault f))
      ∨ (∀ q ∈ qs, reply? q (d.asked e q) = some (d.replyTo e q))
        ∧ (answersFor e d qs).result
          = .ok (qs.map fun q => (.text q.key, (d.replyTo e q).result), d.fails e qs) := by
  induction qs with
  | nil => exact .inr ⟨by simp, rfl⟩
  | cons q qs ih =>
      rcases d.answer_cases e q with ⟨f, hasked, hf, hfirst⟩ | ⟨hreply, hfirst, -⟩
      · refine .inl ⟨q, List.mem_cons_self, f, hasked, hf, ?_⟩
        rw [answersFor, Run.bind_result, hfirst]
        rfl
      · rcases ih with ⟨q', hq', f, hasked, hf, hrest⟩ | ⟨hreplies, hrest⟩
        · refine .inl ⟨q', List.mem_cons_of_mem q hq', f, hasked, hf, ?_⟩
          simp [answersFor, hfirst, hrest, Except.bind]
        · refine .inr ⟨List.forall_mem_cons.mpr ⟨hreply, hreplies⟩, ?_⟩
          simp [answersFor, hfirst, hrest, Except.bind, fails]

/-- A description ends the run, or it has its entry. -/
theorem entryFor_cases (e : Surroundings) (command : Command) (d : Description) :
    (∃ f, d.Ends e command.queries f ∧ (entryFor e command d).result = .error (.fault f))
      ∨ (∀ f, ¬ d.Ends e command.queries f)
        ∧ (entryFor e command d).result
          = .ok (d.entry e command.queries, d.fails e command.queries) := by
  cases hresolver : e.resolver d.bare with
  | error f =>
      refine .inl ⟨f, .inl hresolver, ?_⟩
      rw [entryFor, hresolver]
      rfl
  | ok r =>
      rcases answersFor_cases e d command.queries with
        ⟨q, hq, f, hasked, hf, hanswers⟩ | ⟨hreplies, hanswers⟩
      · refine .inl ⟨f, .inr ⟨q, hq, hasked, hf⟩, ?_⟩
        simp [entryFor, hresolver, hanswers, Except.bind]
      · refine .inr ⟨?_, ?_⟩
        · rintro f (hfails | ⟨q, hq, hasked, hf⟩)
          · rw [hresolver] at hfails
            cases hfails
          · have hnone : reply? q (d.asked e q) = none := by
              rw [hasked, reply?, answerFailure_of_escapes q hf]
              rfl
            rw [hreplies q hq] at hnone
            cases hnone
        · simp [entryFor, hresolver, hanswers, Except.bind, entry]

/-- A description ends the run, or every description has its entry. -/
theorem workOn_cases (e : Surroundings) (command : Command) (log : Log) (ds : List Description) :
    (∃ d ∈ ds, ∃ f, d.Ends e command.queries f
        ∧ (workOn e command log ds).result = .error (.fault f))
      ∨ (∀ d ∈ ds, ∀ f, ¬ d.Ends e command.queries f)
        ∧ (workOn e command log ds).result
          = .ok (ds.map (·.entry e command.queries), ds.any (·.fails e command.queries)) := by
  induction ds generalizing log with
  | nil => exact .inr ⟨by simp, rfl⟩
  | cons d ds ih =>
      rcases entryFor_cases e command d with ⟨f, hends, hentry⟩ | ⟨hstays, hentry⟩
      · refine .inl ⟨d, List.mem_cons_self, f, hends, ?_⟩
        rw [workOn, hentry]
      · rcases ih (log.beginSymbol d.qualifiedName).endSymbol with
          ⟨d', hd', f, hends, hrest⟩ | ⟨hstay, hrest⟩
        · refine .inl ⟨d', List.mem_cons_of_mem d hd', f, hends, ?_⟩
          simp [workOn, hentry, hrest, Except.map]
        · refine .inr ⟨List.forall_mem_cons.mpr ⟨hstays, hstay⟩, ?_⟩
          simp [workOn, hentry, hrest, Except.map]

/-- What questions are answered from in a run. -/
def Setting.surroundings (setting : Setting) (settings : Settings) : Surroundings :=
  { disk := setting.disk
    world := setting.world
    extraction := settings.extraction
    limits := setting.limits }

/-- How a run with the given entries ends. -/
def ending (settings : Settings) (entries : List Datum) (failed : Bool) : Outcome :=
  match unprintable? (.list entries) with
  | some fault => .broken fault
  | none => .printed (printedText settings.output (.list entries)) failed

theorem runOn_outcome {setting : Setting} {settings : Settings} {path : String}
    {ds : List Description} (hload : Descriptors.load setting.disk path = .ok ds) :
    (runOn setting settings command path).outcome
      = match (workOn (setting.surroundings settings) command
          (Log.configure settings.logging { shownAs := Log.hexNumber }) ds).result with
        | .error failure => .ofFailure failure
        | .ok (entries, failed) => ending settings entries failed := by
  rw [runOn, hload, ← Setting.surroundings]
  dsimp only
  cases (workOn (setting.surroundings settings) command
    (Log.configure settings.logging { shownAs := Log.hexNumber }) ds).result with
  | error failure => rfl
  | ok work =>
      obtain ⟨entries, failed⟩ := work
      simp only [ending]
      cases unprintable? (.list entries) <;> rfl

/-- A disk with a file of descriptions. -/
def descriptionDisk (text : String) : Disk :=
  { files := [("/symbols.yaml", text.toList.map fun c => UInt8.ofNat c.toNat)] }

end CommandLine

end DocTags
