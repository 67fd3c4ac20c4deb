import DocTags.Proofs.Tag.Scanning
import DocTags.Proofs.Text.Lines

/-!
# Lines that require the platform

What follows the words that open a requirement of the platform is scanned as a version with an
operator or as a constraint expression. Both scans accept their own forms only, and no other
dialect of requirements accepts such a line.
-/

namespace DocTags.Dialect

open Pattern Text

variable {κ : Type} {e s t m : List Char} {c : Captures Field}

/-- The words that open a requirement of the platform, and what is required. -/
def platformText (e : List Char) : List Char :=
  "@requires PHP ".toList ++ e

theorem eq_of_canRead_requires (hs : Stops isBlank s)
    (h : (requires : Pattern κ).CanRead ("@requires ".toList ++ s) t) : t = s := by
  obtain ⟨m, hword, hblanks⟩ := canRead_seq.mp h
  have hm : "@requires".toList ++ ' ' :: s = "@requires".toList ++ m := canRead_lit.mp hword
  obtain rfl := List.append_cancel_left hm
  obtain ⟨a, hne, ha, hblank⟩ := canRead_chars1.mp hblanks
  cases a with
  | nil => exact absurd rfl hne
  | cons b a =>
      obtain ⟨-, rfl⟩ := List.cons.inj ha
      cases a with
      | nil => rfl
      | cons x a => simp_all

theorem stops_platformName (e : List Char) : Stops isBlank ("PHP ".toList ++ e) :=
  (stops_cons ..).mpr (by decide)

/-- Only the name of the platform itself is read in front of a blank. -/
theorem eq_of_canRead_platform (h : platform.CanRead ("PHP ".toList ++ e) t) : t = ' ' :: e := by
  obtain ⟨m, hname, hunit⟩ := canRead_seq.mp (canRead_group.mp h)
  have hm : "PHP".toList ++ ' ' :: e = "PHP".toList ++ m := canRead_lit.mp hname
  obtain rfl := List.append_cancel_left hm
  rcases canRead_opt.mp hunit with hunit | rfl
  · exact absurd (List.cons.inj (canRead_lit.mp hunit)).1 (by decide)
  · rfl

/-- What the other parts of a pattern prefer to read behind the words that open a requirement of the
platform is what the whole pattern prefers to read. -/
theorem reads_platformText {p : Pattern Field} (h : p.Reads (' ' :: e) t c) :
    (seq requires (seq platform p)).Reads (platformText e) t
      (c ++ [(.name, ⟨"PHP ".toList ++ e, ' ' :: e⟩)]) := by
  have hrequires : (requires : Pattern Field).Reads (platformText e) ("PHP ".toList ++ e) [] :=
    (reads_lit "@requires".toList _).seq
      (reads_chars1 (a := [' ']) (by decide) (by decide) (stops_platformName e))
  have hunit : (opt (lit "Unit".toList) : Pattern Field).Reads (' ' :: e) (' ' :: e) [] :=
    reads_opt_of_fails (fails_seq_left (fails_char ((stops_cons ..).mpr (by decide))))
  have hname := ((reads_lit (κ := Field) "PHP".toList (' ' :: e)).seq hunit).group .name
  have hreads := hrequires.seq (hname.seq h)
  rwa [List.append_nil] at hreads

theorem fails_platformText_of_fails {p : Pattern Field} (h : p.Fails (' ' :: e)) :
    (seq requires (seq platform p)).Fails (platformText e) := by
  apply fails_iff.mpr
  intro t hread
  obtain ⟨m₁, hrequires, hread⟩ := canRead_seq.mp hread
  obtain rfl := eq_of_canRead_requires (stops_platformName e) hrequires
  obtain ⟨m₂, hplatform, hread⟩ := canRead_seq.mp hread
  obtain rfl := eq_of_canRead_platform hplatform
  exact fails_iff.mp h t hread

/-- A dialect whose name does not start like that of the platform does not accept the line. -/
theorem fails_platformText_of_name {name p : Pattern Field} (hname : ∀ s, name.Fails ('P' :: s)) :
    (seq requires (seq (group .name name) p)).Fails (platformText e) := by
  apply fails_iff.mpr
  intro t h
  obtain ⟨m, hrequires, h⟩ := canRead_seq.mp h
  obtain rfl := eq_of_canRead_requires (stops_platformName e) hrequires
  exact fails_iff.mp (fails_seq_left (fails_group (hname _))) t h

/-- What may stand behind the number part of a version. -/
def IsStage (w : List Char) : Prop :=
  w = [] ∨ w = "dev".toList ∨ ∃ word ∈ ["RC".toList, "alpha".toList, "beta".toList],
    ∃ c, (isDecimal c = true ∨ c = '.') ∧ w = word ++ [c]

/-- A version with an operator as it may be written. -/
structure OperatorForm where
  before : List Char
  sign : List Char
  between : List Char
  number : List Char
  stage : List Char
  after : List Char
  before_isBlank : ∀ c ∈ before, isBlank c = true
  sign_le : sign.length ≤ 2
  isSign : ∀ c ∈ sign, isSign c = true
  between_isBlank : ∀ c ∈ between, isBlank c = true
  number_ne_nil : number ≠ []
  isVersionChar : ∀ c ∈ number, isVersionChar c = true
  isStage : IsStage stage
  isGap : ∀ c ∈ after, isGap c = true

/-- The written version. -/
def OperatorForm.text (f : OperatorForm) : List Char :=
  f.before ++ (f.sign ++ (f.between ++ (f.number ++ (f.stage ++ f.after))))

/-- The text is a version with an operator. -/
def IsOperatorForm (e : List Char) : Prop :=
  ∃ f : OperatorForm, f.text = e

/-- The pattern of what may stand behind the number part of a version. -/
def stagePattern : Pattern Field :=
  opt (alt (lit "dev".toList)
    (seq (oneOf (lit "RC".toList) (["alpha".toList, "beta".toList].map lit))
      (char fun c => isDecimal c || c == '.')))

theorem canRead_stagePattern : stagePattern.CanRead s t ↔ ∃ w, IsStage w ∧ s = w ++ t := by
  constructor
  · intro h
    rcases canRead_opt.mp h with h | rfl
    · rcases canRead_alt.mp h with h | h
      · exact ⟨_, .inr (.inl rfl), canRead_lit.mp h⟩
      · obtain ⟨m, hword, hlast⟩ := canRead_seq.mp h
        obtain ⟨word, hmem, rfl⟩ := canRead_oneOf_lit.mp hword
        obtain ⟨c, hc, rfl⟩ := canRead_char.mp hlast
        exact ⟨word ++ [c], .inr (.inr ⟨word, hmem, c, by simpa using hc, rfl⟩), by simp⟩
    · exact ⟨[], .inl rfl, rfl⟩
  · rintro ⟨w, rfl | rfl | ⟨word, hmem, c, hc, rfl⟩, rfl⟩
    · exact canRead_opt.mpr (.inr rfl)
    · exact canRead_opt.mpr (.inl (canRead_alt.mpr (.inl (canRead_lit.mpr rfl))))
    · refine canRead_opt.mpr (.inl (canRead_alt.mpr (.inr (canRead_seq.mpr ⟨c :: t, ?_, ?_⟩))))
      · exact canRead_oneOf_lit.mpr ⟨word, hmem, by simp⟩
      · exact canRead_char.mpr ⟨c, by simpa using hc, rfl⟩

/-- The parts of the pattern behind the name of the platform. -/
def operatorParts : Pattern Field :=
  chain [blanks1, comparison, blanks, group .version (seq (chars1 isVersionChar) stagePattern),
    lineTail]

/-- At least one blank is read off a blank and what follows it. -/
theorem canRead_blanks1 :
    (blanks1 : Pattern κ).CanRead (' ' :: s) t ↔ ∃ a, s = a ++ t ∧ ∀ c ∈ a, isBlank c = true := by
  rw [blanks1, canRead_chars1]
  constructor
  · rintro ⟨a, hne, ha, hblank⟩
    cases a with
    | nil => exact absurd rfl hne
    | cons b a =>
        obtain ⟨-, rfl⟩ := List.cons.inj ha
        exact ⟨a, rfl, (List.forall_mem_cons.mp hblank).2⟩
  · rintro ⟨a, rfl, hblank⟩
    exact ⟨' ' :: a, by simp, rfl, List.forall_mem_cons.mpr ⟨by decide, hblank⟩⟩

/-- The parts read exactly the forms with an operator, up to the end of the line. -/
theorem canRead_operatorParts (hfeed : '\n' ∉ e) (hreturn : '\r' ∉ e) :
    operatorParts.CanRead (' ' :: e) t ↔ t = [] ∧ IsOperatorForm e := by
  constructor
  · intro h
    obtain ⟨m₁, h₁, h⟩ := canRead_seq.mp h
    obtain ⟨m₂, h₂, h⟩ := canRead_seq.mp h
    obtain ⟨m₃, h₃, h⟩ := canRead_seq.mp h
    obtain ⟨m₄, hversion, htail⟩ := canRead_seq.mp h
    obtain ⟨m₅, h₄, h₅⟩ := canRead_seq.mp (canRead_group.mp hversion)
    obtain ⟨before, rfl, hbefore⟩ := canRead_blanks1.mp h₁
    obtain ⟨sign, hle, rfl, hsign⟩ := (canRead_upTo_char 2).mp (canRead_group.mp h₂)
    obtain ⟨between, rfl, hbetween⟩ := canRead_chars.mp h₃
    obtain ⟨number, hne, rfl, hnumber⟩ := canRead_chars1.mp h₄
    obtain ⟨stage, hstage, rfl⟩ := canRead_stagePattern.mp h₅
    simp only [List.mem_append, not_or] at hfeed hreturn
    obtain ⟨rfl, hafter⟩ := (canRead_lineTail hfeed.2.2.2.2.2 hreturn.2.2.2.2.2).mp htail
    exact ⟨rfl, ⟨before, sign, between, number, stage, m₄, hbefore, hle, hsign, hbetween, hne,
      hnumber, hstage, hafter⟩, rfl⟩
  · rintro ⟨rfl, f, rfl⟩
    simp only [OperatorForm.text, List.mem_append, not_or] at hfeed hreturn
    have hversion : (group .version (seq (chars1 isVersionChar) stagePattern)).CanRead
        (f.number ++ (f.stage ++ f.after)) f.after :=
      canRead_group.mpr (canRead_seq.mpr ⟨_, canRead_chars1.mpr
        ⟨f.number, f.number_ne_nil, rfl, f.isVersionChar⟩,
        canRead_stagePattern.mpr ⟨f.stage, f.isStage, rfl⟩⟩)
    have htail : (lineTail : Pattern Field).CanRead f.after [] :=
      (canRead_lineTail hfeed.2.2.2.2.2 hreturn.2.2.2.2.2).mpr ⟨rfl, f.isGap⟩
    refine canRead_seq.mpr ⟨_, canRead_blanks1.mpr ⟨f.before, rfl, f.before_isBlank⟩, ?_⟩
    refine canRead_seq.mpr ⟨_, canRead_group.mpr ((canRead_upTo_char 2).mpr
      ⟨f.sign, f.sign_le, rfl, f.isSign⟩), ?_⟩
    refine canRead_seq.mpr ⟨_, canRead_chars.mpr ⟨f.between, rfl, f.between_isBlank⟩, ?_⟩
    exact canRead_seq.mpr ⟨_, hversion, htail⟩

/-- The text is a constraint expression that can be scanned, perhaps behind blanks. -/
def IsConstraintForm (e : List Char) : Prop :=
  ∃ before text, e = before ++ text ∧ (∀ c ∈ before, isBlank c = true) ∧ text ≠ []
    ∧ ∀ c ∈ text, isConstraintChar c = true

/-- The parts of the pattern behind the name of the platform. -/
def constraintParts : Pattern Field :=
  chain [blanks1, group .constraint (chars1 isConstraintChar), lineTail]

theorem isConstraintChar_of_isGap {x : Char} (h : isGap x = true) : isConstraintChar x = true := by
  simp [isConstraintChar, h]

/-- The parts read exactly the forms of a constraint, up to the end of the line. -/
theorem canRead_constraintParts (hfeed : '\n' ∉ e) (hreturn : '\r' ∉ e) :
    constraintParts.CanRead (' ' :: e) t ↔ t = [] ∧ IsConstraintForm e := by
  constructor
  · intro h
    obtain ⟨m₁, h₁, h⟩ := canRead_seq.mp h
    obtain ⟨m₂, h₂, htail⟩ := canRead_seq.mp h
    obtain ⟨before, rfl, hbefore⟩ := canRead_blanks1.mp h₁
    obtain ⟨text, hne, rfl, htext⟩ := canRead_chars1.mp (canRead_group.mp h₂)
    simp only [List.mem_append, not_or] at hfeed hreturn
    obtain ⟨rfl, hafter⟩ := (canRead_lineTail hfeed.2.2 hreturn.2.2).mp htail
    refine ⟨rfl, before, text ++ m₂, rfl, hbefore, by simp [hne], ?_⟩
    exact List.forall_mem_append.mpr
      ⟨htext, fun x hx => isConstraintChar_of_isGap (hafter x hx)⟩
  · rintro ⟨rfl, before, text, rfl, hbefore, hne, htext⟩
    refine canRead_seq.mpr ⟨text, canRead_blanks1.mpr ⟨before, rfl, hbefore⟩, ?_⟩
    refine canRead_seq.mpr ⟨[], canRead_group.mpr (canRead_chars1.mpr
      ⟨text, hne, (List.append_nil text).symm, htext⟩), ?_⟩
    exact (canRead_lineTail (by simp) (by simp)).mpr ⟨rfl, by simp⟩

/-- The parts prefer to read all blanks first and then what is required as the constraint. -/
theorem reads_constraintParts (hform : IsConstraintForm e) {x : Char} (hx : x ∈ e)
    (hblank : isBlank x = false) :
    constraintParts.Reads (' ' :: e) [] [(.constraint, ⟨e.dropWhile isBlank, []⟩)] := by
  have hne : e.dropWhile isBlank ≠ [] := List.ne_nil_of_mem (mem_dropWhile_of_neg hblank hx)
  have hchars : ∀ c ∈ e.dropWhile isBlank, isConstraintChar c = true := by
    obtain ⟨before, text, rfl, hbefore, -, htext⟩ := hform
    rw [List.dropWhile_append_of_pos hbefore]
    intro c hc
    exact htext c ((List.dropWhile_suffix isBlank).mem hc)
  have hspace : ∀ c ∈ ' ' :: e.takeWhile isBlank, isBlank c = true :=
    List.forall_mem_cons.mpr ⟨by decide, fun _ hc => List.mem_takeWhile_imp hc⟩
  have hblanks := reads_chars1 (κ := Field) (by simp) hspace (stops_dropWhile isBlank e)
  rw [List.cons_append, List.takeWhile_append_dropWhile] at hblanks
  have htext := (reads_chars1 (κ := Field) hne hchars (stops_nil _)).group .constraint
  rw [List.append_nil] at htext
  have htail : (lineTail : Pattern Field).Reads [] [] [] :=
    (reads_chars (a := []) (by simp) (stops_nil _)).seq
      ((reads_opt_of_fails (fails_char (stops_nil _))).seq reads_lineEnd)
  exact hblanks.seq (htext.seq htail)

variable {lead : List Char}

theorem tag?_platformText (d : Dialect) (hlead : '@' ∉ lead) (hmark : '@' ∉ e) :
    d.tag? (lead ++ platformText e)
      = (d.pattern.matchFront? (platformText e)).map (Tag.ofMatch d) := by
  have hrest : '@' ∉ "requires PHP ".toList ++ e :=
    fun h => (List.mem_append.mp h).elim (by decide) hmark
  exact d.tag?_append_cons hlead hrest

theorem tag?_platformText_of_fails {d : Dialect} (hlead : '@' ∉ lead) (hmark : '@' ∉ e)
    (h : d.pattern.Fails (platformText e)) : d.tag? (lead ++ platformText e) = none := by
  rw [tag?_platformText d hlead hmark, matchFront?_of_fails h]
  rfl

/-- What the other parts of a pattern read makes a tag that names the platform. -/
theorem exists_tag_platformText {d : Dialect} {p : Pattern Field} (hlead : '@' ∉ lead)
    (hmark : '@' ∉ e) (hd : d.pattern = seq requires (seq platform p)) (hname : .name ∈ d.fields)
    (hnames : .name ∉ p.names) (h : p.Reads (' ' :: e) t c) :
    ∃ m, d.tag? (lead ++ platformText e) = some (Tag.ofMatch d m)
      ∧ m.captures = c ++ [(.name, ⟨"PHP ".toList ++ e, ' ' :: e⟩)]
      ∧ (Tag.ofMatch d m).getD .name = "PHP" := by
  have hother : ∀ x ∈ c, x.1 ≠ .name :=
    fun x hx he => hnames (he ▸ h.yields.mem_names x hx)
  refine ⟨⟨⟨platformText e, t⟩, c ++ [(.name, ⟨"PHP ".toList ++ e, ' ' :: e⟩)]⟩, ?_, rfl, ?_⟩
  · rw [tag?_platformText d hlead hmark, hd, matchFront?_of_reads (reads_platformText h)]
    rfl
  · rw [Tag.getD_ofMatch hname, Match.groupD, Match.group?_append hother]
    exact congrArg String.ofList (Span.text_append "PHP".toList (' ' :: e))

/-- The line has a version tag exactly if a version with an operator is required, and the tag names
the platform. -/
theorem tag?_version (hlead : '@' ∉ lead) (hmark : '@' ∉ e) (hfeed : '\n' ∉ e)
    (hreturn : '\r' ∉ e) :
    (IsOperatorForm e → ∃ tag, version.tag? (lead ++ platformText e) = some tag
      ∧ tag.getD .name = "PHP")
    ∧ (¬ IsOperatorForm e → version.tag? (lead ++ platformText e) = none) := by
  constructor
  · intro hform
    obtain ⟨t, c, hreads⟩ :=
      ((canRead_operatorParts (t := []) hfeed hreturn).mpr ⟨rfl, hform⟩).exists_reads
    obtain ⟨m, htag, -, hname⟩ := exists_tag_platformText (d := version) hlead hmark rfl
      (by decide) (by decide) hreads
    exact ⟨_, htag, hname⟩
  · intro hform
    have hparts : operatorParts.Fails (' ' :: e) := fails_iff.mpr fun t h =>
      hform ((canRead_operatorParts hfeed hreturn).mp h).2
    exact tag?_platformText_of_fails hlead hmark (fails_platformText_of_fails hparts)

/-- The line has a constraint tag exactly if a constraint can be scanned. The tag names the platform
and holds what is required from its first character that is no blank. -/
theorem tag?_versionConstraint (hlead : '@' ∉ lead) (hmark : '@' ∉ e) (hfeed : '\n' ∉ e)
    (hreturn : '\r' ∉ e) :
    (IsConstraintForm e → (∃ c ∈ e, isBlank c = false) →
      ∃ tag, versionConstraint.tag? (lead ++ platformText e) = some tag
      ∧ tag.getD .name = "PHP" ∧ tag.getD .constraint = String.ofList (e.dropWhile isBlank))
    ∧ (¬ IsConstraintForm e → versionConstraint.tag? (lead ++ platformText e) = none) := by
  constructor
  · rintro hform ⟨x, hx, hblank⟩
    obtain ⟨m, htag, hcaptures, hname⟩ := exists_tag_platformText (d := versionConstraint) hlead
      hmark rfl (by decide) (by decide) (reads_constraintParts hform hx hblank)
    refine ⟨_, htag, hname, ?_⟩
    rw [Tag.getD_ofMatch (by decide), Match.groupD, Match.group?, hcaptures]
    exact congrArg String.ofList (Span.text_nil (e.dropWhile isBlank))
  · intro hform
    have hparts : constraintParts.Fails (' ' :: e) := fails_iff.mpr fun t h =>
      hform ((canRead_constraintParts hfeed hreturn).mp h).2
    exact tag?_platformText_of_fails hlead hmark (fails_platformText_of_fails hparts)

/-- The line has no tag of the other dialects of requirements. -/
theorem tag?_eq_none_of_mem (hlead : '@' ∉ lead) (hmark : '@' ∉ e) {d : Dialect}
    (hd : d ∈ [os, setting, prerequisite]) : d.tag? (lead ++ platformText e) = none := by
  apply tag?_platformText_of_fails hlead hmark
  have hword : ∀ {a : Char} {w s : List Char}, a ≠ 'P' →
      (lit (a :: w) : Pattern Field).Fails ('P' :: s) := by
    intro a w s ha
    apply fails_seq_left
    apply fails_char
    simpa using ha.symm
  simp only [List.mem_cons, List.not_mem_nil, or_false] at hd
  rcases hd with rfl | rfl | rfl
  · apply fails_platformText_of_name
    intro s
    exact fails_seq_left (hword (by decide))
  · apply fails_platformText_of_name
    intro s
    exact hword (by decide)
  · apply fails_platformText_of_name
    intro s
    exact fails_alt (hword (by decide)) (hword (by decide))

end DocTags.Dialect
