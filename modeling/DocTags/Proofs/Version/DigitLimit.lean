import DocTags.Proofs.Pattern.Cutting
import DocTags.Proofs.Version.HyphenRange

/-!
# Texts within the limit of digits

Only a long text holds a number with too many digits, or a number that has too many once it is
raised. So no constraint with fewer characters than a number may have digits is refused for its
numbers.
-/

namespace DocTags

open Text Pattern

namespace Version

theorem length_le_of_mem_cutAt (p : Char → Bool) (s : List Char) :
    ∀ piece ∈ cutAt p s, piece.length ≤ s.length := by
  induction s with
  | nil => simp [cutAt]
  | cons c s ih =>
      have hle : ∀ piece ∈ cutAt p s, piece.length ≤ (c :: s).length :=
        fun piece h => Nat.le_succ_of_le (ih piece h)
      rw [cutAt]
      split
      · exact List.forall_mem_cons.mpr ⟨Nat.zero_le _, hle⟩
      · split
        · next w ws h =>
            rw [h] at ih hle
            rw [List.forall_mem_cons] at ih hle ⊢
            exact ⟨Nat.succ_le_succ ih.1, hle.2⟩
        · exact List.forall_mem_singleton.mpr (Nat.succ_le_succ (Nat.zero_le _))

theorem failsWithin_readNat {s : List Char} (h : s.length ≤ Decimal.maxDigits) :
    FailsWithin (fun _ => False) (readNat s) := by
  rw [readNat, Decimal.readDigits, if_pos (by rwa [List.length_map])]
  exact .ok _ _

variable {m : Match Part}
  (hm : ∀ name t, m.group? name = some t → t.length ≤ Decimal.maxDigits)

include hm

theorem failsWithin_readNatD (name : Part) :
    FailsWithin (fun _ => False) (readNatD (m.group? name)) := by
  cases hname : m.group? name with
  | none => exact .ok _ _
  | some t => exact failsWithin_readNat (hm name t hname)

theorem failsWithin_ofMatch : FailsWithin (fun _ => False) (ofMatch m) := by
  have hrelease : (m.groupD .release).length ≤ Decimal.maxDigits := by
    rw [Match.groupD]
    cases hname : m.group? .release with
    | none => exact Nat.zero_le _
    | some t => exact hm .release t hname
  have hnumbers : FailsWithin (fun _ => False)
      ((cutAt (· == '.') (m.groupD .release)).mapM readNat) :=
    .mapM fun piece hpiece =>
      failsWithin_readNat ((length_le_of_mem_cutAt _ _ piece hpiece).trans hrelease)
  have hpre : FailsWithin (fun _ => False) (preOf m) := by
    rw [preOf]
    split
    · exact .ok _ _
    · exact (failsWithin_readNatD hm .preNumber).bind fun _ _ => .ok _ _
  have hpost : FailsWithin (fun _ => False) (postOf m) := by
    rw [postOf]
    split
    · next s hs => exact (failsWithin_readNat (hm _ s hs)).bind fun _ _ => .ok _ _
    · exact (failsWithin_readNatD hm .postNumber).bind fun _ _ => .ok _ _
    · exact .ok _ _
  have hdev : FailsWithin (fun _ => False) (devOf m) := by
    rw [devOf]
    split
    · exact .ok _ _
    · exact (failsWithin_readNatD hm .devNumber).bind fun _ _ => .ok _ _
  have hlocal : FailsWithin (fun _ => False) (localOf m) := by
    rw [localOf]
    split
    · exact .ok _ _
    · next s hs =>
        refine .mapM fun piece hpiece => ?_
        rw [readSegment]
        split
        · exact (failsWithin_readNat
            ((length_le_of_mem_cutAt _ _ piece hpiece).trans (hm _ s hs))).map _
        · exact .ok _ _
  rw [ofMatch_eq]
  exact (failsWithin_readNatD hm .epoch).bind fun _ _ => hnumbers.bind fun _ _ =>
    hpre.bind fun _ _ => hpost.bind fun _ _ => hdev.bind fun _ _ => hlocal.bind fun _ _ => .ok _ _

omit hm

/-- A text within the limit is a version or none. -/
theorem failsWithin_read {s : List Char} (h : s.length ≤ Decimal.maxDigits) :
    FailsWithin (· = .invalid) (read s) := by
  rw [read]
  cases hm : pattern.matchWhole? s with
  | none => exact .error rfl
  | some m =>
      have hyields := yields_of_matchWhole? hm
      refine (failsWithin_ofMatch fun name t ht => ?_).mono fun _ hfalse => hfalse.elim
      exact (Match.infix_of_group? hyields ht).length_le.trans h

theorem length_le_of_mem_dotted {n : Numeral} {ns : List Numeral} (h : n ∈ ns) :
    n.digits.length ≤ (dotted ns).length := by
  obtain ⟨before, after, rfl⟩ := List.append_of_mem h
  simp only [dotted, List.flatMap_append, List.flatMap_cons, List.length_append, List.length_cons]
  omega

/-- The numbers of a version can be raised if its text stays below the limit. -/
theorem place_succ_lt {s : List Char} {v : Version} (h : read s = .ok v)
    (hs : ∀ c ∈ s, isBlank c = false) (hlength : s.length < Decimal.maxDigits) (i : Nat) :
    place v.release i + 1 < Decimal.leastBeyond Decimal.maxDigits := by
  obtain ⟨p, rfl, hrelease, -, -⟩ := exists_spelling h hs
  have hrow : ∀ n ∈ p.numerals, n.digits.length ≤ p.text.length := by
    have hle : p.row.length ≤ p.text.length := by
      simp only [Spelling.text, List.length_append]
      omega
    intro n hn
    apply Nat.le_trans _ hle
    rw [Spelling.row, List.length_append]
    rcases List.mem_cons.mp hn with rfl | hn
    · exact Nat.le_add_right _ _
    · exact (length_le_of_mem_dotted hn).trans (Nat.le_add_left _ _)
  calc place v.release i + 1
      ≤ Decimal.leastBeyond p.text.length := by
        rw [hrelease]
        exact Constraint.place_lt hrow i
    _ < Decimal.leastBeyond Decimal.maxDigits := Decimal.leastBeyond_lt hlength

end Version

namespace Constraint

variable {s : List Char} {v : Version}

theorem failsWithin_bump_of_read (h : Version.read s = .ok v) (hs : ∀ c ∈ s, isBlank c = false)
    (hlength : s.length < Decimal.maxDigits) (n : Nat) :
    FailsWithin (fun _ => False) (bump v n) := by
  cases n with
  | zero => exact .ok _ _
  | succ n =>
      have hplace := Version.place_succ_lt h hs hlength
      have hbump := bump_of_place_lt (v := v) (fun i => Nat.lt_of_succ_lt (hplace i)) n.succ_pos
      rw [hbump.1 (hplace n)]
      exact .ok _ _

/-- A fault of a text that is no constraint. -/
def Fault.IsOfText (f : Fault) : Prop :=
  ¬ f.IsTooLong

theorem readVersion_of_length (hlength : s.length < Decimal.maxDigits) :
    FailsWithin Fault.IsOfText (readVersion s) := by
  have hread := Version.failsWithin_read (Nat.le_of_lt hlength)
  rw [readVersion]
  split
  · exact .ok _ _
  · exact .error (by rintro ⟨_, h⟩; cases h)
  · next d hd => exact absurd (hread _ hd) (by simp)

/-- Only a version that is read is raised. -/
theorem exists_of_readVersion {r : Version × Nat} (h : readVersion s = .ok r) :
    Version.read s = .ok r.1 := by
  rw [readVersion] at h
  split at h
  · next v hv =>
      obtain rfl := Except.ok.inj h
      exact hv
  · cases h
  · cases h

theorem versionBounds_of_length (h : Version.read s = .ok v) (hs : ∀ c ∈ s, isBlank c = false)
    (hlength : s.length < Decimal.maxDigits) (operator : List Char) (n : Nat) :
    FailsWithin (fun _ => False) (versionBounds operator v n) := by
  have hwithin (n : Nat) : FailsWithin (fun _ => False) (within v n) :=
    (failsWithin_bump_of_read h hs hlength n).map _
  unfold versionBounds
  split
  · exact hwithin _
  · exact hwithin _
  · split
    · exact hwithin _
    · exact .ok _ _
  · split
    · exact .ok _ _
    · exact .ok _ _

theorem readTerm_of_length (hs : ∀ c ∈ s, isBlank c = false)
    (hlength : s.length < Decimal.maxDigits) : FailsWithin Fault.IsOfText (readTerm s) := by
  rw [readTerm]
  split
  · exact .error (by rintro ⟨_, h⟩; cases h)
  · next m hm =>
      have hyields := (reads_of_matchFront? hm).2.yields
      have hgroup (name : Part) : (∀ c ∈ m.groupD name, isBlank c = false)
          ∧ (m.groupD name).length < Decimal.maxDigits :=
        ⟨fun c hc => hs c ((Match.infix_groupD hyields name).mem hc),
          Nat.lt_of_le_of_lt (Match.infix_groupD hyields name).length_le hlength⟩
      simp only
      split
      · split
        · exact .error (by rintro ⟨_, h⟩; cases h)
        · split
          · exact .ok _ _
          · refine (readVersion_of_length (hgroup _).2).bind fun r hr => ?_
            have hbump := failsWithin_bump_of_read (exists_of_readVersion hr) (hgroup _).1
              (hgroup _).2 r.2
            exact (hbump.map _).mono fun _ h => h.elim
      · refine (readVersion_of_length (hgroup _).2).bind fun r hr => ?_
        exact (versionBounds_of_length (exists_of_readVersion hr) (hgroup _).1 (hgroup _).2 _
          r.2).mono fun _ h => h.elim

theorem readHyphenRange_of_length {lower upper : List Char}
    (hupper : ∀ c ∈ upper, isBlank c = false) (hlow : lower.length < Decimal.maxDigits)
    (hupp : upper.length < Decimal.maxDigits) :
    FailsWithin Fault.IsOfText (readHyphenRange lower upper) := by
  refine (readVersion_of_length hlow).bind fun _ _ => ?_
  refine (readVersion_of_length hupp).bind fun r hr => ?_
  have hbump := failsWithin_bump_of_read (exists_of_readVersion hr) hupper hupp r.2
  simp only
  split
  · exact (hbump.map _).mono fun _ h => h.elim
  · exact .ok _ _

theorem readAlternative_of_length (hlength : s.length < Decimal.maxDigits) :
    FailsWithin Fault.IsOfText (readAlternative s) := by
  rw [readAlternative]
  split
  · exact .error (by rintro ⟨_, h⟩; cases h)
  · split
    · next m hm =>
        obtain ⟨-, -, -, -, hsolid, -⟩ := exists_parts_of_hyphenRange hm
        have hgroup (name : Part) : (m.groupD name).length < Decimal.maxDigits :=
          Nat.lt_of_le_of_lt
            (Match.infix_groupD (reads_of_matchFront? hm).2.yields name).length_le hlength
        exact readHyphenRange_of_length (List.forall_mem_append.mp hsolid).2 (hgroup _) (hgroup _)
    · refine FailsWithin.map (.mapM fun piece hpiece => ?_) _
      have hcut := cut_split (p := termBreak) rfl (attachOperators s)
      have hsolid : ∀ c ∈ piece, isBlank c = false := by
        intro c hc
        rw [Bool.eq_false_iff]
        intro hblank
        exact hcut.not_mem (not_fails_termBreak hblank) piece hpiece hc
      apply readTerm_of_length hsolid
      calc piece.length ≤ (attachOperators s).length := (hcut.isInfix piece hpiece).length_le
        _ ≤ s.length := attachOperators_eq_closeSigns s ▸ length_closeSigns_le s
        _ < Decimal.maxDigits := hlength

/-- A text with fewer characters than a number may have digits is not refused for its numbers. -/
theorem read_of_length {s : String} (hlength : (trim s.toList).length < Decimal.maxDigits) :
    FailsWithin Fault.IsOfText (read s) := by
  rw [read]
  split
  · exact .error (by rintro ⟨_, h⟩; cases h)
  · refine FailsWithin.map (.mapM fun piece hpiece => ?_) _
    have hpiece := (cut_split (p := alternativeBreak) rfl _).isInfix piece hpiece
    exact readAlternative_of_length (Nat.lt_of_le_of_lt hpiece.length_le hlength)

end Constraint

end DocTags
