import DocTags.Proofs.Version.Spelling
import DocTags.Proofs.Version.TotalOrder

/-!
# Ranges of two versions

Two versions joined by a hyphen stand for the versions from the first to the second. If the second
is counted as written with fewer than three release numbers, the range ends before the next release
that differs there. The count of a version with a lead is one, and the next release has no epoch, so
only a range to a bare version, or to one with a single release number, keeps to its ends.
-/

namespace DocTags

open Text Pattern

namespace Version

open Constraint (raised)

/-- The first row has the smaller number where the rows first differ, and that is at one of the
first `n` places. -/
def PrecedesWithin (n : Nat) (v w : List Nat) : Prop :=
  ∃ i < n, Agree i v w ∧ place v i < place w i

/-- The version is a final release of an epoch: it has release numbers and nothing else. -/
def IsFinalIn (epoch : Nat) (v : Version) : Prop :=
  v = { ofRelease v.release with epoch := epoch }

variable {v w : Version} {n : Nat}

theorem PrecedesWithin.precedes {r r' : List Nat} (h : PrecedesWithin n r r') : Precedes r r' := by
  obtain ⟨i, -, hi⟩ := h
  exact ⟨i, hi⟩

theorem PrecedesWithin.not_agree {r r' : List Nat} (h : PrecedesWithin n r r') :
    ¬ Agree n r' r := by
  obtain ⟨i, hin, -, hi⟩ := h
  intro hagree
  exact Nat.ne_of_gt hi (hagree i hin)

theorem IsFinalIn.not_isPreview {epoch : Nat} (h : v.IsFinalIn epoch) : ¬ v.IsPreview := by
  rw [h]
  simp [IsPreview, ofRelease]

theorem order_self (v : Version) : v.order v = .eq :=
  Std.ReflCmp.compare_self

/-- Being not before a version is being at or above it. -/
theorem order_ne_lt_iff : v.order w ≠ .lt ↔ (w.order v).isLE := by
  rw [ne_eq, ← Ordering.isGE_iff_ne_lt, Std.OrientedCmp.isGE_iff_isLE]

theorem not_isLE_of_order_eq_lt (h : v.order w = .lt) : ¬ (w.order v).isLE := by
  rw [← order_ne_lt_iff, h]
  decide

theorem isLE_order_self (v : Version) : (v.order v).isLE := by
  rw [order_self]
  rfl

/-- In one epoch the release numbers decide where they differ. -/
theorem order_eq_lt_of_precedes (hepoch : v.epoch = w.epoch) (h : Precedes v.release w.release) :
    v.order w = .lt := by
  rw [order, hepoch, (comparePadded_eq_lt_iff _ _).mpr h, Nat.compare_eq_eq.mpr rfl]
  rfl

theorem isLE_order_of_precedes (hepoch : v.epoch = w.epoch) (h : Precedes v.release w.release) :
    (v.order w).isLE := by
  rw [order_eq_lt_of_precedes hepoch h]
  rfl

/-- A version without an epoch comes before the release raised above it. -/
theorem order_raised_self (hepoch : v.epoch = 0) (hn : 0 < n) :
    v.order (.ofRelease (raised v.release n)) = .lt := by
  rw [order_ofRelease_eq_lt_iff]
  exact ⟨hepoch, .inl ((precedes_raised_iff_of_pos _ _ hn).mpr (.inr fun _ _ => rfl))⟩

theorem length_raised (r : List Nat) (n : Nat) : (raised r n).length = n := by
  fun_induction raised r n with
  | case1 => rfl
  | case2 => rfl
  | case3 r n hn ih => rw [List.length_cons, ih]

/-- A row that is raised at a later place agrees with itself before it. -/
theorem agree_raised {m : Nat} {r : List Nat} (h : n < m) : Agree n (raised r m) r := by
  induction n generalizing m r with
  | zero => exact agree_zero
  | succ n ih =>
      obtain ⟨k, rfl⟩ := Nat.exists_eq_succ_of_ne_zero (Nat.ne_zero_of_lt h)
      have hk : n < k := Nat.lt_of_succ_lt_succ h
      rw [agree_succ, place_raised_zero, if_neg (Nat.ne_zero_of_lt hk), tail_raised]
      exact ⟨rfl, ih hk⟩

/-- A row precedes the row raised at its `n`-th place at one of the first `n` places. -/
theorem precedesWithin_raised (r : List Nat) (hn : 0 < n) :
    PrecedesWithin n r (raised r n) := by
  obtain ⟨i, hagree, hi⟩ := (precedes_raised_iff_of_pos r r hn).mpr (.inr fun _ _ => rfl)
  refine ⟨i, ?_, hagree, hi⟩
  apply Nat.lt_of_not_le
  intro hle
  have hzero : place (raised r n) i = 0 := by
    rw [place, List.getD_eq_getElem?_getD, List.getElem?_eq_none (by rwa [length_raised])]
    rfl
  omega

/-- The numbers of a version that is read can be written. -/
theorem place_lt_of_read {s : List Char} (h : read s = .ok v)
    (hs : ∀ c ∈ s, isBlank c = false) (i : Nat) :
    place v.release i < Decimal.leastBeyond Decimal.maxDigits := by
  obtain ⟨p, -, hrelease, hshort, -⟩ := exists_spelling h hs
  rw [hrelease]
  exact Constraint.place_lt hshort i

theorem ne_nil_of_read {s : List Char} (h : read s = .ok v) : s ≠ [] := by
  rintro rfl
  have hnil : read [] = .error .invalid := rfl
  exact absurd (hnil.symm.trans h) (by simp)

end Version

namespace Constraint

open Version

variable {lower upper : List Char} {l u : Version} {n : Nat}

/-- The bounds of a range to a version that counts as written with `n` release numbers. -/
def hyphenBounds (l u : Version) (n : Nat) : VersionRange :=
  if n < 3 then [⟨.ge, l⟩, ⟨.lt, .ofRelease (raised u.release n)⟩] else [⟨.ge, l⟩, ⟨.le, u⟩]

theorem contains_hyphenBounds_of_lt (hn : n < 3) (v : Version) :
    (hyphenBounds l u n).contains v = true
      ↔ (l.order v).isLE ∧ v.order (.ofRelease (raised u.release n)) = .lt := by
  rw [← order_ne_lt_iff]
  simp [hyphenBounds, hn, VersionRange.contains, Bound.allows, Comparison.holds]

theorem contains_hyphenBounds_of_le (hn : 3 ≤ n) (v : Version) :
    (hyphenBounds l u n).contains v = true ↔ (l.order v).isLE ∧ (v.order u).isLE := by
  rw [← order_ne_lt_iff, Ordering.isLE_iff_ne_gt]
  simp [hyphenBounds, Nat.not_lt.mpr hn, VersionRange.contains, Bound.allows, Comparison.holds]

theorem writtenNumbers_pos (s : List Char) : 0 < writtenNumbers s := by
  rw [writtenNumbers]
  split
  · exact Nat.one_pos
  · exact Nat.succ_pos _

/-- The end of a range to the version can be written: the last number that counts as written can be
raised if the range ends before the next release. -/
def CanEnd (u : Version) (n : Nat) : Prop :=
  n < 3 → place u.release (n - 1) + 1 < Decimal.leastBeyond Decimal.maxDigits

theorem readHyphenRange_of_read (hlower : Version.read lower = .ok l)
    (hupper : Version.read upper = .ok u) (hupp : ∀ c ∈ upper, isBlank c = false) :
    GivesIff Fault.IsTooLong (readHyphenRange lower upper) (CanEnd u (writtenNumbers upper))
      (hyphenBounds l u (writtenNumbers upper)) := by
  have hrange : readHyphenRange lower upper
      = if writtenNumbers upper < 3 then
          (bump u (writtenNumbers upper)).map fun next => [⟨.ge, l⟩, ⟨.lt, next⟩]
        else .ok [⟨.ge, l⟩, ⟨.le, u⟩] := by
    simp only [readHyphenRange, readVersion, hlower, hupper]
    rfl
  rw [hrange, CanEnd, hyphenBounds]
  split
  · next hlt =>
      rw [forall_prop_of_true hlt]
      exact (bump_of_place_lt (place_lt_of_read hupper hupp) (writtenNumbers_pos upper)).map _
  · next hle => exact (GivesIff.ok _ _).congr (by simp [hle])

/-- Two versions joined by a hyphen read as the bounds of their range, unless the end of the range
has too many digits. -/
theorem read_hyphenated (hlower : Version.read lower = .ok l) (hupper : Version.read upper = .ok u)
    (hlow : ∀ c ∈ lower, isBlank c = false) (hupp : ∀ c ∈ upper, isBlank c = false)
    (before after : Gap) :
    GivesIff Fault.IsTooLong (read (String.ofList (hyphenated lower before after upper)))
      (CanEnd u (writtenNumbers upper))
      ⟨String.ofList (hyphenated lower before after upper),
        [hyphenBounds l u (writtenNumbers upper)]⟩ := by
  have hne : lower ≠ [] := ne_nil_of_read hlower
  have hne' : upper ≠ [] := ne_nil_of_read hupper
  have hend : EndsSolid (hyphenated lower before after upper) :=
    endsSolid_hyphenated hne' hupp before after
  have hbar : '|' ∉ hyphenated lower before after upper := by
    have hgap (g : Gap) : '|' ∉ g.chars := fun h => absurd (g.isBlank _ h) (by decide)
    simp [hyphenated, hgap, Version.not_mem_of_read (x := '|') (by decide) (s := lower),
      Version.not_mem_of_read (x := '|') (by decide) (s := upper), hlower, hupper]
  have hsplit : alternativeBreak.split (hyphenated lower before after upper)
      = [hyphenated lower before after upper] :=
    split_eq_singleton rfl (misses_alternativeBreak hbar hend [])
  rw [read, String.toList_ofList, trim_eq_self (startsSolid_hyphenated hne hlow before after) hend,
    if_neg (by simp [hyphenated]), hsplit, List.mapM_cons, List.mapM_nil,
    readAlternative_hyphenated hne hne' hlow hupp]
  exact ((readHyphenRange_of_read hlower hupper hupp).map fun bounds => [bounds]).map _

/-- What a range of two versions promises. It admits both ends. It does not admit a final release in
the epoch of the upper end whose first numbers, as many as the upper end is written with, are
greater. Above an upper end of three or more numbers it admits nothing. -/
structure RespectsEnds (c : Constraint) (l u : Version) : Prop where
  lower : c.admits l = true
  upper : c.admits u = true
  above (w : Version) : w.IsFinalIn u.epoch →
    PrecedesWithin u.release.length u.release w.release → c.admits w = false
  beyond (w : Version) : 3 ≤ u.release.length → u.order w = .lt → c.admits w = false

theorem admits_singleton (s : String) (r : VersionRange) (v : Version) :
    (Constraint.mk s [r]).admits v = r.contains v := by
  simp [admits]

theorem admits_singleton_eq_false_iff (s : String) (r : VersionRange) (v : Version) :
    (Constraint.mk s [r]).admits v = false ↔ ¬ r.contains v = true := by
  rw [admits_singleton, Bool.not_eq_true]

variable {s : String}

/-- A range that ends before the next release keeps to its ends if all numbers of the upper end
count as written and it has no epoch. -/
theorem respectsEnds_of_lt (hle : (l.order u).isLE) (hepoch : u.epoch = 0)
    (hpos : 0 < u.release.length) (hlt : u.release.length < 3) :
    RespectsEnds ⟨s, [hyphenBounds l u u.release.length]⟩ l u := by
  have hnext : u.order (.ofRelease (raised u.release u.release.length)) = .lt :=
    order_raised_self hepoch hpos
  constructor
  case lower =>
    rw [admits_singleton, contains_hyphenBounds_of_lt hlt]
    exact ⟨isLE_order_self l, Std.TransCmp.lt_of_isLE_of_lt hle hnext⟩
  case upper =>
    rw [admits_singleton, contains_hyphenBounds_of_lt hlt]
    exact ⟨hle, hnext⟩
  case above =>
    intro w hfinal hwithin
    rw [admits_singleton_eq_false_iff, contains_hyphenBounds_of_lt hlt, order_ofRelease_eq_lt_iff,
      precedes_raised_iff_of_pos _ _ hpos]
    rintro ⟨-, -, (hprecedes | hagree) | ⟨-, hpreview⟩⟩
    · exact hwithin.precedes.not_precedes hprecedes
    · exact hwithin.not_agree hagree
    · exact hfinal.not_isPreview hpreview
  case beyond => exact fun w hge => absurd hge (Nat.not_le.mpr hlt)

/-- A range that ends with the upper end keeps to its ends. -/
theorem respectsEnds_of_le (hle : (l.order u).isLE) (hge : 3 ≤ u.release.length) :
    RespectsEnds ⟨s, [hyphenBounds l u u.release.length]⟩ l u := by
  have hbeyond (w : Version) (h : u.order w = .lt) :
      (Constraint.mk s [hyphenBounds l u u.release.length]).admits w = false := by
    rw [admits_singleton_eq_false_iff, contains_hyphenBounds_of_le hge]
    exact fun hcontains => not_isLE_of_order_eq_lt h hcontains.2
  constructor
  case lower =>
    rw [admits_singleton, contains_hyphenBounds_of_le hge]
    exact ⟨isLE_order_self l, hle⟩
  case upper =>
    rw [admits_singleton, contains_hyphenBounds_of_le hge]
    exact ⟨hle, isLE_order_self u⟩
  case above =>
    intro w hfinal hwithin
    have hepoch : w.epoch = u.epoch := by
      rw [hfinal]
    exact hbeyond w (order_eq_lt_of_precedes hepoch.symm hwithin.precedes)
  case beyond => exact fun w _ h => hbeyond w h

theorem respectsEnds_hyphenBounds (hle : (l.order u).isLE) (hepoch : u.epoch = 0)
    (hpos : 0 < u.release.length) :
    RespectsEnds ⟨s, [hyphenBounds l u u.release.length]⟩ l u := by
  by_cases hlt : u.release.length < 3
  · exact respectsEnds_of_lt hle hepoch hpos hlt
  · exact respectsEnds_of_le hle (Nat.le_of_not_lt hlt)

/-- The next release has no epoch, so a range that ends before it holds no version with an epoch. -/
theorem epoch_of_respectsEnds (hn : n < 3) (h : RespectsEnds ⟨s, [hyphenBounds l u n]⟩ l u) :
    u.epoch = 0 := by
  have hupper := h.upper
  rw [admits_singleton, contains_hyphenBounds_of_lt hn, order_ofRelease_eq_lt_iff] at hupper
  exact hupper.2.1

/-- If fewer numbers count as written than there are, the upper end raised at its last place is in
the range. -/
theorem length_le_of_respectsEnds (hle : (l.order u).isLE) (hpos : 0 < n) (hn : n < 3)
    (h : RespectsEnds ⟨s, [hyphenBounds l u n]⟩ l u) : u.release.length ≤ n := by
  by_contra hlt
  rw [Nat.not_le] at hlt
  have hepoch : u.epoch = 0 := epoch_of_respectsEnds hn h
  have hlength : 0 < u.release.length := Nat.lt_trans hpos hlt
  have hlow : l.order (.ofRelease (raised u.release u.release.length)) = .lt :=
    Std.TransCmp.lt_of_isLE_of_lt hle (order_raised_self hepoch hlength)
  have habove := h.above (.ofRelease (raised u.release u.release.length))
    (by rw [IsFinalIn, hepoch]; rfl) (precedesWithin_raised u.release hlength)
  rw [admits_singleton_eq_false_iff, contains_hyphenBounds_of_lt hn] at habove
  apply habove
  refine ⟨by rw [hlow]; rfl, ?_⟩
  rw [order_ofRelease_eq_lt_iff, precedes_raised_iff_of_pos _ _ hpos]
  exact ⟨rfl, .inl (.inr (agree_raised hlt))⟩

/-- Two versions in order, joined by a hyphen, are read as a range that keeps to its ends exactly if
the upper end has no epoch, is bare or has a single release number, and can end a range. -/
theorem respectsEnds_hyphenated_iff (hlower : Version.read lower = .ok l)
    (hupper : Version.read upper = .ok u) (hlow : ∀ c ∈ lower, isBlank c = false)
    (hupp : ∀ c ∈ upper, isBlank c = false) (hle : (l.order u).isLE) (before after : Gap) :
    (∃ c, read (String.ofList (hyphenated lower before after upper)) = .ok c ∧ RespectsEnds c l u)
      ↔ u.epoch = 0 ∧ (IsBare upper ∨ u.release.length = 1) ∧ CanEnd u u.release.length := by
  have hpos : 0 < u.release.length := length_release_pos hupper hupp
  obtain ⟨hbare, hlead⟩ := writtenNumbers_of_read hupper hupp
  rw [(read_hyphenated hlower hupper hlow hupp before after).exists_ok_iff]
  by_cases hb : IsBare upper
  · obtain ⟨hepoch, hwritten⟩ := hbare hb
    rw [hwritten]
    constructor
    · rintro ⟨hend, -⟩
      exact ⟨hepoch, .inl hb, hend⟩
    · rintro ⟨-, -, hend⟩
      exact ⟨hend, respectsEnds_hyphenBounds hle hepoch hpos⟩
  · rw [hlead hb]
    constructor
    · rintro ⟨hend, hrespects⟩
      have hlength : u.release.length = 1 :=
        Nat.le_antisymm (length_le_of_respectsEnds hle Nat.one_pos (by decide) hrespects) hpos
      exact ⟨epoch_of_respectsEnds (by decide) hrespects, .inr hlength, by rwa [hlength]⟩
    · rintro ⟨hepoch, hone, hend⟩
      have hlength : u.release.length = 1 := hone.resolve_left hb
      have hrespects := respectsEnds_hyphenBounds
        (s := String.ofList (hyphenated lower before after upper)) hle hepoch hpos
      rw [hlength] at hend hrespects
      exact ⟨hend, hrespects⟩

/-- A single space. -/
def space : Gap :=
  ⟨⟨[' '], List.forall_mem_singleton.mpr rfl⟩, List.cons_ne_nil _ _⟩

theorem canEnd_of_place_lt_nine (h : place u.release (n - 1) < 9) : CanEnd u n := by
  intro _
  have hten : 10 ≤ Decimal.leastBeyond Decimal.maxDigits :=
    Decimal.leastBeyond_le (m := 1) (by decide)
  omega

/-- The range from `7.4` to `8.0` keeps to its ends. -/
theorem respectsEnds_seven_eight :
    ((ofRelease [7, 4]).order (ofRelease [8, 0])).isLE
      ∧ ∃ c, read "7.4 - 8.0" = .ok c ∧ RespectsEnds c (ofRelease [7, 4]) (ofRelease [8, 0]) := by
  have hle : ((ofRelease [7, 4]).order (ofRelease [8, 0])).isLE :=
    isLE_order_of_precedes rfl ⟨0, agree_zero, by decide⟩
  have hlower : Version.read "7.4".toList = .ok (ofRelease [7, 4]) := rfl
  have hupper : Version.read "8.0".toList = .ok (ofRelease [8, 0]) := rfl
  have hbare : IsBare "8.0".toList := ⟨⟨'8', ".0".toList, rfl, rfl⟩, by decide⟩
  refine ⟨hle, ?_⟩
  exact (respectsEnds_hyphenated_iff hlower hupper (by decide) (by decide) hle space space).mpr
    ⟨rfl, .inl hbare, canEnd_of_place_lt_nine (by decide)⟩

/-- With a letter in front of its upper end a range goes on beyond it: `1 - v7.4` holds `7.5`. -/
theorem not_forall_respectsEnds : ¬ ∀ (lower upper : List Char) (l u : Version),
    Version.read lower = .ok l → Version.read upper = .ok u →
    (∀ c ∈ lower, isBlank c = false) → (∀ c ∈ upper, isBlank c = false) → (l.order u).isLE →
      ∃ c, read (String.ofList (hyphenated lower space space upper)) = .ok c
        ∧ RespectsEnds c l u := by
  intro h
  have hle : ((ofRelease [1]).order (ofRelease [7, 4])).isLE :=
    isLE_order_of_precedes rfl ⟨0, agree_zero, by decide⟩
  have hread := h "1".toList "v7.4".toList (ofRelease [1]) (ofRelease [7, 4]) rfl rfl
    (by decide) (by decide) hle
  have hwritten : writtenNumbers "v7.4".toList = 1 := rfl
  rw [(read_hyphenated (l := ofRelease [1]) (u := ofRelease [7, 4]) rfl rfl (by decide) (by decide)
    space space).exists_ok_iff, hwritten] at hread
  have hlength : 2 ≤ 1 :=
    length_le_of_respectsEnds hle Nat.one_pos (by decide) hread.2
  exact absurd hlength (by decide)

end Constraint

end DocTags
