/-!
# Halves of surrogate pairs

A code point above U+FFFF can be written as a pair of surrogates. Half of a pair is no character,
but an escape can put one into a text. A text holds a stand-in for it: a character of the private
area. Where the characters of that area mean themselves, a guard stands in front of them, so that
every list of code points comes back from the text that holds it.
-/

namespace DocTags.Text

/-- The first half of a surrogate pair. -/
def isHigh (n : Nat) : Bool :=
  0xD800 ≤ n && n < 0xDC00

/-- The second half of a surrogate pair. -/
def isLow (n : Nat) : Bool :=
  0xDC00 ≤ n && n < 0xE000

/-- Either half of a surrogate pair. -/
def isHalf (n : Nat) : Bool :=
  0xD800 ≤ n && n < 0xE000

/-- The code point of a surrogate pair. -/
def joinPair (high low : Nat) : Nat :=
  0x10000 + (high - 0xD800) * 0x400 + (low - 0xDC00)

/-- Code points with every surrogate pair joined. -/
def joinPairs : List Nat → List Nat
  | a :: b :: r =>
    if isHigh a && isLow b then joinPair a b :: joinPairs r else a :: joinPairs (b :: r)
  | ps => ps

/-- How far the stand-in of a half is above it. -/
def standInShift : Nat := 0xE8000

/-- The code point of the guard, which is the one below those of the stand-ins. -/
def guardPoint : Nat := 0xF57FF

/-- A code point of the guard or of a stand-in. -/
def isReserved (n : Nat) : Bool :=
  guardPoint ≤ n && n < 0xE000 + standInShift

/-- The character that shows the class of a code point: for a half the stand-in. -/
def charOf (n : Nat) : Char :=
  Char.ofNat (if isHalf n then n + standInShift else n)

/-- The characters that hold a code point. -/
def charsOf (n : Nat) : List Char :=
  if isReserved n then [Char.ofNat guardPoint, charOf n] else [charOf n]

/-- The code point that a character without a guard holds. -/
def pointOf (c : Char) : Nat :=
  if isHalf (c.toNat - standInShift) then c.toNat - standInShift else c.toNat

/-- The code points that characters hold. -/
def points : List Char → List Nat
  | c :: d :: r =>
    if c.toNat = guardPoint ∧ isReserved d.toNat then d.toNat :: points r
    else pointOf c :: points (d :: r)
  | [c] => [pointOf c]
  | [] => []

/-- Characters that mean themselves as a text holds them. -/
def hold (s : List Char) : List Char :=
  s.flatMap fun c => charsOf c.toNat

/-- The code points of a text. -/
def toPoints (s : String) : List Nat :=
  points s.toList

/-- A text holds half of a surrogate pair. -/
def holdsHalf (s : String) : Bool :=
  (toPoints s).any isHalf

theorem isHalf_iff {n : Nat} : isHalf n = true ↔ 0xD800 ≤ n ∧ n < 0xE000 := by
  simp [isHalf]

theorem isReserved_iff {n : Nat} : isReserved n = true ↔ 0xF57FF ≤ n ∧ n < 0xF6000 := by
  rw [isReserved, Bool.and_eq_true, decide_eq_true_iff, decide_eq_true_iff, guardPoint,
    standInShift]

theorem isHalf_eq_false_of_isReserved {n : Nat} (h : isReserved n = true) : isHalf n = false := by
  rw [isReserved_iff] at h
  rw [Bool.eq_false_iff, ne_eq, isHalf_iff]
  omega

theorem toNat_ofNat {n : Nat} (h : n.isValidChar) : (Char.ofNat n).toNat = n := by
  rw [Char.ofNat, dif_pos h]
  rfl

theorem toNat_guard : (Char.ofNat guardPoint).toNat = guardPoint :=
  toNat_ofNat (by decide)

/-- The stand-in of a half is the character `standInShift` above it. -/
theorem toNat_charOf_of_isHalf {n : Nat} (h : isHalf n = true) :
    (charOf n).toNat = n + standInShift := by
  have hv : (n + standInShift).isValidChar := by
    rw [isHalf_iff] at h
    right
    simp only [standInShift]
    omega
  rw [charOf, if_pos h, toNat_ofNat hv]

theorem toNat_charOf_of_not_isHalf {n : Nat} (hn : n < 0x110000) (h : isHalf n = false) :
    (charOf n).toNat = n := by
  have hv : n.isValidChar := by
    rw [Bool.eq_false_iff, ne_eq, isHalf_iff] at h
    simp only [Nat.isValidChar]
    omega
  rw [charOf, if_neg (by simp [h]), toNat_ofNat hv]

/-- A code point that needs no guard comes back from the character that holds it, which is no
guard. -/
theorem pointOf_charOf {n : Nat} (hn : n < 0x110000) (h : isReserved n = false) :
    pointOf (charOf n) = n ∧ (charOf n).toNat ≠ guardPoint := by
  rw [Bool.eq_false_iff, ne_eq, isReserved_iff] at h
  cases hh : isHalf n with
  | true =>
    have hc := toNat_charOf_of_isHalf hh
    refine ⟨by rw [pointOf, hc, Nat.add_sub_cancel, if_pos hh], ?_⟩
    rw [isHalf_iff] at hh
    rw [hc, standInShift, guardPoint]
    omega
  | false =>
    have hd : isHalf (n - standInShift) = false := by
      rw [Bool.eq_false_iff, ne_eq, isHalf_iff]
      simp only [standInShift]
      omega
    have hc := toNat_charOf_of_not_isHalf hn hh
    refine ⟨by rw [pointOf, hc, if_neg (by simp [hd])], ?_⟩
    rw [hc, guardPoint]
    omega

theorem points_cons_of_ne_guardPoint {c : Char} (h : c.toNat ≠ guardPoint) (r : List Char) :
    points (c :: r) = pointOf c :: points r := by
  cases r with
  | nil => rfl
  | cons d r => simp [points, h]

/-- A code point comes back from the characters that hold it, whatever follows them. -/
theorem points_charsOf_append {n : Nat} (hn : n < 0x110000) (r : List Char) :
    points (charsOf n ++ r) = n :: points r := by
  cases h : isReserved n with
  | false =>
    obtain ⟨hp, hg⟩ := pointOf_charOf hn h
    simp [charsOf, h, points_cons_of_ne_guardPoint hg, hp]
  | true =>
    have hc := toNat_charOf_of_not_isHalf hn (isHalf_eq_false_of_isReserved h)
    simp [charsOf, h, points, toNat_guard, hc]

/-- Code points come back from the characters that hold them. -/
theorem points_flatMap_charsOf {ps : List Nat} (h : ∀ n ∈ ps, n < 0x110000) :
    points (ps.flatMap charsOf) = ps := by
  induction ps with
  | nil => rfl
  | cons n ps ih =>
    simp only [List.forall_mem_cons] at h
    simp [points_charsOf_append h.1, ih h.2]

end DocTags.Text
