import DocTags.Text.Utf8

/-!
# Characters from their bytes

What is written as UTF-8 is read again. A first byte tells how many bytes belong to a character, and
the second byte of a long one is checked against the first.
-/

namespace DocTags.Utf8

variable {a b c d : UInt8}

theorem not_lt_of_le_toNat (h : b.toNat ≤ a.toNat) : ¬ a < b :=
  fun hlt => absurd (UInt8.lt_iff_toNat_lt.mp hlt) (Nat.not_lt.mpr h)

theorem isContinuation_iff : isContinuation b = true ↔ 0x80 ≤ b.toNat ∧ b.toNat < 0xC0 := by
  simp [isContinuation, UInt8.lt_iff_toNat_lt, UInt8.le_iff_toNat_le]

theorem fitsThree_iff : fitsThree a b = true ↔ isContinuation b = true
    ∧ (a.toNat = 0xE0 → 0xA0 ≤ b.toNat) ∧ (a.toNat = 0xED → b.toNat < 0xA0) := by
  simp [fitsThree, UInt8.lt_iff_toNat_lt, UInt8.le_iff_toNat_le, ← UInt8.toNat_inj, and_assoc,
    Decidable.imp_iff_not_or]

theorem fitsFour_iff : fitsFour a b = true ↔ isContinuation b = true
    ∧ (a.toNat = 0xF0 → 0x90 ≤ b.toNat) ∧ (a.toNat = 0xF4 → b.toNat < 0x90) := by
  simp [fitsFour, UInt8.lt_iff_toNat_lt, UInt8.le_iff_toNat_le, ← UInt8.toNat_inj, and_assoc,
    Decidable.imp_iff_not_or]

theorem decodeFrom_one (ha : a.toNat < 0x80) (position : Nat) (r : List UInt8) :
    decodeFrom position (a :: r) = push a.toNat (decodeFrom (position + 1) r) := by
  have hone : a < 0x80 := UInt8.lt_iff_toNat_lt.mpr ha
  rw [decodeFrom.eq_def]
  simp only [if_pos hone]

theorem decodeFrom_two (ha : 0xC2 ≤ a.toNat) (ha' : a.toNat < 0xE0)
    (hb : isContinuation b = true) (position : Nat) (r : List UInt8) :
    decodeFrom position (a :: b :: r)
      = push (a.toNat % 32 * 64 + low b) (decodeFrom (position + 2) r) := by
  have hone : ¬ a < 0x80 := not_lt_of_le_toNat (Nat.le_trans (by decide) ha)
  have hbad : ¬ a < 0xC2 := not_lt_of_le_toNat ha
  have htwo : a < 0xE0 := UInt8.lt_iff_toNat_lt.mpr ha'
  rw [decodeFrom.eq_def]
  simp only [if_neg hone, if_neg hbad, if_pos htwo, hb, if_true]

theorem decodeFrom_three (ha : 0xE0 ≤ a.toNat) (ha' : a.toNat < 0xF0)
    (hb : fitsThree a b = true) (hc : isContinuation c = true) (position : Nat) (r : List UInt8) :
    decodeFrom position (a :: b :: c :: r)
      = push ((a.toNat % 16 * 64 + low b) * 64 + low c) (decodeFrom (position + 3) r) := by
  have hone : ¬ a < 0x80 := not_lt_of_le_toNat (Nat.le_trans (by decide) ha)
  have hbad : ¬ a < 0xC2 := not_lt_of_le_toNat (Nat.le_trans (by decide) ha)
  have htwo : ¬ a < 0xE0 := not_lt_of_le_toNat ha
  have hthree : a < 0xF0 := UInt8.lt_iff_toNat_lt.mpr ha'
  rw [decodeFrom.eq_def]
  simp only [if_neg hone, if_neg hbad, if_neg htwo, if_pos hthree, hb, hc, Bool.not_true,
    Bool.false_eq_true, if_false]

theorem decodeFrom_four (ha : 0xF0 ≤ a.toNat) (ha' : a.toNat < 0xF5)
    (hb : fitsFour a b = true) (hc : isContinuation c = true) (hd : isContinuation d = true)
    (position : Nat) (r : List UInt8) :
    decodeFrom position (a :: b :: c :: d :: r)
      = push (((a.toNat % 8 * 64 + low b) * 64 + low c) * 64 + low d)
        (decodeFrom (position + 4) r) := by
  have hone : ¬ a < 0x80 := not_lt_of_le_toNat (Nat.le_trans (by decide) ha)
  have hbad : ¬ a < 0xC2 := not_lt_of_le_toNat (Nat.le_trans (by decide) ha)
  have htwo : ¬ a < 0xE0 := not_lt_of_le_toNat (Nat.le_trans (by decide) ha)
  have hthree : ¬ a < 0xF0 := not_lt_of_le_toNat ha
  have hfour : a < 0xF5 := UInt8.lt_iff_toNat_lt.mpr ha'
  rw [decodeFrom.eq_def]
  simp only [if_neg hone, if_neg hbad, if_neg htwo, if_neg hthree, if_pos hfour, hb, hc, hd,
    Bool.not_true, Bool.false_eq_true, if_false]

section Numbers

variable {n : Nat}

theorem toNat_ofNat (h : n < 256) : (UInt8.ofNat n).toNat = n := by
  rw [UInt8.toNat_ofNat', Nat.mod_eq_of_lt h]

theorem decodeFrom_ofNat_one (h : n ≤ 0x7F) (position : Nat) (r : List UInt8) :
    decodeFrom position (.ofNat n :: r) = push n (decodeFrom (position + 1) r) := by
  have ha := toNat_ofNat (n := n) (by omega)
  rw [decodeFrom_one (by omega), ha]

theorem decodeFrom_ofNat_two (hlow : ¬ n ≤ 0x7F) (h : n ≤ 0x7FF) (position : Nat)
    (r : List UInt8) :
    decodeFrom position (.ofNat (n / 64 % 32 + 192) :: .ofNat (n % 64 + 128) :: r)
      = push n (decodeFrom (position + 2) r) := by
  have ha := toNat_ofNat (n := n / 64 % 32 + 192) (by omega)
  have hb := toNat_ofNat (n := n % 64 + 128) (by omega)
  rw [decodeFrom_two (by omega) (by omega) (by rw [isContinuation_iff]; omega), low, ha, hb]
  congr 1
  omega

theorem decodeFrom_ofNat_three (hlow : ¬ n ≤ 0x7FF) (h : n ≤ 0xFFFF)
    (hn : n < 0xD800 ∨ 0xDFFF < n) (position : Nat) (r : List UInt8) :
    decodeFrom position (.ofNat (n / 4096 % 16 + 224) :: .ofNat (n / 64 % 64 + 128)
        :: .ofNat (n % 64 + 128) :: r)
      = push n (decodeFrom (position + 3) r) := by
  have ha := toNat_ofNat (n := n / 4096 % 16 + 224) (by omega)
  have hb := toNat_ofNat (n := n / 64 % 64 + 128) (by omega)
  have hc := toNat_ofNat (n := n % 64 + 128) (by omega)
  rw [decodeFrom_three (by omega) (by omega) (by rw [fitsThree_iff, isContinuation_iff]; omega)
    (by rw [isContinuation_iff]; omega), low, low, ha, hb, hc]
  congr 1
  omega

theorem decodeFrom_ofNat_four (hlow : ¬ n ≤ 0xFFFF) (h : n < 0x110000) (position : Nat)
    (r : List UInt8) :
    decodeFrom position (.ofNat (n / 262144 % 8 + 240) :: .ofNat (n / 4096 % 64 + 128)
        :: .ofNat (n / 64 % 64 + 128) :: .ofNat (n % 64 + 128) :: r)
      = push n (decodeFrom (position + 4) r) := by
  have ha := toNat_ofNat (n := n / 262144 % 8 + 240) (by omega)
  have hb := toNat_ofNat (n := n / 4096 % 64 + 128) (by omega)
  have hc := toNat_ofNat (n := n / 64 % 64 + 128) (by omega)
  have hd := toNat_ofNat (n := n % 64 + 128) (by omega)
  rw [decodeFrom_four (by omega) (by omega) (by rw [fitsFour_iff, isContinuation_iff]; omega)
    (by rw [isContinuation_iff]; omega) (by rw [isContinuation_iff]; omega), low, low, low, ha, hb,
    hc, hd]
  congr 1
  omega

end Numbers

/-- A character comes back from its bytes, whatever follows them. -/
theorem decodeFrom_encodeChar (x : Char) (position : Nat) (r : List UInt8) :
    ∃ next, decodeFrom position (String.utf8EncodeChar x ++ r)
      = (decodeFrom next r).map (x :: ·) := by
  have hx : x.toNat < 0xD800 ∨ 0xDFFF < x.toNat ∧ x.toNat < 0x110000 := x.valid
  have hnumber : x.val.toNat = x.toNat := rfl
  have hpush (e : Except EncodingFault (List Char)) : push x.toNat e = e.map (x :: ·) := by
    rw [push, Char.ofNat_toNat]
  rw [String.utf8EncodeChar]
  simp only [hnumber]
  -- A character has as many bytes as its number needs.
  split
  · next hone =>
      exact ⟨_, (decodeFrom_ofNat_one hone position r).trans (hpush _)⟩
  split
  · next hone htwo =>
      exact ⟨_, (decodeFrom_ofNat_two hone htwo position r).trans (hpush _)⟩
  split
  · next htwo hthree =>
      exact ⟨_, (decodeFrom_ofNat_three htwo hthree (by omega) position r).trans (hpush _)⟩
  · next hthree =>
      exact ⟨_, (decodeFrom_ofNat_four hthree (by omega) position r).trans (hpush _)⟩

/-- Characters come back from their bytes. -/
theorem decode_encode (s : List Char) : decode (s.flatMap String.utf8EncodeChar) = .ok s := by
  have hfrom : ∀ position, decodeFrom position (s.flatMap String.utf8EncodeChar) = .ok s := by
    induction s with
    | nil =>
        intro position
        rfl
    | cons x s ih =>
        intro position
        obtain ⟨next, hx⟩ := decodeFrom_encodeChar x position (s.flatMap String.utf8EncodeChar)
        rw [List.flatMap_cons, hx, ih]
        rfl
  exact hfrom 0

end DocTags.Utf8
