import DocTags.Json.Reader

/-!
# JSON texts

What may stand between the quotes of a JSON text, and the characters that it stands for. A code
escape of a first half in front of one of a second half stands for the pair.
-/

namespace DocTags.Json

open Text

/-- The rest of a text goes on with the escape of a second half. -/
def StartsLow (s : List Char) : Prop :=
  ∃ a b c d r n, s = '\\' :: 'u' :: a :: b :: c :: d :: r ∧ hexCode? a b c d = some n
    ∧ isLow n = true

/-- The first characters stand between quotes for the second ones. -/
inductive Spells : List Char → List Char → Prop where
  | nil : Spells [] []
  /-- A character that stands for itself. -/
  | plain (c : Char) {s t : List Char} (hc : 0x20 ≤ c.toNat ∧ c ≠ '"' ∧ c ≠ '\\')
      (h : Spells s t) : Spells (c :: s) (c :: t)
  /-- A letter after a backslash. -/
  | letter (l : Char) {c : Char} {s t : List Char} (hc : escaped? l = some c) (h : Spells s t) :
      Spells ('\\' :: l :: s) (c :: t)
  /-- The code of anything but a first half that its second half follows. -/
  | code (a b c d : Char) {n : Nat} {s t : List Char} (hn : hexCode? a b c d = some n)
      (hpair : ¬ (isHigh n = true ∧ StartsLow s)) (h : Spells s t) :
      Spells ('\\' :: 'u' :: a :: b :: c :: d :: s) (charsOf n ++ t)
  /-- The codes of both halves of a pair. -/
  | pair (a b c d a' b' c' d' : Char) {n m : Nat} {s t : List Char}
      (hn : hexCode? a b c d = some n) (hhigh : isHigh n = true)
      (hm : hexCode? a' b' c' d' = some m) (hlow : isLow m = true) (h : Spells s t) :
      Spells
        ('\\' :: 'u' :: a :: b :: c :: d :: '\\' :: 'u' :: a' :: b' :: c' :: d' :: s)
        (charsOf (joinPair n m) ++ t)

/-- Without another code escape behind it a code escape is read for itself. -/
theorem readText_code_of_ne {a b c d e : Char} {n : Nat} {s : List Char}
    (hn : hexCode? a b c d = some n) (hne : e = '\\' → ∀ r, s ≠ 'u' :: r) :
    readText ('\\' :: 'u' :: a :: b :: c :: d :: e :: s)
      = (readText (e :: s)).map (holding n) := by
  rw [readText, hn]
  intro a' b' c' d' e' s' he hs
  exact hne he _ hs

/-- A code escape in front of another one is read with it or for itself. -/
theorem readText_code_code {a b c d a' b' c' d' : Char} {n m : Nat} {s : List Char}
    (hn : hexCode? a b c d = some n) (hm : hexCode? a' b' c' d' = some m) (hs : s ≠ []) :
    readText ('\\' :: 'u' :: a :: b :: c :: d :: '\\' :: 'u' :: a' :: b' :: c' :: d' :: s)
      = if isHigh n = true ∧ isLow m = true then (readText s).map (holding (joinPair n m))
        else (readText ('\\' :: 'u' :: a' :: b' :: c' :: d' :: s)).map (holding n) := by
  obtain ⟨e, s, rfl⟩ := List.exists_cons_of_ne_nil hs
  rw [readText, hn, hm]
  cases hhigh : isHigh n <;> cases hlow : isLow m <;> simp [hhigh, hlow]

theorem append_quote_ne_nil (s r : List Char) : s ++ '"' :: r ≠ [] := by
  simp

/-- A code escape is read for itself unless it is a first half in front of a second half. -/
theorem readText_code {a b c d : Char} {n : Nat} {s t : List Char} (hn : hexCode? a b c d = some n)
    (hpair : ¬ (isHigh n = true ∧ StartsLow s)) (h : Spells s t) (r : List Char) :
    readText ('\\' :: 'u' :: a :: b :: c :: d :: (s ++ '"' :: r))
      = (readText (s ++ '"' :: r)).map (holding n) := by
  cases h with
  | nil => exact readText_code_of_ne hn (by simp)
  | plain x hx h => exact readText_code_of_ne hn fun he => absurd he hx.2.2
  | letter l hl h =>
      refine readText_code_of_ne hn fun _ r hr => ?_
      obtain ⟨rfl, -⟩ := List.cons.inj hr
      simp [escaped?] at hl
  | code a' b' c' d' hm hpair' h =>
      refine (readText_code_code hn hm (append_quote_ne_nil _ r)).trans (if_neg ?_)
      rintro ⟨hhigh, hlow⟩
      exact hpair ⟨hhigh, _, _, _, _, _, _, rfl, hm, hlow⟩
  | pair a' b' c' d' _ _ _ _ hm hhigh' _ _ h =>
      refine (readText_code_code hn hm (by simp)).trans (if_neg ?_)
      rintro ⟨hhigh, hlow⟩
      exact hpair ⟨hhigh, _, _, _, _, _, _, rfl, hm, hlow⟩

/-- A text is read up to its closing quote as what it stands for. -/
theorem readText_spells {s t : List Char} (h : Spells s t) (r : List Char) :
    readText (s ++ '"' :: r) = .ok (t, r) := by
  induction h with
  | nil => simp [readText]
  | plain c hc h ih =>
      have hcontrol : ¬ c.toNat < 0x20 := Nat.not_lt.mpr hc.1
      rw [List.cons_append, readText, if_neg hcontrol, ih]
      · rfl
      all_goals simp [hc.2]
  | letter l hc h ih =>
      have hne : l ≠ 'u' := by
        rintro rfl
        simp [escaped?] at hc
      rw [List.cons_append, List.cons_append, readText, hc, ih]
      · rfl
      all_goals simp [hne]
  | code a b c d hn hpair h ih =>
      simp only [List.cons_append]
      rw [readText_code hn hpair h, ih]
      rfl
  | pair a b c d a' b' c' d' hn hhigh hm hlow h ih =>
      simp only [List.cons_append]
      rw [readText_code_code hn hm (append_quote_ne_nil _ r), if_pos ⟨hhigh, hlow⟩, ih]
      rfl

/-- A hexadecimal digit is no control character and counts less than sixteen. -/
theorem bounds_of_hexValue? {c : Char} {v : Nat} (h : hexValue? c = some v) :
    0x20 ≤ c.toNat ∧ v < 16 := by
  have hbounds {lo hi : Char} (hc : lo.toNat ≤ c.toNat ∧ c.toNat ≤ hi.toNat) {base : Nat}
      (hlo : 0x20 ≤ lo.toNat) (hhi : hi.toNat < base + 16) (hv : c.toNat - base = v) :
      0x20 ≤ c.toNat ∧ v < 16 := by omega
  rw [hexValue?] at h
  split at h
  · next hdigit =>
      have hc : '0'.toNat ≤ c.toNat ∧ c.toNat ≤ '9'.toNat := Char.isDigit_iff_toNat.mp hdigit
      exact hbounds hc (by decide) (by decide) (Option.some.inj h)
  · split at h
    · next ha => exact hbounds ha (by decide) (by decide) (Option.some.inj h)
    · split at h
      · next hA => exact hbounds hA (by decide) (by decide) (Option.some.inj h)
      · cases h

theorem le_of_hexCode? {a b c d : Char} {n : Nat} (h : hexCode? a b c d = some n) :
    0x20 ≤ a.toNat ∧ 0x20 ≤ b.toNat ∧ 0x20 ≤ c.toNat ∧ 0x20 ≤ d.toNat := by
  simp only [hexCode?, bind, Option.bind_eq_some_iff] at h
  obtain ⟨va, ha, vb, hb, vc, hc, vd, hd, -⟩ := h
  exact ⟨(bounds_of_hexValue? ha).1, (bounds_of_hexValue? hb).1, (bounds_of_hexValue? hc).1,
    (bounds_of_hexValue? hd).1⟩

theorem le_of_escaped? {l c : Char} (h : escaped? l = some c) : 0x20 ≤ l.toNat := by
  rw [escaped?.eq_def] at h
  split at h <;> first | decide | exact absurd h (by simp)

/-- A spelling holds no control character. -/
theorem Spells.forall_mem {s t : List Char} (h : Spells s t) : ∀ c ∈ s, 0x20 ≤ c.toNat := by
  have hmarks : 0x20 ≤ '\\'.toNat ∧ 0x20 ≤ 'u'.toNat := by decide
  induction h with
  | nil => simp
  | plain c hc h ih => exact List.forall_mem_cons.mpr ⟨hc.1, ih⟩
  | letter l hc h ih =>
      exact List.forall_mem_cons.mpr ⟨hmarks.1, List.forall_mem_cons.mpr ⟨le_of_escaped? hc, ih⟩⟩
  | code a b c d hn hpair h ih =>
      obtain ⟨ha, hb, hc, hd⟩ := le_of_hexCode? hn
      simp only [List.forall_mem_cons]
      exact ⟨hmarks.1, hmarks.2, ha, hb, hc, hd, ih⟩
  | pair a b c d a' b' c' d' hn hhigh hm hlow h ih =>
      obtain ⟨ha, hb, hc, hd⟩ := le_of_hexCode? hn
      obtain ⟨ha', hb', hc', hd'⟩ := le_of_hexCode? hm
      simp only [List.forall_mem_cons]
      exact ⟨hmarks.1, hmarks.2, ha, hb, hc, hd, hmarks.1, hmarks.2, ha', hb', hc', hd', ih⟩

end DocTags.Json
