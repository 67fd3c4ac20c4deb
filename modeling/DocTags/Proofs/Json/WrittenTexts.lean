import DocTags.Json.Writer
import DocTags.Proofs.Json.Text
import DocTags.Proofs.Text.Surrogate
import Mathlib.Tactic.SplitIfs

/-!
# Texts as documents hold them

A text is written with escapes, and what is written between its quotes spells the settled text: two
halves that are written one behind the other are read as the pair. What is read from characters that
are no stand-ins is settled.
-/

namespace DocTags.Json

open Text

variable {n : Nat} {ps : List Nat} {s t : List Char}

theorem hexValue?_hexDigit : ∀ d < 16, hexValue? (hexDigit d) = some d := by
  decide

/-- A code escape is one of the first code points. -/
theorem lt_of_hexCode? {a b c d : Char} (h : hexCode? a b c d = some n) : n < 0x10000 := by
  simp only [hexCode?, bind, Option.bind_eq_some_iff] at h
  obtain ⟨va, ha, vb, hb, vc, hc, vd, hd, hn⟩ := h
  obtain rfl := Option.some.inj hn
  have hva := (bounds_of_hexValue? ha).2
  have hvb := (bounds_of_hexValue? hb).2
  have hvc := (bounds_of_hexValue? hc).2
  have hvd := (bounds_of_hexValue? hd).2
  omega

/-- A code that is written as an escape is the code of the escape. -/
theorem exists_codeEscape (hn : n < 0x10000) :
    ∃ a b c d, codeEscape n = ['\\', 'u', a, b, c, d] ∧ hexCode? a b c d = some n := by
  have hdigit (k : Nat) : hexValue? (hexDigit (k % 16)) = some (k % 16) :=
    hexValue?_hexDigit _ (Nat.mod_lt k (by decide))
  refine ⟨hexDigit (n / 4096 % 16), hexDigit (n / 256 % 16), hexDigit (n / 16 % 16),
    hexDigit (n % 16), ?_, ?_⟩
  · have hone : n / Nat.pow 16 0 = n := Nat.div_one n
    have hdigits : hexDigits 4 n = [hexDigit (n / 4096 % 16), hexDigit (n / 256 % 16),
        hexDigit (n / 16 % 16), hexDigit (n / Nat.pow 16 0 % 16)] := rfl
    rw [codeEscape, hdigits, hone]
  · simp only [hexCode?, hdigit]
    have hvalue : ((n / 4096 % 16 * 16 + n / 256 % 16) * 16 + n / 16 % 16) * 16 + n % 16 = n := by
      omega
    exact congrArg some hvalue

theorem charsOf_ascii : ∀ n < 0x80, charsOf n = [Char.ofNat n] := by
  decide

/-- A code point is written with a letter after a backslash, as itself, with its code, or with the
codes of a pair. -/
inductive WritesPoint (n : Nat) : List Char → Prop where
  | letter (l : Char) (hl : escaped? l = some (Char.ofNat n)) (hn : n < 0x80) :
      WritesPoint n ['\\', l]
  | plain (c : Char) (hc : 0x20 ≤ c.toNat ∧ c ≠ '"' ∧ c ≠ '\\') (hn : n < 0x80)
      (hself : c = Char.ofNat n) : WritesPoint n [c]
  | code (a b c d : Char) (hcode : hexCode? a b c d = some n) :
      WritesPoint n ['\\', 'u', a, b, c, d]
  | pair (a b c d a' b' c' d' : Char) (high low : Nat) (hhigh : isHigh high = true)
      (hlow : isLow low = true) (hn : joinPair high low = n) (hcode : hexCode? a b c d = some high)
      (hcode' : hexCode? a' b' c' d' = some low) :
      WritesPoint n ['\\', 'u', a, b, c, d, '\\', 'u', a', b', c', d']

/-- A code point beyond the first ones is the pair of its halves. -/
theorem joinPair_halves (hlow : 0x10000 ≤ n) (hn : n < 0x110000) :
    isHigh (0xD800 + (n - 0x10000) / 0x400) = true ∧ isLow (0xDC00 + (n - 0x10000) % 0x400) = true
      ∧ joinPair (0xD800 + (n - 0x10000) / 0x400) (0xDC00 + (n - 0x10000) % 0x400) = n := by
  refine ⟨isHigh_iff.mpr ?_, isLow_iff.mpr ?_, ?_⟩
  · omega
  · omega
  · unfold joinPair
    omega

theorem writesPoint_writePoint (hn : n < 0x110000) : WritesPoint n (writePoint n) := by
  have hletter (l : Char) {k : Nat} (hk : n = k) (hl : escaped? l = some (Char.ofNat k))
      (hlt : k < 0x80) : WritesPoint n ['\\', l] :=
    hk ▸ .letter l hl hlt
  unfold writePoint
  split_ifs with hquote hbackslash hfeed hreturn htab hback hform hplain hfirst
  · exact hletter '"' hquote rfl (by decide)
  · exact hletter '\\' hbackslash rfl (by decide)
  · exact hletter 'n' hfeed rfl (by decide)
  · exact hletter 'r' hreturn rfl (by decide)
  · exact hletter 't' htab rfl (by decide)
  · exact hletter 'b' hback rfl (by decide)
  · exact hletter 'f' hform rfl (by decide)
  · have hself : (Char.ofNat n).toNat = n := toNat_ofNat (.inl (by omega))
    refine .plain _ ⟨hself.symm ▸ hplain.1, fun h => hquote ?_, fun h => hbackslash ?_⟩
      (by omega) rfl
    · rw [← hself, h]
    · rw [← hself, h]
  · obtain ⟨a, b, c, d, hescape, hcode⟩ := exists_codeEscape hfirst
    rw [hescape]
    exact .code a b c d hcode
  · obtain ⟨hhigh, hlow, hjoin⟩ := joinPair_halves (Nat.not_lt.mp hfirst) hn
    obtain ⟨a, b, c, d, hescape, hcode⟩ :=
      exists_codeEscape (Nat.lt_trans (isHigh_iff.mp hhigh).2 (by decide))
    obtain ⟨a', b', c', d', hescape', hcode'⟩ :=
      exists_codeEscape (Nat.lt_trans (isLow_iff.mp hlow).2 (by decide))
    rw [hescape, hescape']
    exact .pair a b c d a' b' c' d' _ _ hhigh hlow hjoin hcode hcode'

/-- Half of a pair is written with its code. -/
theorem exists_writePoint_of_isHalf (h : isHalf n = true) :
    ∃ a b c d, writePoint n = ['\\', 'u', a, b, c, d] ∧ hexCode? a b c d = some n := by
  rw [isHalf_iff] at h
  have hwrites := writesPoint_writePoint (n := n) (by omega)
  generalize writePoint n = w at hwrites
  cases hwrites with
  | letter l hl hn => omega
  | plain c hc hn hself => omega
  | code a b c d hcode => exact ⟨a, b, c, d, rfl, hcode⟩
  | pair a b c d a' b' c' d' high low hhigh hlow hn =>
      have hle := le_joinPair high low
      omega

/-- Only a second half is written with its escape in front. -/
theorem goesOnLow_of_startsLow (hps : ∀ n ∈ ps, n < 0x110000)
    (h : StartsLow (ps.flatMap writePoint)) : goesOnLow ps = true := by
  obtain ⟨a, b, c, d, r, k, hs, hk, hlow⟩ := h
  cases ps with
  | nil => cases hs
  | cons n ps =>
      rw [List.flatMap_cons] at hs
      have hwrites := writesPoint_writePoint (hps n List.mem_cons_self)
      generalize writePoint n = w at hwrites hs
      cases hwrites with
      | letter l hl hn =>
          obtain ⟨rfl, -⟩ := List.cons.inj (List.cons.inj hs).2
          cases hl
      | plain c' hc hn hself => exact absurd (List.cons.inj hs).1 hc.2.2
      | code a' b' c' d' hcode =>
          simp only [List.cons_append, List.cons.injEq, true_and] at hs
          obtain ⟨rfl, rfl, rfl, rfl, -⟩ := hs
          obtain rfl := Option.some.inj (hcode.symm.trans hk)
          exact hlow
      | pair a₁ b₁ c₁ d₁ a₂ b₂ c₂ d₂ high low hhigh hlow' hn hcode hcode' =>
          simp only [List.cons_append, List.cons.injEq, true_and] at hs
          obtain ⟨rfl, rfl, rfl, rfl, -⟩ := hs
          obtain rfl := Option.some.inj (hcode.symm.trans hk)
          rw [isLow_iff] at hlow
          rw [isHigh_iff] at hhigh
          omega

/-- What is written for a code point spells the characters that hold it. -/
theorem WritesPoint.spells_append {w : List Char} (hw : WritesPoint n w)
    (hpair : ¬ (isHigh n = true ∧ StartsLow s)) (h : Spells s t) :
    Spells (w ++ s) (charsOf n ++ t) := by
  cases hw with
  | letter l hl hn =>
      rw [charsOf_ascii n hn]
      exact .letter l hl h
  | plain c hc hn hself =>
      rw [charsOf_ascii n hn, ← hself]
      exact .plain c hc h
  | code a b c d hcode => exact .code a b c d hcode hpair h
  | pair a b c d a' b' c' d' high low hhigh hlow hn hcode hcode' =>
      rw [← hn]
      exact .pair a b c d a' b' c' d' hcode hhigh hcode' hlow h

/-- What is written for code points spells them with every pair joined. -/
theorem spells_writePoints (hps : ∀ n ∈ ps, n < 0x110000) :
    Spells (ps.flatMap writePoint) ((joinPairs ps).flatMap charsOf) := by
  fun_induction joinPairs ps with
  | case1 high low ps hpair ih =>
      rw [Bool.and_eq_true, isHigh_iff, isLow_iff] at hpair
      simp only [List.forall_mem_cons] at hps
      obtain ⟨a, b, c, d, hw, hcode⟩ :=
        exists_writePoint_of_isHalf (isHalf_iff.mpr ⟨hpair.1.1, by omega⟩)
      obtain ⟨a', b', c', d', hw', hcode'⟩ :=
        exists_writePoint_of_isHalf (isHalf_iff.mpr ⟨by omega, hpair.2.2⟩)
      rw [List.flatMap_cons, List.flatMap_cons, hw, hw', List.flatMap_cons]
      exact .pair a b c d a' b' c' d' hcode (isHigh_iff.mpr hpair.1) hcode'
        (isLow_iff.mpr hpair.2) (ih hps.2.2)
  | case2 n m ps hpair ih =>
      rw [List.forall_mem_cons] at hps
      rw [List.flatMap_cons, List.flatMap_cons]
      refine (writesPoint_writePoint hps.1).spells_append ?_ (ih hps.2)
      rintro ⟨hhigh, hlow⟩
      refine hpair ?_
      rw [hhigh, Bool.true_and]
      exact goesOnLow_of_startsLow hps.2 hlow
  | case3 ps hshort =>
      cases ps with
      | nil => exact .nil
      | cons n ps =>
          cases ps with
          | nil =>
              have hend : ¬ (isHigh n = true ∧ StartsLow []) := by
                rintro ⟨-, a, b, c, d, r, k, hs, -⟩
                cases hs
              exact (writesPoint_writePoint (hps n List.mem_cons_self)).spells_append hend .nil
          | cons m ps => exact absurd rfl (hshort n m ps)

/-- A written text is read as the settled text. -/
theorem readText_writePoints (s : String) (r : List Char) :
    readText ((toPoints s).flatMap writePoint ++ '"' :: r) = .ok (settled s.toList, r) :=
  readText_spells (spells_writePoints fun _ hn => lt_of_mem_points hn) r

/-- A character that is no stand-in can stand in front of code points: it is no half. -/
theorem points_cons_toNat {c : Char} (hc : isReserved c.toNat = false)
    (hps : ∀ n ∈ ps, n < 0x110000) (hjoin : joinPairs ps = ps) :
    c :: ps.flatMap charsOf = (c.toNat :: ps).flatMap charsOf
      ∧ (∀ n ∈ c.toNat :: ps, n < 0x110000) ∧ joinPairs (c.toNat :: ps) = c.toNat :: ps
      ∧ goesOnLow (c.toNat :: ps) = false := by
  refine ⟨?_, List.forall_mem_cons.mpr ⟨toNat_lt c, hps⟩, ?_, isLow_eq_false (isHalf_toNat c)⟩
  · rw [List.flatMap_cons, charsOf_toNat, hc, if_neg Bool.false_ne_true, List.singleton_append]
  · rw [joinPairs_cons (by simp [isHigh_eq_false (isHalf_toNat c)]), hjoin]

/-- What is spelled with characters that are no stand-ins are code points among which there is no
pair; they go on with a second half only where the spelling does. -/
theorem Spells.exists_points (h : Spells s t) (hs : ∀ c ∈ s, isReserved c.toNat = false) :
    ∃ ps, t = ps.flatMap charsOf ∧ (∀ n ∈ ps, n < 0x110000) ∧ joinPairs ps = ps
      ∧ (goesOnLow ps = true → StartsLow s) := by
  induction h with
  | nil => exact ⟨[], rfl, by simp, rfl, by simp [goesOnLow]⟩
  | plain c hc h ih =>
      rw [List.forall_mem_cons] at hs
      obtain ⟨ps, rfl, hps, hjoin, -⟩ := ih hs.2
      obtain ⟨htext, hlt, hjoin', hlow⟩ := points_cons_toNat hs.1 hps hjoin
      exact ⟨_, htext, hlt, hjoin', by simp [hlow]⟩
  | letter l hl h ih =>
      rename_i c s t
      simp only [List.forall_mem_cons] at hs
      obtain ⟨ps, rfl, hps, hjoin, -⟩ := ih hs.2.2
      have hc : isReserved c.toNat = false := by
        rw [escaped?.eq_def] at hl
        split at hl <;> first | (obtain rfl := Option.some.inj hl; decide) | cases hl
      obtain ⟨htext, hlt, hjoin', hlow⟩ := points_cons_toNat hc hps hjoin
      exact ⟨_, htext, hlt, hjoin', by simp [hlow]⟩
  | code a b c d hn hpair h ih =>
      rename_i n s t
      simp only [List.forall_mem_cons] at hs
      obtain ⟨ps, rfl, hps, hjoin, hgoes⟩ := ih hs.2.2.2.2.2.2
      have hlt := lt_of_hexCode? hn
      refine ⟨n :: ps, List.flatMap_cons.symm, List.forall_mem_cons.mpr ⟨by omega, hps⟩, ?_, ?_⟩
      · rw [joinPairs_cons fun hboth => hpair ⟨hboth.1, hgoes hboth.2⟩, hjoin]
      · exact fun hlow => ⟨a, b, c, d, s, n, rfl, hn, hlow⟩
  | pair a b c d a' b' c' d' hn hhigh hm hlow h ih =>
      rename_i n m s t
      simp only [List.forall_mem_cons] at hs
      obtain ⟨ps, rfl, hps, hjoin, -⟩ := ih hs.2.2.2.2.2.2.2.2.2.2.2.2
      have hle := le_joinPair n m
      have hhalf : isHalf (joinPair n m) = false := by
        rw [Bool.eq_false_iff, ne_eq, isHalf_iff]
        omega
      refine ⟨joinPair n m :: ps, List.flatMap_cons.symm,
        List.forall_mem_cons.mpr ⟨joinPair_lt hhigh hlow, hps⟩, ?_, ?_⟩
      · rw [joinPairs_cons (by simp [isHigh_eq_false hhalf]), hjoin]
      · intro hgoes
        rw [goesOnLow, List.head?_cons, Option.any_some, isLow_eq_false hhalf] at hgoes
        cases hgoes

/-- What is spelled with characters that are no stand-ins is settled. -/
theorem Spells.isSettled (h : Spells s t) (hs : ∀ c ∈ s, isReserved c.toNat = false) :
    IsSettled t := by
  obtain ⟨ps, rfl, hps, hjoin, -⟩ := h.exists_points hs
  exact isSettled_flatMap hps hjoin

end DocTags.Json
