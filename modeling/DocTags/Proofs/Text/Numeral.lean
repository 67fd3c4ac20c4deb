import DocTags.Decimal.Basic
import DocTags.Proofs.Pattern.Search

/-!
# Written numbers

A number is written with ASCII digits. What holds of the ten digits holds of all its characters.
-/

namespace DocTags

open Pattern

/-- A number as it is written: ASCII digits, at least one. -/
structure Numeral where
  digits : List Char
  ne_nil : digits ≠ []
  isDigit : ∀ c ∈ digits, c.isDigit = true

namespace Numeral

/-- The number that the digits stand for. -/
def value (n : Numeral) : Nat :=
  Decimal.ofDigits (n.digits.map fun c => c.toNat - 48)

/-- The number has no more digits than can be read. -/
def IsShort (n : Numeral) : Prop :=
  n.digits.length ≤ Decimal.maxDigits

end Numeral

/-- What holds of the ten digits holds of every ASCII digit. -/
theorem forall_isDigit {P : Char → Prop} (h : ∀ c ∈ "0123456789".toList, P c) {c : Char}
    (hc : c.isDigit = true) : P c := by
  obtain ⟨hlo, hhi⟩ := Char.isDigit_iff_toNat.mp hc
  have hcases : ∀ k < 10, Char.ofNat (48 + k) ∈ "0123456789".toList := by decide
  have hk := hcases (c.toNat - 48) (by simp at hlo hhi; omega)
  have hn : 48 + (c.toNat - 48) = c.toNat := by simp at hlo; omega
  rw [hn, Char.ofNat_toNat] at hk
  exact h c hk

namespace Numeral

/-- A written number starts with a digit. -/
theorem stops {accepts : Char → Bool} (h : ∀ c ∈ "0123456789".toList, accepts c = false)
    (n : Numeral) (s : List Char) : Stops accepts (n.digits ++ s) := by
  apply stops_append_of_ne_nil n.ne_nil
  intro c hc
  exact forall_isDigit h (n.isDigit c hc)

theorem forall_mem {P : Char → Prop} (h : ∀ c ∈ "0123456789".toList, P c) (n : Numeral) :
    ∀ c ∈ n.digits, P c :=
  fun c hc => forall_isDigit h (n.isDigit c hc)

theorem not_mem {x : Char} (h : x ∉ "0123456789".toList) (n : Numeral) : x ∉ n.digits :=
  fun hx => forall_mem (P := (· ≠ x)) (fun _ hc he => h (he ▸ hc)) n x hx rfl

end Numeral

/-- A written number is read by any class of characters with the ten digits in it. -/
theorem reads_numeral {κ : Type} (accepts : Char → Bool)
    (hacc : ∀ c ∈ "0123456789".toList, accepts c = true) (n : Numeral) {s : List Char}
    (hs : Stops accepts s) : (chars1 accepts : Pattern κ).Reads (n.digits ++ s) s [] :=
  reads_chars1 n.ne_nil (n.forall_mem hacc) hs

end DocTags
