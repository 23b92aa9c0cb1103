import Mathlib.Data.Int.Notation
import Mathlib.Data.List.Induction

/-! # Decimal numerals

The grammar of unsigned and signed numerals with their values, apart from any parser.
A numeral has one value, and the usual text of a number is a numeral of it.
-/
namespace Librarian.Foundation

/-- One or more ASCII digits, the most significant first. -/
inductive Numeral : List Char → ℕ → Prop
  | digit {c : Char} (h : c.isDigit = true) : Numeral [c] (c.toNat - '0'.toNat)
  | snoc {ds : List Char} {n : ℕ} {c : Char} (front : Numeral ds n) (h : c.isDigit = true) :
      Numeral (ds ++ [c]) (10 * n + (c.toNat - '0'.toNat))

/-- A numeral behind at most one sign. -/
inductive SignedNumeral : List Char → ℤ → Prop
  | plain {ds : List Char} {n : ℕ} (h : Numeral ds n) : SignedNumeral ds n
  | plus {ds : List Char} {n : ℕ} (h : Numeral ds n) : SignedNumeral ('+' :: ds) n
  | minus {ds : List Char} {n : ℕ} (h : Numeral ds n) : SignedNumeral ('-' :: ds) (-n)

variable {ds : List Char} {n : ℕ} {v : ℤ} {c : Char}

namespace Numeral

theorem ne_nil (h : Numeral ds n) : ds ≠ [] := by
  cases h <;> simp

theorem isDigit (h : Numeral ds n) : ∀ c ∈ ds, c.isDigit = true := by
  induction h with
  | digit hc => simpa using hc
  | snoc front hc ih =>
    intro c hmem
    rcases List.mem_append.mp hmem with hfront | hlast
    · exact ih c hfront
    · rw [List.mem_singleton.mp hlast]
      exact hc

theorem value (h : Numeral ds n) : n = Nat.ofDigitChars 10 ds 0 := by
  induction h with
  | digit hc => simp [Nat.ofDigitChars_cons]
  | snoc front hc ih => rw [Nat.ofDigitChars_append, Nat.ofDigitChars_cons, Nat.ofDigitChars_nil, ← ih]

/-- Every non-empty list of digits is a numeral. -/
theorem of_digits (hne : ds ≠ []) (hds : ∀ c ∈ ds, c.isDigit = true) :
    Numeral ds (Nat.ofDigitChars 10 ds 0) := by
  induction ds using List.reverseRecOn with
  | nil => exact absurd rfl hne
  | append_singleton front c ih =>
    have hc : c.isDigit = true := hds c (by simp)
    rw [Nat.ofDigitChars_append, Nat.ofDigitChars_cons, Nat.ofDigitChars_nil]
    by_cases hfront : front = []
    · subst hfront
      rw [Nat.ofDigitChars_nil, Nat.mul_zero, Nat.zero_add, List.nil_append]
      exact .digit hc
    · exact .snoc (ih hfront fun c hmem => hds c (List.mem_append_left _ hmem)) hc

theorem toDigits (n : ℕ) : Numeral (Nat.toDigits 10 n) n := by
  have h : Numeral (Nat.toDigits 10 n) (Nat.ofDigitChars 10 (Nat.toDigits 10 n) 0) :=
    of_digits Nat.toDigits_ne_nil fun c hc => Nat.isDigit_of_mem_toDigits (by decide) (by decide) hc
  rwa [Nat.ofDigitChars_ten_toDigits] at h

end Numeral

namespace SignedNumeral

theorem toString (v : ℤ) : SignedNumeral (toString v).toList v := by
  rw [Int.toString_eq_repr]
  cases v with
  | ofNat n =>
    have h : (Int.repr (.ofNat n)).toList = Nat.toDigits 10 n := Nat.toList_repr
    rw [h]
    exact .plain (.toDigits n)
  | negSucc n =>
    have h : ("-" ++ (n + 1).repr).toList = '-' :: Nat.toDigits 10 (n + 1) := by
      rw [String.toList_append, Nat.toList_repr]
      rfl
    change SignedNumeral ("-" ++ (n + 1).repr).toList (.negSucc n)
    rw [h, Int.negSucc_eq]
    exact .minus (.toDigits (n + 1))

end SignedNumeral
end Librarian.Foundation
