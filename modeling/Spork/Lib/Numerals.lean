import Mathlib

/-! Whole numbers as they are written in decimal, and what a run of digits counts. -/
namespace Spork
namespace Numerals

def digits (n : ℕ) : List Char := Nat.toDigits 10 n

/-- What a run of digits counts. -/
def value (s : List Char) : ℕ := Nat.ofDigitChars 10 s 0

@[simp] theorem value_digits (n : ℕ) : value (digits n) = n := Nat.ofDigitChars_ten_toDigits

theorem digits_injective {m n : ℕ} (h : digits m = digits n) : m = n := by
  have hvalue := congrArg value h
  simpa using hvalue

theorem isDigit_of_mem_digits {n : ℕ} {c : Char} (h : c ∈ digits n) : c.isDigit = true :=
  Nat.isDigit_of_mem_toDigits (by decide) (by decide) h

end Numerals
end Spork
