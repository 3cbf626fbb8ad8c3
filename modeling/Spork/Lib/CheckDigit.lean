import Mathlib

/-! Digits weighted by two weights in turn. Zeros after the last add nothing, and where both
weights are coprime to the modulus no change of one digit goes unseen. -/
namespace Spork
namespace CheckDigit

/-- The digits weighted by one weight and the other in turn. -/
def alternate : ℕ → ℕ → List ℕ → ℕ
  | _, _, [] => 0
  | a, b, d :: ds => a*d+alternate b a ds

/-- Weights by the parity of a digit's place. -/
theorem alternate_zipIdx {α : Type*} (v : α → ℕ) (a b n : ℕ) (xs : List α) :
    ((xs.zipIdx n).map fun x => v x.1*if x.2%2 = 0 then a else b).sum =
      if n%2 = 0 then alternate a b (xs.map v) else alternate b a (xs.map v) := by
  induction xs generalizing n with
  | nil => simp [alternate]
  | cons x xs ih =>
    rw [List.zipIdx_cons,List.map_cons,List.sum_cons,ih]
    rcases Nat.mod_two_eq_zero_or_one n with hn | hn
    · have hnext : (n+1)%2 = 1 := by
        omega
      simp [hn,hnext,alternate,Nat.mul_comm]
    · have hnext : (n+1)%2 = 0 := by
        omega
      simp [hn,hnext,alternate,Nat.mul_comm]

theorem alternate_zeros (a b k : ℕ) (ds : List ℕ) : alternate a b (ds++List.replicate k 0) = alternate a b ds := by
  induction ds generalizing a b with
  | nil =>
    induction k generalizing a b with
    | zero => rfl
    | succ k ih => simpa [List.replicate_succ,alternate] using ih b a
  | cons d ds ih => rw [List.cons_append,alternate,alternate,ih]

/-- Digits that differ in one place and weigh the same are the same. -/
theorem alternate_changed {m : ℕ} {a b : ℕ} (ha : m.Coprime a) (hb : m.Coprime b) {before after : List ℕ} {c d : ℕ}
    (h : alternate a b (before++c :: after) ≡ alternate a b (before++d :: after) [MOD m]) : c ≡ d [MOD m] := by
  induction before generalizing a b with
  | nil => exact (Nat.ModEq.add_right_cancel' _ h).cancel_left_of_coprime ha
  | cons x before ih => exact ih hb ha (Nat.ModEq.add_left_cancel' _ h)

end CheckDigit
end Spork
