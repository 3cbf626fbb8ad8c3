import Mathlib

/-! A query that reads on from its own rows, a turn at a time (`WITH RECURSIVE`). -/
namespace Spork
namespace Walk

variable {α β : Type*}

/-- The rows a turn adds. -/
def level (next : α → List α) : ℕ → List α → List α
  | 0, rows => rows
  | n+1, rows => (level next n rows).flatMap next

/-- The rows of so many turns. -/
def rows (next : α → List α) (n : ℕ) (start : List α) : List α := (List.range n).flatMap fun i => level next i start

variable {next : α → List α} {next' : β → List β}

theorem level_nil (n : ℕ) : level next n [] = [] := by
  induction n with
  | zero => rfl
  | succ n ih => rw [level,ih,List.flatMap_nil]

theorem level_append (n : ℕ) (as bs : List α) : level next n (as++bs) = level next n as++level next n bs := by
  induction n with
  | zero => rfl
  | succ n ih => rw [level,ih,List.flatMap_append,level,level]

/-- Each row is read on from by itself. -/
theorem level_each (n : ℕ) (as : List α) : level next n as = as.flatMap fun a => level next n [a] := by
  induction as with
  | nil => exact level_nil n
  | cons a as ih => rw [← List.singleton_append,level_append,ih,List.flatMap_append,List.flatMap_singleton]

/-- What every step keeps holds of every row. -/
theorem level_keeps {P : ℕ → α → Prop} (hstep : ∀ n a, P n a → ∀ b ∈ next a, P (n+1) b) {as : List α}
    (hstart : ∀ a ∈ as, P 0 a) (n : ℕ) : ∀ a ∈ level next n as, P n a := by
  induction n with
  | zero => exact hstart
  | succ n ih =>
    intro b hb
    obtain ⟨a,ha,hnext⟩ := List.mem_flatMap.mp hb
    exact hstep n a (ih a ha) b hnext

/-- Two queries whose steps agree have the same rows. -/
theorem level_map {P : ℕ → α → Prop} (hkeeps : ∀ n a, P n a → ∀ b ∈ next a, P (n+1) b) (f : α → β)
    (hstep : ∀ n a, P n a → next' (f a) = (next a).map f) {as : List α} (hstart : ∀ a ∈ as, P 0 a) (n : ℕ) :
    level next' n (as.map f) = (level next n as).map f := by
  induction n with
  | zero => rfl
  | succ n ih =>
    rw [level,ih,level,List.flatMap_map,List.map_flatMap]
    exact List.flatMap_congr fun a ha => hstep n a (level_keeps hkeeps hstart n a ha)

end Walk
end Spork
