import Mathlib

/-! Rules for loops written as folds: what every turn keeps the loop keeps, and what a
turn brings about and later turns leave stands at the end. -/
namespace Spork
namespace Loop

variable {σ ι : Type*} {step : σ → ι → σ}

/-- A loop keeps what each of its turns keeps. -/
theorem foldl_keeps (inv : σ → Prop) {xs : List ι} {s : σ} (hs : inv s)
    (hstep : ∀ t, ∀ i ∈ xs, inv t → inv (step t i)) : inv (xs.foldl step s) := by
  induction xs generalizing s with
  | nil => exact hs
  | cons x xs ih =>
    exact ih (hstep s x (by simp) hs) fun t i hi => hstep t i (List.mem_cons_of_mem x hi)

/-- A loop brings about for each of its items what the item's turn does, when later
turns, each a `next` of the one before, leave it. -/
theorem foldl_all (inv : σ → Prop) (next : σ → σ → Prop) (done : ι → σ → Prop) {xs : List ι} {s : σ}
    (hrefl : ∀ t, next t t) (htrans : ∀ t₁ t₂ t₃, next t₁ t₂ → next t₂ t₃ → next t₁ t₃)
    (hleave : ∀ t t' i, next t t' → done i t → done i t') (hs : inv s)
    (hstep : ∀ t, ∀ i ∈ xs, inv t → inv (step t i) ∧ next t (step t i) ∧ done i (step t i)) :
    inv (xs.foldl step s) ∧ next s (xs.foldl step s) ∧ ∀ i ∈ xs, done i (xs.foldl step s) := by
  induction xs generalizing s with
  | nil => exact ⟨hs,hrefl s,by simp⟩
  | cons x xs ih =>
    obtain ⟨hinv,hnext,hdone⟩ := hstep s x (by simp) hs
    obtain ⟨hrest,hafter,hall⟩ := ih hinv fun t i hi => hstep t i (List.mem_cons_of_mem x hi)
    refine ⟨hrest,htrans _ _ _ hnext hafter,fun i hi => ?_⟩
    rcases List.mem_cons.mp hi with rfl | hi
    · exact hleave _ _ _ hafter hdone
    · exact hall i hi

end Loop
end Spork
