import Mathlib

/-! Requests that may be refused: steps of one that follow each other, and requests
answered one after another, each from the state the one before left. -/
namespace Spork
namespace Requests

variable {ε α β σ ι ρ : Type}

/-- What a step and the next made came of what the step gave. -/
theorem bind_ok {x : Except ε α} {f : α → Except ε β} {b : β} (h : (x >>= f) = .ok b) :
    ∃ a, x = .ok a ∧ f a = .ok b := by
  cases x with
  | error e => cases h
  | ok a => exact ⟨a,rfl,h⟩

/-- A step gives something that passes a test. -/
def passes (x : Except ε α) (test : α → Bool) : Bool := x.toOption.any test

theorem passes_ok {x : Except ε α} {test : α → Bool} (h : passes x test = true) : ∃ a, x = .ok a ∧ test a = true := by
  cases x with
  | error e => cases h
  | ok a => exact ⟨a,rfl,h⟩

variable (handle : σ → ι → Except ε (ρ × σ))

/-- The answers to requests in turn, and the state they leave, where none is refused. -/
def answerAll : σ → List ι → Except ε (List ρ × σ)
  | s, [] => .ok ([],s)
  | s, i :: is => do
    let (r,s') ← handle s i
    let (rs,s'') ← answerAll s' is
    return (r :: rs,s'')

variable {handle} {s s' : σ} {i : ι} {is : List ι} {rs : List ρ}

theorem answerAll_nil (h : answerAll handle s [] = .ok (rs,s')) : rs = [] ∧ s' = s := by
  cases h
  exact ⟨rfl,rfl⟩

theorem answerAll_cons (h : answerAll handle s (i :: is) = .ok (rs,s')) : ∃ r s₁ rest,
    handle s i = .ok (r,s₁) ∧ answerAll handle s₁ is = .ok (rest,s') ∧ rs = r :: rest := by
  obtain ⟨⟨r,s₁⟩,hone,h⟩ := bind_ok h
  obtain ⟨⟨rest,s₂⟩,hall,h⟩ := bind_ok h
  cases h
  exact ⟨r,s₁,rest,hone,hall,rfl⟩

theorem answerAll_of_cons {r : ρ} {s₁ : σ} (hone : handle s i = .ok (r,s₁))
    (hall : answerAll handle s₁ is = .ok (rs,s')) : answerAll handle s (i :: is) = .ok (r :: rs,s') := by
  rw [answerAll,hone]
  exact congrArg (fun x => x >>= fun out : List ρ × σ => pure (r :: out.1,out.2)) hall

/-- The first answers of a run are those of a run of its first requests. -/
theorem answerAll_take (h : answerAll handle s is = .ok (rs,s')) (n : ℕ) :
    ∃ s₁, answerAll handle s (is.take n) = .ok (rs.take n,s₁) := by
  induction is generalizing s rs n with
  | nil =>
    obtain ⟨rfl,rfl⟩ := answerAll_nil h
    exact ⟨_,by rw [List.take_nil,List.take_nil]; rfl⟩
  | cons i is ih =>
    obtain ⟨r,s₁,rest,hone,hall,rfl⟩ := answerAll_cons h
    cases n with
    | zero => exact ⟨s,rfl⟩
    | succ n =>
      obtain ⟨s₂,htake⟩ := ih hall n
      exact ⟨s₂,answerAll_of_cons hone htake⟩

end Requests
end Spork
