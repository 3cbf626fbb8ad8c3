import Mathlib

/-! Rules for steps that may fail: what a step gives, and what is made of it. -/
namespace Spork

/-- A step gives something, and what it gives is as said. -/
def Gives {α : Type*} (x : Option α) (p : α → Prop) : Prop := ∃ a, x = some a ∧ p a

namespace Gives

universe u

variable {α β : Type u} {x : Option α} {p q : α → Prop}

theorem pure {a : α} (h : p a) : Gives (some a) p := ⟨a,rfl,h⟩

/-- What the next step makes of what a step gives. -/
theorem bind {f : α → Option β} {r : β → Prop} (hx : Gives x p) (hf : ∀ a, p a → Gives (f a) r) :
    Gives (x >>= f) r := by
  obtain ⟨a,rfl,ha⟩ := hx
  exact hf a ha

theorem map {f : α → β} {r : β → Prop} (hx : Gives x p) (hf : ∀ a, p a → r (f a)) :
    Gives (x.map f) r := by
  obtain ⟨a,rfl,ha⟩ := hx
  exact ⟨f a,rfl,hf a ha⟩

theorem mono (hx : Gives x p) (hpq : ∀ a, p a → q a) : Gives x q := by
  obtain ⟨a,rfl,ha⟩ := hx
  exact ⟨a,rfl,hpq a ha⟩

theorem isSome (hx : Gives x p) : x.isSome = true := by
  obtain ⟨a,rfl,-⟩ := hx
  rfl

end Gives
end Spork
