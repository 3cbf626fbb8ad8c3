import Mathlib

/-! Products of 64-bit numbers, and sums and products of 32-bit ones, as a build makes them:
one that checks for overflow panics where the result does not fit, and one that doesn't
wraps it. -/
namespace Spork
namespace Words

/-- It is a 64-bit number. -/
def Fits (x : ℤ) : Prop := -2^63 ≤ x ∧ x < 2^63

instance (x : ℤ) : Decidable (Fits x) := inferInstanceAs (Decidable (_ ∧ _))

/-- The 64-bit number it is a multiple of 2^64 away from. -/
def wrap (x : ℤ) : ℤ := x.bmod (2^64)

/-- What running something comes to. -/
inductive Outcome (α : Type)
  | panicked
  | returned (a : α)
  deriving DecidableEq, Repr

def Outcome.bind {α β : Type} (x : Outcome α) (f : α → Outcome β) : Outcome β :=
  match x with
  | .panicked => .panicked
  | .returned a => f a

def Outcome.map {α β : Type} (f : α → β) (x : Outcome α) : Outcome β := x.bind fun a => .returned (f a)

def mul (checks : Bool) (a b : ℤ) : Outcome ℤ :=
  if Fits (a*b) then .returned (a*b) else if checks then .panicked else .returned (wrap (a*b))

/-- It is a 32-bit number. -/
def Fits32 (x : ℤ) : Prop := -2^31 ≤ x ∧ x < 2^31

instance (x : ℤ) : Decidable (Fits32 x) := inferInstanceAs (Decidable (_ ∧ _))

def wrap32 (x : ℤ) : ℤ := x.bmod (2^32)

/-- The result of an operation on 32-bit numbers. -/
def word (checks : Bool) (x : ℤ) : Outcome ℤ :=
  if Fits32 x then .returned x else if checks then .panicked else .returned (wrap32 x)

section

variable {α β : Type} {a b x : ℤ} {checks : Bool}

@[simp] theorem bind_returned (a : α) (f : α → Outcome β) : (Outcome.returned a).bind f = f a := rfl

@[simp] theorem bind_panicked (f : α → Outcome β) : (Outcome.panicked : Outcome α).bind f = .panicked := rfl

@[simp] theorem map_returned (f : α → β) (a : α) : (Outcome.returned a).map f = .returned (f a) := rfl

@[simp] theorem map_panicked (f : α → β) : (Outcome.panicked : Outcome α).map f = .panicked := rfl

theorem of_map {f : α → β} {x : Outcome α} {b : β} (h : x.map f = .returned b) : ∃ a, x = .returned a ∧ f a = b := by
  cases x with
  | panicked => cases h
  | returned a =>
    cases h
    exact ⟨a,rfl,rfl⟩

theorem wrap_of_fits (h : Fits x) : wrap x = x := Int.bmod_eq_of_le (by unfold Fits at h; omega) (by unfold Fits at h; omega)

/-- A product of what was wrapped, wrapped, is the product wrapped. -/
theorem mul_wrap (h : checks = true → Fits a ∧ Fits (a*b)) : mul checks (wrap a) b = .returned (wrap (a*b)) := by
  cases checks with
  | true =>
    obtain ⟨ha,hab⟩ := h rfl
    rw [wrap_of_fits ha,wrap_of_fits hab,mul,if_pos hab]
  | false =>
    have hwrap : wrap (wrap a*b) = wrap (a*b) := Int.bmod_mul_bmod
    unfold mul
    split
    · rename_i hfits
      rw [← hwrap,wrap_of_fits hfits]
    · rw [if_neg Bool.false_ne_true,hwrap]

theorem wrap32_of_fits (h : Fits32 x) : wrap32 x = x :=
  Int.bmod_eq_of_le (by unfold Fits32 at h; omega) (by unfold Fits32 at h; omega)

theorem fits32_wrap (x : ℤ) : Fits32 (wrap32 x) := by
  have hlow := Int.le_bmod (x := x) (m := 2^32) (by norm_num)
  have hhigh := Int.bmod_lt (x := x) (m := 2^32) (by norm_num)
  unfold Fits32 wrap32
  omega

/-- A result that fits is the result, in any build. -/
theorem word_of_fits (h : Fits32 x) : word checks x = .returned x := if_pos h

/-- A build that doesn't check wraps every result. -/
theorem word_false (x : ℤ) : word false x = .returned (wrap32 x) := by
  unfold word
  split
  · rename_i h
    rw [wrap32_of_fits h]
  · rfl

/-- What comes back fits, and in a build that checks is the result. -/
theorem of_word (h : word checks x = .returned a) : Fits32 a ∧ (checks = true → a = x) := by
  unfold word at h
  split at h
  · rename_i hfits
    cases h
    exact ⟨hfits,fun _ => rfl⟩
  · split at h
    · cases h
    · rename_i hchecks
      cases h
      exact ⟨fits32_wrap x,fun hc => absurd hc hchecks⟩

/-- A product that does not fit is where a build that checks panics. -/
theorem mul_panicked (h : ¬Fits (a*b)) : mul true a b = .panicked := by
  rw [mul,if_neg h,if_pos rfl]

end

end Words
end Spork
