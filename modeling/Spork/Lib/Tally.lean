import Mathlib

/-! A list with each thing's number beside it: the first of its kind, the second, and so on.
However often a thing comes, no thing and number come twice. -/
namespace Spork
namespace Tally

variable {β : Type*} [DecidableEq β]

/-- Each thing with how often it has come, counting on from how often it had. -/
def tally (seen : β → ℕ) : List β → List (β × ℕ)
  | [] => []
  | b :: bs => (b,seen b+1) :: tally (Function.update seen b (seen b+1)) bs

theorem mem_tally [BEq β] [LawfulBEq β] {seen : β → ℕ} {bs : List β} {b : β} {n : ℕ} :
    (b,n) ∈ tally seen bs ↔ seen b < n ∧ n ≤ seen b+bs.count b := by
  induction bs generalizing seen with
  | nil =>
    simp only [tally,List.not_mem_nil,List.count_nil,false_iff]
    omega
  | cons a bs ih =>
    rw [tally,List.mem_cons,ih]
    by_cases hab : b = a
    · subst hab
      rw [Function.update_self,List.count_cons_self]
      simp only [Prod.mk.injEq,true_and]
      omega
    · rw [Function.update_of_ne hab,List.count_cons_of_ne (Ne.symm hab)]
      simp only [Prod.mk.injEq,hab,false_and,false_or]

theorem nodup_tally (seen : β → ℕ) (bs : List β) : (tally seen bs).Nodup := by
  induction bs generalizing seen with
  | nil => exact List.nodup_nil
  | cons b bs ih =>
    rw [tally,List.nodup_cons]
    refine ⟨?_,ih _⟩
    intro h
    have hless := (mem_tally.mp h).1
    simp at hless

@[simp] theorem length_tally (seen : β → ℕ) (bs : List β) : (tally seen bs).length = bs.length := by
  induction bs generalizing seen with
  | nil => rfl
  | cons b bs ih => simp [tally,ih]

end Tally
end Spork
