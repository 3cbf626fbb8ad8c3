import Mathlib

/-! What stands directly after what in a list, as elements are put in. -/
namespace Spork
namespace Beside

variable {α : Type*}

/-- What stands first stays first when something is put in further on. -/
theorem first_insert {s t : List α} {x a z : α} (h : [x] <+: s++a :: t) : [x] <+: s++a :: z :: t := by
  cases s with
  | nil => simpa using h
  | cons b s => simpa using h

/-- A pair stays a pair when something is put in after another element than its first. -/
theorem pair_insert {s t : List α} {x y a z : α} (hne : x ≠ a) (h : [x,y] <:+: s++a :: t) :
    [x,y] <:+: s++a :: z :: t := by
  induction s with
  | nil =>
    rcases List.infix_cons_iff.mp h with hhead | htail
    · exact absurd (List.cons_prefix_cons.mp hhead).1 hne
    · exact htail.trans (List.suffix_append [a,z] t).isInfix
  | cons b s ih =>
    rcases List.infix_cons_iff.mp h with hhead | htail
    · obtain ⟨rfl,hy⟩ := List.cons_prefix_cons.mp hhead
      exact (List.cons_prefix_cons.mpr ⟨rfl,first_insert hy⟩).isInfix
    · exact List.infix_cons_iff.mpr (.inr (ih htail))

/-- Put in after the first of its kind. -/
theorem insertIdx_after {p : α → Bool} {s t : List α} {a z : α} (hs : ∀ b ∈ s, p b = false) (ha : p a = true) :
    ∃ i, (s++a :: t).findIdx? p = some i ∧ (s++a :: t).insertIdx (i+1) z = s++a :: z :: t := by
  induction s with
  | nil => exact ⟨0,by simp [List.findIdx?_cons,ha],rfl⟩
  | cons b s ih =>
    obtain ⟨i,hfind,hput⟩ := ih fun c hc => hs c (List.mem_cons_of_mem b hc)
    refine ⟨i+1,?_,?_⟩
    · simp [List.findIdx?_cons,hs b List.mem_cons_self,hfind]
    · rw [List.cons_append,List.insertIdx_succ_cons,hput,List.cons_append]

end Beside
end Spork
