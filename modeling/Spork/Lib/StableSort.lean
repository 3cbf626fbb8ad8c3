import Mathlib

/-! A stable sort leaves what ties in the order it came in, so two lists of the same
things whose ties come in the same order sort to one list. -/
namespace Spork
namespace StableSort

variable {α : Type*} (r : α → α → Prop) [DecidableRel r]

/-- What ties in `r` comes in the order `t`. -/
def InOrder (t : α → α → Prop) (xs : List α) : Prop :=
  xs.Pairwise fun a b => r a b → r b a → t a b

variable {r}

theorem orderedInsert_inOrder [Std.Total r] [IsTrans α r] {t : α → α → Prop} {a : α} {xs : List α}
    (hsorted : xs.Pairwise r) (hxs : InOrder r t xs) (ha : ∀ b ∈ xs, r a b → r b a → t a b) :
    InOrder r t (xs.orderedInsert r a) := by
  induction xs with
  | nil => exact List.pairwise_singleton _ a
  | cons x xs ih =>
    obtain ⟨hx,hrest⟩ := List.pairwise_cons.mp hxs
    by_cases hle : r a x
    · rw [List.orderedInsert_cons_of_le r xs hle]
      exact List.pairwise_cons.mpr ⟨ha,hxs⟩
    · rw [List.orderedInsert_of_not_le r xs hle]
      refine List.pairwise_cons.mpr ⟨?_,ih hsorted.of_cons hrest
        fun b hb => ha b (List.mem_cons_of_mem x hb)⟩
      intro b hb hxb hbx
      rcases (List.mem_orderedInsert r).mp hb with rfl | hb
      · exact absurd hbx hle
      · exact hx b hb hxb hbx

/-- Sorting keeps ties in order. -/
theorem insertionSort_inOrder [Std.Total r] [IsTrans α r] {t : α → α → Prop} {xs : List α}
    (h : InOrder r t xs) : InOrder r t (xs.insertionSort r) := by
  induction xs with
  | nil => exact List.Pairwise.nil
  | cons x xs ih =>
    obtain ⟨hx,hxs⟩ := List.pairwise_cons.mp h
    rw [List.insertionSort_cons]
    apply orderedInsert_inOrder (List.pairwise_insertionSort r xs) (ih hxs)
    intro b hb
    exact hx b ((List.mem_insertionSort r).mp hb)

/-- The same things with their ties in the same order sort to one list. -/
theorem insertionSort_eq [Std.Total r] [IsTrans α r] {t : α → α → Prop}
    (ht : ∀ a b, t a b → ¬t b a) {xs ys : List α} (hperm : xs.Perm ys) (hxs : InOrder r t xs)
    (hys : InOrder r t ys) : xs.insertionSort r = ys.insertionSort r := by
  have hsame : (xs.insertionSort r).Perm (ys.insertionSort r) :=
    ((List.perm_insertionSort r xs).trans hperm).trans (List.perm_insertionSort r ys).symm
  have hx := (List.pairwise_insertionSort r xs).and (insertionSort_inOrder hxs)
  have hy := (List.pairwise_insertionSort r ys).and (insertionSort_inOrder hys)
  refine hsame.eq_of_pairwise ?_ hx hy
  rintro a b - - ⟨hab,htab⟩ ⟨hba,htba⟩
  exact absurd (htba hba hab) (ht a b (htab hab hba))

end StableSort
end Spork
