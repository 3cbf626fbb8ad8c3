import Mathlib

/-! Sorting by a comparison that tells a list's things apart: the order they came in is
nothing to it. -/
namespace Spork
namespace Sorted

variable {α : Type*}

/-- A list sorted by a comparison, the least first. -/
def sortBy (cmp : α → α → Ordering) (xs : List α) : List α :=
  xs.insertionSort fun a b => (cmp a b).isLE = true

variable {cmp : α → α → Ordering} {xs ys : List α}

theorem mem_sortBy {a : α} : a ∈ sortBy cmp xs ↔ a ∈ xs := List.mem_insertionSort _

theorem sortBy_perm (cmp : α → α → Ordering) (xs : List α) : (sortBy cmp xs).Perm xs :=
  List.perm_insertionSort _ xs

theorem sortBy_sorted [Std.TransCmp cmp] (xs : List α) :
    (sortBy cmp xs).Pairwise fun a b => (cmp a b).isLE = true := by
  have htrans : IsTrans α fun a b => (cmp a b).isLE = true :=
    ⟨fun _ _ _ hab hbc => Std.TransCmp.isLE_trans hab hbc⟩
  have htotal : Std.Total fun a b => (cmp a b).isLE = true := by
    refine ⟨fun a b => ?_⟩
    have hswap : cmp b a = (cmp a b).swap := Std.OrientedCmp.eq_swap
    rw [hswap]
    cases cmp a b <;> decide
  exact List.pairwise_insertionSort _ xs

/-- The same things sort to one list. -/
theorem sortBy_eq [Std.TransCmp cmp] (hperm : xs.Perm ys)
    (happart : ∀ a ∈ xs, ∀ b ∈ xs, cmp a b = .eq → a = b) : sortBy cmp xs = sortBy cmp ys := by
  have hsame : (sortBy cmp xs).Perm (sortBy cmp ys) :=
    (sortBy_perm cmp xs).trans (hperm.trans (sortBy_perm cmp ys).symm)
  refine hsame.eq_of_pairwise (fun a b ha hb hab hba => ?_) (sortBy_sorted xs) (sortBy_sorted ys)
  have hb' : b ∈ xs := hperm.mem_iff.mpr (mem_sortBy.mp hb)
  exact happart a (mem_sortBy.mp ha) b hb' (Std.OrientedCmp.isLE_antisymm hab hba)

/-- What is kept of a list sorts as it stood in the list sorted. -/
theorem sortBy_filter [Std.TransCmp cmp] (happart : ∀ a ∈ xs, ∀ b ∈ xs, cmp a b = .eq → a = b)
    (p : α → Bool) : sortBy cmp (xs.filter p) = (sortBy cmp xs).filter p := by
  have hsame : (sortBy cmp (xs.filter p)).Perm ((sortBy cmp xs).filter p) :=
    (sortBy_perm cmp _).trans ((sortBy_perm cmp xs).filter p).symm
  have hsorted : ((sortBy cmp xs).filter p).Pairwise fun a b => (cmp a b).isLE = true :=
    (sortBy_sorted xs).filter p
  refine hsame.eq_of_pairwise (fun a b ha hb hab hba => ?_) (sortBy_sorted _) hsorted
  exact happart a (List.mem_of_mem_filter (mem_sortBy.mp ha)) b
    (mem_sortBy.mp (List.mem_of_mem_filter hb)) (Std.OrientedCmp.isLE_antisymm hab hba)

end Sorted
end Spork
