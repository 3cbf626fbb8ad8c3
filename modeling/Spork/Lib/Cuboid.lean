import Mathlib

/-! Boxes with their sides along the axes, in any number of dimensions, and
cutting one in two: what lies inside which box, and which boxes share no inner
point. -/
namespace Spork

/-- A box by its least corner and how far it reaches along each axis. -/
structure Cuboid (ι α : Type*) where
  corner : ι → α
  extent : ι → α

namespace Cuboid

variable {ι α : Type*} [AddCommGroup α] [LinearOrder α]

/-- All of `a` is inside `b`. -/
def Within (a b : Cuboid ι α) : Prop :=
  ∀ i, b.corner i ≤ a.corner i ∧ a.corner i+a.extent i ≤ b.corner i+b.extent i

/-- Along some axis one of the two ends before the other starts. -/
def Apart (a b : Cuboid ι α) : Prop :=
  ∃ i, a.corner i+a.extent i ≤ b.corner i ∨ b.corner i+b.extent i ≤ a.corner i

/-- The points strictly inside. -/
def interior (a : Cuboid ι α) : Set (ι → α) :=
  Set.univ.pi fun i => Set.Ioo (a.corner i) (a.corner i+a.extent i)

theorem Within.refl (a : Cuboid ι α) : a.Within a := fun _ => ⟨le_rfl,le_rfl⟩

theorem Within.trans {a b c : Cuboid ι α} (hab : a.Within b) (hbc : b.Within c) : a.Within c :=
  fun i => ⟨(hbc i).1.trans (hab i).1,(hab i).2.trans (hbc i).2⟩

theorem Apart.symm {a b : Cuboid ι α} (h : a.Apart b) : b.Apart a := by
  obtain ⟨i,h | h⟩ := h
  · exact ⟨i,Or.inr h⟩
  · exact ⟨i,Or.inl h⟩

/-- Parts of two boxes that are apart are apart. -/
theorem Apart.mono {a b s t : Cuboid ι α} (h : s.Apart t) (ha : a.Within s) (hb : b.Within t) :
    a.Apart b := by
  obtain ⟨i,h | h⟩ := h
  · exact ⟨i,Or.inl ((ha i).2.trans (h.trans (hb i).1))⟩
  · exact ⟨i,Or.inr ((hb i).2.trans (h.trans (ha i).1))⟩

theorem Apart.disjoint_interior {a b : Cuboid ι α} (h : a.Apart b) :
    Disjoint a.interior b.interior := by
  rw [Set.disjoint_left]
  intro p hpa hpb
  obtain ⟨i,h⟩ := h
  have ha := hpa i trivial
  have hb := hpb i trivial
  rcases h with h | h
  · exact absurd (ha.2.trans_le h) (not_lt_of_gt hb.1)
  · exact absurd (hb.2.trans_le h) (not_lt_of_gt ha.1)

section Cut

variable [DecidableEq ι]

/-- What is left of `a` below a cut across axis `i`, so far along it. -/
def near (a : Cuboid ι α) (i : ι) (d : α) : Cuboid ι α where
  corner := a.corner
  extent := Function.update a.extent i d

/-- What is left of `a` beyond the cut. -/
def far (a : Cuboid ι α) (i : ι) (d : α) : Cuboid ι α where
  corner := Function.update a.corner i (a.corner i+d)
  extent := Function.update a.extent i (a.extent i-d)

theorem near_within [IsOrderedAddMonoid α] (a : Cuboid ι α) {i : ι} {d : α} (hd : d ≤ a.extent i) :
    (a.near i d).Within a := by
  intro j
  refine ⟨le_rfl,?_⟩
  by_cases hj : j = i
  · subst j
    simpa [near] using hd
  · simp [near,hj]

theorem far_within [IsOrderedAddMonoid α] (a : Cuboid ι α) {i : ι} {d : α} (hd : 0 ≤ d) :
    (a.far i d).Within a := by
  intro j
  by_cases hj : j = i
  · subst j
    simpa [far] using hd
  · simp [far,hj]

theorem near_apart_far (a : Cuboid ι α) (i : ι) (d : α) : (a.near i d).Apart (a.far i d) :=
  ⟨i,Or.inl (by simp [near,far])⟩

end Cut

/-- The same box with its measures carried along `f`. -/
def map {β : Type*} (f : α → β) (a : Cuboid ι α) : Cuboid ι β where
  corner := f ∘ a.corner
  extent := f ∘ a.extent

theorem Apart.map {β : Type*} [AddCommGroup β] [LinearOrder β] {a b : Cuboid ι α}
    (f : α →+ β) (hf : Monotone f) (h : a.Apart b) : (a.map f).Apart (b.map f) := by
  obtain ⟨i,h⟩ := h
  refine ⟨i,?_⟩
  simp only [Cuboid.map,Function.comp_apply,← map_add]
  exact h.imp (fun h => hf h) (fun h => hf h)

section Cells

variable {ι : Type*} [Fintype ι] [DecidableEq ι]

/-- The unit cells of a box in whole numbers. -/
noncomputable def cells (a : Cuboid ι ℤ) : Finset (ι → ℤ) := Fintype.piFinset fun i => Finset.Ico (a.corner i) (a.corner i+a.extent i)

theorem card_cells (a : Cuboid ι ℤ) : a.cells.card = ∏ i, (a.extent i).toNat := by
  simp [cells]

theorem mem_cells {a : Cuboid ι ℤ} {p : ι → ℤ} : p ∈ a.cells ↔ ∀ i, a.corner i ≤ p i ∧ p i < a.corner i+a.extent i := by
  simp [cells]

theorem Within.cells_subset {a b : Cuboid ι ℤ} (h : a.Within b) : a.cells ⊆ b.cells := by
  intro p hp
  rw [mem_cells] at hp ⊢
  exact fun i => ⟨(h i).1.trans (hp i).1,(hp i).2.trans_le (h i).2⟩

theorem Apart.disjoint_cells {a b : Cuboid ι ℤ} (h : a.Apart b) : Disjoint a.cells b.cells := by
  rw [Finset.disjoint_left]
  intro p hpa hpb
  obtain ⟨i,h | h⟩ := h
  · exact absurd ((mem_cells.mp hpa i).2.trans_le h) (not_lt.mpr (mem_cells.mp hpb i).1)
  · exact absurd ((mem_cells.mp hpb i).2.trans_le h) (not_lt.mpr (mem_cells.mp hpa i).1)

/-- Boxes apart from each other inside one have no more cells together than it has. -/
theorem sum_cells_le {s : Cuboid ι ℤ} {as : List (Cuboid ι ℤ)} (hin : ∀ a ∈ as, a.Within s) (hapart : as.Pairwise Apart) :
    (as.map fun a => a.cells.card).sum ≤ s.cells.card := by
  obtain ⟨all,hcard,hall⟩ : ∃ all : Finset (ι → ℤ), all.card = (as.map fun a => a.cells.card).sum ∧
      ∀ p ∈ all, ∃ a ∈ as, p ∈ a.cells := by
    induction as with
    | nil => exact ⟨∅,rfl,by simp⟩
    | cons a as ih =>
      obtain ⟨hfirst,hrest⟩ := List.pairwise_cons.mp hapart
      obtain ⟨all,hcard,hall⟩ := ih (fun b hb => hin b (List.mem_cons_of_mem a hb)) hrest
      have hdisjoint : Disjoint a.cells all := by
        rw [Finset.disjoint_right]
        intro p hp
        obtain ⟨b,hb,hpb⟩ := hall p hp
        exact Finset.disjoint_right.mp (hfirst b hb).disjoint_cells hpb
      refine ⟨a.cells ∪ all,by rw [Finset.card_union_of_disjoint hdisjoint,hcard,List.map_cons,List.sum_cons],fun p hp => ?_⟩
      rcases Finset.mem_union.mp hp with hp | hp
      · exact ⟨a,List.mem_cons_self,hp⟩
      · obtain ⟨b,hb,hpb⟩ := hall p hp
        exact ⟨b,List.mem_cons_of_mem a hb,hpb⟩
  rw [← hcard]
  refine Finset.card_le_card fun p hp => ?_
  obtain ⟨a,ha,hpa⟩ := hall p hp
  exact (hin a ha).cells_subset hpa

end Cells

end Cuboid
end Spork
