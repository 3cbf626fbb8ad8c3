import Mathlib

/-! Columns that facts set, each fact some of them: a column is what the newest of the facts
that set it set it to. A fact that doesn't set one leaves it to those before. -/
namespace Spork
namespace LastWriter

variable {α β κ : Type*} [LinearOrder κ] (key : α → κ) (set : α → Option β)

/-- The facts, the newest first. -/
def newestFirst (xs : List α) : List α := xs.insertionSort fun a b => key b ≤ key a

/-- What the newest that sets a column sets it to. -/
def lastSet (xs : List α) : Option β := ((newestFirst key xs).filterMap set).head?

/-- A fact sets a column, and none that does is newer. -/
def SetsLast (xs : List α) (a : α) : Prop := a ∈ xs ∧ (set a).isSome = true ∧ ∀ b ∈ xs, (set b).isSome = true → key b ≤ key a

variable {key set} {xs ys : List α}

theorem mem_newestFirst {a : α} : a ∈ newestFirst key xs ↔ a ∈ xs := List.mem_insertionSort _

theorem newestFirst_sorted (xs : List α) : (newestFirst key xs).Pairwise fun a b => key b ≤ key a := by
  have htrans : IsTrans α fun a b => key b ≤ key a := ⟨fun _ _ _ hab hbc => hbc.trans hab⟩
  have htotal : Std.Total fun a b => key b ≤ key a := ⟨fun a b => le_total (key b) (key a)⟩
  exact List.pairwise_insertionSort _ xs

theorem lastSet_eq_none_iff : lastSet key set xs = none ↔ ∀ a ∈ xs, set a = none := by
  rw [lastSet,List.head?_eq_none_iff,List.filterMap_eq_nil_iff]
  exact forall_congr' fun a => by rw [mem_newestFirst]

@[simp] theorem lastSet_nil : lastSet key set [] = none := rfl

/-- What is set last is set by a fact that sets it last. -/
theorem setsLast_of_lastSet {x : β} (h : lastSet key set xs = some x) : ∃ a, SetsLast key set xs a ∧ set a = some x := by
  have hsorted : (newestFirst key xs).Pairwise fun a b => key b ≤ key a := newestFirst_sorted xs
  have hmem : ∀ a, a ∈ newestFirst key xs ↔ a ∈ xs := fun _ => mem_newestFirst
  rw [lastSet] at h
  generalize newestFirst key xs = sorted at h hsorted hmem
  -- the facts before it in the sorted list don't set the column
  have hfirst : ∃ a ∈ sorted, set a = some x ∧ ∀ b ∈ sorted, (set b).isSome = true → key b ≤ key a := by
    clear hmem
    induction sorted with
    | nil => cases h
    | cons c sorted ih =>
      obtain ⟨hc,hrest⟩ := List.pairwise_cons.mp hsorted
      cases hset : set c with
      | some y =>
        rw [List.filterMap_cons_some hset] at h
        cases h
        refine ⟨c,List.mem_cons_self,hset,fun b hb _ => ?_⟩
        rcases List.mem_cons.mp hb with rfl | hb
        · exact le_refl _
        · exact hc b hb
      | none =>
        rw [List.filterMap_cons_none hset] at h
        obtain ⟨a,ha,hax,hle⟩ := ih h hrest
        refine ⟨a,List.mem_cons_of_mem c ha,hax,fun b hb hsome => ?_⟩
        rcases List.mem_cons.mp hb with rfl | hb
        · rw [hset] at hsome
          cases hsome
        · exact hle b hb hsome
  obtain ⟨a,ha,hax,hle⟩ := hfirst
  exact ⟨a,⟨(hmem a).mp ha,by rw [hax]; rfl,fun b hb => hle b ((hmem b).mpr hb)⟩,hax⟩

/-- Where keys tell facts apart, one at most sets a column last. -/
theorem SetsLast.unique (hkey : ∀ a ∈ xs, ∀ b ∈ xs, key a = key b → a = b) {a b : α} (ha : SetsLast key set xs a)
    (hb : SetsLast key set xs b) : a = b :=
  hkey a ha.1 b hb.1 (le_antisymm (hb.2.2 a ha.1 ha.2.1) (ha.2.2 b hb.1 hb.2.1))

theorem lastSet_eq_some_iff (hkey : ∀ a ∈ xs, ∀ b ∈ xs, key a = key b → a = b) {x : β} :
    lastSet key set xs = some x ↔ ∃ a, SetsLast key set xs a ∧ set a = some x := by
  refine ⟨setsLast_of_lastSet,fun ⟨a,ha,hax⟩ => ?_⟩
  cases hlast : lastSet key set xs with
  | none => exact absurd (lastSet_eq_none_iff.mp hlast a ha.1) (by simp [hax])
  | some y =>
    obtain ⟨b,hb,hby⟩ := setsLast_of_lastSet hlast
    rw [ha.unique hkey hb,hby] at hax
    exact hax

/-- Facts that come in another order set the same. -/
theorem lastSet_congr (hkey : ∀ a ∈ xs, ∀ b ∈ xs, key a = key b → a = b) (h : ∀ a, a ∈ xs ↔ a ∈ ys) :
    lastSet key set xs = lastSet key set ys := by
  refine Option.ext fun x => ?_
  rw [lastSet_eq_some_iff hkey,lastSet_eq_some_iff fun a ha b hb => hkey a ((h a).mpr ha) b ((h b).mpr hb)]
  simp only [SetsLast,h]

/-- Values taken further are the last value taken further. -/
theorem lastSet_map {γ : Type*} (f : β → γ) : lastSet key (fun a => (set a).map f) xs = (lastSet key set xs).map f := by
  rw [lastSet,lastSet,← List.head?_map,List.map_filterMap]

/-- A column some facts set, more facts set. -/
theorem lastSet_none_of_subset (h : xs ⊆ ys) (hy : lastSet key set ys = none) : lastSet key set xs = none :=
  lastSet_eq_none_iff.mpr fun a ha => lastSet_eq_none_iff.mp hy a (h ha)

/-- What fewer facts left in a column makes nothing of what more make of it. -/
theorem getD_lastSet_of_subset (h : xs ⊆ ys) (x : β) :
    (lastSet key set ys).getD ((lastSet key set xs).getD x) = (lastSet key set ys).getD x := by
  cases hy : lastSet key set ys with
  | none => rw [lastSet_none_of_subset h hy]; rfl
  | some y => rfl

/-- The same where the column may be empty. -/
theorem or_lastSet_of_subset (h : xs ⊆ ys) (x : Option β) :
    (lastSet key set ys).or ((lastSet key set xs).or x) = (lastSet key set ys).or x := by
  cases hy : lastSet key set ys with
  | none => rw [lastSet_none_of_subset h hy]; rfl
  | some y => rfl

/-- Two columns no fact sets one of without the other are set last by one fact. -/
theorem lastSet_together {γ : Type*} {other : α → Option γ} (hkey : ∀ a ∈ xs, ∀ b ∈ xs, key a = key b → a = b)
    (hboth : ∀ a ∈ xs, (set a).isSome = (other a).isSome) :
    (∃ a ∈ xs, (set a).isSome = true ∧ lastSet key set xs = set a ∧ lastSet key other xs = other a) ∨
      lastSet key set xs = none ∧ lastSet key other xs = none := by
  cases hlast : lastSet key set xs with
  | none =>
    refine Or.inr ⟨rfl,lastSet_eq_none_iff.mpr fun a ha => ?_⟩
    have hnone := hboth a ha
    rw [lastSet_eq_none_iff.mp hlast a ha] at hnone
    exact Option.not_isSome_iff_eq_none.mp (by simp [← hnone])
  | some x =>
    obtain ⟨a,ha,hax⟩ := setsLast_of_lastSet hlast
    obtain ⟨y,hy⟩ := Option.isSome_iff_exists.mp ((hboth a ha.1).symm.trans ha.2.1)
    have hother : SetsLast key other xs a :=
      ⟨ha.1,by rw [hy]; rfl,fun b hb hsome => ha.2.2 b hb ((hboth b hb).trans hsome)⟩
    exact Or.inl ⟨a,ha.1,ha.2.1,hax.symm,by rw [hy]; exact (lastSet_eq_some_iff hkey).mpr ⟨a,hother,hy⟩⟩

end LastWriter
end Spork
