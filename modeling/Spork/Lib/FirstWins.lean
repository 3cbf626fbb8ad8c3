import Mathlib

/-! Rows put in a table that has one for each key: one whose key is there already is not
put in, and the one there stands. -/
namespace Spork
namespace FirstWins

variable {ρ κ : Type*} [DecidableEq κ] (key : ρ → κ)

/-- One row more, when there is none of its key. -/
def keep (rows : List ρ) (r : ρ) : List ρ := if rows.any fun s => key s = key r then rows else rows++[r]

/-- Rows put in one after another. -/
def kept (xs : List ρ) : List ρ := xs.foldl (keep key) []

variable {key}

theorem mem_keep_iff {rows : List ρ} {r s : ρ} :
    s ∈ keep key rows r ↔ s ∈ rows ∨ (s = r ∧ ∀ t ∈ rows, key t ≠ key r) := by
  unfold keep
  split_ifs with hthere
  · obtain ⟨t,ht,hkey⟩ := List.any_eq_true.mp hthere
    refine (or_iff_left fun h => ?_).symm
    exact h.2 t ht (of_decide_eq_true hkey)
  · have hnone : ∀ t ∈ rows, key t ≠ key r := by
      intro t ht hkey
      exact hthere (List.any_eq_true.mpr ⟨t,ht,decide_eq_true hkey⟩)
    rw [List.mem_append,List.mem_singleton]
    exact or_congr_right (iff_self_and.mpr fun _ => hnone)

theorem kept_concat (xs : List ρ) (x : ρ) : kept key (xs++[x]) = keep key (kept key xs) x := by
  rw [kept,List.foldl_append]
  rfl

/-- A row is in the table when it is the first of its key. -/
theorem mem_kept_iff {xs : List ρ} {r : ρ} :
    r ∈ kept key xs ↔ ∃ before after, xs = before++r :: after ∧ ∀ s ∈ before, key s ≠ key r := by
  induction xs using List.reverseRecOn generalizing r with
  | nil =>
    refine iff_of_false List.not_mem_nil ?_
    rintro ⟨before,after,h,-⟩
    simp at h
  | append_singleton xs x ih =>
    rw [kept_concat,mem_keep_iff]
    constructor
    · rintro (hr | ⟨rfl,hnew⟩)
      · obtain ⟨before,after,rfl,hfirst⟩ := ih.mp hr
        exact ⟨before,after++[x],by simp,hfirst⟩
      · refine ⟨xs,[],rfl,fun s hs heq => ?_⟩
        -- the first of that key would be in the table
        obtain ⟨before,t,after,hxs,ht,hbefore⟩ : ∃ before t after, xs = before++t :: after ∧ key t = key r ∧
            ∀ u ∈ before, key u ≠ key r := by
          cases hfind : xs.find? fun t => key t = key r with
          | none => exact absurd heq (by simpa using List.find?_eq_none.mp hfind s hs)
          | some t =>
            obtain ⟨hkey,before,after,hxs,hbefore⟩ := List.find?_eq_some_iff_append.mp hfind
            exact ⟨before,t,after,hxs,of_decide_eq_true hkey,fun u hu => by simpa using hbefore u hu⟩
        refine hnew t (ih.mpr ⟨before,after,hxs,fun u hu => ?_⟩) ht
        rw [ht]
        exact hbefore u hu
    · rintro ⟨before,after,hxs,hfirst⟩
      rcases List.eq_nil_or_concat after with rfl | ⟨after,y,rfl⟩
      · obtain ⟨rfl,hx⟩ := List.append_inj' hxs rfl
        obtain rfl : x = r := by simpa using hx
        refine Or.inr ⟨rfl,fun t ht => ?_⟩
        obtain ⟨before,after,rfl,-⟩ := ih.mp ht
        exact hfirst t (by simp)
      · rw [List.concat_eq_append,← List.cons_append,← List.append_assoc] at hxs
        obtain ⟨rfl,-⟩ := List.append_inj' hxs rfl
        exact Or.inl (ih.mpr ⟨before,after,rfl,hfirst⟩)

/-- There is one row for a key. -/
theorem kept_unique {xs : List ρ} {r s : ρ} (hr : r ∈ kept key xs) (hs : s ∈ kept key xs) (h : key r = key s) : r = s := by
  obtain ⟨before,after,rfl,hbefore⟩ := mem_kept_iff.mp hr
  obtain ⟨before',after',heq,hbefore'⟩ := mem_kept_iff.mp hs
  rcases List.append_eq_append_iff.mp heq with ⟨as,rfl,hafter⟩ | ⟨as,rfl,hafter⟩
  · cases as with
    | nil => exact (List.cons.inj hafter).1
    | cons a as =>
      obtain ⟨rfl,-⟩ := List.cons.inj hafter
      exact absurd h (hbefore' r (by simp))
  · cases as with
    | nil => exact (List.cons.inj hafter).1.symm
    | cons a as =>
      obtain ⟨rfl,-⟩ := List.cons.inj hafter
      exact absurd h.symm (hbefore s (by simp))

theorem key_mem_keep (rows : List ρ) (r : ρ) (k : κ) :
    k ∈ (keep key rows r).map key ↔ k ∈ rows.map key ∨ k = key r := by
  unfold keep
  split_ifs with hthere
  · obtain ⟨t,ht,hkey⟩ := List.any_eq_true.mp hthere
    refine (or_iff_left_of_imp ?_).symm
    rintro rfl
    exact List.mem_map.mpr ⟨t,ht,of_decide_eq_true hkey⟩
  · simp

/-- The keys of the table are those of the rows. -/
theorem key_mem_kept (xs : List ρ) (k : κ) : k ∈ (kept key xs).map key ↔ k ∈ xs.map key := by
  induction xs using List.reverseRecOn with
  | nil => rfl
  | append_singleton xs x ih =>
    rw [kept_concat,key_mem_keep,ih,List.map_append,List.mem_append,List.map_singleton,List.mem_singleton]

theorem kept_nodup (xs : List ρ) : ((kept key xs).map key).Nodup := by
  induction xs using List.reverseRecOn with
  | nil => exact List.nodup_nil
  | append_singleton xs x ih =>
    rw [kept_concat,keep]
    split_ifs with hthere
    · exact ih
    · rw [List.map_append]
      refine List.nodup_append.mpr ⟨ih,List.nodup_singleton _,?_⟩
      rintro k hk k' hk' rfl
      obtain ⟨t,ht,hkey⟩ := List.mem_map.mp hk
      apply hthere
      exact List.any_eq_true.mpr ⟨t,ht,decide_eq_true (hkey.trans (List.mem_singleton.mp hk'))⟩

end FirstWins
end Spork
