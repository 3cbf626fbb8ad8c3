import Mathlib

/-! Things shared out into groups: the groups together are the things, each once. -/
namespace Spork
namespace ShareOut

variable {α κ : Type*}

/-- Things sorted into a group for each key are all there, when every key has a group. -/
theorem fibers_perm [DecidableEq κ] {keys : List κ} (hkeys : keys.Nodup) (f : α → κ) {xs : List α}
    (h : ∀ x ∈ xs, f x ∈ keys) : (keys.flatMap fun k => xs.filter fun x => f x = k).Perm xs := by
  induction keys generalizing xs with
  | nil =>
    cases xs with
    | nil => exact List.Perm.refl []
    | cons x xs => exact absurd (h x (by simp)) (by simp)
  | cons key keys ih =>
    obtain ⟨hfresh,hrest⟩ := List.nodup_cons.mp hkeys
    have hothers : (keys.flatMap fun k =>
        (xs.filter fun x => !decide (f x = key)).filter fun x => f x = k).Perm
          (xs.filter fun x => !decide (f x = key)) := by
      apply ih hrest
      intro x hx
      obtain ⟨hmem,hne⟩ := List.mem_filter.mp hx
      exact (List.mem_cons.mp (h x hmem)).resolve_left (by simpa using hne)
    have hsame : (keys.flatMap fun k =>
        (xs.filter fun x => !decide (f x = key)).filter fun x => f x = k) =
          keys.flatMap fun k => xs.filter fun x => f x = k := by
      apply List.flatMap_congr
      intro k hk
      rw [List.filter_filter]
      apply List.filter_congr
      intro x _
      by_cases hx : f x = k
      · have hne : k ≠ key := fun heq => hfresh (heq ▸ hk)
        simp [hx,hne]
      · simp [hx]
    rw [hsame] at hothers
    rw [List.flatMap_cons]
    exact (hothers.append_left _).trans (List.filter_append_perm _ xs)

/-- One more thing in a group is one more thing. -/
theorem modify_flatten_perm {groups : List (List α)} {p : ℕ} (hp : p < groups.length) (x : α) :
    (groups.modify p (·++[x])).flatten.Perm (groups.flatten++[x]) := by
  induction groups generalizing p with
  | nil => simp at hp
  | cons group groups ih =>
    cases p with
    | zero =>
      simp only [List.modify_zero_cons,List.flatten_cons,List.append_assoc]
      exact List.perm_append_comm.append_left group
    | succ p =>
      simp only [List.modify_succ_cons,List.flatten_cons,List.append_assoc]
      exact (ih (by simpa using hp)).append_left group

end ShareOut
end Spork
