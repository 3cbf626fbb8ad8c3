import Mathlib

/-! Rows that may each name the row they were made from, always one put in before: what
following those names leads to, and that rows put in later change nothing of it. -/
namespace Spork
namespace Origin

variable {ρ κ : Type*} [DecidableEq κ] (key : ρ → κ) (link : ρ → Option κ)

/-- What a key leads to, over rows newest first. -/
def back : List ρ → κ → κ
  | [], k => k
  | r :: older, k => if key r = k then (link r).elim k (back older) else back older k

/-- What a key leads to, over rows in the order they were put in. -/
def origin (rows : List ρ) (k : κ) : κ := back key link rows.reverse k

variable {key link} {rows added : List ρ} {k s : κ} {r : ρ}

theorem back_of_unlinked (h : ∀ r ∈ rows, link r = none) : back key link rows k = k := by
  induction rows with
  | nil => rfl
  | cons r rows ih =>
    rw [back]
    split_ifs with hr
    · rw [h r (by simp)]
      rfl
    · exact ih fun q hq => h q (by simp [hq])

/-- Where no row names another, a key leads to itself. -/
theorem origin_of_unlinked (h : ∀ r ∈ rows, link r = none) : origin key link rows k = k :=
  back_of_unlinked fun r hr => h r (List.mem_reverse.mp hr)

theorem back_append_of_apart {newer older : List ρ} (h : ∀ r ∈ newer, key r ≠ k) :
    back key link (newer++older) k = back key link older k := by
  induction newer with
  | nil => rfl
  | cons r newer ih =>
    have hr : key r ≠ k := h r (by simp)
    rw [List.cons_append,back,if_neg hr]
    exact ih fun q hq => h q (by simp [hq])

/-- Rows put in later under other keys change nothing. -/
theorem origin_append_of_apart (h : ∀ r ∈ added, key r ≠ k) :
    origin key link (rows++added) k = origin key link rows k := by
  rw [origin,List.reverse_append]
  exact back_append_of_apart fun r hr => h r (List.mem_reverse.mp hr)

/-- A row put in leads where the row it names does. -/
theorem origin_append_linked (hnodup : (added.map key).Nodup) (hr : r ∈ added) (hlink : link r = some s)
    (hs : ∀ q ∈ added, key q ≠ s) : origin key link (rows++added) (key r) = origin key link rows s := by
  obtain ⟨first,last,rfl⟩ := List.append_of_mem hr
  rw [List.map_append,List.map_cons,List.nodup_middle,List.nodup_cons] at hnodup
  have hlast : ∀ q ∈ last, key q ≠ key r := by
    intro q hq heq
    exact hnodup.1 (by rw [← heq]; exact List.mem_append_right _ (List.mem_map_of_mem hq))
  have hfirst : ∀ q ∈ first, key q ≠ s := fun q hq => hs q (by simp [hq])
  have hsplit : rows++(first++r :: last) = (rows++first++[r])++last := by simp
  rw [hsplit,origin_append_of_apart hlast,origin,List.reverse_append]
  simp only [List.reverse_cons,List.reverse_nil,List.nil_append,List.singleton_append,back,if_pos,hlink,Option.elim_some]
  exact origin_append_of_apart hfirst

end Origin
end Spork
