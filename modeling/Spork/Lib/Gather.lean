import Mathlib

/-! Things put together under keys as they come, a new key after those before it: each key is
there once, with what all of its things come to. -/
namespace Spork
namespace Gather

variable {κ ρ σ : Type*} [DecidableEq κ] (add : σ → ρ → σ) (zero : σ)

/-- One thing more, under its key. -/
def putIn (held : List (κ × σ)) (x : κ × ρ) : List (κ × σ) :=
  if held.any fun e => e.1 = x.1 then held.map fun e => if e.1 = x.1 then (e.1,add e.2 x.2) else e
  else held++[(x.1,add zero x.2)]

/-- What some things of a key come to. -/
def under (xs : List (κ × ρ)) (k : κ) : σ := (xs.filter fun x => x.1 = k).foldl (fun s x => add s x.2) zero

variable {add zero}

theorem under_concat (xs : List (κ × ρ)) (x : κ × ρ) (k : κ) :
    under add zero (xs++[x]) k = if x.1 = k then add (under add zero xs k) x.2 else under add zero xs k := by
  rw [under,List.filter_append,List.foldl_append,List.filter_singleton]
  by_cases h : x.1 = k
  · simp [h,under]
  · simp [h,under]

/-- A key with nothing has come to nothing. -/
theorem under_of_not_mem {xs : List (κ × ρ)} {k : κ} (h : k ∉ xs.map Prod.fst) : under add zero xs k = zero := by
  have hnil : xs.filter (fun x => x.1 = k) = [] := by
    rw [List.filter_eq_nil_iff]
    intro x hx hk
    exact h (List.mem_map.mpr ⟨x,hx,by simpa using hk⟩)
  rw [under,hnil]
  rfl

variable (add) (zero) in
/-- Everything put in: each key once, with what its things come to. -/
theorem foldl_putIn (xs : List (κ × ρ)) : ∃ ks : List κ, ks.Nodup ∧ (∀ k, k ∈ ks ↔ k ∈ xs.map Prod.fst) ∧
    xs.foldl (putIn add zero) [] = ks.map fun k => (k,under add zero xs k) := by
  induction xs using List.reverseRecOn with
  | nil => exact ⟨[],List.nodup_nil,by simp,rfl⟩
  | append_singleton xs x ih =>
    obtain ⟨ks,hnodup,hmem,heq⟩ := ih
    rw [List.foldl_append,heq,List.foldl_cons,List.foldl_nil,putIn]
    have hany : (ks.map fun k => (k,under add zero xs k)).any (fun e => e.1 = x.1) = true ↔ x.1 ∈ ks := by
      simp
    by_cases hx : x.1 ∈ ks
    · refine ⟨ks,hnodup,?_,?_⟩
      · intro k
        rw [hmem,List.map_append,List.mem_append,List.map_singleton,List.mem_singleton]
        constructor
        · exact Or.inl
        · rintro (hk | rfl)
          · exact hk
          · exact (hmem _).mp hx
      · rw [if_pos (hany.mpr hx),List.map_map]
        apply List.map_congr_left
        intro k _
        rw [under_concat]
        by_cases hk : k = x.1
        · simp [hk]
        · simp [hk,Ne.symm hk]
    · refine ⟨ks++[x.1],?_,?_,?_⟩
      · rw [← List.concat_eq_append]
        exact hnodup.concat hx
      · intro k
        rw [List.mem_append,hmem,List.map_append,List.mem_append]
        rfl
      · rw [if_neg (fun h => hx (hany.mp h)),List.map_append,List.map_singleton,under_concat,if_pos rfl,
          under_of_not_mem (fun h => hx ((hmem _).mpr h))]
        congr 1
        apply List.map_congr_left
        intro k hk
        rw [under_concat,if_neg]
        rintro rfl
        exact hx hk

end Gather
end Spork
