import Spork.Picking.Groups

/-! A walk round stops goes to each of them once, unless they are two to a dozen and no walk round
them comes to a double. -/
namespace Spork
namespace Picking

open Routing

/-- Some walk from the bench round these stops and back comes to a double, or one that ends at the
first of them does on its way there. -/
def Walkable (cost : Costs) (stops : Finset ℕ) : Prop := Doubles.Reached cost 0 (stops.sort (· ≤ ·))

section
variable {cost : Costs} {nodes : List ℕ}

theorem between_walks (hcost : Doubles.Walks cost) (nodes : List ℕ) : Doubles.Walks (between cost nodes) := by
  intro row hrow c hc
  obtain ⟨a,-,rfl⟩ := List.mem_map.mp hrow
  obtain ⟨b,-,rfl⟩ := List.mem_map.mp hc
  exact hcost.walk a b

theorem walk_between {i j : ℕ} (hi : i < nodes.length) (hj : j < nodes.length) :
    walk (between cost nodes) i j = walk cost (nodes.getD i 0) (nodes.getD j 0) := by
  rw [walk]
  simp [between,hi,hj]

theorem legs_between {route : List ℕ} (h : ∀ i ∈ route, i < nodes.length) :
    Doubles.legs (between cost nodes) route = Doubles.legs cost (route.map (nodes.getD · 0)) := by
  rw [Doubles.legs,Doubles.legs,← List.map_tail,List.zip_map,List.foldl_map]
  refine List.foldl_ext _ _ _ fun sum leg hleg => ?_
  obtain ⟨hfrom,hto⟩ := List.of_mem_zip hleg
  rw [walk_between (h _ hfrom) (h _ (List.mem_of_mem_tail hto))]
  rfl

theorem length_between {route : List ℕ} (h : ∀ i ∈ route, i < nodes.length) (closed : Bool) :
    Doubles.length (between cost nodes) route closed = Doubles.length cost (route.map (nodes.getD · 0)) closed := by
  rw [Doubles.length,Doubles.length,legs_between h,List.length_map]
  split_ifs with hround
  · obtain ⟨mid,z,rfl⟩ := (route.eq_nil_or_concat').resolve_left (by rintro rfl; simp at hround)
    obtain ⟨a,mid,rfl⟩ := List.exists_cons_of_length_pos (l := mid) (by simpa using hround.2)
    rw [List.map_append,List.map_singleton,List.getLastD_concat,List.getLastD_concat]
    exact congrArg (Double.sum _) (walk_between (h z (by simp)) (h a (by simp)))
  · rfl

end

section
variable {cost : Costs} {key : List ℕ}

theorem othersOf_between : othersOf (between cost (0 :: key)) 0 = (List.range key.length).map (·+1) :=
  othersOf_zero (by simp [between])

/-- A walk ends at the first stop's place when it ends at the first stop. -/
theorem ends_first (hnodup : key.Nodup) {js : List ℕ} (hjs : js.Perm (List.range key.length)) :
    (js.map (·+1)).getLastD 0 = ((List.range key.length).map (·+1)).headD 0 ↔
      (js.map (key.getD · 0)).getLastD 0 = key.headD 0 := by
  rcases js.eq_nil_or_concat' with rfl | ⟨mid,z,rfl⟩
  · have hnone : key = [] := by simpa using hjs.symm
    simp [hnone]
  · have hz : z < key.length := List.mem_range.mp (hjs.mem_iff.mp (by simp))
    obtain ⟨a,key,rfl⟩ := List.exists_cons_of_length_pos (Nat.zero_lt_of_lt hz)
    have hfirst : (a :: key).getD z 0 = a ↔ z = 0 := by
      have hinj : (a :: key)[z] = (a :: key)[0] ↔ z = 0 := hnodup.getElem_inj_iff
      rwa [List.getD_eq_getElem _ _ hz]
    rw [List.map_append,List.map_append,List.map_singleton,List.map_singleton,List.getLastD_concat,
      List.getLastD_concat,List.headD_cons,hfirst,List.length_cons,List.range_succ_eq_map]
    simp

/-- Between the bench and some stops, a walk round them is one round their places. -/
theorem reached_between (hnodup : key.Nodup) :
    Doubles.Reached (between cost (0 :: key)) 0 ((List.range key.length).map (·+1)) ↔ Doubles.Reached cost 0 key := by
  have hlength {js : List ℕ} (hjs : js.Perm (List.range key.length)) (closed : Bool) :
      Doubles.length (between cost (0 :: key)) (0 :: js.map (·+1)) closed =
        Doubles.length cost (0 :: js.map (key.getD · 0)) closed := by
    rw [length_between]
    · simp [Function.comp_def]
    · intro i hi
      rcases List.mem_cons.mp hi with rfl | hi
      · simp
      · obtain ⟨j,hj,rfl⟩ := List.mem_map.mp hi
        have := List.mem_range.mp (hjs.mem_iff.mp hj)
        simpa using this
  constructor
  · rintro ⟨tail,htail,hreach⟩
    obtain ⟨js,hjs,rfl⟩ : ∃ js : List ℕ, js.Perm (List.range key.length) ∧ js.map (·+1) = tail := by
      refine ⟨tail.map (·-1),(htail.map (·-1)).trans (by rw [List.map_map]; exact .of_eq (List.map_id _)),?_⟩
      rw [List.map_map]
      apply List.map_congr_left (g := id) _ |>.trans (List.map_id _)
      intro i hi
      obtain ⟨j,-,rfl⟩ := List.mem_map.mp (htail.mem_iff.mp hi)
      simp
    rw [hlength hjs,hlength hjs,ends_first hnodup hjs] at hreach
    refine ⟨_,(hjs.map _).trans ?_,hreach⟩
    rw [map_getD_range]
  · rintro ⟨tail,htail,hreach⟩
    obtain ⟨js,hjs,rfl⟩ := perm_places hnodup htail
    rw [← hlength hjs,← hlength hjs,← ends_first hnodup hjs] at hreach
    exact ⟨_,hjs.map _,hreach⟩

end

section
variable {cost : Costs} (clocks : List ℕ → ℕ → Bool)

/-- The order of stops a walk is in, by their places from the bench. -/
def placesOf (cost : Costs) (clocks : List ℕ → ℕ → Bool) (stops : Finset ℕ) : List ℕ :=
  Doubles.order (clocks (stops.sort (· ≤ ·))) (between cost (0 :: stops.sort (· ≤ ·))) true 0

theorem placesOf_visits (hcost : Doubles.Walks cost) (stops : Finset ℕ) :
    Visits (between cost (0 :: stops.sort (· ≤ ·))) 0 (placesOf cost clocks stops) ↔
      (2 ≤ stops.card → stops.card ≤ exactUpTo → Walkable cost stops) := by
  have hlen : (between cost (0 :: stops.sort (· ≤ ·))).length = stops.card+1 := by simp [between]
  rw [placesOf,Doubles.order_visits _ (between_walks hcost _) (by omega),othersOf_between,
    reached_between (Finset.sort_nodup _ _),hlen]
  simp [Walkable]

/-- A walk round stops goes to each of them once, unless they are two to a dozen and no walk round
them comes to a double. -/
theorem route_perm (hcost : Doubles.Walks cost) {stops : Finset ℕ}
    (h : 2 ≤ stops.card → stops.card ≤ exactUpTo → Walkable cost stops) :
    (route cost clocks stops).1.Perm (stops.sort (· ≤ ·)) := by
  have hvisits := (placesOf_visits clocks hcost stops).mpr h
  have hlen : (between cost (0 :: stops.sort (· ≤ ·))).length = (stops.sort (· ≤ ·)).length+1 := by simp [between]
  refine ((visits_rest hvisits hlen).map _).trans ?_
  rw [List.map_map]
  have hnode : (fun i => (0 :: stops.sort (· ≤ ·)).getD i 0) ∘ (·+1) = ((stops.sort (· ≤ ·)).getD · 0) := by
    funext i
    simp
  rw [hnode,map_getD_range]

/-- Then, it goes to one of them. -/
theorem route_short (hcost : Doubles.Walks cost) {stops : Finset ℕ} (htwo : 2 ≤ stops.card)
    (hfew : stops.card ≤ exactUpTo) (h : ¬Walkable cost stops) : (route cost clocks stops).1.length = 1 := by
  have hnot : ¬Visits _ 0 (placesOf cost clocks stops) := fun hvisits =>
    h ((placesOf_visits clocks hcost stops).mp hvisits htwo hfew)
  obtain ⟨k,hk⟩ := Doubles.order_short _ (between_walks hcost _) (by simp [between]) hnot
  simp [route,hk]

end

end Picking
end Spork
