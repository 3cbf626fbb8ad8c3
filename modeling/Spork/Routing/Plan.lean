import Spork.Routing.Floor
import Spork.Routing.Heuristic

/-! A walk planned over stops (`routing.rs`), against the order they were typed in. The
line the walk takes on the site is left out. -/
namespace Spork
namespace Routing

/-- A walk's stops put in order, against the order they were typed in. -/
structure Planned where
  /-- The stops reached, by their index in the typed order, in walking order. -/
  order : List ℕ
  /-- The stops that can't be reached from where the walk starts. -/
  unreachable : List ℕ
  /-- The walk in this order, and in the typed order over the same stops, from the same
  start to the same end. In the site's cells. -/
  walked : ℚ
  typed : ℚ
  deriving DecidableEq, Repr

section
variable (floor : Floor) (start : ℕ) (stops : List ℕ)

/-- Whether the walk there is, by the distances from the start, to the stop at `k`. -/
def isReached (k : ℕ) : Bool := (floor.distances start (start :: stops)).getD (k+1) ⊤ ≠ ⊤

def reachedStops : List ℕ := (List.range stops.length).filter (isReached floor start stops)

def unreachableStops : List ℕ := (List.range stops.length).filter fun k => !isReached floor start stops k

/-- The start and the stops it can reach. -/
def mine : List ℕ := start :: (reachedStops floor start stops).map (stops.getD · 0)

/-- The walks between them. Each is finite where there is more than the start
(`mine_finite`), so no number stands for a walk there is not. -/
def matrix : Costs :=
  (mine floor start stops).map fun a => (floor.distances a (mine floor start stops)).map (WithTop.untopD 0)

end

/-- Plan a walk over `stops`, nodes on the floor in the order somebody typed. With a
`base` the walk starts there and comes back; without one it starts at the first stop and
ends wherever its last one is. -/
def plan (late : ℕ → Bool) (floor : Floor) (base : Option ℕ) (stops : List ℕ) : Planned :=
  match base.or stops.head? with
  | none => ⟨[],[],0,0⟩
  | some start =>
    let closed := base.isSome
    let cost := matrix floor start stops
    let route := order late cost closed 0
    let typedRoute := List.range (mine floor start stops).length
    ⟨(route.drop 1).map fun i => (reachedStops floor start stops).getD (i-1) 0,
      unreachableStops floor start stops,length cost route closed,length cost typedRoute closed⟩

@[simp] theorem matrix_length (floor : Floor) (start : ℕ) (stops : List ℕ) :
    (matrix floor start stops).length = (reachedStops floor start stops).length+1 := by
  simp [matrix,mine]

/-- A stop the start can reach is on the floor with it. -/
theorem reachedStops_reached {floor : Floor} {start : ℕ} {stops : List ℕ}
    (hstart : start < floor.w*floor.h) {k : ℕ} (hk : k ∈ reachedStops floor start stops) :
    k < stops.length ∧ floor.isOpen start = true ∧
      LeastFirst.Reached floor.steps start (stops.getD k 0) := by
  obtain ⟨hlt,hreached⟩ := List.mem_filter.mp hk
  rw [List.mem_range] at hlt
  obtain ⟨best,hbest,hfinite⟩ := floor.distances_finite hstart (start :: stops)
  have hmem : stops[k] ∈ start :: stops := List.mem_cons_of_mem _ (List.getElem_mem hlt)
  have hget : ((start :: stops).map best).getD (k+1) ⊤ = best stops[k] := by simp [hlt]
  have hne : best stops[k] ≠ ⊤ := by
    rw [isReached,hbest,hget] at hreached
    simpa using hreached
  obtain ⟨hopen,hreach⟩ := (hfinite _ hmem).mp hne
  refine ⟨hlt,hopen,?_⟩
  simpa [hlt] using hreach

/-- Where a stop is reached every node of the matrix reaches every other. -/
theorem mine_finite {floor : Floor} {start : ℕ} {stops : List ℕ} (hstart : start < floor.w*floor.h)
    (hsome : reachedStops floor start stops ≠ []) : ∀ a ∈ mine floor start stops,
      ∀ d ∈ floor.distances a (mine floor start stops), d ≠ ⊤ := by
  obtain ⟨k,hk⟩ := List.exists_mem_of_ne_nil _ hsome
  have hon : start < floor.w*floor.h ∧ floor.isOpen start = true :=
    ⟨hstart,(reachedStops_reached hstart hk).2.1⟩
  have hfrom : ∀ a ∈ mine floor start stops, LeastFirst.Reached floor.steps start a := by
    intro a ha
    rcases List.mem_cons.mp ha with rfl | ha
    · exact Relation.ReflTransGen.refl
    · obtain ⟨j,hj,rfl⟩ := List.mem_map.mp ha
      exact (reachedStops_reached hstart hj).2.2
  intro a ha d hd
  obtain ⟨hlt,hopen⟩ := floor.reached_open hon (hfrom a ha)
  obtain ⟨best,hbest,hfinite⟩ := floor.distances_finite hlt (mine floor start stops)
  rw [hbest] at hd
  obtain ⟨b,hb,rfl⟩ := List.mem_map.mp hd
  -- back to the start and on from there
  exact (hfinite b hb).mpr ⟨hopen,(floor.reached_symm hon (hfrom a ha)).trans (hfrom b hb)⟩

/-- The stops of a route are those reached. -/
theorem tail_reached {cost : Costs} {route reached : List ℕ} (hroute : Visits cost 0 route)
    (hlen : cost.length = reached.length+1) :
    ((route.drop 1).map fun i => reached.getD (i-1) 0).Perm reached := by
  refine ((visits_rest hroute hlen).map _).trans ?_
  rw [List.map_map]
  simp only [Function.comp_def,Nat.add_sub_cancel]
  rw [map_getD_range]

/-- Up to a dozen stops the order is no longer than any other. -/
theorem order_least (late : ℕ → Bool) {cost : Costs} {start : ℕ} (closed : Bool)
    (hstart : start < cost.length) (hfew : cost.length-1 ≤ exactUpTo) {other : List ℕ}
    (hother : Visits cost start other) :
    length cost (order late cost closed start) closed ≤ length cost other closed := by
  unfold order
  split_ifs with htwo
  · obtain ⟨tail,rfl,htail⟩ := (visits_iff hstart other).mp hother
    have hshort : (othersOf cost start).length ≤ 1 := by
      have hlen := (othersOf_perm hstart).length_eq
      rw [List.length_cons,List.length_range] at hlen
      omega
    have hsame : tail = othersOf cost start := by
      cases hcase : othersOf cost start with
      | nil => exact List.perm_nil.mp (hcase ▸ htail)
      | cons a rest =>
        rw [hcase,List.length_cons] at hshort
        obtain rfl := List.length_eq_zero_iff.mp (by omega : rest.length = 0)
        exact List.perm_singleton.mp (hcase ▸ htail)
    rw [hsame]
  · exact (exact_spec cost start closed hstart (by omega)).2 other hother

/-- Up to a dozen stops it visits every node, and no other order that does walks less. -/
theorem order_exact (late : ℕ → Bool) {cost : Costs} {start : ℕ} (closed : Bool)
    (hstart : start < cost.length) (hfew : cost.length-1 ≤ exactUpTo) :
    Visits cost start (order late cost closed start) ∧ ∀ other, Visits cost start other →
      length cost (order late cost closed start) closed ≤ length cost other closed :=
  ⟨order_visits late closed hstart,fun _ hother => order_least late closed hstart hfew hother⟩

theorem order_exact_three : Visits [[0,1,4],[9,0,2],[3,8,0]] 2 (order (fun _ => false) [[0,1,4],[9,0,2],[3,8,0]] true 2) ∧
    ∀ other, Visits [[0,1,4],[9,0,2],[3,8,0]] 2 other →
      length [[0,1,4],[9,0,2],[3,8,0]] (order (fun _ => false) [[0,1,4],[9,0,2],[3,8,0]] true 2) true ≤
        length [[0,1,4],[9,0,2],[3,8,0]] other true :=
  order_exact (fun _ => false) true (by decide) (by decide)

/-- Past a dozen stops it is no longer than either of the routes it starts from. -/
theorem order_seeds (late : ℕ → Bool) {cost : Costs} {start : ℕ} (closed : Bool)
    (hstart : start < cost.length) (hmany : exactUpTo < cost.length-1) :
    length cost (order late cost closed start) closed ≤ length cost (inserted cost start closed) closed ∧
    length cost (order late cost closed start) closed ≤ length cost (nearest cost start) closed := by
  have htwo : ¬cost.length ≤ 2 := by
    unfold exactUpTo at hmany
    omega
  rw [order,if_neg htwo,if_neg (by omega)]
  exact (improved_spec late closed hstart).2

/-- A planned walk names every stop once, reached or not. Its walks are of a matrix with
no infinite entry. With a dozen stops or fewer reached it is no longer than the order they
were typed in; with more, than either of the routes the quick way starts from. -/
theorem plan_spec (late : ℕ → Bool) (floor : Floor) (base : Option ℕ) (stops : List ℕ)
    (hbase : ∀ b ∈ base, b < floor.w*floor.h) (hstops : ∀ s ∈ stops, s < floor.w*floor.h) :
    ((plan late floor base stops).order++(plan late floor base stops).unreachable).Perm
      (List.range stops.length) ∧
    (∀ start ∈ base.or stops.head?, reachedStops floor start stops ≠ [] →
      ∀ a ∈ mine floor start stops, ∀ d ∈ floor.distances a (mine floor start stops), d ≠ ⊤) ∧
    ((plan late floor base stops).order.length ≤ exactUpTo →
      (plan late floor base stops).walked ≤ (plan late floor base stops).typed) ∧
    ∀ start ∈ base.or stops.head?, exactUpTo < (plan late floor base stops).order.length →
      (plan late floor base stops).walked ≤ length (matrix floor start stops)
        (inserted (matrix floor start stops) 0 base.isSome) base.isSome ∧
      (plan late floor base stops).walked ≤ length (matrix floor start stops)
        (nearest (matrix floor start stops) 0) base.isSome := by
  unfold plan
  cases hstart : base.or stops.head? with
  | none =>
    have hnone : stops = [] := List.head?_eq_none_iff.mp (Option.or_eq_none_iff.mp hstart).2
    subst hnone
    simp
  | some start =>
    have hon : start < floor.w*floor.h := by
      rcases Option.or_eq_some_iff.mp hstart with h | ⟨-,h⟩
      · exact hbase start h
      · exact hstops start (List.mem_of_mem_head? h)
    have hzero : 0 < (matrix floor start stops).length := by simp
    have hvisits := order_visits late base.isSome hzero
    have hroute := tail_reached hvisits (matrix_length floor start stops)
    have hcount := hroute.length_eq
    refine ⟨?_,?_,fun hfew => ?_,?_⟩
    · refine (hroute.append_right _).trans ?_
      exact List.filter_append_perm _ _
    · rintro _ ⟨⟩ hsome
      exact mine_finite hon hsome
    · have htyped : Visits (matrix floor start stops) 0 (List.range (mine floor start stops).length) := by
        refine ⟨?_,by simp [mine,List.range_succ_eq_map]⟩
        simp [mine]
      dsimp only at hfew
      rw [hcount] at hfew
      exact order_least late base.isSome hzero (by simpa using hfew) htyped
    · rintro _ ⟨⟩ hmany
      dsimp only at hmany
      rw [hcount] at hmany
      exact order_seeds late base.isSome hzero (by simpa using hmany)

/-- An aisle one spot wide, and stops along it typed up one way and then the other. -/
def aisle : Floor := ⟨1,15,1,List.replicate 15 true,one_cell,by norm_num⟩

def aisleStops : List ℕ := [8,9,12,13,14,7,6,5,4,3,2,1,0]

theorem plan_spec_aisle :
    ((plan (fun _ => true) aisle none aisleStops).order++
      (plan (fun _ => true) aisle none aisleStops).unreachable).Perm (List.range aisleStops.length) ∧
    (∀ start ∈ none.or aisleStops.head?, reachedStops aisle start aisleStops ≠ [] →
      ∀ a ∈ mine aisle start aisleStops, ∀ d ∈ aisle.distances a (mine aisle start aisleStops), d ≠ ⊤) ∧
    ((plan (fun _ => true) aisle none aisleStops).order.length ≤ exactUpTo →
      (plan (fun _ => true) aisle none aisleStops).walked ≤
        (plan (fun _ => true) aisle none aisleStops).typed) ∧
    ∀ start ∈ none.or aisleStops.head?,
      exactUpTo < (plan (fun _ => true) aisle none aisleStops).order.length →
      (plan (fun _ => true) aisle none aisleStops).walked ≤ length (matrix aisle start aisleStops)
        (inserted (matrix aisle start aisleStops) 0 false) false ∧
      (plan (fun _ => true) aisle none aisleStops).walked ≤ length (matrix aisle start aisleStops)
        (nearest (matrix aisle start aisleStops) 0) false :=
  plan_spec (fun _ => true) aisle none aisleStops (by simp) (by decide)

/-- With no time to polish, the walk along the aisle is longer than it was typed. -/
theorem plan_longer_than_typed : ¬∀ (late : ℕ → Bool) (floor : Floor) (base : Option ℕ) (stops : List ℕ),
    (∀ b ∈ base, b < floor.w*floor.h) → (∀ s ∈ stops, s < floor.w*floor.h) → stops.Nodup →
    (plan late floor base stops).walked ≤ (plan late floor base stops).typed ∧
    ((plan late floor base stops).order++(plan late floor base stops).unreachable).Perm
      (List.range stops.length) := by
  intro h
  have hshorter := (h (fun _ => true) aisle none aisleStops (by simp) (by decide) (by decide)).1
  have hlonger : ¬(plan (fun _ => true) aisle none aisleStops).walked ≤
      (plan (fun _ => true) aisle none aisleStops).typed := by decide +kernel
  exact hlonger hshorter

end Routing
end Spork
