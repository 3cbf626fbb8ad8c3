import Spork.Lib.HeldKarp

/-! The order of stops that walks least (`routing.rs`), for a walk of few stops, in exact
arithmetic. The table is a function of a set and a stop, where the source keeps one flat
array of the two. -/
namespace Spork
namespace Routing

open HeldKarp

/-- The walk from each node to each. -/
abbrev Costs := List (List ℚ)

def walk (cost : Costs) (i j : ℕ) : ℚ := (cost.getD i []).getD j 0

/-- The walks from each node of a route to the next. -/
def legs (cost : Costs) : List ℕ → ℚ
  | a :: b :: rest => walk cost a b+legs cost (b :: rest)
  | _ => 0

/-- How far a walk in this order is. -/
def length (cost : Costs) (route : List ℕ) (closed : Bool) : ℚ :=
  if closed = true ∧ route.length > 1 then
    legs cost route+walk cost (route.getLastD 0) (route.headD 0)
  else legs cost route

/-! ## The order itself -/

/-- The stops besides the start. -/
def othersOf (cost : Costs) (start : ℕ) : List ℕ := (List.range cost.length).filter (· ≠ start)

/-- From the start to a stop, by its place among the others. -/
def setOut (cost : Costs) (start : ℕ) (others : List ℕ) (j : ℕ) : ℚ := walk cost start (others.getD j 0)

/-- A walk as far as `here` at `i`, walked on to `j`. -/
def walkOn (cost : Costs) (others : List ℕ) (i j : ℕ) (here : ℚ) : WithTop ℚ :=
  (here+walk cost (others.getD i 0) (others.getD j 0) : ℚ)

/-- A walk as far as `b` at `j`, and the way home of one that is closed. -/
def walkHome (cost : Costs) (start : ℕ) (closed : Bool) (others : List ℕ) (j : ℕ) (b : WithTop ℚ) : WithTop ℚ :=
  b+((if closed then walk cost (others.getD j 0) start else 0 : ℚ) : WithTop ℚ)

def exactTable (cost : Costs) (start : ℕ) (others : List ℕ) : Table ℚ :=
  table (setOut cost start others) (walkOn cost others) others.length

/-- `exact`, its walk back run to `depth` at most. -/
def exactWithin (depth : ℕ) (cost : Costs) (start : ℕ) (closed : Bool) : Option (List ℕ) :=
  let others := othersOf cost start
  let t := exactTable cost start others
  (back t depth (full others.length) (lastStop (walkHome cost start closed others) others.length t)).map fun js =>
    (js.map (others.getD · 0)++[start]).reverse

/-- Held-Karp. The walk back is over as many stops as there are, so it comes back at this
depth whenever there is a stop to end at (`exactWithin_spec`). -/
def exact (cost : Costs) (start : ℕ) (closed : Bool) : List ℕ :=
  (exactWithin cost.length cost start closed).getD []

/-- An order to visit every node in, from `start`. -/
structure Visits (cost : Costs) (start : ℕ) (route : List ℕ) : Prop where
  perm : route.Perm (List.range cost.length)
  starts : route.head? = some start

theorem mem_othersOf {cost : Costs} {start k : ℕ} :
    k ∈ othersOf cost start ↔ k < cost.length ∧ k ≠ start := by
  simp [othersOf]

theorem othersOf_nodup (cost : Costs) (start : ℕ) : (othersOf cost start).Nodup :=
  List.nodup_range.filter _

theorem othersOf_perm {cost : Costs} {start : ℕ} (hstart : start < cost.length) :
    (start :: othersOf cost start).Perm (List.range cost.length) := by
  apply (List.perm_ext_iff_of_nodup _ List.nodup_range).mpr
  · intro k
    rw [List.mem_cons,mem_othersOf,List.mem_range]
    by_cases hk : k = start
    · simp [hk,hstart]
    · simp [hk]
  · exact List.nodup_cons.mpr ⟨by simp [mem_othersOf],othersOf_nodup cost start⟩

theorem othersOf_length {cost : Costs} {start : ℕ} (hstart : start < cost.length) :
    (othersOf cost start).length+1 = cost.length := by
  simpa using (othersOf_perm hstart).length_eq

/-- Visiting is starting at the start and going round the others in some order. -/
theorem visits_iff {cost : Costs} {start : ℕ} (hstart : start < cost.length) (route : List ℕ) :
    Visits cost start route ↔ ∃ tail, route = start :: tail ∧ tail.Perm (othersOf cost start) := by
  constructor
  · rintro ⟨hperm,hhead⟩
    obtain ⟨tail,rfl⟩ : ∃ tail, route = start :: tail := by
      cases route with
      | nil => cases hhead
      | cons a tail => exact ⟨tail,by rw [Option.some.inj hhead]⟩
    exact ⟨tail,rfl,(List.perm_cons start).mp (hperm.trans (othersOf_perm hstart).symm)⟩
  · rintro ⟨tail,rfl,hperm⟩
    exact ⟨(hperm.cons start).trans (othersOf_perm hstart),rfl⟩

theorem legs_concat (cost : Costs) (xs : List ℕ) (a b : ℕ) :
    legs cost (xs++[a,b]) = legs cost (xs++[a])+walk cost a b := by
  induction xs with
  | nil => simp [legs]
  | cons x xs ih =>
    cases xs with
    | nil => simp [legs]
    | cons y ys =>
      simp only [List.cons_append] at ih ⊢
      rw [legs,legs,ih,add_assoc]

/-- The walk along stops, given the last first, is that of the route through them. -/
theorem along_eq (cost : Costs) (start : ℕ) (others : List ℕ) (j : ℕ) (rest : List ℕ) :
    along (setOut cost start others) (walkOn cost others) (j :: rest) =
    (legs cost (((j :: rest).map (others.getD · 0)++[start]).reverse) : ℚ) := by
  induction rest generalizing j with
  | nil => simp [along,setOut,legs]
  | cons k rest ih =>
    rw [along,ih]
    dsimp only [walkOn]
    simp only [List.map_cons,List.cons_append,List.reverse_cons,List.append_assoc,List.nil_append]
    rw [legs_concat]

/-- Closed or open, the length of a route that goes last to the stop at `j`. -/
theorem length_eq (cost : Costs) (start : ℕ) (closed : Bool) (others : List ℕ) (j : ℕ) (rest : List ℕ) :
    length cost (((j :: rest).map (others.getD · 0)++[start]).reverse) closed =
      legs cost (((j :: rest).map (others.getD · 0)++[start]).reverse)+
        if closed then walk cost (others.getD j 0) start else 0 := by
  have hroute : ((j :: rest).map (others.getD · 0)++[start]).reverse =
      (start :: (rest.map (others.getD · 0)).reverse)++[others.getD j 0] := by simp
  unfold length
  cases closed with
  | false => simp
  | true =>
    rw [if_pos ⟨rfl,by simp⟩,hroute,List.getLastD_concat]
    simp

theorem map_getD_range (others : List ℕ) : (List.range others.length).map (others.getD · 0) = others := by
  apply List.ext_getElem (by simp)
  intro i h₁ h₂
  simp [h₂]

/-- All stops by their places, the last first, are the stops. -/
theorem places_perm {others js : List ℕ} (h : js.Perm (List.range others.length)) :
    (js.map (others.getD · 0)).reverse.Perm others := by
  refine (List.reverse_perm _).trans ((h.map _).trans ?_)
  rw [map_getD_range]

theorem othersOf_zero {cost : Costs} {n : ℕ} (hlen : cost.length = n+1) :
    othersOf cost 0 = (List.range n).map (·+1) := by
  rw [othersOf,hlen,List.range_succ_eq_map]
  simp [List.filter_map,Function.comp_def]

/-- After the start at 0 a route goes to every other node. -/
theorem visits_rest {cost : Costs} {n : ℕ} {route : List ℕ} (hroute : Visits cost 0 route)
    (hlen : cost.length = n+1) : (route.drop 1).Perm ((List.range n).map (·+1)) := by
  obtain ⟨tail,rfl,htail⟩ := (visits_iff (by omega) route).mp hroute
  exact othersOf_zero hlen ▸ htail

theorem idxOf_map_self {others : List ℕ} (h : others.Nodup) :
    others.map (others.idxOf ·) = List.range others.length := by
  apply List.ext_getElem (by simp)
  intro i h₁ h₂
  rw [List.getElem_map,List.getElem_range]
  exact h.idxOf_getElem i (by simpa using h₁)

/-- Stops in some order, by their places. -/
theorem perm_places {others tail : List ℕ} (hnodup : others.Nodup) (h : tail.Perm others) :
    ∃ js : List ℕ, js.Perm (List.range others.length) ∧ js.map (others.getD · 0) = tail := by
  refine ⟨tail.map (others.idxOf ·),?_,?_⟩
  · rw [← idxOf_map_self hnodup]
    exact h.map _
  · rw [List.map_map]
    apply List.map_congr_left (g := id) _ |>.trans (List.map_id _)
    intro k hk
    simp [List.idxOf_lt_length_of_mem (h.mem_iff.mp hk)]

/-- A route round all the others, by the places of those it goes to, the last first. -/
theorem route_places {others tail : List ℕ} (start : ℕ) (hsome : 0 < others.length) (hnodup : others.Nodup)
    (h : tail.Perm others) : ∃ j rest, (j :: rest).Perm (List.range others.length) ∧
      start :: tail = ((j :: rest).map (others.getD · 0)++[start]).reverse := by
  obtain ⟨js,hjs,hmap⟩ := perm_places hnodup (tail.reverse_perm.trans h)
  cases js with
  | nil =>
    have hnone := hjs.length_eq
    simp at hnone
    omega
  | cons j rest =>
    refine ⟨j,rest,hjs,?_⟩
    rw [hmap]
    simp

/-- The order comes back, visits every node, and no order that does walks less. -/
theorem exactWithin_spec (cost : Costs) (start : ℕ) (closed : Bool) (hstart : start < cost.length)
    (hmore : 2 ≤ cost.length) : ∃ route, (∀ depth, cost.length ≤ depth →
      exactWithin depth cost start closed = some route) ∧ Visits cost start route ∧
      ∀ other, Visits cost start other → length cost route closed ≤ length cost other closed := by
  set others := othersOf cost start with hothers
  have hlen : others.length+1 = cost.length := othersOf_length hstart
  have hmono : ∀ i j, Monotone (walkOn cost others i j) := fun i j u v huv =>
    WithTop.coe_le_coe.mpr (add_le_add_left huv _)
  have hends {j : ℕ} {rest : List ℕ} (hperm : (j :: rest).Perm (List.range others.length)) :
      walkHome cost start closed others j ((exactTable cost start others).best (full others.length) j) ≤
        (length cost (((j :: rest).map (others.getD · 0)++[start]).reverse) closed : ℚ) := by
    have hleast : (exactTable cost start others).best (full others.length) j ≤ _ := table_le hmono hperm
    rw [along_eq] at hleast
    rw [length_eq,walkHome,WithTop.coe_add]
    exact add_le_add_left hleast _
  -- the best last stop, and the walk the table has ending there
  obtain ⟨hlast,hmin⟩ : _ ∧ _ := @lastStop_spec ℚ _ others.length (walkHome cost start closed others)
    (exactTable cost start others) (by omega)
  set j := lastStop (walkHome cost start closed others) others.length (exactTable cost start others) with hj
  obtain ⟨v,hv⟩ : ∃ v : ℚ, (exactTable cost start others).best (full others.length) j = v := by
    have hleast : (exactTable cost start others).best (full others.length) j ≤ _ :=
      table_le hmono (List.perm_cons_erase (List.mem_range.mpr hlast)).symm
    rw [along_eq] at hleast
    obtain ⟨v,hv,-⟩ := WithTop.le_coe_iff.mp hleast
    exact ⟨v,hv⟩
  obtain ⟨rest,hperm,halong,hback⟩ := table_back hv
  rw [along_eq] at halong
  have hwithin (depth : ℕ) (hdepth : cost.length ≤ depth) : exactWithin depth cost start closed =
      some (((j :: rest).map (others.getD · 0)++[start]).reverse) := by
    have hshort : rest.length < depth := by
      have := hperm.length_eq
      simp at this
      omega
    have hread : back (exactTable cost start others) depth (full others.length) j = some (j :: rest) :=
      hback depth hshort
    unfold exactWithin
    simp only [← hothers,← hj]
    rw [hread]
    rfl
  have hvisits : Visits cost start (((j :: rest).map (others.getD · 0)++[start]).reverse) :=
    (visits_iff hstart _).mpr ⟨((j :: rest).map (others.getD · 0)).reverse,by simp,places_perm hperm⟩
  refine ⟨_,hwithin,hvisits,?_⟩
  intro other hother
  obtain ⟨tail,rfl,htail⟩ := (visits_iff hstart other).mp hother
  obtain ⟨j',rest',hjs,hother⟩ : ∃ j' rest', (j' :: rest').Perm (List.range others.length) ∧ _ :=
    route_places start (by omega) (othersOf_nodup cost start) htail
  have hin : j' < others.length := List.mem_range.mp (hjs.mem_iff.mp (by simp))
  have hle := (hmin j' hin).trans (hends hjs)
  rw [hv,← halong,walkHome,← WithTop.coe_add,← length_eq] at hle
  rw [hother]
  exact WithTop.coe_le_coe.mp hle

/-- `exact` visits every node, and no other order walks less. -/
theorem exact_spec (cost : Costs) (start : ℕ) (closed : Bool) (hstart : start < cost.length)
    (hmore : 2 ≤ cost.length) : Visits cost start (exact cost start closed) ∧
      ∀ other, Visits cost start other →
        length cost (exact cost start closed) closed ≤ length cost other closed := by
  obtain ⟨route,hroute,hspec⟩ := exactWithin_spec cost start closed hstart hmore
  rw [exact,hroute cost.length le_rfl]
  exact hspec

end Routing
end Spork
