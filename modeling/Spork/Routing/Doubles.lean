import Spork.Lib.Double
import Spork.Routing.Heuristic

/-! The order of stops as it is worked out, in doubles (`routing.rs`). What a walk comes to can
be past every double, and past them all the exact way has no walk to read back.

Walks are doubles that are not less than nothing, so no sum of them is past the least; `⊤` is
the infinity. The zeros are one. -/
namespace Spork
namespace Routing
namespace Doubles

open HeldKarp

/-- A walk there is: a double, and no less than nothing. -/
structure Finite (c : ℚ) : Prop where
  double : Double.nearest c = c
  nonneg : 0 ≤ c
  lt : c < Double.past

instance (c : ℚ) : Decidable (Finite c) :=
  decidable_of_iff (Double.nearest c = c ∧ 0 ≤ c ∧ c < Double.past)
    ⟨fun ⟨h₁,h₂,h₃⟩ => ⟨h₁,h₂,h₃⟩,fun ⟨h₁,h₂,h₃⟩ => ⟨h₁,h₂,h₃⟩⟩

def Walks (cost : Costs) : Prop := ∀ row ∈ cost, ∀ c ∈ row, Finite c

instance (cost : Costs) : Decidable (Walks cost) := inferInstanceAs (Decidable (∀ row ∈ cost, ∀ c ∈ row, Finite c))

/-- The walks from each node of a route to the next, added up from the first. -/
def legs (cost : Costs) (route : List ℕ) : WithTop ℚ :=
  (route.zip route.tail).foldl (fun sum leg => Double.sum sum (walk cost leg.1 leg.2)) 0

/-- How far a walk in this order is. -/
def length (cost : Costs) (route : List ℕ) (closed : Bool) : WithTop ℚ :=
  if closed = true ∧ route.length > 1 then
    Double.sum (legs cost route) (walk cost (route.getLastD 0) (route.headD 0))
  else legs cost route

/-! ## The exact way -/

def walkOn (cost : Costs) (others : List ℕ) (i j : ℕ) (here : ℚ) : WithTop ℚ :=
  Double.sum here (walk cost (others.getD i 0) (others.getD j 0))

def walkHome (cost : Costs) (start : ℕ) (closed : Bool) (others : List ℕ) (j : ℕ) (b : WithTop ℚ) : WithTop ℚ :=
  Double.sum b (if closed then walk cost (others.getD j 0) start else 0)

def exactTable (cost : Costs) (start : ℕ) (others : List ℕ) : Table ℚ :=
  table (setOut cost start others) (walkOn cost others) others.length

/-- Where the best walk over all the others ends, by its place among them. -/
def endOf (cost : Costs) (start : ℕ) (closed : Bool) (others : List ℕ) : ℕ :=
  lastStop (walkHome cost start closed others) others.length (exactTable cost start others)

/-- Held-Karp. The walk back is over as many stops as there are at most. -/
def exact (cost : Costs) (start : ℕ) (closed : Bool) : List ℕ :=
  let others := othersOf cost start
  ((back (exactTable cost start others) cost.length (full others.length) (endOf cost start closed others)).map
    fun js => (js.map (others.getD · 0)++[start]).reverse).getD []

/-! ## The quick way -/

/-- What a route has to be shorter by. -/
def nano : ℚ := Double.nearest Routing.nano

/-- What putting `k` into a route at a place adds. -/
def added (cost : Costs) (start : ℕ) (closed : Bool) (route : List ℕ) (k place : ℕ) : WithTop ℚ :=
  let before := route.getD (place-1) 0
  if place = route.length then
    Double.sum (walk cost before k) (if closed then Double.nearest (walk cost k start-walk cost before start) else 0)
  else Double.sum (Double.sum (walk cost before k) (walk cost k (route.getD place 0)))
    (-walk cost before (route.getD place 0))

/-- Nearest insertion: the stop nearest the route so far, where it adds least. -/
def inserted (cost : Costs) (start : ℕ) (closed : Bool) : List ℕ :=
  insertedFrom cost (fun route k => leastPlace route.length (added cost start closed route k))
    (othersOf cost start).length [start] (othersOf cost start)

section
variable (late : ℕ → Bool) (cost : Costs) (closed : Bool)

def less (route route' : List ℕ) : Bool := length cost route closed < length cost route' closed

def shorter (tried route : List ℕ) : Bool := Double.sum (length cost tried closed) nano < length cost route closed

/-- The quick way, for a walk too long to solve exactly. -/
def improved (start : ℕ) : List ℕ :=
  improvedBy late (shorter cost closed) (less cost closed) cost.length (inserted cost start closed)
    (nearest cost start)

/-- The order to visit every stop in, starting at `start` and, when `closed`, coming back to it. -/
def order (start : ℕ) : List ℕ :=
  if cost.length ≤ 2 then start :: othersOf cost start
  else if cost.length-1 ≤ exactUpTo then exact cost start closed
  else improved late cost closed start

end

/-! ## What comes to a double -/

/-- Some walk from `start` round all the others and back comes to a double, or, to the last of them,
one that ends at the first of the others. -/
def Reached (cost : Costs) (start : ℕ) (others : List ℕ) : Prop :=
  ∃ tail : List ℕ, tail.Perm others ∧ (length cost (start :: tail) true ≠ ⊤ ∨
    tail.getLastD 0 = others.headD 0 ∧ length cost (start :: tail) false ≠ ⊤)

theorem Walks.walk {cost : Costs} (h : Walks cost) (i j : ℕ) : Finite (walk cost i j) := by
  have hzero : Finite 0 := by decide +kernel
  rw [Routing.walk,List.getD_eq_getElem?_getD,List.getD_eq_getElem?_getD]
  cases hrow : cost[i]? with
  | none => simpa using hzero
  | some row =>
    rw [Option.getD_some]
    cases hc : row[j]? with
    | none => exact hzero
    | some c => exact h row (List.mem_of_getElem? hrow) c (List.mem_of_getElem? hc)

/-- The first walk is the double it is. -/
theorem Finite.sum_zero {c : ℚ} (h : Finite c) : Double.sum 0 c = c := by
  change (if Double.nearest (0+c) < Double.past then (Double.nearest (0+c) : WithTop ℚ) else ⊤) = c
  rw [zero_add,h.double,if_pos h.lt]

theorem legs_concat (cost : Costs) (xs : List ℕ) (a b : ℕ) :
    legs cost (xs++[a,b]) = Double.sum (legs cost (xs++[a])) (walk cost a b) := by
  have hzip : (xs++[a,b]).zip (xs++[a,b]).tail = (xs++[a]).zip (xs++[a]).tail++[(a,b)] := by
    induction xs with
    | nil => rfl
    | cons x xs ih =>
      cases xs with
      | nil => rfl
      | cons y ys => simpa using ih
  rw [legs,hzip,List.foldl_append]
  rfl

theorem along_eq {cost : Costs} (hcost : Walks cost) (start : ℕ) (others : List ℕ) (j : ℕ) (rest : List ℕ) :
    along (setOut cost start others) (walkOn cost others) (j :: rest) =
    legs cost (((j :: rest).map (others.getD · 0)++[start]).reverse) := by
  induction rest generalizing j with
  | nil => simpa [along,legs,setOut] using ((hcost.walk start _).sum_zero).symm
  | cons k rest ih =>
    have hstep : along (setOut cost start others) (walkOn cost others) (j :: k :: rest) =
        Double.sum (along (setOut cost start others) (walkOn cost others) (k :: rest))
          (walk cost (others.getD k 0) (others.getD j 0)) := by
      rw [along]
      cases along (setOut cost start others) (walkOn cost others) (k :: rest) <;> rfl
    rw [hstep,ih]
    simp only [List.map_cons,List.cons_append,List.reverse_cons,List.append_assoc,List.nil_append]
    rw [legs_concat]

/-- The length of a round that goes last to the stop at `j`. -/
theorem length_eq (cost : Costs) (start : ℕ) (others : List ℕ) (j : ℕ) (rest : List ℕ) :
    length cost (((j :: rest).map (others.getD · 0)++[start]).reverse) true =
      walkHome cost start true others j (legs cost (((j :: rest).map (others.getD · 0)++[start]).reverse)) := by
  have hroute : ((j :: rest).map (others.getD · 0)++[start]).reverse =
      (start :: (rest.map (others.getD · 0)).reverse)++[others.getD j 0] := by simp
  rw [length,if_pos ⟨rfl,by simp⟩,walkHome,hroute,List.getLastD_concat]
  simp

section
variable {cost : Costs} {start : ℕ} {others : List ℕ}

/-- The table's best walk over all the others ending at one is no more than any there is. -/
theorem best_le (hcost : Walks cost) {j : ℕ} {rest : List ℕ} (hperm : (j :: rest).Perm (List.range others.length)) :
    (exactTable cost start others).best (full others.length) j ≤
      legs cost (((j :: rest).map (others.getD · 0)++[start]).reverse) := by
  have hmono : ∀ i j, Monotone (walkOn cost others i j) := fun i j u v huv =>
    Double.sum_mono (walk cost (others.getD i 0) (others.getD j 0)) (WithTop.coe_le_coe.mpr huv)
  have hleast : (exactTable cost start others).best (full others.length) j ≤ _ := table_le hmono hperm
  rwa [along_eq hcost] at hleast

/-- The best walk home is from the stop ended at. -/
theorem endOf_spec (hsome : 0 < others.length) : endOf cost start true others < others.length ∧
    ∀ i < others.length, walkHome cost start true others (endOf cost start true others)
        ((exactTable cost start others).best (full others.length) (endOf cost start true others)) ≤
      walkHome cost start true others i ((exactTable cost start others).best (full others.length) i) :=
  lastStop_spec hsome

/-- When no walk home comes to a double, the first stop is the one ended at. -/
theorem endOf_none (hsome : 0 < others.length) (h : walkHome cost start true others (endOf cost start true others)
    ((exactTable cost start others).best (full others.length) (endOf cost start true others)) = ⊤) :
    endOf cost start true others = 0 :=
  lastStop_none hsome fun i hi => top_le_iff.mp (h ▸ (endOf_spec hsome).2 i hi)

/-- A walk the table has is read back whole. -/
theorem exact_whole (hcost : Walks cost) (hstart : start < cost.length) (hothers : others = othersOf cost start) {v : ℚ}
    (hv : (exactTable cost start others).best (full others.length) (endOf cost start true others) = v) :
    ∃ rest, (endOf cost start true others :: rest).Perm (List.range others.length) ∧
      exact cost start true = ((endOf cost start true others :: rest).map (others.getD · 0)++[start]).reverse ∧
      legs cost (exact cost start true) = v := by
  obtain ⟨rest,hperm,halong,hback⟩ := table_back hv
  have hshort : rest.length < cost.length := by
    have hlen := hothers ▸ othersOf_length hstart
    have := hperm.length_eq
    simp at this
    omega
  have hread : back (exactTable cost start others) cost.length (full others.length) (endOf cost start true others) =
      some (endOf cost start true others :: rest) := hback cost.length hshort
  have hexact : exact cost start true =
      ((endOf cost start true others :: rest).map (others.getD · 0)++[start]).reverse := by
    unfold exact
    simp only [← hothers]
    rw [hread]
    rfl
  rw [along_eq hcost] at halong
  exact ⟨rest,hperm,hexact,hexact ▸ halong⟩

/-- Where it has none, the stop it would end at is the only one read. -/
theorem exact_cut (hstart : start < cost.length) (hothers : others = othersOf cost start)
    (htop : (exactTable cost start others).best (full others.length) (endOf cost start true others) = ⊤) :
    exact cost start true = [start,others.getD (endOf cost start true others) 0] := by
  have hread : back (exactTable cost start others) cost.length (full others.length) (endOf cost start true others) =
      some [endOf cost start true others] := table_back_none htop (by omega)
  unfold exact
  simp only [← hothers]
  rw [hread]
  rfl

theorem exact_visits_best (hcost : Walks cost) (hstart : start < cost.length) (hothers : others = othersOf cost start)
    (hmore : 3 ≤ cost.length) : Visits cost start (exact cost start true) ↔
    (exactTable cost start others).best (full others.length) (endOf cost start true others) ≠ ⊤ := by
  constructor
  · rintro ⟨hperm,-⟩ htop
    have := hperm.length_eq
    rw [exact_cut hstart hothers htop,List.length_range] at this
    simp at this
    omega
  · intro hne
    obtain ⟨v,hv⟩ := WithTop.ne_top_iff_exists.mp hne
    obtain ⟨rest,hperm,hexact,-⟩ := exact_whole hcost hstart hothers hv.symm
    rw [hexact]
    refine (visits_iff hstart _).mpr ⟨((endOf cost start true others :: rest).map (others.getD · 0)).reverse,by simp,?_⟩
    exact hothers ▸ places_perm hperm

/-- The exact way goes round all the stops when some walk round them comes to a double, and only
then. -/
theorem exact_visits (hcost : Walks cost) (hstart : start < cost.length) (hothers : others = othersOf cost start)
    (hmore : 3 ≤ cost.length) :
    Visits cost start (exact cost start true) ↔ Reached cost start others := by
  have hlen : others.length+1 = cost.length := hothers ▸ othersOf_length hstart
  have hsome : 0 < others.length := by omega
  have hmin := (@endOf_spec cost start others hsome).2
  rw [exact_visits_best hcost hstart hothers hmore]
  constructor
  · intro hne
    obtain ⟨v,hv⟩ := WithTop.ne_top_iff_exists.mp hne
    obtain ⟨rest,hperm,hexact,hlegs⟩ := exact_whole hcost hstart hothers hv.symm
    rw [hexact] at hlegs
    refine ⟨_,places_perm hperm,?_⟩
    have hround : start :: ((endOf cost start true others :: rest).map (others.getD · 0)).reverse =
        ((endOf cost start true others :: rest).map (others.getD · 0)++[start]).reverse := by simp
    rw [hround,length_eq,hlegs]
    by_cases hhome : walkHome cost start true others (endOf cost start true others) v = ⊤
    · have hfirst := endOf_none hsome (hv ▸ hhome)
      refine Or.inr ⟨?_,?_⟩
      · rw [hfirst,List.map_cons,List.reverse_cons,List.getLastD_concat]
        cases others <;> rfl
      · rw [length,if_neg (by simp),hlegs]
        exact WithTop.coe_ne_top
    · exact Or.inl hhome
  · rintro ⟨tail,htail,hreach⟩ htop
    have hnodup : others.Nodup := hothers ▸ othersOf_nodup cost start
    obtain ⟨j,rest,hjs,hround⟩ := route_places start hsome hnodup htail
    have hin : j < others.length := List.mem_range.mp (hjs.mem_iff.mp (by simp))
    have hleast : _ ≤ legs cost (((j :: rest).map (others.getD · 0)++[start]).reverse) := best_le hcost hjs
    rcases hreach with hround' | ⟨hends,hopen⟩
    · rw [htop] at hmin
      refine hround' (top_le_iff.mp ((hmin j hin).trans ?_))
      rw [hround,length_eq]
      exact Double.sum_mono _ hleast
    · have hlast : others.getD j 0 = others.getD 0 0 := by
        have htail' : tail = (rest.map (others.getD · 0)).reverse++[others.getD j 0] := by simpa using hround
        rw [htail',List.getLastD_concat] at hends
        rw [hends]
        cases others <;> rfl
      have hzero : j = 0 := by
        rw [List.getD_eq_getElem _ _ hin,List.getD_eq_getElem _ _ hsome] at hlast
        exact hnodup.getElem_inj_iff.mp hlast
      have hfirst : endOf cost start true others = 0 := endOf_none hsome (by rw [htop]; rfl)
      rw [length,if_neg (by simp),hround] at hopen
      rw [hfirst,← hzero] at htop
      exact hopen (top_le_iff.mp (htop ▸ hleast))

end

/-- A round of stops visits every one of them, unless there are two to a dozen and no walk round
them comes to a double. -/
theorem order_visits (late : ℕ → Bool) {cost : Costs} {start : ℕ} (hcost : Walks cost) (hstart : start < cost.length) :
    Visits cost start (order late cost true start) ↔
      (3 ≤ cost.length → cost.length ≤ exactUpTo+1 → Reached cost start (othersOf cost start)) := by
  unfold order
  split_ifs with hfew hexact
  · have hvisits : Visits cost start (start :: othersOf cost start) := ⟨othersOf_perm hstart,rfl⟩
    exact ⟨fun _ hmore => absurd hmore (by omega),fun _ => hvisits⟩
  · rw [exact_visits hcost hstart rfl (by omega)]
    exact ⟨fun h _ _ => h,fun h => h (by omega) (by omega)⟩
  · have hvisits : Visits cost start (improved late cost true start) :=
      improvedBy_visits _ _ (insertedFrom_visits hstart) (nearest_visits hstart)
    exact ⟨fun _ _ hmore => absurd hmore (by omega),fun _ => hvisits⟩

/-- A round that does not visit them all goes to one stop. -/
theorem order_short (late : ℕ → Bool) {cost : Costs} {start : ℕ} (hcost : Walks cost) (hstart : start < cost.length)
    (h : ¬Visits cost start (order late cost true start)) : ∃ k, order late cost true start = [start,k] := by
  have hmore : 3 ≤ cost.length ∧ cost.length ≤ exactUpTo+1 ∧ ¬Reached cost start (othersOf cost start) := by
    simpa [order_visits late hcost hstart] using h
  have hne : order late cost true start = exact cost start true := by
    rw [order,if_neg (by omega),if_pos (by omega)]
  rw [hne] at h ⊢
  exact ⟨_,exact_cut hstart rfl (by simpa [exact_visits_best hcost hstart rfl hmore.1] using h)⟩

end Doubles
end Routing
end Spork
