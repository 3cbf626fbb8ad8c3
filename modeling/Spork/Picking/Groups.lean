import Spork.Routing.Doubles

/-! Which waiting orders are picked together, and who walks them (`pick_groups.rs`).

A walk round a set of stops is worked out once and remembered, so what it is depends on
the set alone; `clocks` is what the clock said, look by look, while that was done. Walks and what is
worked out from them are doubles; `sign` is the sign of those that are no number. -/
namespace Spork
namespace Picking

open Routing

/-- One thing to take from a shelf for an order. -/
structure Pick where
  order : ℕ
  /-- Where a picker stands to take it, a node of the cost matrix. `none` when its bin
  isn't on the layout or can't be reached. -/
  stop : Option ℕ
  /-- Which shelf and product it is. -/
  what : ℕ
  deriving DecidableEq, Repr

/-- How the batch is shared out. -/
structure Settings where
  pickers : ℕ
  /-- The most orders one trip takes, when there is a most. -/
  perTrip : Option ℕ
  /-- A shelf wanted by orders on different trips is walked to by one. -/
  gather : Bool
  /-- What a stop costs beside walking, in the matrix's units. -/
  stopCost : F64
  deriving DecidableEq, Repr

/-- One walk. -/
structure Trip where
  orders : List ℕ
  /-- Its stops in walking order, each with the picks taken there, by their index. -/
  stops : List (ℕ × List ℕ)
  /-- Picks whose bin isn't on the floor. -/
  offRoute : List ℕ
  walked : F64
  deriving DecidableEq, Repr

/-- Every picker's trips. -/
structure Plan where
  pickers : List (List Trip)
  deriving DecidableEq, Repr

/-- Where the pick at `i` is taken. -/
def stopAt (picks : List Pick) (i : ℕ) : Option ℕ := picks[i]?.bind Pick.stop

def orderAt (picks : List Pick) (i : ℕ) : ℕ := (picks[i]?.map Pick.order).getD 0

def whatAt (picks : List Pick) (i : ℕ) : ℕ := (picks[i]?.map Pick.what).getD 0

/-- A division rounded up. -/
def divCeil (a b : ℕ) : ℕ := (a+b-1)/b

/-- The most orders a trip carries. -/
def cap (orders : ℕ) (settings : Settings) : ℕ :=
  max (settings.perTrip.getD (divCeil orders (max settings.pickers 1))) 1

section
variable (cost : Costs) (clocks : List ℕ → ℕ → Bool) (sign : Bool)

/-- The walks between some of the nodes. -/
def between (nodes : List ℕ) : Costs := nodes.map fun a => nodes.map fun b => walk cost a b

/-- The stops in walking order from the bench and back, and how far that is. -/
def route (stops : Finset ℕ) : List ℕ × F64 :=
  let key := stops.sort (· ≤ ·)
  let nodes := 0 :: key
  let sub := between cost nodes
  let order := Doubles.order (clocks key) sub true 0
  ((order.drop 1).map fun i => nodes.getD i 0,F64.of (Doubles.length sub order true))

/-- How far a walk round these stops is. -/
def walkLength (stops : Finset ℕ) : F64 := (route cost clocks stops).2

/-! ## Trips -/

/-- Which stops an order needs. -/
def needs (picks : List Pick) (o : ℕ) : Finset ℕ :=
  (picks.filterMap fun p => if p.order = o then p.stop else none).toFinset

def stopsOf (picks : List Pick) (trip : Finset ℕ) : Finset ℕ := trip.biUnion (needs picks)

/-- What two trips save by being one. -/
def saved (picks : List Pick) (x y : Finset ℕ) : F64 :=
  let sx := stopsOf picks x
  let sy := stopsOf picks y
  F64.sub sign (F64.add sign (walkLength cost clocks sx) (walkLength cost clocks sy)) (walkLength cost clocks (sx ∪ sy))

/-- What counts as nothing saved. -/
def nano : F64 := F64.fin Doubles.nano

/-- The pairs of trips, in the order they are looked at. -/
def pairs (n : ℕ) : List (ℕ × ℕ) :=
  (List.range n).flatMap fun a => (List.range' (a+1) (n-(a+1))).map (a,·)

section
variable (picks : List Pick) (most pickers : ℕ)

/-- The best pair so far, and another. -/
def consider (trips : List (Finset ℕ)) (best : Option (F64 × ℕ × ℕ)) (pair : ℕ × ℕ) :
    Option (F64 × ℕ × ℕ) :=
  let x := trips.getD pair.1 ∅
  let y := trips.getD pair.2 ∅
  if x.card+y.card > most then best
  else
    let s := saved cost clocks sign picks x y
    if F64.atMost s nano ∧ trips.length ≤ pickers then best
    else
      match best with
      | none => some (s,pair)
      | some (least,_) => if F64.less (F64.add sign least nano) s then some (s,pair) else best

/-- The two trips that walk least together. Past the point where merging saves nothing,
only while there are more trips than people to walk them. -/
def bestPair (trips : List (Finset ℕ)) : Option (F64 × ℕ × ℕ) :=
  (pairs trips.length).foldl (consider cost clocks sign picks most pickers trips) none

/-- Two trips made one. -/
def joined (trips : List (Finset ℕ)) (a b : ℕ) : List (Finset ℕ) :=
  (trips.eraseIdx b).set a (trips.getD a ∅ ∪ trips.getD b ∅)

theorem mem_pairs {n : ℕ} {pair : ℕ × ℕ} (h : pair ∈ pairs n) : pair.1 < pair.2 ∧ pair.2 < n := by
  obtain ⟨a,ha,hpair⟩ := List.mem_flatMap.mp h
  obtain ⟨b,hb,rfl⟩ := List.mem_map.mp hpair
  have hb' := List.mem_range'_1.mp hb
  exact ⟨by simp only; omega,by simp only; omega⟩

/-- The best pair is two trips that fit together. -/
theorem bestPair_fits {trips : List (Finset ℕ)} {s : F64} {a b : ℕ}
    (h : bestPair cost clocks sign picks most pickers trips = some (s,a,b)) :
    a < b ∧ b < trips.length ∧ (trips.getD a ∅).card+(trips.getD b ∅).card ≤ most := by
  refine Loop.foldl_keeps
    (fun best : Option (F64 × ℕ × ℕ) => ∀ v ∈ best, v.2.1 < v.2.2 ∧ v.2.2 < trips.length ∧
      (trips.getD v.2.1 ∅).card+(trips.getD v.2.2 ∅).card ≤ most)
    (by simp) (fun best pair hpair hbest => ?_) (s,a,b) h
  obtain ⟨hlt,hlen⟩ := mem_pairs hpair
  unfold consider
  dsimp only
  split_ifs with hfull hnothing
  · exact hbest
  · exact hbest
  · cases best with
    | none =>
      rintro v ⟨⟩
      exact ⟨hlt,hlen,not_lt.mp hfull⟩
    | some v =>
      dsimp only
      split_ifs
      · rintro w ⟨⟩
        exact ⟨hlt,hlen,not_lt.mp hfull⟩
      · exact hbest

theorem joined_length {trips : List (Finset ℕ)} {a b : ℕ} (hb : b < trips.length) :
    (joined trips a b).length+1 = trips.length := by
  rw [joined,List.length_set,List.length_eraseIdx_of_lt hb]
  omega

/-- Merge the two trips that walk least together, while there are any. -/
def merge (trips : List (Finset ℕ)) : List (Finset ℕ) :=
  match _h : bestPair cost clocks sign picks most pickers trips with
  | none => trips
  | some (_,a,b) => merge (joined trips a b)
termination_by trips.length
decreasing_by
  have hlen := joined_length (a := a) (bestPair_fits cost clocks sign picks most pickers _h).2.1
  omega

end

/-! ## Who takes what -/

/-- Which trip carries an order. -/
def tripOf (trips : List (Finset ℕ)) (o : ℕ) : ℕ :=
  trips.zipIdx.foldl (fun t trip => if o ∈ trip.1 then trip.2 else t) 0

section
variable (picks : List Pick)

/-- Where a trip stops, with or without the picks of one shelf. -/
def stopsFor (what : ℕ) (taker : List ℕ) (t : ℕ) (without : Bool) : Finset ℕ :=
  (((List.range picks.length).filter fun i =>
    decide (taker.getD i 0 = t) && !(without && decide (whatAt picks i = what))).filterMap (stopAt picks)).toFinset

/-- What a trip loses by keeping a shelf. -/
def loss (what : ℕ) (taker : List ℕ) (t : ℕ) : F64 :=
  F64.sub sign (walkLength cost clocks (stopsFor picks what taker t false))
    (walkLength cost clocks (stopsFor picks what taker t true))

/-- One shelf gathered by the trip that loses least, the first of those that lose as
little. -/
def gatherWhat (taker : List ℕ) (what : ℕ) : List ℕ :=
  let those := (List.range picks.length).filter fun i => whatAt picks i = what
  let wanting := (those.map (taker.getD · 0)).toFinset.sort (· ≤ ·)
  if wanting.length < 2 then taker
  else
    let keeper := (wanting.argmin fun t => (loss cost clocks sign picks what taker t).key).getD (wanting.headD 0)
    those.foldl (fun taker i => taker.set i keeper) taker

/-- Each shelf wanted by more than one trip goes to the trip that loses least. -/
def gather (taker : List ℕ) : List ℕ :=
  ((picks.map Pick.what).toFinset.sort (· ≤ ·)).foldl (gatherWhat cost clocks sign picks) taker

/-! ## The plan -/

/-- A trip's walk, in order. -/
def makeTrip (taker : List ℕ) (t : ℕ) (orders : Finset ℕ) : Trip :=
  let mine := (List.range picks.length).filter fun i => taker.getD i 0 = t
  let places := (mine.filterMap (stopAt picks)).toFinset
  let r := route cost clocks places
  ⟨orders.sort (· ≤ ·),r.1.map fun s => (s,mine.filter fun i => stopAt picks i = some s),
    mine.filter fun i => stopAt picks i = none,r.2⟩

end

def work (settings : Settings) (t : Trip) : F64 :=
  F64.add sign t.walked (F64.mul sign settings.stopCost (F64.round (t.stops.length+t.offRoute.length : ℕ)))

/-- The trip with more work first, and of those with as much the one with the first order. -/
def before (settings : Settings) (x y : Trip) : Prop :=
  (work sign settings y).key < (work sign settings x).key ∨
    (work sign settings y).key = (work sign settings x).key ∧ x.orders ≤ y.orders

instance (settings : Settings) : DecidableRel (before sign settings) := fun _ _ =>
  inferInstanceAs (Decidable (_ ∨ _ ∧ _))

/-- A trip to whoever has least so far, the first of them. -/
def give (settings : Settings) (pickers : ℕ) (s : List (List Trip) × List F64) (trip : Trip) :
    List (List Trip) × List F64 :=
  let p := ((List.range pickers).argmin fun p => (s.2.getD p (F64.fin 0)).key).getD 0
  (s.1.modify p (·++[trip]),s.2.modify p (F64.add sign · (work sign settings trip)))

section
variable (orders : ℕ) (picks : List Pick) (settings : Settings)

/-- The orders on each trip. -/
def trips : List (Finset ℕ) :=
  merge cost clocks sign picks (cap orders settings) (max settings.pickers 1)
    ((List.range orders).map fun o => {o})

/-- Who takes each pick: the trip carrying its order, unless gathered. -/
def taker : List ℕ :=
  let carrying := picks.map fun p => tripOf (trips cost clocks sign orders picks settings) p.order
  if settings.gather then gather cost clocks sign picks carrying else carrying

def made : List Trip :=
  (trips cost clocks sign orders picks settings).zipIdx.map fun t =>
    makeTrip cost clocks picks (taker cost clocks sign orders picks settings) t.2 t.1

/-- Plan the batch. Node 0 of `cost` is the bench trips start and end at. -/
def plan : Plan :=
  let pickers := max settings.pickers 1
  ⟨(((made cost clocks sign orders picks settings).insertionSort (before sign settings)).foldl
    (give sign settings pickers) (List.replicate pickers [],List.replicate pickers (F64.fin 0))).1⟩

end

end

end Picking
end Spork
