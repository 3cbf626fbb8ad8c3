import Spork.Routing.HeldKarp

/-! The order of stops for a walk of any number of them (`routing.rs`): exact for a
dozen, and beyond that two routes built up stop by stop, polished and shaken for as long
as the budget allows.

The clock is looked at again and again; `late` says, look by look, whether the budget is
spent. Lengths are compared to a nanounit, as the source does. -/
namespace Spork
namespace Routing

/-- The most stops, besides the start, ordered exactly. -/
def exactUpTo : ℕ := 12

/-- What a route has to be shorter by. -/
def nano : ℚ := 1/10^9

/-- The element at `i` taken out and the last put in its place. -/
def swapRemove (xs : List ℕ) (i : ℕ) : List ℕ := (xs.set i (xs.getLastD 0)).dropLast

/-- Where the element with the least `key` is, the first of those with as little. -/
def leastAt (xs : List ℕ) (key : ℕ → WithTop ℚ) : ℕ :=
  ((List.range xs.length).argmin fun i => key (xs.getD i 0)).getD 0

/-- How far a stop is from the nearest of a route. -/
def nearestOf (cost : Costs) (route : List ℕ) (k : ℕ) : WithTop ℚ :=
  (route.map fun r => (walk cost r k : WithTop ℚ)).foldl min ⊤

/-- What putting `k` into a route at a place adds. -/
def added (cost : Costs) (start : ℕ) (closed : Bool) (route : List ℕ) (k place : ℕ) : ℚ :=
  let before := route.getD (place-1) 0
  if place = route.length then
    walk cost before k+if closed then walk cost k start-walk cost before start else 0
  else walk cost before k+walk cost k (route.getD place 0)-walk cost before (route.getD place 0)

/-- Where least is added, of `n` places, the first of such; the last when all come to too much. -/
def leastPlace (n : ℕ) (adds : ℕ → WithTop ℚ) : ℕ :=
  ((List.range' 1 n).foldl (fun (best : ℕ × WithTop ℚ) place =>
    if adds place < best.2 then (place,adds place) else best) (n,⊤)).1

/-- Where `k` adds least to a route. -/
def bestPlace (cost : Costs) (start : ℕ) (closed : Bool) (route : List ℕ) (k : ℕ) : ℕ :=
  leastPlace route.length fun place => added cost start closed route k place

/-- The stops left, as many as there are, put in one by one, each in its place. -/
def insertedFrom (cost : Costs) (place : List ℕ → ℕ → ℕ) : ℕ → List ℕ → List ℕ → List ℕ
  | 0, route, _ => route
  | more+1, route, left =>
    let pick := leastAt left (nearestOf cost route)
    let k := left.getD pick 0
    insertedFrom cost place more (route.insertIdx (place route k) k) (swapRemove left pick)

/-- Nearest insertion: the stop nearest the route so far, where it adds least. -/
def inserted (cost : Costs) (start : ℕ) (closed : Bool) : List ℕ :=
  insertedFrom cost (bestPlace cost start closed) (othersOf cost start).length [start] (othersOf cost start)

def nearestFrom (cost : Costs) : ℕ → List ℕ → List ℕ → List ℕ
  | 0, route, _ => route
  | more+1, route, left =>
    let i := leastAt left fun k => walk cost (route.getLastD 0) k
    nearestFrom cost more (route++[left.getD i 0]) (swapRemove left i)

/-- Nearest neighbour: always on to the closest stop not yet visited. -/
def nearest (cost : Costs) (start : ℕ) : List ℕ :=
  nearestFrom cost (othersOf cost start).length [start] (othersOf cost start)

/-! ## Polishing

`shorter` says when a route is enough shorter than another to be taken for it. -/

section
variable (late : ℕ → Bool) (shorter : List ℕ → List ℕ → Bool)

/-- A route with the stretch from `i` to `k` the other way round. -/
def turnedRound (route : List ℕ) (i k : ℕ) : List ℕ :=
  route.take i++((route.drop i).take (k+1-i)).reverse++route.drop (k+1)

/-- A stretch reversed, when that is shorter. -/
def tryTurned (i : ℕ) (acc : List ℕ × Bool) (k : ℕ) : List ℕ × Bool :=
  let tried := turnedRound acc.1 i k
  if shorter tried acc.1 then (tried,true) else acc

/-- 2-opt: reverse a stretch, from each of these places, while the time is not up. -/
def twoOpt : List ℕ → List ℕ × Bool → ℕ → (List ℕ × Bool) × ℕ
  | [], acc, look => (acc,look)
  | i :: is, acc, look =>
    if late look then (acc,look+1)
    else twoOpt is
      ((List.range' (i+1) (acc.1.length-(i+1))).foldl (tryTurned shorter i) acc) (look+1)

/-- A stretch put back in, either way round. -/
def putBack (rest piece : List ℕ) (place : ℕ) (flipped : Bool) : List ℕ :=
  rest.take place++(if flipped then piece.reverse else piece)++rest.drop place

/-- The routes with the stretch of `len` at `i` moved, in the order they are tried. -/
def moves (route : List ℕ) (len i : ℕ) : List (List ℕ) :=
  let rest := route.take i++route.drop (i+len)
  let piece := (route.drop i).take len
  (List.range' 1 rest.length).flatMap fun place => [false,true].filterMap fun flipped =>
    if place = i ∧ flipped = false then none else some (putBack rest piece place flipped)

/-- Or-opt: move a stretch elsewhere, from each of these places, while the time is not up. -/
def orOpt (len : ℕ) : List ℕ → List ℕ × Bool → ℕ → (List ℕ × Bool) × ℕ
  | [], acc, look => (acc,look)
  | i :: is, acc, look =>
    if late look then (acc,look+1)
    else
      match (moves acc.1 len i).find? fun tried => shorter tried acc.1 with
      | some t => orOpt len is (t,true) (look+1)
      | none => orOpt len is acc (look+1)

/-- One round of polishing. -/
def polishRound (route : List ℕ) (look : ℕ) : (List ℕ × Bool) × ℕ :=
  let s := twoOpt late shorter (List.range' 1 (route.length-2)) (route,false) look
  [1,2,3].foldl (fun s len =>
    orOpt late shorter len (List.range' 1 (route.length-len)) s.1 s.2) s

/-- 2-opt and Or-opt until neither shortens the walk, or the time is up. -/
def polishFrom : ℕ → List ℕ → ℕ → List ℕ × ℕ
  | 0, route, look => (route,look)
  | rounds+1, route, look =>
    if late look then (route,look+1)
    else
      let s := polishRound late shorter route (look+1)
      if s.1.2 then polishFrom rounds s.1.1 s.2 else (s.1.1,s.2)

def polishBy (route : List ℕ) (look : ℕ) : List ℕ × ℕ := polishFrom late shorter 50 route look

/-! ## Shaking -/

/-- A number below `below`, and the next seed. -/
def roll (seed : UInt64) (below : ℕ) : ℕ × UInt64 :=
  let seed := seed*6364136223846793005+1442695040888963407
  ((seed >>> 33).toNat%max below 1,seed)

/-- Three places to cut a walk of `n` in, in order. -/
def cuts (n : ℕ) (seed : UInt64) : List ℕ × UInt64 :=
  let (a,seed) := roll seed (n-1)
  let (b,seed) := roll seed (n-1)
  let (c,seed) := roll seed (n-1)
  ([1+a,1+b,1+c].insertionSort (· ≤ ·),seed)

/-- A walk cut in three places and its middle pieces swapped. -/
def shaken (best : List ℕ) (c₀ c₁ c₂ : ℕ) : List ℕ :=
  best.take c₀++(best.drop c₁).take (c₂-c₁)++(best.drop c₀).take (c₁-c₀)++best.drop c₂

/-- Shake and polish again, at most so many more times, keeping the best. -/
def shakeFrom : ℕ → UInt64 → List ℕ → ℕ → List ℕ
  | 0, _, best, _ => best
  | more+1, seed, best, look =>
    if best.length < 5 then best
    else if late look then best
    else
      let (cs,seed) := cuts best.length seed
      let c₀ := cs.getD 0 0
      let c₁ := cs.getD 1 0
      let c₂ := cs.getD 2 0
      if c₀ = c₁ ∨ c₁ = c₂ then shakeFrom more seed best (look+1)
      else
        let tried := polishBy late shorter (shaken best c₀ c₁ c₂) (look+1)
        if shorter tried.1 best then shakeFrom more seed tried.1 tried.2
        else shakeFrom more seed best tried.2

/-- The better of two routes polished, shaken and polished again; `less` says when the second
is the better. -/
def improvedBy (less : List ℕ → List ℕ → Bool) (n : ℕ) (inserted nearest : List ℕ) : List ℕ :=
  let first := polishBy late shorter inserted 0
  let other := polishBy late shorter nearest first.2
  let best := if less other.1 first.1 then other.1 else first.1
  shakeFrom late shorter 400 (0x9e3779b97f4a7c15 ^^^ UInt64.ofNat n) best other.2

end

/-! ## The order -/

section
variable (late : ℕ → Bool) (cost : Costs) (closed : Bool)

def less (route route' : List ℕ) : Bool := length cost route closed < length cost route' closed

def shorter (tried route : List ℕ) : Bool := length cost tried closed+nano < length cost route closed

def polish (route : List ℕ) (look : ℕ) : List ℕ × ℕ := polishBy late (shorter cost closed) route look

/-- The quick way, for a walk too long to solve exactly. -/
def improved (start : ℕ) : List ℕ :=
  improvedBy late (shorter cost closed) (less cost closed) cost.length (inserted cost start closed)
    (nearest cost start)

/-- The order to visit every stop in that walks least, starting at `start` and, when
`closed`, coming back to it. -/
def order (start : ℕ) : List ℕ :=
  if cost.length ≤ 2 then start :: othersOf cost start
  else if cost.length-1 ≤ exactUpTo then exact cost start closed
  else improved late cost closed start

end

end Routing
end Spork
