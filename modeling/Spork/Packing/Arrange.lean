import Spork.Packing.PackRun

/-! How what is left to pack would go into boxes (`arrange.ts`): each line's units
as cartons, inner packs and eaches, the open carton first, and the rest boxed the
way an objective prices lowest.

The pictures, shapes and decks a plan is drawn with are left out: nothing here
reads them. A kind is made once for a line and level, so one kind is one value. -/
namespace Spork
namespace Packing

structure StatedSize where
  lengthMm : ℤ
  widthMm : ℤ
  heightMm : ℤ
  deriving DecidableEq, Repr

/-- One of an item at a level it can leave at. -/
structure PackUnit where
  level : Level
  /-- Eaches in one of it. -/
  units : ℤ
  /-- It goes to the carrier as it is rather than into a box. -/
  shipsAsIs : Bool
  upright : Bool
  size : Option StatedSize
  /-- Somebody said it has no size to measure: it goes in round the rest. -/
  noSize : Bool
  grossWeightG : Option ℚ
  deriving DecidableEq, Repr

structure BenchLine where
  lineId : Uuid
  itemId : Uuid
  itemCode : String
  /-- Still to do at the bench. -/
  remaining : ℤ
  packs : List PackUnit
  deriving DecidableEq, Repr

structure Preset where
  id : Uuid
  name : String
  size : Option StatedSize
  suggested : Bool
  maxPayloadG : Option ℚ
  tareWeightG : Option ℚ
  deriving DecidableEq, Repr

/-- A preset with a size. -/
structure Box where
  id : Uuid
  name : String
  size : StatedSize
  suggested : Bool
  maxPayloadG : Option ℚ
  tareWeightG : Option ℚ
  deriving DecidableEq, Repr

/-- A line's units that are not placed, in units. -/
structure Aside where
  line : Uuid
  itemId : Uuid
  itemCode : String
  units : ℤ
  weightG : Option ℚ
  deriving DecidableEq, Repr

/-- Things that go to the carrier as they are: so many of one level of a line's item. -/
structure AsIs extends Aside where
  level : Level
  count : ℤ
  /-- Eaches in one of them. -/
  per : ℤ
  size : Option Dims
  index : ℕ
  deriving DecidableEq, Repr

structure BoxPlan where
  preset : Box
  /-- The carton open on the bench, when this is the plan for filling it. -/
  carton : Option (Uuid × String)
  layers : List Layer
  loose : List Aside
  /-- The share of the box's inside the goods take up; no number for a box with no
  inside, which no goods fit. -/
  fill : Option ℚ
  weightG : ℚ
  unweighed : ℤ
  tareG : Option ℚ
  deriving DecidableEq, Repr

structure Arrangement where
  boxes : List BoxPlan
  asIs : List AsIs
  unmeasured : List Aside
  oversize : List Aside
  loose : List Aside
  placedLoose : List Aside
  looseBox : Option ℕ
  tooMany : Bool
  deriving DecidableEq, Repr

/-- Past this many pieces a layer plan is no help to anybody. -/
def mostPieces : ℕ := 1500

def dims (s : StatedSize) : Dims := ⟨s.lengthMm,s.widthMm,s.heightMm⟩

def measured (p : PackUnit) : Option Dims :=
  match p.size with
  | none => none
  | some s => if (dims s).l > 0 ∧ (dims s).w > 0 ∧ (dims s).h > 0 then some (dims s) else none

/-- The kind of a line's item at a level. -/
def kindOf (line : BenchLine) (index : ℕ) (unit : PackUnit) (size : Dims) : Kind where
  line := line.lineId
  itemId := line.itemId
  itemCode := line.itemCode
  level := unit.level
  units := unit.units
  size := size
  weightG := unit.grossWeightG
  upright := unit.upright
  index := index

structure Split where
  pieces : List Left
  asIs : List AsIs
  loose : List Aside
  unmeasured : List Aside
  deriving DecidableEq, Repr

def aside (line : BenchLine) (n : ℤ) (unit : Option PackUnit) : Aside where
  line := line.lineId
  itemId := line.itemId
  itemCode := line.itemCode
  units := n
  weightG := unit.bind fun u => u.grossWeightG.map fun g => g*n/u.units

/-- One level of one line: as many of it as its units fill go as it is, into a box, round
the rest or nowhere, and the units that leaves. -/
def splitLevel (line : BenchLine) (index : ℕ) (inBox : Bool) (acc : Split × ℤ) (level : Level) :
    Split × ℤ :=
  let (s,units) := acc
  match line.packs.find? (·.level = level) with
  | none => acc
  | some unit =>
    if unit.units ≤ 0 ∨ units < unit.units then acc
    else
      let size := measured unit
      let alone := unit.shipsAsIs && !inBox
      if level ≠ .each ∧ alone = false ∧ size = none then acc
      else
        let count := units/unit.units
        let left := units-count*unit.units
        if alone then
          ({s with asIs := s.asIs++[{aside line (count*unit.units) (some unit) with
            level := level, count := count, per := unit.units, size := size, index := index}]},left)
        else
          match size with
          | some d => ({s with pieces := s.pieces++[⟨kindOf line index unit d,count.toNat⟩]},left)
          | none =>
            if unit.noSize then ({s with loose := s.loose++[aside line count (some unit)]},left)
            else ({s with unmeasured := s.unmeasured++[aside line count (some unit)]},left)

/-- A line's units as what they go as: cartons while the count fills one, then inner
packs, then eaches; nothing recorded of its each at all is not measured. -/
def splitLine (inBox : Bool) (s : Split) (line : BenchLine) (index : ℕ) (unitsOf : ℤ) : Split :=
  let units := max 0 unitsOf
  if units = 0 then s
  else
    let (s,units) := [Level.carton,Level.inner,Level.each].foldl (splitLevel line index inBox)
      (s,units)
    if units > 0 then {s with unmeasured := s.unmeasured++[aside line units none]} else s

def splitFrom (inBox : Bool) : ℕ → List (BenchLine × ℤ) → Split → Split
  | _, [], s => s
  | index, (line,unitsOf) :: rest, s =>
    splitFrom inBox (index+1) rest (splitLine inBox s line index unitsOf)

/-- Units of each line, as what they go as. Outside a box, a level that ships as it is
goes on its own; in one, nothing does. -/
def split (lines : List (BenchLine × ℤ)) (inBox : Bool) : Split :=
  splitFrom inBox 0 lines ⟨[],[],[],[]⟩

structure Content where
  itemId : Uuid
  quantity : ℤ
  deriving DecidableEq, Repr

/-- The carton open on the bench: its box, and what is in it already. -/
structure OpenCarton where
  id : Uuid
  sequence : String
  name : String
  size : StatedSize
  maxPayloadG : Option ℚ
  tareWeightG : Option ℚ
  contents : List Content
  deriving DecidableEq, Repr

def plan (preset : Box) (layers : List Layer) : BoxPlan where
  preset := preset
  carton := none
  layers := layers
  loose := []
  fill :=
    if volume (dims preset.size) = 0 then none
    else some (Double.nearest
      (((placements layers).foldl (fun t p => Double.add t (volume p.dims)) 0 : ℤ)/(volume (dims preset.size) : ℤ)))
  weightG := weigh (placements layers)
  unweighed := (placements layers).countP (·.kind.weightG = none)
  tareG := preset.tareWeightG

/-- So many parcels alike, as a carrier sees them. -/
structure Freight where
  count : ℤ
  size : Option Dims
  weightG : Option ℚ
  deriving DecidableEq, Repr

/-- What sending parcels costs, lower being better. -/
structure Objective where
  cost : List Freight → ℚ

def boxFreight (b : BoxPlan) : Freight :=
  ⟨1,some (dims b.preset.size),some (b.weightG+b.tareG.getD 0)⟩

/-- One way of boxing what is left: its boxes, and what fitted none of them. -/
structure Candidate where
  plans : List BoxPlan
  left : List Left
  deriving DecidableEq, Repr

def bulk (left : List Left) : ℤ :=
  left.foldl (fun t e => Double.add t (Double.mul e.count (volume e.kind.size))) 0

def packBox (box : Box) (rest : List Left) : Packed := pack (dims box.size) rest box.maxPayloadG

/-- The first box, of those with the room, that takes it all. -/
def smallestTaking (rest : List Left) : List Box → Option (Box × Packed)
  | [] => none
  | box :: boxes =>
    if volume (dims box.size) < bulk rest then smallestTaking rest boxes
    else
      let p := packBox box rest
      if p.left = [] then some (box,p) else smallestTaking rest boxes

/-- One step of looking for the box that takes the most. -/
def takeMore (rest : List Left) (acc : ℤ × Option (Box × Packed)) (box : Box) :
    ℤ × Option (Box × Packed) :=
  let p := packBox box rest
  let took := Double.sub (bulk rest) (bulk p.left)
  if took > acc.1 then (took,some (box,p)) else acc

/-- The box that takes the most, the first of those that take as much. -/
def takingMost (rest : List Left) (boxes : List Box) : Option (Box × Packed) :=
  (boxes.foldl (takeMore rest) (0,none)).2

/-- The rounds of `greedy`, at most so many more of them. -/
def greedyFrom (boxes : List Box) : ℕ → List BoxPlan → List Left → Candidate
  | 0, plans, rest => ⟨plans,rest⟩
  | more+1, plans, rest =>
    if rest = [] then ⟨plans,rest⟩
    else
      match (smallestTaking rest boxes).or (takingMost rest boxes) with
      | none => ⟨plans,rest⟩
      | some (box,p) => greedyFrom boxes more (plans++[plan box p.layers]) p.left

/-- The smallest box that takes it all, or, when none does, the box that takes the
most, and again for the rest. -/
def greedy (pieces : List Left) (boxes : List Box) : Candidate := greedyFrom boxes 50 [] pieces

def uniformFrom (box : Box) : ℕ → List BoxPlan → List Left → Candidate
  | 0, plans, rest => ⟨plans,rest⟩
  | more+1, plans, rest =>
    if rest = [] then ⟨plans,rest⟩
    else
      let p := packBox box rest
      if bulk p.left = bulk rest then ⟨plans,rest⟩
      else uniformFrom box more (plans++[plan box p.layers]) p.left

/-- Boxes of one kind only, filled one after another until nothing more goes in. -/
def uniform (pieces : List Left) (box : Box) : Candidate := uniformFrom box 50 [] pieces

/-- Past this many pieces, only the first way is tried. -/
def mostTried : ℕ := 300

def better (objective : Objective) (a b : Candidate) : Candidate :=
  let cost (c : Candidate) := objective.cost (c.plans.map boxFreight)
  if bulk b.left < bulk a.left ∨ (bulk b.left = bulk a.left ∧ cost b < cost a) then b else a

/-- Of the ways tried, the one that leaves least unboxed, then costs least. -/
def best (pieces : List Left) (boxes : List Box) (objective : Objective) : Candidate :=
  (if total pieces ≤ mostTried then boxes.map (uniform pieces) else []).foldl (better objective)
    (greedy pieces boxes)

/-- How much of an item the carton holds. -/
def inCarton (contents : List Content) (item : Uuid) : ℤ :=
  ((contents.filter (·.itemId = item)).map Content.quantity).sum

/-- Each line with its item's units in the carton; a product on two lines is counted
against the first. -/
def unitsIn (contents : List Content) : List Uuid → List BenchLine → List (BenchLine × ℤ)
  | _, [] => []
  | seen, line :: lines =>
    if line.itemId ∈ seen then (line,0) :: unitsIn contents seen lines
    else (line,inCarton contents line.itemId) :: unitsIn contents (line.itemId :: seen) lines

/-- `together.set(kind, (together.get(kind) ?? 0) + count)`, in a map that keeps the order
its keys came in. -/
def addTo : List Left → Left → List Left
  | [], p => [p]
  | e :: es, p => if e.kind = p.kind then ⟨e.kind,e.count+p.count⟩ :: es else e :: addTo es p

/-- A map from kinds made of pieces, the last of a kind winning. -/
def counts (pieces : List Left) (k : Kind) : ℕ :=
  (pieces.reverse.find? (·.kind = k)).elim 0 Left.count

/-- One fewer of `k` to mark, when there is one. -/
def markOne (toMark : Kind → ℕ) (k : Kind) : Kind → ℕ :=
  if toMark k > 0 then Function.update toMark k (toMark k-1) else toMark

/-- The first of each kind, in the order the layers go in, are in already. -/
def markPlacements : (Kind → ℕ) → List Placement → List Placement × (Kind → ℕ)
  | toMark, [] => ([],toMark)
  | toMark, p :: ps =>
    let (rest,left) := markPlacements (markOne toMark p.kind) ps
    ({p with packed := toMark p.kind > 0} :: rest,left)

def markLayers : (Kind → ℕ) → List Layer → List Layer
  | _, [] => []
  | toMark, layer :: layers =>
    let (ps,toMark) := markPlacements toMark layer.placements
    {layer with placements := ps} :: markLayers toMark layers

structure Filled where
  plan : BoxPlan
  rest : List Left
  loose : List Aside

/-- The open carton, filled: what is in it and what is still to pack, arranged together. -/
def fillOpen (carton : OpenCarton) (lines : List BenchLine) (remaining : List Left) : Filled :=
  let already := split (unitsIn carton.contents [] lines) true
  let together := (already.pieces++remaining).foldl addTo []
  let packed := pack (dims carton.size) together carton.maxPayloadG
  let layers := markLayers (counts already.pieces) packed.layers
  let rest := (packed.left.map fun e =>
    (⟨e.kind,min e.count (counts remaining e.kind)⟩ : Left)).filter (·.count > 0)
  let preset : Box := ⟨carton.id,carton.name,carton.size,true,carton.maxPayloadG,carton.tareWeightG⟩
  ⟨{plan preset layers with carton := some (carton.id,carton.sequence)},rest,
    already.loose++already.unmeasured⟩

def Preset.box (p : Preset) : Option Box :=
  if p.suggested then
    p.size.map fun s => ⟨p.id,p.name,s,p.suggested,p.maxPayloadG,p.tareWeightG⟩
  else none

/-- One plan has less of its box full than another. -/
def roomier (p best : BoxPlan) : Bool :=
  match p.fill, best.fill with
  | some a, some b => a < b
  | _, _ => false

/-- Where the plan with the most room to spare is, the first of those with as much. -/
def roomiest (plans : List BoxPlan) : Option ℕ :=
  (plans.zipIdx.foldl (fun (best : Option (BoxPlan × ℕ)) p =>
    match best with
    | none => some p
    | some b => if roomier p.1 b.1 then some p else some b) none).map Prod.snd

/-- Loose things put round the goods of a box, with what they weigh. -/
def putRound (things : List Aside) (b : BoxPlan) : BoxPlan :=
  things.foldl (fun b a =>
    match a.weightG with
    | none => {b with unweighed := b.unweighed+a.units}
    | some g => {b with weightG := b.weightG+g}) {b with loose := b.loose++things}

/-- Loose things go round the goods in the box with the most room to spare; what is loose
in the open carton already is in it. -/
def goRound (carton : Option OpenCarton) (extraLoose loose : List Aside) (plans : List BoxPlan) :
    List BoxPlan :=
  let first := if carton.isSome then plans.modify 0 (putRound extraLoose) else plans
  match roomiest plans with
  | none => first
  | some i => first.modify i (putRound loose)

def oversizeOf (e : Left) : Aside :=
  ⟨e.kind.line,e.kind.itemId,e.kind.itemCode,e.count*e.kind.units,e.kind.weightG.map (·*e.count)⟩

/-- The plans and what none of them took: the open carton first, the rest boxed. -/
def boxed (lines : List BenchLine) (boxes : List Box) (carton : Option OpenCarton)
    (objective : Objective) (pieces : List Left) : List BoxPlan × List Aside × List Left :=
  let (plans,extraLoose,rest) := match carton with
    | none => ([],[],pieces)
    | some c =>
      let filled := fillOpen c lines pieces
      ([filled.plan],filled.loose,filled.rest)
  if rest = [] then (plans,extraLoose,rest)
  else
    let chosen := best rest boxes objective
    (plans++chosen.plans,extraLoose,chosen.left)

/-- The boxes for what is left on the bench, the open carton first, the rest boxed the
way `objective` prices lowest. -/
def arrange (lines : List BenchLine) (presets : List Preset) (carton : Option OpenCarton)
    (objective : Objective) : Arrangement :=
  let s := split (lines.map fun l => (l,l.remaining)) false
  let boxes := (presets.filterMap Preset.box).insertionSort
    fun a b => volume (dims a.size) ≤ volume (dims b.size)
  if total s.pieces > mostPieces then ⟨[],s.asIs,s.unmeasured,[],s.loose,[],none,true⟩
  else
    let (plans,extraLoose,rest) := boxed lines boxes carton objective s.pieces
    let round := roomiest plans
    { boxes := goRound carton extraLoose s.loose plans
      asIs := s.asIs
      unmeasured := s.unmeasured
      oversize := rest.map oversizeOf
      loose := if round.isSome then [] else s.loose
      placedLoose := if round.isSome then s.loose else []
      looseBox := round
      tooMany := false }

end Packing
end Spork
