import Spork.Bench.PackPlan
import Spork.Lib.Numerals
import Spork.Lib.Paths
import Spork.Outbox.Press

/-! A press at the pack bench as the writes it makes (client/app/outbound/pack/writes.ts):
board acts worked out against the screen as read, each write a part of the press. -/
namespace Spork
namespace Writes

open Bench (Uuid Level PlannedParcel)
open Outbox (Text Place Picks Write BenchWrite Name partOf)

/-! ## The screen -/

/-- A place the item is, with what is free to claim. -/
structure Cell where
  stock : Uuid
  available : ℤ
  deriving DecidableEq, Repr

/-- What another system has picked of a line, and what of it was handed over. -/
structure PickedElsewhere where
  reported : ℤ
  handed : ℤ
  deriving DecidableEq, Repr

/-- A line of the order. A row of stock is one of its cells once. -/
structure BenchLine where
  lineId : Uuid
  itemCode : String
  onBench : ℤ
  cells : List Cell
  elsewhere : Option PickedElsewhere
  cells_once : (cells.map Cell.stock).Nodup
  deriving DecidableEq

/-- A row of what a carton holds, with the picks behind it, newest first. -/
structure PackedRow where
  lineId : Uuid
  quantity : ℤ
  picks : List (Uuid × ℤ)
  deriving DecidableEq, Repr

/-- A carton made. A movement is behind one of its rows once. -/
structure CartonSummary where
  id : Uuid
  isSealed : Bool
  /-- What it is in or on now. -/
  on : Option Uuid
  contents : List PackedRow
  picks_once : ((contents.flatMap PackedRow.picks).map Prod.fst).Nodup
  deriving DecidableEq

/-- The bench as read at one moment: a line of the order is on it once, and a row of stock
has one available quantity, whichever line it is listed for. -/
structure BenchScreen where
  lines : List BenchLine
  cartons : List CartonSummary
  plan : List PlannedParcel
  dock : Option Uuid
  staging : Option Uuid
  wrongBoxReason : Option Uuid
  lines_once : (lines.map BenchLine.lineId).Nodup
  cell_same : ∀ l ∈ lines, ∀ m ∈ lines, ∀ c ∈ l.cells, ∀ d ∈ m.cells, c.stock = d.stock →
    c.available = d.available

/-- A change the server records. -/
inductive BoardAct
  | put (line : Uuid) (units : ℤ) (carton : Uuid)
  | unput (line : Uuid) (units : ℤ) (carton : Uuid)
  /-- From one made carton to another, or to the bench. -/
  | repack (line : Uuid) (units : ℤ) (source : Uuid) (destination : Option Uuid)
  | make (parcel : Uuid)
  | contain (carton pallet : Uuid)
  | takeOff (carton : Uuid)
  | unmake (carton : Uuid) (pallet : Option Uuid)
  deriving DecidableEq, Repr

def BoardAct.kind : BoardAct → Text
  | .put .. => ['p','u','t']
  | .unput .. => ['u','n','p','u','t']
  | .repack .. => ['r','e','p','a','c','k']
  | .make .. => ['m','a','k','e']
  | .contain .. => ['c','o','n','t','a','i','n']
  | .takeOff .. => ['t','a','k','e','O','f','f']
  | .unmake .. => ['u','n','m','a','k','e']

/-! ## Where units come from -/

inductive Source
  | bench (units : ℤ)
  | cell (stock : Uuid) (units : ℤ)
  | handover (units : ℤ)
  deriving DecidableEq, Repr

def Source.units : Source → ℤ
  | .bench units | .cell _ units | .handover units => units

def Source.kind : Source → Text
  | .bench .. => ['b','e','n','c','h']
  | .cell .. => ['c','e','l','l']
  | .handover .. => ['h','a','n','d','o','v','e','r']

/-- What is taken of so many where so many are left to find. -/
def take (left n : ℤ) : ℤ := min left (max 0 n)

/-- A source of what was taken, where that is anything. -/
def given (units : ℤ) (source : Source) : List Source := if units > 0 then [source] else []

/-- What the cells give in turn, and what is left to find. -/
def fromCells : ℤ → List Cell → List Source × ℤ
  | left, [] => ([],left)
  | left, c :: cells =>
    let n := take left c.available
    (given n (.cell c.stock n)++(fromCells (left-n) cells).1,(fromCells (left-n) cells).2)

/-- The bench first, then a bin, then handed over. -/
def sourcesFor (line : BenchLine) (units : ℤ) : List Source × ℤ :=
  let bench := take units line.onBench
  let cells := fromCells (units-bench) line.cells
  let handover := line.elsewhere.elim 0 fun e => take cells.2 (e.reported-e.handed)
  (given bench (.bench bench)++cells.1++given handover (.handover handover),cells.2-handover)

section Found

variable {left n units : ℤ} {line : BenchLine}

theorem take_nonneg (h : 0 ≤ left) : 0 ≤ take left n := le_min h (le_max_left 0 n)

theorem take_le : take left n ≤ left := min_le_left left _

theorem take_le_max : take left n ≤ max 0 n := min_le_right left _

theorem take_of_nonpos (h : left ≤ 0) : take left n = left := min_eq_left (h.trans (le_max_left 0 n))

theorem mem_given {src source : Source} : src ∈ given n source ↔ 0 < n ∧ src = source := by
  rw [given]
  split <;> simp_all

/-- What sources give together. -/
def total (srcs : List Source) : ℤ := (srcs.map Source.units).sum

@[simp] theorem total_append (xs ys : List Source) : total (xs++ys) = total xs+total ys := by simp [total]

theorem total_given {source : Source} (h : 0 ≤ n) (hsource : source.units = n) : total (given n source) = n := by
  rw [given]
  split
  · simp [total,hsource]
  · simp only [total,List.map_nil,List.sum_nil]
    omega

theorem fromCells_total (h : 0 ≤ left) (cells : List Cell) :
    total (fromCells left cells).1+(fromCells left cells).2 = left ∧ 0 ≤ (fromCells left cells).2 := by
  induction cells generalizing left with
  | nil => exact ⟨by simp [fromCells,total],h⟩
  | cons c cells ih =>
    have htake : 0 ≤ take left c.available := take_nonneg h
    have hle : take left c.available ≤ left := take_le
    obtain ⟨hsum,hrest⟩ := @ih (left-take left c.available) (by omega)
    rw [fromCells]
    refine ⟨?_,hrest⟩
    rw [total_append,total_given htake rfl]
    omega

/-- What is found and what is short are what was asked. -/
theorem sourcesFor_total (line : BenchLine) (h : 0 ≤ units) :
    total (sourcesFor line units).1+(sourcesFor line units).2 = units ∧ 0 ≤ (sourcesFor line units).2 := by
  have hbench : 0 ≤ take units line.onBench := take_nonneg h
  have hle : take units line.onBench ≤ units := take_le
  obtain ⟨hcells,hrest⟩ := fromCells_total (by omega : 0 ≤ units-take units line.onBench) line.cells
  have hhanded : 0 ≤ line.elsewhere.elim 0 (fun e => take
      (fromCells (units-take units line.onBench) line.cells).2 (e.reported-e.handed)) ∧
      line.elsewhere.elim 0 (fun e => take (fromCells (units-take units line.onBench) line.cells).2
        (e.reported-e.handed)) ≤ (fromCells (units-take units line.onBench) line.cells).2 := by
    cases line.elsewhere with
    | none => exact ⟨le_rfl,hrest⟩
    | some e => exact ⟨take_nonneg hrest,take_le⟩
  rw [sourcesFor]
  dsimp only
  rw [total_append,total_append,total_given hbench rfl,total_given hhanded.1 rfl]
  omega

theorem fromCells_zero (cells : List Cell) : fromCells 0 cells = ([],0) := by
  induction cells with
  | nil => rfl
  | cons c cells ih =>
    rw [fromCells,take_of_nonpos le_rfl]
    simp [given,ih]

/-- Nothing is found for nothing. -/
theorem sourcesFor_nonpos (line : BenchLine) (h : units ≤ 0) : (sourcesFor line units).1 = [] := by
  rw [sourcesFor,take_of_nonpos h]
  dsimp only
  rw [sub_self,fromCells_zero]
  have hhanded : line.elsewhere.elim 0 (fun e => take 0 (e.reported-e.handed)) = 0 := by
    cases line.elsewhere with
    | none => rfl
    | some e => exact take_of_nonpos le_rfl
  rw [hhanded]
  simp only [given]
  rw [if_neg (by omega),if_neg (by omega)]
  rfl

end Found

/-! ## The writer -/

/-- What units are taken from: `bench:<line>`, `cell:<stock>` or `handover:<line>`. -/
inductive Key
  | bench (line : Uuid)
  | cell (stock : Uuid)
  | handover (line : Uuid)
  deriving DecidableEq, Repr

/-- A press's writes as they are worked out, what they have used, and what to say. -/
structure Writer where
  used : Key → ℤ
  writes : List BenchWrite
  notes : List String

/-- Why there are no writes: the press can't be worked out, or the calls ran out. -/
inductive Stop
  | unwritable (text : String)
  | unended
  deriving DecidableEq, Repr

def unset : Stop := .unwritable "This site doesn't say where it packs yet. Set it in Workspace."

/-- `under(path, part)`. -/
def under (path part : Text) : Text := if path = [] then part else path++ ':' :: part

def Writer.push (w : Writer) (part : Text) (what : Write) : Writer := {w with writes := w.writes++[⟨part,what⟩]}

def Writer.use (w : Writer) (key : Key) (n : ℤ) : Writer :=
  {w with used := Function.update w.used key (w.used key+n)}

/-- A line less what the press has used of it. -/
def less (used : Key → ℤ) (line : BenchLine) : BenchLine where
  lineId := line.lineId
  itemCode := line.itemCode
  onBench := line.onBench-used (.bench line.lineId)
  cells := line.cells.map fun c => {c with available := c.available-used (.cell c.stock)}
  elsewhere := line.elsewhere.map fun e => {e with handed := e.handed+used (.handover line.lineId)}
  cells_once := by
    rw [List.map_map]
    exact line.cells_once

variable (screen : BenchScreen)

def bench : Except Stop Uuid := screen.staging.elim (.error unset) .ok

/-- One source's write. -/
def writeSource (line carton : Uuid) (part : Text) (w : Writer) (src : Source × ℕ) : Except Stop Writer :=
  let at' := under part (Numerals.digits src.2++ ':' :: src.1.kind)
  match src.1 with
  | .bench units => do
    let location ← bench screen
    return (w.use (.bench line) units).push at' (.repack line (.location location) (.package carton) units)
  | .cell stock units => return (w.use (.cell stock) units).push at' (.pickInto line stock carton units)
  | .handover units => return (w.use (.handover line) units).push at' (.handOver line units (some carton) none)

def short (asked left : ℤ) (itemCode : String) : String :=
  toString (asked-left)++" of "++toString asked++" "++itemCode++" went in: the rest is not here."

def put (line : Uuid) (units : ℤ) (carton : Uuid) (part : Text) (w : Writer) : Except Stop Writer :=
  match screen.lines.find? (·.lineId = line) with
  | none => .error (.unwritable "That line is not on this order any more.")
  | some l =>
    let found := sourcesFor (less w.used l) units
    if found.1 = [] then .error (.unwritable ("No "++l.itemCode++" is here to put in."))
    else do
      let w ← found.1.zipIdx.foldlM (writeSource screen line carton part) w
      return if found.2 > 0 then {w with notes := w.notes++[short units found.2 l.itemCode]} else w

/-- The picks behind a line's rows in a carton. -/
def picksOf (carton line : Uuid) : Picks :=
  match screen.cartons.find? (·.id = carton) with
  | none => ⟨[],List.nodup_nil⟩
  | some c => ⟨(c.contents.filter (·.lineId = line)).flatMap PackedRow.picks,
      c.picks_once.sublist ((List.filter_sublist.flatMap PackedRow.picks).map Prod.fst)⟩

def unput (line : Uuid) (units : ℤ) (carton : Uuid) (part : Text) (w : Writer) : Except Stop Writer :=
  match screen.wrongBoxReason with
  | none => .error (.unwritable "No 'wrong location' reason is configured.")
  | some reason => .ok (w.push part (.takeOut (picksOf screen carton line) units reason))

/-- So many more of one line, in a map that keeps the order its keys came in. -/
def addOf : List (Uuid × ℤ) → Uuid × ℤ → List (Uuid × ℤ)
  | [], row => [row]
  | (line,units) :: rest, row =>
    if line = row.1 then (line,units+row.2) :: rest else (line,units) :: addOf rest row

/-- Units of each line, summed. -/
def byLine (rows : List (Uuid × ℤ)) : List (Uuid × ℤ) := rows.foldl addOf []

variable (fulfilment : Uuid)

/-- The carton of a planned parcel: a thing as it is, or a box of its type. -/
def startParcel (dock : Uuid) (pp : PlannedParcel) (part : Text) (w : Writer) : Writer :=
  match pp.asIs,pp.packageType with
  | some a,_ => w.push (under part ['c','a','r','t','o','n'])
      (.startAsIs fulfilment a.item a.level a.config dock (some pp.id))
  | none,some preset => w.push (under part ['c','a','r','t','o','n']) (.startCarton fulfilment preset dock (some pp.id))
  | none,none => w

/-- It goes on its pallet, planned or made. -/
def putOn (pp : PlannedParcel) (part : Text) (w : Writer) : Writer :=
  match pp.onParcel <|> pp.onPackage with
  | some pallet => w.push (under part ['o','n']) (.contain pp.id pallet pp.spot)
  | none => w

/-- A thing as it is is sealed as it is made. -/
def sealAsIs (pp : PlannedParcel) (part : Text) (w : Writer) : Writer :=
  if pp.asIs.isSome then w.push (under part ['s','e','a','l']) (.seal pp.id none) else w

/-- A planned parcel made into a carton, on its planned pallet made first, in so many calls. -/
def make : ℕ → Uuid → Text → Writer → Except Stop Writer
  | 0, _, _, _ => .error .unended
  | n+1, parcel, part, w =>
    match screen.plan.find? (·.id = parcel) with
    -- Made already, by a press that landed.
    | none => .ok w
    | some pp =>
      match screen.dock with
      | none => .error unset
      | some dock => do
        let w ← (match pp.onParcel with
          | some q => make n q (under part ['p','a','l','l','e','t']) w
          | none => .ok w)
        let w ← pp.lines.foldlM (fun w l => put screen l.line l.quantity pp.id
          (under part (['p','u','t']++ ':' :: Rendering.uuidText l.line)) w)
            (putOn pp part (startParcel fulfilment dock pp part w))
        return sealAsIs pp part w

/-- A made carton taken apart: opened, emptied, off its pallet and discarded. A pallet with
anything on it can't be. -/
def takeApart (c : CartonSummary) (part : Text) (w : Writer) : Except Stop Writer := do
  let w ← (byLine (c.contents.map fun r => (r.lineId,r.quantity))).foldlM (fun w r =>
    unput screen r.1 r.2 c.id (under part (['o','u','t']++ ':' :: Rendering.uuidText r.1)) w)
      (if c.isSealed then w.push (under part ['o','p','e','n']) (.reopen c.id) else w)
  let w ← (match c.on with
    | some _ => do
      let location ← bench screen
      return w.push (under part ['o','f','f']) (.place c.id location)
    | none => .ok w)
  return w.push (under part ['d','i','s','c','a','r','d']) (.discard c.id)

/-- The pallet made for it, where it is still there. -/
def discardPallet (pallet : Option Uuid) (part : Text) (w : Writer) : Writer :=
  match pallet with
  | some q =>
    if screen.cartons.any (·.id = q) then w.push (under part ['p','a','l','l','e','t']) (.discard q) else w
  | none => w

def unmake (carton : Uuid) (pallet : Option Uuid) (part : Text) (w : Writer) : Except Stop Writer := do
  let w ← (match screen.cartons.find? (·.id = carton) with
    | some c => takeApart screen c part w
    -- Gone already, by an undo that landed.
    | none => .ok w)
  return discardPallet screen pallet part w

/-- A board act's writes, at a part of the press. -/
def add (n : ℕ) (step : BoardAct) (part : Text) (w : Writer) : Except Stop Writer :=
  match step with
  | .put line units carton => put screen line units carton part w
  | .unput line units carton => unput screen line units carton part w
  | .repack line units source (some destination) =>
    .ok (w.push part (.repack line (.package source) (.package destination) units))
  | .repack line units source none => do
    let location ← bench screen
    return w.push part (.repack line (.package source) (.location location) units)
  | .make parcel => make screen fulfilment n parcel part w
  | .contain carton pallet => .ok (w.push part (.contain carton pallet none))
  | .takeOff carton => do
    let location ← bench screen
    return w.push part (.place carton location)
  | .unmake carton pallet => unmake screen carton pallet part w

def start : Writer := ⟨fun _ => 0,[],[]⟩

/-- What board acts write, in order, each its own part, in so many calls up the pallets. -/
def writesIn (n : ℕ) (steps : List BoardAct) : Except Stop Writer :=
  steps.zipIdx.foldlM (fun w s => add screen fulfilment n s.1 (Numerals.digits s.2++ ':' :: s.1.kind) w) start

/-- A way up the pallets is no longer than the plan. -/
def writesOf (steps : List BoardAct) : Except Stop Writer := writesIn screen fulfilment (screen.plan.length+1) steps

end Writes
end Spork
