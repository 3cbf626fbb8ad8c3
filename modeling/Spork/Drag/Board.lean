import Spork.Drag.Screen

/-! The board (client/app/outbound/pack/board.ts): the order as parcels, made, planned and
shipping as they are, and what of each line nothing holds yet. -/
namespace Spork
namespace Drag

open Packing (Uuid Level BenchLine StatedSize Preset Box BoxPlan AsIs Freight Goods fitInto split boxFreight)

/-- So many of a line's units on the board. -/
structure BoardGoods where
  line : ScreenLine
  units : ℕ
  deriving DecidableEq, Repr

/-- The goods as a box takes them. -/
def BoardGoods.goods (g : BoardGoods) : Goods := ⟨g.line.toBenchLine,g.units⟩

/-- A line on the board. -/
structure BoardLine where
  line : ScreenLine
  /-- Committed and in no carton, less what the check found short. -/
  toPack : ℤ
  /-- Planned into a parcel not yet made. -/
  planned : ℤ
  /-- In nothing and planned into nothing. -/
  left : ℤ
  deriving DecidableEq, Repr

structure BoardParcel where
  id : Id
  made : Bool
  kind : Kind
  isSealed : Bool
  asIs : Option AsIs
  /-- Parcels alike. -/
  count : ℤ
  /-- What one weighs. -/
  weightG : Option ℚ
  /-- A box's preset, sized. -/
  preset : Option Box
  /-- The pallet it is on, made or planned. -/
  on : Option Id
  goods : List BoardGoods
  carton : Option CartonSummary
  planned : Option PlannedParcel
  deriving DecidableEq, Repr

structure Board where
  lines : List BoardLine
  parcels : List BoardParcel
  deriving DecidableEq, Repr

/-- So many more of one line, in a map that keeps the order its keys came in. -/
def addOf : List (Uuid × ℤ) → Uuid × ℤ → List (Uuid × ℤ)
  | [], row => [row]
  | (line,units) :: rest, row =>
    if line = row.1 then (line,units+row.2) :: rest else (line,units) :: addOf rest row

/-- Units of each line, summed. -/
def byLine (rows : List (Uuid × ℤ)) : List (Uuid × ℤ) := rows.foldl addOf []

/-- `map.get(line) ?? 0`. -/
def unitsOf (sums : List (Uuid × ℤ)) (line : Uuid) : ℤ := (sums.lookup line).getD 0

section
variable (screen : BenchScreen)

/-- A line by its id, the last of them where the screen has more. -/
def lineOf (id : Uuid) : Option ScreenLine := screen.lines.reverse.find? (·.lineId = id)

def goodsOf (rows : List (Uuid × ℤ)) : List BoardGoods :=
  (byLine rows).filterMap fun (id,units) =>
    (lineOf screen id).bind fun line => if units > 0 then some ⟨line,units.toNat⟩ else none

/-- A carton's preset, which the bench names it by. -/
def presetOf (c : CartonSummary) : Option ScreenPreset :=
  c.packageType.bind fun name => if name = "" then none else screen.presets.find? (·.name = name)

/-- A preset with a size, as a box of that size. -/
def boxWith (p : Preset) (size : StatedSize) : Box :=
  ⟨p.id,p.name,size,p.suggested,p.maxPayloadG,p.tareWeightG⟩

def sized (p : ScreenPreset) : Option Box := p.size.map (boxWith p.toPreset)

/-- A box with no preset on file still has a size from the carton; it has no limit. -/
def defaultBox : Preset := ⟨0,"",none,false,none,none⟩

/-- A carton's weight: on the scale, else what its record expects. -/
def cartonWeight (c : CartonSummary) : Option ℚ := c.grossWeightG.or (c.listedWeightG.or c.expectedG)

/-- One of a line's item as it is: to ship, or planned onto a pallet first. -/
def asIsParcel (line : ScreenLine) (id : Id) (a : AsIs) (pp : Option PlannedParcel) : BoardParcel where
  id := id
  made := false
  kind := .asIs
  isSealed := false
  asIs := some a
  count := a.count
  weightG := a.weightG.map (·/a.count)
  preset := none
  on := pp.bind fun pp => pp.onParcelId.or pp.onPackageId
  goods := [⟨line,a.units.toNat⟩]
  carton := none
  planned := pp

/-- What a line's units go as, so many of them, as they are. -/
def shipsAsIs (line : ScreenLine) (units : ℤ) : List AsIs := (split [(line.toBenchLine,units)] false).asIs

/-- A thing as it is, planned: the piece its units make, as Ship would make it. -/
def plannedAsIs (line : ScreenLine) (units : ℤ) (as : PlannedAsIs) : AsIs :=
  ((shipsAsIs line units).find? (·.level = as.level)).getD
    {line := line.lineId, itemId := as.itemId, itemCode := line.itemCode, units := units, weightG := none
     level := as.level, count := 1, per := units, size := none, index := 0}

def madeParcel (c : CartonSummary) : BoardParcel where
  id := c.id
  made := true
  kind := c.kind
  isSealed := c.isSealed
  asIs := none
  count := 1
  weightG := cartonWeight c
  preset :=
    if c.kind = .box then c.statedSize.map (boxWith (((presetOf screen c).map ScreenPreset.toPreset).getD defaultBox))
    else none
  on := c.on
  goods := goodsOf screen (c.contents.map fun r => (r.lineId,r.quantity))
  carton := some c
  planned := none

/-- What a box of goods weighs as arranged, with the box. -/
def arrangedWeight (box : Option Box) (goods : List BoardGoods) : Option ℚ :=
  box.bind fun b => (boxFreight (fitInto b (goods.map BoardGoods.goods) none).plan).weightG

def plannedBox (pp : PlannedParcel) : BoardParcel :=
  let preset := screen.presets.find? fun p => some p.id = pp.packageTypeId
  let goods := goodsOf screen (pp.lines.map fun l => (l.lineId,l.quantity))
  let box := preset.bind sized
  { id := pp.id
    made := false
    kind := if (preset.bind ScreenPreset.deck).isSome then .pallet else .box
    isSealed := false
    asIs := none
    count := 1
    weightG := arrangedWeight box goods
    preset := box
    on := pp.onParcelId.or pp.onPackageId
    goods := goods
    carton := none
    planned := some pp }

/-- A planned parcel: a thing as it is, unless its line has gone, or a box. -/
def plannedParcel (pp : PlannedParcel) : BoardParcel :=
  match pp.asIs, pp.lines.head?.bind fun l => (lineOf screen l.lineId).map fun line => (line,l.quantity) with
  | some as, some (line,units) => asIsParcel line pp.id (plannedAsIs line units as) (some pp)
  | _, _ => plannedBox screen pp

/-- What parcels hold of each line. -/
def heldOf (parcels : List BoardParcel) : List (Uuid × ℤ) :=
  byLine (parcels.flatMap fun p => p.goods.map fun g => (g.line.lineId,(g.units : ℤ)))

def boardOf : Board :=
  let made := screen.cartons.map (madeParcel screen)
  let inCartons := heldOf made
  let planned := screen.plan.map (plannedParcel screen)
  let plannedIn := heldOf planned
  let toPack (l : ScreenLine) : ℤ := max 0 (l.committed-unitsOf inCartons l.lineId-shortOf l)
  let asIs := (split (screen.lines.map fun l =>
    (l.toBenchLine,max 0 (toPack l-unitsOf plannedIn l.lineId))) false).asIs
  let asIsOf := byLine (asIs.map fun a => (a.line,a.units))
  let shipping := asIs.filterMap fun a =>
    (lineOf screen a.line).map fun line => asIsParcel line (.asIs a.line a.level) a none
  { lines := screen.lines.map fun l =>
      ⟨l,toPack l,unitsOf plannedIn l.lineId,
        max 0 (toPack l-unitsOf plannedIn l.lineId-unitsOf asIsOf l.lineId)⟩
    parcels := made++planned++shipping }

end

end Drag
end Spork
