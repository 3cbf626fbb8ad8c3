import Spork.Drag.Units

/-! What else changes the plan on the board (client/app/outbound/pack/board.ts): Suggest, a
pallet built for another carrier, and a planned parcel made. -/
namespace Spork
namespace Drag

open Packing (Uuid BenchLine Objective BoxPlan Layer arrange)

/-- What the placements of an arrangement hold of each line. -/
def placedOf (layers : List Layer) : List (Uuid × ℤ) :=
  byLine (layers.flatMap fun l => l.placements.map fun p => (p.kind.line,p.kind.units))

/-- What a suggested box holds of each line, with what goes round its goods. -/
def holding (b : BoxPlan) : List (Uuid × ℤ) := b.loose.foldl (fun placed a => addOf placed (a.line,a.units)) (placedOf b.layers)

/-- A box as Suggest plans it. -/
def suggested (id : Id) (b : BoxPlan) : PlannedParcel where
  id := id
  packageTypeId := some b.preset.id
  asIs := none
  onParcelId := none
  onPackageId := none
  spot := none
  placedByHand := false
  carrierId := none
  lines := ((holding b).filter (·.2 > 0)).map fun r => ⟨r.1,r.2⟩

/-- The packer's planned parcels. -/
def byHand (board : Board) : List PlannedParcel := (planOf board).filter (·.placedByHand)

/-- A line with what of it is not placed by hand. -/
def unplaced (kept : List PlannedParcel) (b : BoardLine) : BenchLine :=
  let placed := byLine (kept.flatMap fun pp => pp.lines.map fun l => (l.lineId,l.quantity))
  {b.line.toBenchLine with remaining := max 0 (b.toPack-unitsOf placed b.line.lineId)}

/-- Everything not placed by hand planned again round what was. -/
def suggest (screen : BenchScreen) (board : Board) (objective : Objective) (newId : ℕ → Id) : List PlannedParcel :=
  let kept := byHand board
  let boxes := (arrange (board.lines.map (unplaced kept)) (screen.presets.map ScreenPreset.toPreset) none objective).boxes
  kept++boxes.zipIdx.map fun b => suggested (newId b.2) b.1

/-- A pallet not yet made, built for another carrier. -/
def buildFor (board : Board) (pallet : Id) (carrier : Uuid) : Outcome where
  plan := some ((planOf board).map fun pp => if pp.id = pallet then {pp with carrierId := some carrier} else pp)
  acts := []
  undo := ⟨some (planOf board),[]⟩

/-- A planned parcel made, and how to go back: taken apart, and planned again as it was. -/
def making (screen : BenchScreen) (parcel : Id) (newId : ℕ → Id) : List BoardAct × Option Undo :=
  let pp := screen.plan.find? (·.id = parcel)
  let pallet := pp.bind PlannedParcel.onParcelId
  ([.make parcel],pp.map fun _ =>
    ⟨some (afresh screen.plan (parcel :: pallet.toList) newId),[.unmake parcel pallet]⟩)

/-- The plan once the server has used up the row of a parcel made: what was planned on it is
on that package. -/
def usedUp (plan : List PlannedParcel) (package : Id) : List PlannedParcel :=
  (plan.map fun pp =>
    if pp.onParcelId = some package then {pp with onParcelId := none, onPackageId := some package} else pp).filter
      (·.id ≠ package)

end Drag
end Spork
