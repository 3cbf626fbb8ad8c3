import Spork.Drag.Board

/-! What dropping things on the board does (client/app/outbound/pack/board.ts): goods go in
as many as fit and the rest stay, a carton goes on a pallet, and dropped on To pack goods
come out and a carton comes off its pallet. What is said of it and drawn is left out. -/
namespace Spork
namespace Drag

open Packing (Uuid Level BenchLine StatedSize Preset Box BoxPlan AsIs Freight Goods Objective fitInto arrange)

/-- What a key names. -/
inductive Thing
  | goods (line : Uuid) (parcel : Option Id)
  | parcel (id : Id)
  deriving DecidableEq, Repr

/-- What a drop lands on. -/
inductive Target
  | bench
  /-- A new box: the one named, or the smallest that takes it. -/
  | newBox (preset : Option Uuid)
  | newPallet
  | parcel (id : Id)
  | other
  deriving DecidableEq, Repr

/-- How many: as many as there are, one, or the count asked for. -/
structure HowMany where
  one : Bool
  count : Option ℤ
  deriving DecidableEq, Repr

/-- A change the server records. -/
inductive BoardAct
  | put (line : Uuid) (units : ℕ) (carton : Id)
  | unput (line : Uuid) (units : ℕ) (carton : Id)
  /-- From one made carton to another, or to the bench. -/
  | repack (line : Uuid) (units : ℕ) (from' : Id) (to' : Option Id)
  | make (parcel : Id)
  | contain (carton pallet : Id)
  | takeOff (carton : Id)
  | unmake (carton : Id) (pallet : Option Id)
  deriving DecidableEq, Repr

/-- How to go back: the plan to save and the acts to do. -/
structure Undo where
  plan : Option (List PlannedParcel)
  acts : List BoardAct
  deriving DecidableEq, Repr

/-- What a drop does, when it is ok. -/
structure Outcome where
  /-- The plan as it would be, when the drop changes it. -/
  plan : Option (List PlannedParcel)
  acts : List BoardAct
  undo : Undo
  deriving DecidableEq, Repr

/-- A drop refused: it may be for the packer to choose a box. -/
structure Refused where
  chooseBox : Bool
  deriving DecidableEq, Repr

/-- The plan from before parcels were made, to plan them again under new ids. -/
def afresh (plan : List PlannedParcel) (made : List Id) (newId : ℕ → Id) : List PlannedParcel :=
  let again (id : Id) : Id := ((made.zip ((List.range made.length).map newId)).reverse.lookup id).getD id
  plan.map fun pp => {pp with id := again pp.id, onParcelId := pp.onParcelId.map again}

/-- The plan as the server keeps it, from the board's planned parcels. -/
def planOf (board : Board) : List PlannedParcel := board.parcels.filterMap BoardParcel.planned

/-- So many more of a line planned into a parcel, or fewer; none of it left is no line. -/
def withLine (pp : PlannedParcel) (line : Uuid) (n : ℤ) : PlannedParcel :=
  {pp with lines :=
    if pp.lines.any (·.lineId = line) then
      (pp.lines.map fun l => if l.lineId = line then {l with quantity := l.quantity+n} else l).filter (·.quantity > 0)
    else if n > 0 then pp.lines++[⟨line,n⟩]
    else pp.lines}

/-- What a planned parcel with nothing in it yet is. -/
def newParcel (id : Id) (packageType : Option Uuid) : PlannedParcel :=
  ⟨id,packageType,none,none,none,none,true,none,[]⟩

/-- A line has no size at any level. -/
def unmeasured (line : BenchLine) : Bool := !line.packs.any (·.size.isSome)

/-- Fewest parcels, and of plans with as many, the least air sent: what the suggestion is
made by. -/
def byParcels : Objective where
  cost parcels := (parcels.map fun p => (p.count : ℚ)).sum*1000000+
    (parcels.map fun p => (p.size.elim 0 fun d => (d.l*d.w*d.h : ℚ)/1000000000)*(p.count : ℚ)).sum

/-- What one drop has come to, key after key. -/
structure Dropping where
  plan : List PlannedParcel
  changed : Bool
  acts : List BoardAct
  undo : List BoardAct
  /-- Planned pallets this drop makes. -/
  made : List Id
  /-- What it has put on each pallet so far. -/
  added : Id → ℚ
  /-- What is in or planned into a parcel now. -/
  inside : Id → List BoardGoods
  /-- The new planned parcel goods go into now. -/
  fresh : Option PlannedParcel
  /-- How many new ids it has taken. -/
  taken : ℕ

section
variable (screen : BenchScreen) (board : Board) (objective : Objective) (target : Target) (how : HowMany) (newId : ℕ → Id)

def parcelOf (id : Id) : Option BoardParcel := board.parcels.find? (·.id = id)

/-- Goods a key names, with where they come from and how many are to go: none when the key
names nothing there is any of. -/
structure Asked where
  line : ScreenLine
  source : Option BoardParcel
  want : ℕ
  deriving DecidableEq, Repr

def asked (line : Uuid) (parcel : Option Id) : Option Asked :=
  let source := parcel.bind (parcelOf board)
  match screen.lines.find? (·.lineId = line) with
  | none => none
  | some l =>
    if parcel.isSome ∧ source = none then none
    else
      let have' : ℤ := match source with
        | some s => ((s.goods.find? (·.line.lineId = l.lineId)).map fun g => (g.units : ℤ)).getD 0
        | none => ((board.lines.find? (·.line.lineId = l.lineId)).map BoardLine.left).getD 0
      let want := min have' (how.count.getD (if how.one then 1 else have'))
      if want ≤ 0 then none else some ⟨l,source,want.toNat⟩

/-- The box a new one is: the one named, or the first the suggestion would choose. -/
def chosenBox (named : Option Uuid) (a : Asked) : Option Box :=
  ((named.bind fun id => screen.presets.find? (·.id = id)).bind sized).or
    ((arrange [{a.line.toBenchLine with remaining := a.want}] (screen.presets.map ScreenPreset.toPreset) none
      objective).boxes.head?.map BoxPlan.preset)

/-- Goods dropped on To pack. -/
def ontoBench (a : Asked) (d : Dropping) : Except Refused Dropping :=
  match a.source with
  | none => .ok d
  | some s =>
    if s.made then
      if s.isSealed then .error ⟨false⟩
      else .ok {d with
        acts := d.acts++[.repack a.line.lineId a.want s.id none]
        undo := .put a.line.lineId a.want s.id :: d.undo}
    else if s.planned.isSome then .ok {d with
      plan := d.plan.map fun pp => if pp.id = s.id then withLine pp a.line.lineId (-a.want) else pp
      changed := true}
    else .ok d

/-- A new planned box of this preset, or the one this drop made last when it is one. -/
def startBox (box : Box) (d : Dropping) : PlannedParcel × Dropping :=
  match d.fresh.filter (·.packageTypeId = some box.id) with
  | some fresh => (fresh,d)
  | none =>
    let fresh := newParcel (newId d.taken) (some box.id)
    (fresh,{d with plan := d.plan++[fresh], changed := true, fresh := some fresh, taken := d.taken+1})

/-- Goods into a box, as many as fit: into a made carton the acts, into a planned parcel the
plan. -/
def putIn (a : Asked) (into : Option BoardParcel) (at' : Id) (box : Box) (d : Dropping) : Dropping :=
  let fits := (fitInto box ((d.inside at').map BoardGoods.goods) (some ⟨a.line.toBenchLine,a.want⟩)).fits
  if fits = 0 then d
  else
    let line := a.line.lineId
    let d : Dropping := {d with inside := Function.update d.inside at' (d.inside at'++[⟨a.line,fits⟩])}
    let less (plan : List PlannedParcel) (s : BoardParcel) : List PlannedParcel :=
      plan.map fun pp => if pp.id = s.id then withLine pp line (-fits) else pp
    match into.filter BoardParcel.made with
    | some i =>
      match a.source.filter BoardParcel.made with
      | some s => {d with
        acts := d.acts++[.repack line fits s.id (some i.id)]
        undo := .repack line fits i.id (some s.id) :: d.undo}
      | none =>
        let d : Dropping := {d with acts := d.acts++[.put line fits i.id], undo := .unput line fits i.id :: d.undo}
        match a.source.filter (·.planned.isSome) with
        | some s => {d with plan := less d.plan s, changed := true}
        | none => d
    | none => {d with
      plan := d.plan.map fun pp =>
        if pp.id = at' then {withLine pp line fits with placedByHand := true}
        else if (a.source.map BoardParcel.id) = some pp.id then withLine pp line (-fits)
        else pp
      changed := true}

/-- Goods dropped. -/
def dropGoods (a : Asked) (d : Dropping) : Except Refused Dropping :=
  match target with
  | .bench => ontoBench a d
  | .newBox named =>
    match chosenBox screen objective named a with
    | none => if unmeasured a.line.toBenchLine then .error ⟨true⟩ else .ok d
    | some box =>
      let (fresh,d) := startBox newId box d
      .ok (putIn a none fresh.id box d)
  | .parcel id =>
    match parcelOf board id with
    | none => .error ⟨false⟩
    | some into =>
      if a.source.map BoardParcel.id = some into.id then .error ⟨false⟩
      else if into.kind = .pallet then .error ⟨false⟩
      else if into.kind = .asIs then .error ⟨false⟩
      else if into.isSealed then .error ⟨false⟩
      else if (a.source.map BoardParcel.made) = some true ∧ into.made = false then .error ⟨false⟩
      else
        match into.preset with
        | none => .error ⟨false⟩
        | some box => .ok (putIn a (some into) into.id box d)
  | _ => .error ⟨false⟩

/-- A pallet things are dropped on: what it weighs so far and the rules it is built to. -/
structure Onto where
  id : Id
  made : Bool
  grams : ℚ
  rules : Option RuleSet

/-- What a pallet weighs empty, by its preset. -/
def palletTare (planned : Option PlannedParcel) (carton : Option CartonSummary) : ℚ :=
  let preset : Option ScreenPreset := match planned with
    | some pp => screen.presets.find? fun p => some p.id = pp.packageTypeId
    | none => screen.presets.find? fun p => some p.name = carton.bind CartonSummary.packageType
  (preset.bind fun p => p.tareWeightG).getD 0

/-- What a pallet weighs with what is on it. -/
def palletWeight (pallet : BoardParcel) : ℚ :=
  match pallet.carton.bind CartonSummary.grossWeightG with
  | some own => own
  | none => palletTare screen pallet.planned pallet.carton+
    ((board.parcels.filter (·.on = some pallet.id)).map fun p => p.weightG.getD 0*(p.count : ℚ)).sum

/-- The rules a pallet is built to: kept when made, its carrier's now when planned. -/
def palletRules (p : BoardParcel) : Option RuleSet :=
  match p.carton with
  | some c => c.rules
  | none => (carrierOf screen (p.planned.bind PlannedParcel.carrierId)).bind BenchCarrier.asOne

/-- The preset a new pallet is of. -/
def palletPreset : Option ScreenPreset :=
  (screen.presets.find? fun p => p.deck.isSome && p.name.toUpper = "PALLET").or
    (screen.presets.find? fun p => p.deck.isSome)

/-- The pallet a parcel is dropped on: a new one planned, or the one it lands on. -/
def ontoPallet (moving : BoardParcel) (d : Dropping) : Except Refused (Onto × Dropping) :=
  match target with
  | .newPallet =>
    match palletPreset screen with
    | none => .error ⟨false⟩
    | some p =>
      let pp := newParcel (newId d.taken) (some p.id)
      .ok (⟨pp.id,false,palletTare screen (some pp) none,(carrierOf screen none).bind BenchCarrier.asOne⟩,
        {d with plan := d.plan++[pp], changed := true, taken := d.taken+1})
  | .parcel id =>
    match (parcelOf board id).filter (·.kind = .pallet) with
    | none => .error ⟨false⟩
    | some onto =>
      if some onto.id = moving.on then .error ⟨false⟩
      else .ok (⟨onto.id,onto.made,palletWeight screen board onto,palletRules screen onto⟩,d)
  | _ => .error ⟨false⟩

/-- One of a thing as it is, planned onto a pallet. -/
def plannedOnto (id : Id) (a : AsIs) (config : Option Uuid) (pallet : Onto) : PlannedParcel where
  id := id
  packageTypeId := none
  asIs := some ⟨a.itemId,a.level,config⟩
  onParcelId := if pallet.made then none else some pallet.id
  onPackageId := if pallet.made then some pallet.id else none
  spot := none
  placedByHand := true
  carrierId := none
  lines := [⟨a.line,a.per⟩]

/-- A parcel onto its pallet. -/
def putOn (moving : BoardParcel) (going : ℤ) (pallet : Onto) (d : Dropping) : Dropping :=
  if moving.made then
    -- a made carton goes on a made pallet: one only planned is made first
    let d : Dropping := if !pallet.made && !d.made.contains pallet.id then {d with
        acts := d.acts++[.make pallet.id]
        made := d.made++[pallet.id]
        undo := .unmake pallet.id none :: d.undo}
      else d
    {d with
      acts := d.acts++[.contain moving.id pallet.id]
      undo := (match moving.on with
        | some was => BoardAct.contain moving.id was
        | none => .takeOff moving.id) :: d.undo}
  else if moving.planned.isSome then {d with
    plan := d.plan.map fun pp => if pp.id = moving.id then {pp with
        onParcelId := if pallet.made then none else some pallet.id
        onPackageId := if pallet.made then some pallet.id else none
        spot := none
        placedByHand := true}
      else pp
    changed := true}
  else
    match moving.asIs with
    | none => d
    | some a =>
      let config := if a.level = .each then none else moving.goods.head?.bind fun g => g.line.ownCarton
      {d with
        plan := d.plan++(List.range going.toNat).map fun i => plannedOnto (newId (d.taken+i)) a config pallet
        changed := true
        taken := d.taken+going.toNat}

/-- A parcel dropped. -/
def dropParcel (moving : BoardParcel) (d : Dropping) : Except Refused Dropping :=
  if moving.kind = .pallet then .error ⟨false⟩
  else if target = .bench then
    match moving.on with
    | none => .ok d
    | some on =>
      if moving.made then .ok {d with
        acts := d.acts++[.takeOff moving.id]
        undo := .contain moving.id on :: d.undo}
      else .ok {d with
        plan := d.plan.map fun pp =>
          if pp.id = moving.id then {pp with onParcelId := none, onPackageId := none, spot := none} else pp
        changed := true}
  else (ontoPallet screen board target newId moving d).bind fun (pallet,d) =>
    let going : ℤ := if moving.asIs.isSome then min moving.count (how.count.getD (if how.one then 1 else moving.count)) else 1
    let adding := moving.weightG.getD 0*going
    if heavierThan pallet.rules (pallet.grams+d.added pallet.id+adding) then .error ⟨false⟩
    else .ok (putOn newId moving going pallet
      {d with added := Function.update d.added pallet.id (d.added pallet.id+adding)})

/-- One thing after another, each round what the last put in. -/
def dropKey (d : Dropping) (key : Thing) : Except Refused Dropping :=
  match key with
  | .goods line parcel =>
    match asked screen board how line parcel with
    | none => .ok d
    | some a => dropGoods screen board objective target newId a d
  | .parcel id =>
    match parcelOf board id with
    | none => .ok d
    | some moving => dropParcel screen board target how newId moving d

/-- Before any key. -/
def noneDropped : Dropping where
  plan := planOf board
  changed := false
  acts := []
  undo := []
  made := []
  added := fun _ => 0
  -- a map made of the parcels keeps the last of an id
  inside := fun id => ((board.parcels.reverse.find? (·.id = id)).map BoardParcel.goods).getD []
  fresh := none
  taken := 0

/-- What dropping these things on the target does. -/
def dropOn (keys : List Thing) : Except Refused Outcome :=
  (keys.foldlM (dropKey screen board objective target how newId) (noneDropped board)).bind fun d =>
  if d.changed = false ∧ d.acts = [] then .error ⟨false⟩
  else .ok
    ⟨if d.changed then some d.plan else none,d.acts,
      ⟨if d.changed || !d.made.isEmpty then some (afresh (planOf board) d.made fun i => newId (d.taken+i)) else none,
        d.undo⟩⟩

end

end Drag
end Spork
