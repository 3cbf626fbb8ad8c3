import Spork.Items.Holds
import Spork.Layout.Saves
import Spork.Lib.UndoStack

/-! The plan editor (client/app/layout/usePlanEditor.ts, edit.ts): the places of the layout as it
was read, changed on the plan with an undo for each change, and what a save of them sends. -/
namespace Spork
namespace Layout
namespace Desk

open Edit (Uuid Row Bin Plan PlaceChanged PlaceAdded SpotAdded LayoutEdit)
open UndoStack (lastOf)

/-- A place of the layout as it is read. -/
structure LayoutPlace where
  placeId : Uuid
  parentId : Option Uuid
  /-- Bins in its own cells. -/
  bins : ℕ
  name : String
  solid : Bool
  bays : ℤ
  levels : ℤ
  sides : ℤ
  fromRight : Bool
  box : PlaceBox ℚ
  outlined : Bool

/-- A site's layout as it is read. -/
structure LayoutView where
  places : List LayoutPlace
  version : String
  /-- How many millimetres one cell is, once the site says. -/
  cellMm : Option ℕ

def layoutPlace (bins : List Bin) (r : Row) : LayoutPlace :=
  ⟨r.id,r.parentId,bins.countP (·.isIn r.id),r.name,r.solid,r.grid.bays,r.grid.levels,r.grid.sides,r.grid.fromRight,r.box,
    r.outline.isSome⟩

/-- `GET /layout` -/
def siteLayout (version : List Row → String) (cellMm : Option ℕ) (plan : Plan) : LayoutView :=
  ⟨plan.places.map (layoutPlace plan.bins),version plan.places,cellMm⟩

/-- A place as the editor holds it. -/
structure Draft where
  placeId : Uuid
  parentId : Option Uuid
  name : String
  solid : Bool
  box : PlaceBox ℚ
  /-- It has an outline of its own: moved and turned, never resized. -/
  outlined : Bool
  sides : ℤ
  fromRight : Bool
  bays : ℤ
  levels : ℤ
  /-- Bins in its cells, and places inside it: either keeps it. -/
  bins : ℕ
  /-- Drawn in this editor, not yet saved. -/
  fresh : Bool
  /-- A bin from the tray this new spot is for, named for it. -/
  holds : Option (Uuid × String)

/-- The editor's places, from the layout as read. -/
def draftsOf (view : LayoutView) : List Draft :=
  let children := view.places.filterMap LayoutPlace.parentId
  view.places.map fun p =>
    ⟨p.placeId,p.parentId,p.name,p.solid,p.box,p.outlined,p.sides,p.fromRight,p.bays,p.levels,
      p.bins+(if p.placeId ∈ children then 1 else 0),false,none⟩

/-! ## What a save sends -/

def trim (s : String) : String := String.ofList (Text.trim Items.isSpace s.toList)

def sameBox (a b : PlaceBox ℚ) : Bool :=
  [a.x-b.x,a.y-b.y,a.z-b.z,a.length-b.length,a.depth-b.depth,a.height-b.height,a.turn-b.turn].all fun n => |n| < 1/10^9

/-- Whether a place is not as it was. -/
def differs (before d : Draft) : Bool :=
  before.name ≠ trim d.name || before.solid ≠ d.solid || before.fromRight ≠ d.fromRight || !sameBox before.box d.box

def was (view : LayoutView) (id : Uuid) : Option Draft := (draftsOf view).find? fun d => d.placeId = id

def changedRow (d : Draft) : PlaceChanged := ⟨d.placeId,trim d.name,d.solid,d.box,some d.fromRight⟩

def addedRow (d : Draft) : PlaceAdded := ⟨d.placeId,d.parentId,trim d.name,d.solid,d.box⟩

def spotRow (d : Draft) (location : Uuid) : SpotAdded := ⟨d.placeId,location,d.parentId,d.solid,d.box⟩

/-- What a save sends: each place changed, added or removed since the read. -/
def changesOf (view : LayoutView) (drafts : List Draft) : LayoutEdit where
  version := view.version
  changed := drafts.filterMap fun d => (was view d.placeId).bind fun before => if differs before d then some (changedRow d) else none
  added := drafts.filterMap fun d => if (was view d.placeId).isNone && d.holds.isNone then some (addedRow d) else none
  removed := ((draftsOf view).map Draft.placeId).filter (· ∉ drafts.map Draft.placeId)
  spots := drafts.filterMap fun d => if (was view d.placeId).isNone then d.holds.map fun h => spotRow d h.1 else none

/-- How many changes a save would make. -/
def changeCount (view : LayoutView) (drafts : List Draft) : ℕ :=
  let c := changesOf view drafts
  c.changed.length+c.added.length+c.removed.length+c.spots.length

/-! ## The editor -/

/-- What a place can be added as. -/
structure Preset where
  name : String
  solid : Bool
  length : ℚ
  depth : ℚ
  height : ℚ

/-- A name not yet used inside the same parent: "Wall", then "Wall 2". One of as many as are
taken, and one more, is not taken. -/
def freeName (lower : String → String) (drafts : List Draft) (parent : Option Uuid) (base : String) : String :=
  let taken := (drafts.filter fun d => d.parentId = parent).map fun d => lower (trim d.name)
  if lower base ∉ taken then base
  else (((List.range (taken.length+1)).map fun k => base++" "++toString (k+2)).find? fun name => lower name ∉ taken).getD base

/-- The editor: the layout as it was read, its places as they are now, and the places before
and after each change. -/
structure PlanDesk where
  view : LayoutView
  drafts : List Draft
  past : List (List Draft)
  future : List (List Draft)

/-- What is changed of a place by itself. -/
inductive Change where
  | name (next : String)
  | solid (next : Bool)
  | fromRight (next : Bool)
  | box (next : PlaceBox ℚ → PlaceBox ℚ)

inductive Act where
  | change (placeIds : List Uuid) (next : Change)
  | place (boxes : Uuid → Option (PlaceBox ℚ))
  | begin
  | drag (boxes : Uuid → Option (PlaceBox ℚ))
  | add (preset : Preset) (placeId : Uuid) (x y : ℚ)
  | placeBin (location : Uuid) (code : String) (placeId : Uuid) (x y : ℚ)
  | remove (placeId : Uuid)
  | undo
  | redo
  | measureInMetres
  | discard

/-- The layout read into the editor. -/
def load (view : LayoutView) : PlanDesk := ⟨view,draftsOf view,[],[]⟩

def Change.apply : Change → Draft → Draft
  | .name next, d => {d with name := next}
  | .solid next, d => {d with solid := next}
  | .fromRight next, d => {d with fromRight := next}
  | .box next, d => {d with box := next d.box}

def boxed (boxes : Uuid → Option (PlaceBox ℚ)) (d : Draft) : Draft := {d with box := (boxes d.placeId).getD d.box}

/-- One change, with the places before it kept. -/
def PlanDesk.step (s : PlanDesk) (next : List Draft) : PlanDesk := ⟨s.view,next,lastOf 99 s.past++[s.drafts],[]⟩

/-- The outermost place. -/
def outermost (drafts : List Draft) : Option Draft := drafts.find? fun d => d.parentId = none

def parentId (drafts : List Draft) : Option Uuid := (outermost drafts).map Draft.placeId

/-- How wide a bin's spot is drawn: two metres once the floor is measured, two cells before. -/
def spotSize (cellMm : Option ℕ) : ℚ :=
  match cellMm with
  | some (mm+1) => 2000/(mm+1)
  | _ => 2

def PlanDesk.act (lower : String → String) (s : PlanDesk) : Act → PlanDesk
  | .change placeIds next => s.step (s.drafts.map fun d => if d.placeId ∈ placeIds then next.apply d else d)
  | .place boxes => s.step (s.drafts.map (boxed boxes))
  | .begin => ⟨s.view,s.drafts,lastOf 99 s.past++[s.drafts],[]⟩
  | .drag boxes => {s with drafts := s.drafts.map (boxed boxes)}
  | .add preset placeId x y =>
    s.step (s.drafts++[⟨placeId,parentId s.drafts,freeName lower s.drafts (parentId s.drafts) preset.name,preset.solid,
      ⟨x,y,0,preset.length,preset.depth,preset.height,0⟩,false,1,false,1,1,0,true,none⟩])
  | .placeBin location code placeId x y =>
    if s.drafts.any fun d => decide (d.holds.map Prod.fst = some location) then s
    else
      let size := spotSize s.view.cellMm
      s.step (s.drafts++[⟨placeId,parentId s.drafts,code,false,⟨x,y,0,size,size,size/2,0⟩,false,1,false,1,1,0,true,
        some (location,code)⟩])
  | .remove placeId => s.step (s.drafts.filter fun d => d.placeId ≠ placeId)
  | .undo =>
    match s.past.getLast? with
    | none => s
    | some before => ⟨s.view,before,s.past.dropLast,s.drafts :: s.future⟩
  | .redo =>
    match s.future with
    | [] => s
    | after :: future => ⟨s.view,after,s.past++[s.drafts],future⟩
  -- the scale is the site's, not the drawing's: the changes stand
  | .measureInMetres => {s with view := {s.view with cellMm := some 1000}}
  | .discard => s.step (draftsOf s.view)

/-! ## The editor and the server -/

/-- A site's layout, and an editor open on it. `read` is the layout as the editor read it. -/
structure World where
  plan : Plan
  read : Plan
  desk : PlanDesk

inductive Event where
  | act (a : Act)
  | save
  | load
  /-- Somebody else leaves another layout. -/
  | elsewhere (left : Plan)

/-- The layout read into the editor. -/
def World.load (version : List Row → String) (cellMm : Option ℕ) (plan : Plan) : World :=
  ⟨plan,plan,Desk.load (siteLayout version cellMm plan)⟩

/-- The editor sends its changes, when it has any. -/
def World.save (version : List Row → String) (w : World) : World :=
  if changeCount w.desk.view w.desk.drafts = 0 then w
  else {w with plan := Edit.save version w.plan (changesOf w.desk.view w.desk.drafts)}

def World.step (version : List Row → String) (lower : String → String) (w : World) : Event → Option World
  | .act a => some {w with desk := w.desk.act lower a}
  | .save => some (w.save version)
  | .load => some (World.load version w.desk.view.cellMm w.plan)
  | .elsewhere left => some {w with plan := left}

/-! ## What the page offers -/

/-- A turn as a place keeps it: in whole degrees, less than once round. -/
def Upright (box : PlaceBox ℚ) : Prop := ∃ n : ℤ, 0 ≤ n ∧ n < 360 ∧ box.turn = n

/-- What the page has to press, as the editor stands: a spot keeps its bin's name, one bay is
numbered from neither end, turns are in whole degrees, a place drawn has an id of its own, and a
place is taken away when nothing is in it and it is in another. -/
def Offered (s : PlanDesk) : Act → Prop
  | .change placeIds (.name _) => ∀ d ∈ s.drafts, d.placeId ∈ placeIds → d.holds = none
  | .change placeIds (.fromRight _) => ∀ d ∈ s.drafts, d.placeId ∈ placeIds → 1 < d.bays
  | .change _ (.solid _) => True
  | .change _ (.box next) => ∀ b, Upright b → Upright (next b)
  | .place boxes | .drag boxes => ∀ id, ∀ b ∈ boxes id, Upright b
  | .add _ placeId .. | .placeBin _ _ placeId .. =>
    placeId ∉ s.drafts.map Draft.placeId ∧ placeId ∉ s.view.places.map LayoutPlace.placeId
  | .remove placeId => ∀ d ∈ s.drafts, d.placeId = placeId → d.bins = 0 ∧ d.parentId ≠ none
  | .begin | .undo | .redo | .measureInMetres | .discard => True

/-- A layout as its tables keep it. -/
structure Kept (plan : Plan) : Prop where
  sound : Edit.Sound plan
  upright : ∀ r ∈ plan.places, Upright r.box

def Fair (w : World) : Event → Prop
  | .act a => Offered w.desk a
  | .save | .load => True
  | .elsewhere left => Kept left

end Desk
end Layout
end Spork
