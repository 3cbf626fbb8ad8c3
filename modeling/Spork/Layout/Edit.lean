import Spork.Layout.Editor
import Spork.Layout.Pattern
import Spork.Layout.TwoSides
import Spork.Lib.Fallible

/-! Saving what the plan editor changed (`places.rs`, `edit_layout`): the places changed, added,
put round a bin and removed, one row at a time in one transaction, and the bins of a place
numbered from its other end put in the cells their names are on now. -/
namespace Spork
namespace Layout
namespace Edit

abbrev Uuid := ℕ

/-- A place. Its turn is in whole degrees. -/
structure Row where
  id : Uuid
  parentId : Option Uuid
  name : String
  solid : Bool
  box : PlaceBox ℚ
  outline : Option (List ℚ)
  grid : Grid
  pattern : Option String
  reachLevels : ℤ

/-- A bin, and the cell it is in when it is on the layout. -/
structure Bin where
  id : Uuid
  code : String
  active : Bool
  cell : Option (Uuid × GridCell)

inductive ChangeKind where
  | added
  | changed
  | removed
  deriving DecidableEq, Repr

/-- How a place is kept in its history. -/
structure Kept where
  parentId : Option Uuid
  name : String
  solid : Bool
  box : PlaceBox ℚ
  fromRight : Bool

/-- A row of `place_change`. -/
structure PlaceChange where
  placeId : Uuid
  change : ChangeKind
  before : Option Kept
  after : Option Kept
  /-- The bin an added spot holds. -/
  bin : Option String

/-- A site's layout, and its history. -/
structure Plan where
  places : List Row
  bins : List Bin
  changes : List PlaceChange

inductive ApiError where
  | notFound
  | rejected (why : String)
  | database
  | panics
  deriving DecidableEq, Repr

structure PlaceChanged where
  placeId : Uuid
  name : String
  solid : Bool
  box : PlaceBox ℚ
  /-- Numbered from the right end of its front. None is as it was. -/
  fromRight : Option Bool

structure PlaceAdded where
  placeId : Uuid
  parentId : Option Uuid
  name : String
  solid : Bool
  box : PlaceBox ℚ

/-- A bin from the tray put on the plan as a spot of its own. -/
structure SpotAdded where
  placeId : Uuid
  locationId : Uuid
  parentId : Option Uuid
  solid : Bool
  box : PlaceBox ℚ

structure LayoutEdit where
  /-- The layout's fingerprint when the editor read it. -/
  version : String
  changed : List PlaceChanged
  added : List PlaceAdded
  removed : List Uuid
  spots : List SpotAdded

/-! ## What is checked -/

def trimmed (name : String) : String := asString (trim name.toList)

/-- `btrim(name) <> ''`: something in it is not a space. -/
def NameCk (name : String) : Prop := ∃ c ∈ name.toList, c ≠ ' '

instance : DecidablePred NameCk := fun name => List.decidableBEx (fun c => c ≠ ' ') name.toList

/-- To the nearest whole number, a half away from nought. -/
def roundAway (q : ℚ) : ℤ := if 0 ≤ q then ⌊q+1/2⌋ else ⌈q-1/2⌉

/-- A box with its turn in whole degrees. -/
def kept (box : PlaceBox ℚ) : PlaceBox ℚ := {box with turn := ((roundAway box.turn%360 : ℤ) : ℚ)}

/-- A box worth keeping, or what is wrong with it. -/
def checked (box : PlaceBox ℚ) (what : String) : Except ApiError (PlaceBox ℚ) :=
  if box.length ≤ 0 ∨ box.depth ≤ 0 ∨ box.height ≤ 0 then
    .error (.rejected (what++" needs a length, a depth and a height above nothing"))
  else .ok (kept box)

def asKept (r : Row) : Kept := ⟨r.parentId,r.name,r.solid,r.box,r.grid.fromRight⟩

/-! ## Rows written -/

/-- `place_name_key`: another place of the parent has the name. -/
def nameTaken (places : List Row) (id : Uuid) (parentId : Option Uuid) (name : String) : Bool :=
  places.any fun q => decide (q.id ≠ id ∧ q.parentId = parentId ∧ q.name = name)

/-- A database refusal the person can act on, in their words. -/
def alreadyCalled (name : String) : ApiError := .rejected ("there is already a place called "++name++" there")

def cantBeDrawn (name : String) : ApiError := .rejected (name++" can't be drawn like that")

/-- Which end a changed place is numbered from. -/
def endOf (c : PlaceChanged) (was : Row) : Bool := c.fromRight.getD was.grid.fromRight

/-- A place with the columns a change sets. -/
def write (c : PlaceChanged) (r : Row) : Row :=
  {r with
    name := trimmed c.name
    solid := c.solid
    box := kept c.box
    grid := {r.grid with fromRight := endOf c r}}

/-- `UPDATE place … WHERE id = $1`. -/
def updatePlace (places : List Row) (c : PlaceChanged) : Except ApiError (List Row) :=
  if places.any fun r => decide (r.id = c.placeId) && nameTaken places c.placeId r.parentId (trimmed c.name) then
    .error (alreadyCalled (trimmed c.name))
  else .ok (places.map fun r => if r.id = c.placeId then write c r else r)

/-- A place with a cell and no pattern. -/
def made (placeId : Uuid) (parentId : Option Uuid) (name : String) (solid : Bool) (box : PlaceBox ℚ) : Row :=
  ⟨placeId,parentId,name,solid,box,none,Grid.single,none,1⟩

/-- `INSERT INTO place`. -/
def insertPlace (places : List Row) (r : Row) : Except ApiError (List Row) :=
  if ¬NameCk r.name then .error (cantBeDrawn r.name)
  else if places.any (fun q => decide (q.id = r.id)) || nameTaken places r.id r.parentId r.name then
    .error (alreadyCalled r.name)
  else .ok (places++[r])

/-- `DELETE FROM place`, refused while a place or a bin is in it. -/
def deletePlace (plan : Plan) (id : Uuid) : Except ApiError (List Row) :=
  if plan.places.any (fun q => decide (q.parentId = some id)) || plan.bins.any (fun b => decide (b.cell.map Prod.fst = some id))
  then .error .database
  else .ok (plan.places.filter fun q => q.id ≠ id)

/-! ## Bins -/

/-- A bin in the cell it is given, when it has none. -/
def seatIn (cells : List (Uuid × Uuid × GridCell)) (b : Bin) : Bin :=
  match cells.find? fun t => t.1 = b.id with
  | none => b
  | some t => if b.cell = none then {b with cell := some t.2} else b

/-- Put bins in cells. Only a bin with no cell moves, and no two may be in one. -/
def put (bins : List Bin) (cells : List (Uuid × Uuid × GridCell)) : Except ApiError (List Bin) :=
  if ((bins.map (seatIn cells)).filterMap Bin.cell).Nodup then .ok (bins.map (seatIn cells)) else .error .database

/-- Whether a bin is in a place. -/
def Bin.isIn (b : Bin) (place : Uuid) : Bool := decide (b.cell.map Prod.fst = some place)

/-- A bin taken out of a place. -/
def takenOut (place : Uuid) (b : Bin) : Bin := if b.isIn place then {b with cell := none} else b

def cantBeNumbered (was : Row) (why : String) : ApiError :=
  .rejected (was.name++" can't be numbered from its other end: "++why)

/-- The cell a bin's name is on. -/
def cellOf (byName : List (GridCell × List Char)) (was : Row) (b : Bin) : Except ApiError (Uuid × Uuid × GridCell) :=
  match byName.find? fun n => n.2 = b.code.toList with
  | some n => .ok (b.id,was.id,n.1)
  | none => .error (cantBeNumbered was (b.code++" is in it, and isn't a name its pattern gives"))

/-- Number a place from the other end of its front: each bin, keeping its name, goes to the
cell that name is on now. -/
def renumber (bins : List Bin) (was : Row) (fromRight : Bool) : Except ApiError (List Bin) :=
  let inside := bins.filter fun b => b.isIn was.id
  if inside = [] then .ok bins
  else
    match was.pattern.bind fun s => (Pattern.parse s.toList).toOption with
    | none => .error (cantBeNumbered was "it has no pattern its bins are named by")
    | some pattern =>
      match pattern.names {was.grid with fromRight := fromRight} with
      | .error (.error why) => .error (cantBeNumbered was why)
      | .error .panics => .error .panics
      | .ok byName => do
        let cells ← inside.mapM (cellOf byName was)
        -- off and back on: a swap made in one statement collides with itself
        put (bins.map (takenOut was.id)) cells

/-! ## The edit -/

def byId (rows : List Row) (id : Uuid) : Option Row := rows.find? fun r => r.id = id

/-- What the database says of a row asked for by id. -/
def found {α : Type} : Option α → Except ApiError α
  | none => .error .notFound
  | some a => .ok a

def refuseIf (p : Prop) [Decidable p] (why : String) : Except ApiError Unit := Fallible.refuseIf p (.rejected why)

/-- A place changed. `rows` are the places as they were read before the first write. -/
def change (rows : List Row) (plan : Plan) (c : PlaceChanged) : Except ApiError Plan := do
  let was ← found (byId rows c.placeId)
  let name := trimmed c.name
  refuseIf (name = "") "a place needs a name"
  let box ← checked c.box name
  refuseIf (was.outline ≠ none ∧ (box.length ≠ was.box.length ∨ box.depth ≠ was.box.depth))
    (name++" has its own outline, so it is moved and turned, not resized")
  refuseIf (was.grid.sides = 2 ∧ c.solid = false) (name++" has bins on two sides, so it stays solid")
  let places ← updatePlace plan.places c
  let bins ← if endOf c was ≠ was.grid.fromRight then renumber plan.bins was (endOf c was) else .ok plan.bins
  .ok ⟨places,bins,plan.changes++[⟨c.placeId,.changed,some (asKept was),some (asKept (write c was)),none⟩]⟩

/-- Whether a place is inside none, or one that is on the site. -/
def OnSite (rows : List Row) (parentId : Option Uuid) : Prop := ∀ p ∈ parentId, (byId rows p).isSome = true

instance (rows : List Row) : DecidablePred (OnSite rows) := fun parentId =>
  inferInstanceAs (Decidable (∀ p ∈ parentId, (byId rows p).isSome = true))

/-- A place added. -/
def add (rows : List Row) (plan : Plan) (a : PlaceAdded) : Except ApiError Plan := do
  let name := trimmed a.name
  refuseIf (name = "") "a place needs a name"
  refuseIf (¬OnSite rows a.parentId) (name++" is inside a place that isn't on this site")
  let box ← checked a.box name
  let r := made a.placeId a.parentId name a.solid box
  let places ← insertPlace plan.places r
  .ok ⟨places,plan.bins,plan.changes++[⟨a.placeId,.added,none,some (asKept r),none⟩]⟩

/-- The one cell of a spot. -/
def onlyCell : GridCell := ⟨1,1,1,1,1⟩

/-- A bin that is on no layout put on a spot of its own. -/
def spot (rows : List Row) (plan : Plan) (s : SpotAdded) : Except ApiError Plan := do
  let bin ← found (plan.bins.find? fun b => b.id = s.locationId ∧ b.active)
  refuseIf (¬OnSite rows s.parentId) (bin.code++" is inside a place that isn't on this site")
  let box ← checked s.box bin.code
  let r := made s.placeId s.parentId bin.code s.solid box
  let places ← insertPlace plan.places r
  refuseIf (bin.cell ≠ none) (bin.code++" is on the layout already, so it stays where it is")
  let bins ← put plan.bins [(s.locationId,s.placeId,onlyCell)]
  .ok ⟨places,bins,plan.changes++[⟨s.placeId,.added,none,some (asKept r),some bin.code⟩]⟩

/-- Whether a place may be removed. -/
def removable (rows : List Row) (bins : List Bin) (removed : List Uuid) (id : Uuid) : Except ApiError Unit := do
  let was ← found (byId rows id)
  let n := bins.countP fun b => b.isIn id
  refuseIf (n > 0) (was.name++" still has "++toString n++" bin"++(if n = 1 then "" else "s")++" in it, so it stays")
  refuseIf (rows.any fun p => decide (p.parentId = some id ∧ p.id ∉ removed)) (was.name++" has places inside it, so it stays")

/-- How many places a place is inside, counted no further than one past all there are. -/
def climb (rows : List Row) : ℕ → Option Uuid → ℕ
  | 0, _ => 0
  | _+1, none => 0
  | n+1, some id => climb rows n ((byId rows id).bind Row.parentId)+1

def depthOf (rows : List Row) (p : Row) : ℕ := climb rows (rows.length+1) p.parentId

/-- The places to remove, those inside others first. -/
def gone (rows : List Row) (removed : List Uuid) : List Row :=
  (removed.filterMap (byId rows)).insertionSort fun p q => depthOf rows q ≤ depthOf rows p

/-- A place removed. -/
def remove (plan : Plan) (was : Row) : Except ApiError Plan := do
  let places ← deletePlace plan was.id
  .ok ⟨places,plan.bins,plan.changes++[⟨was.id,.removed,some (asKept was),none,none⟩]⟩

/-- A save, judged against the places as it first reads them. `version` is the fingerprint of
the places. -/
def editLayout (version : List Row → String) (plan : Plan) (e : LayoutEdit) : Except ApiError Plan := do
  refuseIf (version plan.places ≠ e.version)
    "the layout has changed since you opened it; open it again to see what changed, then make your change"
  let changed ← e.changed.foldlM (change plan.places) plan
  let added ← e.added.foldlM (add plan.places) changed
  let spotted ← e.spots.foldlM (spot plan.places) added
  e.removed.forM (removable plan.places spotted.bins e.removed)
  (gone plan.places e.removed).foldlM remove spotted

/-- The layout a save leaves: one that is refused leaves what it found. -/
def save (version : List Row → String) (plan : Plan) (e : LayoutEdit) : Plan :=
  match editLayout version plan e with
  | .error _ => plan
  | .ok left => left

end Edit
end Layout
end Spork
