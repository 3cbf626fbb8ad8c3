import Spork.Lib.Double

/-! Packing pieces into one box, layer on layer (`arrange.ts`): the ways up a
thing can go, filling a space largest first, and the layers that makes.

Lengths are whole millimetres, never past 53 bits, and weights are grams by the record;
areas and volumes are the doubles their products come to. A loop of the source is run to a
given depth, and `none` says it was cut off there; `pack` runs it as deep as there are
pieces, which is always to its end. -/
namespace Spork
namespace Packing

/-- A database id: only told apart, or put in order where the code does. -/
abbrev Uuid := ℕ

inductive Level
  | each | inner | carton
  deriving DecidableEq, Repr

/-- Millimetres along the box's length, across its width, and up. -/
structure Dims where
  l : ℤ
  w : ℤ
  h : ℤ
  deriving DecidableEq, Repr

/-- The `i`th of the three, as the source indexes them. -/
def Dims.side (d : Dims) : Fin 3 → ℤ
  | 0 => d.l
  | 1 => d.w
  | 2 => d.h

/-- Which of a thing's own length, width and height runs along each of the box's. -/
structure Axes where
  l : Fin 3
  w : Fin 3
  h : Fin 3
  deriving DecidableEq, Repr

/-- One kind of thing to place: an each or an inner pack of a line's item. -/
structure Kind where
  line : Uuid
  itemId : Uuid
  itemCode : String
  level : Level
  /-- Eaches in one of it. -/
  units : ℤ
  size : Dims
  weightG : Option ℚ
  /-- It stays the way up it stands: turned round, never onto its side. -/
  upright : Bool
  /-- Its line's place on the bench. -/
  index : ℕ
  deriving DecidableEq, Repr

structure Placement where
  kind : Kind
  x : ℤ
  y : ℤ
  z : ℤ
  /-- Its extent along the box's length, width and height, as placed. -/
  dims : Dims
  axes : Axes
  /-- Whether it is in the open carton already; `false` in a box not yet started. -/
  packed : Bool := false
  deriving DecidableEq, Repr

structure Layer where
  z : ℤ
  height : ℤ
  placements : List Placement
  deriving DecidableEq, Repr

instance threeAxes : NeZero 3 := ⟨by decide⟩

/-- The six ways up a thing can go. -/
def ways : List Axes := [⟨0,1,2⟩,⟨1,0,2⟩,⟨0,2,1⟩,⟨2,0,1⟩,⟨1,2,0⟩,⟨2,1,0⟩]

structure Way where
  axes : Axes
  dims : Dims
  deriving DecidableEq, Repr

def turned (size : Dims) (axes : Axes) : Dims :=
  ⟨size.side axes.l,size.side axes.w,size.side axes.h⟩

/-- The loop of `fitting`, with the extents it has `seen`. -/
def fittingFrom (size room : Dims) (upright : Bool) : List Axes → List Dims → List Way
  | [], _ => []
  | axes :: rest, seen =>
    if upright && axes.h != 2 then fittingFrom size room upright rest seen
    else
      let dims := turned size axes
      if dims ∈ seen then fittingFrom size room upright rest seen
      else if dims.l ≤ room.l ∧ dims.w ≤ room.w ∧ dims.h ≤ room.h then
        ⟨axes,dims⟩ :: fittingFrom size room upright rest (dims :: seen)
      else fittingFrom size room upright rest (dims :: seen)

/-- Every distinct way up that fits in `room`; for a thing kept upright, only turned round. -/
def fitting (size room : Dims) (upright : Bool) : List Way :=
  fittingFrom size room upright ways []

/-- One step of `flattest`: the best way so far with how many of it tile the room. -/
def flatter (room : Dims) (best : Option (Way × ℤ)) (w : Way) : Option (Way × ℤ) :=
  let area := Double.mul w.dims.l w.dims.w
  let tiles := Double.mul (room.l/w.dims.l) (room.w/w.dims.w)
  match best with
  | none => some (w,tiles)
  | some (b,bestTiles) =>
    let bestArea := Double.mul b.dims.l b.dims.w
    if area > bestArea ∨ (area = bestArea ∧ tiles > bestTiles) then some (w,tiles) else best

/-- Laid on its biggest side; of the two ways round it can lie, the one more of
it fit across the room. -/
def flattest (size room : Dims) (upright : Bool) : Option Way :=
  ((fitting size room upright).foldl (flatter room) none).map Prod.fst

def volume (d : Dims) : ℤ := Double.mul (Double.mul d.l d.w) d.h

/-- The area of its biggest side, which is what it takes of a floor laid flat. -/
def footprint (d : Dims) : ℤ := max (Double.mul d.l d.w) (max (Double.mul d.l d.h) (Double.mul d.w d.h))

/-- What is still to place: a kind and how many of it. -/
structure Left where
  kind : Kind
  count : ℕ
  deriving DecidableEq, Repr

/-- The comparator of `sorted` does not put `b` before `a`: bigger footprint
first, then bigger volume, then the line's place. -/
def notAfter (a b : Left) : Prop :=
  footprint b.kind.size < footprint a.kind.size ∨
  (footprint b.kind.size = footprint a.kind.size ∧
    (volume b.kind.size < volume a.kind.size ∨
    (volume b.kind.size = volume a.kind.size ∧ a.kind.index ≤ b.kind.index)))

instance notAfterDecidable : DecidableRel notAfter := fun a b => by
  unfold notAfter; infer_instance

/-- A stable sort, as the language's is. -/
def sorted (left : List Left) : List Left := left.insertionSort notAfter

structure Space where
  x : ℤ
  y : ℤ
  z : ℤ
  room : Dims
  deriving DecidableEq, Repr

/-- The weight a kind counts for against a limit: one with none recorded weighs nothing. -/
def Kind.weight (k : Kind) : ℚ := k.weightG.getD 0

/-- What filling works on: what is still to place, what is placed and, for the
budget, what that weighs so far. -/
structure Filling where
  left : List Left
  out : List Placement
  used : ℚ
  deriving DecidableEq, Repr

def affords (limit : Option ℚ) (used : ℚ) (kind : Kind) : Bool :=
  match limit with
  | none => true
  | some most => used+kind.weight ≤ most

/-- How the next of an entry would lie in `room`: not at all when none is left,
the budget does not take it, or it does not fit. -/
def placeable (limit : Option ℚ) (used : ℚ) (room : Dims) (entry : Left) : Option Way :=
  if entry.count = 0 ∨ affords limit used entry.kind = false then none
  else flattest entry.kind.size room entry.kind.upright

/-- The first entry `way` has an answer for, and what is left with one of it taken. -/
def takeFirst (way : Left → Option Way) : List Left → Option (Kind × Way × List Left)
  | [] => none
  | entry :: rest =>
    match way entry with
    | some w => some (entry.kind,w,{entry with count := entry.count-1} :: rest)
    | none => (takeFirst way rest).map fun (k,w,rest') => (k,w,entry :: rest')

def putAt (x y z : ℤ) (kind : Kind) (way : Way) : Placement :=
  {kind := kind, x := x, y := y, z := z, dims := way.dims, axes := way.axes}

/-- Fill what is left of `space` once something of `placed` size is in its
corner: on top of it, then the floor beside it, cut so that the bigger of the
two pieces of floor stays whole. -/
def round (fill : Space → Filling → Option Filling) (space : Space) (placed : Dims)
    (st : Filling) : Option Filling := do
  let ⟨l,w,h⟩ := space.room
  let ⟨pl,pw,ph⟩ := placed
  let st ← if h > ph then fill ⟨space.x,space.y,space.z+ph,⟨pl,pw,h-ph⟩⟩ st else some st
  let beside := l-pl
  let before := w-pw
  if Double.mul beside w ≥ Double.mul before l then
    let st ← fill ⟨space.x+pl,space.y,space.z,⟨beside,w,h⟩⟩ st
    fill ⟨space.x,space.y+pw,space.z,⟨pl,before,h⟩⟩ st
  else
    let st ← fill ⟨space.x,space.y+pw,space.z,⟨l,before,h⟩⟩ st
    fill ⟨space.x+pl,space.y,space.z,⟨beside,pw,h⟩⟩ st

/-- Put the biggest thing that fits into the corner of `space`, then fill round
and on top of it. -/
def fill (limit : Option ℚ) : ℕ → Space → Filling → Option Filling
  | 0, _, _ => none
  | depth+1, space, st =>
    if space.room.l ≤ 0 ∨ space.room.w ≤ 0 ∨ space.room.h ≤ 0 then some st
    else
      match takeFirst (placeable limit st.used space.room) st.left with
      | none => some st
      | some (kind,way,left) =>
        round (fill limit depth) space way.dims
          ⟨left,st.out++[putAt space.x space.y space.z kind way],st.used+kind.weight⟩

/-- The layers of `pack` from height `z` up, and what does not go in. -/
def layersFrom (size : Dims) (limit : Option ℚ) :
    ℕ → ℤ → List Left → ℚ → Option (List Layer × List Left)
  | 0, _, _, _ => none
  | depth+1, z, left, used =>
    match takeFirst (placeable limit used ⟨size.l,size.w,size.h-z⟩) left with
    | none => some ([],left)
    | some (kind,way,left) => do
      let height := way.dims.h
      let st ← round (fill limit depth) ⟨0,0,z,⟨size.l,size.w,height⟩⟩ way.dims
        ⟨left,[putAt 0 0 z kind way],used+kind.weight⟩
      let (layers,left) ← layersFrom size limit depth (z+height) st.left st.used
      some (⟨z,height,st.out⟩ :: layers,left)

structure Packed where
  layers : List Layer
  left : List Left
  deriving DecidableEq, Repr

/-- `pack`, its loop and recursion run to `depth` at most. -/
def packWithin (depth : ℕ) (size : Dims) (pieces : List Left) (maxWeight : Option ℚ) :
    Option Packed :=
  (layersFrom size maxWeight depth 0 (sorted pieces) 0).map fun (layers,left) =>
    ⟨layers,left.filter (·.count > 0)⟩

/-- How many pieces there are in all. -/
def total (left : List Left) : ℕ := (left.map Left.count).sum

end Packing
end Spork
